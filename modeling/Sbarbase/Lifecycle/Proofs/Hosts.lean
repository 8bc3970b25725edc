import Sbarbase.Lifecycle.Host
/-!
# What a write leaves of a host

Each write on a host changes one of its parts, and of the containers only those
of one identity.
-/

namespace Sbarbase.Lifecycle.Host

open Lib

section

variable (host : Host) (id address runtime : String) (names : List String) (login : Bool)
  (journal : Journal) (endpoints : Dict String Entry)

theorem get_save : (host.save journal).journals.get journal.runtime = some journal := by
  rw [save, Dict.get_set, if_pos rfl]

@[simp] theorem endpoints_setEndpoints : (host.setEndpoints endpoints).endpoints = endpoints := rfl

end

section

theorem get_set_of_ne (login : Bool) (roles : Dict String Bool) (name name' : String)
    (h : name' ≠ name) : (roles.set name login).get name' = roles.get name' := by
  rw [Dict.get_set, if_neg h]

theorem get_setRoles_of_not_mem (host : Host) {names : List String} {login : Bool} {name : String}
    (h : name ∉ names) : (host.setRoles names login).roles.get name = host.roles.get name :=
  Dict.get_foldl_of_ne (get_set_of_ne login) names _ fun _ hother heq => h (heq ▸ hother)

theorem get_setRoles_of_mem (host : Host) {names : List String} {login : Bool} {name : String}
    (h : name ∈ names) : (host.setRoles names login).roles.get name = some login := by
  induction names generalizing host with
  | nil => cases h
  | cons first names ih =>
      change ((host.setRoles [first] login).setRoles names login).roles.get name = some login
      by_cases hmem : name ∈ names
      · exact ih _ hmem
      · obtain rfl := (List.mem_cons.mp h).resolve_right hmem
        rw [get_setRoles_of_not_mem _ hmem]
        exact (Dict.get_set _ _ _ _).trans (if_pos rfl)

end

section

variable {host : Host} {item : Container} {name id address : String}

theorem name_of_named (h : item ∈ host.named name) : item.name = name := by
  simpa using (List.mem_filter.mp h).2

theorem named_mapContainers {f : Container → Container} {hid : ∀ item, (f item).id = item.id}
    (hname : ∀ item, (f item).name = item.name) (name : String) :
    (host.mapContainers f hid).named name = (host.named name).map f := by
  unfold named mapContainers
  dsimp only
  rw [List.filter_map]
  congr 1
  apply List.filter_congr
  intro item _
  simp [hname]

/-- Another name has no container of the same identity. -/
theorem id_ne_of_named (h : host.named name = [item]) {name' : String} (hne : name' ≠ name)
    {other : Container} (hother : other ∈ host.named name') : other.id ≠ item.id := by
  intro heq
  have hitem : item ∈ host.named name := by
    rw [h]
    exact List.mem_singleton_self item
  have hsame : other = item :=
    List.inj_on_of_nodup_map host.ids_nodup (List.mem_filter.mp hother).1
      (List.mem_filter.mp hitem).1 heq
  rw [hsame] at hother
  exact hne ((name_of_named hother).symm.trans (name_of_named hitem))

theorem map_eq_self {f : Container → Container} {items : List Container}
    (h : ∀ item ∈ items, f item = item) : items.map f = items := by
  rw [List.map_congr_left h, List.map_id']

theorem named_stop (h : host.named name = [item]) :
    (host.stop item.id).named name = [{ item with running := false }] := by
  rw [stop, named_mapContainers (fun item => by split <;> rfl), h]
  simp

theorem named_stop_of_ne (h : host.named name = [item]) {name' : String} (hne : name' ≠ name) :
    (host.stop item.id).named name' = host.named name' := by
  rw [stop, named_mapContainers (fun item => by split <;> rfl)]
  exact map_eq_self fun other hother => if_neg (id_ne_of_named h hne hother)

/-- What a start leaves of a container. -/
def started (item : Container) (address : String) : Container :=
  if item.running = false then { item with running := true, address } else item

theorem named_start (h : host.named name = [item]) :
    (host.start item.id address).named name = [started item address] := by
  rw [start, named_mapContainers (fun item => by split <;> rfl), h]
  simp [started]

theorem named_start_of_ne (h : host.named name = [item]) {name' : String} (hne : name' ≠ name) :
    (host.start item.id address).named name' = host.named name' := by
  rw [start, named_mapContainers (fun item => by split <;> rfl)]
  exact map_eq_self fun other hother => if_neg fun heq => id_ne_of_named h hne hother heq.1

@[simp] theorem running_started (item : Container) (address : String) :
    (started item address).running = true := by
  unfold started
  split
  · rfl
  · simp_all

theorem identity_started (item : Container) (address : String) :
    (started item address).identity = item.identity := by
  unfold started
  split <;> rfl

theorem started_of_running (h : item.running = true) : started item address = item := by
  rw [started, if_neg (by rw [h]; simp)]

end

end Sbarbase.Lifecycle.Host
