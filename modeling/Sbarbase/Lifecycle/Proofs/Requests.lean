import Sbarbase.Lifecycle.Proofs.Runs
import Sbarbase.Lifecycle.System
/-!
# A request and its inventory

What the checks of a request say, and what an effect leaves for any request.
-/

namespace Sbarbase.Lifecycle.Proofs.Requests

open Lib Lib.Checked Lib.Durable Lifecycle.Host
open Lifecycle.Effect Lifecycle.Proofs.Records Lifecycle.Proofs.Runs

/-! ## The inventory -/

def kindRoles : Kind → List String
  | .container _ => []
  | .tenant _ roles _ => roles

/-- The logins of an inventory. -/
def tenantRoles (resources : List Resource) : List String :=
  (resources.filter fun item => item.kind.service = none).flatMap fun item => kindRoles item.kind

section

variable {runtime : String} {resources : List Resource}

theorem valid_parts (h : validateDurableInventory runtime resources = true) :
    (∀ item ∈ resources, validItem runtime item = true) ∧
      (resources.map Resource.resource).Nodup ∧
      (resources.filter fun item => item.kind.service = none).length = 1 := by
  unfold validateDurableInventory at h
  simp only [Bool.and_eq_true, List.all_eq_true, decide_eq_true_eq] at h
  obtain ⟨⟨⟨⟨⟨⟨-, hitems⟩, hnodup⟩, -⟩, -⟩, hone⟩, -⟩ := h
  exact ⟨hitems, hnodup, hone⟩

/-- There is one tenant in an inventory. -/
theorem roles_eq (h : validateDurableInventory runtime resources = true) {item : Resource}
    (hmem : item ∈ resources) {database storageTenant : String} {roles : List String}
    (hkind : item.kind = .tenant database roles storageTenant) : tenantRoles resources = roles := by
  obtain ⟨only, honly⟩ := List.length_eq_one_iff.mp (valid_parts h).2.2
  have hitem : item ∈ resources.filter fun item => item.kind.service = none :=
    List.mem_filter.mpr ⟨hmem, by rw [hkind]; rfl⟩
  rw [honly, List.mem_singleton] at hitem
  rw [tenantRoles, honly, ← hitem]
  simp [kindRoles, hkind]

/-- The tenant of an inventory. -/
theorem exists_tenant (h : validateDurableInventory runtime resources = true) :
    ∃ item ∈ resources, ∃ database storageTenant,
      item.kind = .tenant database (tenantRoles resources) storageTenant := by
  obtain ⟨only, honly⟩ := List.length_eq_one_iff.mp (valid_parts h).2.2
  have hmem : only ∈ resources.filter fun item => item.kind.service = none := by
    rw [honly]
    exact List.mem_singleton_self only
  obtain ⟨hmem, hnone⟩ := List.mem_filter.mp hmem
  cases hkind : only.kind with
  | container service => simp [hkind, Kind.service] at hnone
  | tenant database roles storageTenant =>
      refine ⟨only, hmem, database, storageTenant, ?_⟩
      rw [hkind, roles_eq h hmem hkind]

theorem roleName_of_mem (h : validateDurableInventory runtime resources = true) {name : String}
    (hname : name ∈ tenantRoles resources) : ∃ suffix, name = roleName runtime suffix := by
  obtain ⟨item, hmem, database, storageTenant, hkind⟩ := exists_tenant h
  have hvalid := (valid_parts h).1 item hmem
  unfold validItem at hvalid
  rw [hkind] at hvalid
  simp only [Bool.and_eq_true, List.all_eq_true, decide_eq_true_eq] at hvalid
  obtain ⟨suffix, -, hsuffix⟩ := List.mem_map.mp (hvalid.2.1.2 name hname)
  exact ⟨suffix, hsuffix.symm⟩

end

/-! ## An effect -/

/-- A journal has a record of a resource. -/
def RecordedIn (journal : Journal) : Kind → Prop
  | .container service => journal.containers.get service ≠ none
  | .tenant .. => journal.tenant ≠ none

/-- A journal has a resource restored. -/
def RestoredIn (journal : Journal) : Kind → Prop
  | .container service => ∃ part ∈ journal.containers.get service, part.phase = .restored
  | .tenant .. => ∃ tenant ∈ journal.tenant, tenant.phase = .restored

section

variable {row : Row} {outside : Outside} {request : Request} {now before : Host} {journal : Journal}

theorem checkRequest_eq_ok (h : checkRequest row request = .ok ()) {state : State}
    (hstate : request.action.state = some state) :
    row.runtime = request.runtime ∧ row.operation = request.operation ∧ row.state = state ∧
      request.resource ∈ row.resources := by
  unfold checkRequest at h
  rw [bind_eq_ok] at h
  obtain ⟨_, -, h⟩ := h
  rw [bind_eq_ok] at h
  obtain ⟨_, -, h⟩ := h
  rw [hstate, Option.isSome_some, if_pos rfl, bind_eq_ok] at h
  obtain ⟨_, -, h⟩ := h
  obtain ⟨hruntime, hoperation, hsame, -, -, hmem⟩ := require_eq_ok.mp h
  exact ⟨hruntime, hoperation, (Option.some.inj (hstate.symm.trans hsame)).symm, hmem⟩

/-- A request that the checks refuse changes nothing. -/
theorem apply_refused {reason : String} (h : checkRequest row request = .error reason) :
    apply row outside request now () = ⟨[], .error reason, now, ()⟩ := by
  unfold apply
  rw [bind_apply]
  simp [lift, h]

theorem apply_meets {R : Host → Host → Prop} {Q : Except String Result → Host → Unit → Prop}
    (hfails : ∀ reason, Q (.error reason) now ())
    (hcontainer : ∀ service, request.resource.kind = .container service →
      checkRequest row request = .ok () → request.action ≠ .purge →
      (container outside request.runtime service request.action request.operation).Meets now () R Q)
    (htenant : ∀ database roles storageTenant,
      request.resource.kind = .tenant database roles storageTenant →
      checkRequest row request = .ok () → request.action ≠ .purge →
      (tenant request.runtime roles request.action request.operation).Meets now () R Q) :
    (apply row outside request).Meets now () R Q := by
  unfold apply
  apply meets_look hfails
  intro _ hcheck
  apply meets_look hfails
  intro _ hpurge
  rw [returns_ensure] at hpurge
  cases hkind : request.resource.kind with
  | container service => exact hcontainer service hkind (returns_lift.mp hcheck) hpurge
  | tenant database roles storageTenant =>
      exact htenant database roles storageTenant hkind (returns_lift.mp hcheck) hpurge

/-- What only looks changes nothing. -/
theorem apply_looks (h : request.action.state = none) :
    (apply row outside request).Meets now () (fun _ now' => now' = now)
      (fun _ now' _ => now' = now) := by
  refine apply_meets (fun _ => rfl) (fun service _ _ _ => ?_) fun database roles storageTenant _ _ _ => ?_
  · unfold container
    refine meets_returned (returns_disk.mpr rfl) (meets_look (fun _ => rfl) fun found _ => ?_)
    cases found with
    | none => exact meets_looked (fun _ => rfl) fun _ _ => rfl
    | some item =>
        cases haction : request.action with
        | inspect => exact meets_pure.mpr rfl
        | readiness =>
            exact meets_look (fun _ => rfl) fun _ _ => meets_look (fun _ => rfl) fun _ _ =>
              meets_pure.mpr rfl
        | quarantine | restore | purge => rw [haction] at h; cases h
  · unfold tenant
    refine meets_returned (returns_disk.mpr rfl) ?_
    cases now.databases.get request.runtime with
    | none => exact meets_looked (fun _ => rfl) fun _ _ => rfl
    | some size =>
        refine meets_look (fun _ => rfl) fun states _ => ?_
        cases haction : request.action with
        | inspect => exact meets_pure.mpr rfl
        | readiness =>
            exact meets_look (fun _ => rfl) fun _ _ => meets_look (fun _ => rfl) fun _ _ =>
              meets_pure.mpr rfl
        | quarantine | restore | purge => rw [haction] at h; cases h

/-- A quarantine: what it leaves matches the journal that it opened, and where it
returned the resource is recorded. -/
theorem apply_quarantine (haction : request.action = .quarantine)
    (hvalid : validateDurableInventory row.runtime row.resources = true)
    (hopen : openJournal (now.journals.get row.runtime) row.runtime row.operation true =
      .ok journal)
    (h : Matches row.runtime row.operation (tenantRoles row.resources) before now journal)
    (hsaved : now.journals.get row.runtime = some journal ∨
      journal = .fresh row.runtime row.operation)
    (hrestore : journal.restoreOperation = none) :
    (apply row outside request).Meets now ()
      (fun _ => Later row.runtime row.operation (tenantRoles row.resources) before
        request.resource.kind.service none journal)
      (Returned fun now' => ∃ next, RecordedIn next request.resource.kind ∧
        now'.journals.get row.runtime = some next ∧ next.operation = row.operation) := by
  refine apply_meets (fun reason => Returned.error reason now) (fun service hkind hcheck _ => ?_)
    fun database roles storageTenant hkind hcheck _ => ?_
  · obtain ⟨hruntime, hoperation, -, -⟩ := checkRequest_eq_ok hcheck (by rw [haction]; rfl)
    rw [← hruntime, ← hoperation, haction, hkind]
    unfold container
    refine meets_returned (returns_disk.mpr rfl) ?_
    apply meets_look (fun reason => Returned.error reason now)
    intro found hfound
    cases found with
    | none => exact meets_looked (fun reason => Returned.error reason now) fun _ h => nomatch h
    | some item =>
        refine quarantineContainer_meets (find_eq_some (returns_lift.mp hfound)) hopen h
          (fun hpart => hsaved.resolve_right ?_) hrestore
        rintro rfl
        exact hpart rfl
  · obtain ⟨hruntime, hoperation, -, hmem⟩ := checkRequest_eq_ok hcheck (by rw [haction]; rfl)
    have hroles := roles_eq hvalid hmem hkind
    rw [← hruntime, ← hoperation, haction, hkind]
    unfold tenant
    refine meets_returned (returns_disk.mpr rfl) ?_
    cases now.databases.get row.runtime with
    | none => exact meets_looked (fun reason => Returned.error reason now) fun _ h => nomatch h
    | some size =>
        apply meets_look (fun reason => Returned.error reason now)
        intro states hstates
        rw [hroles] at h ⊢
        refine quarantineTenant_meets (returns_lift.mp hstates) hopen h
          (fun htenant => hsaved.resolve_right ?_) hrestore
        rintro rfl
        exact htenant rfl

theorem opened_saved {runtime operation : String} {create : Bool} {opened : Journal}
    (hsaved : now.journals.get runtime = some journal)
    (h : openJournal (now.journals.get runtime) runtime operation create = .ok opened)
    (hown : journal.operation = operation ∨ create = false) : opened = journal := by
  rw [hsaved] at h
  unfold openJournal at h
  dsimp only at h
  split_ifs at h
  exact (Except.ok.inj h).symm

theorem journaledPart_eq_ok {runtime operation : String} {service : Service} {item : Container}
    {journaled : Journal × Part} (hsaved : now.journals.get runtime = some journal)
    (h : journaledPart now runtime service operation item = .ok journaled) :
    journaled.1 = journal ∧ journal.containers.get service = some journaled.2 := by
  unfold journaledPart at h
  rw [bind_eq_ok] at h
  obtain ⟨opened, hopened, h⟩ := h
  obtain rfl := opened_saved hsaved hopened (.inr rfl)
  split at h
  · cases h
  · rename_i part hpart
    rw [bind_eq_ok] at h
    obtain ⟨_, -, h⟩ := h
    obtain rfl := pure_eq_ok.mp h
    exact ⟨rfl, hpart⟩

theorem journaledTenant_eq_ok {runtime operation : String} {roles : List String}
    {journaled : Journal × Tenant} (hsaved : now.journals.get runtime = some journal)
    (h : journaledTenant now runtime roles operation = .ok journaled) :
    journaled.1 = journal ∧ journal.tenant = some journaled.2 ∧
      sameNames journaled.2.roles roles = true := by
  unfold journaledTenant at h
  rw [bind_eq_ok] at h
  obtain ⟨opened, hopened, h⟩ := h
  obtain rfl := opened_saved hsaved hopened (.inr rfl)
  split at h
  · cases h
  · rename_i tenant htenant
    rw [bind_eq_ok] at h
    obtain ⟨_, hnames, h⟩ := h
    obtain rfl := pure_eq_ok.mp h
    exact ⟨rfl, htenant, require_eq_ok.mp hnames⟩

/-- A restore: what it leaves goes on from the journal, and where it returned the
resource is restored. -/
theorem apply_restore {operation : String} (haction : request.action = .restore)
    (hvalid : validateDurableInventory row.runtime row.resources = true)
    (h : Matches row.runtime operation (tenantRoles row.resources) before now journal)
    (hsaved : now.journals.get row.runtime = some journal) :
    (apply row outside request).Meets now ()
      (fun _ => Later row.runtime operation (tenantRoles row.resources) before
        request.resource.kind.service (some row.operation) journal)
      (Returned fun now' => ∃ next, RestoredIn next request.resource.kind ∧
        now'.journals.get row.runtime = some next) := by
  refine apply_meets (fun reason => Returned.error reason now) (fun service hkind hcheck _ => ?_)
    fun database roles storageTenant hkind hcheck _ => ?_
  · obtain ⟨hruntime, hoperation, -, -⟩ := checkRequest_eq_ok hcheck (by rw [haction]; rfl)
    rw [← hruntime, ← hoperation, haction, hkind]
    unfold container
    refine meets_returned (returns_disk.mpr rfl) ?_
    apply meets_look (fun reason => Returned.error reason now)
    intro found hfound
    cases found with
    | none => exact meets_looked (fun reason => Returned.error reason now) fun _ h => nomatch h
    | some item =>
        apply meets_look (fun reason => Returned.error reason now)
        intro journaled hjournaled
        obtain ⟨hsame, hpart⟩ := journaledPart_eq_ok hsaved (returns_lift.mp hjournaled)
        rw [hsame]
        exact restoreContainer_meets h hsaved hpart row.operation
  · obtain ⟨hruntime, hoperation, -, hmem⟩ := checkRequest_eq_ok hcheck (by rw [haction]; rfl)
    have hroles := roles_eq hvalid hmem hkind
    rw [← hruntime, ← hoperation, haction, hkind]
    unfold tenant
    refine meets_returned (returns_disk.mpr rfl) ?_
    cases now.databases.get row.runtime with
    | none => exact meets_looked (fun reason => Returned.error reason now) fun _ h => nomatch h
    | some size =>
        apply meets_look (fun reason => Returned.error reason now)
        intro states _
        apply meets_look (fun reason => Returned.error reason now)
        intro journaled hjournaled
        obtain ⟨hsame, htenant, hnames⟩ := journaledTenant_eq_ok hsaved (returns_lift.mp hjournaled)
        rw [hroles] at h ⊢
        rw [hsame]
        exact restoreTenant_meets h hsaved htenant hnames row.operation

end

end Sbarbase.Lifecycle.Proofs.Requests
