import Sbarbase.Lifecycle.Proofs.Records
/-!
# What an effect leaves, wherever it is cut

Every write of a quarantine and of a restore leaves a journal that matches the
host and goes on from the one that was read.
-/

namespace Sbarbase.Lifecycle.Proofs.Runs

open Lib Lib.Checked Lib.Durable Lifecycle.Host Lifecycle.Effect Lifecycle.Proofs.Records

/-! ## Looking -/

section

instance (p : Prop) [Decidable p] (reason : String) : Looks (ensure p reason) := by
  unfold ensure
  infer_instance

instance {α : Type} (reason : String) : Looks (refuse reason : Effect α) := by
  unfold refuse
  infer_instance

theorem returns_ensure {p : Prop} [Decidable p] {reason : String} {u : Unit} {d : Host} {t : Unit} :
    (ensure p reason).Returns d t u ↔ p :=
  returns_require

theorem find_eq_some {host : Host} {name : String} {item : Container}
    (h : find host name = .ok (some item)) : host.named name = [item] := by
  unfold find at h
  split at h
  · cases h
  · rename_i other hnamed
    split_ifs at h
    obtain rfl := Option.some.inj (Except.ok.inj h)
    exact hnamed
  · cases h

end

/-! ## A journal that goes on -/

/-- A journal goes on from an earlier one: it records a container of `only` at most,
and takes down no restore but `begun`. -/
structure Extends (only : Option Service) (begun : Option String) (journal next : Journal) :
    Prop where
  part : ∀ service, ∀ part ∈ journal.containers.get service,
    ∃ part' ∈ next.containers.get service, part.phase = .restored → part'.phase = .restored
  tenant : ∀ tenant ∈ journal.tenant,
    ∃ tenant' ∈ next.tenant, tenant.phase = .restored → tenant'.phase = .restored
  fresh : ∀ service, next.containers.get service ≠ none →
    journal.containers.get service ≠ none ∨ some service = only
  restore : next.restoreOperation = journal.restoreOperation ∨ next.restoreOperation = begun

namespace Extends

variable {only : Option Service} {begun : Option String} {journal next : Journal}

theorem refl : Extends only begun journal journal where
  part _ part hpart := ⟨part, hpart, id⟩
  tenant tenant htenant := ⟨tenant, htenant, id⟩
  fresh _ h := .inl h
  restore := .inl rfl

theorem get_setPart (service other : Service) (part : Part) :
    (journal.setPart service part).containers.get other =
      if other = service then some part else journal.containers.get other :=
  Dict.get_set _ _ _ _

theorem setPart (h : Extends only begun journal next) {service : Service} {part : Part}
    (honly : only = some service)
    (hphase : ∀ old ∈ journal.containers.get service, old.phase = .restored →
      part.phase = .restored) : Extends only begun journal (next.setPart service part) := by
  refine ⟨fun other old hold => ?_, h.tenant, fun other hother => ?_, h.restore⟩
  · rw [get_setPart]
    split_ifs with hsame
    · subst hsame
      exact ⟨part, rfl, hphase old hold⟩
    · exact h.part other old hold
  · rw [get_setPart] at hother
    split_ifs at hother with hsame
    · exact .inr (by rw [hsame, honly])
    · exact h.fresh other hother

theorem setTenant (h : Extends only begun journal next) {tenant : Tenant}
    (hphase : ∀ old ∈ journal.tenant, old.phase = .restored → tenant.phase = .restored) :
    Extends only begun journal (next.setTenant tenant) :=
  ⟨h.part, fun old hold => ⟨tenant, rfl, hphase old hold⟩, h.fresh, h.restore⟩

theorem setRestore (h : Extends only begun journal next) {operation : String}
    (hbegun : begun = some operation) : Extends only begun journal (next.setRestore operation) :=
  ⟨h.part, h.tenant, h.fresh, .inr hbegun.symm⟩

end Extends

section

variable {runtime operation : String} {roles : List String} {before now : Host}
  {journal : Journal} {only : Option Service} {begun : Option String}

/-- The host and its journal, which goes on from `journal`. -/
def Later (runtime operation : String) (roles : List String) (before : Host)
    (only : Option Service) (begun : Option String) (journal : Journal) (now : Host) : Prop :=
  ∃ next, Matches runtime operation roles before now next ∧
    now.journals.get runtime = some next ∧ Extends only begun journal next

/-- A result, and what holds of the host where there is one. -/
def Returned (P : Host → Prop) : Except String Result → Host → Unit → Prop :=
  fun outcome now _ => ∀ result, outcome = .ok result → P now

theorem Returned.error {P : Host → Prop} (reason : String) (now : Host) :
    Returned P (.error reason) now () := fun _ h => nomatch h

theorem get_saved (h : Matches runtime operation roles before now journal) (next : Host) :
    (next.save journal).journals.get runtime = some journal := by
  have hget := get_save next journal
  rwa [h.own] at hget

/-! ## A quarantine -/

/-- Before the first record of a delete the environment is as it was. -/
theorem matches_fresh (hnamed : ∀ service, now.named (containerName runtime service) =
      before.named (containerName runtime service))
    (hroles : ∀ name ∈ roles, now.roles.get name = before.roles.get name)
    (hentry : now.endpoints.get runtime = before.endpoints.get runtime) :
    Matches runtime operation roles before now (.fresh runtime operation) where
  version := rfl
  own := rfl
  begun := rfl
  container := hnamed
  unrecorded _ := ⟨hroles, hentry⟩
  tenant _ htenant := nomatch htenant
  deleting _ := ⟨fun _ _ hpart => (nomatch hpart), fun _ htenant => (nomatch htenant),
    fun _ hentry' => hentry.symm.trans hentry'⟩
  ordered _ _ hpart := nomatch hpart

/-- A part of a container that is as it was. -/
theorem kept_recorded (h : Matches runtime operation roles before now journal) {service : Service}
    (hnone : journal.containers.get service = none) {item : Container}
    (hitem : now.named (containerName runtime service) = [item]) :
    KeptContainer before now (containerName runtime service)
      (some ⟨item.id, item.running, .recorded⟩) := by
  have hsame := h.container service
  rw [hnone] at hsame
  refine ⟨item, item, hsame.symm.trans hitem, hitem, rfl, rfl, rfl, id, fun _ => rfl⟩

theorem stopContainer_meets (name id : String) :
    (stopContainer name id).Meets now () (fun _ now' => now' = now.stop id)
      (fun _ now' _ => now' = now.stop id) := by
  unfold stopContainer
  refine meets_store_bind rfl (meets_look (fun _ => rfl) fun _ _ => ?_)
  exact meets_look (fun _ => rfl) fun _ _ => meets_looked (fun _ => rfl) fun _ _ => rfl

theorem stopRecorded_meets {service : Service} {item : Container} {next : Journal} {part : Part}
    (h : Matches runtime operation roles before now next)
    (hsaved : now.journals.get runtime = some next) (hrestore : next.restoreOperation = none)
    (hextends : Extends (some service) none journal next)
    (hpart : next.containers.get service = some part) :
    (stopRecorded runtime service item next part).Meets now ()
      (fun _ => Later runtime operation roles before (some service) none journal)
      (Returned fun now' => ∃ next', next'.containers.get service ≠ none ∧
        now'.journals.get runtime = some next' ∧ next'.operation = operation) := by
  have hunrestored : ∀ old ∈ journal.containers.get service, old.phase ≠ .restored := by
    intro old hold hphase
    obtain ⟨part', hpart', hphase'⟩ := hextends.part service old hold
    exact (h.deleting hrestore).1 service part' hpart' (hphase' hphase)
  -- the last write, on a host that still matches
  have hlast : ∀ now' : Host, Matches runtime operation roles before now' next →
      (do
        save (next.setPart service { part with phase := .quarantined })
        return ⟨.quarantined, 0, none⟩ : Effect Result).Meets now' ()
        (fun _ => Later runtime operation roles before (some service) none journal)
        (Returned fun now' => ∃ next', next'.containers.get service ≠ none ∧
          now'.journals.get runtime = some next' ∧ next'.operation = operation) := by
    intro now' h'
    have hkept := h'.container service
    rw [hpart] at hkept
    obtain ⟨item₁, item₂, hbefore, hnow, hkept⟩ := hkept
    have hkept' : KeptContainer before now' (containerName runtime service)
        (some { part with phase := .quarantined }) :=
      ⟨item₁, item₂, hbefore, hnow, { hkept with restored := fun hphase => nomatch hphase }⟩
    have hmatches := h'.savePart hkept' fun hphase => nomatch hphase
    have hsaved' := get_saved hmatches now'
    refine meets_store_bind ⟨_, hmatches, hsaved', hextends.setPart rfl fun old hold hphase =>
      absurd hphase (hunrestored old hold)⟩ (meets_pure.mpr fun _ _ => ⟨_, ?_, hsaved', hmatches.begun⟩)
    rw [Extends.get_setPart, if_pos rfl]
    simp
  unfold stopRecorded
  apply meets_look (fun reason => Returned.error reason now)
  intro _ _
  apply meets_whenever_bind
  · intro _
    have hstopped := h.stop hpart hrestore
    refine meets_bind ((stopContainer_meets _ _).mono ?_ ?_)
    · rintro _ now' rfl
      exact ⟨next, hstopped, hsaved, hextends⟩
    · rintro outcome now' ⟨⟩ rfl
      cases outcome with
      | error reason => exact Returned.error reason _
      | ok _ => exact hlast _ hstopped
  · intro _
    exact hlast now h

/-- A quarantine of a container, whose journal was opened. -/
theorem quarantineContainer_meets {service : Service} {item : Container}
    (hitem : now.named (containerName runtime service) = [item])
    (hopen : openJournal (now.journals.get runtime) runtime operation true = .ok journal)
    (h : Matches runtime operation roles before now journal)
    (hsaved : journal.containers.get service ≠ none → now.journals.get runtime = some journal)
    (hrestore : journal.restoreOperation = none) :
    (quarantineContainer runtime service operation item).Meets now ()
      (fun _ => Later runtime operation roles before (some service) none journal)
      (Returned fun now' => ∃ next, next.containers.get service ≠ none ∧
        now'.journals.get runtime = some next ∧ next.operation = operation) := by
  unfold quarantineContainer
  refine meets_returned (returns_disk.mpr rfl) (meets_returned (returns_lift.mpr hopen) ?_)
  cases hpart : journal.containers.get service with
  | some part =>
      refine meets_bind ?_
      unfold recordContainer
      rw [hpart]
      exact meets_pure.mpr (stopRecorded_meets h (hsaved (by rw [hpart]; simp)) hrestore .refl hpart)
  | none =>
      refine meets_bind ?_
      unfold recordContainer
      rw [hpart]
      have hmatches := h.savePart (kept_recorded h hpart hitem) fun hphase => nomatch hphase
      have hextends : Extends (some service) none journal
          (journal.setPart service ⟨item.id, item.running, .recorded⟩) :=
        Extends.refl.setPart rfl fun old hold => by rw [hpart] at hold; cases hold
      have hget := get_saved hmatches now
      refine meets_store_bind ⟨_, hmatches, hget, hextends⟩ (meets_pure.mpr ?_)
      exact stopRecorded_meets hmatches hget hrestore hextends
        ((Extends.get_setPart service service _).trans (if_pos rfl))

theorem unpublish_meets {runtime : String} {d : Host} {P : Host → Prop} (hsame : P d)
    (hdeleted : P (d.setEndpoints (d.endpoints.delete runtime))) :
    (unpublish runtime).Meets d () (fun _ => P) (fun _ now' _ => P now') := by
  unfold unpublish
  refine meets_returned (returns_disk.mpr rfl) ?_
  unfold whenever
  split
  · exact meets_store.mpr ⟨hdeleted, hdeleted⟩
  · exact meets_pure.mpr hsame

theorem closeRecorded_meets {next : Journal} {tenant : Tenant}
    (h : Matches runtime operation roles before now next)
    (hsaved : now.journals.get runtime = some next) (hrestore : next.restoreOperation = none)
    (hextends : Extends none none journal next) (htenant : next.tenant = some tenant) :
    (closeRecorded runtime roles next tenant).Meets now ()
      (fun _ => Later runtime operation roles before none none journal)
      (Returned fun now' => ∃ next', next'.tenant ≠ none ∧
        now'.journals.get runtime = some next' ∧ next'.operation = operation) := by
  have hunrestored : ∀ old ∈ journal.tenant, old.phase ≠ .restored := by
    intro old hold hphase
    obtain ⟨tenant', htenant', hphase'⟩ := hextends.tenant old hold
    exact (h.deleting hrestore).2.1 tenant' htenant' (hphase' hphase)
  have hlast : ∀ now' : Host, Matches runtime operation roles before now' next →
      (do
        save (next.setTenant { tenant with phase := .quarantined })
        return ⟨.quarantined, 0, none⟩ : Effect Result).Meets now' ()
        (fun _ => Later runtime operation roles before none none journal)
        (Returned fun now' => ∃ next', next'.tenant ≠ none ∧
          now'.journals.get runtime = some next' ∧ next'.operation = operation) := by
    intro now' h'
    have hkept : KeptTenant runtime roles before now' { tenant with phase := .quarantined } :=
      { h'.tenant tenant htenant with restored := fun hphase => nomatch hphase }
    have hmatches := h'.saveTenant hkept (fun hphase => nomatch hphase) fun old hold hphase =>
      absurd hphase ((h'.deleting hrestore).2.1 old hold)
    have hsaved' := get_saved hmatches now'
    exact meets_store_bind ⟨_, hmatches, hsaved', hextends.setTenant fun old hold hphase =>
      absurd hphase (hunrestored old hold)⟩
      (meets_pure.mpr fun _ _ => ⟨_, fun hnone => (by cases hnone), hsaved', hmatches.begun⟩)
  -- the logins are closed or not, and the rest follows
  have hrest : ∀ now' : Host, Matches runtime operation roles before now' next →
      now'.journals.get runtime = some next →
      (do
        .store fun host => host.terminate roles
        unpublish runtime
        save (next.setTenant { tenant with phase := .quarantined })
        return ⟨.quarantined, 0, none⟩ : Effect Result).Meets now' ()
        (fun _ => Later runtime operation roles before none none journal)
        (Returned fun now' => ∃ next', next'.tenant ≠ none ∧
          now'.journals.get runtime = some next' ∧ next'.operation = operation) := by
    intro now' h' hsaved'
    have hterminated := h'.terminate roles
    refine meets_store_bind ⟨next, hterminated, hsaved', hextends⟩ (meets_bind ?_)
    refine (unpublish_meets (P := fun now' => Matches runtime operation roles before now' next ∧
      now'.journals.get runtime = some next) ⟨hterminated, hsaved'⟩
      ⟨hterminated.unpublish htenant hrestore, hsaved'⟩).mono ?_ ?_
    · rintro _ now'' ⟨hmatches, hget⟩
      exact ⟨next, hmatches, hget, hextends⟩
    · rintro outcome now'' ⟨⟩ ⟨hmatches, -⟩
      cases outcome with
      | error reason => exact Returned.error reason _
      | ok _ => exact hlast now'' hmatches
  unfold closeRecorded
  apply meets_look (fun reason => Returned.error reason now)
  intro _ _
  apply meets_whenever_bind
  · intro _
    have hclosed := h.close htenant hrestore
    exact meets_store_bind ⟨next, hclosed, hsaved, hextends⟩ (hrest _ hclosed hsaved)
  · intro _
    exact hrest now h hsaved

theorem get_roleStates {states : Dict String Bool} (h : roleStates now roles = .ok states)
    {name : String} (hname : name ∈ roles) : states.get name = now.roles.get name := by
  unfold roleStates at h
  rw [bind_eq_ok] at h
  obtain ⟨_, -, hstates⟩ := h
  rw [← pure_eq_ok.mp hstates, Dict.get_filter]
  cases now.roles.get name with
  | none => rfl
  | some login => rw [Option.filter_some, if_pos (decide_eq_true hname)]

/-- The record of a tenant that is as it was. -/
theorem kept_states (h : Matches runtime operation roles before now journal)
    (hnone : journal.tenant = none) {states : Dict String Bool}
    (hstates : roleStates now roles = .ok states) :
    KeptTenant runtime roles before now ⟨states, now.endpoints.get runtime, .recorded⟩ := by
  obtain ⟨hlogins, hentry⟩ := h.unrecorded hnone
  refine ⟨fun name hname => ?_, hentry, fun name hname => .inl (hlogins name hname),
    fun entry' hentry' => ⟨entry', hentry.symm.trans hentry', Republished.refl entry'⟩,
    fun hphase => by cases hphase⟩
  rw [get_roleStates hstates hname, hlogins name hname]

/-- A quarantine of the tenant, whose journal was opened. -/
theorem quarantineTenant_meets {states : Dict String Bool}
    (hstates : roleStates now roles = .ok states)
    (hopen : openJournal (now.journals.get runtime) runtime operation true = .ok journal)
    (h : Matches runtime operation roles before now journal)
    (hsaved : journal.tenant ≠ none → now.journals.get runtime = some journal)
    (hrestore : journal.restoreOperation = none) :
    (quarantineTenant runtime roles operation states).Meets now ()
      (fun _ => Later runtime operation roles before none none journal)
      (Returned fun now' => ∃ next, next.tenant ≠ none ∧
        now'.journals.get runtime = some next ∧ next.operation = operation) := by
  unfold quarantineTenant
  refine meets_returned (returns_disk.mpr rfl) ?_
  apply meets_look (fun reason => Returned.error reason now)
  intro _ _
  refine meets_returned (returns_lift.mpr hopen) ?_
  cases htenant : journal.tenant with
  | some tenant =>
      refine meets_bind ?_
      unfold recordTenant
      rw [htenant]
      exact meets_pure.mpr
        (closeRecorded_meets h (hsaved (by rw [htenant]; simp)) hrestore .refl htenant)
  | none =>
      refine meets_bind ?_
      unfold recordTenant
      rw [htenant]
      have hmatches := h.saveTenant (kept_states h htenant hstates) (fun hphase => nomatch hphase)
        fun old hold => by rw [htenant] at hold; cases hold
      have hextends : Extends none none journal
          (journal.setTenant ⟨states, now.endpoints.get runtime, .recorded⟩) :=
        Extends.refl.setTenant fun old hold => by rw [htenant] at hold; cases hold
      have hget := get_saved hmatches now
      refine meets_store_bind ⟨_, hmatches, hget, hextends⟩ (meets_pure.mpr ?_)
      exact closeRecorded_meets hmatches hget hrestore hextends rfl

/-! ## A restore -/

theorem publishAddress_meets {service : Service} {item : Container} {P : Host → Prop}
    (hpublished : ∀ endpoints, publishedAddress now.endpoints runtime service item = some endpoints →
      P (now.setEndpoints endpoints)) :
    (publishAddress runtime service item).Meets now () (fun _ => P) (fun outcome now' _ =>
      outcome = .ok () ∧ now' = ((publishedAddress now.endpoints runtime service item).map
        now.setEndpoints).getD now) := by
  unfold publishAddress
  refine meets_returned (returns_disk.mpr rfl) ?_
  cases hcase : publishedAddress now.endpoints runtime service item with
  | none => exact meets_pure.mpr ⟨rfl, rfl⟩
  | some endpoints => exact meets_store.mpr ⟨hpublished endpoints hcase, rfl, rfl⟩

theorem publishedAddress_eq_some {endpoints endpoints' : Dict String Entry} {service : Service}
    {item : Container} (h : publishedAddress endpoints runtime service item = some endpoints') :
    ∃ port entry base, service.port = some port ∧ endpoints.get runtime = some entry ∧
      addressOf item port = some base ∧
      endpoints' = endpoints.set runtime (entry.set service.text (.url base)) := by
  unfold publishedAddress at h
  simp only [Option.bind_eq_bind, Option.bind_eq_some_iff] at h
  obtain ⟨port, hport, entry, hentry, base, hbase, hwritten⟩ := h
  split_ifs at hwritten
  exact ⟨port, entry, base, hport, hentry, hbase, (Option.some.inj hwritten).symm⟩

/-- What is published of a running container is its address. -/
theorem restarted_of_published {service : Service} {item before' : Container} {port base : String}
    {endpoints : Dict String Entry} (hport : service.port = some port)
    (hbefore : before.named (containerName runtime service) = [before'])
    (hnow : now.named (containerName runtime service) = [item])
    (hran : before'.running = true) (hruns : item.running = true)
    (hbase : addressOf item port = some base)
    (hendpoints : endpoints = (publishedAddress now.endpoints runtime service item).getD
      now.endpoints) :
    ∀ entry ∈ endpoints.get runtime,
      Restarted runtime before now service (entry.get service.text) := by
  intro entry hentry
  have hmember : entry.get service.text = some (.url base) := by
    unfold publishedAddress at hendpoints
    cases hpublished : now.endpoints.get runtime with
    | none =>
        simp only [hport, hpublished, Option.bind_eq_bind, Option.bind_some, Option.bind_none,
          Option.getD_none] at hendpoints
        rw [hendpoints, Option.mem_def, hpublished] at hentry
        cases hentry
    | some old =>
        simp only [hport, hpublished, hbase, Option.bind_eq_bind, Option.bind_some] at hendpoints
        split_ifs at hendpoints with hsame
        · rw [Option.getD_none] at hendpoints
          rw [hendpoints, Option.mem_def, hpublished] at hentry
          rw [← Option.some.inj hentry, hsame]
        · rw [Option.getD_some] at hendpoints
          rw [hendpoints, Option.mem_def, Dict.get_set, if_pos rfl] at hentry
          rw [← Option.some.inj hentry, Dict.get_set, if_pos rfl]
  exact ⟨port, before', item, hport, hbefore, hnow, hran, hruns, by
    rw [hmember, hbase, Option.map_some]⟩

/-- A host where a container runs and its address is published, if anything is. -/
def Running (runtime : String) (before now : Host) (service : Service) : Prop :=
  ∀ entry ∈ now.endpoints.get runtime, service.port ≠ none →
    Restarted runtime before now service (entry.get service.text)

theorem startContainer_meets {outside : Outside} {service : Service} {next : Journal} {part : Part}
    (h : Matches runtime operation roles before now next)
    (hsaved : now.journals.get runtime = some next)
    (hpart : next.containers.get service = some part) (hrunning : part.running = true)
    (htenant : ∃ tenant ∈ next.tenant, tenant.phase = .restored) :
    (startContainer outside runtime service part.id).Meets now ()
      (fun _ now' => Matches runtime operation roles before now' next ∧
        now'.journals.get runtime = some next)
      (fun outcome now' _ => outcome = .ok () → Matches runtime operation roles before now' next ∧
        Running runtime before now' service ∧
        ∃ item, now'.named (containerName runtime service) = [item] ∧ item.running = true) := by
  have hstarted : Matches runtime operation roles before (now.start part.id outside.address) next :=
    h.start hpart hrunning
  unfold startContainer
  refine meets_store_bind ⟨hstarted, hsaved⟩ (meets_returned (returns_disk.mpr rfl) ?_)
  apply meets_look (fun _ hok => nomatch hok)
  intro found hfound
  cases found with
  | none => exact meets_throw.mpr fun hok => nomatch hok
  | some item =>
      have hnow := find_eq_some (returns_lift.mp hfound)
      apply meets_look (fun _ hok => nomatch hok)
      intro _ hready
      rw [returns_ensure, ready, Bool.and_eq_true] at hready
      obtain ⟨before', item', hbefore, hnow', hkept, -⟩ := hstarted.named_of_part hpart
      obtain rfl : item = item' := by simpa using hnow.symm.trans hnow'
      have hran : before'.running = true := hkept.running.symm.trans hrunning
      refine (publishAddress_meets fun endpoints hendpoints => ?_).mono (fun _ _ hgood => hgood) ?_
      · obtain ⟨port, entry, base, hport, hentry, hbase, rfl⟩ := publishedAddress_eq_some hendpoints
        exact ⟨hstarted.publish hpart hrunning htenant hnow hready.1 hport hbase hentry, hsaved⟩
      · rintro _ now' _ ⟨rfl, hwritten⟩ _
        set started := now.start part.id outside.address
        have hnamed : ∀ name, now'.named name = started.named name := by
          intro name
          rw [hwritten]
          cases publishedAddress started.endpoints runtime service item <;> rfl
        refine ⟨?_, fun entry hentry hport => ?_, item, (hnamed _).trans hnow, hready.1⟩
        · rw [hwritten]
          cases hcase : publishedAddress started.endpoints runtime service item with
          | none => exact hstarted
          | some endpoints =>
              obtain ⟨port, entry, base, hport, hentry, hbase, rfl⟩ :=
                publishedAddress_eq_some hcase
              exact hstarted.publish hpart hrunning htenant hnow hready.1 hport hbase hentry
        · obtain ⟨port, hport⟩ := Option.ne_none_iff_exists'.mp hport
          have hanswers := hready.2
          rw [hport, Bool.and_eq_true] at hanswers
          obtain ⟨base, hbase⟩ := Option.isSome_iff_exists.mp hanswers.1
          refine (restarted_of_published hport hbefore hnow hran hready.1 hbase ?_ entry
            hentry).frame (hnamed _)
          rw [hwritten]
          cases publishedAddress started.endpoints runtime service item <;> rfl

theorem restoreContainer_meets {outside : Outside} {service : Service} {next : Journal}
    {part : Part} (h : Matches runtime operation roles before now next)
    (hsaved : now.journals.get runtime = some next)
    (hpart : next.containers.get service = some part) (begun : String) :
    (restoreContainer outside runtime service begun next part).Meets now ()
      (fun _ => Later runtime operation roles before (some service) (some begun) next)
      (Returned fun now' => ∃ next', (∃ part' ∈ next'.containers.get service,
        part'.phase = .restored) ∧ now'.journals.get runtime = some next') := by
  unfold restoreContainer
  apply meets_look (fun reason => Returned.error reason now)
  intro _ htenant
  rw [returns_ensure] at htenant
  apply meets_look (fun reason => Returned.error reason now)
  intro _ _
  have hrestore : next.restoreOperation ≠ none := by
    intro hnone
    obtain ⟨tenant, hmem, hphase⟩ := htenant
    exact (h.deleting hnone).2.1 tenant hmem hphase
  have hlast : ∀ now' : Host, Matches runtime operation roles before now' next →
      (part.running = true → Running runtime before now' service ∧
        ∃ item, now'.named (containerName runtime service) = [item] ∧ item.running = true) →
      (do
        save (next.setPart service { part with phase := .restored })
        return ⟨.restored, 0, none⟩ : Effect Result).Meets now' ()
        (fun _ => Later runtime operation roles before (some service) (some begun) next)
        (Returned fun now' => ∃ next', (∃ part' ∈ next'.containers.get service,
          part'.phase = .restored) ∧ now'.journals.get runtime = some next') := by
    intro now' h' hruns
    obtain ⟨item₁, item₂, hbefore, hnow, hkept, -⟩ := h'.named_of_part hpart
    have hsame : item₂.running = item₁.running := by
      rw [← hkept.running]
      cases hpartRunning : part.running with
      | true =>
          obtain ⟨-, item, hitem, hitemRuns⟩ := hruns hpartRunning
          obtain rfl : item = item₂ := by simpa using hitem.symm.trans hnow
          exact hitemRuns
      | false =>
          rw [Bool.eq_false_iff]
          intro hstays
          rw [hkept.running, hkept.stays hstays] at hpartRunning
          cases hpartRunning
    have hkept' : KeptContainer before now' (containerName runtime service)
        (some { part with phase := .restored }) :=
      ⟨item₁, item₂, hbefore, hnow, { hkept with restored := fun _ => hsame }⟩
    have hmatches := h'.savePart hkept' fun _ =>
      ⟨hrestore, htenant, fun entry hentry hrunning hport => (hruns hrunning).1 entry hentry hport⟩
    have hget := get_saved hmatches now'
    refine meets_store_bind ⟨_, hmatches, hget, Extends.refl.setPart rfl fun _ _ _ => rfl⟩
      (meets_pure.mpr fun _ _ => ⟨_, ⟨{ part with phase := .restored }, ?_, rfl⟩, hget⟩)
    rw [Option.mem_def, Extends.get_setPart, if_pos rfl]
  apply meets_whenever_bind
  · intro hrunning
    refine meets_bind ((startContainer_meets h hsaved hpart hrunning htenant).mono ?_ ?_)
    · rintro _ now' ⟨hmatches, hget⟩
      exact ⟨next, hmatches, hget, .refl⟩
    · rintro outcome now' ⟨⟩ hstarted
      cases outcome with
      | error reason => exact Returned.error reason _
      | ok _ =>
          obtain ⟨hmatches, hruns, hitem⟩ := hstarted rfl
          exact hlast now' hmatches fun _ => ⟨hruns, hitem⟩
  · intro hstopped
    exact hlast now h fun hrunning => absurd hrunning hstopped

/-- The entry is published again, if it was and is not. -/
theorem republish_meets {next : Journal} {tenant : Tenant}
    (h : Matches runtime operation roles before now next) (htenant : next.tenant = some tenant)
    (hsaved : now.journals.get runtime = some next)
    (hlogins : ∀ name ∈ roles, now.roles.get name = before.roles.get name) :
    (republish runtime tenant.entry).Meets now ()
      (fun _ now' => Matches runtime operation roles before now' next ∧
        now'.journals.get runtime = some next)
      (fun _ now' _ => Matches runtime operation roles before now' next ∧
        (∀ name ∈ roles, now'.roles.get name = before.roles.get name) ∧
        (now'.endpoints.get runtime).isSome = (before.endpoints.get runtime).isSome) := by
  have hold := h.tenant tenant htenant
  unfold republish
  refine meets_returned (returns_disk.mpr rfl) ?_
  cases hentry : tenant.entry with
  | none =>
      refine meets_pure.mpr ⟨h, hlogins, ?_⟩
      cases hnow : now.endpoints.get runtime with
      | none => rw [← hold.entry, hentry]
      | some entry' =>
          obtain ⟨entry, hbefore, -⟩ := hold.published entry' hnow
          rw [Option.mem_def, ← hold.entry, hentry] at hbefore
          cases hbefore
  | some entry =>
      dsimp only
      unfold whenever
      split
      · rename_i habsent
        have hnone : now.endpoints.get runtime = none :=
          Option.isNone_iff_eq_none.mp (Option.isSome_eq_false_iff.mp habsent)
        have hpublished := h.republish htenant hentry hnone
        refine meets_store.mpr ⟨⟨hpublished, hsaved⟩, hpublished, hlogins, ?_⟩
        rw [endpoints_setEndpoints, Dict.get_set, if_pos rfl, ← hold.entry, hentry]
      · rename_i hpresent
        refine meets_pure.mpr ⟨h, hlogins, ?_⟩
        rw [← hold.entry, hentry]
        exact (Bool.not_eq_false _).mp hpresent

theorem restoreTenant_meets {next : Journal} {tenant : Tenant}
    (h : Matches runtime operation roles before now next)
    (hsaved : now.journals.get runtime = some next) (htenant : next.tenant = some tenant)
    (hnames : sameNames tenant.roles roles = true) (begun : String) :
    (restoreTenant runtime roles begun next tenant).Meets now ()
      (fun _ => Later runtime operation roles before none (some begun) next)
      (Returned fun now' => ∃ next', (∃ tenant' ∈ next'.tenant, tenant'.phase = .restored) ∧
        now'.journals.get runtime = some next') := by
  unfold restoreTenant
  apply meets_look (fun reason => Returned.error reason now)
  intro _ _
  -- once the restore is taken down
  have hrest : ∀ (now' : Host) (next' : Journal),
      Matches runtime operation roles before now' next' → now'.journals.get runtime = some next' →
      next'.tenant = some tenant → next'.restoreOperation ≠ none →
      Extends none (some begun) next next' →
      (do
        .whenever (opened tenant.roles roles ≠ [])
          (.store fun host => host.setRoles (opened tenant.roles roles) true)
        republish runtime tenant.entry
        save (next'.setTenant { tenant with phase := .restored })
        return ⟨.restored, 0, none⟩ : Effect Result).Meets now' ()
        (fun _ => Later runtime operation roles before none (some begun) next)
        (Returned fun now' => ∃ next', (∃ tenant' ∈ next'.tenant, tenant'.phase = .restored) ∧
          now'.journals.get runtime = some next') := by
    intro now' next' h' hsaved' htenant' hrestore hextends
    have hlast : ∀ now'' : Host, Matches runtime operation roles before now'' next' →
        now''.journals.get runtime = some next' →
        (∀ name ∈ roles, now''.roles.get name = before.roles.get name) →
        (do
          republish runtime tenant.entry
          save (next'.setTenant { tenant with phase := .restored })
          return ⟨.restored, 0, none⟩ : Effect Result).Meets now'' ()
          (fun _ => Later runtime operation roles before none (some begun) next)
          (Returned fun now' => ∃ next', (∃ tenant' ∈ next'.tenant, tenant'.phase = .restored) ∧
            now'.journals.get runtime = some next') := by
      intro now'' h'' hsaved'' hlogins
      refine meets_bind ((republish_meets h'' htenant' hsaved'' hlogins).mono ?_ ?_)
      · rintro _ host ⟨hmatches, hget⟩
        exact ⟨next', hmatches, hget, hextends⟩
      · rintro outcome host ⟨⟩ ⟨hmatches, hlogins', hentry⟩
        cases outcome with
        | error reason => exact Returned.error reason _
        | ok _ =>
            have hkept : KeptTenant runtime roles before host { tenant with phase := .restored } :=
              { hmatches.tenant tenant htenant' with restored := fun _ => ⟨hlogins', hentry⟩ }
            have hmatches' := hmatches.saveTenant hkept (fun _ => hrestore) fun _ _ _ => rfl
            have hget := get_saved hmatches' host
            exact meets_store_bind ⟨_, hmatches', hget, hextends.setTenant fun _ _ _ => rfl⟩
              (meets_pure.mpr fun _ _ => ⟨_, ⟨_, rfl, rfl⟩, hget⟩)
    have hold := h'.tenant tenant htenant'
    apply meets_whenever_bind
    · intro _
      have hopened := h'.openLogins htenant' hnames
      exact meets_store_bind ⟨next', hopened, hsaved', hextends⟩
        (hlast _ hopened hsaved' fun name hname => Matches.logins_open hold hnames hname)
    · intro hnone
      rw [not_not] at hnone
      refine hlast now' h' hsaved' fun name hname => ?_
      have hlogin := Matches.logins_open hold hnames hname
      rwa [hnone] at hlogin
  cases hbegun : next.restoreOperation with
  | some operation' =>
      refine meets_bind ?_
      unfold beginRestore
      rw [hbegun]
      exact meets_pure.mpr (hrest now next h hsaved htenant (by rw [hbegun]; simp) .refl)
  | none =>
      refine meets_bind ?_
      unfold beginRestore
      rw [hbegun]
      have hmatches := h.saveRestore begun
      have hget := get_saved hmatches now
      have hextends : Extends none (some begun) next (next.setRestore begun) :=
        Extends.refl.setRestore rfl
      exact meets_store_bind ⟨_, hmatches, hget, hextends⟩
        (meets_pure.mpr (hrest _ _ hmatches hget htenant (fun hnone => nomatch hnone) hextends))

end

end Sbarbase.Lifecycle.Proofs.Runs
