import Sbarbase.Lifecycle.Proofs.Requests
/-!
# A delete and the restore after it

In every run the records of a journal are of the environment as it was when the
first effect of the delete began, and once every restore effect has returned the
environment is as it was then.
-/

namespace Sbarbase.Lifecycle.Proofs.RetainedLaw

open Lib Lib.Checked Lib.Durable Lifecycle.Host Lifecycle.Proofs.Records Lifecycle.Proofs.Runs
open Lifecycle.Proofs.Requests

/-! ## Runs of the system -/

/-- The journal of an environment that is not being deleted or restored. -/
def Idle (s : System) : Prop :=
  ∀ journal ∈ s.host.journals.get s.row.runtime, journal.version = 1 ∧
    journal.runtime = s.row.runtime ∧
    (∀ service, ∀ part ∈ journal.containers.get service, part.phase = .restored) ∧
    (∀ tenant ∈ journal.tenant, tenant.phase = .restored)

/-- An identity that an effect was ever asked for under. -/
def Spent (s : System) (operation : String) : Prop :=
  ∃ effect ∈ s.effects, effect.operation = operation

/-- The records of a journal are of the inventory. -/
def Covered (s : System) (journal : Journal) : Prop :=
  ∀ service, journal.containers.get service ≠ none →
    ∃ item ∈ s.row.resources, item.kind = .container service

/-- What is marked done has returned. -/
def Marked (s : System) : Prop :=
  ∀ effect ∈ s.effects, effect.operation = s.row.operation → effect.done = true →
    ∃ item ∈ s.returned, item ∈ s.row.resources ∧ item.resource = effect.resource

/-- While an environment is deleted. -/
structure Deleting (s : System) : Prop where
  valid : validateDurableInventory s.row.runtime s.row.resources = true
  marked : Marked s
  /-- Before the first effect begins. -/
  idle : s.began = none → Idle s ∧ s.returned = [] ∧
    ∀ journal ∈ s.host.journals.get s.row.runtime, journal.operation ≠ s.row.operation
  begun : ∀ before ∈ s.began, ∃ journal,
    openJournal (s.host.journals.get s.row.runtime) s.row.runtime s.row.operation true =
      .ok journal ∧
    (s.host.journals.get s.row.runtime = some journal ∨
      journal = .fresh s.row.runtime s.row.operation) ∧
    Matches s.row.runtime s.row.operation (tenantRoles s.row.resources) before s.host journal ∧
    journal.restoreOperation = none ∧ Covered s journal ∧
    ∀ item ∈ s.returned, RecordedIn journal item.kind

/-- From the end of a delete to the end of the restore: the records are complete, and
what is restored has returned. -/
structure Retained (s : System) (before : Host) (operation : String) (journal : Journal) :
    Prop where
  valid : validateDurableInventory s.row.runtime s.row.resources = true
  saved : s.host.journals.get s.row.runtime = some journal
  kept : Matches s.row.runtime operation (tenantRoles s.row.resources) before s.host journal
  covered : Covered s journal
  complete : ∀ item ∈ s.row.resources, RecordedIn journal item.kind
  spent : Spent s operation

/-- Where an environment stands. -/
inductive Stands (s : System) : Prop
  | active (hstate : s.row.state = .active) (hbegan : s.began = none) (hidle : Idle s)
      (hspent : ∀ journal ∈ s.host.journals.get s.row.runtime, Spent s journal.operation)
  | deleting (hstate : s.row.state = .deleting) (h : Deleting s)
  | deleted (hstate : s.row.state = .deleted) (before : Host) (hbegan : s.began = some before)
      (journal : Journal) (h : Retained s before s.row.operation journal)
      (hrestore : journal.restoreOperation = none)
  | restoring (hstate : s.row.state = .restoring) (before : Host) (hbegan : s.began = some before)
      (operation : String) (journal : Journal) (h : Retained s before operation journal)
      (hmarked : Marked s)
      (hrestore : ∀ begun ∈ journal.restoreOperation, begun = s.row.operation)
      (hreturned : ∀ item ∈ s.returned, RestoredIn journal item.kind)

section

variable {s : System} {outside : Outside} {request : Request} {before : Host} {journal : Journal}
  {operation : String}

theorem recordedIn_extends {only : Option Service} {begun : Option String} {next : Journal}
    (h : Extends only begun journal next) {kind : Kind} (hrecorded : RecordedIn journal kind) :
    RecordedIn next kind := by
  cases kind with
  | container service =>
      obtain ⟨part, hpart⟩ := Option.ne_none_iff_exists'.mp hrecorded
      obtain ⟨part', hpart', -⟩ := h.part service part hpart
      exact Option.ne_none_iff_exists'.mpr ⟨part', hpart'⟩
  | tenant database roles storageTenant =>
      obtain ⟨tenant, htenant⟩ := Option.ne_none_iff_exists'.mp hrecorded
      obtain ⟨tenant', htenant', -⟩ := h.tenant tenant htenant
      exact Option.ne_none_iff_exists'.mpr ⟨tenant', htenant'⟩

theorem restoredIn_extends {only : Option Service} {begun : Option String} {next : Journal}
    (h : Extends only begun journal next) {kind : Kind} (hrestored : RestoredIn journal kind) :
    RestoredIn next kind := by
  cases kind with
  | container service =>
      obtain ⟨part, hpart, hphase⟩ := hrestored
      obtain ⟨part', hpart', hphase'⟩ := h.part service part hpart
      exact ⟨part', hpart', hphase' hphase⟩
  | tenant database roles storageTenant =>
      obtain ⟨tenant, htenant, hphase⟩ := hrestored
      obtain ⟨tenant', htenant', hphase'⟩ := h.tenant tenant htenant
      exact ⟨tenant', htenant', hphase' hphase⟩

theorem covered_extends {only : Option Service} {begun : Option String} {next : Journal}
    {item : Resource} (h : Extends only begun journal next) (hitem : item ∈ s.row.resources)
    (honly : only = item.kind.service) (hcovered : Covered s journal) : Covered s next := by
  intro service hpart
  rcases h.fresh service hpart with hold | hsame
  · exact hcovered service hold
  · refine ⟨item, hitem, ?_⟩
    cases hkind : item.kind with
    | container other =>
        rw [honly, hkind] at hsame
        rw [Option.some.inj hsame]
    | tenant database roles storageTenant =>
        rw [honly, hkind] at hsame
        cases hsame

theorem openJournal_own {runtime : String} (hversion : journal.version = 1)
    (hown : journal.runtime = runtime) :
    openJournal (some journal) runtime journal.operation true = .ok journal := by
  simp [openJournal, hversion, hown]

/-- A journal of another operation gives way to a new one as soon as all is restored. -/
theorem openJournal_idle (h : Idle s)
    (hforeign : ∀ journal ∈ s.host.journals.get s.row.runtime, journal.operation ≠ operation) :
    openJournal (s.host.journals.get s.row.runtime) s.row.runtime operation true =
      .ok (.fresh s.row.runtime operation) := by
  cases hget : s.host.journals.get s.row.runtime with
  | none => rfl
  | some journal =>
      obtain ⟨hversion, hown, hparts, htenant⟩ := h journal hget
      unfold openJournal
      dsimp only
      rw [if_neg (by simp [hversion, hown]), if_neg (by simp [hforeign journal hget]), if_neg]
      rintro (⟨⟨service, part⟩, hmem, hphase⟩ | ⟨tenant, hmem, hphase⟩)
      · exact hphase (hparts service part (Dict.get_eq_some.mpr hmem))
      · exact hphase (htenant tenant hmem)

/-! ### The first effect of a delete -/

@[simp] theorem row_begins : (s.begins request).row = s.row := by
  unfold System.begins
  split <;> rfl

@[simp] theorem host_begins : (s.begins request).host = s.host := by
  unfold System.begins
  split <;> rfl

theorem begins_of_began (h : s.began ≠ none) : s.begins request = s :=
  if_neg fun hbegins => h hbegins.1

theorem deleting_begins (h : Deleting s) : Deleting (s.begins request) := by
  unfold System.begins
  split
  · rename_i hbegins
    obtain ⟨hidle, hreturned, hforeign⟩ := h.idle hbegins.1
    refine ⟨h.valid, h.marked, fun hnone => (nomatch hnone), fun before hbefore => ?_⟩
    obtain rfl := Option.some.inj hbefore
    refine ⟨_, openJournal_idle hidle hforeign, .inr rfl,
      matches_fresh (fun _ => rfl) (fun _ _ => rfl) rfl, rfl, fun _ hpart => absurd rfl hpart, ?_⟩
    rw [hreturned]
    exact fun _ hitem => nomatch hitem
  · exact h

/-! ### What a run leaves -/

/-- A host that an effect of a delete leaves. -/
theorem deleting_later (h : Deleting s) (hbegan : s.began = some before) {item : Resource}
    (hitem : item ∈ s.row.resources)
    (hopen : openJournal (s.host.journals.get s.row.runtime) s.row.runtime s.row.operation true =
      .ok journal)
    (hrestore : journal.restoreOperation = none) {host : Host}
    (hlater : Later s.row.runtime s.row.operation (tenantRoles s.row.resources) before
      item.kind.service none journal host) : Deleting { s with host } := by
  obtain ⟨old, hold, -, -, -, hcovered, hreturned⟩ := h.begun before hbegan
  obtain rfl : journal = old := Except.ok.inj (hopen.symm.trans hold)
  obtain ⟨next, hmatches, hsaved, hextends⟩ := hlater
  refine ⟨h.valid, h.marked, fun hnone => ?_, fun before' hbefore => ?_⟩
  · rw [show s.began = none from hnone] at hbegan
    cases hbegan
  · obtain rfl : before = before' := Option.some.inj (hbegan.symm.trans hbefore)
    refine ⟨next, ?_, .inl hsaved, hmatches, ?_, covered_extends hextends hitem rfl hcovered,
      fun other hother => recordedIn_extends hextends (hreturned other hother)⟩
    · change openJournal (host.journals.get s.row.runtime) _ _ _ = _
      rw [hsaved, ← hmatches.begun]
      exact openJournal_own hmatches.version hmatches.own
    · exact hextends.restore.elim (fun hsame => hsame.trans hrestore) id

/-- A host that an effect of a restore leaves. -/
theorem retained_later (h : Retained s before operation journal) {item : Resource}
    (hitem : item ∈ s.row.resources) {begun : Option String} {host : Host}
    {next : Journal} (hmatches : Matches s.row.runtime operation (tenantRoles s.row.resources)
      before host next) (hsaved : host.journals.get s.row.runtime = some next)
    (hextends : Extends item.kind.service begun journal next) :
    Retained { s with host } before operation next where
  valid := h.valid
  saved := hsaved
  kept := hmatches
  covered := covered_extends hextends hitem rfl h.covered
  complete other hother := recordedIn_extends hextends (h.complete other hother)
  spent := h.spent

/-- A request that is not of the present operation runs no effect. -/
theorem apply_quiet (outside : Outside)
    (h : ∀ state, request.action.state = some state → checkRequest s.row request ≠ .ok ()) :
    (apply s.row outside request).Meets s.host () (fun _ host => host = s.host)
      (fun outcome host _ => host = s.host ∧
        ∀ result, outcome = .ok result → System.expected request.action ≠ some result.outcome) := by
  cases hstate : request.action.state with
  | none =>
      refine (apply_looks hstate).mono (fun _ _ hsame => hsame) ?_
      refine fun _ _ _ hsame => ⟨hsame, fun result _ hexpected => ?_⟩
      cases haction : request.action <;> rw [haction] at hstate hexpected <;> cases hstate <;>
        cases hexpected
  | some state =>
      cases hcheck : checkRequest s.row request with
      | ok _ => exact absurd hcheck (h state hstate)
      | error reason =>
          rw [Meets, apply_refused hcheck]
          exact ⟨.singleton _, rfl, rfl, fun _ hok => by cases hok⟩

/-- The host at the end of an effect is one that a crash can leave. -/
def Ends (s : System) (outside : Outside) (request : Request) : Prop :=
  (apply s.row outside request s.host ()).disk ∈ (apply s.row outside request).crashes s.host ()

theorem deleting_ran (outside : Outside) (h : Deleting s) (hbegan : s.began = some before)
    (haction : request.action = .quarantine) (hitem : request.resource ∈ s.row.resources) :
    Ends s outside request ∧ (∀ host ∈ (apply s.row outside request).crashes s.host (), Deleting { s with host }) ∧
      ∀ result, (apply s.row outside request s.host ()).outcome = .ok result →
        Deleting { s with
          host := (apply s.row outside request s.host ()).disk
          returned := request.resource :: s.returned } := by
  obtain ⟨journal, hopen, hsaved, hmatches, hrestore, -, -⟩ := h.begun before hbegan
  have hmeets : (apply s.row outside request).Meets s.host () _ _ :=
    apply_quarantine haction h.valid hopen hmatches hsaved hrestore
  have hcrashes : ∀ host ∈ (apply s.row outside request).crashes s.host (),
      Deleting { s with host } :=
    (hmeets.mono (fun _ _ hlater => deleting_later h hbegan hitem hopen hrestore hlater)
      fun _ _ _ hreturned => hreturned).crashes (C := fun host => Deleting { s with host }) h
  refine ⟨hmeets.disk_mem, hcrashes, fun result hok => ?_⟩
  have hend := hcrashes _ hmeets.disk_mem
  obtain ⟨next, hrecorded, hget, hoperation⟩ := hmeets.2.2 result hok
  refine ⟨hend.valid, fun effect heffect hsame hdone => ?_, fun hnone => ?_,
    fun before' hbefore => ?_⟩
  · obtain ⟨item, hmem, hrest⟩ := hend.marked effect heffect hsame hdone
    exact ⟨item, List.mem_cons_of_mem _ hmem, hrest⟩
  · rw [show s.began = none from hnone] at hbegan
    cases hbegan
  · obtain ⟨ended, hopened, hfrom, hkept, hnone, hcovered, hreturned⟩ := hend.begun before' hbefore
    obtain rfl : ended = next := opened_saved hget hopened (.inl hoperation) 
    refine ⟨ended, hopened, hfrom, hkept, hnone, hcovered, fun item hmem => ?_⟩
    rcases List.mem_cons.mp hmem with rfl | hmem
    · exact hrecorded
    · exact hreturned item hmem

theorem restoring_ran (outside : Outside) (h : Retained s before operation journal)
    (hrestore : ∀ begun ∈ journal.restoreOperation, begun = s.row.operation)
    (hreturned : ∀ item ∈ s.returned, RestoredIn journal item.kind)
    (haction : request.action = .restore) (hitem : request.resource ∈ s.row.resources) :
    Ends s outside request ∧ (∀ host ∈ (apply s.row outside request).crashes s.host (), ∃ next,
      Retained { s with host } before operation next ∧
        (∀ begun ∈ next.restoreOperation, begun = s.row.operation) ∧
        ∀ item ∈ s.returned, RestoredIn next item.kind) ∧
      ∀ result, (apply s.row outside request s.host ()).outcome = .ok result → ∃ next,
        (apply s.row outside request s.host ()).disk.journals.get s.row.runtime = some next ∧
          RestoredIn next request.resource.kind := by
  have hmeets : (apply s.row outside request).Meets s.host () _ _ :=
    apply_restore haction h.valid h.kept h.saved
  refine ⟨hmeets.disk_mem, (hmeets.mono (fun _ _ hlater => ?_) fun _ _ _ hreturned => hreturned).crashes
    (C := fun host => ∃ next, Retained { s with host } before operation next ∧
      (∀ begun ∈ next.restoreOperation, begun = s.row.operation) ∧
      ∀ item ∈ s.returned, RestoredIn next item.kind) ⟨journal, h, hrestore, hreturned⟩,
    fun result hok => ?_⟩
  · obtain ⟨next, hmatches, hsaved, hextends⟩ := hlater
    refine ⟨next, retained_later h hitem hmatches hsaved hextends, fun begun hbegun => ?_,
      fun item hmem => restoredIn_extends hextends (hreturned item hmem)⟩
    rcases hextends.restore with hsame | hsame
    · exact hrestore begun (hsame ▸ hbegun)
    · exact Option.some.inj (hbegun.symm.trans hsame)
  · obtain ⟨next, hrestored, hget⟩ := hmeets.2.2 result hok
    exact ⟨next, hget, hrestored⟩

/-! ### Each step -/

theorem begins_quiet
    (h : ∀ state, request.action.state = some state → checkRequest s.row request ≠ .ok ()) :
    s.begins request = s :=
  if_neg fun hbegins => h .deleting (by rw [hbegins.2.1]; rfl) hbegins.2.2

theorem attempt_quiet
    (h : ∀ state, request.action.state = some state → checkRequest s.row request ≠ .ok ())
    (writes : ℕ) : s.attempt outside request writes = s := by
  have hhost : (apply s.row outside request).cut writes s.host () = s.host :=
    ((apply_quiet outside h).mono (fun _ _ hsame => hsame) fun _ _ _ hend => hend).crashes
      (C := fun host => host = s.host) rfl _ (cut_mem _ _ _ _)
  unfold System.attempt
  rw [begins_quiet h, hhost]

theorem effect_quiet
    (h : ∀ state, request.action.state = some state → checkRequest s.row request ≠ .ok ())
    (marked : Bool) : s.effect outside request marked = s := by
  obtain ⟨hhost, hunexpected⟩ := (apply_quiet outside h).2.2
  unfold System.effect
  dsimp only
  rw [begins_quiet h, hhost]
  split
  · rfl
  · rename_i result hok
    have hnot := hunexpected result hok
    unfold System.returns
    rw [if_neg hnot, if_neg fun hmarked => hnot hmarked.2]

/-- A request that runs is of the present operation, and of its action. -/
theorem accepted {state : State} (hstate : request.action.state = some state)
    (hcheck : checkRequest s.row request = .ok ()) :
    s.row.state = state ∧ request.resource ∈ s.row.resources ∧
      (state = .deleting → request.action = .quarantine) ∧
      (state = .restoring → request.action = .restore) ∧ state ≠ .active ∧ state ≠ .deleted := by
  obtain ⟨-, -, hrow, hmem⟩ := checkRequest_eq_ok hcheck hstate
  refine ⟨hrow, hmem, ?_⟩
  cases haction : request.action <;> rw [haction] at hstate <;> cases hstate <;> simp

theorem began_begins (hquarantine : request.action = .quarantine)
    (hcheck : checkRequest s.row request = .ok ()) : ∃ before, (s.begins request).began = some before := by
  unfold System.begins
  cases hbegan : s.began with
  | none => exact ⟨s.host, by rw [if_pos ⟨rfl, hquarantine, hcheck⟩]⟩
  | some before => exact ⟨before, by rw [if_neg fun hbegins => nomatch hbegins.1]; exact hbegan⟩

/-- A request that runs: wherever it is cut, and where it returns. -/
theorem stands_ran (outside : Outside) (h : Stands s) {state : State} (hstate : request.action.state = some state)
    (hcheck : checkRequest s.row request = .ok ()) :
    Ends s outside request ∧ (∀ host ∈ (apply s.row outside request).crashes s.host (),
        Stands { s.begins request with host }) ∧
      ∀ result, (apply s.row outside request s.host ()).outcome = .ok result →
        Stands { s.begins request with
          host := (apply s.row outside request s.host ()).disk
          returned := request.resource :: (s.begins request).returned } := by
  obtain ⟨hrow, hmem, hquarantine, hrestores, hactive, hdeleted⟩ := accepted hstate hcheck
  cases h with
  | active hsame => exact absurd (hrow.symm.trans hsame) hactive
  | deleted hsame => exact absurd (hrow.symm.trans hsame) hdeleted
  | deleting hsame hdeleting =>
      have haction := hquarantine (hrow.symm.trans hsame)
      obtain ⟨before, hbegan⟩ := began_begins haction hcheck
      have hran := deleting_ran outside (deleting_begins hdeleting) hbegan haction
        (by rwa [row_begins])
      have hsame' : (s.begins request).row.state = .deleting := by rw [row_begins, hsame]
      unfold Ends at hran ⊢
      simp only [row_begins, host_begins] at hran hsame' ⊢
      exact ⟨hran.1, fun host hhost => .deleting hsame' (hran.2.1 host hhost), fun result hok =>
        .deleting hsame' (hran.2.2 result hok)⟩
  | restoring hsame before hbegan operation journal hretained hmarked hrestore hreturned =>
      have hs : s.begins request = s := begins_of_began (by rw [hbegan]; simp)
      rw [hs]
      obtain ⟨hend, hcrashes, hends⟩ := restoring_ran outside hretained hrestore hreturned
        (hrestores (hrow.symm.trans hsame)) hmem
      refine ⟨hend, fun host hhost => ?_, fun result hok => ?_⟩
      · obtain ⟨next, hnext, hbegun, hreturned'⟩ := hcrashes host hhost
        exact .restoring hsame before hbegan operation next hnext hmarked hbegun hreturned'
      · obtain ⟨next, hnext, hbegun, hreturned'⟩ := hcrashes _ hend
        obtain ⟨ended, hget, hrestored⟩ := hends result hok
        obtain rfl : next = ended := Option.some.inj (hnext.saved.symm.trans hget)
        refine .restoring hsame before hbegan operation next
          ⟨hnext.valid, hnext.saved, hnext.kept, hnext.covered, hnext.complete, hnext.spent⟩
          (fun effect heffect hoperation hdone => ?_) hbegun fun item hitem => ?_
        · obtain ⟨item, hitem, hrest⟩ := hmarked effect heffect hoperation hdone
          exact ⟨item, List.mem_cons_of_mem _ hitem, hrest⟩
        · rcases List.mem_cons.mp hitem with rfl | hitem
          · exact hrestored
          · exact hreturned' item hitem

theorem stands_attempt (h : Stands s) (writes : ℕ) : Stands (s.attempt outside request writes) := by
  by_cases hquiet : ∀ state, request.action.state = some state →
      checkRequest s.row request ≠ .ok ()
  · rwa [attempt_quiet hquiet]
  · push Not at hquiet
    obtain ⟨state, hstate, hcheck⟩ := hquiet
    exact (stands_ran outside h hstate hcheck).2.1 _ (cut_mem _ writes _ _)

/-! ### The catalog -/

theorem mem_lifecycleEffect {resource : String} {done : Bool} {effect : EffectRow}
    (h : effect ∈ (s.lifecycleEffect resource done).effects) :
    effect ∈ s.effects ∨ effect = ⟨s.row.operation, resource, done⟩ := by
  unfold System.lifecycleEffect at h
  split at h
  · rcases List.mem_cons.mp h with rfl | hmem
    · exact .inr rfl
    · exact .inl (List.mem_filter.mp hmem).1
  · exact .inl h

theorem spent_lifecycleEffect {resource : String} {done : Bool} {spent : String}
    (h : Spent s spent) : Spent (s.lifecycleEffect resource done) spent := by
  obtain ⟨effect, hmem, hspent⟩ := h
  unfold System.lifecycleEffect
  split
  · by_cases hsame : (effect.operation, effect.resource) = (s.row.operation, resource)
    · exact ⟨_, List.mem_cons_self, (congrArg Prod.fst hsame).symm.trans hspent⟩
    · exact ⟨effect, List.mem_cons_of_mem _ (List.mem_filter.mpr ⟨hmem, decide_eq_true hsame⟩),
        hspent⟩
  · exact ⟨effect, hmem, hspent⟩

theorem marked_lifecycleEffect {resource : String} {done : Bool} (h : Marked s)
    (hdone : done = true → ∃ item ∈ s.returned, item ∈ s.row.resources ∧ item.resource = resource) :
    Marked { s with effects := (s.lifecycleEffect resource done).effects } := by
  intro effect heffect hoperation hmarked
  rcases mem_lifecycleEffect heffect with hold | rfl
  · exact h effect hold hoperation hmarked
  · exact hdone hmarked

theorem lifecycleEffect_eq (resource : String) (done : Bool) : s.lifecycleEffect resource done =
      { s with effects := (s.lifecycleEffect resource done).effects } := by
  unfold System.lifecycleEffect
  split <;> rfl

/-- An effect is noted in the catalog, done only if it has returned. -/
theorem stands_lifecycleEffect {resource : String} {done : Bool} (h : Stands s)
    (hdone : done = true → ∃ item ∈ s.returned, item ∈ s.row.resources ∧ item.resource = resource) :
    Stands (s.lifecycleEffect resource done) := by
  have hspent : ∀ spent, Spent s spent →
      Spent { s with effects := (s.lifecycleEffect resource done).effects } spent := by
    intro spent h
    rw [← lifecycleEffect_eq]
    exact spent_lifecycleEffect h
  rw [lifecycleEffect_eq]
  cases h with
  | active hstate hbegan hidle hused =>
      exact .active hstate hbegan hidle fun journal hjournal => hspent _ (hused journal hjournal)
  | deleting hstate h =>
      exact .deleting hstate ⟨h.valid, marked_lifecycleEffect h.marked hdone, h.idle, h.begun⟩
  | deleted hstate before hbegan journal h hrestore =>
      exact .deleted hstate before hbegan journal ⟨h.valid, h.saved, h.kept, h.covered, h.complete,
        hspent _ h.spent⟩ hrestore
  | restoring hstate before hbegan operation journal h hmarked hrestore hreturned =>
      exact .restoring hstate before hbegan operation journal ⟨h.valid, h.saved, h.kept, h.covered,
        h.complete, hspent _ h.spent⟩ (marked_lifecycleEffect hmarked hdone) hrestore hreturned

theorem stands_effect (h : Stands s) (marked : Bool) :
    Stands (s.effect outside request marked) := by
  by_cases hquiet : ∀ state, request.action.state = some state →
      checkRequest s.row request ≠ .ok ()
  · rwa [effect_quiet hquiet]
  · push Not at hquiet
    obtain ⟨state, hstate, hcheck⟩ := hquiet
    obtain ⟨hend, hcrashes, hends⟩ := stands_ran outside h hstate hcheck
    have hmem := (accepted hstate hcheck).2.1
    have hended := hcrashes _ hend
    unfold System.effect
    dsimp only
    split
    · exact hended
    · rename_i result hok
      have hreturned : Stands (System.returns { s.begins request with
          host := (apply s.row outside request s.host ()).disk } request result) := by
        unfold System.returns
        split
        · exact hends result hok
        · exact hended
      split
      · rename_i hmarked
        refine stands_lifecycleEffect hreturned fun _ => ⟨request.resource, ?_, ?_, rfl⟩
        · unfold System.returns
          rw [if_pos hmarked.2]
          exact List.mem_cons_self
        · unfold System.returns
          rw [if_pos hmarked.2]
          dsimp only
          rwa [row_begins]
      · exact hreturned

theorem stands_register (h : Stands s) (resources : List Resource) :
    Stands (s.registerDurableInventory resources) := by
  unfold System.registerDurableInventory
  split
  · rename_i hactive
    cases h with
    | active hstate hbegan hidle hspent => exact .active hstate hbegan hidle hspent
    | deleting hstate | deleted hstate | restoring hstate =>
        rw [hstate] at hactive
        cases hactive.2
  · exact h

theorem stands_delete (h : Stands s) (operation : String) :
    Stands (s.deleteEnvironment operation) := by
  unfold System.deleteEnvironment
  split
  · rename_i hdelete
    obtain ⟨hactive, -, hvalid, hunused⟩ := hdelete
    cases h with
    | active hstate hbegan hidle hspent =>
        refine .deleting rfl ⟨hvalid, fun effect heffect hoperation => ?_, fun _ =>
          ⟨hidle, rfl, fun journal hjournal hoperation => ?_⟩, fun before hbefore => nomatch hbefore⟩
        · exact absurd (.inr ⟨effect, heffect, hoperation⟩) hunused
        · obtain ⟨effect, heffect, hused⟩ := hspent journal hjournal
          exact hunused (.inr ⟨effect, heffect, hused.trans hoperation⟩)
    | deleting hstate | deleted hstate | restoring hstate =>
        rw [hstate] at hactive
        cases hactive
  · exact h

theorem stands_restore (h : Stands s) (operation : String) :
    Stands (s.restoreEnvironment operation) := by
  unfold System.restoreEnvironment
  split
  · rename_i hrestore
    obtain ⟨-, hdeleted, hunused, -⟩ := hrestore
    cases h with
    | deleted hstate before hbegan journal h hnone =>
        refine .restoring rfl before hbegan s.row.operation journal
          ⟨h.valid, h.saved, h.kept, h.covered, h.complete, h.spent⟩
          (fun effect heffect hoperation => ?_) (fun begun hbegun => ?_) fun item hitem => nomatch hitem
        · exact absurd (.inr ⟨effect, heffect, hoperation⟩) hunused
        · rw [hnone] at hbegun
          cases hbegun
    | active hstate | deleting hstate | restoring hstate =>
        rw [hstate] at hdeleted
        cases hdeleted
  · exact h

/-- What is done has returned. -/
theorem returned_of_done (hvalid : validateDurableInventory s.row.runtime s.row.resources = true)
    (hmarked : Marked s) {item : Resource} (hitem : item ∈ s.row.resources) (hdone : s.done item) :
    item ∈ s.returned := by
  obtain ⟨other, hreturned, hother, hsame⟩ := hmarked _ hdone rfl rfl
  have heq : other = item :=
    List.inj_on_of_nodup_map (valid_parts hvalid).2.1 hother hitem hsame
  rwa [← heq]

theorem stands_finish (h : Stands s) : Stands s.finishLifecycle := by
  unfold System.finishLifecycle
  split
  · rename_i hfinish
    obtain ⟨hresources, hdone⟩ := hfinish
    obtain ⟨first, hfirst⟩ := List.exists_mem_of_ne_nil _ hresources
    cases h with
    | active hstate hbegan hidle hspent =>
        rw [hstate]
        exact .active hstate hbegan hidle hspent
    | deleted hstate before hbegan journal h hrestore =>
        rw [hstate]
        exact .deleted hstate before hbegan journal h hrestore
    | deleting hstate h =>
        rw [hstate]
        have hreturned : ∀ item ∈ s.row.resources, item ∈ s.returned := fun item hitem =>
          returned_of_done h.valid h.marked hitem (hdone item hitem)
        cases hbegan : s.began with
        | none =>
            have hsome := hreturned first hfirst
            rw [(h.idle hbegan).2.1] at hsome
            cases hsome
        | some before =>
            obtain ⟨journal, -, hsaved, hkept, hrestore, hcovered, hrecorded⟩ := h.begun before hbegan
            have hcomplete : ∀ item ∈ s.row.resources, RecordedIn journal item.kind :=
              fun item hitem => hrecorded item (hreturned item hitem)
            refine .deleted rfl before rfl journal ⟨h.valid, hsaved.resolve_right ?_, hkept,
              hcovered, hcomplete, ⟨_, hdone first hfirst, rfl⟩⟩ hrestore
            rintro rfl
            obtain ⟨item, hitem, database, storageTenant, hkind⟩ := exists_tenant h.valid
            have hrecord := hcomplete item hitem
            rw [hkind] at hrecord
            exact hrecord rfl
    | restoring hstate before hbegan operation journal h hmarked hrestore hreturned =>
        rw [hstate]
        have hrestored : ∀ item ∈ s.row.resources, RestoredIn journal item.kind :=
          fun item hitem => hreturned item (returned_of_done h.valid hmarked hitem (hdone item hitem))
        have hown : ∀ other ∈ s.host.journals.get s.row.runtime, other = journal :=
          fun other hother => Option.some.inj (hother.symm.trans h.saved)
        refine .active rfl rfl (fun other hother => ?_) fun other hother => ?_
        · obtain rfl := hown other hother
          refine ⟨h.kept.version, h.kept.own, fun service part hpart => ?_, fun tenant htenant => ?_⟩
          · obtain ⟨item, hitem, hkind⟩ := h.covered service (by rw [Option.mem_def.mp hpart]; simp)
            have hin := hrestored item hitem
            rw [hkind] at hin
            obtain ⟨part', hpart', hphase⟩ := hin
            rwa [Option.some.inj (hpart.symm.trans hpart')]
          · obtain ⟨item, hitem, database, storageTenant, hkind⟩ := exists_tenant h.valid
            have hin := hrestored item hitem
            rw [hkind] at hin
            obtain ⟨tenant', htenant', hphase⟩ := hin
            rwa [Option.some.inj (htenant.symm.trans htenant')]
        · obtain rfl := hown other hother
          obtain ⟨effect, heffect, hspent⟩ := h.spent
          exact ⟨effect, heffect, hspent.trans h.kept.begun.symm⟩
  · exact h

/-- What others do keeps what matches. -/
theorem matches_elsewhere {runtime : String} {resources : List Resource} {now host : Host}
    (hvalid : validateDurableInventory runtime resources = true)
    (h : Matches runtime operation (tenantRoles resources) before now journal)
    (hsame : SameOwn runtime now host) :
    Matches runtime operation (tenantRoles resources) before host journal := by
  obtain ⟨-, hnamed, hroles, hentry⟩ := hsame
  have hlogins : ∀ name ∈ tenantRoles resources, host.roles.get name = now.roles.get name := by
    intro name hname
    obtain ⟨suffix, rfl⟩ := roleName_of_mem hvalid hname
    exact hroles suffix
  refine h.change (fun service => (h.container service).frame (hnamed service)) (fun hnone => ?_)
    (fun tenant htenant => (h.tenant tenant htenant).frame hlogins hentry
      fun service _ hrestarted => hrestarted.frame (hnamed service))
    (fun hnone => by rw [hentry]; exact (h.deleting hnone).2.2)
    fun service part hpart hrestored entry' hentry' hrunning hport => ?_
  · obtain ⟨hsame, hsameEntry⟩ := h.unrecorded hnone
    exact ⟨fun name hname => (hlogins name hname).trans (hsame name hname),
      hentry.trans hsameEntry⟩
  · rw [hentry] at hentry'
    exact ((h.ordered service part hpart hrestored).2 entry' hentry' hrunning hport).frame
      (hnamed service)

theorem stands_elsewhere (h : Stands s) {host : Host} (helsewhere : s.Elsewhere host) :
    Stands { s with host } := by
  obtain ⟨hjournal, hown⟩ := helsewhere
  cases h with
  | active hstate hbegan hidle hspent =>
      refine .active hstate hbegan (fun journal hget => ?_) fun journal hget => ?_
      · exact hidle journal (hjournal.symm.trans hget)
      · exact hspent journal (hjournal.symm.trans hget)
  | deleting hstate h =>
      refine .deleting hstate ⟨h.valid, h.marked, fun hnone => ?_, fun before hbefore => ?_⟩
      · obtain ⟨hidle, hreturned, hforeign⟩ := h.idle hnone
        exact ⟨fun journal hget => hidle journal (hjournal.symm.trans hget), hreturned,
          fun journal hget => hforeign journal (hjournal.symm.trans hget)⟩
      · obtain ⟨journal, hopen, hsaved, hmatches, hrest⟩ := h.begun before hbefore
        refine ⟨journal, ?_, ?_, matches_elsewhere h.valid hmatches (hown ?_), hrest⟩
        · exact (congrArg (openJournal · _ _ _) hjournal).trans hopen
        · exact hsaved.imp_left hjournal.trans
        · rw [Option.mem_def.mp hbefore]
          simp
  | deleted hstate before hbegan journal h hrestore =>
      exact .deleted hstate before hbegan journal ⟨h.valid, hjournal.trans h.saved,
        matches_elsewhere h.valid h.kept (hown (by rw [hbegan]; simp)), h.covered, h.complete,
        h.spent⟩ hrestore
  | restoring hstate before hbegan operation journal h hmarked hrestore hreturned =>
      exact .restoring hstate before hbegan operation journal ⟨h.valid, hjournal.trans h.saved,
        matches_elsewhere h.valid h.kept (hown (by rw [hbegan]; simp)), h.covered, h.complete,
        h.spent⟩ hmarked hrestore hreturned

theorem stands_step (h : Stands s) (event : Event) : Stands (s.step event) := by
  cases event with
  | register resources => exact stands_register h resources
  | delete operation => exact stands_delete h operation
  | restore operation => exact stands_restore h operation
  | pending resource => exact stands_lifecycleEffect h fun hdone => nomatch hdone
  | attempt outside request writes => exact stands_attempt h writes
  | effect outside request marked => exact stands_effect h marked
  | finish => exact stands_finish h

theorem reached_stands (h : System.Reached s) : Stands s := by
  induction h with
  | start s hstate hjournal hbegan hreturned =>
      refine .active hstate hbegan (fun journal hget => ?_) fun journal hget => ?_
      all_goals
        rw [hjournal] at hget
        cases hget
  | step s event h ih => exact stands_step ih event
  | outside s host h helsewhere ih => exact stands_elsewhere ih helsewhere

end

/-! ## The law -/

/-- The environment is as it was, up to the addresses of its restarted containers. -/
structure AsBefore (row : Row) (before now : Host) : Prop where
  containers : ∀ item ∈ row.resources, ∀ service, item.kind = .container service →
    ∃ container container', before.named (containerName row.runtime service) = [container] ∧
      now.named (containerName row.runtime service) = [container'] ∧
      container'.identity = container.identity ∧ container'.running = container.running
  logins : ∀ item ∈ row.resources, ∀ database roles storageTenant,
    item.kind = .tenant database roles storageTenant →
      ∀ name ∈ roles, now.roles.get name = before.roles.get name
  published : (now.endpoints.get row.runtime).isSome = (before.endpoints.get row.runtime).isSome
  entry : ∀ entry' ∈ now.endpoints.get row.runtime, ∃ entry ∈ before.endpoints.get row.runtime,
    Republished row.runtime before now entry entry' ∧
      ∀ item ∈ row.resources, ∀ service, item.kind = .container service → service.port ≠ none →
        (∃ container, before.named (containerName row.runtime service) = [container] ∧
          container.running = true) →
        Restarted row.runtime before now service (entry'.get service.text)

/-- A journal has the environment as it was. -/
structure RecordsBefore (row : Row) (before : Host) (journal : Journal) : Prop where
  containers : ∀ service, ∀ part ∈ journal.containers.get service,
    ∃ container, before.named (containerName row.runtime service) = [container] ∧
      part.id = container.id ∧ part.running = container.running
  logins : ∀ tenant ∈ journal.tenant, ∀ name ∈ tenantRoles row.resources,
    tenant.roles.get name = before.roles.get name
  entry : ∀ tenant ∈ journal.tenant, tenant.entry = before.endpoints.get row.runtime

structure LifecycleLaw (s : System) : Prop where
  restored : s.row.state = .restoring → (∀ item ∈ s.row.resources, item ∈ s.returned) →
    ∃ before ∈ s.began, AsBefore s.row before s.host
  recorded : ∀ before ∈ s.began, ∀ journal ∈ s.host.journals.get s.row.runtime,
    s.row.state = .restoring ∨ journal.operation = s.row.operation →
      RecordsBefore s.row before journal
  refused : ∀ outside request state, request.action.state = some state →
    request.operation ≠ s.row.operation →
      ∃ reason, apply s.row outside request s.host () = ⟨[], .error reason, s.host, ()⟩

section

variable {s : System} {before now : Host} {journal : Journal} {runtime operation : String}

theorem recordsBefore_of_matches {row : Row}
    (h : Matches row.runtime operation (tenantRoles row.resources) before now journal) :
    RecordsBefore row before journal := by
  refine ⟨fun service part hpart => ?_, fun tenant htenant => (h.tenant tenant htenant).record,
    fun tenant htenant => (h.tenant tenant htenant).entry⟩
  obtain ⟨item, item', hbefore, -, hkept, -⟩ := h.named_of_part hpart
  exact ⟨item, hbefore, hkept.id, hkept.running⟩

/-- Where everything is restored, the environment is as it was. -/
theorem asBefore_of_restored (h : Retained s before operation journal)
    (hrestored : ∀ item ∈ s.row.resources, RestoredIn journal item.kind) :
    AsBefore s.row before s.host := by
  obtain ⟨tenantItem, hmem, database, storageTenant, hkind⟩ := exists_tenant h.valid
  have hin := hrestored tenantItem hmem
  rw [hkind] at hin
  obtain ⟨tenant, htenant, hphase⟩ := hin
  have hkept := h.kept.tenant tenant htenant
  obtain ⟨hlogins, hpublished⟩ := hkept.restored hphase
  refine ⟨fun item hitem service hservice => ?_, fun item hitem _ roles _ hroles name hname => ?_,
    hpublished, fun entry' hentry' => ?_⟩
  · have hin := hrestored item hitem
    rw [hservice] at hin
    obtain ⟨part, hpart, hphase⟩ := hin
    obtain ⟨container, container', hbefore, hnow, hkept, -⟩ := h.kept.named_of_part hpart
    exact ⟨container, container', hbefore, hnow, hkept.identity, hkept.restored hphase⟩
  · exact hlogins name (by rwa [roles_eq h.valid hitem hroles])
  · obtain ⟨entry, hentry, hrepublished⟩ := hkept.published entry' hentry'
    refine ⟨entry, hentry, hrepublished, fun item hitem service hservice hport hran => ?_⟩
    obtain ⟨container, hbefore, hrunning⟩ := hran
    have hin := hrestored item hitem
    rw [hservice] at hin
    obtain ⟨part, hpart, hphase⟩ := hin
    obtain ⟨container', item', hbefore', hnow, hkeptPart, -⟩ := h.kept.named_of_part hpart
    have hsame : container' = container := by simpa using hbefore'.symm.trans hbefore
    subst hsame
    exact (h.kept.ordered service part hpart hphase).2 entry' hentry'
      (hkeptPart.running.trans hrunning) hport

/-- In every run: what a restore that has returned leaves, what the journals record,
and that no other operation gets through. -/
theorem retained_law (h : System.Reached s) : LifecycleLaw s := by
  have hstands := reached_stands h
  refine ⟨fun hrestoring hreturned => ?_, fun before hbefore journal hjournal hown => ?_,
    fun outside request state hstate hoperation => ?_⟩
  · cases hstands with
    | active hstate | deleting hstate | deleted hstate => rw [hstate] at hrestoring; cases hrestoring
    | restoring _ before hbegan operation journal hretained _ _ hrestored =>
        exact ⟨before, hbegan, asBefore_of_restored hretained fun item hitem =>
          hrestored item (hreturned item hitem)⟩
  · cases hstands with
    | active _ hbegan =>
        rw [hbegan] at hbefore
        cases hbefore
    | deleting hstate hdeleting =>
        obtain ⟨opened, hopen, -, hmatches, -⟩ := hdeleting.begun before hbefore
        have hsame := hown.resolve_left (by rw [hstate]; simp)
        obtain rfl : opened = journal := opened_saved hjournal hopen (.inl hsame)
        exact recordsBefore_of_matches hmatches
    | deleted _ before' hbegan saved hretained | restoring _ before' hbegan _ saved hretained =>
        obtain rfl : before' = before := Option.some.inj (hbegan.symm.trans hbefore)
        obtain rfl : saved = journal := Option.some.inj (hretained.saved.symm.trans hjournal)
        exact recordsBefore_of_matches hretained.kept
  · cases hcheck : checkRequest s.row request with
    | error reason => exact ⟨reason, apply_refused hcheck⟩
    | ok _ => exact absurd (checkRequest_eq_ok hcheck hstate).2.1.symm hoperation

end

/-! ### A run -/

def sampleRuntime : String := "e_aaaaaaaaaaaaaaaaaaaaaaaa"

def sampleId (digit : String) : String := "0000000" ++ digit ++ "-0000-0000-0000-000000000000"

def sampleItem (digit : String) (kind : Kind) (id : String) : Resource :=
  ⟨kind, id, sampleId digit, sampleId "0", sampleRuntime⟩

def sampleContainer (digit : String) (service : Service) : Resource :=
  sampleItem digit (.container service) (containerName sampleRuntime service)

def sampleTenant : Resource :=
  sampleItem "3" (.tenant sampleRuntime (requiredRoles.map (roleName sampleRuntime)) sampleRuntime)
    sampleRuntime

def sampleHost : Host where
  containers :=
    [⟨"a", containerName sampleRuntime .auth, durableOwner, false, true, "10.0.0.2"⟩,
      ⟨"b", containerName sampleRuntime .rest, durableOwner, false, false, ""⟩]
  ids_nodup := by decide
  databases := (∅ : Dict String ℕ).set sampleRuntime 1
  roles := (((∅ : Dict String Bool).set (roleName sampleRuntime "auth") true).set
    (roleName sampleRuntime "rest") true).set (roleName sampleRuntime "storage") false
  sessions := []
  endpoints := (∅ : Dict String Entry).set sampleRuntime
    ((∅ : Entry).set "auth" (.url "http://10.0.0.2:9999"))
  journals := ∅

def sampleSystem : System where
  row := ⟨sampleRuntime, .active, 0, "", durableCoverage,
    [sampleContainer "1" .auth, sampleContainer "2" .rest, sampleTenant]⟩
  effects := []
  host := sampleHost
  began := none
  returned := []

/-- A delete whose first effect is cut short twice, and the restore after it. -/
def sampleRun : List Event :=
  let request (action : Action) (operation : String) (item : Resource) : Request :=
    ⟨action, item, sampleRuntime, 1, sampleId operation⟩
  let outside : Outside := ⟨"10.0.0.7", true⟩
  let effect (action : Action) (operation : String) (item : Resource) : Event :=
    .effect outside (request action operation item) true
  [.delete (sampleId "8"), .attempt outside (request .quarantine "8" (sampleContainer "1" .auth)) 1,
    .attempt outside (request .quarantine "8" (sampleContainer "1" .auth)) 2,
    effect .quarantine "8" (sampleContainer "1" .auth),
    effect .quarantine "8" (sampleContainer "2" .rest), effect .quarantine "8" sampleTenant,
    .finish, .restore (sampleId "9"), effect .restore "9" sampleTenant,
    effect .restore "9" (sampleContainer "1" .auth), effect .restore "9" (sampleContainer "2" .rest)]

theorem reached_run {s : System} (h : System.Reached s) (events : List Event) :
    System.Reached (events.foldl System.step s) := by
  induction events generalizing s with
  | nil => exact h
  | cons event events ih => exact ih (.step s event h)

theorem sampleRun_returned : (sampleRun.foldl System.step sampleSystem).row.state = .restoring ∧
      ∀ item ∈ (sampleRun.foldl System.step sampleSystem).row.resources,
        item ∈ (sampleRun.foldl System.step sampleSystem).returned := by
  decide

/-- Everything of the run has returned, so the environment is as it was. -/
theorem retained_law_run : ∃ before ∈ (sampleRun.foldl System.step sampleSystem).began,
    AsBefore (sampleRun.foldl System.step sampleSystem).row before
      (sampleRun.foldl System.step sampleSystem).host :=
  (retained_law (reached_run (.start sampleSystem rfl rfl rfl rfl) sampleRun)).restored
    sampleRun_returned.1 sampleRun_returned.2

end Sbarbase.Lifecycle.Proofs.RetainedLaw
