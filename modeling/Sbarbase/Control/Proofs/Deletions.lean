import Sbarbase.Control.Proofs.Lifecycles
import Sbarbase.Control.Proofs.Members
/-!
# The life of an environment

What the moves of `Lifecycles` add up to across a run. The worker finishes only
operations that are under way, as the loop of `src/control/lifecycle.ts` checks
before its first effect, and the id of a deletion is drawn at random.
-/

set_option synthInstance.maxSize 5000

namespace Sbarbase.Control

open Lib

/-- An operation is under way. -/
def LifecycleState.pending : LifecycleState → Bool
  | .active => false
  | .deleting => true
  | .deleted => false
  | .restoring => true
  | .purging => true
  | .purged => false

/-- The life of an environment, step by step. -/
inductive LifecycleState.Leads : LifecycleState → LifecycleState → Prop
  | stays (state : LifecycleState) : Leads state state
  | deletes : Leads .active .deleting
  | deleted : Leads .deleting .deleted
  | restores : Leads .deleted .restoring
  | restored : Leads .restoring .active
  | purges : Leads .deleted .purging
  | purged : Leads .purging .purged

/-- The resources are those of the text. -/
def Inventory.parsed (parse : String → List LifecycleResource) (inventory : Inventory) : Bool :=
  inventory.resources = parse inventory.text

/-- What the callers of an operation grant: inventories are read from their texts,
a worker finishes an operation that is under way, the id of a deletion is new. -/
def Operation.granted (parse : String → List LifecycleResource) (c : Catalog) : Operation → Bool
  | .registerDurableInventory _ inventory _ => inventory.parsed parse
  | .registerLifecycleResources _ inventory _ _ => inventory.parsed parse
  | .deleteEnvironment _ _ operation => !c.operationUsed operation
  | .finishLifecycle worker _ =>
    worker.state.pending && worker.inventory.all (Inventory.parsed parse)
  | _ => true

namespace Proofs.Deletions

open Lib.Call Control.Proofs.Lifecycles Control.Proofs.Members

/-! ## Every step -/

section

variable (c : Catalog) (event : Context × Operation)

theorem step_moves : Moved event.1 event.2 c (catalogMachine.step c event) := by
  rcases (atomic_perform event.1 event.2).after_cases c with hsame | ⟨u, hr⟩
  · show Table.Evolves _ _ c.lifecycle (after _ c).lifecycle
    rw [hsame]
    exact moved_refl event.1 event.2 c
  · exact perform_moves event.1 event.2 c u _ hr

theorem step_keepsEffects : KeepsEffects c (catalogMachine.step c event) := by
  rcases (atomic_perform event.1 event.2).after_cases c with hsame | ⟨u, hr⟩
  · intro effect heffect
    rw [show catalogMachine.step c event = c from hsame]
    exact ⟨effect, heffect, rfl⟩
  · exact perform_keepsEffects event.1 event.2 c u _ hr

end

/-- The worker's row has the operation, the state and the inventory text of the current one. -/
theorem same_iff {worker row : LifecycleRow} (h : worker.same row = true) :
    row.operation = worker.operation ∧ row.state = worker.state ∧
      row.inventory.map Inventory.text = worker.inventory.map Inventory.text := by
  simp only [LifecycleRow.same, Bool.and_eq_true, decide_eq_true_eq] at h
  exact ⟨h.1.1.1.1.1.1, h.1.1.1.1.2, h.1.1.1.2⟩

/-! ## Operations are used once -/

/-- The operation is under way or has effects. -/
def Taken (c : Catalog) (operation : String) : Prop :=
  (∃ effect ∈ c.effects.rows, effect.operation = operation) ∨
    ∃ row ∈ c.lifecycle.rows, row.operation = operation ∧ row.state.pending = true

theorem used_of_taken {c : Catalog} {operation : String} (h : Taken c operation) :
    c.operationUsed operation = true := by
  rcases h with ⟨effect, heffect, hoperation⟩ | ⟨row, hrow, hoperation, _⟩
  · simp only [Catalog.operationUsed, Bool.or_eq_true, List.any_eq_true]
    exact .inr ⟨effect, heffect, by simpa using hoperation⟩
  · simp only [Catalog.operationUsed, Bool.or_eq_true, List.any_eq_true]
    exact .inl ⟨row, hrow, by simpa using hoperation⟩

/-- A finished operation has effects. -/
theorem taken_of_effectsDone {c : Catalog} {row : LifecycleRow} (h : c.effectsDone row = true) :
    ∃ effect ∈ c.effects.rows, effect.operation = row.operation := by
  simp only [Catalog.effectsDone, Bool.and_eq_true, List.all_eq_true, decide_eq_true_eq] at h
  obtain ⟨item, hitem⟩ := List.exists_mem_of_ne_nil _ h.1
  have hdone := h.2 item hitem
  cases heffect : c.effects.get (row.operation, item.resource) with
  | none =>
      rw [heffect] at hdone
      cases hdone
  | some effect =>
      obtain ⟨hmem, hkey⟩ := Table.get_eq_some.mp heffect
      exact ⟨effect, hmem, congrArg Prod.fst hkey⟩

theorem taken_step {c : Catalog} {operation : String} (event : Context × Operation)
    (h : Taken c operation) : Taken (catalogMachine.step c event) operation := by
  have heffects : ∀ {name : String}, (∃ effect ∈ c.effects.rows, effect.operation = name) →
      ∃ effect ∈ (catalogMachine.step c event).effects.rows, effect.operation = name := by
    rintro name ⟨effect, heffect, rfl⟩
    obtain ⟨effect', heffect', hkey⟩ := step_keepsEffects c event effect heffect
    exact ⟨effect', heffect', congrArg Prod.fst hkey⟩
  rcases h with hrecorded | ⟨row, hrow, rfl, hpending⟩
  · exact .inl (heffects hrecorded)
  · obtain ⟨row', hrow', _, hmove⟩ := (step_moves c event).persists hrow
    cases hmove with
    | stays => exact .inr ⟨row, hrow', rfl, hpending⟩
    | enrolls inventory coverage hop hsame => exact .inr ⟨_, hrow', rfl, hpending⟩
    | deletes actor operation hop hstate =>
        rw [hstate] at hpending
        cases hpending
    | requests request actor operation receipt hop hstate hunused hdue =>
        rw [hstate] at hpending
        cases hpending
    | blocks failure => exact .inr ⟨_, hrow', rfl, hpending⟩
    | finishes worker failure hop hsame hdone =>
        left
        rw [(same_iff hsame).1]
        exact heffects (taken_of_effectsDone hdone)

theorem taken_run {c : Catalog} {operation : String} (events : List (Context × Operation))
    (h : Taken c operation) : Taken (catalogMachine.runFrom c events) operation :=
  catalogMachine.runFrom_invariant (I := fun c => Taken c operation)
    (fun _ event hc => taken_step event hc) h events

/-- The step starts the operation on the environment. -/
def Starts (c c' : Catalog) (environment operation : String) : Prop :=
  ∃ row ∈ c.lifecycle.rows, ∃ row' ∈ c'.lifecycle.rows,
    row.environment = environment ∧ row'.environment = environment ∧
      row'.operation = operation ∧ row.state.pending = false ∧ row'.state.pending = true

theorem taken_of_starts {c c' : Catalog} {environment operation : String}
    (h : Starts c c' environment operation) : Taken c' operation := by
  obtain ⟨_, _, row', hrow', _, _, hoperation, _, hpending⟩ := h
  exact .inr ⟨row', hrow', hoperation, hpending⟩

theorem next_settled (state : LifecycleState) : state.next.pending = false := by
  cases state <;> rfl

section

variable {parse : String → List LifecycleResource} {c : Catalog} {event : Context × Operation}
  (hgranted : event.2.granted parse c = true)

include hgranted

theorem unused_of_starts {environment operation : String}
    (h : Starts c (catalogMachine.step c event) environment operation) :
    c.operationUsed operation = false := by
  obtain ⟨row, hrow, row', hrow', henvironment, henvironment', rfl, hsettled, hpending⟩ := h
  obtain ⟨other, hother, hkey, hmove⟩ := (step_moves c event).persists hrow
  have hsame : row' = other :=
    Table.eq_of_key _ hrow' hother (henvironment'.trans (henvironment.symm.trans hkey.symm))
  rw [hsame] at hpending ⊢
  cases hmove with
  | stays =>
      rw [hsettled] at hpending
      cases hpending
  | enrolls inventory coverage hop hsame =>
      rw [show row.state.pending = true from hpending] at hsettled
      cases hsettled
  | deletes actor operation hop hstate =>
      rw [hop] at hgranted
      show c.operationUsed operation = false
      simpa [Operation.granted] using hgranted
  | requests request actor operation receipt hop hstate hunused hdue => exact hunused
  | blocks failure =>
      rw [show row.state.pending = true from hpending] at hsettled
      cases hsettled
  | finishes worker failure hop hsame hdone =>
      have hnext := next_settled row.state
      rw [show row.state.next.pending = true from hpending] at hnext
      cases hnext

/-! ## What a step does to a row -/

/-- What holds of every row that is recorded. -/
structure Valid (parse : String → List LifecycleResource) (row : LifecycleRow) : Prop where
  inventory : ∀ inventory, row.inventory = some inventory → inventory.parsed parse = true
  retained : row.state ≠ .active → ∃ time, row.retainUntil = some time

omit hgranted in
theorem finished_retained {now : ℤ} (failure : Option String) {row : LifecycleRow} {time : ℤ}
    (h : row.retainUntil = some time) : ∃ time',
      (finished now failure row).retainUntil = some time' ∧ time ≤ time' := by
  simp only [finished, h]
  split_ifs
  · exact ⟨_, rfl, le_max_left _ _⟩
  · exact ⟨time, rfl, le_refl time⟩

theorem worker_pending {worker : LifecycleRow} {failure : Option String}
    (hop : event.2 = .finishLifecycle worker failure) : worker.state.pending = true := by
  rw [hop] at hgranted
  simp only [Operation.granted, Bool.and_eq_true] at hgranted
  exact hgranted.1

theorem valid_move {row row' : LifecycleRow} (hrow : Valid parse row)
    (hmove : Move event.1 c event.2 row row') : Valid parse row' := by
  cases hmove with
  | stays => exact hrow
  | enrolls inventory coverage hop hsame =>
      refine ⟨fun recorded hrecorded => ?_, hrow.retained⟩
      obtain rfl := Option.some.inj hrecorded
      cases hevent : event.2 <;> rw [hevent] at hop hgranted <;>
        simp_all [Operation.inventory, Operation.granted]
  | deletes actor operation hop hstate => exact ⟨hrow.inventory, fun _ => ⟨_, rfl⟩⟩
  | requests request actor operation receipt hop hstate hunused hdue =>
      refine ⟨hrow.inventory, fun _ => hrow.retained ?_⟩
      rw [hstate]
      simp
  | blocks failure => exact ⟨hrow.inventory, hrow.retained⟩
  | finishes worker failure hop hsame hdone =>
      refine ⟨hrow.inventory, fun _ => ?_⟩
      have hpending := worker_pending hgranted hop
      rw [← (same_iff hsame).2.1] at hpending
      have hactive : row.state ≠ .active := by
        intro hactive
        rw [hactive] at hpending
        cases hpending
      obtain ⟨time, htime⟩ := hrow.retained hactive
      obtain ⟨time', htime', _⟩ := finished_retained failure htime
      exact ⟨time', htime'⟩

theorem valid_step (hc : ∀ row ∈ c.lifecycle.rows, Valid parse row) :
    ∀ row ∈ (catalogMachine.step c event).lifecycle.rows, Valid parse row := by
  intro row' hrow'
  rcases (step_moves c event).mem hrow' with ⟨row, hrow, _, hmove⟩ | henrolled
  · exact valid_move hgranted (hc row hrow) hmove
  · refine ⟨fun inventory hinventory => ?_, fun hactive => absurd henrolled.state hactive⟩
    have hop := henrolled.inventory.symm.trans hinventory
    cases hevent : event.2 <;> rw [hevent] at hop hgranted <;>
      simp_all [Operation.inventory, Operation.granted]

/-- What a step may do to the lifecycle of an environment. -/
structure Lives (c : Catalog) (now : ℤ) (row row' : LifecycleRow) : Prop where
  leads : row.state.Leads row'.state
  epoch : row.epoch ≤ row'.epoch
  deletes : row.state ≠ .deleting → row'.state = .deleting → row.epoch < row'.epoch
  purges : row.state ≠ .purging → row'.state = .purging →
    ∃ time, row.retainUntil = some time ∧ time ≤ now
  purged : row.state ≠ .purged → row'.state = .purged → c.effectsDone row = true
  deleted : row.state = .deleting → row'.state = .deleted →
    ∃ time time', row.retainUntil = some time ∧ row'.retainUntil = some time' ∧ time ≤ time'

omit hgranted in
/-- A step that changes neither state nor epoch. -/
theorem lives_same {now : ℤ} {row row' : LifecycleRow} (hstate : row'.state = row.state)
    (hepoch : row'.epoch = row.epoch) : Lives c now row row' where
  leads := by
    rw [hstate]
    exact .stays row.state
  epoch := hepoch.ge
  deletes hne heq := absurd (hstate.symm.trans heq) hne
  purges hne heq := absurd (hstate.symm.trans heq) hne
  purged hne heq := absurd (hstate.symm.trans heq) hne
  deleted hdeleting hdeleted := by
    rw [hstate, hdeleting] at hdeleted
    cases hdeleted

/-- The resources of the worker's row are those of the recorded one. -/
theorem effectsDone_row {row worker : LifecycleRow} {failure : Option String}
    (hrow : Valid parse row) (hop : event.2 = .finishLifecycle worker failure)
    (hsame : worker.same row = true) (hdone : c.effectsDone worker = true) :
    c.effectsDone row = true := by
  obtain ⟨hoperation, _, htext⟩ := same_iff hsame
  rw [hop] at hgranted
  simp only [Operation.granted, Bool.and_eq_true] at hgranted
  have hresources : row.resources = worker.resources := by
    rw [LifecycleRow.resources, LifecycleRow.resources]
    cases hrecorded : row.inventory with
    | none =>
        cases hworker : worker.inventory with
        | none => rfl
        | some inventory => simp [hrecorded, hworker] at htext
    | some recorded =>
        cases hworker : worker.inventory with
        | none => simp [hrecorded, hworker] at htext
        | some inventory =>
            have hparsed := hrow.inventory recorded hrecorded
            have hparsed' := hgranted.2
            rw [hrecorded, hworker] at htext
            rw [hworker] at hparsed'
            have heq : recorded.text = inventory.text := Option.some.inj htext
            simp only [Inventory.parsed, Option.all_some, decide_eq_true_eq] at hparsed hparsed'
            simp only [Option.map_some, Option.getD_some]
            rw [hparsed, hparsed', heq]
  rw [Catalog.effectsDone, hresources, hoperation]
  exact hdone

theorem lives_move {row row' : LifecycleRow} (hrow : Valid parse row)
    (hmove : Move event.1 c event.2 row row') : Lives c event.1.now row row' := by
  cases hmove with
  | stays => exact lives_same rfl rfl
  | enrolls inventory coverage hop hsame => exact lives_same rfl rfl
  | blocks failure => exact lives_same rfl rfl
  | deletes actor operation hop hstate =>
      refine ⟨?_, ?_, ?_, ?_, ?_, ?_⟩ <;> simp only [deleting]
      · rw [hstate]
        exact .deletes
      · omega
      · intro _ _
        omega
      · intro _ h
        cases h
      · intro _ h
        cases h
      · intro _ h
        cases h
  | requests request actor operation receipt hop hstate hunused hdue =>
      obtain ⟨time, htime⟩ := hrow.retained (by rw [hstate]; simp)
      refine ⟨?_, le_refl _, ?_, ?_, ?_, ?_⟩ <;> simp only [requested]
      · rw [hstate]
        cases request
        · exact .restores
        · exact .purges
      · intro _ h
        cases request <;> cases h
      · intro _ h
        refine ⟨time, htime, hdue ?_ time htime⟩
        cases request
        · cases h
        · rfl
      · intro _ h
        cases request <;> cases h
      · intro h
        rw [hstate] at h
        cases h
  | finishes worker failure hop hsame hdone =>
      have hpending := worker_pending hgranted hop
      rw [← (same_iff hsame).2.1] at hpending
      refine ⟨?_, le_refl _, ?_, ?_, ?_, ?_⟩
      · simp only [finished]
        cases hstate : row.state <;> rw [hstate] at hpending
        case deleting => exact .deleted
        case restoring => exact .restored
        case purging => exact .purged
        all_goals cases hpending
      · intro _ h
        have hnext : row.state.next = .deleting := h
        cases hstate : row.state <;> rw [hstate] at hnext <;> cases hnext
      · intro _ h
        have hnext : row.state.next = .purging := h
        cases hstate : row.state <;> rw [hstate] at hnext <;> cases hnext
      · intro _ _
        exact effectsDone_row hgranted hrow hop hsame hdone
      · intro hdeleting _
        obtain ⟨time, htime⟩ := hrow.retained (by rw [hdeleting]; simp)
        obtain ⟨time', htime', hle⟩ := finished_retained failure htime
        exact ⟨time, time', htime, htime', hle⟩

end

/-! ## Every run -/

theorem not_ready {c : Catalog} {row : LifecycleRow} (hrow : row ∈ c.lifecycle.rows)
    (hstate : row.state ≠ .active) : c.runtimeReady row.runtime = false := by
  rw [Catalog.runtimeReady, List.any_eq_false]
  intro job _ h
  simp only [Bool.and_eq_true, decide_eq_true_eq, List.all_eq_true] at h
  have hall := h.2 row hrow
  simp [hstate] at hall

/-- The events are granted where they arrive. -/
abbrev Granted (parse : String → List LifecycleResource) (events : List (Context × Operation)) :
    Prop :=
  catalogMachine.Along (fun c event => event.2.granted parse c = true) catalogMachine.initial events

/-- Across every run, with replays and late messages of workers among its events:
the lifecycle of an environment follows its order and its limits at every step,
an environment's first row is active, no operation id starts two operations, and
a runtime is ready in the active state only. -/
theorem lifecycle_law (parse : String → List LifecycleResource)
    (events : List (Context × Operation)) (h : Granted parse events) :
    (∀ before event after, events = before ++ event :: after →
      (∀ row ∈ (catalogMachine.run before).lifecycle.rows,
        ∃ row' ∈ (catalogMachine.run (before ++ [event])).lifecycle.rows,
          row'.environment = row.environment ∧
            Lives (catalogMachine.run before) event.1.now row row') ∧
      ∀ row' ∈ (catalogMachine.run (before ++ [event])).lifecycle.rows,
        (∀ row ∈ (catalogMachine.run before).lifecycle.rows,
          row.environment ≠ row'.environment) → row'.state = .active) ∧
    (∀ before event between event' after, events = before ++ event :: between ++ event' :: after →
      ∀ environment operation environment' operation',
        Starts (catalogMachine.run before) (catalogMachine.run (before ++ [event]))
          environment operation →
        Starts (catalogMachine.run (before ++ event :: between))
          (catalogMachine.run (before ++ event :: between ++ [event']))
          environment' operation' → operation' ≠ operation) ∧
    ∀ row ∈ (catalogMachine.run events).lifecycle.rows, row.state ≠ .active →
      (catalogMachine.run events).runtimeReady row.runtime = false := by
  have hat : ∀ before event after, events = before ++ event :: after →
      Granted parse before ∧ event.2.granted parse (catalogMachine.run before) = true := by
    rintro before event after rfl
    obtain ⟨hbefore, hevent, _⟩ := (catalogMachine.along_append _ _ _).mp h
    exact ⟨hbefore, hevent⟩
  refine ⟨?_, ?_, fun row hrow hstate => not_ready hrow hstate⟩
  · intro before event after hsplit
    obtain ⟨hbefore, hevent⟩ := hat before event after hsplit
    have hvalid : ∀ row ∈ (catalogMachine.run before).lifecycle.rows, Valid parse row := by
      apply catalogMachine.run_invariant_along
        (I := fun c => ∀ row ∈ c.lifecycle.rows, Valid parse row) _ _ before hbefore
      · exact fun row hrow => absurd hrow List.not_mem_nil
      · exact fun c event hgranted hc => valid_step hgranted hc
    have hmoves := step_moves (catalogMachine.run before) event
    rw [catalogMachine.run_snoc]
    constructor
    · intro row hrow
      obtain ⟨row', hrow', hkey, hmove⟩ := hmoves.persists hrow
      exact ⟨row', hrow', hkey, lives_move hevent (hvalid row hrow) hmove⟩
    · intro row' hrow' hfirst
      rcases hmoves.mem hrow' with ⟨row, hrow, hkey, _⟩ | henrolled
      · exact absurd hkey.symm (hfirst row hrow)
      · exact henrolled.state
  · intro before event between event' after hsplit environment operation environment' operation'
      hstarts hstarts'
    obtain ⟨_, hevent⟩ := hat (before ++ event :: between) event' after hsplit
    rw [catalogMachine.run_snoc] at hstarts'
    have hunused := unused_of_starts hevent hstarts'
    have htaken : Taken (catalogMachine.run (before ++ event :: between)) operation := by
      rw [List.append_cons, catalogMachine.run_append]
      exact taken_run between (taken_of_starts hstarts)
    intro heq
    rw [heq, used_of_taken htaken] at hunused
    cases hunused

/-! ## A deletion -/

/-- A call of the owner or a worker at a time, without platform functions. -/
def callAt (now : ℤ) : Context where
  now := now
  current := fun _ => true
  event := "e"
  channels := []
  authorizationStore := false
  authority := none
  lifecycleAdmission := none
  parseUrl := fun _ => none
  toLowerCase := fun text => text
  digest := fun text => text
  placementDigest := fun _ => ""

def fixtureRuntime : String := "e_000000000000000000000000"

/-- A disposable environment of one container. -/
def fixtureInventory : Inventory where
  text := "[{}]"
  resources := [{
    keys := ["kind", "id", "resource", "installation", "runtime"], kind := "container"
    id := "0000000000000000000000000000000000000000000000000000000000000000"
    resource := "00000000-0000-0000-0000-000000000000"
    installation := "00000000-0000-0000-0000-000000000000", runtime := fixtureRuntime
    service := none, createdAt := none, device := none, inode := none, marker := none
    identity := none, durable := none }]

/-- The row the worker of the deletion reads. -/
def fixtureRow : LifecycleRow where
  environment := "v"
  runtime := fixtureRuntime
  state := .deleting
  epoch := 1
  deletedAt := some 5
  retainUntil := some (5 + retentionMs)
  operation := "delete"
  failure := none
  recoveryReceipt := none
  inventory := some fixtureInventory
  coverage := some "disposable-fixture"
  actor := some "a"
  managementEpoch := some 0

def fixtureDeletion : List (Context × Operation) :=
  [(callAt 0, .initializeInstallation "op" "a" "Home" "o"),
    (callAt 1, .createProjectWithProduction "a" "o" "Shop" "p" "v" fixtureRuntime),
    (callAt 2, .claimProvision "claim"),
    (callAt 3, .finishProvision "v" "claim" true .runtimeFailed none),
    (callAt 4, .registerLifecycleResources fixtureRuntime fixtureInventory "disposable-fixture"
      "enrol"),
    (callAt 5, .deleteEnvironment "a" "v" "delete"),
    (callAt 6, .lifecycleEffect fixtureRow "00000000-0000-0000-0000-000000000000"
      (some "quarantined") 0),
    (callAt 7, .finishLifecycle fixtureRow none)]

theorem lifecycle_law_deletion : ((catalogMachine.run fixtureDeletion).lifecycle.rows.all fun row =>
      decide (row.state ≠ .active →
        (catalogMachine.run fixtureDeletion).runtimeReady row.runtime = false)) = true := by
  have hlaw := lifecycle_law (fun _ => fixtureInventory.resources) fixtureDeletion (by decide +kernel)
  exact List.all_eq_true.mpr fun row hrow => decide_eq_true (hlaw.2.2 row hrow)

end Proofs.Deletions

end Sbarbase.Control
