import Sbarbase.Control.Proofs.Frames
/-!
# What operations do to the lifecycle

A row is never removed and keeps its environment and runtime. `Move` lists what
one operation may do to it, with the checks that come before.
-/

set_option synthInstance.maxSize 5000

namespace Sbarbase.Control

open Lib

/-- The inventory an enrolment records. -/
def Operation.inventory : Operation → Option Inventory
  | .registerDurableInventory _ inventory _ => some inventory
  | .registerLifecycleResources _ inventory _ _ => some inventory
  | _ => none

namespace Proofs.Lifecycles

open Lib.Call Control.Proofs.Frames

/-- A row as a deletion leaves it. -/
def deleting (now epoch : ℤ) (actor operation : String) (row : LifecycleRow) : LifecycleRow :=
  { row with
    state := .deleting, epoch := row.epoch + 1, deletedAt := some now
    retainUntil := some (now + retentionMs), operation, failure := none
    recoveryReceipt := none, actor := some actor, managementEpoch := some epoch }

/-- A row as a request of its owner leaves it. -/
def requested (request : LifecycleRequest) (epoch : ℤ) (actor operation : String)
    (receipt : Option String) (row : LifecycleRow) : LifecycleRow :=
  { row with
    state := request.state, operation, failure := none, recoveryReceipt := receipt
    actor := some actor, managementEpoch := some epoch }

/-- A row as the end of its operation leaves it. -/
def finished (now : ℤ) (failure : Option String) (row : LifecycleRow) : LifecycleRow :=
  { row with
    state := row.state.next, failure
    retainUntil := if row.state.next = .deleted then
        row.retainUntil.map fun time => max time (now + retentionMs)
      else row.retainUntil }

/-- What an operation may do to a row of `environment_lifecycle`. -/
inductive Move (ctx : Context) (c : Catalog) (op : Operation) (row : LifecycleRow) :
    LifecycleRow → Prop
  | stays : Move ctx c op row row
  | enrolls (inventory : Inventory) (coverage : String)
      (hop : op.inventory = some inventory)
      (hsame : row.state = .active ∨
        ∀ recorded, row.inventory = some recorded → recorded.text = inventory.text) :
      Move ctx c op row { row with inventory := some inventory, coverage := some coverage }
  | deletes (actor operation : String)
      (hop : op = .deleteEnvironment actor row.environment operation)
      (hstate : row.state = .active) :
      Move ctx c op row (deleting ctx.now (c.security.epoch actor) actor operation row)
  | requests (request : LifecycleRequest) (actor operation : String) (receipt : Option String)
      (hop : op = .requestLifecycle actor row.environment operation request)
      (hstate : row.state = .deleted) (hunused : c.operationUsed operation = false)
      (hdue : request = .purging → ∀ time, row.retainUntil = some time → time ≤ ctx.now) :
      Move ctx c op row (requested request (c.security.epoch actor) actor operation receipt row)
  | blocks (failure : Option String) : Move ctx c op row { row with failure }
  | finishes (worker : LifecycleRow) (failure : Option String)
      (hop : op = .finishLifecycle worker failure)
      (hsame : worker.same row = true) (hdone : c.effectsDone worker = true) :
      Move ctx c op row (finished ctx.now failure row)

/-- The first row of an environment, made for its job. -/
structure Enrolled (c : Catalog) (op : Operation) (row : LifecycleRow) : Prop where
  state : row.state = .active
  epoch : row.epoch = 0
  inventory : row.inventory = op.inventory
  job : ∃ job ∈ c.jobs.rows, job.environment = row.environment ∧ job.runtime = row.runtime

section

variable (ctx : Context) (op : Operation) (c : Catalog)

/-- The lifecycle is that of `c` after moves of the operation. -/
abbrev Moved (c' : Catalog) : Prop :=
  Table.Evolves (Move ctx c op) (Enrolled c op) c.lifecycle c'.lifecycle

theorem moved_refl : Moved ctx op c c := Table.Evolves.refl (fun _ => .stays) c.lifecycle

theorem moved_of_leaves {α : Type} (call : CatalogCall α) [Leaves Catalog.lifecycle call] :
    Keeps (Moved ctx op c) call := by
  apply keeps_of_leaves (p := Catalog.lifecycle)
  intro c₁ c₂ hsame hc₁
  show Table.Evolves (Move ctx c op) (Enrolled c op) c.lifecycle c₂.lifecycle
  rw [hsame]
  exact hc₁

/-- The update of the row of an environment. -/
theorem moved_modify {c' : Catalog} {environment : String} {f : LifecycleRow → LifecycleRow}
    (hrows : c'.lifecycle.rows = c.lifecycle.rows.map fun row =>
      if decide (row.environment = environment) = true then f row else row)
    (h : ∀ row ∈ c.lifecycle.rows, row.environment = environment → Move ctx c op row (f row))
    (hf : ∀ row, (f row).environment = row.environment) : Moved ctx op c c' := by
  apply Table.evolves_of_rows hrows
  intro row hrow
  by_cases henvironment : row.environment = environment
  · simp only [henvironment, decide_true, if_true]
    exact ⟨(hf row).trans henvironment, h row hrow henvironment⟩
  · simp only [henvironment, decide_false]
    exact ⟨rfl, .stays⟩

theorem putLifecycle_ensures (row : LifecycleRow) :
    (putLifecycle row).Ensures c fun _ c' => c'.lifecycle = c.lifecycle.put row := by
  unfold putLifecycle
  simp only [ensures_bind, ensures_read, ensures_require, ensures_write, implies_true]

/-- A put that moves the row of its environment. -/
theorem putLifecycle_moved {old row : LifecycleRow}
    (hold : c.lifecycle.get row.environment = some old) (hmove : Move ctx c op old row) :
    (putLifecycle row).Ensures c fun _ c' => Moved ctx op c c' := by
  refine (putLifecycle_ensures c row).mono fun _ c' hput => ?_
  obtain ⟨hmem, hkey⟩ := Table.get_eq_some.mp hold
  show Table.Evolves (Move ctx c op) (Enrolled c op) c.lifecycle c'.lifecycle
  rw [hput]
  apply Table.evolves_put (fun _ => .stays)
  · intro other hother henvironment
    rw [c.lifecycle.eq_of_key hother hmem (henvironment.trans hkey.symm)]
    exact hmove
  · intro hfresh
    exact absurd hkey (hfresh old hmem)

/-- An enrolment moves the row of the job's environment or makes the first one. -/
theorem enroll_moved {job : ProvisionJob} (hjob : job ∈ c.jobs.rows) (inventory : Inventory)
    (coverage operation : String) (hop : op.inventory = some inventory)
    (hsame : ∀ row, c.lifecycle.get job.environment = some row → row.state = .active ∨
      ∀ recorded, row.inventory = some recorded → recorded.text = inventory.text) :
    (enroll job inventory coverage operation).Ensures c fun _ c' => Moved ctx op c c' := by
  unfold enroll
  rw [ensures_bind, ensures_read]
  cases hget : c.lifecycle.get job.environment with
  | some row =>
      obtain ⟨_, hkey⟩ := Table.get_eq_some.mp hget
      have hmove : Move ctx c op row
          { row with inventory := some inventory, coverage := some coverage } :=
        .enrolls inventory coverage hop (hsame row hget)
      simp only [id, hget]
      apply putLifecycle_moved ctx op c _ hmove
      rw [show ({ row with inventory := some inventory, coverage := some coverage } :
        LifecycleRow).environment = job.environment from hkey]
      exact hget
  | none =>
      simp only [id, hget]
      refine (putLifecycle_ensures c _).mono fun _ c' hput => ?_
      show Table.Evolves (Move ctx c op) (Enrolled c op) c.lifecycle c'.lifecycle
      rw [hput]
      apply Table.evolves_put (fun _ => .stays)
      · intro other hother henvironment
        exact absurd henvironment (Table.get_eq_none.mp hget other hother)
      · intro _
        exact ⟨rfl, rfl, hop.symm, job, hjob, rfl, rfl⟩

theorem jobOfRuntime_mem {c : Catalog} {runtime : String} {job : ProvisionJob}
    (h : c.jobOfRuntime runtime = some job) : job ∈ c.jobs.rows :=
  List.mem_of_find?_eq_some h

theorem registerDurableInventory_moved (runtime : String) (inventory : Inventory)
    (operation : String) (hop : op.inventory = some inventory) :
    (registerDurableInventory ctx runtime inventory operation).Ensures c
      fun _ c' => Moved ctx op c c' := by
  unfold registerDurableInventory
  apply ensures_check
  intro _ _
  rw [ensures_transaction]
  apply ensures_check
  intro _ _
  rw [ensures_bind, ensures_read, ensures_bind, ensures_found]
  intro job hjob
  rw [ensures_bind, ensures_require]
  intro hactive
  rw [ensures_bind, ensures_require]
  intro _
  rw [ensures_when]
  constructor
  · intro _
    rw [ensures_bind]
    have hrow : ∀ row, c.lifecycle.get job.environment = some row → row.state = .active ∨
        ∀ recorded, row.inventory = some recorded → recorded.text = inventory.text := by
      intro row hget
      left
      simpa [hget] using hactive
    refine (enroll_moved ctx op c (jobOfRuntime_mem hjob) inventory durableCoverage operation
      hop hrow).mono ?_
    intro _ c' hc'
    exact moved_of_leaves ctx op c _ c' hc'
  · intro _
    exact moved_refl ctx op c

theorem registerLifecycleResources_moved (runtime : String) (inventory : Inventory)
    (coverage operation : String) (hop : op.inventory = some inventory) :
    (registerLifecycleResources ctx runtime inventory coverage operation).Ensures c
      fun _ c' => Moved ctx op c c' := by
  unfold registerLifecycleResources
  apply ensures_check
  intro _ _
  rw [ensures_transaction]
  apply ensures_check
  intro _ _
  rw [ensures_bind, ensures_read, ensures_bind, ensures_found]
  intro job hjob
  rw [ensures_bind, ensures_require]
  intro himmutable
  rw [ensures_bind, ensures_require]
  intro _
  rw [ensures_bind]
  have hrow : ∀ row, c.lifecycle.get job.environment = some row → row.state = .active ∨
      ∀ recorded, row.inventory = some recorded → recorded.text = inventory.text := by
    intro row hget
    right
    intro recorded hrecorded
    simp [hget, hrecorded] at himmutable
    exact himmutable.1
  refine (enroll_moved ctx op c (jobOfRuntime_mem hjob) inventory coverage operation
    hop hrow).mono ?_
  intro _ c' hc'
  exact moved_of_leaves ctx op c _ c' hc'

theorem deleteEnvironment_moved (actor environment operation : String)
    (hop : op = .deleteEnvironment actor environment operation) :
    (deleteEnvironment ctx actor environment operation).Ensures c
      fun _ c' => Moved ctx op c c' := by
  unfold deleteEnvironment
  rw [ensures_transaction]
  apply ensures_check
  intro project _
  rw [ensures_bind, ensures_read]
  apply ensures_check
  intro _ _
  rw [ensures_ite]
  constructor
  · intro _
    rw [ensures_pure]
    exact moved_refl ctx op c
  · intro hactive
    rw [ensures_bind, ensures_require]
    intro _
    rw [ensures_bind, ensures_require]
    intro _
    rw [ensures_bind, ensures_found]
    intro job _
    rw [ensures_bind, ensures_found]
    intro row hfound
    apply ensures_check
    intro _ _
    rw [ensures_bind, ensures_require]
    intro _
    have hget : c.lifecycle.get environment = some row := (Option.filter_eq_some_iff.mp hfound).1
    obtain ⟨_, henvironment⟩ := Table.get_eq_some.mp hget
    have hstate : row.state = .active := by
      simpa [Catalog.retired, hget] using hactive
    have hmove : Move ctx c op row
        (deleting ctx.now (c.security.epoch actor) actor operation row) :=
      .deletes actor operation (henvironment ▸ hop) hstate
    rw [ensures_bind]
    refine (putLifecycle_moved ctx op c (henvironment.symm ▸ hget) hmove).mono ?_
    intro _ c' hc'
    exact moved_of_leaves ctx op c _ c' hc'

theorem requestLifecycle_moved (actor environment operation : String) (request : LifecycleRequest)
    (hop : op = .requestLifecycle actor environment operation request) :
    (requestLifecycle ctx actor environment operation request).Ensures c
      fun _ c' => Moved ctx op c c' := by
  unfold requestLifecycle
  rw [ensures_bind, ensures_require]
  intro _
  rw [ensures_transaction]
  apply ensures_check
  intro _ _
  rw [ensures_bind, ensures_read]
  apply ensures_check
  intro _ _
  split
  · rw [ensures_pure]
    exact moved_refl ctx op c
  · rw [ensures_bind, ensures_require]
    intro hunused
    rw [ensures_bind, ensures_found]
    intro row hfound
    rw [ensures_bind, ensures_require]
    intro _
    rw [ensures_bind, ensures_require]
    intro _
    apply ensures_check
    intro _ _
    rw [ensures_bind, ensures_require]
    intro _
    apply ensures_check
    intro receipt hreceipt
    obtain ⟨hget, hstate⟩ := Option.filter_eq_some_iff.mp hfound
    obtain ⟨_, henvironment⟩ := Table.get_eq_some.mp hget
    have hdue : request = .purging → ∀ time, row.retainUntil = some time → time ≤ ctx.now := by
      rintro rfl time htime
      simp only [requestLifecycle.purgeReceipt, returns_bind, returns_require] at hreceipt
      obtain ⟨_, _, _, _, _, _, _, _, ⟨hexpired, _⟩, _⟩ := hreceipt
      simpa [htime] using hexpired
    have hmove : Move ctx c op row
        (requested request (c.security.epoch actor) actor operation receipt row) :=
      .requests request actor operation receipt (henvironment ▸ hop) (by simpa using hstate)
        hunused hdue
    rw [ensures_bind]
    refine (putLifecycle_moved ctx op c (henvironment.symm ▸ hget) hmove).mono ?_
    intro _ c' hc'
    exact moved_of_leaves ctx op c _ c' hc'

theorem blockLifecycle_moved (row : LifecycleRow) (reason : String) :
    (blockLifecycle ctx row reason).Ensures c fun _ c' => Moved ctx op c c' := by
  unfold blockLifecycle
  rw [ensures_bind, ensures_read, ensures_bind, ensures_require]
  intro _
  rw [ensures_bind, ensures_write]
  refine moved_of_leaves ctx op c _ _ ?_
  refine moved_modify ctx op c rfl ?_ fun _ => rfl
  exact fun old _ _ => .blocks (some reason)

/-- The row of a worker that passes is still the one of its environment. -/
theorem assertLifecycleOperation_same (worker : LifecycleRow) :
    (assertLifecycleOperation ctx worker).Ensures c fun _ _ =>
      ∀ row ∈ c.lifecycle.rows, row.environment = worker.environment → worker.same row = true := by
  unfold assertLifecycleOperation
  apply ensures_check
  intro _ _
  rw [ensures_bind, ensures_read, ensures_bind, ensures_require]
  intro hcurrent _ _ _ row hrow henvironment
  have hget : c.lifecycle.get worker.environment = some row :=
    Table.get_eq_some.mpr ⟨hrow, henvironment⟩
  simpa [hget] using hcurrent

theorem finishLifecycle_moved (worker : LifecycleRow) (failure : Option String)
    (hop : op = .finishLifecycle worker failure) :
    (finishLifecycle ctx worker failure).Ensures c fun _ c' => Moved ctx op c c' := by
  unfold finishLifecycle
  rw [ensures_transaction]
  apply ensures_check
  intro _ hassert
  rw [ensures_bind, ensures_read, ensures_bind, ensures_require]
  intro hdone
  apply ensures_check
  intro _ _
  rw [ensures_bind, ensures_write]
  refine moved_of_leaves ctx op c _ _ ?_
  refine moved_modify ctx op c rfl ?_ fun _ => rfl
  intro row hrow henvironment
  have hsame := assertLifecycleOperation_same ctx c worker _ _ hassert row hrow henvironment
  have hstate : worker.state = row.state := by
    simp only [LifecycleRow.same, Bool.and_eq_true, decide_eq_true_eq] at hsame
    exact hsame.1.1.1.1.2.symm
  by_cases hfailed : failure.any (· ≠ "") = true
  · simp only [hfailed, if_true, hstate, Bool.true_eq_false, and_false, if_false]
    exact Move.blocks failure
  · have heffects : c.effectsDone worker = true := hdone.resolve_left hfailed
    simp only [hfailed, hstate, and_true]
    exact Move.finishes worker failure hop hsame heffects

/-- What an operation may do to the lifecycle. -/
theorem perform_moves : (perform ctx op).Ensures c fun _ c' => Moved ctx op c c' := by
  cases hop : op with
  | registerDurableInventory runtime inventory operation =>
      exact registerDurableInventory_moved ctx _ c runtime inventory operation rfl
  | registerLifecycleResources runtime inventory coverage operation =>
      exact registerLifecycleResources_moved ctx _ c runtime inventory coverage operation rfl
  | deleteEnvironment actor environment operation =>
      exact (deleteEnvironment_moved ctx _ c actor environment operation rfl).discard
  | requestLifecycle actor environment operation request =>
      exact (requestLifecycle_moved ctx _ c actor environment operation request rfl).discard
  | blockLifecycle row reason => exact blockLifecycle_moved ctx _ c row reason
  | finishLifecycle row failure => exact finishLifecycle_moved ctx _ c row failure rfl
  | _ =>
      -- Every other operation leaves the lifecycle alone.
      unfold perform
      exact .of_keeps (moved_of_leaves ctx _ c _) (moved_refl ctx _ c) fun _ _ h => h

/-! ## Effects -/

/-- The recorded effects stay recorded. -/
def KeepsEffects (c c' : Catalog) : Prop :=
  ∀ effect ∈ c.effects.rows, ∃ effect' ∈ c'.effects.rows, effect'.key = effect.key

theorem keepsEffects_of_leaves {α : Type} (call : CatalogCall α) [Leaves Catalog.effects call] :
    call.Ensures c fun _ c' => KeepsEffects c c' := by
  intro a c' hr effect heffect
  rw [show c'.effects = c.effects from Leaves.of_returns (p := Catalog.effects) hr]
  exact ⟨effect, heffect, rfl⟩

theorem lifecycleEffect_keeps (row : LifecycleRow) (resource : String) (outcome : Option String)
    (reclaimedBytes : ℤ) :
    (lifecycleEffect ctx row resource outcome reclaimedBytes).Ensures c
      fun _ c' => KeepsEffects c c' := by
  unfold lifecycleEffect
  rw [ensures_transaction]
  apply ensures_check
  intro _ _
  rw [ensures_bind, ensures_require]
  intro _
  rw [ensures_bind, ensures_require]
  intro _
  apply ensures_check
  intro _ _
  rw [ensures_bind, ensures_read, ensures_bind, ensures_write]
  intro _ c' hr effect heffect
  rw [show c'.effects = _ from Leaves.of_returns (p := Catalog.effects) hr]
  by_cases hkey : effect.key = (row.operation, resource)
  · exact ⟨_, Table.mem_put.mpr (.inl rfl), hkey.symm⟩
  · exact ⟨effect, Table.mem_put.mpr (.inr ⟨heffect, hkey⟩), rfl⟩

theorem perform_keepsEffects : (perform ctx op).Ensures c fun _ c' => KeepsEffects c c' := by
  cases op with
  | lifecycleEffect row resource outcome reclaimedBytes =>
      exact lifecycleEffect_keeps ctx c row resource outcome reclaimedBytes
  | _ =>
      unfold perform
      exact keepsEffects_of_leaves c _

end

end Proofs.Lifecycles

end Sbarbase.Control
