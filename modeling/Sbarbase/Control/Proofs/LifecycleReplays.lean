import Sbarbase.Control.LifecycleRun
import Sbarbase.Control.Proofs.Deletions
import Sbarbase.Lib.Checked
/-!
# Replays of a lifecycle operation

A run attempts the first resource of its order that has no done record, and no
other. What carries this across crashes and replays is the snapshot of a run: it
is exact when the run begins, and from then on only the run adds records.
-/

set_option synthInstance.maxSize 5000

namespace Sbarbase.Control.Proofs.LifecycleReplays

open Lib Lib.Call Control.Proofs.Frames Control.Proofs.Lifecycles
open Control.Proofs.Deletions Control.Proofs.Members

/-! ## What a history says -/

/-- The done record of the resource was written. -/
def recorded (resource : String) (history : List Mark) : Bool :=
  history.any fun mark => match mark with
    | .recorded other _ => other = resource
    | _ => false

/-- The bytes that are recorded for the resource: a pending record keeps them. -/
def bytesOf (resource : String) : List Mark → Option ℤ
  | [] => none
  | .pending other bytes :: before =>
    if other = resource then some ((bytesOf resource before).getD bytes) else bytesOf resource before
  | .recorded other bytes :: before => if other = resource then some bytes else bytesOf resource before
  | .began _ _ :: before => bytesOf resource before
  | .measured _ _ :: before => bytesOf resource before
  | .attempted _ :: before => bytesOf resource before
  | .finished :: before => bytesOf resource before
  | .stopped :: before => bytesOf resource before

/-- The action and the order of the last run that began. -/
def begun : List Mark → Option (EffectAction × List String)
  | [] => none
  | .began action order :: _ => some (action, order)
  | .measured _ _ :: before => begun before
  | .pending _ _ :: before => begun before
  | .attempted _ :: before => begun before
  | .recorded _ _ :: before => begun before
  | .finished :: before => begun before
  | .stopped :: before => begun before

/-- The first resource of the order that has no done record. -/
def next (history : List Mark) : Option String :=
  (begun history).bind fun run => run.2.find? fun resource => !recorded resource history

def purges (history : List Mark) : Prop := (begun history).map Prod.fst = some .purge

/-- The bytes are those that are recorded, where any are. -/
def Kept (resource : String) (bytes : ℤ) (before : List Mark) : Prop :=
  ∀ old, bytesOf resource before = some old → bytes = old

/-- What a run may do after what was done before. -/
def Follows : Mark → List Mark → Prop
  | .began action order, before =>
    (before.head? = none ∨ before.head? = some .stopped ∨ before.head? = some .finished) ∧
      ∀ action' order', .began action' order' ∈ before → action' = action ∧ order' = order
  | .measured resource bytes, before => Kept resource bytes before
  | .pending resource bytes, before =>
    next before = some resource ∧ (purges before → Kept resource bytes before)
  | .attempted resource, before => ∃ bytes, before.head? = some (.pending resource bytes)
  | .recorded resource bytes, before =>
    before.head? = some (.attempted resource) ∧ next before = some resource ∧
      (purges before → Kept resource bytes before)
  | .finished, before => begun before ≠ none ∧ next before = none
  | .stopped, _ => True

/-- Everything in the history follows what is before it. -/
def Lawful (history : List Mark) : Prop :=
  ∀ mark before, mark :: before <:+ history → Follows mark before

theorem lawful_cons {mark : Mark} {before : List Mark} (h : Lawful before) (hmark : Follows mark before) :
    Lawful (mark :: before) := by
  intro other older hsuffix
  rcases List.suffix_cons_iff.mp hsuffix with heq | hsuffix
  · cases heq
    exact hmark
  · exact h other older hsuffix

/-! ## The operation in the catalog -/

section

variable (operation : String)

/-- No two rows are under way with the operation. -/
def Single (c : Catalog) : Prop :=
  ∀ row ∈ c.lifecycle.rows, ∀ row' ∈ c.lifecycle.rows, row.operation = operation →
    row.state.pending = true → row'.operation = operation → row'.state.pending = true →
    row'.environment = row.environment

/-- The operation is taken, and under way with these resources in this state only. -/
structure Fixed (resources : List LifecycleResource) (state : LifecycleState) (c : Catalog) : Prop where
  listed : resources ≠ []
  taken : Taken c operation
  rows : ∀ row ∈ c.lifecycle.rows, row.operation = operation → row.state.pending = true →
    row.resources = resources ∧ row.state = state

variable {operation} {parse : String → List LifecycleResource} {c : Catalog} {event : Context × Operation}

/-- Valid inventories of one text list the same. -/
theorem resources_eq {row row' : LifecycleRow} (hvalid : Valid parse row) (hvalid' : Valid parse row')
    (htext : row'.inventory.map Inventory.text = row.inventory.map Inventory.text) :
    row'.resources = row.resources := by
  rw [LifecycleRow.resources, LifecycleRow.resources]
  cases hinventory : row.inventory with
  | none =>
      rw [hinventory, Option.map_none, Option.map_eq_none_iff] at htext
      rw [htext]
  | some inventory =>
      rw [hinventory, Option.map_some, Option.map_eq_some_iff] at htext
      obtain ⟨inventory', hinventory', heq⟩ := htext
      have hparsed := hvalid.inventory inventory hinventory
      have hparsed' := hvalid'.inventory inventory' hinventory'
      simp only [Inventory.parsed, decide_eq_true_eq] at hparsed hparsed'
      rw [hinventory', Option.map_some, Option.map_some, Option.getD_some, Option.getD_some, hparsed, hparsed', heq]

/-- A row that is under way was so before, with the same resources if it had any,
or the step started it with an operation that was not used. -/
theorem pending_step (hgranted : event.2.granted parse c = true)
    (hvalid : ∀ row ∈ c.lifecycle.rows, Valid parse row) {row' : LifecycleRow}
    (hrow' : row' ∈ (catalogMachine.step c event).lifecycle.rows) (hpending : row'.state.pending = true) :
    (∃ row ∈ c.lifecycle.rows, row.environment = row'.environment ∧ row.operation = row'.operation ∧
      row.state = row'.state ∧ (row.resources ≠ [] → row'.resources = row.resources)) ∨
    (c.operationUsed row'.operation = false ∧
      ((∃ actor, event.2 = .deleteEnvironment actor row'.environment row'.operation) ∨
        ∃ actor request, event.2 = .requestLifecycle actor row'.environment row'.operation request)) := by
  have hvalid' := valid_step hgranted hvalid row' hrow'
  rcases (step_moves c event).mem hrow' with ⟨row, hrow, hkey, hmove⟩ | henrolled
  · cases hmove with
    | stays => exact Or.inl ⟨_, hrow, rfl, rfl, rfl, fun _ => rfl⟩
    | enrolls inventory coverage hop hsame =>
        refine Or.inl ⟨row, hrow, rfl, rfl, rfl, fun hlisted => ?_⟩
        rcases hsame with hactive | hsame
        · rw [show row.state = .active from hactive] at hpending
          cases hpending
        · apply resources_eq (hvalid row hrow) hvalid'
          cases hinventory : row.inventory with
          | none => exact absurd (by rw [LifecycleRow.resources, hinventory]; rfl) hlisted
          | some recorded =>
              rw [Option.map_some, Option.map_some, hsame recorded hinventory]
    | deletes actor operation hop hstate =>
        right
        rw [hop, Operation.granted, Bool.not_eq_eq_eq_not, Bool.not_true] at hgranted
        exact ⟨hgranted, Or.inl ⟨actor, hop⟩⟩
    | requests request actor operation receipt hop hstate hunused hdue =>
        exact Or.inr ⟨hunused, Or.inr ⟨actor, request, hop⟩⟩
    | blocks failure => exact Or.inl ⟨row, hrow, rfl, rfl, rfl, fun _ => rfl⟩
    | finishes worker failure hop hsame hdone =>
        have hnext := next_settled row.state
        rw [show row.state.next.pending = true from hpending] at hnext
        cases hnext
  · rw [henrolled.state] at hpending
    cases hpending

theorem single_step (hgranted : event.2.granted parse c = true)
    (hvalid : ∀ row ∈ c.lifecycle.rows, Valid parse row) (h : Single operation c) :
    Single operation (catalogMachine.step c event) := by
  intro row hrow row' hrow' hoperation hpending hoperation' hpending'
  have hused : ∀ old ∈ c.lifecycle.rows, old.operation = operation → ¬ c.operationUsed operation = false := by
    intro old hold heq hfree
    simp only [Catalog.operationUsed, Bool.or_eq_false_iff, List.any_eq_false, decide_eq_true_eq] at hfree
    exact hfree.1 old hold heq
  rcases pending_step hgranted hvalid hrow hpending with
    ⟨old, hold, henvironment, hsame, hstate, _⟩ | ⟨hfree, hop⟩
  · rcases pending_step hgranted hvalid hrow' hpending' with
      ⟨old', hold', henvironment', hsame', hstate', _⟩ | ⟨hfree', _⟩
    · rw [← henvironment, ← henvironment']
      exact h old hold old' hold' (hsame.trans hoperation) (by rw [hstate]; exact hpending)
        (hsame'.trans hoperation') (by rw [hstate']; exact hpending')
    · rw [hoperation'] at hfree'
      exact absurd hfree' (hused old hold (hsame.trans hoperation))
  · rcases pending_step hgranted hvalid hrow' hpending' with
      ⟨old', hold', henvironment', hsame', hstate', _⟩ | ⟨_, hop'⟩
    · rw [hoperation] at hfree
      exact absurd hfree (hused old' hold' (hsame'.trans hoperation'))
    · -- one call starts one environment
      rcases hop with ⟨actor, hop⟩ | ⟨actor, request, hop⟩
      · rcases hop' with ⟨actor', hop'⟩ | ⟨actor', request', hop'⟩
        · rw [hop, Operation.deleteEnvironment.injEq] at hop'
          exact hop'.2.1.symm
        · rw [hop] at hop'
          cases hop'
      · rcases hop' with ⟨actor', hop'⟩ | ⟨actor', request', hop'⟩
        · rw [hop] at hop'
          cases hop'
        · rw [hop, Operation.requestLifecycle.injEq] at hop'
          exact hop'.2.1.symm

theorem fixed_step (hgranted : event.2.granted parse c = true)
    (hvalid : ∀ row ∈ c.lifecycle.rows, Valid parse row) {resources : List LifecycleResource}
    {state : LifecycleState} (h : Fixed operation resources state c) :
    Fixed operation resources state (catalogMachine.step c event) := by
  refine ⟨h.listed, taken_step event h.taken, fun row' hrow' hoperation hpending => ?_⟩
  rcases pending_step hgranted hvalid hrow' hpending with
    ⟨row, hrow, _, hsame, hstate, hresources⟩ | ⟨hfree, _⟩
  · obtain ⟨hlisted, hold⟩ := h.rows row hrow (hsame.trans hoperation) (by rw [hstate]; exact hpending)
    rw [← hstate, hresources (by rw [hlisted]; exact h.listed)]
    exact ⟨hlisted, hold⟩
  · rw [hoperation, used_of_taken h.taken] at hfree
    cases hfree

end

/-! ## The effects in the catalog -/

/-- The effect of a resource, as far as the history knows it. -/
def status (effect : Option LifecycleEffect) : Option (Bool × ℤ) :=
  effect.map fun effect => (effect.done, effect.reclaimedBytes)

/-- The records of the operation are those of the history. -/
def Written (operation : String) (history : List Mark) (c : Catalog) : Prop :=
  ∀ resource, status (c.effects.get (operation, resource)) =
    (bytesOf resource history).map fun bytes => (recorded resource history, bytes)

section

variable {ctx : Context} {c c' : Catalog} {row : LifecycleRow} {resource : String} {outcome : Option String}
  {bytes : ℤ}

theorem lifecycleEffect_effects {u : Unit}
    (h : (lifecycleEffect ctx row resource outcome bytes).Returns c u c') :
    c'.effects = c.effects.put ⟨row.operation, resource, outcome.any (· ≠ ""), outcome,
      if outcome.any (· ≠ "") then bytes
      else ((c.effects.get (row.operation, resource)).map LifecycleEffect.reclaimedBytes).getD bytes⟩ := by
  have hwrites : (lifecycleEffect ctx row resource outcome bytes).Ensures c fun _ c' =>
      c'.effects = c.effects.put ⟨row.operation, resource, outcome.any (· ≠ ""), outcome,
        if outcome.any (· ≠ "") then bytes
        else ((c.effects.get (row.operation, resource)).map LifecycleEffect.reclaimedBytes).getD bytes⟩ := by
    unfold lifecycleEffect
    rw [ensures_transaction]
    apply ensures_check
    intro _ _
    rw [ensures_bind, ensures_require]
    intro _
    rw [ensures_bind, ensures_require]
    intro _
    apply ensures_check
    intro _ _
    rw [ensures_bind, ensures_read, ensures_bind, ensures_write]
    intro _ c' hr
    exact Leaves.of_returns (p := Catalog.effects) hr
  exact hwrites u c' h

/-- Calls that are not the worker's leave the records of its operation. -/
theorem effects_of_other {operation : String} {op : Operation} (hop : op.isWork operation = false)
    (resource : String) : (catalogMachine.step c (ctx, op)).effects.get (operation, resource) =
      c.effects.get (operation, resource) := by
  rcases (atomic_perform ctx op).after_cases c with hsame | ⟨u, hr⟩
  · rw [show catalogMachine.step c (ctx, op) = c from hsame]
  · have hkeeps : (perform ctx op).Ensures c fun _ c' =>
        c'.effects.get (operation, resource) = c.effects.get (operation, resource) := by
      cases op with
      | lifecycleEffect row other outcome bytes =>
          intro _ c' hr
          have hne : row.operation ≠ operation := by simpa [Operation.isWork] using hop
          rw [lifecycleEffect_effects hr, Table.get_put, if_neg]
          exact fun heq => hne (congrArg Prod.fst heq)
      | _ =>
          unfold perform
          intro _ c' hr
          rw [show c'.effects = c.effects from Leaves.of_returns (p := Catalog.effects) hr]
    exact hkeeps u _ hr

/-- A snapshot finds the record of the catalog. -/
theorem effect_lifecycleOperation (c : Catalog) (row : LifecycleRow) (resource : String) :
    (c.lifecycleOperation row).effect resource = c.effects.get (row.operation, resource) := by
  rw [LifecycleOperation.effect, Catalog.lifecycleOperation, List.find?_filter, Table.get]
  congr 1
  funext effect
  simp [LifecycleEffect.key, Prod.ext_iff]

end

theorem get_put_effect (effects : Table LifecycleEffect.key) (effect : LifecycleEffect) (other : String) :
    (effects.put effect).get (effect.operation, other) =
      if effect.resource = other then some effect else effects.get (effect.operation, other) := by
  rw [Table.get_put]
  simp [LifecycleEffect.key]

theorem recorded_cons_ne {mark : Mark} {resource : String} {before : List Mark}
    (h : ∀ bytes, mark ≠ .recorded resource bytes) :
    recorded resource (mark :: before) = recorded resource before := by
  rw [recorded, List.any_cons, recorded]
  cases mark with
  | recorded other bytes =>
      have hne : other ≠ resource := fun heq => h bytes (by rw [heq])
      simp [hne]
  | _ => rfl

theorem recorded_cons (resource : String) (bytes : ℤ) (before : List Mark) :
    recorded resource (.recorded resource bytes :: before) = true := by
  simp [recorded]

/-- A pending record is written as the history has it. -/
theorem written_pending {ctx : Context} {c c' : Catalog} {row : LifecycleRow} {resource : String} {bytes : ℤ}
    {u : Unit} {history : List Mark} (h : Written row.operation history c)
    (hnew : recorded resource history = false)
    (hr : (lifecycleEffect ctx row resource none bytes).Returns c u c') :
    Written row.operation (.attempted resource :: .pending resource bytes :: history) c' := by
  intro other
  rw [lifecycleEffect_effects hr, get_put_effect _ ⟨row.operation, resource, _, _, _⟩]
  simp only [bytesOf]
  rw [recorded_cons_ne (fun _ => by simp), recorded_cons_ne (fun _ => by simp)]
  by_cases hother : resource = other
  · subst hother
    have hold := h resource
    rw [if_pos rfl, if_pos rfl, hnew]
    cases hget : c.effects.get (row.operation, resource) with
    | none =>
        rw [hget] at hold
        rw [show bytesOf resource history = none from (Option.map_eq_none_iff.mp hold.symm)]
        rfl
    | some effect =>
        rw [hget] at hold
        obtain ⟨old, hbytes, heq⟩ := Option.map_eq_some_iff.mp hold.symm
        rw [Prod.mk.injEq] at heq
        rw [hbytes]
        simp [status, heq.2]
  · rw [if_neg hother, if_neg hother]
    exact h other

/-- So is a done record. -/
theorem written_recorded {ctx : Context} {c c' : Catalog} {row : LifecycleRow} {resource : String} {bytes : ℤ}
    {u : Unit} {history : List Mark} {outcome : String} (h : Written row.operation history c)
    (houtcome : outcome ≠ "")
    (hr : (lifecycleEffect ctx row resource (some outcome) bytes).Returns c u c') :
    Written row.operation (.recorded resource bytes :: history) c' := by
  intro other
  have hdone : (some outcome).any (· ≠ "") = true := by simpa using houtcome
  rw [lifecycleEffect_effects hr, hdone, get_put_effect _ ⟨row.operation, resource, _, _, _⟩]
  simp only [bytesOf]
  by_cases hother : resource = other
  · subst hother
    rw [if_pos rfl, if_pos rfl, recorded_cons]
    rfl
  · rw [if_neg hother, if_neg hother, recorded_cons_ne (by simp [hother])]
    exact h other

/-! ## Inventories list a resource once -/

theorem validateItems_distinct {runtime : String} {resources before items : List LifecycleResource}
    (h : validateItems runtime resources before items = .ok ()) :
    (items.map LifecycleResource.resource).Nodup ∧
      ∀ item ∈ items, ∀ old ∈ before, old.resource ≠ item.resource := by
  induction items generalizing before with
  | nil => exact ⟨List.nodup_nil, by simp⟩
  | cons item items ih =>
      rw [validateItems] at h
      split_ifs at h with hlisted
      obtain ⟨hdistinct, hbefore⟩ := ih h
      have hitem : ∀ old ∈ before, old.resource ≠ item.resource := by
        intro old hold
        simp only [LifecycleResource.isListed, Bool.not_eq_true', Bool.not_eq_false, Bool.and_eq_true,
          List.all_eq_true, decide_eq_true_eq] at hlisted
        exact (hlisted.2 old hold).1.1
      refine ⟨List.nodup_cons.mpr ⟨fun hmem => ?_, hdistinct⟩, ?_⟩
      · obtain ⟨other, hother, heq⟩ := List.mem_map.mp hmem
        exact hbefore other hother item List.mem_cons_self heq.symm
      · intro other hother old hold
        rcases List.mem_cons.mp hother with rfl | hother
        · exact hitem old hold
        · exact hbefore other hother old (List.mem_cons_of_mem _ hold)

theorem areDurable_distinct {runtime : String} {before items : List LifecycleResource}
    (h : areDurable runtime before items = true) :
    (items.map LifecycleResource.resource).Nodup ∧
      ∀ item ∈ items, ∀ old ∈ before, old.resource ≠ item.resource := by
  induction items generalizing before with
  | nil => exact ⟨List.nodup_nil, by simp⟩
  | cons item items ih =>
      rw [areDurable, Bool.and_eq_true] at h
      obtain ⟨hdistinct, hbefore⟩ := ih h.2
      have hitem : ∀ old ∈ before, old.resource ≠ item.resource := by
        intro old hold
        have hdurable := h.1
        simp only [isDurable, Bool.and_eq_true, List.all_eq_true, decide_eq_true_eq] at hdurable
        exact (hdurable.1.2 old hold).1.1
      refine ⟨List.nodup_cons.mpr ⟨fun hmem => ?_, hdistinct⟩, ?_⟩
      · obtain ⟨other, hother, heq⟩ := List.mem_map.mp hmem
        exact hbefore other hother item List.mem_cons_self heq.symm
      · intro other hother old hold
        rcases List.mem_cons.mp hother with rfl | hother
        · exact hitem old hold
        · exact hbefore other hother old (List.mem_cons_of_mem _ hold)

theorem coverage_distinct {runtime : String} {resources : List LifecycleResource} {coverage : Option String}
    (h : validateLifecycleCoverage runtime resources coverage = .ok ()) :
    (resources.map LifecycleResource.resource).Nodup := by
  rw [validateLifecycleCoverage] at h
  by_cases hdurable : coverage = some durableCoverage
  · rw [if_pos hdurable, validateDurableInventory] at h
    split_ifs at h with hall
    simp only [Bool.and_eq_true] at hall
    exact (areDurable_distinct hall.1.1.1.2).1
  · rw [if_neg hdurable] at h
    obtain ⟨u, hresources, _⟩ := Checked.bind_eq_ok.mp h
    rw [validateResources] at hresources
    split_ifs at hresources
    exact (validateItems_distinct hresources).1

/-! ## A run under way -/

/-- The resources in their order. -/
def order (run : Run) : List LifecycleResource := ordered run.action run.row.resources

def names (resources : List LifecycleResource) : List String := resources.map LifecycleResource.resource

theorem mem_order {run : Run} {item : LifecycleResource} : item ∈ order run ↔ item ∈ run.row.resources :=
  (List.perm_insertionSort _ _).mem_iff

theorem nodup_order {run : Run} (h : (names run.row.resources).Nodup) : (names (order run)).Nodup :=
  ((List.perm_insertionSort _ _).map _).nodup_iff.mpr h

/-- The snapshot of the run has what the history has. -/
def Exact (history : List Mark) (run : Run) : Prop :=
  ∀ resource, status (run.operation.effect resource) =
    (bytesOf resource history).map fun bytes => (recorded resource history, bytes)

/-- The measurement of the resource is the one that is recorded. -/
def Measured (history : List Mark) (run : Run) (resource : String) : Prop :=
  Kept resource (run.measurement resource) history

/-- The snapshot has a done record. -/
def wasDone (run : Run) (resource : String) : Bool :=
  (run.operation.effect resource).any LifecycleEffect.done

/-- The run has recorded what is not done in its snapshot up to here. -/
def Done (history : List Mark) (run : Run) (before : List LifecycleResource) : Prop :=
  ∀ resource, recorded resource history = true ↔ wasDone run resource = true ∨ resource ∈ names before

/-- The last run ended. -/
def Over (history : List Mark) : Prop :=
  history.head? = none ∨ history.head? = some .stopped ∨ history.head? = some .finished

section

variable (parse : String → List LifecycleResource) (operation : String) (c : Catalog) (history : List Mark)

/-- What holds behind the first turn of a run. -/
structure Begun (run : Run) : Prop where
  fixed : Fixed operation run.row.resources run.row.state c
  begun : begun history = some (run.action, names (order run))
  distinct : (names run.row.resources).Nodup

/-- Only the operation and the action of the run matter. -/
theorem Begun.goesOn {operation : String} {c : Catalog} {history history' : List Mark} {run run' : Run}
    (h : Begun operation c history run) (hoperation : run'.operation = run.operation)
    (haction : run'.action = run.action)
    (hhistory : LifecycleReplays.begun history' = LifecycleReplays.begun history) :
    Begun operation c history' run' := by
  have hrow : run'.row = run.row := congrArg LifecycleOperation.row hoperation
  refine ⟨?_, ?_, ?_⟩
  · rw [hrow]
    exact h.fixed
  · rw [hhistory, order, hrow, haction]
    exact h.begun
  · rw [hrow]
    exact h.distinct

/-- What holds where a run waits. -/
def Waits (run : Run) : Prop :=
  match run.point with
  | .start => Exact history run ∧ Over history
  | .inspect waiting => Begun operation c history run ∧ Exact history run ∧
    ∀ item ∈ run.row.resources, item ∈ waiting ∨ Measured history run item.resource
  | .inspected resource waiting => Begun operation c history run ∧ Exact history run ∧
    ∀ item ∈ run.row.resources, item = resource ∨ item ∈ waiting ∨ Measured history run item.resource
  | .effect waiting => Begun operation c history run ∧
    (run.action = .purge → ∀ item ∈ run.row.resources, Measured history run item.resource) ∧
    ∃ before, order run = before ++ waiting ∧ Done history run before
  | .effected resource waiting => Begun operation c history run ∧
    (run.action = .purge → ∀ item ∈ run.row.resources, Measured history run item.resource) ∧
    history.head? = some (.attempted resource.resource) ∧ wasDone run resource.resource = false ∧
    ∃ before, order run = before ++ resource :: waiting ∧ Done history run before
  | _ => Begun operation c history run

structure Running (run : Run) : Prop where
  operation_eq : run.row.operation = operation
  action : run.row.state.action = some run.action
  valid : Valid parse run.row
  waits : Waits operation c history run

end

section

variable {history : List Mark} {run : Run}

theorem exact_done (h : Exact history run) (resource : String) :
    recorded resource history = true ∧ bytesOf resource history ≠ none ↔ wasDone run resource = true := by
  have hresource := h resource
  rw [wasDone]
  cases heffect : run.operation.effect resource with
  | none =>
      rw [heffect] at hresource
      rw [show bytesOf resource history = none from Option.map_eq_none_iff.mp hresource.symm]
      simp
  | some effect =>
      rw [heffect] at hresource
      obtain ⟨bytes, hbytes, heq⟩ := Option.map_eq_some_iff.mp hresource.symm
      rw [Prod.mk.injEq] at heq
      rw [hbytes, heq.1]
      simp

/-- A done record has bytes. -/
theorem bytesOf_of_recorded {resource : String} (h : recorded resource history = true) :
    bytesOf resource history ≠ none := by
  induction history with
  | nil => cases h
  | cons mark before ih =>
      cases mark with
      | recorded other bytes =>
          by_cases hother : other = resource
          · simp [bytesOf, hother]
          · rw [recorded_cons_ne (by simp [hother])] at h
            simpa [bytesOf, hother] using ih h
      | pending other bytes =>
          rw [recorded_cons_ne (by simp)] at h
          by_cases hother : other = resource
          · simp [bytesOf, hother]
          · simpa [bytesOf, hother] using ih h
      | _ =>
          rw [recorded_cons_ne (by simp)] at h
          exact ih h

/-- The resource behind those that are recorded is the next. -/
theorem next_eq {before waiting : List LifecycleResource} {item : LifecycleResource} {action : EffectAction}
    (hbegun : begun history = some (action, names (before ++ item :: waiting)))
    (hbefore : ∀ resource ∈ names before, recorded resource history = true)
    (hitem : recorded item.resource history = false) : next history = some item.resource := by
  rw [next, hbegun, Option.bind_some]
  dsimp only
  rw [names, List.map_append, List.find?_append, List.map_cons]
  have hnone : (names before).find? (fun resource => !recorded resource history) = none := by
    rw [List.find?_eq_none]
    intro resource hmem
    simp [hbefore resource hmem]
  rw [names] at hnone
  rw [hnone, Option.none_or, List.find?_cons_of_pos (by simp [hitem])]

end

/-! ## Turns -/

/-- The catalog is the same, or a granted call came. -/
def Reaches (parse : String → List LifecycleResource) (c c' : Catalog) : Prop :=
  c' = c ∨ ∃ event : Context × Operation, event.2.granted parse c = true ∧ c' = catalogMachine.step c event

/-- What holds of the catalog throughout. -/
structure Sound (parse : String → List LifecycleResource) (operation : String) (c : Catalog) : Prop where
  valid : ∀ row ∈ c.lifecycle.rows, Valid parse row
  single : Single operation c

section

variable {parse : String → List LifecycleResource} {operation : String} {c c' : Catalog}

theorem sound_reaches (h : Sound parse operation c) (hreaches : Reaches parse c c') :
    Sound parse operation c' := by
  rcases hreaches with rfl | ⟨event, hgranted, rfl⟩
  · exact h
  · exact ⟨valid_step hgranted h.valid, single_step hgranted h.valid h.single⟩

theorem fixed_reaches {resources : List LifecycleResource} {state : LifecycleState} (hsound : Sound parse operation c)
    (h : Fixed operation resources state c) (hreaches : Reaches parse c c') :
    Fixed operation resources state c' := by
  rcases hreaches with rfl | ⟨event, hgranted, rfl⟩
  · exact h
  · exact fixed_step hgranted hsound.valid h

theorem begun_reaches {history : List Mark} {run : Run} (hsound : Sound parse operation c)
    (h : Begun operation c history run) (hreaches : Reaches parse c c') : Begun operation c' history run :=
  { h with fixed := fixed_reaches hsound h.fixed hreaches }

theorem running_reaches {history : List Mark} {run : Run} (hsound : Sound parse operation c)
    (h : Running parse operation c history run) (hreaches : Reaches parse c c') :
    Running parse operation c' history run := by
  refine { h with waits := ?_ }
  have hwaits := h.waits
  have hbegun : Begun operation c history run → Begun operation c' history run :=
    fun h => begun_reaches hsound h hreaches
  rw [Waits] at hwaits ⊢
  cases hpoint : run.point with
  | start =>
      rw [hpoint] at hwaits
      exact hwaits
  | inspect waiting =>
      rw [hpoint] at hwaits
      exact ⟨hbegun hwaits.1, hwaits.2⟩
  | inspected resource waiting =>
      rw [hpoint] at hwaits
      exact ⟨hbegun hwaits.1, hwaits.2⟩
  | effect waiting =>
      rw [hpoint] at hwaits
      exact ⟨hbegun hwaits.1, hwaits.2⟩
  | effected resource waiting =>
      rw [hpoint] at hwaits
      exact ⟨hbegun hwaits.1, hwaits.2⟩
  | _ =>
      rw [hpoint] at hwaits
      exact hbegun hwaits

end

/-- What a turn leaves. -/
structure Turned (parse : String → List LifecycleResource) (operation : String) (c c' : Catalog)
    (history marks : List Mark) (next : Option Run) : Prop where
  reaches : Reaches parse c c'
  lawful : Lawful (marks ++ history)
  written : Written operation (marks ++ history) c'
  began : ∀ action order, .began action order ∈ marks → ∃ resources state,
    Fixed operation resources state c ∧ state.action = some action ∧ order = names (ordered action resources)
  ended : next = none → Over (marks ++ history)
  running : ∀ run, next = some run → Running parse operation c' (marks ++ history) run

section

variable {parse : String → List LifecycleResource} {operation : String} {c c' : Catalog} {history marks : List Mark}
  {ctx : Context} {result : ResourceOutcome} {isReady : Bool} {run : Run} {next' : Option Run}

theorem assert_returns {row : LifecycleRow} {u : Unit}
    (h : (assertLifecycleOperation ctx row).Returns c u c') : c' = c :=
  Leaves.of_returns (p := id) h

/-- The row of a run that may go on is under way. -/
theorem assert_current {row : LifecycleRow} {u : Unit}
    (h : (assertLifecycleOperation ctx row).Returns c u c') :
    ∃ current ∈ c.lifecycle.rows, row.same current = true := by
  have hcurrent : (assertLifecycleOperation ctx row).Ensures c fun _ _ =>
      ∃ current ∈ c.lifecycle.rows, row.same current = true := by
    unfold assertLifecycleOperation
    apply ensures_check
    intro _ _
    rw [ensures_bind, ensures_read, ensures_bind, ensures_require]
    intro hsame _ _ _
    rw [Option.any_eq_true] at hsame
    obtain ⟨current, hget, hsame⟩ := hsame
    exact ⟨current, (Table.get_eq_some.mp hget).1, hsame⟩
  exact hcurrent u c' h

theorem pending_of_action {state : LifecycleState} {action : EffectAction} (h : state.action = some action) :
    state.pending = true := by
  cases state with
  | active => cases h
  | deleting => rfl
  | deleted => cases h
  | restoring => rfl
  | purging => rfl
  | purged => cases h

/-- A turn that writes nothing and marks nothing. -/
theorem turned_quiet (hlawful : Lawful history) (hwritten : Written operation history c)
    (hrunning : Running parse operation c history run) {point : Point}
    (hwaits : Waits operation c history { run with point }) :
    Turned parse operation c c history [] (some { run with point }) where
  reaches := Or.inl rfl
  lawful := hlawful
  written := hwritten
  began _ _ h := nomatch h
  ended h := nomatch h
  running next h := by
    cases h
    exact ⟨hrunning.operation_eq, hrunning.action, hrunning.valid, hwaits⟩

theorem turn_start (hsound : Sound parse operation c) (hlawful : Lawful history)
    (hwritten : Written operation history c)
    (hbegan : ∀ action order, .began action order ∈ history → ∃ resources state,
      Fixed operation resources state c ∧ state.action = some action ∧ order = names (ordered action resources))
    (hrunning : Running parse operation c history run) (hpoint : run.point = .start)
    (hr : (advance ctx result isReady run).Returns c (next', marks) c') :
    Turned parse operation c c' history marks next' := by
  have hwaits := hrunning.waits
  rw [Waits, hpoint] at hwaits
  obtain ⟨hexact, hover⟩ := hwaits
  rw [advance, hpoint] at hr
  simp only [returns_bind, returns_lift, returns_require, returns_found, returns_pure, Prod.mk.injEq] at hr
  obtain ⟨_, _, ⟨hcoverage, rfl⟩, _, c₁, hassert, _, _, ⟨hlisted, rfl⟩, action, _, ⟨haction, rfl⟩,
    ⟨rfl, rfl⟩, rfl⟩ := hr
  obtain ⟨current, hcurrent, hsame⟩ := assert_current hassert
  obtain rfl := assert_returns hassert
  obtain rfl : run.action = action := Option.some.inj (hrunning.action.symm.trans haction)
  obtain ⟨hoperation, hstate, htext⟩ := same_iff hsame
  rw [hrunning.operation_eq] at hoperation
  have hpending : current.state.pending = true := by
    rw [hstate]
    exact pending_of_action haction
  have hresources := resources_eq hrunning.valid (hsound.valid current hcurrent) htext
  have hfixed : Fixed operation run.row.resources run.row.state c' := by
    refine ⟨hlisted, Or.inr ⟨current, hcurrent, hoperation, hpending⟩, fun row hrow heq hrowPending => ?_⟩
    have hkey := hsound.single current hcurrent row hrow hoperation hpending heq hrowPending
    obtain rfl := Table.eq_of_key _ hrow hcurrent hkey
    exact ⟨hresources, hstate⟩
  have hfollows : Follows (.began run.action (names (order run))) history := by
    refine ⟨hover, fun action' order' hmem => ?_⟩
    obtain ⟨resources, state, hfixed', haction', rfl⟩ := hbegan action' order' hmem
    obtain ⟨hsameResources, hsameState⟩ := hfixed'.rows current hcurrent hoperation hpending
    rw [← hsameState, hstate, haction, Option.some.injEq] at haction'
    rw [← haction', ← hsameResources, hresources]
    exact ⟨rfl, rfl⟩
  refine ⟨Or.inl rfl, lawful_cons hlawful hfollows, hwritten, ?_, fun h => (by cases h), ?_⟩
  · intro action' order' hmem
    rw [List.mem_singleton, Mark.began.injEq] at hmem
    obtain ⟨rfl, rfl⟩ := hmem
    exact ⟨_, _, hfixed, haction, rfl⟩
  · rintro _ ⟨rfl⟩
    refine ⟨hrunning.operation_eq, hrunning.action, hrunning.valid, ?_⟩
    exact ⟨⟨hfixed, rfl, coverage_distinct hcoverage⟩, hexact, fun item hitem => Or.inl hitem⟩

theorem purges_iff (h : begun history = some (run.action, names (order run))) :
    purges history ↔ run.action = .purge := by
  rw [purges, h]
  exact ⟨Option.some.inj, congrArg some⟩

theorem turn_inspect {waiting : List LifecycleResource} (hlawful : Lawful history)
    (hwritten : Written operation history c) (hrunning : Running parse operation c history run)
    (hpoint : run.point = .inspect waiting) (hr : (advance ctx result isReady run).Returns c (next', marks) c') :
    Turned parse operation c c' history marks next' := by
  have hwaits := hrunning.waits
  rw [Waits, hpoint] at hwaits
  obtain ⟨hbegun, hexact, hmeasured⟩ := hwaits
  rw [advance, hpoint] at hr
  cases waiting with
  | nil =>
      simp only [returns_pure, Prod.mk.injEq] at hr
      obtain ⟨⟨rfl, rfl⟩, rfl⟩ := hr
      refine turned_quiet hlawful hwritten hrunning
        ⟨hbegun.goesOn rfl rfl rfl, fun _ item hitem => ?_, [], rfl, fun resource => ?_⟩
      · exact (hmeasured item hitem).resolve_left List.not_mem_nil
      · rw [show resource ∈ names [] ↔ False from List.mem_nil_iff _, or_false]
        refine Iff.trans ?_ (exact_done hexact resource)
        exact ⟨fun h => ⟨h, bytesOf_of_recorded h⟩, fun h => h.1⟩
  | cons item waiting =>
      simp only [returns_bind, returns_pure, Prod.mk.injEq] at hr
      obtain ⟨_, _, hassert, ⟨rfl, rfl⟩, rfl⟩ := hr
      obtain rfl := assert_returns hassert
      refine turned_quiet hlawful hwritten hrunning ⟨hbegun.goesOn rfl rfl rfl, hexact, fun other hother => ?_⟩
      rcases hmeasured other hother with hwaiting | hdone
      · rcases List.mem_cons.mp hwaiting with heq | hwaiting
        · exact Or.inl heq
        · exact Or.inr (Or.inl hwaiting)
      · exact Or.inr (Or.inr hdone)

/-- The bytes of an inspection are those that are recorded, where any are. -/
theorem measure_kept {resource : String} {bytes : ℤ} (hexact : Exact history run)
    (hr : (measure run resource result).Returns c bytes c') : Kept resource bytes history ∧ c' = c := by
  simp only [measure, returns_bind, returns_require, returns_pure] at hr
  obtain ⟨_, _, ⟨_, rfl⟩, _, _, ⟨_, rfl⟩, _, _, ⟨_, rfl⟩, rfl, rfl⟩ := hr
  refine ⟨fun old hold => ?_, rfl⟩
  have hresource := hexact resource
  rw [hold] at hresource
  obtain ⟨effect, heffect, heq⟩ := Option.map_eq_some_iff.mp hresource
  rw [Prod.mk.injEq] at heq
  rw [heffect, Option.map_some, Option.some_or, Option.getD_some]
  exact heq.2

theorem measurement_cons (run : Run) (resource : String) (bytes : ℤ) (point : Point) (other : String) :
    ({ run with measurements := (resource, bytes) :: run.measurements, point } : Run).measurement other =
      if resource = other then bytes else run.measurement other := by
  rw [Run.measurement, Run.measurement]
  by_cases h : resource = other
  · rw [if_pos h, List.find?_cons_of_pos (by simpa using h)]
    rfl
  · rw [if_neg h, List.find?_cons_of_neg (by simpa using h)]

theorem turn_inspected {resource : LifecycleResource} {waiting : List LifecycleResource} (hlawful : Lawful history)
    (hwritten : Written operation history c) (hrunning : Running parse operation c history run)
    (hpoint : run.point = .inspected resource waiting)
    (hr : (advance ctx result isReady run).Returns c (next', marks) c') :
    Turned parse operation c c' history marks next' := by
  have hwaits := hrunning.waits
  rw [Waits, hpoint] at hwaits
  obtain ⟨hbegun, hexact, hmeasured⟩ := hwaits
  rw [advance, hpoint] at hr
  simp only [returns_bind, returns_pure, Prod.mk.injEq] at hr
  obtain ⟨_, _, hassert, bytes, _, hmeasure, ⟨rfl, rfl⟩, rfl⟩ := hr
  obtain rfl := assert_returns hassert
  obtain ⟨hkept, rfl⟩ := measure_kept hexact hmeasure
  refine ⟨Or.inl rfl, lawful_cons hlawful hkept, hwritten, fun _ _ h => ?_, fun h => (by cases h), ?_⟩
  · rw [List.mem_singleton] at h
    cases h
  · rintro _ ⟨rfl⟩
    refine ⟨hrunning.operation_eq, hrunning.action, hrunning.valid, hbegun.goesOn rfl rfl rfl, hexact,
      fun item hitem => ?_⟩
    have hnew : item.resource = resource.resource ∨ Measured history run item.resource →
        Measured (.measured resource.resource bytes :: history)
          { run with measurements := (resource.resource, bytes) :: run.measurements, point := .inspect waiting }
          item.resource := by
      intro hcases
      rw [Measured, measurement_cons]
      by_cases heq : resource.resource = item.resource
      · rw [if_pos heq, ← heq]
        exact hkept
      · rw [if_neg heq]
        exact hcases.resolve_left fun h => heq h.symm
    rcases hmeasured item hitem with heq | hwaiting | hdone
    · exact Or.inr (hnew (Or.inl (congrArg _ heq)))
    · exact Or.inl hwaiting
    · exact Or.inr (hnew (Or.inr hdone))

/-- A resource that the run has before it is not recorded, unless it was done before. -/
theorem recorded_waiting {before waiting : List LifecycleResource} {item : LifecycleResource}
    (hbegun : Begun operation c history run) (horder : order run = before ++ item :: waiting)
    (hdone : Done history run before) (hnot : wasDone run item.resource = false) :
    recorded item.resource history = false ∧ next history = some item.resource := by
  have hdistinct := nodup_order hbegun.distinct
  rw [horder, names, List.map_append, List.map_cons, List.nodup_append] at hdistinct
  have hnotin : item.resource ∉ names before :=
    fun hmem => hdistinct.2.2 _ hmem _ List.mem_cons_self rfl
  have hfresh : recorded item.resource history = false := by
    rw [Bool.eq_false_iff]
    intro h
    rcases (hdone item.resource).mp h with hwas | hin
    · rw [hwas] at hnot
      cases hnot
    · exact hnotin hin
  have hbegun' : begun history = some (run.action, names (before ++ item :: waiting)) := by
    rw [← horder]
    exact hbegun.begun
  exact ⟨hfresh, next_eq hbegun' (fun resource hin => (hdone resource).mpr (Or.inr hin)) hfresh⟩

theorem done_snoc {before : List LifecycleResource} {item : LifecycleResource} {history' : List Mark}
    (hdone : Done history run before) (h : ∀ resource, recorded resource history' = true ↔
      recorded resource history = true ∨ (resource = item.resource ∧ wasDone run item.resource = false))  :
    Done history' run (before ++ [item]) := by
  intro resource
  have hnames : resource ∈ names (before ++ [item]) ↔ resource ∈ names before ∨ resource = item.resource := by
    rw [names, List.map_append, List.mem_append, List.map_singleton, List.mem_singleton]
    rfl
  rw [h, hdone, hnames]
  constructor
  · rintro ((hwas | hin) | ⟨rfl, _⟩)
    · exact Or.inl hwas
    · exact Or.inr (Or.inl hin)
    · exact Or.inr (Or.inr rfl)
  · rintro (hwas | hin | rfl)
    · exact Or.inl (Or.inl hwas)
    · exact Or.inl (Or.inr hin)
    · cases hwas : wasDone run item.resource with
      | true => exact Or.inl (Or.inl rfl)
      | false => exact Or.inr ⟨rfl, rfl⟩

theorem effect_reaches {row : LifecycleRow} {resource : String} {outcome : Option String} {bytes : ℤ} {u : Unit}
    (h : (lifecycleEffect ctx row resource outcome bytes).Returns c u c') : Reaches parse c c' :=
  Or.inr ⟨(ctx, .lifecycleEffect row resource outcome bytes), rfl, h.after_eq.symm⟩

theorem turn_effect {waiting : List LifecycleResource} (hsound : Sound parse operation c) (hlawful : Lawful history)
    (hwritten : Written operation history c) (hrunning : Running parse operation c history run)
    (hpoint : run.point = .effect waiting) (hr : (advance ctx result isReady run).Returns c (next', marks) c') :
    Turned parse operation c c' history marks next' := by
  have hwaits := hrunning.waits
  rw [Waits, hpoint] at hwaits
  obtain ⟨hbegun, hmeasured, before, horder, hdone⟩ := hwaits
  rw [advance, hpoint] at hr
  cases waiting with
  | nil =>
      simp only [returns_pure, Prod.mk.injEq] at hr
      obtain ⟨⟨rfl, rfl⟩, rfl⟩ := hr
      refine turned_quiet hlawful hwritten hrunning ?_
      by_cases hrestore : run.action = .restore
      · rw [if_pos hrestore]
        exact hbegun.goesOn rfl rfl rfl
      · rw [if_neg hrestore]
        exact hbegun.goesOn rfl rfl rfl
  | cons item waiting =>
      rw [returns_bind] at hr
      obtain ⟨_, c₁, hassert, hr⟩ := hr
      obtain rfl := assert_returns hassert
      by_cases hwas : wasDone run item.resource = true
      · -- done before: the run goes past it
        rw [wasDone] at hwas
        rw [if_pos hwas] at hr
        simp only [returns_pure, Prod.mk.injEq] at hr
        obtain ⟨⟨rfl, rfl⟩, rfl⟩ := hr
        refine turned_quiet hlawful hwritten hrunning
          ⟨hbegun.goesOn rfl rfl rfl, hmeasured, before ++ [item], ?_, ?_⟩
        · rw [List.append_assoc]
          exact horder
        · refine done_snoc hdone fun resource => ?_
          rw [wasDone, hwas]
          simp
      · have hnot : wasDone run item.resource = false := Bool.eq_false_iff.mpr hwas
        obtain ⟨hfresh, hnext⟩ := recorded_waiting hbegun horder hdone hnot
        rw [wasDone] at hwas
        rw [if_neg hwas] at hr
        simp only [returns_bind, returns_pure, Prod.mk.injEq] at hr
        obtain ⟨_, c₂, heffect, ⟨rfl, rfl⟩, rfl⟩ := hr
        have hitem : item ∈ run.row.resources := by
          rw [← mem_order, horder]
          exact List.mem_append_right _ List.mem_cons_self
        have hwritten' := hwritten
        rw [← hrunning.operation_eq] at hwritten'
        have hpending := written_pending hwritten' hfresh heffect
        rw [hrunning.operation_eq] at hpending
        have hfollows : Follows (.pending item.resource
            (if run.action = .purge then run.measurement item.resource else 0)) history := by
          refine ⟨hnext, fun hpurges => ?_⟩
          have hpurge := (purges_iff hbegun.begun).mp hpurges
          rw [if_pos hpurge]
          exact hmeasured hpurge item hitem
        refine ⟨effect_reaches heffect, lawful_cons (lawful_cons hlawful hfollows) ⟨_, rfl⟩, hpending, ?_,
          fun h => (by cases h), ?_⟩
        · intro _ _ h
          simp at h
        · rintro _ ⟨rfl⟩
          refine ⟨hrunning.operation_eq, hrunning.action, hrunning.valid,
            (begun_reaches hsound hbegun (effect_reaches heffect)).goesOn rfl rfl rfl, ?_, rfl, hnot, before, horder, ?_⟩
          · intro hpurge other hother old hold
            have hkept := hmeasured hpurge other hother
            simp only [List.cons_append, List.nil_append, bytesOf, if_pos hpurge] at hold
            by_cases heq : item.resource = other.resource
            · rw [if_pos heq, Option.some.injEq] at hold
              cases hbytes : bytesOf other.resource history with
              | none =>
                  rw [hbytes, Option.getD_none, heq] at hold
                  exact hold
              | some old' =>
                  rw [hbytes, Option.getD_some] at hold
                  exact (hkept old' hbytes).trans hold
            · rw [if_neg heq] at hold
              exact hkept old hold
          · exact hdone

theorem turn_effected {item : LifecycleResource} {waiting : List LifecycleResource}
    (hsound : Sound parse operation c) (hlawful : Lawful history)
    (hwritten : Written operation history c) (hrunning : Running parse operation c history run)
    (hpoint : run.point = .effected item waiting)
    (hr : (advance ctx result isReady run).Returns c (next', marks) c') :
    Turned parse operation c c' history marks next' := by
  have hwaits := hrunning.waits
  rw [Waits, hpoint] at hwaits
  obtain ⟨hbegun, hmeasured, hhead, hnot, before, horder, hdone⟩ := hwaits
  rw [advance, hpoint] at hr
  simp only [returns_bind, returns_require, returns_pure, Prod.mk.injEq] at hr
  obtain ⟨_, _, hassert, _, _, ⟨_, rfl⟩, _, c₂, heffect, ⟨rfl, rfl⟩, rfl⟩ := hr
  obtain rfl := assert_returns hassert
  obtain ⟨hfresh, hnext⟩ := recorded_waiting hbegun horder hdone hnot
  have hitem : item ∈ run.row.resources := by
    rw [← mem_order, horder]
    exact List.mem_append_right _ List.mem_cons_self
  have htext : run.action.expected.text ≠ "" := by
    cases run.action <;> decide
  have hwritten' := hwritten
  rw [← hrunning.operation_eq] at hwritten'
  have hrecorded := written_recorded hwritten' htext heffect
  rw [hrunning.operation_eq] at hrecorded
  have hfollows : Follows (.recorded item.resource
      (if run.action = .purge then run.measurement item.resource else result.reclaimedBytes)) history := by
    refine ⟨hhead, hnext, fun hpurges => ?_⟩
    have hpurge := (purges_iff hbegun.begun).mp hpurges
    rw [if_pos hpurge]
    exact hmeasured hpurge item hitem
  refine ⟨effect_reaches heffect, lawful_cons hlawful hfollows, hrecorded, ?_, fun h => (by cases h), ?_⟩
  · intro _ _ h
    simp at h
  · rintro _ ⟨rfl⟩
    refine ⟨hrunning.operation_eq, hrunning.action, hrunning.valid,
      (begun_reaches hsound hbegun (effect_reaches heffect)).goesOn rfl rfl rfl, ?_, before ++ [item], ?_, ?_⟩
    · intro hpurge other hother old hold
      have hkept := hmeasured hpurge other hother
      simp only [List.cons_append, List.nil_append, bytesOf, if_pos hpurge] at hold
      by_cases heq : item.resource = other.resource
      · rw [if_pos heq, Option.some.injEq, heq] at hold
        exact hold
      · rw [if_neg heq] at hold
        exact hkept old hold
    · rw [List.append_assoc]
      exact horder
    · refine done_snoc hdone fun resource => ?_
      by_cases heq : resource = item.resource
      · subst heq
        exact iff_of_true (recorded_cons _ _ _) (Or.inr ⟨rfl, hnot⟩)
      · rw [List.cons_append, List.nil_append,
          recorded_cons_ne fun bytes h => heq (Mark.recorded.inj h).1.symm]
        simp [heq]

theorem finishLifecycle_done {row : LifecycleRow} {u : Unit} (h : (finishLifecycle ctx row none).Returns c u c') :
    c.effectsDone row = true := by
  have hdone : (finishLifecycle ctx row none).Ensures c fun _ _ => c.effectsDone row = true := by
    unfold finishLifecycle
    rw [ensures_transaction]
    apply ensures_check
    intro _ _
    rw [ensures_bind, ensures_read, ensures_bind, ensures_require]
    intro hdone _ _ _
    exact hdone.resolve_left (by simp)
  exact hdone u c' h

theorem turn_finish (hlawful : Lawful history) (hwritten : Written operation history c)
    (hrunning : Running parse operation c history run) (hpoint : run.point = .finish)
    (hr : (advance ctx result isReady run).Returns c (next', marks) c') :
    Turned parse operation c c' history marks next' := by
  have hbegun := hrunning.waits
  rw [Waits, hpoint] at hbegun
  rw [advance, hpoint] at hr
  simp only [returns_bind, returns_pure, Prod.mk.injEq] at hr
  obtain ⟨_, c₁, hfinish, ⟨rfl, rfl⟩, rfl⟩ := hr
  have heffects := finishLifecycle_done hfinish
  simp only [Catalog.effectsDone, Bool.and_eq_true, List.all_eq_true] at heffects
  have hnone : next history = none := by
    rw [next, hbegun.begun, Option.bind_some]
    dsimp only
    rw [List.find?_eq_none]
    intro resource hmem
    obtain ⟨item, hitem, rfl⟩ := List.mem_map.mp hmem
    have hdone := heffects.2 item (mem_order.mp hitem)
    rw [hrunning.operation_eq, Option.any_eq_true] at hdone
    obtain ⟨effect, hget, hdone⟩ := hdone
    have hstatus := hwritten item.resource
    rw [hget] at hstatus
    obtain ⟨bytes, _, heq⟩ := Option.map_eq_some_iff.mp hstatus.symm
    rw [Prod.mk.injEq, hdone] at heq
    simp [heq.1]
  have hgranted : Operation.granted parse c (.finishLifecycle run.row none) = true := by
    rw [Operation.granted, pending_of_action hrunning.action, Bool.true_and, Option.all_eq_true]
    exact fun inventory hinventory => hrunning.valid.inventory inventory hinventory
  have hfollows : Follows .finished history := by
    refine ⟨?_, hnone⟩
    rw [hbegun.begun]
    exact Option.some_ne_none _
  refine ⟨Or.inr ⟨(ctx, .finishLifecycle run.row none), hgranted, hfinish.after_eq.symm⟩,
    lawful_cons hlawful hfollows, ?_, ?_,
    fun _ => Or.inr (Or.inr rfl), fun _ h => by cases h⟩
  · intro resource
    rw [show c'.effects = c.effects from Leaves.of_returns (p := Catalog.effects) hfinish]
    exact hwritten resource
  · intro _ _ h
    rw [List.mem_singleton] at h
    cases h

/-- What a turn of a run leaves, wherever the run is. -/
theorem turn_spec (hsound : Sound parse operation c) (hlawful : Lawful history)
    (hwritten : Written operation history c)
    (hbegan : ∀ action order, .began action order ∈ history → ∃ resources state,
      Fixed operation resources state c ∧ state.action = some action ∧ order = names (ordered action resources))
    (hrunning : Running parse operation c history run)
    (hr : (advance ctx result isReady run).Returns c (next', marks) c') :
    Turned parse operation c c' history marks next' := by
  have hwaits := hrunning.waits
  rw [Waits] at hwaits
  cases hpoint : run.point with
  | start => exact turn_start hsound hlawful hwritten hbegan hrunning hpoint hr
  | inspect waiting => exact turn_inspect hlawful hwritten hrunning hpoint hr
  | inspected resource waiting => exact turn_inspected hlawful hwritten hrunning hpoint hr
  | effect waiting => exact turn_effect hsound hlawful hwritten hrunning hpoint hr
  | effected resource waiting => exact turn_effected hsound hlawful hwritten hrunning hpoint hr
  | probe waiting =>
      rw [hpoint] at hwaits
      rw [advance, hpoint] at hr
      cases waiting with
      | nil =>
          simp only [returns_pure, Prod.mk.injEq] at hr
          obtain ⟨⟨rfl, rfl⟩, rfl⟩ := hr
          refine turned_quiet hlawful hwritten hrunning ?_
          by_cases hready : (run.row.coverage ≠ some "disposable-fixture" || run.readiness) = true
          · rw [if_pos hready]
            exact hwaits.goesOn rfl rfl rfl
          · rw [if_neg hready]
            exact hwaits.goesOn rfl rfl rfl
      | cons item waiting =>
          simp only [returns_bind, returns_pure, Prod.mk.injEq] at hr
          obtain ⟨_, _, hassert, ⟨rfl, rfl⟩, rfl⟩ := hr
          obtain rfl := assert_returns hassert
          exact turned_quiet hlawful hwritten hrunning (hwaits.goesOn rfl rfl rfl)
  | probed waiting =>
      rw [hpoint] at hwaits
      rw [advance, hpoint] at hr
      simp only [returns_bind, returns_require, returns_pure, Prod.mk.injEq] at hr
      obtain ⟨_, _, hassert, _, _, ⟨_, rfl⟩, ⟨rfl, rfl⟩, rfl⟩ := hr
      obtain rfl := assert_returns hassert
      exact turned_quiet hlawful hwritten hrunning (hwaits.goesOn rfl rfl rfl)
  | ready =>
      rw [hpoint] at hwaits
      rw [advance, hpoint] at hr
      simp only [returns_bind, returns_require, returns_pure, Prod.mk.injEq] at hr
      obtain ⟨_, _, hassert, _, _, ⟨_, rfl⟩, ⟨rfl, rfl⟩, rfl⟩ := hr
      obtain rfl := assert_returns hassert
      exact turned_quiet hlawful hwritten hrunning (hwaits.goesOn rfl rfl rfl)
  | readied =>
      rw [hpoint] at hwaits
      rw [advance, hpoint] at hr
      simp only [returns_bind, returns_require, returns_pure, Prod.mk.injEq] at hr
      obtain ⟨_, _, ⟨_, rfl⟩, _, _, hassert, ⟨rfl, rfl⟩, rfl⟩ := hr
      obtain rfl := assert_returns hassert
      exact turned_quiet hlawful hwritten hrunning (hwaits.goesOn rfl rfl rfl)
  | finish => exact turn_finish hlawful hwritten hrunning hpoint hr

end

/-! ## Runs -/

/-- What the callers of other operations grant. -/
def granted (parse : String → List LifecycleResource) (c : Catalog) : ReplayEvent → Bool
  | .other _ op => op.granted parse c
  | _ => true

section

variable (parse : String → List LifecycleResource) (operation : String)

/-- What holds of every state that is reached. -/
structure Inv (s : Replays) : Prop where
  sound : Sound parse operation s.catalog
  written : Written operation s.history s.catalog
  lawful : Lawful s.history
  began : ∀ action order, .began action order ∈ s.history → ∃ resources state,
    Fixed operation resources state s.catalog ∧ state.action = some action ∧
      order = names (ordered action resources)
  ended : s.run = none → Over s.history
  running : ∀ run, s.run = some run → Running parse operation s.catalog s.history run

theorem inv_initial : Inv parse operation (replayMachine operation).initial where
  sound := ⟨fun _ hrow => absurd hrow List.not_mem_nil, fun _ hrow => absurd hrow List.not_mem_nil⟩
  written _ := rfl
  lawful _ _ h := absurd (List.suffix_nil.mp h) (List.cons_ne_nil _ _)
  began _ _ h := absurd h List.not_mem_nil
  ended _ := Or.inl rfl
  running _ h := nomatch h

variable {parse operation} {s : Replays} {ctx : Context}

instance (row : LifecycleRow) (resource : String) (outcome : Option String) (bytes : ℤ) :
    Atomic (lifecycleEffect ctx row resource outcome bytes) := by
  unfold lifecycleEffect
  infer_instance

instance (row : LifecycleRow) (failure : Option String) : Atomic (finishLifecycle ctx row failure) := by
  unfold finishLifecycle
  infer_instance

instance (run : Run) (resource : String) (result : ResourceOutcome) :
    Leaves id (measure run resource result) := by
  unfold measure
  infer_instance

/-- A turn that throws leaves the catalog. -/
theorem advance_throws {result : ResourceOutcome} {isReady : Bool} {run : Run} {error : String} {c c' : Catalog}
    (h : advance ctx result isReady run c = (.error error, c')) : c' = c := by
  have hatomic : Atomic (advance ctx result isReady run) := by
    unfold advance
    cases run.point with
    | inspect waiting => cases waiting <;> infer_instance
    | effect waiting => cases waiting <;> infer_instance
    | probe waiting => cases waiting <;> infer_instance
    | _ => infer_instance
  exact hatomic.unchanged c error c' h

theorem block_after (ctx : Context) (row : LifecycleRow) (error : String) (c : Catalog) :
    (block ctx row error).after c = catalogMachine.step c (ctx, .blockLifecycle row (blocker error)) := by
  change _ = (blockLifecycle ctx row (blocker error) c).2
  rw [block, after, orElse_apply]
  split
  · rename_i hc
    rw [hc]
  · rename_i hc
    rw [hc]
    rfl

instance (row : LifecycleRow) (error : String) : Leaves Catalog.effects (block ctx row error) := by
  unfold block
  infer_instance

/-- A run that stops leaves the records as they are. -/
theorem inv_stop (h : Inv parse operation s) (row : LifecycleRow) (error : String) :
    Inv parse operation (s.stop ctx row error s.catalog) := by
  have hreaches : Reaches parse s.catalog ((block ctx row error).after s.catalog) :=
    Or.inr ⟨(ctx, .blockLifecycle row (blocker error)), rfl, block_after ctx row error s.catalog⟩
  refine ⟨sound_reaches h.sound hreaches, ?_, lawful_cons h.lawful trivial, ?_, fun _ => Or.inr (Or.inl rfl),
    fun _ h => (nomatch h)⟩
  · intro resource
    have heffects : ((block ctx row error).after s.catalog).effects = s.catalog.effects :=
      Leaves.after_eq (p := Catalog.effects) s.catalog
    change status (((block ctx row error).after s.catalog).effects.get _) = _
    rw [heffects]
    exact h.written resource
  · intro action order hmem
    rcases List.mem_cons.mp hmem with heq | hmem
    · cases heq
    · obtain ⟨resources, state, hfixed, hrest⟩ := h.began action order hmem
      exact ⟨resources, state, fixed_reaches h.sound hfixed hreaches, hrest⟩

theorem inv_turn (h : Inv parse operation s) {run : Run} (hrun : s.run = some run) (result : ResourceOutcome)
    (isReady : Bool) : Inv parse operation (s.turn ctx result isReady run) := by
  rw [Replays.turn]
  split
  · rename_i next marks c hturn
    have hturned := turn_spec h.sound h.lawful h.written h.began (h.running run hrun) hturn
    refine ⟨sound_reaches h.sound hturned.reaches, hturned.written, hturned.lawful, ?_, hturned.ended,
      hturned.running⟩
    intro action order hmem
    have hold : ∃ resources state, Fixed operation resources state s.catalog ∧ state.action = some action ∧
        order = names (ordered action resources) := by
      rcases List.mem_append.mp hmem with hnew | hold
      · exact hturned.began action order hnew
      · exact h.began action order hold
    obtain ⟨resources, state, hfixed, hrest⟩ := hold
    exact ⟨resources, state, fixed_reaches h.sound hfixed hturned.reaches, hrest⟩
  · rename_i error c hturn
    rw [advance_throws hturn]
    exact inv_stop h run.row error

theorem inv_claim (h : Inv parse operation s) (hidle : s.run = none) {row : LifecycleRow}
    (hrow : row ∈ s.catalog.lifecycle.rows) (hoperation : row.operation = operation) {action : EffectAction}
    (haction : row.state.action = some action) (readiness : Bool) :
    Inv parse operation (s.claim row action readiness) := by
  refine { h with ended := fun hnone => (nomatch hnone), running := ?_ }
  rintro _ ⟨rfl⟩
  refine ⟨hoperation, haction, h.sound.valid row hrow, fun resource => ?_, h.ended hidle⟩
  change status ((s.catalog.lifecycleOperation row).effect resource) = _
  rw [effect_lifecycleOperation, hoperation]
  exact h.written resource

/-- Other calls leave the records of the operation as they are. -/
theorem inv_other (h : Inv parse operation s) {op : Operation} (hgranted : op.granted parse s.catalog = true)
    (hop : op.isWork operation = false) :
    Inv parse operation { s with catalog := catalogMachine.step s.catalog (ctx, op) } := by
  have hreaches : Reaches parse s.catalog (catalogMachine.step s.catalog (ctx, op)) :=
    Or.inr ⟨(ctx, op), hgranted, rfl⟩
  refine ⟨sound_reaches h.sound hreaches, fun resource => ?_, h.lawful, fun action order hmem => ?_, h.ended,
    fun run hrun => running_reaches h.sound (h.running run hrun) hreaches⟩
  · rw [effects_of_other hop]
    exact h.written resource
  · obtain ⟨resources, state, hfixed, hrest⟩ := h.began action order hmem
    exact ⟨resources, state, fixed_reaches h.sound hfixed hreaches, hrest⟩

theorem inv_step {event : ReplayEvent} (hgranted : granted parse s.catalog event = true)
    (h : Inv parse operation s) : Inv parse operation ((replayMachine operation).step s event) := by
  cases event with
  | other ctx op =>
      change Inv parse operation (if op.isWork operation then s
        else { s with catalog := catalogMachine.step s.catalog (ctx, op) })
      by_cases hop : op.isWork operation = true
      · rwa [if_pos hop]
      · rw [if_neg hop]
        exact inv_other h hgranted (Bool.eq_false_iff.mpr hop)
  | claim environment readiness =>
      simp only [replayMachine]
      cases hrun : s.run with
      | some run => exact h
      | none =>
          dsimp only
          split
          · exact h
          · rename_i row hfound
            obtain ⟨hget, hoperation⟩ := Option.filter_eq_some_iff.mp hfound
            split
            · exact h
            · rename_i action haction
              exact inv_claim h hrun (Table.get_eq_some.mp hget).1 (by simpa using hoperation) haction readiness
  | turn ctx result isReady =>
      simp only [replayMachine]
      cases hrun : s.run with
      | none => exact h
      | some run => exact inv_turn h hrun result isReady
  | fails ctx error =>
      simp only [replayMachine]
      cases hrun : s.run with
      | none => exact h
      | some run => exact inv_stop h run.row error
  | crash =>
      simp only [replayMachine]
      cases hrun : s.run with
      | none => exact h
      | some run =>
          refine ⟨h.sound, h.written, lawful_cons h.lawful trivial, fun action order hmem => ?_,
            fun _ => Or.inr (Or.inl rfl), fun _ h => by cases h⟩
          rcases List.mem_cons.mp hmem with heq | hmem
          · cases heq
          · exact h.began action order hmem

end

/-- The events are granted where they arrive. -/
abbrev Granted (parse : String → List LifecycleResource) (operation : String) (events : List ReplayEvent) : Prop :=
  (replayMachine operation).Along (fun s event => granted parse s.catalog event = true)
    (replayMachine operation).initial events

/-- Across crashes, thrown effects and replays, with any other calls between them:
whatever the runs of an operation did follows what was done before, and its
records in the catalog are those of the history. -/
theorem replays_law (parse : String → List LifecycleResource) (operation : String) (events : List ReplayEvent)
    (h : Granted parse operation events) :
    Lawful ((replayMachine operation).run events).history ∧
      Written operation ((replayMachine operation).run events).history
        ((replayMachine operation).run events).catalog := by
  have hinv := (replayMachine operation).run_invariant_along (I := Inv parse operation) (inv_initial parse operation)
    (fun _ _ hgranted hs => inv_step hgranted hs) events h
  exact ⟨hinv.lawful, hinv.written⟩

/-! ## A purge -/

/-- After the retention, with a recovery receipt. -/
def fixtureLater : Context :=
  { callAt (18 + retentionMs) with lifecycleAdmission := some fun _ _ => some "receipt" }

def fixturePurge : String := "00000000-0000-0000-0000-000000000001"

/-- A purge that dies behind its inspection, and its replay. -/
def fixtureReplay : List ReplayEvent :=
  fixtureDeletion.map (fun event => .other event.1 event.2) ++
    [.other fixtureLater (.requestLifecycle "a" "v" fixturePurge .purging),
      .claim "v" false, .turn fixtureLater ⟨.quarantined, 0, none⟩ true,
      .turn fixtureLater ⟨.quarantined, 0, none⟩ true,
      .turn fixtureLater ⟨.quarantined, 0, some 100⟩ true, .crash,
      .claim "v" false, .turn fixtureLater ⟨.quarantined, 0, none⟩ true,
      .turn fixtureLater ⟨.quarantined, 0, none⟩ true,
      .turn fixtureLater ⟨.quarantined, 0, some 105⟩ true,
      .turn fixtureLater ⟨.quarantined, 0, none⟩ true, .turn fixtureLater ⟨.quarantined, 0, none⟩ true,
      .turn fixtureLater ⟨.purged, 105, none⟩ true]

theorem replays_law_purge : Lawful ((replayMachine fixturePurge).run fixtureReplay).history ∧
    Written fixturePurge ((replayMachine fixturePurge).run fixtureReplay).history
      ((replayMachine fixturePurge).run fixtureReplay).catalog :=
  replays_law (fun _ => fixtureInventory.resources) fixturePurge fixtureReplay (by decide +kernel)

/-- What was measured before the pending record is measured again by the replay. -/
theorem measurement_lost : Granted (fun _ => fixtureInventory.resources) fixturePurge fixtureReplay ∧
    Mark.measured "00000000-0000-0000-0000-000000000000" 100 ∈
      ((replayMachine fixturePurge).run (fixtureReplay.take 13)).history ∧
    ((replayMachine fixturePurge).run fixtureReplay).history.head? =
      some (.recorded "00000000-0000-0000-0000-000000000000" 105) := by
  decide +kernel

end Sbarbase.Control.Proofs.LifecycleReplays
