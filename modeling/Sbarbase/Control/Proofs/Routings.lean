import Sbarbase.Control.Proofs.Frames
import Sbarbase.Control.Proofs.Placements
/-!
# What a routing operation does

A routing operation that returns moved the row of its runtime to the next
revision, from the one it expected.
-/

set_option synthInstance.maxSize 5000

namespace Sbarbase.Control.Proofs.Routings

open Lib Lib.Call Lib.Checked Control Control.Proofs.Frames Control.Proofs.Placements

/-! ## What the catalog says of a runtime -/

def revision (c : Catalog) (runtime : String) : ℤ :=
  ((c.routing.get runtime).map RoutingRow.revision).getD 0

def inMaintenance (c : Catalog) (runtime : String) : Bool :=
  (c.routing.get runtime).any RoutingRow.maintenance

def placement (c : Catalog) (runtime : String) : Option RuntimePlacement :=
  (c.routing.get runtime).bind RoutingRow.placement

/-- The placement of the routing, checked again. -/
inductive Rechecked (parseUrl : String → Option Url) :
    Option RuntimePlacement → Option RuntimePlacement → Prop
  | none : Rechecked parseUrl none none
  | some {stored read : RuntimePlacement} (h : validatePlacement parseUrl stored = .ok read) :
      Rechecked parseUrl (some stored) (some read)

theorem Rechecked.generation_eq {parseUrl : String → Option Url}
    {stored read : Option RuntimePlacement} (h : Rechecked parseUrl stored read) :
    generation read = generation stored := by
  cases h with
  | none => rfl
  | some h => exact validatePlacement_generation h

theorem runtimeRouting_eq {c : Catalog} {parseUrl : String → Option Url} {runtime : String}
    {current : RuntimeRouting} (h : c.runtimeRouting parseUrl runtime = .ok current) :
    current.revision = revision c runtime ∧ current.maintenance = inMaintenance c runtime ∧
      Rechecked parseUrl (placement c runtime) current.placement := by
  unfold Catalog.runtimeRouting at h
  unfold revision inMaintenance placement
  cases hrow : c.routing.get runtime with
  | none =>
      rw [hrow] at h
      cases h
      exact ⟨rfl, rfl, .none⟩
  | some row =>
      cases hplacement : row.placement with
      | none =>
          simp only [hrow, hplacement, bind_eq_ok, pure_eq_ok] at h
          obtain ⟨_, rfl, _, _, rfl⟩ := h
          refine ⟨rfl, rfl, ?_⟩
          show Rechecked parseUrl row.placement none
          rw [hplacement]
          exact .none
      | some stored =>
          simp only [hrow, hplacement, bind_eq_ok, map_eq_ok, pure_eq_ok] at h
          obtain ⟨_, ⟨read, hread, rfl⟩, _, _, rfl⟩ := h
          refine ⟨rfl, rfl, ?_⟩
          show Rechecked parseUrl row.placement (some read)
          rw [hplacement]
          exact .some hread

/-! ## A routing operation that returns -/

/-- The operation found the routing it expected and moved it. -/
structure Moves (ctx : Context) (c c' : Catalog) (runtime : String) (expected : ℤ)
    (action : RoutingAction) (current : RuntimeRouting) (target : Option RuntimePlacement) :
    Prop where
  found : c.runtimeRouting ctx.parseUrl runtime = .ok current
  unmoved : current.revision = expected
  allowed : current.maintenance = true ↔ action ≠ .pause
  staged : stagedPlacement ctx action = .ok target
  checked : checkTransition ctx runtime current action target = .ok ()
  routing : c'.routing = c.routing.put
    ⟨runtime, expected + 1, action ≠ .resume, target.or current.placement⟩

instance : Silent Catalog.routing := ⟨fun _ _ _ _ => rfl⟩

section

variable (ctx : Context)

instance (runtime : String) (action : RoutingAction) (revision : ℤ) (job : Option ProvisionJob) :
    Leaves Catalog.routing (notifyRouting ctx runtime action revision job) := by
  unfold notifyRouting
  cases job <;> infer_instance

theorem routing_of_leaves (t : Table RoutingRow.runtime) {α : Type} (call : CatalogCall α)
    [Leaves Catalog.routing call] : Keeps (fun c => c.routing = t) call :=
  keeps_of_leaves (p := Catalog.routing) call fun _ _ hsame hc => hsame.trans hc

theorem changeRuntimeRouting_moves (runtime : String) (expected : ℤ) (action : RoutingAction)
    (c : Catalog) :
    (changeRuntimeRouting ctx runtime expected action).Ensures c fun result c' =>
      result = expected + 1 ∧
        ∃ current target, Moves ctx c c' runtime expected action current target := by
  unfold changeRuntimeRouting
  apply ensures_check
  intro _ _
  rw [ensures_bind, ensures_lift]
  intro target htarget
  rw [ensures_transaction, ensures_bind, ensures_read]
  apply ensures_check
  intro _ _
  rw [ensures_bind, ensures_lift]
  intro current hcurrent
  rw [ensures_bind, ensures_require]
  intro hunmoved
  rw [ensures_bind, ensures_require]
  intro hallowed
  rw [ensures_bind, ensures_lift]
  intro _ hchecked
  apply ensures_check
  intro _ _
  rw [ensures_bind, ensures_write, ensures_bind]
  refine Ensures.of_keeps (routing_of_leaves _ _) rfl fun _ c₁ hc₁ => ?_
  rw [ensures_bind]
  refine Ensures.of_keeps (routing_of_leaves _ _) hc₁ fun _ c₂ hc₂ => ?_
  rw [ensures_pure]
  refine ⟨congrArg (· + 1) hunmoved, current, target, hcurrent, hunmoved, hallowed, htarget,
    hchecked, ?_⟩
  rw [hc₂, ← hunmoved]

end

/-! ## The runtime before and after -/

section

variable {ctx : Context} {c c' : Catalog} {runtime : String} {expected : ℤ}
  {action : RoutingAction} {current : RuntimeRouting} {target : Option RuntimePlacement}

theorem Moves.get (h : Moves ctx c c' runtime expected action current target) (other : String) :
    c'.routing.get other = if runtime = other then
      some ⟨runtime, expected + 1, action ≠ .resume, target.or current.placement⟩
      else c.routing.get other := by
  rw [h.routing, Table.get_put]

theorem Moves.get_self (h : Moves ctx c c' runtime expected action current target) :
    c'.routing.get runtime =
      some ⟨runtime, expected + 1, action ≠ .resume, target.or current.placement⟩ := by
  rw [h.get, if_pos rfl]

theorem Moves.get_of_ne (h : Moves ctx c c' runtime expected action current target)
    {other : String} (hne : other ≠ runtime) : c'.routing.get other = c.routing.get other := by
  rw [h.get, if_neg hne.symm]

theorem Moves.revision_before (h : Moves ctx c c' runtime expected action current target) :
    revision c runtime = expected :=
  (runtimeRouting_eq h.found).1.symm.trans h.unmoved

theorem Moves.revision_after (h : Moves ctx c c' runtime expected action current target) :
    revision c' runtime = expected + 1 := by
  rw [revision, h.get_self]
  rfl

theorem Moves.maintenance_before (h : Moves ctx c c' runtime expected action current target) :
    inMaintenance c runtime = true ↔ action ≠ .pause := by
  rw [← (runtimeRouting_eq h.found).2.1]
  exact h.allowed

theorem Moves.maintenance_after (h : Moves ctx c c' runtime expected action current target) :
    inMaintenance c' runtime = true ↔ action ≠ .resume := by
  rw [inMaintenance, h.get_self]
  simp

theorem Moves.placement_after (h : Moves ctx c c' runtime expected action current target) :
    placement c' runtime = target.or current.placement := by
  rw [placement, h.get_self]
  rfl

/-- Only a stage brings another placement, which it checked. -/
theorem Moves.target_cases (h : Moves ctx c c' runtime expected action current target) :
    (target = none ∧ ∀ new, action ≠ .stage new) ∨
      ∃ new checked, action = .stage new ∧ target = some checked ∧
        validatePlacement ctx.parseUrl new = .ok checked ∧
        validatePlacementTransition runtime current.placement checked = .ok () := by
  have hstaged := h.staged
  have hchecked := h.checked
  cases action with
  | pause =>
      cases hstaged
      exact .inl ⟨rfl, fun new hnew => by cases hnew⟩
  | resume =>
      cases hstaged
      exact .inl ⟨rfl, fun new hnew => by cases hnew⟩
  | stage new =>
      obtain ⟨checked, hnew, rfl⟩ := map_eq_ok.mp hstaged
      exact .inr ⟨new, checked, rfl, rfl, hnew, hchecked⟩

theorem Moves.generation (h : Moves ctx c c' runtime expected action current target) :
    Follows (generation (placement c runtime)) (generation (placement c' runtime)) := by
  have hread := (runtimeRouting_eq h.found).2.2.generation_eq
  rw [h.placement_after, ← hread]
  rcases h.target_cases with ⟨rfl, -⟩ | ⟨new, checked, -, rfl, -, htransition⟩
  · exact .inl rfl
  · exact generation_transition htransition

end

end Sbarbase.Control.Proofs.Routings
