import Sbarbase.Rolling.Swap
/-!
# What the record allows

`Sane` says which containers and settings files each phase of the record allows.
`Leads` is the rule for a list of effects: every world on the way satisfies an
invariant, and no effect fails.
-/

namespace Sbarbase.Rolling.Proofs.Shapes

open Lib

/-- One container under the canonical name, with its own settings, and none beside it. -/
structure Single (id : String) (w : World) : Prop where
  canonical : w.canonical = some ⟨id, false⟩
  temporary : w.temporary = none
  settings : w.settings = some id
  nextSettings : w.nextSettings = none

/-- The new container may be there, under the temporary name. -/
structure Beside (r : Record) (w : World) : Prop where
  canonical : w.canonical = some ⟨r.old, false⟩
  temporary : ∀ c ∈ w.temporary, c.stopped = false ∧ c.id ≠ r.old ∧ ∀ new ∈ r.new, c.id = new
  settings : w.settings = some r.old
  other : ∀ new ∈ r.new, new ≠ r.old

/-- How far the old container is gone. -/
inductive Retiring (old new : String) (w : World) : Prop
  | both (stopped : Bool) (hcanonical : w.canonical = some ⟨old, stopped⟩)
      (htemporary : w.temporary = some ⟨new, false⟩) (hnext : w.nextSettings = some new)
  | removed (hcanonical : w.canonical = none)
      (htemporary : w.temporary = some ⟨new, false⟩) (hnext : w.nextSettings = some new)
  | renamed (hcanonical : w.canonical = some ⟨new, false⟩) (htemporary : w.temporary = none)
      (hnext : w.nextSettings = some new)
  | taken (hsingle : Single new w)

def Sane (w : World) : Prop :=
  match w.record with
  | none => (∃ id, Single id w) ∧ w.raised = false
  | some r =>
    if r.phase = .retiring then ∃ new, r.new = some new ∧ new ≠ r.old ∧ Retiring r.old new w
    else Beside r w

theorem sane_none {w : World} (hrecord : w.record = none) :
    Sane w ↔ (∃ id, Single id w) ∧ w.raised = false := by
  simp only [Sane, hrecord]

theorem sane_beside {w : World} {r : Record} (hrecord : w.record = some r)
    (hphase : r.phase ≠ .retiring) : Sane w ↔ Beside r w := by
  simp only [Sane, hrecord, if_neg hphase]

theorem sane_retiring {w : World} {r : Record} (hrecord : w.record = some r)
    (hphase : r.phase = .retiring) :
    Sane w ↔ ∃ new, r.new = some new ∧ new ≠ r.old ∧ Retiring r.old new w := by
  simp only [Sane, hrecord, if_pos hphase]

theorem sane_of_beside {w : World} {r : Record} (hrecord : w.record = some r)
    (hphase : r.phase ≠ .retiring) (h : Beside r w) : Sane w :=
  (sane_beside hrecord hphase).mpr h

theorem sane_of_retiring {w : World} {r : Record} {new : String} (hrecord : w.record = some r)
    (hphase : r.phase = .retiring) (hnew : r.new = some new) (hne : new ≠ r.old)
    (h : Retiring r.old new w) : Sane w :=
  (sane_retiring hrecord hphase).mpr ⟨new, hnew, hne, h⟩

/-! ## Where effects lead -/

/-- Every effect succeeds, from a world with `I`, and the last world satisfies `P`;
`A` are the answers `inspect` may give. -/
def Leads (I : World → Prop) (A : Bool → Prop) (P : World → Prop) : World → List Effect → Prop
  | w, [] => P w
  | w, effect :: rest =>
    I w ∧ ∀ running, A running → ∃ w', w.apply running effect = some w' ∧ Leads I A P w' rest

section

variable {I : World → Prop} {A : Bool → Prop} {P Q : World → Prop}

theorem Leads.mono (himp : ∀ w, P w → Q w) {effects : List Effect} {w : World}
    (h : Leads I A P w effects) : Leads I A Q w effects := by
  induction effects generalizing w with
  | nil => exact himp w h
  | cons effect rest ih =>
      obtain ⟨hfirst, hrest⟩ := h
      refine ⟨hfirst, fun running hrunning => ?_⟩
      obtain ⟨w', happly, hleads⟩ := hrest running hrunning
      exact ⟨w', happly, ih hleads⟩

theorem Leads.append {first second : List Effect} {w : World}
    (h : Leads I A (fun w' => Leads I A P w' second) w first) :
    Leads I A P w (first ++ second) := by
  induction first generalizing w with
  | nil => exact h
  | cons effect rest ih =>
      obtain ⟨hfirst, hrest⟩ := h
      refine ⟨hfirst, fun running hrunning => ?_⟩
      obtain ⟨w', happly, hleads⟩ := hrest running hrunning
      exact ⟨w', happly, ih hleads⟩

/-- An effect whose outcome does not depend on what `inspect` answers. -/
theorem Leads.cons {effect : Effect} {rest : List Effect} {w w' : World} (hfirst : I w)
    (happly : ∀ running, w.apply running effect = some w') (h : Leads I A P w' rest) :
    Leads I A P w (effect :: rest) :=
  ⟨hfirst, fun running _ => ⟨w', happly running, h⟩⟩

theorem Leads.first {effects : List Effect} {w : World} (h : Leads I A I w effects) : I w := by
  cases effects with
  | nil => exact h
  | cons effect rest => exact h.1

end

end Sbarbase.Rolling.Proofs.Shapes
