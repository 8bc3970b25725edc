import Sbarbase.Transfer.Record
/-!
# One generation of a record after another

What a record that was validated looks like, and what a transition that was
checked says of the two records.
-/

namespace Sbarbase.Transfer.Proofs.Generations

open Lib

section

variable {α β : Type}

theorem check_eq_ok {p : Prop} [Decidable p] {code : String} {u : Unit} :
    check p code = .ok u ↔ p := by
  by_cases hp : p <;> simp [check, failWith, hp]

theorem bind_eq_ok {x : Checked α} {f : α → Checked β} {b : β} :
    (x >>= f) = .ok b ↔ ∃ a, x = .ok a ∧ f a = .ok b := by
  cases x with
  | error e => simp [bind, Except.bind]
  | ok a => simp [bind, Except.bind]

end

/-! ## Transitions -/

/-- The effects of a generation, spelled out: a pending one was appended where
none was pending, or the last one was pending and got a receipt. -/
inductive Grown : List Effect → List Effect → Prop
  | requested {before : List Effect} {e : Effect} (hpending : e.state = "pending")
      (hreceipt : e.receipt = none) (hsettled : ∀ e' ∈ before, e'.state ≠ "pending") :
      Grown before (before ++ [e])
  | observed {before : List Effect} {e e' : Effect} (hpending : e.state = "pending")
      (hreceipt : e'.receipt ≠ none) (hname : e'.name = e.name)
      (hmetadata : e'.metadata = e.metadata) (hdigest : e'.materialDigest = e.materialDigest) :
      Grown (before ++ [e]) (before ++ [e'])

theorem grown_of_nextEffects {before after : List Effect} (h : nextEffects before after) :
    Grown before after := by
  unfold nextEffects at h
  split_ifs at h with happended hkept
  · obtain ⟨hbefore, hlast, hsettled⟩ := h
    have hne : after ≠ [] := by
      rintro rfl
      simp at happended
    have hlast := hlast _ (List.getLast?_eq_some_getLast hne)
    rw [← List.dropLast_append_getLast hne, hbefore]
    exact .requested hlast.1 hlast.2 hsettled
  · obtain ⟨hlength, hne⟩ := hkept
    obtain ⟨hbefore, hpending, hreceipt, hsame⟩ := h
    have hne' : after ≠ [] := by
      rintro rfl
      exact hne (List.length_eq_zero_iff.mp hlength.symm)
    have hlast := List.getLast?_eq_some_getLast hne
    have hlast' := List.getLast?_eq_some_getLast hne'
    obtain ⟨hname, hmetadata, hdigest⟩ := hsame _ hlast _ hlast'
    rw [← List.dropLast_append_getLast hne, ← List.dropLast_append_getLast hne', hbefore]
    exact .observed (hpending _ hlast) (hreceipt _ hlast') hname.symm hmetadata.symm hdigest.symm

/-- The record that succeeds another one. -/
structure Succeeds (old new : Record) : Prop where
  binding : new.binding = old.binding
  credentials : new.credentials = old.credentials
  materialDigest : new.materialDigest = old.materialDigest
  createdAt : new.createdAt = old.createdAt
  revision : new.revision = old.revision + 1
  effects : Grown old.effects new.effects

theorem succeeds_of_transition {old new : Record} (h : transition (some old) new = .ok ()) :
    Succeeds old new := by
  unfold transition at h
  rw [bind_eq_ok] at h
  obtain ⟨_, hsame, heffects⟩ := h
  rw [check_eq_ok] at hsame heffects
  obtain ⟨hbinding, hcredentials, hdigest, hcreated, hrevision⟩ := hsame
  exact ⟨hbinding.symm, hcredentials.symm, hdigest.symm, hcreated.symm, hrevision,
    grown_of_nextEffects heffects⟩

theorem first_of_transition {new : Record} (h : transition none new = .ok ()) :
    new.revision = 0 ∧ new.effects = [] :=
  check_eq_ok.mp h

/-! ## Validated records -/

/-- Every name occurs once, and only the last effect may be pending. -/
structure Orderly (effects : List Effect) : Prop where
  names : (effects.map Effect.name).Nodup
  states : ∀ e ∈ effects, e.state = "pending" ∨ e.state = "verified"
  settled : ∀ e ∈ effects.dropLast, e.state = "verified"

section

variable {sha256 : List Char → ℕ} {binding : Binding} {record : Record}

theorem validateEffect_names {names : List String} {pending : Bool} {e : Effect}
    (h : validateEffect binding record names pending e = .ok ()) :
    e.name ∉ names ∧ pending = false ∧ (e.state = "pending" ∨ e.state = "verified") := by
  unfold validateEffect at h
  rw [bind_eq_ok] at h
  obtain ⟨_, _, h⟩ := h
  rw [bind_eq_ok] at h
  obtain ⟨_, _, h⟩ := h
  rw [bind_eq_ok] at h
  obtain ⟨_, hstate, _⟩ := h
  simpa [check_eq_ok] using hstate

/-- What the loop over the effects has checked once it is through. -/
theorem validateEffects_orderly {effects : List Effect} {names : List String} {pending : Bool}
    (h : validateEffects binding record names pending effects = .ok ()) :
    Orderly effects ∧ (∀ e ∈ effects, e.name ∉ names) ∧ (effects ≠ [] → pending = false) := by
  induction effects generalizing names pending with
  | nil => exact ⟨⟨by simp, by simp, by simp⟩, by simp, by simp⟩
  | cons e effects ih =>
      unfold validateEffects at h
      rw [bind_eq_ok] at h
      obtain ⟨_, hfirst, hrest⟩ := h
      obtain ⟨hname, hpending, hstate⟩ := validateEffect_names hfirst
      obtain ⟨horderly, hnames, hsettled⟩ := ih hrest
      have hfresh : ∀ e' ∈ effects, e'.name ≠ e.name ∧ e'.name ∉ names := by
        intro e' he'
        simpa using hnames e' he'
      refine ⟨⟨?_, ?_, ?_⟩, ?_, fun _ => hpending⟩
      · rw [List.map_cons, List.nodup_cons]
        refine ⟨?_, horderly.names⟩
        intro hmem
        obtain ⟨e', he', hsame⟩ := List.mem_map.mp hmem
        exact (hfresh e' he').1 hsame
      · intro e' he'
        rcases List.mem_cons.mp he' with rfl | hlater
        · exact hstate
        · exact horderly.states e' hlater
      · intro e' he'
        cases effects with
        | nil => simp at he'
        | cons next effects =>
            rw [List.dropLast_cons_cons] at he'
            rcases List.mem_cons.mp he' with rfl | hlater
            · have hnot := hsettled (by simp)
              simp only [decide_eq_false_iff_not] at hnot
              exact hstate.resolve_left hnot
            · exact horderly.settled e' hlater
      · intro e' he'
        rcases List.mem_cons.mp he' with rfl | hlater
        · exact hname
        · exact (hfresh e' hlater).2

theorem orderly_of_validate (h : validate sha256 binding record = .ok ()) :
    Orderly record.effects := by
  unfold validate at h
  simp only [bind_eq_ok] at h
  obtain ⟨_, _, _, _, _, _, _, _, _, _, _, _, heffects⟩ := h
  exact (validateEffects_orderly heffects).1

end

/-- A verified effect stays as it is. -/
theorem verified_of_grown {before after : List Effect} (h : Grown before after) {e : Effect}
    (he : e ∈ before) (hverified : e.state = "verified") : e ∈ after := by
  cases h with
  | requested _ _ _ => exact List.mem_append_left _ he
  | observed hpending _ _ _ _ =>
      rcases List.mem_append.mp he with hfirst | hlast
      · exact List.mem_append_left _ hfirst
      · rw [List.mem_singleton] at hlast
        rw [hlast, hpending] at hverified
        contradiction

end Sbarbase.Transfer.Proofs.Generations
