import Mathlib.Data.List.Sublists
/-!
# Deterministic machines

A machine has an initial state and answers every event with a next state. An
event that is not enabled leaves the state alone, so a run is any list of
events and "in every reachable state" is a statement about `run`.

The rules below are the only inductions over runs of this development: an
invariant, a relation between the two ends of a run, and progress through an
ordered list of events that a run contains.
-/

namespace Sbarbase.Lib

/-- A state machine whose step is a function of the event. -/
structure Machine (σ ε : Type*) where
  initial : σ
  step : σ → ε → σ

namespace Machine

variable {σ ε τ : Type*} (M : Machine σ ε)

/-- The state reached from `s` by a list of events. -/
def runFrom (s : σ) (events : List ε) : σ := events.foldl M.step s

/-- The state reached from the initial one. -/
def run (events : List ε) : σ := M.runFrom M.initial events

@[simp] theorem runFrom_nil (s : σ) : M.runFrom s [] = s := rfl

@[simp] theorem runFrom_cons (s : σ) (e : ε) (events : List ε) :
    M.runFrom s (e :: events) = M.runFrom (M.step s e) events := rfl

theorem runFrom_append (s : σ) (before after : List ε) :
    M.runFrom s (before ++ after) = M.runFrom (M.runFrom s before) after :=
  List.foldl_append

@[simp] theorem run_nil : M.run [] = M.initial := rfl

theorem run_append (before after : List ε) :
    M.run (before ++ after) = M.runFrom (M.run before) after :=
  M.runFrom_append _ _ _

theorem run_snoc (events : List ε) (e : ε) : M.run (events ++ [e]) = M.step (M.run events) e := by
  rw [run_append]
  rfl

/-! ## Invariants -/

/-- An invariant kept by the events that satisfy `A` holds after every list of
such events. -/
theorem runFrom_invariant_of {I : σ → Prop} {A : ε → Prop}
    (hstep : ∀ s e, A e → I s → I (M.step s e)) {s : σ} (hs : I s)
    (events : List ε) (hA : ∀ e ∈ events, A e) : I (M.runFrom s events) := by
  induction events generalizing s with
  | nil => exact hs
  | cons e events ih =>
      have he : A e := hA e List.mem_cons_self
      exact ih (hstep s e he hs) fun e' h => hA e' (List.mem_cons_of_mem _ h)

theorem runFrom_invariant {I : σ → Prop} (hstep : ∀ s e, I s → I (M.step s e)) {s : σ} (hs : I s)
    (events : List ε) : I (M.runFrom s events) :=
  M.runFrom_invariant_of (A := fun _ => True) (fun s e _ => hstep s e) hs events
    fun _ _ => trivial

theorem run_invariant {I : σ → Prop} (hinit : I M.initial)
    (hstep : ∀ s e, I s → I (M.step s e)) (events : List ε) :
    I (M.run events) :=
  M.runFrom_invariant hstep hinit events

theorem run_invariant_of {I : σ → Prop} {A : ε → Prop} (hinit : I M.initial)
    (hstep : ∀ s e, A e → I s → I (M.step s e)) (events : List ε)
    (hA : ∀ e ∈ events, A e) : I (M.run events) :=
  M.runFrom_invariant_of hstep hinit events hA

/-! ## Conditions along a run -/

/-- Every event satisfies `P` in the state it arrives in. -/
def Along (P : σ → ε → Prop) : σ → List ε → Prop
  | _, [] => True
  | s, e :: events => P s e ∧ Along P (M.step s e) events

instance decidableAlong {P : σ → ε → Prop} [∀ s e, Decidable (P s e)] :
    ∀ s events, Decidable (M.Along P s events)
  | _, [] => inferInstanceAs (Decidable True)
  | s, e :: events =>
      @instDecidableAnd _ _ inferInstance (decidableAlong (M.step s e) events)

theorem along_append {P : σ → ε → Prop} (s : σ) (before after : List ε) :
    M.Along P s (before ++ after) ↔ M.Along P s before ∧ M.Along P (M.runFrom s before) after := by
  induction before generalizing s with
  | nil => simp [Along]
  | cons e before ih => simp only [List.cons_append, Along, runFrom_cons, ih, and_assoc]

/-- The condition along a run, event by event. -/
theorem along_iff {P : σ → ε → Prop} (s : σ) (events : List ε) :
    M.Along P s events ↔ ∀ before e, before ++ [e] <+: events → P (M.runFrom s before) e := by
  induction events generalizing s with
  | nil => simp [Along]
  | cons first events ih =>
      rw [Along, ih]
      constructor
      · rintro ⟨hfirst, hrest⟩ before e hprefix
        cases before with
        | nil =>
            obtain ⟨rfl, -⟩ := List.cons_prefix_cons.mp hprefix
            exact hfirst
        | cons first' before =>
            obtain ⟨rfl, htail⟩ := List.cons_prefix_cons.mp hprefix
            exact hrest before e htail
      · intro h
        refine ⟨h [] first (List.prefix_append [first] events), fun before e hprefix => ?_⟩
        exact h (first :: before) e (List.cons_prefix_cons.mpr ⟨rfl, hprefix⟩)

/-- An invariant kept by the events that satisfy `P` where they arrive holds
after every list of such events. -/
theorem run_invariant_along {I : σ → Prop} {P : σ → ε → Prop} (hinit : I M.initial)
    (hstep : ∀ s e, P s e → I s → I (M.step s e)) (events : List ε)
    (h : M.Along P M.initial events) : I (M.run events) := by
  induction events using List.reverseRecOn with
  | nil => exact hinit
  | append_singleton events e ih =>
      obtain ⟨hbefore, hlast, _⟩ := (M.along_append _ _ _).mp h
      rw [M.run_snoc]
      exact hstep _ e hlast (ih hbefore)

/-- A relation between the events so far and the state they lead to, along lists
of events whose condition holds of every part they begin with. -/
theorem run_past {I : List ε → σ → Prop} {C : List ε → Prop}
    (hbegin : ∀ past e, C (past ++ [e]) → C past) (hinit : I [] M.initial)
    (hstep : ∀ past e, C (past ++ [e]) → I past (M.run past) →
      I (past ++ [e]) (M.step (M.run past) e)) (events : List ε) (hC : C events) :
    I events (M.run events) := by
  induction events using List.reverseRecOn with
  | nil => exact hinit
  | append_singleton past e ih =>
      rw [M.run_snoc]
      exact hstep past e hC (ih (hbegin past e hC))

/-! ## What a run adds up to -/

/-- The sum of the weights of the events in the states they arrive in. -/
def total (w : σ → ε → ℕ) : σ → List ε → ℕ
  | _, [] => 0
  | s, e :: events => w s e + total w (M.step s e) events

theorem total_append (w : σ → ε → ℕ) (s : σ) (before after : List ε) :
    M.total w s (before ++ after) = M.total w s before + M.total w (M.runFrom s before) after := by
  induction before generalizing s with
  | nil => simp [total]
  | cons e before ih => simp only [List.cons_append, total, runFrom_cons, ih, Nat.add_assoc]

theorem total_congr {w w' : σ → ε → ℕ} (s : σ) (events : List ε)
    (h : ∀ s, ∀ e ∈ events, w s e = w' s e) : M.total w s events = M.total w' s events := by
  induction events generalizing s with
  | nil => rfl
  | cons e events ih =>
      rw [total, total, h s e List.mem_cons_self,
        ih _ fun s' e' he => h s' e' (List.mem_cons_of_mem _ he)]

/-- A quantity that every step raises by at most its weight. -/
theorem runFrom_le_total {I : σ → Prop} {A : ε → Prop} {q : σ → ℕ} {w : σ → ε → ℕ}
    (hkeep : ∀ s e, A e → I s → I (M.step s e))
    (hstep : ∀ s e, A e → I s → q (M.step s e) ≤ q s + w s e) {s : σ} (hs : I s)
    (events : List ε) (hA : ∀ e ∈ events, A e) :
    q (M.runFrom s events) ≤ q s + M.total w s events := by
  induction events generalizing s with
  | nil => simp [total]
  | cons e events ih =>
      have he : A e := hA e List.mem_cons_self
      have hfirst := hstep s e he hs
      have hrest := ih (hkeep s e he hs) fun e' h => hA e' (List.mem_cons_of_mem _ h)
      rw [runFrom_cons, total]
      omega

/-! ## Relations between the ends of a run -/

/-- A reflexive and transitive relation that holds across every step holds
across every run. -/
theorem runFrom_rel {R : σ → σ → Prop} (hrefl : ∀ s, R s s)
    (htrans : ∀ s t u, R s t → R t u → R s u)
    (hstep : ∀ s e, R s (M.step s e)) (s : σ) (events : List ε) :
    R s (M.runFrom s events) := by
  induction events generalizing s with
  | nil => exact hrefl s
  | cons e events ih => exact htrans _ _ _ (hstep s e) (ih _)

/-- A counter that never falls is higher after a run with an event that raises it. -/
theorem run_lt_of_mem {α : Type*} [Preorder α] {c : σ → α} {E : ε → Prop}
    (hle : ∀ s e, c s ≤ c (M.step s e)) (hlt : ∀ s e, E e → c s < c (M.step s e))
    (before : List ε) {after : List ε} {e : ε} (hmem : e ∈ after) (he : E e) :
    c (M.run before) < c (M.run (before ++ after)) := by
  have hrun : ∀ s events, c s ≤ c (M.runFrom s events) :=
    M.runFrom_rel (R := fun s t => c s ≤ c t) (fun s => le_refl (c s)) (fun _ _ _ => le_trans) hle
  obtain ⟨first, rest, rfl⟩ := List.append_of_mem hmem
  rw [run_append, runFrom_append, runFrom_cons]
  calc c (M.run before) ≤ c (M.runFrom (M.run before) first) := hrun _ _
    _ < c (M.step (M.runFrom (M.run before) first) e) := hlt _ e he
    _ ≤ c (M.runFrom (M.step (M.runFrom (M.run before) first) e) rest) := hrun _ _

/-! ## What an earlier event left -/

/-- If `I` becomes true by events that satisfy `B` only, and no event that
satisfies `E` keeps it, then a state with `I` had such an event, and nothing
since that ends it. -/
theorem run_since {I : σ → Prop} {B : σ → ε → Prop} {E : ε → Prop} (hinit : ¬ I M.initial)
    (hstep : ∀ events e, I (M.step (M.run events) e) →
      (I (M.run events) ∧ ¬ E e) ∨ B (M.run events) e)
    (events : List ε) (hI : I (M.run events)) :
    ∃ before e after, events = before ++ e :: after ∧ B (M.run before) e ∧
      ∀ later ∈ after, ¬ E later := by
  induction events using List.reverseRecOn with
  | nil => exact absurd hI hinit
  | append_singleton events last ih =>
      rw [M.run_snoc] at hI
      rcases hstep events last hI with ⟨hold, hlast⟩ | hmakes
      · obtain ⟨before, e, after, rfl, hmakes, hafter⟩ := ih hold
        refine ⟨before, e, after ++ [last], by simp, hmakes, ?_⟩
        intro later hlater
        rcases List.mem_append.mp hlater with hmem | hmem
        · exact hafter later hmem
        · rw [List.mem_singleton.mp hmem]
          exact hlast
      · exact ⟨events, last, [], rfl, hmakes, by simp⟩

/-- What an event made true stays true as long as nothing ends it. -/
theorem run_kept {I : σ → Prop} {B : σ → ε → Prop} {E : ε → Prop}
    (hmakes : ∀ s e, B s e → I (M.step s e)) (hkeep : ∀ s e, I s → ¬ E e → I (M.step s e))
    {before after : List ε} {e : ε} (he : B (M.run before) e)
    (hafter : ∀ later ∈ after, ¬ E later) : I (M.run (before ++ e :: after)) := by
  rw [M.run_append, runFrom_cons]
  exact M.runFrom_invariant_of (fun s later hlater hs => hkeep s later hs hlater)
    (hmakes _ e he) after hafter

/-! ## Progress -/

/-- If every event keeps each stage `P k` and the `i`-th event of `required`
moves the state from stage `k + i` to stage `k + i + 1`, then a run that
contains `required` in order, among any other events, ends in the last stage. -/
theorem runFrom_stage {P : ℕ → σ → Prop}
    (hkeep : ∀ k s e, P k s → P k (M.step s e)) (required : List ε) :
    ∀ (k : ℕ) (s : σ) (events : List ε),
      (∀ i, ∀ h : i < required.length, ∀ t, P (k + i) t →
        P (k + i + 1) (M.step t (required.get ⟨i, h⟩))) →
      List.Sublist required events → P k s →
      P (k + required.length) (M.runFrom s events) := by
  intro k s events hmove hsub hs
  induction hsub generalizing k s with
  | slnil => simpa using hs
  | cons e _ ih => exact ih k (M.step s e) hmove (hkeep k s e hs)
  | @cons_cons required' events' e _ ih =>
      have hfirst : P (k + 1) (M.step s e) := hmove 0 (Nat.succ_pos _) s hs
      have hrest := ih (k + 1) (M.step s e) (fun i hi t ht => by
        have h := hmove (i + 1) (Nat.succ_lt_succ hi) t
        rw [show k + (i + 1) = k + 1 + i by omega] at h
        exact h ht) hfirst
      have hlen : k + (e :: required').length = k + 1 + required'.length := by
        simp only [List.length_cons]
        omega
      rw [hlen]
      exact hrest

/-! ## Refinement -/

/-- `abs` maps every step of `M` to a finite run of `N`. -/
theorem run_refines {ε' : Type*} {N : Machine τ ε'} {I : σ → Prop} (abs : σ → τ)
    (hI : I M.initial) (hkeep : ∀ s e, I s → I (M.step s e))
    (hinit : abs M.initial = N.initial)
    (hstep : ∀ s e, I s → ∃ events, abs (M.step s e) = N.runFrom (abs s) events)
    (events : List ε) : ∃ abstract, abs (M.run events) = N.run abstract := by
  induction events using List.reverseRecOn with
  | nil => exact ⟨[], hinit⟩
  | append_singleton events e ih =>
      obtain ⟨before, hbefore⟩ := ih
      obtain ⟨after, hafter⟩ :=
        hstep (M.run events) e (M.run_invariant hI hkeep events)
      refine ⟨before ++ after, ?_⟩
      rw [run_snoc, hafter, hbefore, run_append]

end Machine

end Sbarbase.Lib
