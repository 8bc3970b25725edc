/-!
# Checks

A function that checks and raises is a computation in `Except`. The rules take
one that returned apart, and run one whose checks pass.
-/

namespace Sbarbase.Lib.Checked

variable {ε α β : Type}

/-- `if not p: raise error`. -/
def require (p : Prop) [Decidable p] (error : ε) : Except ε Unit :=
  if p then .ok () else .error error

/-- What a value of none raises. -/
def found (value : Option α) (error : ε) : Except ε α :=
  match value with
  | some a => .ok a
  | none => .error error

theorem bind_eq_ok {x : Except ε α} {f : α → Except ε β} {b : β} :
    (x >>= f) = .ok b ↔ ∃ a, x = .ok a ∧ f a = .ok b := by
  cases x with
  | error e => simp [bind, Except.bind]
  | ok a => simp [bind, Except.bind]

theorem require_eq_ok {p : Prop} [Decidable p] {error : ε} {u : Unit} :
    require p error = .ok u ↔ p := by
  by_cases hp : p <;> simp [require, hp]

theorem found_eq_ok {value : Option α} {error : ε} {a : α} :
    found value error = .ok a ↔ value = some a := by
  cases value <;> simp [found]

theorem pure_eq_ok {a b : α} : (pure a : Except ε α) = .ok b ↔ a = b := by
  simp [pure, Except.pure]

theorem map_eq_ok {x : Except ε α} {f : α → β} {b : β} :
    f <$> x = .ok b ↔ ∃ a, x = .ok a ∧ f a = b := by
  cases x with
  | error e => simp [Functor.map, Except.map]
  | ok a => simp [Functor.map, Except.map]

@[simp] theorem ok_bind {a : α} {f : α → Except ε β} : (Except.ok a >>= f) = f a := rfl

@[simp] theorem require_pos {p : Prop} [Decidable p] {error : ε} (hp : p) :
    require p error = .ok () := if_pos hp

theorem require_neg {p : Prop} [Decidable p] {error : ε} (hp : ¬ p) :
    require p error = .error error := if_neg hp

/-- A list of computations that all return. -/
theorem mapM_ok {f : α → Except ε β} {g : α → β} {items : List α} (h : ∀ a ∈ items, f a = .ok (g a)) :
    items.mapM f = .ok (items.map g) := by
  induction items with
  | nil => rfl
  | cons a items ih =>
      rw [List.mapM_cons, h a List.mem_cons_self, ih fun b hb => h b (List.mem_cons_of_mem _ hb)]
      rfl

/-- Of a list of computations that returned each did. -/
theorem ok_of_mapM {f : α → Except ε β} {items : List α} {results : List β}
    (h : items.mapM f = .ok results) {a : α} (ha : a ∈ items) : ∃ b, f a = .ok b := by
  induction items generalizing results with
  | nil => cases ha
  | cons first items ih =>
      rw [List.mapM_cons, bind_eq_ok] at h
      obtain ⟨b, hfirst, h⟩ := h
      rw [bind_eq_ok] at h
      obtain ⟨rest, hrest, _⟩ := h
      rcases List.mem_cons.mp ha with rfl | ha
      · exact ⟨b, hfirst⟩
      · exact ih hrest ha

end Sbarbase.Lib.Checked
