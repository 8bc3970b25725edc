import Mathlib.Data.List.Sort
import Mathlib.Order.Basic
/-!
# The newest of a list

The last few of a sorted list are the elements with few greater ones. Sets are
lists without repetition here, as a program sorts them to a list.
-/

namespace Sbarbase.Lib

variable {α : Type} [LinearOrder α]

/-- `sorted(values)` -/
def sorted (values : List α) : List α := values.insertionSort (· ≤ ·)

/-- `values[-n:]`, for a positive `n`. -/
def lastOf (n : ℕ) (values : List α) : List α := values.drop (values.length - n)

/-- `values[:-n]`, for a positive `n`. -/
def allBut (n : ℕ) (values : List α) : List α := values.take (values.length - n)

/-- The elements that are greater than `x`. -/
def above (x : α) (values : List α) : List α := values.filter fun y => x < y

theorem mem_sorted {x : α} {values : List α} : x ∈ sorted values ↔ x ∈ values :=
  List.mem_insertionSort _

theorem sorted_pairwise {values : List α} (h : values.Nodup) :
    (sorted values).Pairwise (· < ·) := by
  have hle : (sorted values).Pairwise (· ≤ ·) := List.pairwise_insertionSort _ values
  have hne : (sorted values).Pairwise (· ≠ ·) :=
    (List.perm_insertionSort _ values).nodup_iff.mpr h
  exact (hle.and hne).imp fun hboth => lt_of_le_of_ne hboth.1 hboth.2

/-- In order, the last `n` are those with fewer than `n` after them. -/
theorem mem_lastOf {x : α} {n : ℕ} {values : List α} (h : values.Pairwise (· < ·)) :
    x ∈ lastOf n values ↔ x ∈ values ∧ (above x values).length < n := by
  rw [lastOf]
  induction values with
  | nil => simp
  | cons first values ih =>
      obtain ⟨hfirst, hrest⟩ := List.pairwise_cons.mp h
      have hall : above first values = values := by
        rw [above, List.filter_eq_self]
        intro y hy
        exact decide_eq_true (hfirst y hy)
      have hself : above first (first :: values) = values := by
        rw [above, List.filter_cons_of_neg (by simp)]
        exact hall
      have hother : ∀ {y}, y ∈ values → above y (first :: values) = above y values := by
        intro y hy
        exact List.filter_cons_of_neg (by simpa using le_of_lt (hfirst y hy))
      by_cases hn : values.length < n
      · have hzero : (first :: values).length - n = 0 := by
          rw [List.length_cons]
          omega
        rw [hzero, List.drop_zero]
        refine ⟨fun hx => ⟨hx, ?_⟩, fun hx => hx.1⟩
        rcases List.mem_cons.mp hx with rfl | hx
        · rw [hself]
          exact hn
        · rw [hother hx]
          exact Nat.lt_of_le_of_lt (List.length_filter_le _ _) hn
      · have hsucc : (first :: values).length - n = values.length - n + 1 := by
          rw [List.length_cons]
          omega
        rw [hsucc, List.drop_succ_cons, ih hrest]
        constructor
        · rintro ⟨hx, hcount⟩
          exact ⟨List.mem_cons_of_mem _ hx, by rw [hother hx]; exact hcount⟩
        · rintro ⟨hx, hcount⟩
          rcases List.mem_cons.mp hx with rfl | hx
          · rw [hself] at hcount
            exact absurd hcount hn
          · rw [hother hx] at hcount
            exact ⟨hx, hcount⟩

/-- What is not among the last is before them. -/
theorem mem_allBut {x : α} {n : ℕ} {values : List α} (h : values.Pairwise (· < ·)) :
    x ∈ allBut n values ↔ x ∈ values ∧ n ≤ (above x values).length := by
  have hparts : allBut n values ++ lastOf n values = values := List.take_append_drop _ _
  have hnodup : (allBut n values ++ lastOf n values).Nodup := by
    rw [hparts]
    exact h.imp fun hlt => ne_of_lt hlt
  have hmem : x ∈ allBut n values ∨ x ∈ lastOf n values ↔ x ∈ values := by
    rw [← List.mem_append, hparts]
  constructor
  · intro hold
    have hx := hmem.mp (.inl hold)
    have hnot : x ∉ lastOf n values := fun hnew =>
      (List.nodup_append.mp hnodup).2.2 x hold x hnew rfl
    rw [mem_lastOf h, not_and, not_lt] at hnot
    exact ⟨hx, hnot hx⟩
  · rintro ⟨hx, hcount⟩
    rcases hmem.mpr hx with hold | hnew
    · exact hold
    · exact absurd ((mem_lastOf h).mp hnew).2 (not_lt.mpr hcount)

theorem mem_lastOf_sorted {x : α} {n : ℕ} {values : List α} (h : values.Nodup) :
    x ∈ lastOf n (sorted values) ↔ x ∈ values ∧ (above x values).length < n := by
  have hlength : (above x (sorted values)).length = (above x values).length :=
    ((List.perm_insertionSort (· ≤ ·) values).filter _).length_eq
  rw [mem_lastOf (sorted_pairwise h), mem_sorted, hlength]

/-! ## Fewer than a number -/

/-- Fewer than `n` have the property. -/
def Fewer {β : Type} (n : ℕ) (P : β → Prop) : Prop :=
  ∀ values : List β, values.Nodup → (∀ x ∈ values, P x) → values.length < n

theorem Fewer.mono {β : Type} {n : ℕ} {P Q : β → Prop} (h : Fewer n Q) (hPQ : ∀ x, P x → Q x) :
    Fewer n P :=
  fun values hnodup hvalues => h values hnodup fun x hx => hPQ x (hvalues x hx)

/-- Of what a list without repetition holds, fewer than `n` where it is shorter. -/
theorem fewer_iff {β : Type} {n : ℕ} {P : β → Prop} {values : List β} (hnodup : values.Nodup)
    (h : ∀ x, P x ↔ x ∈ values) : Fewer n P ↔ values.length < n := by
  constructor
  · exact fun hfewer => hfewer values hnodup fun x hx => (h x).mpr hx
  · intro hlength others hothers hP
    have hsubset : others ⊆ values := fun x hx => (h x).mp (hP x hx)
    exact Nat.lt_of_le_of_lt (List.subperm_of_subset hothers hsubset).length_le hlength

/-- Among a list without repetition. -/
theorem fewer_above_iff {n : ℕ} {x : α} {values : List α} (hnodup : values.Nodup) :
    Fewer n (fun y => y ∈ values ∧ x < y) ↔ (above x values).length < n :=
  fewer_iff (hnodup.filter _) fun y => by simp [above]

end Sbarbase.Lib
