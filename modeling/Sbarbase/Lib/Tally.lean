import Mathlib.Algebra.BigOperators.Ring.Finset
import Sbarbase.Lib.Dict
/-!
# Tallies

A map of counters tallies a list when the counter of every key is the number of
items with that key, and a key without items has no counter. Adding an item
raises one counter, taking an item out lowers one and drops it at zero.
-/

namespace Sbarbase.Lib

variable {α κ : Type*} [DecidableEq κ]

namespace Dict

/-- Add one to a counter that starts at zero. -/
def raise (counts : Dict κ ℤ) (k : κ) : Dict κ ℤ :=
  counts.set k ((counts.get k).getD 0 + 1)

/-- Take one from a counter and drop it at zero. A counter that is missing
stands at one. -/
def lower (counts : Dict κ ℤ) (k : κ) : Dict κ ℤ :=
  let remaining := (counts.get k).getD 1 - 1
  if remaining = 0 then counts.delete k else counts.set k remaining

theorem get_lower_le {counts : Dict κ ℤ} {k k' : κ} {n : ℤ}
    (h : (counts.lower k).get k' = some n) (hk : counts.get k ≠ none) :
    ∃ v, counts.get k' = some v ∧ n ≤ v := by
  obtain ⟨v, hv⟩ := Option.ne_none_iff_exists'.mp hk
  simp only [lower, hv, Option.getD_some] at h
  split_ifs at h
  · rw [get_delete] at h
    split_ifs at h
    exact ⟨n, h, le_refl n⟩
  · rw [get_set] at h
    split_ifs at h with heq
    · subst heq
      simp only [Option.some.injEq] at h
      exact ⟨v, hv, by omega⟩
    · exact ⟨n, h, le_refl n⟩

/-- Counters that are never kept at zero. -/
def Positive (counts : Dict κ ℤ) : Prop := ∀ k n, counts.get k = some n → 1 ≤ n

theorem Positive.raise {counts : Dict κ ℤ} (h : counts.Positive) (k : κ) :
    (counts.raise k).Positive := by
  intro k' n hn
  rw [Dict.raise, get_set] at hn
  split_ifs at hn
  · cases hget : counts.get k with
    | none => simp_all
    | some m =>
        have hm := h k m hget
        simp only [hget, Option.getD_some, Option.some.injEq] at hn
        omega
  · exact h k' n hn

theorem Positive.lower {counts : Dict κ ℤ} (h : counts.Positive) (k : κ) :
    (counts.lower k).Positive := by
  intro k' n hn
  simp only [Dict.lower] at hn
  split_ifs at hn with hzero
  · rw [get_delete] at hn
    split_ifs at hn
    exact h k' n hn
  · rw [get_set] at hn
    split_ifs at hn
    · cases hget : counts.get k with
      | none => simp [hget] at hzero
      | some m =>
          have hm := h k m hget
          simp only [hget, Option.getD_some, Option.some.injEq] at hn hzero
          omega
    · exact h k' n hn

theorem getD_lower_le (counts : Dict κ ℤ) (k k' : κ) :
    ((counts.lower k').get k).getD 0 ≤ (counts.get k).getD 0 := by
  simp only [lower]
  split_ifs with hzero
  · rw [get_delete]
    split_ifs with heq
    · subst heq
      cases hget : counts.get k with
      | none => simp
      | some n =>
          rw [hget, Option.getD_some] at hzero
          rw [Option.getD_none, Option.getD_some]
          omega
    · exact le_rfl
  · rw [get_set]
    split_ifs with heq
    · subst heq
      cases hget : counts.get k with
      | none => simp [hget] at hzero
      | some n =>
          rw [Option.getD_some, Option.getD_some, Option.getD_some]
          omega
    · exact le_rfl

/-- Lowering makes no counter. -/
theorem get_lower_none {counts : Dict κ ℤ} {k : κ} (h : counts.get k = none) (k' : κ) :
    (counts.lower k').get k = none := by
  simp only [lower]
  split_ifs with hzero
  · rw [get_delete]
    split_ifs
    · rfl
    · exact h
  · rw [get_set]
    split_ifs with heq
    · rw [← heq, h] at hzero
      simp at hzero
    · exact h

end Dict

/-- A counter that is only kept above zero. -/
def counter (n : ℕ) : Option ℤ := if n = 0 then none else some (n : ℤ)

@[simp] theorem counter_zero : counter 0 = none := rfl

@[simp] theorem counter_succ (n : ℕ) : counter (n + 1) = some ((n : ℤ) + 1) := by
  simp [counter]

@[simp] theorem getD_counter (n : ℕ) : (counter n).getD 0 = n := by
  cases n <;> simp

theorem counter_eq_some {n : ℕ} {v : ℤ} : counter n = some v ↔ v = n ∧ 1 ≤ v := by
  cases n with
  | zero =>
      simp only [counter_zero, reduceCtorEq, false_iff]
      omega
  | succ n =>
      rw [counter_succ, Option.some.injEq]
      push_cast
      omega

/-- The number of items with the key `k`. -/
def countKey (key : α → Option κ) (items : List α) (k : κ) : ℕ :=
  items.countP fun item => key item = some k

/-- `counts` tallies `items` by `key`. -/
def Tallies (key : α → Option κ) (items : List α) (counts : Dict κ ℤ) : Prop :=
  ∀ k, counts.get k = counter (countKey key items k)

namespace Tallies

variable {key : α → Option κ} {items : List α} {counts : Dict κ ℤ}

theorem nil : Tallies key [] ∅ := fun _ => rfl

theorem getD (h : Tallies key items counts) (k : κ) :
    (counts.get k).getD 0 = countKey key items k := by
  rw [h k, getD_counter]

theorem one_le (h : Tallies key items counts) {k : κ} {n : ℤ}
    (hk : counts.get k = some n) : 1 ≤ n := by
  rw [h k, counter_eq_some] at hk
  exact hk.2

/-- A key has a counter exactly if an item has the key. -/
theorem get_ne_none (h : Tallies key items counts) {k : κ} :
    counts.get k ≠ none ↔ ∃ item ∈ items, key item = some k := by
  have hpos : 0 < countKey key items k ↔ ∃ item ∈ items, key item = some k := by
    simp [countKey, List.countP_pos_iff]
  rw [← hpos, h k, counter]
  split_ifs <;> simp <;> omega

/-- A counter stands above zero exactly if an item has the key. -/
theorem getD_pos (h : Tallies key items counts) {k : κ} :
    0 < (counts.get k).getD 0 ↔ ∃ item ∈ items, key item = some k := by
  rw [h.getD k, Int.natCast_pos, countKey, List.countP_pos_iff]
  simp

/-! ## Changes of the list -/

theorem push (h : Tallies key items counts) {item : α} {k : κ}
    (hk : key item = some k) : Tallies key (items ++ [item]) (counts.raise k) := by
  intro k'
  rw [Dict.raise, Dict.get_set, h.getD]
  split_ifs with heq
  · subst heq
    simp [countKey, hk]
  · rw [h k']
    simp [countKey, hk, Ne.symm heq]

theorem push_none (h : Tallies key items counts) {item : α}
    (hk : key item = none) : Tallies key (items ++ [item]) counts := by
  intro k'
  rw [h k']
  simp [countKey, hk]

/-- Replacing an item moves its key. -/
theorem countKey_set (key : α → Option κ) {i : ℕ} {old : α} (hold : items[i]? = some old)
    (new : α) (k : κ) :
    countKey key (items.set i new) k + (if key old = some k then 1 else 0) =
      countKey key items k + (if key new = some k then 1 else 0) := by
  obtain ⟨hi, hget⟩ := List.getElem?_eq_some_iff.mp hold
  have hpos : (if key old = some k then 1 else 0) ≤ countKey key items k := by
    split_ifs with hk
    · exact List.countP_pos_iff.mpr ⟨old, hget ▸ List.getElem_mem hi, by simpa using hk⟩
    · exact Nat.zero_le _
  unfold countKey at hpos ⊢
  rw [List.countP_set hi, hget]
  simp only [decide_eq_true_eq]
  omega

theorem set_same (h : Tallies key items counts) {i : ℕ} {old new : α}
    (hold : items[i]? = some old) (hkey : key new = key old) :
    Tallies key (items.set i new) counts := by
  intro k
  have hcount := countKey_set key hold new k
  rw [hkey] at hcount
  rw [h k, Nat.add_right_cancel hcount]

theorem drop (h : Tallies key items counts) {i : ℕ} {old new : α} {k : κ}
    (hold : items[i]? = some old) (hk : key old = some k) (hnew : key new = none) :
    Tallies key (items.set i new) (counts.lower k) := by
  intro k'
  have hcount := countKey_set key hold new k'
  have hself := countKey_set key hold new k
  simp only [hk, hnew, reduceCtorEq, if_false, Option.some.injEq, if_true, add_zero]
    at hcount hself
  have hget : counts.get k = some ((countKey key (items.set i new) k : ℤ) + 1) := by
    rw [h k, ← hself, counter_succ]
  simp only [Dict.lower, hget, Option.getD_some, add_sub_cancel_right]
  by_cases heq : k' = k
  · subst heq
    split_ifs with hzero
    · rw [Dict.get_delete, if_pos rfl, Int.natCast_eq_zero.mp hzero, counter_zero]
    · rw [Dict.get_set, if_pos rfl, counter, if_neg (by omega)]
  · rw [if_neg (Ne.symm heq), add_zero] at hcount
    have hsame : counts.get k' = counter (countKey key (items.set i new) k') := by
      rw [h k', hcount]
    split_ifs
    · rw [Dict.get_delete, if_neg heq, hsame]
    · rw [Dict.get_set, if_neg heq, hsame]

/-! ## Sums -/

/-- Over a set with all keys of the list, the counts add up to the number of
items that have a key. -/
theorem sum_countKey (key : α → Option κ) (keys : Finset κ) (items : List α)
    (hkeys : ∀ item ∈ items, ∀ k, key item = some k → k ∈ keys) :
    ∑ k ∈ keys, countKey key items k = items.countP fun item => (key item).isSome := by
  induction items with
  | nil => simp [countKey]
  | cons item items ih =>
      have hrest := ih fun i hi => hkeys i (List.mem_cons_of_mem _ hi)
      have hitem : (∑ k ∈ keys, if key item = some k then 1 else 0) =
          if (key item).isSome then 1 else 0 := by
        cases hk : key item with
        | none => simp
        | some k =>
            have hmem := hkeys item List.mem_cons_self k hk
            simp [Finset.sum_ite_eq, hmem]
      simp only [countKey, List.countP_cons, decide_eq_true_eq, Finset.sum_add_distrib]
      rw [hitem]
      simp only [countKey] at hrest
      rw [hrest]

theorem sum_eq (h : Tallies key items counts) :
    counts.sum = items.countP fun item => (key item).isSome := by
  have hsum : counts.sum = ∑ k ∈ counts.keySet, (countKey key items k : ℤ) := by
    have hkeys : ∀ k ∉ counts.keySet, counts.get k = none := by
      intro k hk
      by_contra hkept
      exact hk (Dict.mem_keySet.mpr (Option.ne_none_iff_exists'.mp hkept))
    rw [counts.sum_eq_of_subset hkeys]
    exact Finset.sum_congr rfl fun k _ => h.getD k
  rw [hsum, ← Nat.cast_sum, sum_countKey]
  intro item hitem k hk
  have hkept : counts.get k ≠ none := h.get_ne_none.mpr ⟨item, hitem, hk⟩
  exact Dict.mem_keySet.mpr (Option.ne_none_iff_exists'.mp hkept)

/-- The counters whose key satisfies `p` tally the items with such a key. -/
theorem filter (h : Tallies key items counts) (p : κ → Bool) :
    Tallies (fun item => (key item).filter p) items
      (counts.filter fun k _ => p k) := by
  intro k
  rw [Dict.get_filter, h k]
  cases hp : p k with
  | true =>
      have hsame : countKey (fun item => (key item).filter p) items k =
          countKey key items k := by
        apply List.countP_congr
        intro item _
        simp only [decide_eq_true_eq, Option.filter_eq_some_iff, and_iff_left_iff_imp]
        exact fun _ => hp
      rw [hsame]
      cases counter (countKey key items k) <;> rfl
  | false =>
      have hnone : countKey (fun item => (key item).filter p) items k = 0 := by
        apply List.countP_eq_zero.mpr
        intro item _
        simp [Option.filter_eq_some_iff, hp]
      rw [hnone]
      cases counter (countKey key items k) <;> rfl

end Tallies

/-! ## The weight of a part -/

section

/-- What the items that satisfy `p` weigh together. -/
def weigh (f : α → ℕ) (p : α → Bool) (items : List α) : ℕ :=
  (items.map fun item => if p item then f item else 0).sum

variable {f : α → ℕ} {p q : α → Bool} {items rest : List α}

@[simp] theorem weigh_nil : weigh f p [] = 0 := rfl

@[simp] theorem weigh_cons (item : α) :
    weigh f p (item :: items) = (if p item then f item else 0) + weigh f p items := by
  simp [weigh]

@[simp] theorem weigh_append : weigh f p (items ++ rest) = weigh f p items + weigh f p rest := by
  simp [weigh]

theorem weigh_filter : weigh f (fun _ => true) (items.filter p) = weigh f p items := by
  induction items with
  | nil => rfl
  | cons item items ih =>
      rw [weigh_cons, List.filter_cons]
      split_ifs
      · rw [weigh_cons, ih, if_pos rfl]
      · rw [ih, Nat.zero_add]

theorem weigh_eq_zero (h : ∀ item ∈ items, p item = true → f item = 0) : weigh f p items = 0 := by
  induction items with
  | nil => rfl
  | cons item items ih =>
      rw [weigh_cons, ih fun other hother => h other (List.mem_cons_of_mem _ hother)]
      split_ifs with hp
      · rw [h item List.mem_cons_self hp]
      · rfl

theorem weigh_congr (h : ∀ item ∈ items, p item = q item) : weigh f p items = weigh f q items := by
  unfold weigh
  congr 1
  apply List.map_congr_left
  intro item hitem
  rw [h item hitem]

/-- Counting is weighing ones. -/
theorem countP_eq_weigh (q p : α → Bool) (items : List α) :
    items.countP (fun item => q item && p item) =
      weigh (fun item => if q item then 1 else 0) p items := by
  induction items with
  | nil => rfl
  | cons item items ih =>
      rw [List.countP_cons, weigh_cons, ih]
      cases q item <;> cases p item <;> simp [Nat.add_comm]

/-- A part is as heavy as the sum over its keys. -/
theorem weigh_keys (key : α → κ) (keys : Finset κ) (items : List α) :
    weigh f (fun item => key item ∈ keys) items =
      ∑ k ∈ keys, weigh f (fun item => key item = k) items := by
  induction items with
  | nil => simp
  | cons item items ih =>
      simp only [weigh_cons, Finset.sum_add_distrib, ih, decide_eq_true_eq]
      rw [Finset.sum_ite_eq]

/-- The part between two bounds is cut at a bound between them. -/
theorem weigh_between (key : α → ℤ) {start mid stop : ℤ} (hstart : start ≤ mid) (hstop : mid ≤ stop)
    (items : List α) :
    weigh f (fun item => start ≤ key item && key item < mid) items +
        weigh f (fun item => mid ≤ key item && key item < stop) items =
      weigh f (fun item => start ≤ key item && key item < stop) items := by
  induction items with
  | nil => rfl
  | cons item items ih =>
      simp only [weigh_cons, Bool.and_eq_true, decide_eq_true_eq]
      rw [← ih]
      split_ifs <;> omega

/-- The parts between the bounds of a rising sequence are together the part
between the first bound and the last. -/
theorem weigh_intervals (key : α → ℤ) {bound : ℕ → ℤ}
    (hbound : ∀ i j, i ≤ j → bound i ≤ bound j) (n : ℕ) (items : List α) :
    ∑ i ∈ Finset.range n,
        weigh f (fun item => bound i ≤ key item && key item < bound (i + 1)) items =
      weigh f (fun item => bound 0 ≤ key item && key item < bound n) items := by
  induction n with
  | zero =>
      rw [Finset.range_zero, Finset.sum_empty, weigh_eq_zero]
      intro item _ hitem
      rw [Bool.and_eq_true, decide_eq_true_iff, decide_eq_true_iff] at hitem
      omega
  | succ n ih =>
      rw [Finset.sum_range_succ, ih]
      exact weigh_between key (hbound _ _ (Nat.zero_le n)) (hbound _ _ (Nat.le_succ n)) items

end

end Sbarbase.Lib
