import Sbarbase.Settlement.Inventory
import Mathlib.Tactic.IntervalCases
/-!
# The order of the keys

Both sides put the keys that are array indices first. One of them reads a key
with a pattern and a bound, the other compares it with its own number's text.
-/

namespace Sbarbase.Settlement.Proofs.Keys

open Lib Python TypeScript

/-- The digits of a number, as a text. -/
def digits (n : ℕ) : CodePoints := (Nat.toDigits 10 n).map Char.toNat

theorem codePoints_toString (n : ℕ) : codePoints (toString n) = digits n := by
  rw [codePoints, Nat.toString_eq_ofList_toDigits, String.toList_ofList, digits]

theorem digits_of_lt {d : ℕ} (h : d < 10) : digits d = [48 + d] := by
  rw [digits, Nat.toDigits_of_lt_base h]
  interval_cases d <;> rfl

theorem digits_snoc {n d : ℕ} (hn : 0 < n) (hd : d < 10) :
    digits (10 * n + d) = digits n ++ [48 + d] := by
  rw [← digits_of_lt hd, digits, digits, digits, ← Nat.toDigits_append_toDigits (by decide) hn hd,
    List.map_append]

theorem intOf_snoc (key : CodePoints) (c : ℕ) : intOf (key ++ [c]) = 10 * intOf key + (c - 48) := by
  simp [intOf]

def isDigitPoint (c : ℕ) : Bool := 48 ≤ c && c ≤ 57

/-- Digits that do not begin with a zero. -/
def Leading (key : CodePoints) : Prop :=
  (∃ c rest, key = c :: rest ∧ 49 ≤ c) ∧ ∀ c ∈ key, isDigitPoint c = true

theorem digits_of_leading {key : CodePoints} (h : Leading key) :
    0 < intOf key ∧ digits (intOf key) = key := by
  induction key using List.reverseRecOn with
  | nil => simp [Leading] at h
  | append_singleton key c ih =>
      obtain ⟨⟨first, rest, heq, hfirst⟩, hall⟩ := h
      have hc : 48 ≤ c ∧ c ≤ 57 := by
        simpa [isDigitPoint] using hall c (by simp)
      rw [intOf_snoc]
      cases key with
      | nil =>
          have hc' : c = first := by simpa using congrArg List.head? heq
          have hzero : intOf [] = 0 := rfl
          rw [hzero, Nat.mul_zero, Nat.zero_add, digits_of_lt (by omega)]
          refine ⟨by omega, ?_⟩
          rw [Nat.add_sub_cancel' hc.1, List.nil_append]
      | cons a key =>
          have ha : a = first := by simpa using congrArg List.head? heq
          have hleading : Leading (a :: key) :=
            ⟨⟨a, key, rfl, ha ▸ hfirst⟩, fun d hd => hall d (List.mem_append_left _ hd)⟩
          obtain ⟨hpos, hdigits⟩ := ih hleading
          refine ⟨by omega, ?_⟩
          rw [digits_snoc hpos (by omega), hdigits, Nat.add_sub_cancel' hc.1]

theorem leading_digits {n : ℕ} (h : 0 < n) : Leading (digits n) ∧ intOf (digits n) = n := by
  induction n using Nat.strongRecOn with
  | ind n ih =>
      by_cases hsmall : n < 10
      · rw [digits_of_lt hsmall]
        refine ⟨⟨⟨48 + n, [], rfl, by omega⟩, ?_⟩, by simp [intOf]⟩
        intro c hc
        rw [List.mem_singleton.mp hc]
        simp only [isDigitPoint, Bool.and_eq_true, decide_eq_true_eq]
        omega
      · have hq : 0 < n / 10 := by omega
        obtain ⟨⟨⟨c, rest, heq, hc⟩, hall⟩, hvalue⟩ := ih (n / 10) (by omega) hq
        have hn : n = 10 * (n / 10) + n % 10 := by omega
        have hr : n % 10 < 10 := by omega
        have hdigits : digits n = digits (n / 10) ++ [48 + n % 10] := by
          conv_lhs => rw [hn]
          exact digits_snoc hq hr
        rw [hdigits]
        refine ⟨⟨⟨c, rest ++ [48 + n % 10], by rw [heq, List.cons_append], hc⟩, ?_⟩, ?_⟩
        · intro d hd
          rcases List.mem_append.mp hd with hd | hd
          · exact hall d hd
          · rw [List.mem_singleton.mp hd]
            simp only [isDigitPoint, Bool.and_eq_true, decide_eq_true_eq]
            omega
        · rw [intOf_snoc, hvalue]
          omega

/-- `0`, or digits that do not begin with a zero. -/
theorem isCanonical_iff (key : CodePoints) : isCanonical key = true ↔ key = [48] ∨ Leading key := by
  match key with
  | [] => simp [isCanonical, Leading]
  | [c] =>
      simp only [isCanonical, Leading, isDigitPoint, Bool.and_eq_true, decide_eq_true_eq,
        List.mem_singleton, forall_eq, List.cons.injEq, and_true]
      constructor
      · intro h
        by_cases hc : c = 48
        · exact .inl hc
        · exact .inr ⟨⟨c, [], ⟨rfl, rfl⟩, by omega⟩, h⟩
      · rintro (rfl | ⟨-, h⟩)
        · decide
        · exact h
  | c :: d :: rest =>
      simp only [isCanonical, Leading, isDigitPoint, Bool.and_eq_true, decide_eq_true_eq,
        List.all_eq_true]
      constructor
      · rintro ⟨hc, hall⟩
        refine .inr ⟨⟨c, d :: rest, rfl, hc.1⟩, ?_⟩
        intro e he
        rcases List.mem_cons.mp he with rfl | he
        · exact ⟨by omega, hc.2⟩
        · exact hall e he
      · rintro (h | ⟨⟨first, tail, heq, hfirst⟩, hall⟩)
        · simp at h
        · obtain ⟨rfl, rfl⟩ := List.cons.inj heq
          exact ⟨⟨hfirst, (hall c List.mem_cons_self).2⟩,
            fun e he => hall e (List.mem_cons_of_mem _ he)⟩

theorem isCanonical_iff_digits (key : CodePoints) :
    isCanonical key = true ↔ key = digits (intOf key) := by
  rw [isCanonical_iff]
  constructor
  · rintro (rfl | h)
    · decide
    · exact (digits_of_leading h).2.symm
  · intro h
    by_cases hzero : intOf key = 0
    · rw [hzero] at h
      exact .inl (h.trans (by decide))
    · rw [h]
      exact .inr (leading_digits (by omega)).1

/-- The two ways of telling an array index. -/
theorem arrayIndex_eq (key : CodePoints) :
    arrayIndex key = if isIndex key then some (intOf key) else none := by
  have hvalue : key.foldl (fun n c => 10 * n + (c - 48)) 0 = intOf key := rfl
  have hmax : 2 ^ 32 - 1 = 4294967295 := by decide
  simp only [arrayIndex, hvalue, hmax, codePoints_toString, isIndex, Bool.and_eq_true,
    isCanonical_iff_digits, decide_eq_true_eq]
  have hlength : key = digits (intOf key) → intOf key < 4294967295 → key.length ≤ 10 := by
    intro hkey hbound
    rw [hkey, digits, List.length_map, Nat.length_toDigits_le_iff (by decide) (by decide)]
    omega
  by_cases h : key = digits (intOf key) ∧ intOf key < 4294967295
  · rw [if_pos h, if_pos ⟨⟨h.1, hlength h.1 h.2⟩, h.2⟩]
  · rw [if_neg h, if_neg fun hall => h ⟨hall.1.1, hall.2⟩]

theorem isSome_arrayIndex (key : CodePoints) : (arrayIndex key).isSome = isIndex key := by
  rw [arrayIndex_eq]
  split <;> simp_all

section

variable {α β : Type}

theorem mergeSort_congr {r s : α → α → Bool} {l : List α} (h : ∀ a ∈ l, ∀ b ∈ l, r a b = s a b) :
    l.mergeSort r = l.mergeSort s := by
  have hmap := List.map_mergeSort (f := id) h
  simpa using hmap

/-- One order of the keys. -/
theorem ownEntries_eq (members : List (CodePoints × α)) :
    ownEntries members = javascriptKeys members := by
  have hnone : ∀ key, (arrayIndex key).isNone = !isIndex key := by
    intro key
    rw [← isSome_arrayIndex, Option.not_isSome]
  simp only [ownEntries, javascriptKeys, isSome_arrayIndex, hnone]
  congr 1
  refine mergeSort_congr fun a ha b hb => ?_
  rw [List.mem_filter] at ha hb
  rw [arrayIndex_eq, arrayIndex_eq, if_pos ha.2, if_pos hb.2, Option.getD_some, Option.getD_some]

/-- The order does not look at the values. -/
theorem javascriptKeys_map (f : CodePoints × α → CodePoints × β) (hf : ∀ member, (f member).1 = member.1)
    (members : List (CodePoints × α)) :
    javascriptKeys (members.map f) = (javascriptKeys members).map f := by
  have hsort := List.map_mergeSort (f := f)
    (r := fun a b : CodePoints × α => decide (intOf a.1 ≤ intOf b.1))
    (s := fun a b : CodePoints × β => decide (intOf a.1 ≤ intOf b.1))
    (l := members.filter fun member => isIndex member.1)
    (by
      intro a _ b _
      rw [hf, hf])
  have hcomp : ∀ p : CodePoints → Bool, (members.map f).filter (fun member => p member.1) =
      (members.filter fun member => p member.1).map f := by
    intro p
    rw [List.filter_map]
    congr 2
    funext member
    exact congrArg p (hf member)
  rw [javascriptKeys, javascriptKeys, List.map_append, hsort, hcomp isIndex,
    hcomp fun key => !isIndex key]

/-- What is in order stays as it is. -/
theorem javascriptKeys_idem (members : List (CodePoints × α)) :
    javascriptKeys (javascriptKeys members) = javascriptKeys members := by
  set sorted := (members.filter fun member => isIndex member.1).mergeSort
    (fun a b => intOf a.1 ≤ intOf b.1) with hsorted
  set others := members.filter fun member => !isIndex member.1 with hothers
  have hfirst : ∀ member ∈ sorted, isIndex member.1 = true := by
    intro member hmem
    rw [hsorted, List.mem_mergeSort, List.mem_filter] at hmem
    exact hmem.2
  have hlast : ∀ member ∈ others, isIndex member.1 = false := by
    intro member hmem
    rw [hothers, List.mem_filter] at hmem
    simpa using hmem.2
  have hindexes : (sorted ++ others).filter (fun member => isIndex member.1) = sorted := by
    rw [List.filter_append, List.filter_eq_self.mpr hfirst,
      List.filter_eq_nil_iff.mpr fun member hmem => by simp [hlast member hmem], List.append_nil]
  have hrest : (sorted ++ others).filter (fun member => !isIndex member.1) = others := by
    rw [List.filter_append, List.filter_eq_nil_iff.mpr fun member hmem => by simp [hfirst member hmem],
      List.filter_eq_self.mpr fun member hmem => by simp [hlast member hmem], List.nil_append]
  have hpairwise : sorted.Pairwise fun a b => decide (intOf a.1 ≤ intOf b.1) = true := by
    refine List.pairwise_mergeSort (fun a b c hab hbc => ?_) (fun a b => ?_) _
    · simp only [decide_eq_true_eq] at hab hbc ⊢
      omega
    · simp only [Bool.or_eq_true, decide_eq_true_eq]
      omega
  have hkeys : javascriptKeys members = sorted ++ others := rfl
  rw [hkeys, javascriptKeys, hindexes, hrest, List.mergeSort_of_pairwise hpairwise]

theorem mem_javascriptKeys {member : CodePoints × α} {members : List (CodePoints × α)} :
    member ∈ javascriptKeys members ↔ member ∈ members := by
  rw [javascriptKeys, List.mem_append, List.mem_mergeSort, List.mem_filter, List.mem_filter]
  cases isIndex member.1 <;> simp

end

end Sbarbase.Settlement.Proofs.Keys
