import Mathlib.Data.List.Induction
import Mathlib.Data.Nat.Notation
import Mathlib.Order.Defs.LinearOrder
import Mathlib.Tactic.Ring
import Sbarbase.Lib.Text
/-!
# Decimal texts

The digits of a number are read back as the number.
-/

namespace Sbarbase.Lib

theorem isDigit_digitChar {d : ℕ} (hd : d < 10) : isDigit (Nat.digitChar d) = true := by
  revert d
  decide

theorem decimal_digitChar {d : ℕ} (hd : d < 10) : decimal [Nat.digitChar d] = d := by
  revert d
  decide

theorem decimal_snoc (digits : List Char) (c : Char) :
    decimal (digits ++ [c]) = 10 * decimal digits + decimal [c] := by
  simp [decimal]

theorem toDigits_step {n : ℕ} (h : 10 ≤ n) :
    Nat.toDigits 10 n = Nat.toDigits 10 (n / 10) ++ [Nat.digitChar (n % 10)] := by
  have hlast : n % 10 < 10 := Nat.mod_lt n (by decide)
  rw [← Nat.toDigits_of_lt_base hlast,
    Nat.toDigits_append_toDigits (by decide) (by omega) hlast, Nat.div_add_mod]

theorem all_isDigit_toDigits (n : ℕ) : (Nat.toDigits 10 n).all isDigit = true := by
  induction n using Nat.strongRecOn with
  | ind n ih =>
      by_cases h : n < 10
      · rw [Nat.toDigits_of_lt_base h, List.all_cons, isDigit_digitChar h]
        rfl
      · rw [toDigits_step (by omega), List.all_append, ih (n / 10) (by omega), List.all_cons,
          isDigit_digitChar (Nat.mod_lt n (by decide))]
        rfl

theorem decimal_toDigits (n : ℕ) : decimal (Nat.toDigits 10 n) = n := by
  induction n using Nat.strongRecOn with
  | ind n ih =>
      by_cases h : n < 10
      · rw [Nat.toDigits_of_lt_base h, decimal_digitChar h]
      · rw [toDigits_step (by omega), decimal_snoc, ih (n / 10) (by omega),
          decimal_digitChar (Nat.mod_lt n (by decide)), Nat.div_add_mod]

theorem digitChar_decimal {c : Char} (h : isDigit c = true) : Nat.digitChar (decimal [c]) = c := by
  simp only [isDigit, Bool.and_eq_true, decide_eq_true_eq, Char.le_def, UInt32.le_iff_toNat_le] at h
  have hlow : 48 ≤ c.toNat := h.1
  have hhigh : c.toNat ≤ 57 := h.2
  have hvalue : decimal [c] = c.toNat - 48 := by simp [decimal]
  apply Char.toNat_inj.mp
  rw [hvalue, Nat.toNat_digitChar_of_lt_ten (by omega)]
  omega

theorem decimal_lt_ten {c : Char} (h : isDigit c = true) : decimal [c] < 10 := by
  simp only [isDigit, Bool.and_eq_true, decide_eq_true_eq, Char.le_def, UInt32.le_iff_toNat_le] at h
  have hhigh : c.toNat ≤ 57 := h.2
  have hvalue : decimal [c] = c.toNat - 48 := by simp [decimal]
  omega

theorem head?_append {text : List Char} (h : text ≠ []) (more : List Char) :
    (text ++ more).head? = text.head? := by
  rw [List.head?_append]
  cases text with
  | nil => exact absurd rfl h
  | cons c text => rfl

/-- A row of digits that does not begin with zero, or is `0`. -/
def IsPlain (text : List Char) : Prop :=
  text ≠ [] ∧ text.all isDigit = true ∧ (text = ['0'] ∨ text.head? ≠ some '0')

/-- The number of a plain row of digits is written as that row. -/
theorem toDigits_decimal {text : List Char} (h : IsPlain text) : Nat.toDigits 10 (decimal text) = text := by
  obtain ⟨hne, hdigits, hlead⟩ := h
  rcases hlead with rfl | hlead
  · decide
  -- from the last digit, with the digits before it above zero
  have hrow : ∀ text : List Char, text ≠ [] → text.all isDigit = true → text.head? ≠ some '0' →
      0 < decimal text ∧ Nat.toDigits 10 (decimal text) = text := by
    intro text
    induction text using List.reverseRecOn with
    | nil => exact fun h => absurd rfl h
    | append_singleton text c ih =>
        intro _ hdigits hlead
        rw [List.all_append, Bool.and_eq_true] at hdigits
        obtain ⟨hbefore, hlast⟩ := hdigits
        have hc : isDigit c = true := by simpa using hlast
        have hlt := decimal_lt_ten hc
        have hchar := digitChar_decimal hc
        rcases List.eq_nil_or_concat text with rfl | ⟨_, _, hconcat⟩
        · have hne : decimal [c] ≠ 0 := by
            intro hzero
            rw [hzero] at hchar
            exact hlead (by rw [← hchar]; rfl)
          refine ⟨Nat.pos_of_ne_zero hne, ?_⟩
          rw [List.nil_append, Nat.toDigits_of_lt_base hlt, hchar]
        · have hne : text ≠ [] := by
            rintro rfl
            simp at hconcat
          have hhead : text.head? ≠ some '0' := by
            rwa [head?_append hne] at hlead
          obtain ⟨hpos, hwritten⟩ := ih hne hbefore hhead
          rw [decimal_snoc]
          refine ⟨by omega, ?_⟩
          rw [toDigits_step (by omega), Nat.mul_add_div (by decide), Nat.div_eq_of_lt hlt,
            Nat.add_zero, Nat.mul_add_mod, Nat.mod_eq_of_lt hlt, hwritten, hchar]
  exact (hrow text hne hdigits hlead).2

/-- A number is written plainly. -/
theorem isPlain_toDigits (n : ℕ) : IsPlain (Nat.toDigits 10 n) := by
  refine ⟨Nat.toDigits_ne_nil, all_isDigit_toDigits n, ?_⟩
  induction n using Nat.strongRecOn with
  | ind n ih =>
      by_cases h : n < 10
      · have hsmall : ∀ d < 10, [Nat.digitChar d] = ['0'] ∨ [Nat.digitChar d].head? ≠ some '0' := by
          decide
        rw [Nat.toDigits_of_lt_base h]
        exact hsmall n h
      · right
        rw [toDigits_step (by omega), head?_append Nat.toDigits_ne_nil]
        rcases ih (n / 10) (by omega) with hzero | hlead
        · have hsame := congrArg decimal hzero
          rw [decimal_toDigits] at hsame
          have hlow : decimal ['0'] = 0 := rfl
          omega
        · exact hlead

/-! ## Rows of one length -/

/-- A number, filled up with zeros on the left: `padStart(width, '0')`. -/
def padded (width n : ℕ) : List Char :=
  List.replicate (width - (Nat.toDigits 10 n).length) '0' ++ Nat.toDigits 10 n

theorem decimal_append (a b : List Char) : decimal (a ++ b) = decimal a * 10 ^ b.length + decimal b := by
  induction b using List.reverseRecOn with
  | nil => simp [decimal]
  | append_singleton b c ih =>
      rw [← List.append_assoc, decimal_snoc, ih, decimal_snoc, List.length_append, List.length_singleton,
        Nat.pow_succ]
      ring

theorem decimal_lt {text : List Char} (h : text.all isDigit = true) : decimal text < 10 ^ text.length := by
  induction text using List.reverseRecOn with
  | nil => simp [decimal]
  | append_singleton text c ih =>
      rw [List.all_append, Bool.and_eq_true] at h
      have hrow := ih h.1
      have hc := decimal_lt_ten (show isDigit c = true by simpa using h.2)
      rw [decimal_snoc, List.length_append, List.length_singleton, Nat.pow_succ]
      omega

theorem length_padded {width n : ℕ} (hwidth : 0 < width) (h : n < 10 ^ width) :
    (padded width n).length = width := by
  have hle := (Nat.length_toDigits_le_iff (by decide : 1 < 10) hwidth).mpr h
  rw [padded, List.length_append, List.length_replicate]
  omega

theorem all_isDigit_padded (width n : ℕ) : (padded width n).all isDigit = true := by
  rw [padded, List.all_append, all_isDigit_toDigits, Bool.and_true, List.all_eq_true]
  intro c hc
  rw [List.eq_of_mem_replicate hc]
  decide

@[simp] theorem decimal_padded (width n : ℕ) : decimal (padded width n) = n := by
  have hzeros : ∀ k, decimal (List.replicate k '0') = 0 := by
    intro k
    induction k with
    | zero => rfl
    | succ k ih => rw [List.replicate_succ', decimal_snoc, ih]; rfl
  rw [padded, decimal_append, hzeros, decimal_toDigits, Nat.zero_mul, Nat.zero_add]

/-- Digits stand in the order of their values. -/
theorem digit_lt {c d : Char} (hc : isDigit c = true) (hd : isDigit d = true) :
    c < d ↔ decimal [c] < decimal [d] := by
  simp only [isDigit, Bool.and_eq_true, decide_eq_true_eq, Char.le_def, UInt32.le_iff_toNat_le] at hc hd
  have hlow : 48 ≤ c.toNat := hc.1
  have hlow' : 48 ≤ d.toNat := hd.1
  have hvalue : decimal [c] = c.toNat - 48 := by simp [decimal]
  have hvalue' : decimal [d] = d.toNat - 48 := by simp [decimal]
  have hlt : c < d ↔ c.toNat < d.toNat := Iff.rfl
  rw [hvalue, hvalue', hlt]
  omega

/-- Rows of digits of one length are ordered as texts the way they are as numbers. -/
theorem lt_iff_decimal {a b : List Char} (hlength : a.length = b.length)
    (ha : a.all isDigit = true) (hb : b.all isDigit = true) : a < b ↔ decimal a < decimal b := by
  induction a generalizing b with
  | nil =>
      obtain rfl := List.length_eq_zero_iff.mp hlength.symm
      exact ⟨fun h => absurd h (List.lt_irrefl _), fun h => absurd h (Nat.lt_irrefl _)⟩
  | cons c a ih =>
      cases b with
      | nil => cases hlength
      | cons d b =>
          rw [List.all_cons, Bool.and_eq_true] at ha hb
          have hlength' : a.length = b.length := Nat.succ.inj hlength
          have hrest := ih hlength' ha.2 hb.2
          have hhead := digit_lt ha.1 hb.1
          have hsmall := decimal_lt ha.2
          have hsmall' := decimal_lt hb.2
          rw [hlength'] at hsmall
          have hsplit : decimal (c :: a) = decimal [c] * 10 ^ b.length + decimal a := by
            rw [← hlength']
            exact decimal_append [c] a
          have hsplit' : decimal (d :: b) = decimal [d] * 10 ^ b.length + decimal b := decimal_append [d] b
          rw [List.cons_lt_cons_iff, hhead, hrest, hsplit, hsplit']
          rcases lt_trichotomy (decimal [c]) (decimal [d]) with h | h | h
          · have hstep := Nat.mul_le_mul_right (10 ^ b.length) (Nat.succ_le_of_lt h)
            rw [Nat.succ_mul] at hstep
            exact ⟨fun _ => by omega, fun _ => Or.inl h⟩
          · have hsame : c = d := by
              rw [← digitChar_decimal ha.1, ← digitChar_decimal hb.1, h]
            rw [h]
            constructor
            · rintro (hlt | ⟨-, hlt⟩)
              · exact absurd hlt (lt_irrefl _)
              · exact Nat.add_lt_add_left hlt _
            · exact fun hlt => Or.inr ⟨hsame, Nat.lt_of_add_lt_add_left hlt⟩
          · have hstep := Nat.mul_le_mul_right (10 ^ b.length) (Nat.succ_le_of_lt h)
            rw [Nat.succ_mul] at hstep
            constructor
            · rintro (hlt | ⟨rfl, -⟩)
              · omega
              · exact absurd h (lt_irrefl _)
            · intro hlt
              omega

theorem toList_toString (n : ℕ) : (toString n).toList = Nat.toDigits 10 n := by
  rw [Nat.toString_eq_ofList_toDigits, String.toList_ofList]

end Sbarbase.Lib
