import Mathlib.Data.Int.Log
import Mathlib.Data.Rat.Floor
import Mathlib.Tactic.Linarith
import Mathlib.Tactic.Positivity
import Mathlib.Tactic.FieldSimp
/-!
# Numbers as doubles

What a decimal literal becomes as a double: the nearest one, the even one of two
that are equally near. Only the whole numbers below `2 ^ 53` are looked at more
closely: they are doubles themselves, and nothing larger comes to lie among them.
-/

namespace Sbarbase.Lib

/-- The nearest whole number, the even one half way between two. -/
def roundHalfEven (q : ℚ) : ℤ :=
  let below := ⌊q⌋
  if q - below < 1 / 2 then below
  else if 1 / 2 < q - below then below + 1
  else if below % 2 = 0 then below else below + 1

/-- A double: its sign, and its magnitude, none for an infinity. -/
structure Double where
  negative : Bool
  magnitude : Option ℚ

namespace Double

/-- The distance between doubles around `q`. -/
def ulp (q : ℚ) : ℚ := 2 ^ (max (Int.log 2 q) (-1022) - 52)

def roundMagnitude (q : ℚ) : Option ℚ :=
  let rounded := roundHalfEven (q / ulp q) * ulp q
  if rounded < 2 ^ 1024 then some rounded else none

def ofRat (negative : Bool) (q : ℚ) : Double := ⟨negative, roundMagnitude q⟩

/-- `Number.isSafeInteger`, with the integer. -/
def safeInteger (d : Double) : Option ℤ :=
  match d.magnitude with
  | none => none
  | some q =>
    if q.den = 1 ∧ q.num.natAbs ≤ 9007199254740991 then
      some (if d.negative then -q.num else q.num)
    else none

/-- `Object.is(value, -0)`. -/
def isNegativeZero (d : Double) : Bool := d.negative && d.magnitude = some 0

end Double

/-! ## Whole numbers -/

theorem roundHalfEven_intCast (n : ℤ) : roundHalfEven n = n := by
  simp [roundHalfEven]

theorem le_roundHalfEven {q : ℚ} {n : ℤ} (h : n ≤ q) : n ≤ roundHalfEven q := by
  have hfloor : n ≤ ⌊q⌋ := Int.le_floor.mpr h
  unfold roundHalfEven
  dsimp only
  split_ifs <;> omega

namespace Double

theorem ulp_pos (q : ℚ) : 0 < ulp q := zpow_pos (by norm_num) _

/-- A whole number below `2 ^ 53` is a multiple of the distance around it. -/
theorem natCast_div_ulp {n : ℕ} (h : n < 2 ^ 53) : ∃ m : ℤ, (n : ℚ) / ulp n = m := by
  have hlog : Int.log 2 (n : ℚ) ≤ 52 := by
    rw [Int.log_natCast]
    have := Nat.log_lt_of_lt_pow' (b := 2) (by decide : 53 ≠ 0) h
    omega
  set e := max (Int.log 2 (n : ℚ)) (-1022) - 52 with he
  have hneg : e ≤ 0 := by omega
  refine ⟨n * 2 ^ (-e).toNat, ?_⟩
  have hpow : (2 : ℚ) ^ e = ((2 : ℚ) ^ (-e).toNat)⁻¹ := by
    rw [← zpow_natCast, ← zpow_neg]
    congr 1
    omega
  rw [ulp, ← he, hpow, div_inv_eq_mul]
  push_cast
  ring

theorem roundMagnitude_natCast {n : ℕ} (h : n < 2 ^ 53) : roundMagnitude n = some (n : ℚ) := by
  obtain ⟨m, hm⟩ := natCast_div_ulp h
  have hexact : (roundHalfEven ((n : ℚ) / ulp n) : ℚ) * ulp n = n := by
    rw [hm, roundHalfEven_intCast, ← hm, div_mul_cancel₀ _ (ulp_pos _).ne']
  have hbound : (n : ℚ) < 2 ^ 1024 := by
    calc (n : ℚ) < 2 ^ 53 := by exact_mod_cast h
      _ < 2 ^ 1024 := pow_lt_pow_right₀ (by norm_num) (by norm_num)
  rw [roundMagnitude, hexact, if_pos hbound]

/-- Nothing from `2 ^ 53` on is rounded below it. -/
theorem le_of_roundMagnitude {q r : ℚ} (h : 2 ^ 53 ≤ q) (hr : roundMagnitude q = some r) :
    2 ^ 53 ≤ r := by
  have hpos : 0 < q := lt_of_lt_of_le (by norm_num) h
  have hlog : 53 ≤ Int.log 2 q := (Int.zpow_le_iff_le_log (by decide) hpos).mp (by exact_mod_cast h)
  have hulp : ulp q = 2 ^ (Int.log 2 q - 52) := by
    rw [ulp, max_eq_left (by omega)]
  have hself : (2 : ℚ) ^ Int.log 2 q ≤ q := by
    have := Int.zpow_log_le_self (b := 2) (by decide) hpos
    exact_mod_cast this
  have hquotient : ((2 ^ 52 : ℤ) : ℚ) ≤ q / ulp q := by
    rw [le_div_iff₀ (ulp_pos q), hulp]
    calc ((2 ^ 52 : ℤ) : ℚ) * 2 ^ (Int.log 2 q - 52) = 2 ^ Int.log 2 q := by
          rw [zpow_sub₀ (by norm_num)]
          push_cast
          field_simp
      _ ≤ q := hself
  have hrounded := le_roundHalfEven hquotient
  simp only [roundMagnitude] at hr
  split at hr
  · obtain rfl := Option.some.inj hr
    have hfirst : ((2 ^ 52 : ℤ) : ℚ) ≤ roundHalfEven (q / ulp q) := by exact_mod_cast hrounded
    have hsecond : (2 : ℚ) ≤ ulp q := by
      rw [hulp]
      calc (2 : ℚ) = 2 ^ (1 : ℤ) := by norm_num
        _ ≤ 2 ^ (Int.log 2 q - 52) := zpow_le_zpow_right₀ (by norm_num) (by omega)
    calc (2 : ℚ) ^ 53 = ((2 ^ 52 : ℤ) : ℚ) * 2 := by norm_num
      _ ≤ _ := mul_le_mul hfirst hsecond (by norm_num) (le_trans (by norm_num) hfirst)
  · cases hr

/-- The whole numbers in range are read as they are, and no other one is in range. -/
theorem safeInteger_ofRat (negative : Bool) (n : ℕ) : (ofRat negative n).safeInteger =
      if n ≤ 9007199254740991 then some (if negative then -(n : ℤ) else n) else none := by
  by_cases h : n ≤ 9007199254740991
  · have hn : n < 2 ^ 53 := by omega
    rw [if_pos h, ofRat, safeInteger, roundMagnitude_natCast hn]
    simp [h]
  · rw [if_neg h]
    have hn : (2 : ℚ) ^ 53 ≤ n := by exact_mod_cast (by omega : 2 ^ 53 ≤ n)
    cases hr : roundMagnitude (n : ℚ) with
    | none => simp only [ofRat, safeInteger, hr]
    | some r =>
        have hle := le_of_roundMagnitude hn hr
        have hout : ¬ (r.den = 1 ∧ r.num.natAbs ≤ 9007199254740991) := by
          rintro ⟨hden, hnum⟩
          have hcast : (2 : ℚ) ^ 53 ≤ r.num := by rwa [Rat.coe_int_num_of_den_eq_one hden]
          have hint : (2 : ℤ) ^ 53 ≤ r.num := by exact_mod_cast hcast
          omega
        simp only [ofRat, safeInteger, hr]
        rw [if_neg hout]

/-- What is read as a safe integer is one. -/
theorem natAbs_le_of_safeInteger {d : Double} {n : ℤ} (h : d.safeInteger = some n) :
    n.natAbs ≤ 9007199254740991 := by
  unfold safeInteger at h
  split at h
  · cases h
  · split at h
    · next q _ hrange =>
        have hn := Option.some.inj h
        have habs : n.natAbs = q.num.natAbs := by
          rw [← hn]
          split
          · exact Int.natAbs_neg _
          · rfl
        rw [habs]
        exact hrange.2
    · cases h

theorem isNegativeZero_ofRat (negative : Bool) {n : ℕ} (h : n ≤ 9007199254740991) :
    (ofRat negative n).isNegativeZero = (negative && n = 0) := by
  rw [ofRat, isNegativeZero, roundMagnitude_natCast (by omega)]
  simp

end Double

end Sbarbase.Lib
