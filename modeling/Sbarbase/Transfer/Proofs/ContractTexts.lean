import Sbarbase.Transfer.Contract
import Mathlib.Tactic.IntervalCases
/-!
# The identifiers of a binding

One side reads an identifier as a number and writes it back, the other matches it
against a pattern. Both take the same texts.
-/

namespace Sbarbase.Transfer.Proofs.ContractTexts

open Lib Contract

/-! ## Patterns -/

theorem matchesAll_append {p : ℕ → Bool} {n : ℕ} {rest : List ((ℕ → Bool) × ℕ)}
    {piece tail : CodePoints} (hlength : piece.length = n) (hall : piece.all p = true) :
    matchesAll ((p, n) :: rest) (piece ++ tail) = matchesAll rest tail := by
  subst hlength
  rw [matchesAll, List.take_left, List.drop_left, hall]
  simp

theorem exists_of_matchesAll {p : ℕ → Bool} {n : ℕ} {rest : List ((ℕ → Bool) × ℕ)}
    {text : CodePoints} (h : matchesAll ((p, n) :: rest) text = true) :
    ∃ piece tail, text = piece ++ tail ∧ piece.length = n ∧ piece.all p = true ∧
      matchesAll rest tail = true := by
  rw [matchesAll, Bool.and_eq_true, Bool.and_eq_true, decide_eq_true_eq] at h
  exact ⟨text.take n, text.drop n, (List.take_append_drop n text).symm, h.1.1, h.1.2, h.2⟩

/-- One character of a class of one. -/
theorem eq_of_all_is {c : Char} {piece : CodePoints} (hlength : piece.length = 1)
    (hall : piece.all (is c) = true) : piece = [c.toNat] := by
  obtain ⟨a, rfl⟩ := List.length_eq_one_iff.mp hlength
  have ha : a = c.toNat := by simpa [is] using hall
  rw [ha]

/-! ## Hexadecimal digits -/

def hexVal (c : ℕ) : ℕ := if isDigitPoint c then c - 48 else c - 87

theorem isHexPoint_iff {c : ℕ} : isHexPoint c = true ↔ (48 ≤ c ∧ c ≤ 57) ∨ (97 ≤ c ∧ c ≤ 102) := by
  simp [isHexPoint, isDigitPoint]

theorem hexVal_lt {c : ℕ} (h : isHexPoint c = true) : hexVal c < 16 := by
  rw [isHexPoint_iff] at h
  simp only [hexVal, isDigitPoint, Bool.and_eq_true, decide_eq_true_eq]
  split <;> omega

theorem hexPoint_hexVal {c : ℕ} (h : isHexPoint c = true) : Python.hexPoint (hexVal c) = c := by
  rw [isHexPoint_iff] at h
  simp only [hexVal, isDigitPoint, Bool.and_eq_true, decide_eq_true_eq, Python.hexPoint]
  split <;> split <;> omega

theorem isHexPoint_hexPoint {d : ℕ} (h : d < 16) : isHexPoint (Python.hexPoint d) = true := by
  rw [isHexPoint_iff, Python.hexPoint]
  split <;> omega

theorem hexDigit_of_isHexPoint (unicode : Python.Unicode) {c : ℕ} (h : isHexPoint c = true) :
    Python.hexDigit unicode c = some (hexVal c) := by
  rw [isHexPoint_iff] at h
  simp only [Python.hexDigit, hexVal, isDigitPoint, Bool.and_eq_true, decide_eq_true_eq]
  split_ifs <;> first | rfl | omega

/-- The number of a row of hexadecimal digits. -/
def hexNumber (text : CodePoints) : ℕ := text.foldl (fun n c => 16 * n + hexVal c) 0

theorem hexValue_eq (unicode : Python.Unicode) {text : CodePoints}
    (h : ∀ c ∈ text, isHexPoint c = true) (value : ℕ) (after : Bool)
    (hsome : text ≠ [] ∨ after = true) :
    Python.hexValue unicode value after text =
      some (text.foldl (fun n c => 16 * n + hexVal c) value) := by
  induction text generalizing value after with
  | nil =>
      rcases hsome with hne | rfl
      · exact absurd rfl hne
      · rfl
  | cons c rest ih =>
      have hc := h c List.mem_cons_self
      have hunderscore : c ≠ 95 := by
        rw [isHexPoint_iff] at hc
        omega
      rw [Python.hexValue, if_neg hunderscore, hexDigit_of_isHexPoint unicode hc]
      exact ih (fun d hd => h d (List.mem_cons_of_mem _ hd)) _ true (.inr rfl)

theorem hexText_hexNumber {text : CodePoints} (h : ∀ c ∈ text, isHexPoint c = true) :
    hexNumber text < 16 ^ text.length ∧ Python.hexText text.length (hexNumber text) = text := by
  induction text using List.reverseRecOn with
  | nil => exact ⟨by decide, rfl⟩
  | append_singleton text c ih =>
      obtain ⟨hbound, htext⟩ := ih fun d hd => h d (List.mem_append_left _ hd)
      have hc := h c (by simp)
      have hvalue := hexVal_lt hc
      have hnumber : hexNumber (text ++ [c]) = 16 * hexNumber text + hexVal c := by
        simp [hexNumber]
      rw [hnumber, List.length_append, List.length_singleton]
      constructor
      · rw [Nat.pow_succ]
        omega
      · have hdiv : (16 * hexNumber text + hexVal c) / 16 = hexNumber text := by omega
        have hmod : (16 * hexNumber text + hexVal c) % 16 = hexVal c := by omega
        rw [Python.hexText, hdiv, hmod, htext, hexPoint_hexVal hc]

theorem length_hexText (n value : ℕ) : (Python.hexText n value).length = n := by
  induction n generalizing value with
  | zero => rfl
  | succ n ih => rw [Python.hexText, List.length_append, ih, List.length_singleton]

theorem all_hexText (n value : ℕ) : ∀ c ∈ Python.hexText n value, isHexPoint c = true := by
  induction n generalizing value with
  | zero => simp [Python.hexText]
  | succ n ih =>
      intro c hc
      rw [Python.hexText, List.mem_append] at hc
      rcases hc with hc | hc
      · exact ih _ c hc
      · rw [List.mem_singleton.mp hc]
        exact isHexPoint_hexPoint (Nat.mod_lt _ (by decide))

/-! ## What `uuid.UUID` makes of a text -/

theorem removeAll_of_not_mem {pattern text : CodePoints} {c : ℕ} (hpattern : c ∈ pattern)
    (htext : c ∉ text) : Python.removeAll pattern 0 text = text := by
  induction text with
  | nil => rfl
  | cons d rest ih =>
      have hnot : pattern.isPrefixOf (d :: rest) = false := by
        rw [Bool.eq_false_iff]
        intro hprefix
        exact htext ((List.isPrefixOf_iff_prefix.mp hprefix).subset hpattern)
      rw [Python.removeAll, hnot]
      rw [if_neg (by decide), ih fun hmem => htext (List.mem_cons_of_mem _ hmem)]

theorem stripAll_of_not {p : ℕ → Bool} {text : CodePoints} (h : ∀ c ∈ text, p c = false) :
    Python.stripAll p text = text := by
  have hkeep : ∀ l : CodePoints, (∀ c ∈ l, p c = false) → l.dropWhile p = l := by
    intro l hl
    cases l with
    | nil => rfl
    | cons c l => rw [List.dropWhile_cons, hl c List.mem_cons_self, if_neg (by decide)]
  rw [Python.stripAll, hkeep text h,
    hkeep text.reverse fun c hc => h c (List.mem_reverse.mp hc), List.reverse_reverse]

theorem prefixedValue_eq (unicode : Python.Unicode) {text : CodePoints} (hne : text ≠ [])
    (h : ∀ c ∈ text, isHexPoint c = true) :
    Python.prefixedValue unicode text = some (hexNumber text) := by
  have hx : 120 ∉ text ∧ 88 ∉ text :=
    ⟨fun hmem => absurd (h 120 hmem) (by decide), fun hmem => absurd (h 88 hmem) (by decide)⟩
  unfold Python.prefixedValue
  split
  · exact absurd (by simp) hx.1
  · exact absurd (by simp) hx.2
  · exact absurd (by simp) hx.1
  · exact absurd (by simp) hx.2
  · exact hexValue_eq unicode h 0 false (.inl hne)

theorem intBase16_eq (unicode : Python.Unicode) {text : CodePoints} (hne : text ≠ [])
    (h : ∀ c ∈ text, isHexPoint c = true) :
    Python.intBase16 unicode text = some (hexNumber text : ℤ) := by
  have hstrip : Python.stripAll (Python.isSpace unicode) text = text := by
    refine stripAll_of_not fun c hc => ?_
    have hrange := isHexPoint_iff.mp (h c hc)
    rw [Python.isSpace, if_pos (by omega)]
    simp only [Bool.or_eq_false_iff, Bool.and_eq_false_iff, decide_eq_false_iff_not]
    omega
  have hsigns : 43 ∉ text ∧ 45 ∉ text :=
    ⟨fun hmem => absurd (h 43 hmem) (by decide), fun hmem => absurd (h 45 hmem) (by decide)⟩
  rw [Python.intBase16, hstrip]
  split
  · exact absurd (by simp) hsigns.1
  · exact absurd (by simp) hsigns.2
  · rw [prefixedValue_eq unicode hne h]
    rfl

/-- A text of the pattern, cut at its dashes. -/
theorem exists_pieces {text : CodePoints} (h : matchesAll TypeScript.UUID text = true) :
    ∃ a b c d e : CodePoints, text = a ++ 45 :: (b ++ 45 :: (c ++ 45 :: (d ++ 45 :: e))) ∧
      a.length = 8 ∧ b.length = 4 ∧ c.length = 4 ∧ d.length = 4 ∧ e.length = 12 ∧
      ∀ x ∈ a ++ b ++ c ++ d ++ e, isHexPoint x = true := by
  obtain ⟨a, t, rfl, ha, hall_a, h⟩ := exists_of_matchesAll h
  obtain ⟨s₁, t, rfl, hs₁, hdash₁, h⟩ := exists_of_matchesAll h
  obtain ⟨b, t, rfl, hb, hall_b, h⟩ := exists_of_matchesAll h
  obtain ⟨s₂, t, rfl, hs₂, hdash₂, h⟩ := exists_of_matchesAll h
  obtain ⟨c, t, rfl, hc, hall_c, h⟩ := exists_of_matchesAll h
  obtain ⟨s₃, t, rfl, hs₃, hdash₃, h⟩ := exists_of_matchesAll h
  obtain ⟨d, t, rfl, hd, hall_d, h⟩ := exists_of_matchesAll h
  obtain ⟨s₄, t, rfl, hs₄, hdash₄, h⟩ := exists_of_matchesAll h
  obtain ⟨e, t, rfl, he, hall_e, h⟩ := exists_of_matchesAll h
  have hend : t = [] := by simpa [matchesAll] using h
  refine ⟨a, b, c, d, e, ?_, ha, hb, hc, hd, he, ?_⟩
  · rw [eq_of_all_is hs₁ hdash₁, eq_of_all_is hs₂ hdash₂, eq_of_all_is hs₃ hdash₃,
      eq_of_all_is hs₄ hdash₄, hend]
    simp
  · simp only [List.all_eq_true] at hall_a hall_b hall_c hall_d hall_e
    intro x hx
    simp only [List.mem_append] at hx
    rcases hx with (((hx | hx) | hx) | hx) | hx
    · exact hall_a x hx
    · exact hall_b x hx
    · exact hall_c x hx
    · exact hall_d x hx
    · exact hall_e x hx

/-- A text of the pattern is read as the number of its digits, and written back as it was. -/
theorem uuidInt_of_matches (unicode : Python.Unicode) {text : CodePoints}
    (h : matchesAll TypeScript.UUID text = true) :
    Python.uuidInt unicode text = some (hexNumber (text.filter fun c => decide (c ≠ 45))) ∧
      Python.uuidText (hexNumber (text.filter fun c => decide (c ≠ 45))) = text := by
  obtain ⟨a, b, c, d, e, rfl, ha, hb, hc, hd, he, hall⟩ := exists_pieces h
  set hex := a ++ b ++ c ++ d ++ e with hhex
  set text := a ++ 45 :: (b ++ 45 :: (c ++ 45 :: (d ++ 45 :: e))) with htext
  have hlength : hex.length = 32 := by
    simp only [hhex, List.length_append]
    omega
  have hchars : ∀ x ∈ text, x = 45 ∨ isHexPoint x = true := by
    intro x hx
    simp only [htext, List.mem_append, List.mem_cons] at hx
    have hmem : x = 45 ∨ x ∈ hex := by
      simp only [hhex, List.mem_append]
      tauto
    exact hmem.imp id (hall x)
  have hnot : ∀ x, x ≠ 45 → isHexPoint x = false → x ∉ text := by
    intro x hdash hhexpoint hmem
    rcases hchars x hmem with heq | hpoint
    · exact hdash heq
    · rw [hhexpoint] at hpoint
      cases hpoint
  have hremove : ∀ pattern : CodePoints, 58 ∈ pattern → Python.removeAll pattern 0 text = text :=
    fun pattern hpattern => removeAll_of_not_mem hpattern (hnot 58 (by decide) (by decide))
  have hstrip : Python.stripAll (fun c => c = 123 || c = 125) text = text := by
    refine stripAll_of_not fun x hx => ?_
    rcases hchars x hx with rfl | hpoint
    · decide
    · rw [isHexPoint_iff] at hpoint
      simp only [Bool.or_eq_false_iff, decide_eq_false_iff_not]
      omega
  have hkeep : ∀ l : CodePoints, (∀ x ∈ l, isHexPoint x = true) →
      l.filter (fun c => decide (c ≠ 45)) = l := by
    intro l hl
    refine List.filter_eq_self.mpr fun x hx => ?_
    have hrange := isHexPoint_iff.mp (hl x hx)
    simp only [decide_eq_true_eq]
    omega
  have hfilter : text.filter (fun c => decide (c ≠ 45)) = hex := by
    have hpart : ∀ l : CodePoints, l ⊆ hex → l.filter (fun c => decide (c ≠ 45)) = l :=
      fun l hl => hkeep l fun x hx => hall x (hl hx)
    simp only [htext, List.filter_append, List.filter_cons]
    rw [hpart a (by intro x hx; simp [hhex, hx]), hpart b (by intro x hx; simp [hhex, hx]),
      hpart c (by intro x hx; simp [hhex, hx]), hpart d (by intro x hx; simp [hhex, hx]),
      hpart e (by intro x hx; simp [hhex, hx])]
    simp [hhex]
  have hne : hex ≠ [] := by
    intro hempty
    rw [hempty] at hlength
    cases hlength
  obtain ⟨hbound, hdigits⟩ := hexText_hexNumber hall
  rw [hlength] at hbound hdigits
  have hrange : (0 : ℤ) ≤ (hexNumber hex : ℤ) ∧ (hexNumber hex : ℤ) < 2 ^ 128 := by
    have h16 : (16 : ℕ) ^ 32 = 2 ^ 128 := by decide
    rw [h16] at hbound
    exact ⟨by omega, by exact_mod_cast hbound⟩
  rw [hfilter]
  constructor
  · simp only [Python.uuidInt]
    rw [hremove _ (by decide), hremove _ (by decide), hstrip, hfilter, if_pos hlength,
      intBase16_eq unicode hne hall]
    simp only [if_pos hrange, Int.toNat_natCast]
  · rw [Python.uuidText, hdigits, hhex, htext]
    have htake : ∀ (l : CodePoints) (n : ℕ), l.length ≤ n → l.take n = l ∧ l.drop n = [] :=
      fun l n hn => ⟨List.take_of_length_le hn, List.drop_eq_nil_of_le hn⟩
    simp [List.drop_append, ha, hb, hc, hd, htake a, htake b, htake c]

/-- What is written back is of the pattern. -/
theorem matches_uuidText (n : ℕ) : matchesAll TypeScript.UUID (Python.uuidText n) = true := by
  have hlength := length_hexText 32 n
  have hpiece : ∀ (i k : ℕ), i + k ≤ 32 → (((Python.hexText 32 n).drop i).take k).length = k ∧
      (((Python.hexText 32 n).drop i).take k).all isHexPoint = true := by
    intro i k hik
    rw [List.length_take, List.length_drop, hlength, List.all_eq_true]
    refine ⟨by omega, fun c hc => ?_⟩
    exact all_hexText 32 n c (List.mem_of_mem_drop (List.mem_of_mem_take hc))
  have hlast : (Python.hexText 32 n).drop 20 = ((Python.hexText 32 n).drop 20).take 12 := by
    rw [List.take_of_length_le]
    rw [List.length_drop, hlength]
  have hfirst := hpiece 0 8 (by decide)
  rw [List.drop_zero] at hfirst
  have hdash : ([45] : CodePoints).length = 1 ∧ ([45] : CodePoints).all (is '-') = true := by
    decide
  rw [Python.uuidText]
  simp only [List.append_assoc]
  rw [TypeScript.UUID, matchesAll_append hfirst.1 hfirst.2, matchesAll_append hdash.1 hdash.2,
    matchesAll_append (hpiece 8 4 (by decide)).1 (hpiece 8 4 (by decide)).2,
    matchesAll_append hdash.1 hdash.2,
    matchesAll_append (hpiece 12 4 (by decide)).1 (hpiece 12 4 (by decide)).2,
    matchesAll_append hdash.1 hdash.2,
    matchesAll_append (hpiece 16 4 (by decide)).1 (hpiece 16 4 (by decide)).2,
    matchesAll_append hdash.1 hdash.2, hlast,
    ← List.append_nil (((Python.hexText 32 n).drop 20).take 12),
    matchesAll_append (hpiece 20 12 (by decide)).1 (hpiece 20 12 (by decide)).2]
  rfl

def zeroUuid : CodePoints := codePoints "00000000-0000-0000-0000-000000000000"

theorem uuidText_zero : Python.uuidText 0 = zeroUuid := by decide

theorem uuidInt_zero (unicode : Python.Unicode) : Python.uuidInt unicode zeroUuid = some 0 := by
  rw [(uuidInt_of_matches unicode (by decide)).1]
  decide

/-- The two tests of an identifier. -/
theorem uuid_eq (unicode : Python.Unicode) (text : CodePoints) :
    Python._uuid unicode (.text text) = TypeScript.uuid (some (.text text)) := by
  simp only [Python._uuid, TypeScript.uuid, TypeScript.matchesPattern, TypeScript.asText, ne_eq,
    Option.some.injEq]
  by_cases hmatch : matchesAll TypeScript.UUID text = true
  · obtain ⟨hint, hback⟩ := uuidInt_of_matches unicode hmatch
    set n := hexNumber (text.filter fun c => decide (c ≠ 45))
    have hzero : n = 0 ↔ text = zeroUuid := by
      constructor
      · intro hn
        rw [← hback, hn, uuidText_zero]
      · intro htext
        rw [htext, uuidInt_zero] at hint
        exact (Option.some.inj hint).symm
    simp only [hint, hmatch, hback, zeroUuid] at hzero ⊢
    simp [hzero]
  · rw [Bool.not_eq_true] at hmatch
    rw [hmatch, Bool.false_and]
    cases hint : Python.uuidInt unicode text with
    | none => rfl
    | some n =>
        have hne : Python.uuidText n ≠ text := by
          rintro rfl
          rw [matches_uuidText] at hmatch
          cases hmatch
        simp [hne]

/-! ## Native identities -/

theorem decimalValue_lt_pow {text : CodePoints} (h : ∀ c ∈ text, isDigitPoint c = true) :
    decimalValue text < 10 ^ text.length := by
  induction text using List.reverseRecOn with
  | nil => decide
  | append_singleton text c ih =>
      have hlast := h c (by simp)
      simp only [isDigitPoint, Bool.and_eq_true, decide_eq_true_eq] at hlast
      have hrest := ih fun d hd => h d (List.mem_append_left _ hd)
      have hvalue : decimalValue (text ++ [c]) = 10 * decimalValue text + (c - 48) := by
        simp [decimalValue]
      rw [hvalue, List.length_append, List.length_singleton, Nat.pow_succ]
      omega

theorem decimalValue_lt {text : CodePoints} (h : matchesOid text = true) :
    decimalValue text < 2 ^ 53 := by
  cases text with
  | nil => decide
  | cons c rest =>
      simp only [matchesOid, Bool.and_eq_true, decide_eq_true_eq, List.all_eq_true] at h
      obtain ⟨⟨hfirst, hlength⟩, hrest⟩ := h
      have hbound := (decimalValue_lt_pow : (∀ d ∈ c :: rest, isDigitPoint d = true) → _) (by
        intro d hd
        rcases List.mem_cons.mp hd with rfl | hd
        · simp only [isDigitPoint, Bool.and_eq_true, decide_eq_true_eq]
          omega
        · exact hrest d hd)
      have hpow : 10 ^ (c :: rest).length ≤ 10 ^ 10 := by
        refine Nat.pow_le_pow_right (by decide) ?_
        rw [List.length_cons]
        omega
      omega

/-- A row of at most ten digits is a double itself. -/
theorem oid_eq (text : CodePoints) :
    Python._oid (.text text) = TypeScript.oid (some (.text text)) := by
  simp only [Python._oid, TypeScript.oid, TypeScript.asText, TypeScript.numberAtMost]
  by_cases hmatch : matchesOid text = true
  · rw [Double.ofRat, Double.roundMagnitude_natCast (decimalValue_lt hmatch)]
    congr 1
    rw [decide_eq_decide]
    exact_mod_cast Iff.rfl
  · rw [Bool.not_eq_true] at hmatch
    rw [hmatch, Bool.false_and, Bool.false_and]

end Sbarbase.Transfer.Proofs.ContractTexts
