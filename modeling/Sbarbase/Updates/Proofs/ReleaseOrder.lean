import Mathlib.Tactic.SplitIfs
import Sbarbase.Lib.Checked
import Sbarbase.Lib.Decimal
import Sbarbase.Updates.Release
/-!
# The order of releases

The tuple of `key` compares as precedence does, item by item. What `parse` takes
is a semantic version where the digits of its numbers are ASCII and no numeric
identifier begins with a zero.
-/

namespace Sbarbase.Updates.Proofs.ReleaseOrder

open Lib Lib.Checked Updates.Release

/-! ## Keys -/

/-- What `key` makes of an identifier that is read. -/
def identifierTuple : Identifier → IdentifierKey
  | .numeric n => toLex (0, toLex (n, []))
  | .alphanumeric text => toLex (1, toLex (0, text))

/-- What `key` makes of a version that is read. -/
def tuple (v : Version) : Key :=
  toLex (v.major, toLex (v.minor, toLex (v.patch,
    toLex (if v.pre = [] then 1 else 0, v.pre.map identifierTuple))))

theorem identifierTuple_lt {a b : Identifier} : identifierTuple a < identifierTuple b ↔ a.Below b := by
  cases a <;> cases b <;> simp [identifierTuple, Identifier.Below, Prod.Lex.toLex_lt_toLex]

theorem identifierTuple_inj : Function.Injective identifierTuple := by
  intro a b h
  cases a <;> cases b <;> simp_all [identifierTuple]

theorem identifierTuples_lt {as bs : List Identifier} :
    as.map identifierTuple < bs.map identifierTuple ↔ AllBelow as bs := by
  induction as generalizing bs with
  | nil => cases bs <;> simp [AllBelow]
  | cons a as ih =>
      cases bs with
      | nil => simp [AllBelow]
      | cons b bs =>
          rw [List.map_cons, List.map_cons, List.cons_lt_cons_iff, identifierTuple_lt, ih,
            identifierTuple_inj.eq_iff, AllBelow]

/-- Keys compare as versions do. -/
theorem tuple_lt {v w : Version} : tuple v < tuple w ↔ v.Below w := by
  have hpre : toLex ((if v.pre = [] then 1 else 0 : ℕ), v.pre.map identifierTuple) <
      toLex ((if w.pre = [] then 1 else 0 : ℕ), w.pre.map identifierTuple) ↔
      v.pre ≠ [] ∧ (w.pre = [] ∨ AllBelow v.pre w.pre) := by
    rw [Prod.Lex.toLex_lt_toLex]
    dsimp only
    rw [identifierTuples_lt]
    by_cases hv : v.pre = []
    · by_cases hw : w.pre = []
      · simp [hv, hw, AllBelow]
      · simp [hv, hw]
    · by_cases hw : w.pre = []
      · simp [hv, hw]
      · simp [hv, hw]
  rw [tuple, tuple, Prod.Lex.toLex_lt_toLex, Version.Below]
  dsimp only
  rw [Prod.Lex.toLex_lt_toLex]
  dsimp only
  rw [Prod.Lex.toLex_lt_toLex]
  dsimp only
  rw [hpre]

theorem tuple_inj : Function.Injective tuple := by
  rintro ⟨_, _, _, pre⟩ ⟨_, _, _, pre'⟩ h
  simp only [tuple, toLex_inj, Prod.mk.injEq] at h
  obtain ⟨rfl, rfl, rfl, _, hpre⟩ := h
  rw [(List.map_inj_right fun _ _ heq => identifierTuple_inj heq).mp hpre]

/-! ## Numbers -/

section

variable {py : Digits} {text : List Char}

theorem isDigit_lt {c : Char} (h : isDigit c = true) : c.toNat < 128 := by
  simp only [isDigit, Bool.and_eq_true, decide_eq_true_eq, Char.le_def, UInt32.le_iff_toNat_le] at h
  have hhigh : c.toNat ≤ 57 := h.2
  omega

theorem isDecimal_ascii {c : Char} (h : c.toNat < 128) : py.isDecimal c = isDigit c := by
  rw [Digits.isDecimal, py.ascii c h]
  cases isDigit c <;> rfl

/-- A number of the pattern whose digits are ASCII is plain, and the other way round. -/
theorem isNumber_iff (hascii : ∀ c ∈ text, c.toNat < 128) : isNumber py text = true ↔ IsPlain text := by
  unfold isNumber IsPlain
  cases text with
  | nil => simp
  | cons c rest =>
      have hrest : rest.all py.isDecimal = rest.all isDigit := by
        rw [Bool.eq_iff_iff, List.all_eq_true, List.all_eq_true]
        exact forall₂_congr fun d hd => by rw [isDecimal_ascii (hascii d (List.mem_cons_of_mem _ hd))]
      dsimp only
      rw [hrest]
      simp only [Bool.or_eq_true, Bool.and_eq_true, decide_eq_true_eq, List.all_cons, List.head?_cons,
        ne_eq, Option.some.injEq, reduceCtorEq, not_false_eq_true, true_and]
      constructor
      · rintro (h | ⟨⟨hc, hzero⟩, hrest⟩)
        · obtain ⟨rfl, rfl⟩ := List.cons.inj h
          exact ⟨by decide, .inl rfl⟩
        · exact ⟨⟨hc, hrest⟩, .inr hzero⟩
      · rintro ⟨⟨hc, hrest⟩, h | hzero⟩
        · exact .inl h
        · exact .inr ⟨⟨hc, hzero⟩, hrest⟩

theorem int_digits (h : text.all isDigit = true) :
    py.int text = if py.limit.all (text.length ≤ ·) then .ok (decimal text)
      else .error "Exceeds the limit for integer string conversion" := by
  have hfold : ∀ start : ℕ, text.foldl (fun n c => 10 * n + (py.value c).getD 0) start =
      text.foldl (fun n c => 10 * n + (c.toNat - '0'.toNat)) start := by
    induction text with
    | nil => exact fun _ => rfl
    | cons c text ih =>
        intro start
        rw [List.all_cons, Bool.and_eq_true] at h
        rw [List.foldl_cons, List.foldl_cons, ih h.2, py.ascii c (isDigit_lt h.1), if_pos h.1]
        rfl
  rw [Digits.int, hfold]
  rfl

end

/-! ## Identifiers -/

/-- The identifier a text of the pattern is. -/
def identifierOf (item : List Char) : Identifier :=
  if isNumeric item then .numeric (decimal item) else .alphanumeric item

/-- A text that is written as semantic versions write an identifier, and short
enough to be read. -/
def CleanItem (py : Digits) (item : List Char) : Prop :=
  isNumeric item = true → (item = ['0'] ∨ item.head? ≠ some '0') ∧ py.limit.all (item.length ≤ ·) = true

theorem text_identifierOf {py : Digits} {item : List Char} (h : CleanItem py item) :
    (identifierOf item).text = item := by
  rw [identifierOf]
  split_ifs with hnumeric
  · obtain ⟨hlead, _⟩ := h hnumeric
    rw [isNumeric, Bool.and_eq_true] at hnumeric
    exact toDigits_decimal ⟨by simpa using hnumeric.1, hnumeric.2, hlead⟩
  · rfl

theorem valid_identifierOf {item : List Char} (h : isIdentifier item = true) :
    (identifierOf item).Valid := by
  rw [isIdentifier, Bool.and_eq_true, List.all_eq_true] at h
  rw [identifierOf]
  split_ifs with hnumeric
  · trivial
  · refine ⟨h.2, ?_⟩
    rw [isNumeric, Bool.and_eq_true, not_and, List.all_eq_true] at hnumeric
    have hsome := hnumeric h.1
    push Not at hsome
    obtain ⟨c, hc, hdigit⟩ := hsome
    exact ⟨c, hc, by simpa using hdigit⟩

theorem identifierKey_clean {py : Digits} {item : List Char} (h : CleanItem py item) :
    identifierKey py item = .ok (identifierTuple (identifierOf item)) := by
  rw [identifierKey, identifierOf]
  split_ifs with hnumeric
  · obtain ⟨_, hlimit⟩ := h hnumeric
    rw [isNumeric, Bool.and_eq_true] at hnumeric
    rw [int_digits hnumeric.2, if_pos hlimit]
    rfl
  · rfl

/-- An identifier of a version is clean where it could be read. -/
theorem cleanItem_of_key {py : Digits} {identifier : Identifier} (hvalid : identifier.Valid)
    {k : IdentifierKey} (h : identifierKey py identifier.text = .ok k) : CleanItem py identifier.text := by
  intro hnumeric
  cases identifier with
  | numeric n =>
      obtain ⟨_, hdigits, hlead⟩ := isPlain_toDigits n
      refine ⟨hlead, ?_⟩
      rw [identifierKey, if_pos hnumeric, bind_eq_ok] at h
      obtain ⟨m, hint, _⟩ := h
      simp only [Identifier.text] at hint ⊢
      rw [int_digits hdigits] at hint
      split_ifs at hint with hlimit
      exact hlimit
  | alphanumeric text =>
      obtain ⟨c, hc, hdigit⟩ := hvalid.2
      simp only [Identifier.text, isNumeric, Bool.and_eq_true, List.all_eq_true] at hnumeric
      rw [hnumeric.2 c hc] at hdigit
      cases hdigit

/-! ## Texts -/

section

variable {py : Digits} {text : List Char}

/-- The digits before the first `-` are ASCII, and the identifiers behind it are clean. -/
def Clean (py : Digits) (text : List Char) : Prop :=
  (∀ c ∈ core text, c.toNat < 128) ∧
    ∀ rest ∈ afterCore text, ∀ item ∈ rest.splitOn '.', CleanItem py item

theorem core_afterCore (text : List Char) :
    text = core text ++ match afterCore text with | none => [] | some rest => '-' :: rest := by
  have hsplit : core text ++ text.dropWhile (· ≠ '-') = text := List.takeWhile_append_dropWhile
  conv_lhs => rw [← hsplit]
  congr 1
  rw [afterCore]
  cases hdrop : text.dropWhile (· ≠ '-') with
  | nil => rfl
  | cons c rest =>
      have hhead := List.head?_dropWhile_not (fun c => decide (c ≠ '-')) text
      rw [hdrop, List.head?_cons] at hhead
      simp only [ne_eq, decide_not, Bool.not_eq_false', decide_eq_true_eq] at hhead
      rw [hhead]

/-- What a text that is parsed is made of. -/
structure Accepted (py : Digits) (text : List Char) (parsed : Parsed) (a b c : List Char) : Prop where
  numbers : (core text).splitOn '.' = [a, b, c]
  major : isNumber py a = true ∧ py.int a = .ok parsed.major
  minor : isNumber py b = true ∧ py.int b = .ok parsed.minor
  patch : isNumber py c = true ∧ py.int c = .ok parsed.patch
  pre : parsed.pre = ((afterCore text).map (·.splitOn '.')).getD []
  identifiers : ∀ rest ∈ afterCore text, ∀ item ∈ rest.splitOn '.', isIdentifier item = true

theorem accepted_of_parse {parsed : Parsed} (h : parse py text = .ok (some parsed)) :
    ∃ a b c, Accepted py text parsed a b c := by
  rw [parse] at h
  cases hsemver : semver py text with
  | none =>
      rw [hsemver] at h
      cases h
  | some groups =>
      obtain ⟨a, b, c, rest⟩ := groups
      rw [hsemver] at h
      dsimp only at h
      rw [bind_eq_ok] at h
      obtain ⟨major, hmajor, h⟩ := h
      rw [bind_eq_ok] at h
      obtain ⟨minor, hminor, h⟩ := h
      rw [bind_eq_ok] at h
      obtain ⟨patch, hpatch, h⟩ := h
      obtain rfl := Option.some.inj (pure_eq_ok.mp h)
      rw [semver] at hsemver
      split at hsemver
      next a' b' c' hnumbers =>
        split_ifs at hsemver with hgood
        simp only [Option.some.injEq, Prod.mk.injEq] at hsemver
        obtain ⟨rfl, rfl, rfl, rfl⟩ := hsemver
        simp only [Bool.and_eq_true] at hgood
        obtain ⟨⟨⟨ha, hb⟩, hc⟩, hrest⟩ := hgood
        refine ⟨a', b', c', hnumbers, ⟨ha, hmajor⟩, ⟨hb, hminor⟩, ⟨hc, hpatch⟩, rfl, ?_⟩
        intro rest hmem item hitem
        rw [Option.mem_def.mp hmem, Option.all_some, List.all_eq_true] at hrest
        exact hrest item hitem
      next => cases hsemver

/-- The version a parsed text is. -/
def versionOf (parsed : Parsed) : Version :=
  ⟨parsed.major, parsed.minor, parsed.patch, parsed.pre.map identifierOf⟩

/-- The text of a number that is read is the number, written plainly. -/
theorem number_text {a : List Char} {n : ℕ} (h : isNumber py a = true ∧ py.int a = .ok n)
    (hascii : ∀ c ∈ a, c.toNat < 128) : Nat.toDigits 10 n = a := by
  have hplain := (isNumber_iff hascii).mp h.1
  have hint := h.2
  rw [int_digits hplain.2.1] at hint
  split_ifs at hint
  rw [← Except.ok.inj hint, toDigits_decimal hplain]

/-- Three numbers with dots between them. -/
theorem intercalate_three (a b c : List Char) :
    ['.'].intercalate [a, b, c] = a ++ '.' :: (b ++ '.' :: c) := by
  simp [List.intercalate_cons_cons]

/-- A text that is parsed and clean is a version, and its key is the tuple of it. -/
theorem isVersion_of_clean {parsed : Parsed} (h : parse py text = .ok (some parsed))
    (hclean : Clean py text) :
    IsVersion text (versionOf parsed) ∧ key py text = .ok (tuple (versionOf parsed)) := by
  obtain ⟨a, b, c, haccepted⟩ := accepted_of_parse h
  have hcore : core text = ['.'].intercalate [a, b, c] := by
    rw [← haccepted.numbers, List.intercalate_splitOn]
  have hascii := hclean.1
  rw [hcore, intercalate_three] at hascii
  have ha := number_text haccepted.major fun d hd => hascii d (by simp [hd])
  have hb := number_text haccepted.minor fun d hd => hascii d (by simp [hd])
  have hc := number_text haccepted.patch fun d hd => hascii d (by simp [hd])
  have hitems : ∀ item ∈ parsed.pre, CleanItem py item ∧ isIdentifier item = true := by
    intro item hitem
    rw [haccepted.pre] at hitem
    cases hafter : afterCore text with
    | none =>
        rw [hafter] at hitem
        cases hitem
    | some rest =>
        rw [hafter] at hitem
        exact ⟨hclean.2 rest hafter item hitem, haccepted.identifiers rest hafter item hitem⟩
  refine ⟨⟨?_, ?_⟩, ?_⟩
  · rw [core_afterCore text, hcore, Version.text, versionOf]
    dsimp only
    rw [ha, hb, hc]
    congr 1
    cases hafter : afterCore text with
    | none =>
        rw [haccepted.pre, hafter]
        rfl
    | some rest =>
        have hpre : parsed.pre = rest.splitOn '.' := by rw [haccepted.pre, hafter]; rfl
        have htexts : (parsed.pre.map identifierOf).map Identifier.text = parsed.pre := by
          rw [List.map_map]
          conv_rhs => rw [← List.map_id parsed.pre]
          exact List.map_congr_left fun item hitem => text_identifierOf (hitems item hitem).1
        rw [htexts, if_neg, hpre, List.intercalate_splitOn]
        rw [List.map_eq_nil_iff, hpre]
        exact List.splitOn_ne_nil _ _
  · intro identifier hidentifier
    obtain ⟨item, hitem, rfl⟩ := List.mem_map.mp hidentifier
    exact valid_identifierOf (hitems item hitem).2
  · have hkeys : parsed.pre.mapM (identifierKey py) =
        .ok (parsed.pre.map fun item => identifierTuple (identifierOf item)) :=
      mapM_ok fun item hitem => identifierKey_clean (hitems item hitem).1
    rw [key, h, ok_bind]
    dsimp only
    rw [hkeys, ok_bind, tuple, versionOf]
    simp only [List.map_eq_nil_iff, List.map_map]
    rfl

theorem digits_ne {n : ℕ} {c : Char} (hc : isDigit c = false) : c ∉ Nat.toDigits 10 n := by
  intro hmem
  rw [List.all_eq_true.mp (all_isDigit_toDigits n) c hmem] at hc
  cases hc

/-- The parts of the text of a version. -/
theorem parts_of_version (v : Version) :
    core v.text = ['.'].intercalate [Nat.toDigits 10 v.major, Nat.toDigits 10 v.minor, Nat.toDigits 10 v.patch] ∧
      afterCore v.text =
        if v.pre = [] then none else some (['.'].intercalate (v.pre.map Identifier.text)) := by
  have hdash : ∀ c ∈ ['.'].intercalate
      [Nat.toDigits 10 v.major, Nat.toDigits 10 v.minor, Nat.toDigits 10 v.patch], decide (c ≠ '-') = true := by
    intro c hc
    rw [decide_eq_true_eq]
    rintro rfl
    rw [intercalate_three] at hc
    simp only [List.mem_append, List.mem_cons] at hc
    rcases hc with h | h | h | h | h
    · exact digits_ne (by decide) h
    · exact absurd h (by decide)
    · exact digits_ne (by decide) h
    · exact absurd h (by decide)
    · exact digits_ne (by decide) h
  rw [core, afterCore, Version.text, List.takeWhile_append_of_pos hdash, List.dropWhile_append_of_pos hdash]
  split_ifs <;> simp

/-- The characters of an identifier are no dots. -/
theorem dot_not_mem {identifier : Identifier} (h : identifier.Valid) : '.' ∉ identifier.text := by
  cases identifier with
  | numeric n => exact digits_ne (by decide)
  | alphanumeric text =>
      intro hmem
      exact absurd (h.1 '.' hmem) (by decide)

/-- A version that is parsed and has a key is clean. -/
theorem clean_of_isVersion {v : Version} {k : Key} (h : IsVersion text v) (hkey : key py text = .ok k) :
    Clean py text := by
  obtain ⟨rfl, hvalid⟩ := h
  obtain ⟨hcore, hafter⟩ := parts_of_version v
  refine ⟨?_, ?_⟩
  · intro c hc
    rw [hcore, intercalate_three] at hc
    simp only [List.mem_append, List.mem_cons] at hc
    have hdigits : ∀ n, c ∈ Nat.toDigits 10 n → c.toNat < 128 := fun n hmem =>
      isDigit_lt (List.all_eq_true.mp (all_isDigit_toDigits n) c hmem)
    rcases hc with h | rfl | h | rfl | h
    · exact hdigits _ h
    · decide
    · exact hdigits _ h
    · decide
    · exact hdigits _ h
  · intro rest hrest item hitem
    rw [Option.mem_def, hafter] at hrest
    split_ifs at hrest with hpre
    obtain rfl := Option.some.inj hrest
    rw [if_neg hpre] at hafter
    have hsplit : (['.'].intercalate (v.pre.map Identifier.text)).splitOn '.' = v.pre.map Identifier.text := by
      apply List.splitOn_intercalate
      · rintro _ hmem
        obtain ⟨identifier, hidentifier, rfl⟩ := List.mem_map.mp hmem
        exact dot_not_mem (hvalid identifier hidentifier)
      · simpa using hpre
    rw [hsplit] at hitem
    obtain ⟨identifier, hidentifier, rfl⟩ := List.mem_map.mp hitem
    rw [key, bind_eq_ok] at hkey
    obtain ⟨parsed, hparse, hkey⟩ := hkey
    cases parsed with
    | none => cases hkey
    | some parsed =>
        obtain ⟨a, b, c, haccepted⟩ := accepted_of_parse hparse
        have hidentifiers : parsed.pre = v.pre.map Identifier.text := by
          rw [haccepted.pre, hafter]
          exact hsplit
        dsimp only at hkey
        rw [bind_eq_ok] at hkey
        obtain ⟨keys, hkeys, _⟩ := hkey
        rw [hidentifiers] at hkeys
        obtain ⟨_, hone⟩ := ok_of_mapM hkeys (List.mem_map_of_mem hidentifier)
        exact cleanItem_of_key (hvalid identifier hidentifier) hone

end

/-! ## The law -/

/-- Two texts are versions that their keys order as precedence does, with equal
keys for equal texts only. -/
def Orders (py : Digits) (a b : List Char) : Prop :=
  ∃ v w, IsVersion a v ∧ IsVersion b w ∧ ∃ k l, key py a = .ok k ∧ key py b = .ok l ∧
    (k < l ↔ v.Below w) ∧ (k = l → a = b)

/-- Of two texts that are parsed, the keys order them as semantic versions exactly
when both are clean. -/
theorem release_order (py : Digits) (a b : List Char) (parsed parsed' : Parsed)
    (ha : parse py a = .ok (some parsed)) (hb : parse py b = .ok (some parsed')) :
    Orders py a b ↔ Clean py a ∧ Clean py b := by
  constructor
  · rintro ⟨v, w, hv, hw, k, l, hk, hl, _⟩
    exact ⟨clean_of_isVersion hv hk, clean_of_isVersion hw hl⟩
  · rintro ⟨hcleanA, hcleanB⟩
    obtain ⟨hv, hk⟩ := isVersion_of_clean ha hcleanA
    obtain ⟨hw, hl⟩ := isVersion_of_clean hb hcleanB
    refine ⟨_, _, hv, hw, _, _, hk, hl, tuple_lt, fun heq => ?_⟩
    rw [hv.1, hw.1, tuple_inj heq]

/-- Two pre-releases and the release behind them. -/
theorem release_order_candidates : Orders .plain "1.0.0-rc.2".toList "1.0.0-rc.10".toList ↔
      Clean .plain "1.0.0-rc.2".toList ∧ Clean .plain "1.0.0-rc.10".toList :=
  release_order .plain _ _ ⟨1, 0, 0, ["rc".toList, "2".toList]⟩ ⟨1, 0, 0, ["rc".toList, "10".toList]⟩
    (by decide) (by decide)

/-- A numeric identifier with a leading zero is parsed, has the key of another text,
and is in no semantic version. -/
theorem leading_zero : parse .plain "1.0.0-01".toList = .ok (some ⟨1, 0, 0, ["01".toList]⟩) ∧
      key .plain "1.0.0-01".toList = key .plain "1.0.0-1".toList ∧
      "1.0.0-01".toList ≠ "1.0.0-1".toList ∧ ¬ ∃ v, IsVersion "1.0.0-01".toList v := by
  refine ⟨by decide, by decide, by decide, ?_⟩
  rintro ⟨v, hv⟩
  have hkey : key .plain "1.0.0-01".toList =
      .ok (tuple ⟨1, 0, 0, [.numeric 1]⟩) := by decide
  obtain ⟨_, hitems⟩ := clean_of_isVersion hv hkey
  have hitem := hitems "01".toList (by decide) "01".toList (by decide) (by decide)
  exact absurd hitem.1 (by decide)

end Sbarbase.Updates.Proofs.ReleaseOrder
