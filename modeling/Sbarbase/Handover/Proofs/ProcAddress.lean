import Mathlib.Data.List.Induction
import Mathlib.Data.List.TakeWhile
import Sbarbase.Handover.Address
import Sbarbase.Scheduler.Proofs.AddressText
/-!
# One address for both

What the console and the supervisor print of a text, and what the kernel prints of
the address that the text stands for.
-/

namespace Sbarbase.Handover.Proofs.ProcAddress

open Lib Scheduler Scheduler.Proofs.AddressText

/-! ## Bytes -/

theorem packed_succ (n value : ℕ) :
    packed (n + 1) value = packed n (value / 256) ++ [value % 256] := by
  unfold packed
  rw [List.range_succ, List.map_append, List.map_singleton]
  congr 1
  · apply List.map_congr_left
    intro i hi
    have hlt := List.mem_range.mp hi
    have hexp : n + 1 - 1 - i = (n - 1 - i) + 1 := by omega
    rw [hexp, Nat.pow_succ', Nat.div_div_eq_div_mul]
  · simp

theorem packed_add (m n value : ℕ) :
    packed (m + n) value = packed m (value / 256 ^ n) ++ packed n value := by
  induction n generalizing value with
  | zero => simp [packed]
  | succ n ih =>
      rw [← Nat.add_assoc, packed_succ, ih, packed_succ n, List.append_assoc, Nat.pow_succ',
        Nat.div_div_eq_div_mul]

theorem packed_mod (n value : ℕ) : packed n (value % 256 ^ n) = packed n value := by
  induction n generalizing value with
  | zero => rfl
  | succ n ih =>
      rw [packed_succ, packed_succ, Nat.pow_succ', Nat.mod_mul_right_mod,
        Nat.mod_mul_right_div_self, ih]

theorem length_packed (n value : ℕ) : (packed n value).length = n := by simp [packed]

theorem hexDigits_add (m n value : ℕ) :
    Json.hexDigits (m + n) value = Json.hexDigits m (value / 16 ^ n) ++ Json.hexDigits n value := by
  induction n generalizing value with
  | zero => simp [Json.hexDigits]
  | succ n ih =>
      rw [← Nat.add_assoc, Json.hexDigits, ih, Json.hexDigits, List.append_assoc, Nat.pow_succ',
        Nat.div_div_eq_div_mul]

theorem hexDigits_mod (n value : ℕ) :
    Json.hexDigits n (value % 16 ^ n) = Json.hexDigits n value := by
  induction n generalizing value with
  | zero => rfl
  | succ n ih =>
      rw [Json.hexDigits, Json.hexDigits, Nat.pow_succ', Nat.mod_mul_right_mod,
        Nat.mod_mul_right_div_self, ih]

theorem hexDigits_byte (high byte : ℕ) (h : byte < 256) (n : ℕ) :
    Json.hexDigits (n + 2) (high * 256 + byte) =
      Json.hexDigits n high ++ Json.hexDigits 2 byte := by
  have hmod : (high * 256 + byte) % 16 ^ 2 = byte := by omega
  have hdiv : (high * 256 + byte) / 16 ^ 2 = high := by omega
  rw [hexDigits_add, hdiv, ← hexDigits_mod 2 (high * 256 + byte), hmod]

/-- The digits of a word that is read with its first byte lowest are those of its bytes,
the last first. -/
theorem hexDigits_littleEndian (word : ℕ) :
    Json.hexDigits 8 (littleEndian word) = hexOf (packed 4 word).reverse := by
  have hbyte : ∀ value, value % 256 < 256 := fun value => Nat.mod_lt _ (by decide)
  unfold littleEndian
  rw [hexDigits_byte _ _ (hbyte _) 6, hexDigits_byte _ _ (hbyte _) 4,
    hexDigits_byte _ _ (hbyte _) 2]
  have hpacked : packed 4 word =
      [word / 16777216 % 256, word / 65536 % 256, word / 256 % 256, word % 256] := by
    simp [packed, List.range_succ]
  rw [hpacked]
  simp [hexOf]

theorem exists_four {α : Type} {l : List α} (h : l.length = 4) : ∃ a b c d, l = [a, b, c, d] := by
  match l, h with
  | [a, b, c, d], _ => exact ⟨a, b, c, d, rfl⟩

theorem reversedWords_append {α : Type} {first second third fourth : List α}
    (h1 : first.length = 4) (h2 : second.length = 4) (h3 : third.length = 4)
    (h4 : fourth.length = 4) :
    reversedWords (first ++ second ++ third ++ fourth) =
      first.reverse ++ second.reverse ++ third.reverse ++ fourth.reverse := by
  obtain ⟨a, b, c, d, rfl⟩ := exists_four h1
  obtain ⟨a', b', c', d', rfl⟩ := exists_four h2
  obtain ⟨a2, b2, c2, d2, rfl⟩ := exists_four h3
  obtain ⟨a3, b3, c3, d3, rfl⟩ := exists_four h4
  rfl

/-- The kernel prints the reversed words of an IPv6 address. -/
theorem kernelText_six (value : ℕ) :
    kernelText ⟨.six, value⟩ = ⟨.tcp6, upper (hexOf (reversedWords (packed 16 value)))⟩ := by
  have hpacked : packed 16 value =
      packed 4 (value / 256 ^ 12) ++ packed 4 (value / 256 ^ 8) ++ packed 4 (value / 256 ^ 4) ++
        packed 4 value := by
    have htwo : value / 256 ^ 4 / 256 ^ 4 = value / 256 ^ 8 := Nat.div_div_eq_div_mul _ _ _
    have hthree : value / 256 ^ 8 / 256 ^ 4 = value / 256 ^ 12 := Nat.div_div_eq_div_mul _ _ _
    rw [packed_add 12 4, packed_add 8 4, packed_add 4 4, htwo, hthree]
  rw [hpacked, reversedWords_append (length_packed _ _) (length_packed _ _) (length_packed _ _)
    (length_packed _ _)]
  have hwords : wordsOf ⟨.six, value⟩ = [value / 256 ^ 12 % 256 ^ 4, value / 256 ^ 8 % 256 ^ 4,
      value / 256 ^ 4 % 256 ^ 4, value % 256 ^ 4] := by
    simp [wordsOf, Family.width, List.range_succ]
  unfold kernelText
  rw [hwords]
  simp only [List.flatMap_cons, List.flatMap_nil, hexDigits_littleEndian, packed_mod, hexOf,
    List.flatMap_append, List.append_nil, List.append_assoc]

theorem kernelText_four (value : ℕ) :
    kernelText ⟨.four, value⟩ = ⟨.tcp, upper (hexOf (packed 4 value).reverse)⟩ := by
  have hwords : wordsOf ⟨.four, value⟩ = [value % 256 ^ 4] := by
    simp [wordsOf, Family.width, List.range_succ]
  unfold kernelText
  rw [hwords]
  simp only [List.flatMap_cons, List.flatMap_nil, hexDigits_littleEndian, packed_mod, hexOf,
    List.append_nil]

/-! ## What the console reads in lower case -/

theorem toLower_toLower (c : Char) : c.toLower.toLower = c.toLower := by
  cases hc : isUpper c with
  | true =>
      apply toLower_of_not_isUpper
      have hle := le_toLower hc
      simp only [isUpper, Bool.and_eq_false_iff, decide_eq_false_iff_not, Char.le_def,
        UInt32.le_iff_toNat_le]
      right
      have hz : 'Z'.val.toNat = 90 := rfl
      have hnat : c.toLower.toNat = c.toLower.val.toNat := rfl
      omega
  | false => rw [toLower_of_not_isUpper hc, toLower_of_not_isUpper hc]

theorem parseInt_map_toLower (word : List Char) :
    parseInt (word.map Char.toLower) = parseInt word := by
  have hlower : (word.map Char.toLower).map Char.toLower = word.map Char.toLower := by
    rw [List.map_map]
    exact List.map_congr_left fun c _ => toLower_toLower c
  unfold parseInt
  rw [hlower]

theorem splitDouble_map_toLower (text : List Char) :
    splitDouble (text.map Char.toLower) = (splitDouble text).map (List.map Char.toLower) := by
  have hcolon : ∀ c : Char, c.toLower = ':' ↔ c = ':' := fun c =>
    toLower_eq (d := ':') (by decide) (by decide)
  fun_induction splitDouble text with
  | case1 => rfl
  | case2 => rfl
  | case3 c d rest hcolons ih =>
      rw [List.map_cons, List.map_cons, splitDouble,
        if_pos ⟨(hcolon c).mpr hcolons.1, (hcolon d).mpr hcolons.2⟩, ih]
      rfl
  | case4 c d rest hcolons ih =>
      rw [List.map_cons, List.map_cons, splitDouble,
        if_neg fun h => hcolons ⟨(hcolon c).mp h.1, (hcolon d).mp h.2⟩, ← List.map_cons, ih]
      cases splitDouble (d :: rest) <;> rfl

theorem splitOn_map {f : Char → Char} {separator : Char} (hf : ∀ c, f c = separator ↔ c = separator)
    (text : List Char) :
    (text.map f).splitOn separator = (text.splitOn separator).map (List.map f) := by
  induction text with
  | nil => simp
  | cons c text ih =>
      rw [List.map_cons, List.splitOn_cons_eq_if_modifyHead, List.splitOn_cons_eq_if_modifyHead, ih]
      by_cases hc : c = separator
      · rw [if_pos (by simpa using (hf c).mpr hc), if_pos (by simpa using hc)]
        rfl
      · rw [if_neg (by simpa using fun h => hc ((hf c).mp h)), if_neg (by simpa using hc)]
        cases text.splitOn separator <;> rfl

theorem words_map_toLower (text : List Char) : words (text.map Char.toLower) = words text := by
  have hcolon : ∀ c : Char, c.toLower = ':' ↔ c = ':' := fun c =>
    toLower_eq (d := ':') (by decide) (by decide)
  unfold words groupsOf
  by_cases hnil : text = []
  · rw [hnil]
    rfl
  · rw [if_neg hnil, if_neg (by simpa using hnil), splitOn_map hcolon, List.map_map]
    apply List.map_congr_left
    intro word _
    exact parseInt_map_toLower word

theorem groups_map_toLower (text : List Char) : groups (text.map Char.toLower) = groups text := by
  unfold groups
  rw [splitDouble_map_toLower]
  rcases splitDouble text with _ | ⟨head, _ | ⟨tail, more⟩⟩
  · rfl
  · simp only [List.map_cons, List.map_nil, List.getD_cons_zero, words_map_toLower]
  · simp only [List.map_cons, words_map_toLower]

theorem isHex_toNat {c : Char} (h : isHex c = true) :
    (48 ≤ c.toNat ∧ c.toNat ≤ 57) ∨ (97 ≤ c.toNat ∧ c.toNat ≤ 102) := by
  simp only [isHex, isDigit, Bool.or_eq_true, Bool.and_eq_true, decide_eq_true_eq, Char.le_def,
    UInt32.le_iff_toNat_le] at h
  exact h

theorem not_isSpace {c : Char} (h : isHex c = true) : isSpace c = false := by
  have hnat := isHex_toNat h
  simp only [isSpace, List.mem_cons, List.not_mem_nil, or_false, Bool.or_eq_false_iff,
    decide_eq_false_iff_not, Bool.and_eq_false_iff]
  omega

/-- The digits before a point, or the whole word. -/
theorem parseInt_digits {digits rest : List Char} (hne : digits ≠ [])
    (hhex : ∀ c ∈ digits, isHex c = true) (hrest : rest = [] ∨ rest.head? = some '.')
    (hlower : (digits ++ rest).map Char.toLower = digits ++ rest) :
    parseInt (digits ++ rest) = some (hexadecimal digits : ℤ) := by
  have htake : (digits ++ rest).takeWhile isHex = digits := by
    rw [List.takeWhile_append_of_pos hhex]
    rcases hrest with rfl | hhead
    · simp
    · obtain ⟨tail, rfl⟩ := List.head?_eq_some_iff.mp hhead
      rw [List.takeWhile_cons_of_neg (by decide), List.append_nil]
  obtain ⟨first, more, rfl⟩ := List.exists_cons_of_ne_nil hne
  have hfirst : isHex first = true := hhex first List.mem_cons_self
  have hdrop : (first :: more ++ rest).dropWhile isSpace = first :: more ++ rest := by
    rw [List.cons_append, List.dropWhile_cons_of_neg (by rw [not_isSpace hfirst]; decide)]
  have hminus : first ≠ '-' := by
    rintro rfl
    exact absurd hfirst (by decide)
  have hplus : first ≠ '+' := by
    rintro rfl
    exact absurd hfirst (by decide)
  have hx : ∀ tail, first :: (more ++ rest) ≠ '0' :: 'x' :: tail := by
    intro tail heq
    obtain ⟨-, hmore⟩ := List.cons.inj heq
    cases more with
    | nil =>
        rcases hrest with rfl | hhead
        · nomatch hmore
        · rw [List.nil_append] at hmore
          rw [hmore] at hhead
          exact absurd (Option.some.inj hhead) (by decide)
    | cons second more =>
        obtain ⟨rfl, -⟩ := List.cons.inj hmore
        exact absurd (hhex 'x' (by simp)) (by decide)
  unfold parseInt
  rw [hlower, hdrop]
  dsimp only
  split
  next heq =>
    split at heq
    next hsign => exact absurd (List.cons.inj hsign).1 hminus
    next hsign => exact absurd (List.cons.inj hsign).1 hplus
    next => exact absurd heq (hx _)
  next =>
    split
    next hsign => exact absurd (List.cons.inj hsign).1 hminus
    next hsign => exact absurd (List.cons.inj hsign).1 hplus
    next => rw [htake, if_neg (List.cons_ne_nil _ _), Int.one_mul]

theorem map_toLower_of_digits {text : List Char} (h : ∀ c ∈ text, isHex c = true ∨ c = '.') :
    text.map Char.toLower = text := by
  conv_rhs => rw [← List.map_id text]
  apply List.map_congr_left
  intro c hc
  apply toLower_of_not_isUpper
  rcases h c hc with hhex | rfl
  · have hnat := isHex_toNat hhex
    simp only [isUpper, Bool.and_eq_false_iff, decide_eq_false_iff_not, Char.le_def,
      UInt32.le_iff_toNat_le]
    have hc : c.toNat = c.val.toNat := rfl
    have ha : 'A'.val.toNat = 65 := rfl
    have hz : 'Z'.val.toNat = 90 := rfl
    omega
  · decide

theorem parseInt_group {group : List Char} (h : isGroup group = true) :
    parseInt group = some (hexadecimal group : ℤ) := by
  obtain ⟨-, -, hhex⟩ := isGroup_iff.mp h
  have hlower : (group ++ []).map Char.toLower = group ++ [] := by
    rw [List.append_nil]
    exact map_toLower_of_digits fun c hc => .inl (hhex c hc)
  have hparse := parseInt_digits (group_ne_nil h) hhex (.inl rfl) hlower
  rwa [List.append_nil] at hparse

theorem isHex_of_isDigit {c : Char} (h : isDigit c = true) : isHex c = true := by
  rw [isHex, h, Bool.true_or]

theorem octet_hex : ∀ n < 256, Nat.toDigits 10 n ≠ [] ∧ hexadecimal (Nat.toDigits 10 n) < 65536 ∧
    (hexadecimal (Nat.toDigits 10 n) = 0 ↔ n = 0) := by
  decide +kernel

/-- The console reads the first number of a quad, as if its digits were hexadecimal. -/
theorem parseInt_quad {a : ℕ} (ha : a < 256) {rest : List Char}
    (hrest : ∀ c ∈ rest, isHex c = true ∨ c = '.') :
    parseInt (Nat.toDigits 10 a ++ '.' :: rest) = some (hexadecimal (Nat.toDigits 10 a) : ℤ) := by
  have hhex : ∀ c ∈ Nat.toDigits 10 a, isHex c = true := fun c hc =>
    isHex_of_isDigit (toDigits_chars a ha c hc)
  apply parseInt_digits (octet_hex a ha).1 hhex (.inr rfl)
  apply map_toLower_of_digits
  intro c hc
  rw [List.mem_append, List.mem_cons] at hc
  rcases hc with hdigit | rfl | hmem
  · exact .inl (hhex c hdigit)
  · exact .inr rfl
  · exact hrest c hmem

/-- What the console makes of the quad at the end of a part: the digits before its first
point, as one piece. -/
def quadRead (quad : Option (List Char × ℕ)) : List ℕ :=
  match quad with
  | none => []
  | some (text, _) => [hexadecimal (text.takeWhile isHex)]

/-- Numbers as `parseInt` gives them. -/
def parsed (pieces : List ℕ) : List (Option ℤ) := pieces.map fun piece : ℕ => some (piece : ℤ)

/-- The pieces the console reads. -/
def read (part : Part) : List ℕ := part.groups.map hexadecimal ++ quadRead part.quad

theorem quad_read {text : List Char} {value : ℕ} (h : DottedQuad text value) :
    parseInt text = some (hexadecimal (text.takeWhile isHex) : ℤ) ∧
      hexadecimal (text.takeWhile isHex) < 65536 ∧
      (hexadecimal (text.takeWhile isHex) = 0 ↔ value / 16777216 = 0) := by
  obtain ⟨a, b, c, d, ha, hb, hc, hd, htext, hvalue⟩ := h
  have hchars : ∀ n < 256, ∀ c ∈ Nat.toDigits 10 n, isHex c = true := fun n hn c hc =>
    isHex_of_isDigit (toDigits_chars n hn c hc)
  have htake : text.takeWhile isHex = Nat.toDigits 10 a := by
    rw [htext, List.takeWhile_append_of_pos (hchars a ha), List.takeWhile_cons_of_neg (by decide),
      List.append_nil]
  have hfirst : value / 16777216 = a := by omega
  rw [htake, hfirst]
  refine ⟨?_, (octet_hex a ha).2⟩
  rw [htext]
  apply parseInt_quad ha
  intro e he
  simp only [List.mem_append, List.mem_cons] at he
  rcases he with he | rfl | he | rfl | he
  · exact .inl (hchars b hb e he)
  · exact .inr rfl
  · exact .inl (hchars c hc e he)
  · exact .inr rfl
  · exact .inl (hchars d hd e he)

theorem isWord_part {part : Part} (h : part.Valid) :
    ∀ word ∈ part.groups ++ (part.quad.map Prod.fst).toList, IsWord word := by
  intro word hword
  rcases List.mem_append.mp hword with hgroup | hquad
  · exact isWord_of_isGroup (isGroup_iff.mpr (h.groups word hgroup))
  · rw [Option.mem_toList, Option.map_eq_some_iff] at hquad
    obtain ⟨⟨text, value⟩, hsome, rfl⟩ := hquad
    obtain ⟨hdot, hcolon, -⟩ := quad_chars (h.quad text value hsome)
    refine ⟨hcolon, ?_⟩
    rintro rfl
    nomatch hdot

theorem words_text {part : Part} (h : part.Valid) : words part.text = parsed (read part) := by
  unfold words
  rw [Part.text, groupsOf_words (isWord_part h), List.map_append, read, parsed, List.map_append,
    List.map_map]
  congr 1
  · apply List.map_congr_left
    intro group hgroup
    exact parseInt_group (isGroup_iff.mpr (h.groups group hgroup))
  · rcases hquad : part.quad with _ | ⟨text, value⟩
    · rfl
    · have hread := (quad_read (h.quad text value hquad)).1
      simp only [Option.map_some, Option.toList_some, List.map_cons, List.map_nil, quadRead, hread]

theorem length_words {part : Part} (h : part.Valid) :
    (words part.text).length = (read part).length := by
  rw [words_text h, parsed, List.length_map]

theorem splitDouble_part {part : Part} (h : part.Valid) : splitDouble part.text = [part.text] := by
  have happend := splitDouble_words (isWord_part h) []
  rw [List.append_nil] at happend
  rw [Part.text, happend]
  simp [splitDouble]

theorem groups_full {part : Part} (h : part.Valid) : groups part.text =
      if (read part).length ≠ 8 then none
      else some (parsed (read part)) := by
  unfold groups
  rw [splitDouble_part h]
  dsimp only
  rw [List.getD_cons_zero, length_words h, words_text h]

theorem splitDouble_compressed {head rest : Part} (hhead : head.Valid) (hrest : rest.Valid) :
    splitDouble (head.text ++ ':' :: ':' :: rest.text) = [head.text, rest.text] := by
  rw [Part.text, splitDouble_words (isWord_part hhead), splitDouble, if_pos ⟨rfl, rfl⟩,
    splitDouble_part hrest, List.modifyHead_cons, List.append_nil]

theorem groups_compressed {head rest : Part} (hhead : head.Valid) (hrest : rest.Valid)
    (hlength : (read head).length + (read rest).length ≤ 8) :
    groups (head.text ++ ':' :: ':' :: rest.text) =
      some (parsed (read head ++
        List.replicate (8 - (read head).length - (read rest).length) 0 ++ read rest)) := by
  unfold groups
  rw [splitDouble_compressed hhead hrest]
  dsimp only
  rw [length_words hhead, length_words hrest, if_neg (by omega), words_text hhead,
    words_text hrest]
  unfold parsed
  rw [List.map_append, List.map_append, List.map_replicate]
  rfl

/-! ## What is printed -/

theorem byteText_eq : ∀ byte < 256, byteText (byte : ℕ) = Json.hexDigits 2 byte := by
  intro byte hbyte
  have hnatural : ¬ (byte : ℤ) < 0 := by omega
  simp only [byteText, if_neg hnatural, Int.toNat_natCast, Json.hexDigits, List.nil_append]
  by_cases hsmall : byte < 16
  · rw [Nat.toDigits_of_lt_base hsmall, Nat.div_eq_of_lt hsmall, Nat.mod_eq_of_lt hsmall]
    rfl
  · have hhigh : byte / 16 < 16 := by omega
    rw [Nat.toDigits_of_base_le (by decide) (by omega), Nat.toDigits_of_lt_base hhigh,
      Nat.mod_eq_of_lt hhigh]
    rfl

/-- The bytes of pieces. -/
def bytes (pieces : List ℕ) : List ℕ := pieces.flatMap fun piece => [piece / 256, piece % 256]

theorem bytesOf_eq {piece : ℕ} (h : piece < 65536) :
    bytesOf (some (piece : ℤ)) = [((piece / 256 : ℕ) : ℤ), ((piece % 256 : ℕ) : ℤ)] := by
  have hint : toInt32 (some (piece : ℤ)) = piece := by
    unfold toInt32
    rw [Option.getD_some]
    omega
  unfold bytesOf
  rw [hint, Int.natCast_ediv, Int.natCast_emod]
  rfl

theorem flatMap_bytesOf {pieces : List ℕ} (h : ∀ piece ∈ pieces, piece < 65536) :
    (parsed pieces).flatMap bytesOf = (bytes pieces).map fun byte : ℕ => (byte : ℤ) := by
  induction pieces with
  | nil => rfl
  | cons piece pieces ih =>
      have hrest := ih fun other hother => h other (List.mem_cons_of_mem _ hother)
      rw [parsed, bytes] at hrest ⊢
      rw [List.map_cons, List.flatMap_cons, List.flatMap_cons, List.map_append, hrest,
        bytesOf_eq (h piece List.mem_cons_self)]
      rfl

theorem bytes_lt {pieces : List ℕ} (h : ∀ piece ∈ pieces, piece < 65536) :
    ∀ byte ∈ bytes pieces, byte < 256 := by
  intro byte hbyte
  obtain ⟨piece, hpiece, hmem⟩ := List.mem_flatMap.mp hbyte
  have hlt := h piece hpiece
  simp only [List.mem_cons, List.not_mem_nil, or_false] at hmem
  omega

theorem length_bytes (pieces : List ℕ) : (bytes pieces).length = 2 * pieces.length := by
  induction pieces with
  | nil => rfl
  | cons piece pieces ih =>
      rw [bytes] at ih ⊢
      rw [List.flatMap_cons, List.length_append, ih, List.length_cons]
      simp only [List.length_cons, List.length_nil]
      omega

/-- The bytes of a number are those of its pieces. -/
theorem packed_ofPieces {pieces : List ℕ} (h : ∀ piece ∈ pieces, piece < 65536) :
    packed (2 * pieces.length) (ofPieces pieces) = bytes pieces := by
  induction pieces using List.reverseRecOn with
  | nil => rfl
  | append_singleton pieces piece ih =>
      have hrest := ih fun other hother => h other (List.mem_append_left _ hother)
      have hlt := h piece (List.mem_append_right _ List.mem_cons_self)
      have hsum : ofPieces (pieces ++ [piece]) = ofPieces pieces * 65536 + piece := by
        simp [ofPieces]
      have hlength : 2 * (pieces ++ [piece]).length = 2 * pieces.length + 2 := by
        rw [List.length_append]
        simp only [List.length_cons, List.length_nil]
        omega
      have hhigh : (ofPieces pieces * 65536 + piece) / 256 ^ 2 = ofPieces pieces := by omega
      have hlow : packed 2 (ofPieces pieces * 65536 + piece) = [piece / 256, piece % 256] := by
        rw [packed_succ, packed_succ]
        have hfirst : (ofPieces pieces * 65536 + piece) / 256 % 256 = piece / 256 := by omega
        have hsecond : (ofPieces pieces * 65536 + piece) % 256 = piece % 256 := by omega
        rw [hfirst, hsecond]
        rfl
      rw [hsum, hlength, packed_add, hhigh, hrest, hlow, bytes, bytes, List.flatMap_append]
      simp

theorem reversedWords_map {α β : Type} (f : α → β) (l : List α) :
    reversedWords (l.map f) = (reversedWords l).map f := by
  unfold reversedWords
  rw [List.map_flatMap]
  congr 1
  funext i
  rw [← List.map_drop, ← List.map_take, List.map_reverse]

theorem mem_reversedWords {α : Type} {l : List α} {a : α} (h : a ∈ reversedWords l) : a ∈ l := by
  obtain ⟨i, -, hmem⟩ := List.mem_flatMap.mp h
  exact List.mem_of_mem_drop (List.mem_of_mem_take (List.mem_reverse.mp hmem))

/-- The console prints the pieces it reads as the kernel prints the address they make. -/
theorem printed_eq {pieces : List ℕ} (h : ∀ piece ∈ pieces, piece < 65536)
    (hlength : pieces.length = 8) :
    (⟨.tcp6, upper ((reversedWords ((parsed pieces).flatMap bytesOf)).flatMap byteText)⟩ :
        Printed) =
      kernelText ⟨.six, ofPieces pieces⟩ := by
  have hpacked := packed_ofPieces h
  rw [hlength] at hpacked
  rw [kernelText_six, hpacked, flatMap_bytesOf h, reversedWords_map, List.flatMap_map]
  congr 2
  apply List.flatMap_congr
  intro byte hbyte
  exact byteText_eq byte (bytes_lt h byte (mem_reversedWords hbyte))

/-! ## Different addresses are printed differently -/

theorem hexDigits_inj : ∀ byte < 256,
    hexadecimal ((upper (Json.hexDigits 2 byte)).map Char.toLower) = byte := by
  have hdigit : ∀ d < 16, hexDigit (Char.toLower (Char.toUpper (Nat.digitChar d))) = d := by decide
  intro byte hbyte
  simp only [Json.hexDigits, upper, List.nil_append, List.cons_append, List.map_cons, List.map_nil,
    hexadecimal, List.foldl_cons, List.foldl_nil]
  rw [hdigit _ (Nat.mod_lt _ (by decide)), hdigit _ (Nat.mod_lt _ (by decide))]
  omega

theorem upper_hexOf_inj {l l' : List ℕ} (hl : ∀ byte ∈ l, byte < 256)
    (hl' : ∀ byte ∈ l', byte < 256)
    (hlength : l.length = l'.length) (h : upper (hexOf l) = upper (hexOf l')) : l = l' := by
  induction l generalizing l' with
  | nil => exact (List.length_eq_zero_iff.mp hlength.symm).symm
  | cons byte l ih =>
      obtain ⟨byte', l', rfl⟩ := List.exists_cons_of_length_eq_add_one hlength.symm
      have htwo : ∀ value, (upper (Json.hexDigits 2 value)).length = 2 := by
        intro value
        simp [upper, Json.hexDigits]
      unfold hexOf upper at h
      rw [List.flatMap_cons, List.flatMap_cons, List.map_append, List.map_append] at h
      obtain ⟨hfirst, hrest⟩ := List.append_inj h ((htwo byte).trans (htwo byte').symm)
      have hbyte : byte = byte' := by
        rw [← hexDigits_inj byte (hl byte List.mem_cons_self),
          ← hexDigits_inj byte' (hl' byte' List.mem_cons_self)]
        exact congrArg (fun text => hexadecimal (List.map Char.toLower text)) hfirst
      rw [hbyte, ih (fun other hother => hl other (List.mem_cons_of_mem _ hother))
        (fun other hother => hl' other (List.mem_cons_of_mem _ hother))
        (Nat.succ.inj hlength) hrest]

theorem exists_words {α : Type} {l : List α} (h : l.length = 16) :
    ∃ first second third fourth : List α, first.length = 4 ∧ second.length = 4 ∧
      third.length = 4 ∧ fourth.length = 4 ∧ l = first ++ second ++ third ++ fourth := by
  refine ⟨l.take 4, (l.drop 4).take 4, (l.drop 8).take 4, l.drop 12, ?_, ?_, ?_, ?_, ?_⟩
  · rw [List.length_take]
    omega
  · rw [List.length_take, List.length_drop]
    omega
  · rw [List.length_take, List.length_drop]
    omega
  · rw [List.length_drop]
    omega
  · have hsecond : (l.drop 4).take 4 ++ l.drop 8 = l.drop 4 := by
      have hall := List.take_append_drop 4 (l.drop 4)
      rwa [List.drop_drop] at hall
    have hthird : (l.drop 8).take 4 ++ l.drop 12 = l.drop 8 := by
      have hall := List.take_append_drop 4 (l.drop 8)
      rwa [List.drop_drop] at hall
    rw [List.append_assoc, List.append_assoc, hthird, hsecond, List.take_append_drop]

theorem length_reversedWords {α : Type} {l : List α} (h : l.length = 16) :
    (reversedWords l).length = 16 := by
  obtain ⟨first, second, third, fourth, h1, h2, h3, h4, rfl⟩ := exists_words h
  rw [reversedWords_append h1 h2 h3 h4]
  simp only [List.length_append, List.length_reverse, h1, h2, h3, h4]

/-- Reversing the words twice changes nothing. -/
theorem reversedWords_reversedWords {α : Type} {l : List α} (h : l.length = 16) :
    reversedWords (reversedWords l) = l := by
  obtain ⟨first, second, third, fourth, h1, h2, h3, h4, rfl⟩ := exists_words h
  rw [reversedWords_append h1 h2 h3 h4, reversedWords_append] <;>
    simp only [List.reverse_reverse, List.length_reverse, h1, h2, h3, h4]

theorem bytes_inj {pieces pieces' : List ℕ} (hlength : pieces.length = pieces'.length)
    (h : bytes pieces = bytes pieces') : pieces = pieces' := by
  induction pieces generalizing pieces' with
  | nil => exact (List.length_eq_zero_iff.mp hlength.symm).symm
  | cons piece pieces ih =>
      obtain ⟨piece', pieces', rfl⟩ := List.exists_cons_of_length_eq_add_one hlength.symm
      rw [bytes, bytes, List.flatMap_cons, List.flatMap_cons] at h
      obtain ⟨hfirst, hrest⟩ := List.append_inj h rfl
      obtain ⟨hhigh, hlow⟩ := List.cons.inj hfirst
      have hpiece : piece = piece' := by
        have hlow := (List.cons.inj hlow).1
        omega
      rw [hpiece, ih (Nat.succ.inj hlength) hrest]

theorem kernelText_inj {pieces pieces' : List ℕ} (h : ∀ piece ∈ pieces, piece < 65536)
    (h' : ∀ piece ∈ pieces', piece < 65536) (hlength : pieces.length = 8)
    (hlength' : pieces'.length = 8)
    (heq : kernelText ⟨.six, ofPieces pieces⟩ = kernelText ⟨.six, ofPieces pieces'⟩) :
    pieces = pieces' := by
  have hpacked := packed_ofPieces h
  have hpacked' := packed_ofPieces h'
  rw [hlength] at hpacked
  rw [hlength'] at hpacked'
  rw [kernelText_six, kernelText_six, hpacked, hpacked'] at heq
  have hsixteen : (bytes pieces).length = 16 := by rw [length_bytes, hlength]
  have hsixteen' : (bytes pieces').length = 16 := by rw [length_bytes, hlength']
  have hwords : reversedWords (bytes pieces) = reversedWords (bytes pieces') := by
    apply upper_hexOf_inj _ _ _ (Printed.mk.inj heq).2
    · exact fun byte hbyte => bytes_lt h byte (mem_reversedWords hbyte)
    · exact fun byte hbyte => bytes_lt h' byte (mem_reversedWords hbyte)
    · rw [length_reversedWords hsixteen, length_reversedWords hsixteen']
  apply bytes_inj (hlength.trans hlength'.symm)
  rw [← reversedWords_reversedWords hsixteen, hwords, reversedWords_reversedWords hsixteen']

/-! ## The law -/

/-- Both refuse the text, or both print the address it stands for as the kernel does. -/
def Agrees (zone : List Char → Bool) (host : List Char) : Prop :=
  ((procAddress zone host).isOk = false ∧ (hexAddress host).isOk = false) ∨
    ∃ address, Plain (named host) address ∧
      procAddress zone host = .ok (kernelText address) ∧ hexAddress host = .ok (kernelText address)

/-- What stands after the first `::` is zeros. -/
def zeroTail (host : List Char) : Bool :=
  ((splitDouble host)[1]?).any fun tail => tail.all fun c => c = '0' || c = ':' || c = '.'

/-- The pieces between colons do not make eight groups: with a `::` there are more
than eight, without one their number is another. -/
def uneven (host : List Char) : Bool :=
  match splitDouble host with
  | head :: tail :: _ => 8 < (groupsOf head).length + (groupsOf tail).length
  | halves => (groupsOf (halves.getD 0 [])).length ≠ 8

/-- The text is no IPv6 text with a zone or a dotted quad, or one where neither matters. -/
def Simple (zone : List Char → Bool) (host : List Char) : Prop :=
  isIPv6 zone (named host) = true →
    if '%' ∈ named host then uneven (named host) = true
    else '.' ∈ named host → zeroTail (named host) = true

theorem groups_eq_none {host : List Char} : groups host = none ↔ uneven host = true := by
  unfold groups uneven words
  rcases splitDouble host with _ | ⟨head, _ | ⟨tail, more⟩⟩
  · simp
  · simp
  · simp

theorem hexDigit_eq_zero {c : Char} (h : isHex c = true) : hexDigit c = 0 ↔ c = '0' := by
  constructor
  · intro hzero
    have hnat := isHex_toNat h
    have h0 : '0'.toNat = 48 := rfl
    have ha : 'a'.toNat = 97 := rfl
    have hc : c.toNat = 48 := by
      unfold hexDigit at hzero
      split_ifs at hzero
      omega
    rw [← Char.ofNat_toNat c, hc]
  · rintro rfl
    decide

theorem hexadecimal_eq_zero {group : List Char} (h : ∀ c ∈ group, isHex c = true) :
    hexadecimal group = 0 ↔ ∀ c ∈ group, c = '0' := by
  induction group using List.reverseRecOn with
  | nil => simp [hexadecimal]
  | append_singleton group c ih =>
      have hfirst := ih fun d hd => h d (List.mem_append_left _ hd)
      have hlast := hexDigit_eq_zero (h c (List.mem_append_right _ List.mem_cons_self))
      have hsum : hexadecimal (group ++ [c]) = 16 * hexadecimal group + hexDigit c := by
        simp [hexadecimal]
      rw [hsum]
      constructor
      · intro hzero d hd
        rcases List.mem_append.mp hd with hd | hd
        · exact hfirst.mp (by omega) d hd
        · rw [List.mem_singleton.mp hd]
          exact hlast.mp (by omega)
      · intro hall
        have hgroup := hfirst.mpr fun d hd => hall d (List.mem_append_left _ hd)
        have hc := hlast.mpr (hall c (List.mem_append_right _ List.mem_cons_self))
        omega

theorem octet_zero : ∀ n < 256, (∀ c ∈ Nat.toDigits 10 n, c = '0' ∨ c = '.') ↔ n = 0 := by
  have hall : ∀ n < 256,
      ((Nat.toDigits 10 n).all fun c => decide (c = '0' ∨ c = '.')) = true ↔ n = 0 := by
    decide +kernel
  intro n hn
  simpa only [List.all_eq_true, decide_eq_true_eq] using hall n hn

/-- Zeros and points are the quad of zero. -/
theorem quad_zero {text : List Char} {value : ℕ} (h : DottedQuad text value) :
    (∀ c ∈ text, c = '0' ∨ c = '.') ↔ value = 0 := by
  obtain ⟨a, b, c, d, ha, hb, hc, hd, rfl, rfl⟩ := h
  constructor
  · intro hall
    have hzero : ∀ n < 256, (∀ e ∈ Nat.toDigits 10 n, e = '0' ∨ e = '.') → n = 0 :=
      fun n hn => (octet_zero n hn).mp
    have ha0 := hzero a ha fun e he => hall e (by simp [he])
    have hb0 := hzero b hb fun e he => hall e (by simp [he])
    have hc0 := hzero c hc fun e he => hall e (by simp [he])
    have hd0 := hzero d hd fun e he => hall e (by simp [he])
    omega
  · intro hzero
    have hsplit : a = 0 ∧ b = 0 ∧ c = 0 ∧ d = 0 := by omega
    obtain ⟨rfl, rfl, rfl, rfl⟩ := hsplit
    simp

/-- One piece more before the last ones makes no difference where all of them are zero. -/
theorem shifted_iff {row : List ℕ} {x high low : ℕ} :
    0 :: (row ++ [x]) = row ++ [high, low] ↔ (∀ piece ∈ row, piece = 0) ∧ high = 0 ∧ x = low := by
  induction row with
  | nil =>
      simp only [List.nil_append, List.cons.injEq, List.not_mem_nil, false_implies, implies_true,
        true_and, and_true]
      exact and_congr_left fun _ => eq_comm
  | cons piece row ih =>
      rw [List.cons_append, List.cons_append, List.cons.injEq, List.forall_mem_cons]
      constructor
      · rintro ⟨rfl, hrest⟩
        obtain ⟨hrow, hhigh, hlow⟩ := ih.mp hrest
        exact ⟨⟨rfl, hrow⟩, hhigh, hlow⟩
      · rintro ⟨⟨rfl, hrow⟩, hhigh, hlow⟩
        exact ⟨rfl, ih.mpr ⟨hrow, hhigh, hlow⟩⟩

theorem mem_join_of_mem {words : List (List Char)} {word : List Char} {c : Char}
    (hword : word ∈ words) (hc : c ∈ word) : c ∈ join words := by
  induction words with
  | nil => nomatch hword
  | cons first words ih =>
      cases words with
      | nil =>
          rw [List.mem_singleton.mp hword] at hc
          simpa [join] using hc
      | cons next words =>
          rw [join_cons_cons, List.mem_append, List.mem_cons]
          rcases List.mem_cons.mp hword with rfl | hmem
          · exact .inl hc
          · exact .inr (.inr (ih hmem))

theorem zeroTail_compressed {head rest : Part} (hhead : head.Valid) (hrest : rest.Valid) :
    zeroTail (head.text ++ ':' :: ':' :: rest.text) = true ↔
      ∀ c ∈ rest.text, c = '0' ∨ c = ':' ∨ c = '.' := by
  rw [zeroTail, splitDouble_compressed hhead hrest]
  simp [or_assoc]

theorem zeros_iff {rows : List (List Char)} {text : List Char} {value : ℕ}
    (h : (⟨rows, some (text, value)⟩ : Part).Valid) :
    (∀ c ∈ (⟨rows, some (text, value)⟩ : Part).text, c = '0' ∨ c = ':' ∨ c = '.') ↔
      (∀ piece ∈ rows.map hexadecimal, piece = 0) ∧ value = 0 := by
  have hquad : DottedQuad text value := h.quad text value rfl
  have hhex : ∀ group ∈ rows, ∀ c ∈ group, isHex c = true := fun group hgroup =>
    (h.groups group hgroup).2.2
  constructor
  · intro hall
    refine ⟨?_, (quad_zero hquad).mp fun c hc => ?_⟩
    · intro piece hpiece
      obtain ⟨group, hgroup, rfl⟩ := List.mem_map.mp hpiece
      refine (hexadecimal_eq_zero (hhex group hgroup)).mpr fun c hc => ?_
      have hdigit := hhex group hgroup c hc
      rcases hall c (mem_join_of_mem (List.mem_append_left _ hgroup) hc) with hzero | rfl | rfl
      · exact hzero
      · exact absurd hdigit (by decide)
      · exact absurd hdigit (by decide)
    · have hcolon := (quad_chars hquad).2.1
      rcases hall c (mem_join_of_mem (List.mem_append_right _ List.mem_cons_self) hc) with
        hzero | rfl | hdot
      · exact .inl hzero
      · exact absurd hc hcolon
      · exact .inr hdot
  · rintro ⟨hrows, hvalue⟩ c hc
    rcases mem_join hc with hcolon | ⟨word, hword, hmem⟩
    · exact .inr (.inl hcolon)
    · rcases List.mem_append.mp hword with hgroup | hlast
      · have hpiece := hrows _ (List.mem_map_of_mem hgroup)
        exact .inl ((hexadecimal_eq_zero (hhex word hgroup)).mp hpiece c hmem)
      · rw [List.mem_singleton.mp hlast] at hmem
        rcases (quad_zero hquad).mpr hvalue c hmem with hzero | hdot
        · exact .inl hzero
        · exact .inr (.inr hdot)

theorem pieces_lt {part : Part} (h : part.Valid) : ∀ piece ∈ part.pieces, piece < 65536 := by
  intro piece hpiece
  rcases List.mem_append.mp hpiece with hgroup | hquad
  · obtain ⟨group, hmem, rfl⟩ := List.mem_map.mp hgroup
    exact hexadecimal_lt (isGroup_iff.mpr (h.groups group hmem))
  · rcases hsome : part.quad with _ | ⟨text, value⟩
    · rw [hsome] at hquad
      nomatch hquad
    · rw [hsome] at hquad
      have hlt := quad_lt (h.quad text value hsome)
      simp only [List.mem_cons, List.not_mem_nil, or_false] at hquad
      omega

theorem read_lt {part : Part} (h : part.Valid) : ∀ piece ∈ read part, piece < 65536 := by
  intro piece hpiece
  rcases List.mem_append.mp hpiece with hgroup | hquad
  · obtain ⟨group, hmem, rfl⟩ := List.mem_map.mp hgroup
    exact hexadecimal_lt (isGroup_iff.mpr (h.groups group hmem))
  · rcases hsome : part.quad with _ | ⟨text, value⟩
    · rw [hsome] at hquad
      nomatch hquad
    · rw [hsome] at hquad
      rw [List.mem_singleton.mp hquad]
      exact (quad_read (h.quad text value hsome)).2.1

/-- Without a quad the console reads the pieces. -/
theorem read_eq_pieces {part : Part} (h : part.quad = none) : read part = part.pieces := by
  rw [read, Part.pieces, h]
  rfl

theorem dot_not_mem {part : Part} (h : part.Valid) (hquad : part.quad = none) :
    '.' ∉ part.text := by
  intro hmem
  rcases mem_join hmem with heq | ⟨word, hword, hdot⟩
  · exact absurd heq (by decide)
  · rw [hquad, Option.map_none, Option.toList_none, List.append_nil] at hword
    exact absurd ((h.groups word hword).2.2 '.' hdot) (by decide)

theorem dot_mem {rows : List (List Char)} {text : List Char} {value : ℕ}
    (h : DottedQuad text value) : '.' ∈ (⟨rows, some (text, value)⟩ : Part).text :=
  mem_join_of_mem (List.mem_append_right _ List.mem_cons_self) (quad_chars h).1

/-- The pieces of a text in lower case, and what the console makes of it: the pieces
themselves exactly if there is no quad or all after the `::` is zero. -/
structure Understood (text : List Char) (pieces : List ℕ) : Prop where
  length : pieces.length = 8
  lt : ∀ piece ∈ pieces, piece < 65536
  groups : (Handover.groups text = none ∧ ¬ ('.' ∈ text → zeroTail text = true)) ∨
    ∃ seen, Handover.groups text = some (parsed seen) ∧ seen.length = 8 ∧
      (∀ piece ∈ seen, piece < 65536) ∧ (seen = pieces ↔ ('.' ∈ text → zeroTail text = true))

theorem understood_full {part : Part} (h : part.Valid) (hlength : part.pieces.length = 8) :
    Understood part.text part.pieces where
  length := hlength
  lt := pieces_lt h
  groups := by
    rw [groups_full h]
    rcases hquad : part.quad with _ | ⟨text, value⟩
    · right
      have hread := read_eq_pieces hquad
      refine ⟨part.pieces, ?_, hlength, pieces_lt h, ?_⟩
      · rw [hread, if_neg (not_not.mpr hlength)]
      · exact iff_of_true rfl fun hdot => absurd hdot (dot_not_mem h hquad)
    · left
      obtain ⟨rows, quad⟩ := part
      obtain rfl : quad = some (text, value) := hquad
      have hshort : (read ⟨rows, some (text, value)⟩).length ≠ 8 := by
        simp only [read, quadRead, Part.pieces, List.length_append, List.length_map,
          List.length_cons, List.length_nil] at hlength ⊢
        omega
      refine ⟨if_pos hshort, fun hzero => ?_⟩
      have hnone := hzero (dot_mem (h.quad text value rfl))
      rw [zeroTail, splitDouble_part h] at hnone
      cases hnone

/-- The console has one piece for the two of the quad, and one more zero before it. -/
theorem compressed_quad {front : List ℕ} {rows : List (List Char)} {text : List Char} {value : ℕ}
    (hquad : DottedQuad text value)
    (hlength : front.length + (⟨rows, some (text, value)⟩ : Part).pieces.length ≤ 7) :
    front ++ List.replicate (8 - front.length - (read ⟨rows, some (text, value)⟩).length) 0 ++
          read ⟨rows, some (text, value)⟩ =
        front ++ List.replicate
            (8 - front.length - (⟨rows, some (text, value)⟩ : Part).pieces.length) 0 ++
          (⟨rows, some (text, value)⟩ : Part).pieces ↔
      (∀ piece ∈ rows.map hexadecimal, piece = 0) ∧ value = 0 := by
  have hread : read ⟨rows, some (text, value)⟩ =
      rows.map hexadecimal ++ [hexadecimal (text.takeWhile isHex)] := rfl
  have hpieces : (⟨rows, some (text, value)⟩ : Part).pieces =
      rows.map hexadecimal ++ [value / 65536, value % 65536] := rfl
  obtain ⟨-, -, hfirst⟩ := quad_read hquad
  rw [hpieces, List.length_append, List.length_cons, List.length_cons, List.length_nil] at hlength
  have hzeros : 8 - front.length -
      (rows.map hexadecimal ++ [hexadecimal (text.takeWhile isHex)]).length =
        8 - front.length - (rows.map hexadecimal ++ [value / 65536, value % 65536]).length + 1 := by
    rw [List.length_append, List.length_append]
    simp only [List.length_cons, List.length_nil]
    omega
  rw [hread, hpieces, hzeros, List.replicate_succ', List.append_assoc, List.append_assoc,
    List.append_assoc, List.append_cancel_left_eq, List.append_cancel_left_eq,
    List.singleton_append, shifted_iff]
  apply and_congr_right
  intro _
  constructor
  · rintro ⟨hhigh, hlow⟩
    have hzero := hfirst.mpr (by omega)
    omega
  · rintro rfl
    exact ⟨rfl, hfirst.mpr rfl⟩

theorem understood_compressed {head rest : Part} (hhead : head.Valid) (hrest : rest.Valid)
    (hnone : head.quad = none) (hlength : head.pieces.length + rest.pieces.length ≤ 7) :
    Understood (head.text ++ ':' :: ':' :: rest.text)
      (head.pieces ++ List.replicate (8 - head.pieces.length - rest.pieces.length) 0 ++
        rest.pieces) where
  length := by
    rw [List.length_append, List.length_append, List.length_replicate]
    omega
  lt piece hpiece := by
    rcases List.mem_append.mp hpiece with hfirst | hlast
    · rcases List.mem_append.mp hfirst with hmem | hzero
      · exact pieces_lt hhead piece hmem
      · rw [List.eq_of_mem_replicate hzero]
        decide
    · exact pieces_lt hrest piece hlast
  groups := by
    right
    have hshort : (read rest).length ≤ rest.pieces.length := by
      rw [read, Part.pieces, List.length_append, List.length_append]
      rcases rest.quad with _ | ⟨text, value⟩
      · exact Nat.le_refl _
      · simp [quadRead]
    have hfront := read_eq_pieces hnone
    refine ⟨_, groups_compressed hhead hrest (by rw [hfront]; omega), ?_, ?_, ?_⟩
    · rw [List.length_append, List.length_append, List.length_replicate, hfront]
      omega
    · intro piece hpiece
      rcases List.mem_append.mp hpiece with hfirst | hlast
      · rcases List.mem_append.mp hfirst with hmem | hzero
        · exact read_lt hhead piece hmem
        · rw [List.eq_of_mem_replicate hzero]
          decide
      · exact read_lt hrest piece hlast
    · rw [hfront, zeroTail_compressed hhead hrest]
      rcases hquad : rest.quad with _ | ⟨text, value⟩
      · rw [read_eq_pieces hquad]
        refine iff_of_true rfl fun hdot => ?_
        rw [List.mem_append, List.mem_cons, List.mem_cons] at hdot
        rcases hdot with hdot | hcolon | hcolon | hdot
        · exact absurd hdot (dot_not_mem hhead hnone)
        · exact absurd hcolon (by decide)
        · exact absurd hcolon (by decide)
        · exact absurd hdot (dot_not_mem hrest hquad)
      · obtain ⟨rows, quad⟩ := rest
        obtain rfl : quad = some (text, value) := hquad
        have hdot : '.' ∈ head.text ++ ':' :: ':' :: (⟨rows, some (text, value)⟩ : Part).text :=
          List.mem_append_right _ (.tail _ (.tail _ (dot_mem (hrest.quad text value rfl))))
        rw [imp_iff_right hdot, zeros_iff hrest]
        exact compressed_quad (hrest.quad text value rfl) hlength

theorem understood {text : List Char} {n : ℕ} (h : V6Text text n) :
    ∃ pieces, n = ofPieces pieces ∧ Understood text pieces := by
  cases h with
  | full part hvalid hlength => exact ⟨_, rfl, understood_full hvalid hlength⟩
  | compressed head rest hhead hrest hquad hlength =>
      exact ⟨_, rfl, understood_compressed hhead hrest hquad hlength⟩

theorem zeroTail_map_toLower (text : List Char) :
    zeroTail (text.map Char.toLower) = zeroTail text := by
  have hzero : ∀ c : Char, c.toLower = '0' ↔ c = '0' := fun c =>
    toLower_eq (d := '0') (by decide) (by decide)
  have hcolon : ∀ c : Char, c.toLower = ':' ↔ c = ':' := fun c =>
    toLower_eq (d := ':') (by decide) (by decide)
  have hdot : ∀ c : Char, c.toLower = '.' ↔ c = '.' := fun c =>
    toLower_eq (d := '.') (by decide) (by decide)
  unfold zeroTail
  rw [splitDouble_map_toLower, List.getElem?_map]
  cases (splitDouble text)[1]? with
  | none => rfl
  | some tail =>
      simp only [Option.map_some, Option.any_some, List.all_map, Function.comp_def, hzero, hcolon,
        hdot]

/-- Both print the four bytes of a dotted quad, the last first. -/
theorem four (zone : List Char → Bool) {host : List Char} {value : ℕ}
    (h : DottedQuad (named host) value) :
    procAddress zone host = .ok (kernelText ⟨.four, value⟩) ∧
      hexAddress host = .ok (kernelText ⟨.four, value⟩) := by
  have hv4 : v4 (named host) = some value := v4_iff.mpr h
  have hpython : hexAddress host = .ok (kernelText ⟨.four, value⟩) := by
    unfold hexAddress inetPton4
    dsimp only
    rw [hv4, kernelText_four]
    rfl
  refine ⟨?_, hpython⟩
  obtain ⟨a, b, c, d, ha, hb, hc, hd, htext, hvalue⟩ := h
  have hoctets : (named host).splitOn '.' =
      [Nat.toDigits 10 a, Nat.toDigits 10 b, Nat.toDigits 10 c, Nat.toDigits 10 d] := by
    rw [htext]
    exact splitOn_quad ha hb hc hd
  have hpacked : packed 4 value = [a, b, c, d] := by
    have hbytes : value / 16777216 % 256 = a ∧ value / 65536 % 256 = b ∧ value / 256 % 256 = c ∧
        value % 256 = d := by omega
    obtain ⟨h1, h2, h3, h4⟩ := hbytes
    rw [← h1, ← h2, ← h3, ← h4]
    simp [packed, List.range_succ]
  have hfour : isIPv4 (named host) = true := by
    rw [isIPv4, hv4]
    rfl
  unfold procAddress
  dsimp only
  rw [if_pos hfour, hoctets, kernelText_four, hpacked]
  simp only [List.map_cons, List.map_nil, (isOctet_toDigits a ha).2, (isOctet_toDigits b hb).2,
    (isOctet_toDigits c hc).2, (isOctet_toDigits d hd).2, List.reverse_cons, List.reverse_nil,
    List.nil_append, List.cons_append, List.flatMap_cons, List.flatMap_nil, hexOf,
    byteText_eq a ha, byteText_eq b hb, byteText_eq c hc, byteText_eq d hd]

/-- What the console answers to a text that is no dotted quad. -/
theorem procAddress_six {zone : List Char → Bool} {host : List Char} (h : v4 (named host) = none) :
    procAddress zone host =
      if isIPv6 zone (named host) then
        match groups (named host) with
        | none => .error (String.ofList (named host) ++ " is not an IPv6 address")
        | some groups =>
          .ok ⟨.tcp6, upper ((reversedWords (groups.flatMap bytesOf)).flatMap byteText)⟩
      else .error (notAnAddress (named host)) := by
  have hfour : isIPv4 (named host) = false := by
    rw [isIPv4, h]
    rfl
  unfold procAddress
  dsimp only
  rw [hfour, if_neg Bool.false_ne_true]
  cases isIPv6 zone (named host) <;> rfl

theorem hexAddress_six {host : List Char} (h : v4 (named host) = none) : hexAddress host =
      match inetPton6 (named host) with
      | some bytes => .ok ⟨.tcp6, upper (hexOf (reversedWords bytes))⟩
      | none => .error (notAnAddress (named host)) := by
  unfold hexAddress inetPton4
  dsimp only
  rw [h]
  rfl

theorem isIPv6_of_not_mem {zone : List Char → Bool} {host : List Char} (h : '%' ∉ host) :
    isIPv6 zone host = (v6 host).isSome := by
  have hdrop : host.dropWhile (· ≠ '%') = [] := by
    rw [List.dropWhile_eq_nil_iff]
    intro c hc
    rw [decide_eq_true_eq]
    rintro rfl
    exact h hc
  rw [isIPv6, hdrop, Bool.and_true]

/-- A zone: the supervisor refuses the text, and the console does if the pieces are uneven. -/
theorem agrees_zone {zone : List Char → Bool} {host : List Char} (hfour : v4 (named host) = none)
    (hzone : '%' ∈ named host) : Agrees zone host ↔ Simple zone host := by
  have hrefused : (hexAddress host).isOk = false := by
    rw [hexAddress_six hfour, inetPton6, if_pos hzone]
    rfl
  have hagrees : Agrees zone host ↔ (procAddress zone host).isOk = false := by
    constructor
    · rintro (⟨hconsole, -⟩ | ⟨address, -, -, hok⟩)
      · exact hconsole
      · rw [hok] at hrefused
        nomatch hrefused
    · exact fun hconsole => .inl ⟨hconsole, hrefused⟩
  rw [hagrees, Simple, if_pos hzone, ← groups_eq_none, procAddress_six hfour]
  cases isIPv6 zone (named host) with
  | false => simp [Except.isOk, Except.toBool]
  | true =>
      rw [if_pos rfl, imp_iff_right rfl]
      cases groups (named host) with
      | none => simp [Except.isOk, Except.toBool]
      | some groups => simp [Except.isOk, Except.toBool]

/-- No zone: the supervisor reads the pieces, and the console those it understands. -/
theorem agrees_plain {zone : List Char → Bool} {host : List Char} (hfour : v4 (named host) = none)
    (hzone : '%' ∉ named host) : Agrees zone host ↔ Simple zone host := by
  have hlower : '%' ∉ (named host).map Char.toLower := by
    rwa [mem_map_toLower (by decide) (by decide)]
  have hwhole : ((named host).map Char.toLower).takeWhile (· ≠ '%') =
      (named host).map Char.toLower := by
    rw [List.takeWhile_eq_self_iff]
    intro c hc
    rw [decide_eq_true_eq]
    rintro rfl
    exact hlower hc
  rw [Simple, if_neg hzone, isIPv6_of_not_mem hzone]
  cases hsix : v6 (named host) with
  | none =>
      refine iff_of_true (.inl ⟨?_, ?_⟩) fun hsome => (nomatch hsome)
      · rw [procAddress_six hfour, isIPv6_of_not_mem hzone, hsix]
        rfl
      · rw [hexAddress_six hfour, inetPton6, if_neg hzone, hsix]
        rfl
  | some value =>
      have htext : V6Text ((named host).map Char.toLower) value := hwhole ▸ v6_iff.mp hsix
      obtain ⟨pieces, rfl, hunderstood⟩ := understood htext
      have hpython : hexAddress host = .ok (kernelText ⟨.six, ofPieces pieces⟩) := by
        rw [hexAddress_six hfour, inetPton6, if_neg hzone, hsix, kernelText_six]
        rfl
      have hplain : Plain (named host) ⟨.six, ofPieces pieces⟩ := by
        have h := Plain.six [] (.inl rfl) htext
        rwa [List.append_nil] at h
      have hdot : '.' ∈ (named host).map Char.toLower ↔ '.' ∈ named host :=
        mem_map_toLower (by decide) (by decide)
      have hconsole : procAddress zone host = match groups (named host) with
          | none => .error (String.ofList (named host) ++ " is not an IPv6 address")
          | some groups =>
            .ok ⟨.tcp6, upper ((reversedWords (groups.flatMap bytesOf)).flatMap byteText)⟩ := by
        rw [procAddress_six hfour, isIPv6_of_not_mem hzone, hsix]
        rfl
      rw [Option.isSome_some, imp_iff_right rfl]
      have hgroups := hunderstood.groups
      rw [groups_map_toLower, hdot, zeroTail_map_toLower] at hgroups
      rcases hgroups with ⟨hnone, hnot⟩ | ⟨seen, hseen, hlength, hlt, hsame⟩
      · refine iff_of_false ?_ hnot
        rintro (⟨-, hrefused⟩ | ⟨address, -, hok, -⟩)
        · rw [hpython] at hrefused
          nomatch hrefused
        · rw [hconsole, hnone] at hok
          nomatch hok
      · have hprinted : procAddress zone host = .ok (kernelText ⟨.six, ofPieces seen⟩) := by
          rw [hconsole, hseen, ← printed_eq hlt hlength]
        rw [← hsame]
        constructor
        · rintro (⟨-, hrefused⟩ | ⟨address, -, hok, hok'⟩)
          · rw [hpython] at hrefused
            nomatch hrefused
          · rw [hprinted] at hok
            rw [hpython] at hok'
            exact kernelText_inj hlt hunderstood.lt hlength hunderstood.length
              ((Except.ok.inj hok).trans (Except.ok.inj hok').symm)
        · rintro rfl
          exact .inr ⟨_, hplain, hprinted, hpython⟩

/-- The console and the supervisor agree on a text, and print what the kernel does,
exactly if the text is simple. -/
theorem listener_law (zone : List Char → Bool) (host : List Char) :
    Agrees zone host ↔ Simple zone host := by
  cases hfour : v4 (named host) with
  | some value =>
      have hquad := v4_iff.mp hfour
      obtain ⟨hconsole, hsupervisor⟩ := four zone hquad
      refine iff_of_true (.inr ⟨_, .four hquad, hconsole, hsupervisor⟩) fun hsix => ?_
      -- a dotted quad has no colon
      obtain ⟨value', hsome⟩ := Option.isSome_iff_exists.mp ((Bool.and_eq_true _ _).mp hsix).1
      have hcolon := (v6Text_chars (v6_iff.mp hsome)).1
      have hmem := (mem_map_toLower (by decide) (by decide)).mp (List.takeWhile_subset _ hcolon)
      exact absurd hmem (quad_chars hquad).2.1
  | none =>
      by_cases hzone : '%' ∈ named host
      · exact agrees_zone hfour hzone
      · exact agrees_plain hfour hzone

/-- The address that maps 127.0.0.1: the console reads the quad as the piece 0x127. -/
theorem mapped_disagrees : ¬ Agrees (fun _ => false) "::ffff:127.0.0.1".toList := by
  rintro (⟨hrefused, -⟩ | ⟨address, -, hconsole, hsupervisor⟩)
  · exact absurd hrefused (by decide)
  · exact absurd (hconsole.trans hsupervisor.symm) (by decide)

end Sbarbase.Handover.Proofs.ProcAddress
