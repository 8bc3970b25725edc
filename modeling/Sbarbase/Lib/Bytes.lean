import Mathlib.Algebra.Group.Int.Defs
import Mathlib.Algebra.Group.Nat.Defs
import Mathlib.Data.Int.Notation
import Mathlib.Data.List.Basic
/-!
# Bytes

Integers, texts and terminated texts in a list of bytes. UTF-8 is decoded as a
buffer's `toString` does: what is no character becomes a replacement character,
one for each maximal part.
-/

namespace Sbarbase.Lib

abbrev Bytes := List UInt8

/-- `readInt32BE`, of four bytes. -/
def int32BE (bytes : Bytes) : ℤ :=
  let value : ℤ := bytes.foldl (fun n byte => n * 256 + byte.toNat) 0
  if value < 2 ^ 31 then value else value - 2 ^ 32

/-! ## UTF-8 -/

def replacement : Char := Char.ofNat 0xFFFD

/-- Between two bytes: how many continuation bytes are missing, the value so far, and the bounds of
the next one. -/
structure Utf8 where
  need : ℕ
  value : ℕ
  lower : ℕ
  upper : ℕ

namespace Utf8

def idle : Utf8 := ⟨0, 0, 0x80, 0xBF⟩

/-- The first byte of a character. -/
def start (byte : ℕ) : List Char × Utf8 :=
  if byte < 0x80 then ([Char.ofNat byte], idle)
  else if byte < 0xC2 then ([replacement], idle)
  else if byte < 0xE0 then ([], ⟨1, byte - 0xC0, 0x80, 0xBF⟩)
  else if byte < 0xF0 then
    ([], ⟨2, byte - 0xE0, if byte = 0xE0 then 0xA0 else 0x80, if byte = 0xED then 0x9F else 0xBF⟩)
  else if byte < 0xF5 then
    ([], ⟨3, byte - 0xF0, if byte = 0xF0 then 0x90 else 0x80, if byte = 0xF4 then 0x8F else 0xBF⟩)
  else ([replacement], idle)

def next (s : Utf8) (byte : ℕ) : List Char × Utf8 :=
  if s.need = 0 then start byte
  else if s.lower ≤ byte ∧ byte ≤ s.upper then
    let value := s.value * 64 + byte % 64
    if s.need = 1 then ([Char.ofNat value], idle) else ([], ⟨s.need - 1, value, 0x80, 0xBF⟩)
  else (replacement :: (start byte).1, (start byte).2)

def decode (s : Utf8) : Bytes → List Char
  | [] => if s.need = 0 then [] else [replacement]
  | byte :: bytes => (s.next byte.toNat).1 ++ (s.next byte.toNat).2.decode bytes

/-- What the missing bytes complete is a character beyond ASCII. -/
def Deep : ℕ → ℕ → ℕ → ℕ → Prop
  | 0, _, _, _ => False
  | 1, value, lower, upper => ∀ byte, lower ≤ byte → byte ≤ upper →
    (value * 64 + byte % 64).isValidChar ∧ 0x80 ≤ value * 64 + byte % 64
  | need + 2, value, lower, upper => ∀ byte, lower ≤ byte → byte ≤ upper →
    Deep (need + 1) (value * 64 + byte % 64) 0x80 0xBF

theorem deep_one {value : ℕ} (hlow : 2 ≤ value) (hsurrogate : value < 864 ∨ 895 < value)
    (hhigh : value ≤ 17407) : Deep 1 value 0x80 0xBF := by
  intro byte hlower hupper
  have hmod : byte % 64 = byte - 128 := by omega
  refine ⟨?_, by omega⟩
  rw [Nat.isValidChar]
  omega

theorem deep_two {value : ℕ} (hlow : 16 ≤ value) (hhigh : value ≤ 271) :
    Deep 2 value 0x80 0xBF := by
  intro byte hlower hupper
  apply deep_one <;> omega

theorem deep_start {byte : ℕ} (h : 0xC2 ≤ byte) (h' : byte < 0xF5) :
    (start byte).1 = [] ∧ Deep (start byte).2.need (start byte).2.value (start byte).2.lower
      (start byte).2.upper := by
  have hascii : ¬ byte < 0x80 := by omega
  have hlead : ¬ byte < 0xC2 := by omega
  by_cases htwo : byte < 0xE0
  · simp only [start, hascii, hlead, htwo, if_false, if_true]
    exact ⟨trivial, deep_one (by omega) (by omega) (by omega)⟩
  · by_cases hthree : byte < 0xF0
    · simp only [start, hascii, hlead, htwo, hthree, if_false, if_true]
      refine ⟨trivial, ?_⟩
      intro next hlower hupper
      apply deep_one <;> split_ifs at hlower hupper <;> omega
    · simp only [start, hascii, hlead, htwo, hthree, h', if_false, if_true]
      refine ⟨trivial, ?_⟩
      intro next hlower hupper
      apply deep_two <;> split_ifs at hlower hupper <;> omega

theorem toNat_ofNat {n : ℕ} (h : n.isValidChar) : (Char.ofNat n).toNat = n := by
  rw [Char.ofNat, dif_pos h]
  rfl

theorem toNat_replacement : replacement.toNat = 0xFFFD := by decide

/-- A character under way is none of ASCII, whatever follows. -/
theorem decode_deep (bytes : Bytes) {s : Utf8} (h : Deep s.need s.value s.lower s.upper) :
    ∃ c ∈ s.decode bytes, 0x80 ≤ c.toNat := by
  induction bytes generalizing s with
  | nil =>
    have hneed : s.need ≠ 0 := by
      intro hzero
      rw [hzero] at h
      exact h
    refine ⟨replacement, ?_, by rw [toNat_replacement]; decide⟩
    rw [decode, if_neg hneed]
    exact List.mem_singleton_self _
  | cons byte bytes ih =>
    obtain ⟨need, value, lower, upper⟩ := s
    match need, h with
    | 1, h =>
      by_cases hrange : lower ≤ byte.toNat ∧ byte.toNat ≤ upper
      · obtain ⟨hvalid, hdeep⟩ := h byte.toNat hrange.1 hrange.2
        refine ⟨Char.ofNat (value * 64 + byte.toNat % 64), ?_, ?_⟩
        · rw [decode, next, if_neg Nat.one_ne_zero, if_pos hrange, if_pos rfl]
          exact List.mem_append_left _ (List.mem_singleton_self _)
        · rw [toNat_ofNat hvalid]
          exact hdeep
      · refine ⟨replacement, ?_, by rw [toNat_replacement]; decide⟩
        rw [decode, next, if_neg Nat.one_ne_zero, if_neg hrange]
        exact List.mem_append_left _ List.mem_cons_self
    | need + 2, h =>
      have hneed : need + 2 ≠ 0 := by omega
      by_cases hrange : lower ≤ byte.toNat ∧ byte.toNat ≤ upper
      · have hmore : need + 2 ≠ 1 := by omega
        obtain ⟨c, hmem, hdeep⟩ := ih (s := ⟨need + 1, value * 64 + byte.toNat % 64, 0x80, 0xBF⟩)
          (h byte.toNat hrange.1 hrange.2)
        refine ⟨c, ?_, hdeep⟩
        rw [decode, next, if_neg hneed, if_pos hrange]
        simp only [if_neg hmore]
        exact List.mem_append_right _ hmem
      · refine ⟨replacement, ?_, by rw [toNat_replacement]; decide⟩
        rw [decode, next, if_neg hneed, if_neg hrange]
        exact List.mem_append_left _ List.mem_cons_self

end Utf8

/-- `toString('utf8')` -/
def decodeUtf8 (bytes : Bytes) : List Char := Utf8.idle.decode bytes

/-- The bytes of a text of ASCII characters. -/
def asciiBytes (text : List Char) : Bytes := text.map fun c => UInt8.ofNat c.toNat

theorem decodeUtf8_cons {byte : UInt8} (bytes : Bytes) (h : byte.toNat < 0x80) :
    decodeUtf8 (byte :: bytes) = Char.ofNat byte.toNat :: decodeUtf8 bytes := by
  unfold decodeUtf8
  rw [Utf8.decode]
  have hnext : Utf8.idle.next byte.toNat = ([Char.ofNat byte.toNat], Utf8.idle) := by
    simp only [Utf8.next, Utf8.start, Utf8.idle, if_true, h]
  rw [hnext]
  rfl

/-- Only its own bytes decode to a text of ASCII characters. -/
theorem decodeUtf8_eq_iff {bytes : Bytes} {text : List Char} (h : ∀ c ∈ text, c.toNat < 0x80) :
    decodeUtf8 bytes = text ↔ bytes = asciiBytes text := by
  induction bytes generalizing text with
  | nil =>
    cases text with
    | nil => exact ⟨fun _ => rfl, fun _ => rfl⟩
    | cons c text => exact ⟨(fun hfalse => nomatch hfalse), fun hfalse => nomatch hfalse⟩
  | cons byte bytes ih =>
    by_cases hascii : byte.toNat < 0x80
    · rw [decodeUtf8_cons bytes hascii]
      cases text with
      | nil => exact ⟨(fun hfalse => nomatch hfalse), fun hfalse => nomatch hfalse⟩
      | cons c text =>
        have hrest := ih fun c hmem => h c (List.mem_cons_of_mem _ hmem)
        have hc := h c List.mem_cons_self
        have hhead : Char.ofNat byte.toNat = c ↔ byte = UInt8.ofNat c.toNat := by
          constructor
          · rintro rfl
            have hvalid : byte.toNat.isValidChar := .inl (by omega)
            rw [Utf8.toNat_ofNat hvalid]
            exact (UInt8.ofNat_toNat).symm
          · rintro rfl
            rw [UInt8.toNat_ofNat', Nat.mod_eq_of_lt (by omega)]
            exact Char.ofNat_toNat c
        rw [asciiBytes, List.map_cons, List.cons.injEq, List.cons.injEq, hhead, hrest]
        rfl
    · have hnot : ∃ c ∈ decodeUtf8 (byte :: bytes), 0x80 ≤ c.toNat := by
        have hbyte : byte.toNat < 256 := byte.toNat_lt
        have hnext : Utf8.idle.next byte.toNat = Utf8.start byte.toNat := if_pos rfl
        unfold decodeUtf8
        rw [Utf8.decode, hnext]
        by_cases hlead : 0xC2 ≤ byte.toNat ∧ byte.toNat < 0xF5
        · obtain ⟨hnone, hdeep⟩ := Utf8.deep_start hlead.1 hlead.2
          rw [hnone]
          exact Utf8.decode_deep bytes hdeep
        · refine ⟨replacement, ?_, by rw [Utf8.toNat_replacement]; decide⟩
          apply List.mem_append_left
          unfold Utf8.start
          split_ifs <;> first | omega | exact List.mem_singleton_self _
      constructor
      · rintro rfl
        obtain ⟨c, hmem, hlarge⟩ := hnot
        exact absurd (h c hmem) (Nat.not_lt.mpr hlarge)
      · intro hbytes
        cases text with
        | nil => nomatch hbytes
        | cons c text =>
          have hc := h c List.mem_cons_self
          have hbyte : byte = UInt8.ofNat c.toNat := (List.cons.inj hbytes).1
          rw [hbyte, UInt8.toNat_ofNat', Nat.mod_eq_of_lt (by omega)] at hascii
          exact absurd hc hascii

/-! ## Terminated texts -/

/-- The bytes up to the first NUL, and those after it. -/
def splitNul : Bytes → Option (Bytes × Bytes)
  | [] => none
  | byte :: bytes =>
    if byte = 0 then some ([], bytes) else (splitNul bytes).map fun (a, b) => (byte :: a, b)

theorem length_splitNul {bytes a b : Bytes} (h : splitNul bytes = some (a, b)) :
    bytes.length = a.length + 1 + b.length := by
  induction bytes generalizing a with
  | nil => nomatch h
  | cons byte bytes ih =>
    rw [splitNul] at h
    split at h
    · obtain ⟨rfl, rfl⟩ := Prod.mk.inj (Option.some.inj h)
      simp [Nat.add_comm]
    · obtain ⟨⟨a', b'⟩, hrest, hpair⟩ := Option.map_eq_some_iff.mp h
      obtain ⟨rfl, rfl⟩ := Prod.mk.inj hpair
      have hlength := ih hrest
      simp only [List.length_cons]
      omega

end Sbarbase.Lib
