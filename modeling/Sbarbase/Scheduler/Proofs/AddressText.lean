import Mathlib.Algebra.Group.Int.Defs
import Mathlib.Algebra.Group.Nat.Defs
import Sbarbase.Scheduler.Address
import Mathlib.Data.List.Basic
/-!
# The texts of an address

A dotted quad is four decimal numbers below 256. An IPv6 text is eight pieces of
sixteen bits, each one to four hexadecimal digits; a dotted quad may stand for
the last two, and `::` once for one or more pieces that are zero. The readers of
the model accept these texts, with the brackets and the zone they allow for.
-/

namespace Sbarbase.Scheduler.Proofs.AddressText

open Lib

/-! ## The forms -/

def DottedQuad (text : List Char) (value : ℕ) : Prop :=
  ∃ a b c d, a < 256 ∧ b < 256 ∧ c < 256 ∧ d < 256 ∧
    text = Nat.toDigits 10 a ++ '.' :: (Nat.toDigits 10 b ++ '.' ::
      (Nat.toDigits 10 c ++ '.' :: Nat.toDigits 10 d)) ∧
    value = ((a * 256 + b) * 256 + c) * 256 + d

/-- Groups with a colon between each two. -/
def join (groups : List (List Char)) : List Char := [':'].intercalate groups

/-- A row of groups, with or without a dotted quad at its end. -/
structure Part where
  groups : List (List Char)
  quad : Option (List Char × ℕ)

def Part.text (part : Part) : List Char := join (part.groups ++ (part.quad.map Prod.fst).toList)

/-- The pieces of sixteen bits that the part stands for. -/
def Part.pieces (part : Part) : List ℕ :=
  part.groups.map hexadecimal ++
    match part.quad with
    | none => []
    | some (_, value) => [value / 65536, value % 65536]

structure Part.Valid (part : Part) : Prop where
  groups : ∀ group ∈ part.groups, 1 ≤ group.length ∧ group.length ≤ 4 ∧ ∀ c ∈ group, isHex c = true
  quad : ∀ text value, part.quad = some (text, value) → DottedQuad text value

/-- The number whose digits are the pieces, the most significant first. -/
def ofPieces (pieces : List ℕ) : ℕ := pieces.foldl (fun n piece => n * 65536 + piece) 0

/-- The text of an IPv6 address, in lower case, and its value. -/
inductive V6Text : List Char → ℕ → Prop
  | full (part : Part) (hvalid : part.Valid) (hlength : part.pieces.length = 8) :
      V6Text part.text (ofPieces part.pieces)
  | compressed (head rest : Part) (hhead : head.Valid) (hrest : rest.Valid)
      (hquad : head.quad = none) (hlength : head.pieces.length + rest.pieces.length ≤ 7) :
      V6Text (head.text ++ ':' :: ':' :: rest.text)
        (ofPieces (head.pieces ++
          List.replicate (8 - head.pieces.length - rest.pieces.length) 0 ++ rest.pieces))

/-- The text of an address. A zone may follow an IPv6 address. -/
inductive Plain : List Char → Address → Prop
  | four {text : List Char} {value : ℕ} (h : DottedQuad text value) : Plain text ⟨.four, value⟩
  | six {text : List Char} {value : ℕ} (zone : List Char)
      (hzone : zone = [] ∨ zone.head? = some '%') (h : V6Text (text.map Char.toLower) value) :
      Plain (text ++ zone) ⟨.six, value⟩

/-- A text that stands for an address: brackets may be around it. -/
inductive Spells : List Char → Address → Prop
  | plain {text : List Char} {address : Address} (h : Plain text address) : Spells text address
  | bracketed {text : List Char} {address : Address} (h : Plain text address) :
      Spells ('[' :: (text ++ [']'])) address

/-! ## Numbers -/

theorem isDigit_iff {c : Char} : isDigit c = true ↔ ∃ d < 10, c = Nat.digitChar d := by
  constructor
  · intro h
    simp only [isDigit, Bool.and_eq_true, decide_eq_true_eq, Char.le_def] at h
    obtain ⟨hlow, hhigh⟩ := h
    have hlow : 48 ≤ c.val.toNat := UInt32.le_iff_toNat_le.mp hlow
    have hhigh : c.val.toNat ≤ 57 := UInt32.le_iff_toNat_le.mp hhigh
    refine ⟨c.val.toNat - 48, by omega, ?_⟩
    have hchar : ∀ d < 10, Char.ofNat (d + 48) = Nat.digitChar d := by decide
    rw [← hchar _ (by omega), Nat.sub_add_cancel hlow]
    exact (Char.ofNat_toNat c).symm
  · rintro ⟨d, hd, rfl⟩
    revert d
    decide

theorem isOctet_toDigits :
    ∀ n < 256, isOctet (Nat.toDigits 10 n) = true ∧ decimal (Nat.toDigits 10 n) = n := by
  decide +kernel

theorem octet_one : ∀ a < 10, decimal [Nat.digitChar a] ≤ 255 →
    [Nat.digitChar a] = Nat.toDigits 10 (decimal [Nat.digitChar a]) := by
  decide

theorem digitChar_value : ∀ a < 10, (Nat.digitChar a).toNat - '0'.toNat = a := by decide

theorem toDigits_snoc {n c : ℕ} (hn : 0 < n) (hc : c < 10) :
    Nat.toDigits 10 (10 * n + c) = Nat.toDigits 10 n ++ [Nat.digitChar c] := by
  rw [← Nat.toDigits_append_toDigits (by decide) hn hc, Nat.toDigits_of_lt_base hc]

theorem octet_two : ∀ a < 10, a ≠ 0 → ∀ b < 10, [Nat.digitChar a, Nat.digitChar b] =
      Nat.toDigits 10 (decimal [Nat.digitChar a, Nat.digitChar b]) := by
  intro a ha hzero b hb
  simp only [decimal, List.foldl_cons, List.foldl_nil, digitChar_value a ha, digitChar_value b hb]
  rw [toDigits_snoc (by omega) hb, Nat.mul_zero, Nat.zero_add, Nat.toDigits_of_lt_base ha]
  rfl

theorem octet_three : ∀ a < 10, a ≠ 0 → ∀ b < 10, ∀ c < 10,
    [Nat.digitChar a, Nat.digitChar b, Nat.digitChar c] =
      Nat.toDigits 10 (decimal [Nat.digitChar a, Nat.digitChar b, Nat.digitChar c]) := by
  intro a ha hzero b hb c hc
  simp only [decimal, List.foldl_cons, List.foldl_nil, digitChar_value a ha, digitChar_value b hb,
    digitChar_value c hc]
  rw [toDigits_snoc (by omega) hc, toDigits_snoc (by omega) hb, Nat.mul_zero, Nat.zero_add,
    Nat.toDigits_of_lt_base ha]
  rfl

theorem isOctet_iff {part : List Char} {n : ℕ} :
    (isOctet part = true ∧ decimal part = n ∧ n ≤ 255) ↔ n < 256 ∧ part = Nat.toDigits 10 n := by
  constructor
  · rintro ⟨hoctet, rfl, hle⟩
    refine ⟨by omega, ?_⟩
    cases part with
    | nil => exact absurd hoctet (by decide)
    | cons first rest =>
      simp only [isOctet, Bool.or_eq_true, Bool.and_eq_true, decide_eq_true_eq,
        List.isEmpty_iff] at hoctet
      rcases hoctet with ⟨rfl, rfl⟩ | ⟨⟨⟨hlow, hhigh⟩, hdigits⟩, hlength⟩
      · rfl
      have hfirst : isDigit first = true := by
        simp only [isDigit, Bool.and_eq_true, decide_eq_true_eq]
        exact ⟨Char.le_trans (by decide) hlow, hhigh⟩
      obtain ⟨a, ha, rfl⟩ := isDigit_iff.mp hfirst
      have hzero : a ≠ 0 := by
        rintro rfl
        exact absurd hlow (by decide)
      match rest, hdigits, hlength with
      | [], _, _ => exact octet_one a ha hle
      | [second], hdigits, _ =>
        simp only [List.all_cons, List.all_nil, Bool.and_true] at hdigits
        obtain ⟨b, hb, rfl⟩ := isDigit_iff.mp hdigits
        exact octet_two a ha hzero b hb
      | [second, third], hdigits, _ =>
        simp only [List.all_cons, List.all_nil, Bool.and_true, Bool.and_eq_true] at hdigits
        obtain ⟨b, hb, rfl⟩ := isDigit_iff.mp hdigits.1
        obtain ⟨c, hc, rfl⟩ := isDigit_iff.mp hdigits.2
        exact octet_three a ha hzero b hb c hc
  · rintro ⟨hn, rfl⟩
    obtain ⟨hoctet, hvalue⟩ := isOctet_toDigits n hn
    exact ⟨hoctet, hvalue, by omega⟩

theorem toDigits_chars : ∀ n < 256, ∀ c ∈ Nat.toDigits 10 n, isDigit c = true := by
  intro n _ c hc
  have hdigit := Nat.isDigit_of_mem_toDigits (by decide) (by decide) hc
  simpa only [Char.isDigit, isDigit, Char.le_def, ge_iff_le, Bool.and_eq_true,
    decide_eq_true_eq] using hdigit

theorem shiftLeft_or {n i m : ℕ} (h : m < 2 ^ i) : n <<< i ||| m = n * 2 ^ i + m := by
  rw [← Nat.shiftLeft_add_eq_or_of_lt h, Nat.shiftLeft_eq]

/-! ## Splitting -/

theorem splitOn_quad {a b c d : ℕ} (ha : a < 256) (hb : b < 256) (hc : c < 256) (hd : d < 256) :
    (Nat.toDigits 10 a ++ '.' :: (Nat.toDigits 10 b ++ '.' ::
        (Nat.toDigits 10 c ++ '.' :: Nat.toDigits 10 d))).splitOn '.' =
      [Nat.toDigits 10 a, Nat.toDigits 10 b, Nat.toDigits 10 c, Nat.toDigits 10 d] := by
  have hdot : ∀ n < 256, '.' ∉ Nat.toDigits 10 n := by
    intro n hn hmem
    exact absurd (toDigits_chars n hn _ hmem) (by decide)
  rw [List.splitOn_append_cons_self_of_not_mem (hdot a ha),
    List.splitOn_append_cons_self_of_not_mem (hdot b hb),
    List.splitOn_append_cons_self_of_not_mem (hdot c hc), List.splitOn_eq_singleton (hdot d hd)]

theorem v4_iff {text : List Char} {value : ℕ} : v4 text = some value ↔ DottedQuad text value := by
  simp only [v4]
  constructor
  · intro h
    split at h
    · nomatch h
    next hparts =>
      simp only [not_or, ne_eq, not_not, List.any_eq_true, Bool.or_eq_true, Bool.not_eq_true',
        decide_eq_true_eq, not_exists, not_and, Nat.not_lt, Bool.not_eq_false] at hparts
      obtain ⟨hlength, hoctets⟩ := hparts
      have htext : ['.'].intercalate (text.splitOn '.') = text := List.intercalate_splitOn '.'
      generalize text.splitOn '.' = parts at *
      match parts, hlength with
      | [a, b, c, d], _ =>
        have hoctet : ∀ part ∈ [a, b, c, d], decimal part < 256 ∧
            part = Nat.toDigits 10 (decimal part) := by
          intro part hpart
          have hpart := hoctets part hpart
          exact isOctet_iff.mp ⟨hpart.1, rfl, hpart.2⟩
        simp only [List.mem_cons, List.not_mem_nil, or_false, forall_eq_or_imp, forall_eq] at hoctet
        obtain ⟨⟨ha, hta⟩, ⟨hb, htb⟩, ⟨hc, htc⟩, hd, htd⟩ := hoctet
        refine ⟨_, _, _, _, ha, hb, hc, hd, ?_, ?_⟩
        · rw [← hta, ← htb, ← htc, ← htd, ← htext]
          simp [List.intercalate]
        · simp only [List.foldl_cons, List.foldl_nil, Option.some.injEq] at h
          rw [shiftLeft_or (i := 8) hd, shiftLeft_or (i := 8) hc, shiftLeft_or (i := 8) hb,
            shiftLeft_or (i := 8) ha] at h
          omega
  · rintro ⟨a, b, c, d, ha, hb, hc, hd, htext, rfl⟩
    have hsplit : text.splitOn '.' =
        [Nat.toDigits 10 a, Nat.toDigits 10 b, Nat.toDigits 10 c, Nat.toDigits 10 d] := by
      rw [htext]
      exact splitOn_quad ha hb hc hd
    rw [hsplit, if_neg]
    · have hva := (isOctet_toDigits a ha).2
      have hvb := (isOctet_toDigits b hb).2
      have hvc := (isOctet_toDigits c hc).2
      have hvd := (isOctet_toDigits d hd).2
      simp only [List.foldl_cons, List.foldl_nil, hva, hvb, hvc, hvd, Option.some.injEq]
      rw [shiftLeft_or (i := 8) hd, shiftLeft_or (i := 8) hc, shiftLeft_or (i := 8) hb,
        shiftLeft_or (i := 8) ha]
      omega
    · have hall : ∀ n < 256, (!isOctet (Nat.toDigits 10 n) ||
          decide (255 < decimal (Nat.toDigits 10 n))) = false := by
        intro n hn
        obtain ⟨hoctet, hvalue⟩ := isOctet_toDigits n hn
        rw [hoctet, hvalue]
        simpa using (by omega : n ≤ 255)
      simp only [List.any_cons, List.any_nil, hall a ha, hall b hb, hall c hc, hall d hd]
      simp

/-! ## Groups and `::` -/

/-- What the reader makes of a group: it holds no separator and is not empty. -/
theorem isGroup_iff {group : List Char} : isGroup group = true ↔
    1 ≤ group.length ∧ group.length ≤ 4 ∧ ∀ c ∈ group, isHex c = true := by
  simp [isGroup, and_assoc]

theorem colon_not_mem {group : List Char} (h : isGroup group = true) : ':' ∉ group := by
  intro hmem
  exact absurd ((isGroup_iff.mp h).2.2 _ hmem) (by decide)

theorem group_ne_nil {group : List Char} (h : isGroup group = true) : group ≠ [] := by
  rintro rfl
  exact absurd (isGroup_iff.mp h).1 (by decide)

theorem join_cons_cons (group next : List Char) (groups : List (List Char)) :
    join (group :: next :: groups) = group ++ ':' :: join (next :: groups) := by
  simp [join, List.intercalate]

theorem splitDouble_cons {c : Char} (hc : c ≠ ':') (rest : List Char) :
    splitDouble (c :: rest) = (splitDouble rest).modifyHead (c :: ·) := by
  cases rest with
  | nil => rfl
  | cons d rest => rw [splitDouble, if_neg (fun h => hc h.1)]

theorem splitDouble_colon {c : Char} (hc : c ≠ ':') (rest : List Char) :
    splitDouble (':' :: c :: rest) = (splitDouble (c :: rest)).modifyHead (':' :: ·) := by
  rw [splitDouble, if_neg (fun h => hc h.2)]

theorem modifyHead_nil_append (parts : List (List Char)) :
    parts.modifyHead (fun part => [] ++ part) = parts := by
  cases parts <;> rfl

theorem splitDouble_append {word : List Char} (hword : ':' ∉ word) (rest : List Char) :
    splitDouble (word ++ rest) = (splitDouble rest).modifyHead (word ++ ·) := by
  induction word with
  | nil => exact (modifyHead_nil_append _).symm
  | cons c word ih =>
    rw [List.mem_cons, not_or] at hword
    rw [List.cons_append, splitDouble_cons (Ne.symm hword.1), ih hword.2,
      List.modifyHead_modifyHead]
    rfl

/-- What can stand between two colons. -/
def IsWord (word : List Char) : Prop := ':' ∉ word ∧ word ≠ []

theorem isWord_of_isGroup {group : List Char} (h : isGroup group = true) : IsWord group :=
  ⟨colon_not_mem h, group_ne_nil h⟩

/-- The first `::` of a text that begins with words comes after them. -/
theorem splitDouble_words {words : List (List Char)} (h : ∀ word ∈ words, IsWord word)
    (rest : List Char) :
    splitDouble (join words ++ rest) = (splitDouble rest).modifyHead (join words ++ ·) := by
  induction words with
  | nil => exact (modifyHead_nil_append _).symm
  | cons word words ih =>
    have hword := h word (List.mem_cons_self ..)
    cases words with
    | nil =>
      have hjoin : join [word] = word := by simp [join]
      rw [hjoin]
      exact splitDouble_append hword.1 rest
    | cons next words =>
      have hnext := h next (by simp)
      have ih := ih fun g hg => h g (List.mem_cons_of_mem _ hg)
      rw [join_cons_cons, List.append_assoc, splitDouble_append hword.1, List.cons_append]
      -- a word stands after the colon, so the colon is not one of two
      obtain ⟨c, tail, hstart, hc⟩ : ∃ c tail, join (next :: words) ++ rest = c :: tail ∧ c ≠ ':' := by
        cases next with
        | nil => exact absurd rfl hnext.2
        | cons c letters =>
          have hc : c ≠ ':' := by
            rintro rfl
            exact hnext.1 (List.mem_cons_self ..)
          cases words with
          | nil => exact ⟨c, letters ++ rest, by simp [join], hc⟩
          | cons second words =>
            exact ⟨c, letters ++ (':' :: join (second :: words) ++ rest), by simp [join_cons_cons], hc⟩
      rw [hstart, splitDouble_colon hc, ← hstart, ih, List.modifyHead_modifyHead,
        List.modifyHead_modifyHead]
      congr 1
      funext text
      simp

theorem splitDouble_join {groups : List (List Char)} (h : ∀ group ∈ groups, isGroup group = true)
    (rest : List Char) :
    splitDouble (join groups ++ rest) = (splitDouble rest).modifyHead (join groups ++ ·) :=
  splitDouble_words (fun group hgroup => isWord_of_isGroup (h group hgroup)) rest

theorem splitDouble_ne_nil (text : List Char) : splitDouble text ≠ [] := by
  fun_induction splitDouble text with
  | case1 | case2 | case3 => simp
  | case4 c d rest _ ih =>
    intro h
    exact ih (List.modifyHead_eq_nil_iff.mp h)

theorem intercalate_splitDouble (text : List Char) :
    [':', ':'].intercalate (splitDouble text) = text := by
  fun_induction splitDouble text with
  | case1 => rfl
  | case2 => simp
  | case3 c d rest hcolons ih =>
    obtain ⟨first, more, hsplit⟩ := List.exists_cons_of_ne_nil (splitDouble_ne_nil rest)
    obtain ⟨rfl, rfl⟩ := hcolons
    rw [hsplit] at ih ⊢
    rw [List.intercalate_cons_cons, ih]
    rfl
  | case4 c d rest _ ih =>
    obtain ⟨first, more, hsplit⟩ := List.exists_cons_of_ne_nil (splitDouble_ne_nil (d :: rest))
    rw [hsplit] at ih ⊢
    rw [List.modifyHead_cons]
    cases more with
    | nil => simpa using ih
    | cons second more =>
      rw [List.intercalate_cons_cons] at ih ⊢
      rw [← ih]
      rfl

theorem groupsOf_words {words : List (List Char)} (h : ∀ word ∈ words, IsWord word) :
    groupsOf (join words) = words := by
  cases words with
  | nil => rfl
  | cons word words =>
    have hword := (h word (List.mem_cons_self ..)).2
    have hjoin : join (word :: words) ≠ [] := by
      cases words with
      | nil => simpa [join] using hword
      | cons next words => simp [join_cons_cons]
    rw [groupsOf, if_neg hjoin]
    exact List.splitOn_intercalate ':' (fun g hg => (h g hg).1) (by simp)

theorem groupsOf_join {groups : List (List Char)} (h : ∀ group ∈ groups, isGroup group = true) :
    groupsOf (join groups) = groups :=
  groupsOf_words fun group hgroup => isWord_of_isGroup (h group hgroup)

theorem groupsOf_nil : groupsOf [] = [] := rfl

theorem join_groupsOf (half : List Char) : join (groupsOf half) = half := by
  unfold groupsOf
  split
  next hhalf => exact hhalf.symm
  next => exact List.intercalate_splitOn ':'

theorem hexDigit_lt {c : Char} (h : isHex c = true) : hexDigit c < 16 := by
  simp only [isHex, isDigit, Bool.or_eq_true, Bool.and_eq_true, decide_eq_true_eq, Char.le_def,
    UInt32.le_iff_toNat_le] at h
  have hnine : '9'.val.toNat = 57 := rfl
  have hf : 'f'.val.toNat = 102 := rfl
  have hzero : '0'.toNat = 48 := rfl
  have ha : 'a'.toNat = 97 := rfl
  have hc : c.toNat = c.val.toNat := rfl
  simp only [hexDigit, isDigit, Bool.and_eq_true, decide_eq_true_eq, Char.le_def,
    UInt32.le_iff_toNat_le]
  split <;> omega

theorem foldl_hexadecimal_lt {group : List Char} (h : ∀ c ∈ group, isHex c = true) (n : ℕ) :
    group.foldl (fun n c => 16 * n + hexDigit c) n < (n + 1) * 16 ^ group.length := by
  induction group generalizing n with
  | nil => simp
  | cons c group ih =>
    have hdigit := hexDigit_lt (h c (List.mem_cons_self ..))
    have hrest := ih (fun d hd => h d (List.mem_cons_of_mem _ hd)) (16 * n + hexDigit c)
    refine Nat.lt_of_lt_of_le hrest ?_
    rw [List.length_cons, Nat.pow_succ, ← Nat.mul_assoc, Nat.mul_right_comm]
    apply Nat.mul_le_mul_right
    omega

theorem hexadecimal_lt {group : List Char} (h : isGroup group = true) :
    hexadecimal group < 65536 := by
  obtain ⟨_, hlength, hhex⟩ := isGroup_iff.mp h
  have hlt := foldl_hexadecimal_lt hhex 0
  have hpow : 16 ^ group.length ≤ 16 ^ 4 := Nat.pow_le_pow_right (by decide) hlength
  unfold hexadecimal
  omega

/-- The eight groups a text without a dotted part stands for. -/
inductive EightGroups : List Char → List (List Char) → Prop
  | full {groups : List (List Char)} (h : ∀ group ∈ groups, isGroup group = true)
      (hlength : groups.length = 8) : EightGroups (join groups) groups
  | compressed {head rest : List (List Char)} (hhead : ∀ group ∈ head, isGroup group = true)
      (hrest : ∀ group ∈ rest, isGroup group = true) (hlength : head.length + rest.length ≤ 7) :
      EightGroups (join head ++ ':' :: ':' :: join rest)
        (head ++ List.replicate (8 - head.length - rest.length) ['0'] ++ rest)

theorem EightGroups.all {value : List Char} {groups : List (List Char)}
    (h : EightGroups value groups) : ∀ group ∈ groups, isGroup group = true := by
  cases h with
  | full h => exact h
  | compressed hhead hrest =>
    intro group hgroup
    simp only [List.mem_append, List.mem_replicate] at hgroup
    rcases hgroup with (hgroup | ⟨_, rfl⟩) | hgroup
    · exact hhead group hgroup
    · decide
    · exact hrest group hgroup

theorem foldl_groups {groups : List (List Char)} (h : ∀ group ∈ groups, isGroup group = true)
    (n : ℕ) :
    groups.foldl (fun acc group => acc <<< 16 ||| hexadecimal group) n =
      (groups.map hexadecimal).foldl (fun n piece => n * 65536 + piece) n := by
  induction groups generalizing n with
  | nil => rfl
  | cons group groups ih =>
    have hgroup := hexadecimal_lt (h group (List.mem_cons_self ..))
    rw [List.foldl_cons, List.map_cons, List.foldl_cons, shiftLeft_or (i := 16) hgroup]
    exact ih (fun g hg => h g (List.mem_cons_of_mem _ hg)) _

theorem v6Groups_of {value : List Char} {groups : List (List Char)} (h : EightGroups value groups) :
    v6Groups value = some (ofPieces (groups.map hexadecimal)) := by
  have hfold := foldl_groups h.all 0
  have hbad : ∀ {groups : List (List Char)}, (∀ group ∈ groups, isGroup group = true) →
      groups.any (fun group => !isGroup group) = false := by
    intro groups hgroups
    simpa using hgroups
  unfold ofPieces
  cases h with
  | full h hlength =>
    have hsplit := splitDouble_join h []
    rw [List.append_nil] at hsplit
    have hhalves : splitDouble (join groups) = [join groups] := by
      rw [hsplit, splitDouble, List.modifyHead_cons, List.append_nil]
    simp only [v6Groups, hhalves]
    simp only [List.length_cons, List.length_nil, List.getD_cons_zero, List.getD_cons_succ,
      List.getD_nil, groupsOf_join h, groupsOf_nil, List.append_nil, hbad h]
    simp [hlength, hfold]
  | @compressed head rest hhead hrest hlength =>
    have htail : splitDouble (join rest) = [join rest] := by
      have hsplit := splitDouble_join hrest []
      rw [List.append_nil] at hsplit
      rw [hsplit, splitDouble, List.modifyHead_cons, List.append_nil]
    have hhalves : splitDouble (join head ++ ':' :: ':' :: join rest) = [join head, join rest] := by
      rw [splitDouble_join hhead, splitDouble, if_pos ⟨rfl, rfl⟩, htail, List.modifyHead_cons,
        List.append_nil]
    have hall : ∀ group ∈ head ++ rest, isGroup group = true := by
      intro group hgroup
      rcases List.mem_append.mp hgroup with hgroup | hgroup
      · exact hhead group hgroup
      · exact hrest group hgroup
    have hmissing : ((8 : ℤ) - head.length - rest.length).toNat = 8 - head.length - rest.length := by
      omega
    simp only [v6Groups, hhalves]
    simp only [List.length_cons, List.length_nil, List.getD_cons_zero, List.getD_cons_succ,
      groupsOf_join hhead, groupsOf_join hrest, hbad hall, hmissing]
    rw [if_neg (by decide), if_neg (by decide), if_neg]
    · simp only [if_pos, hfold]
    · rw [if_neg (by decide)]
      omega

theorem of_v6Groups {value : List Char} {n : ℕ} (h : v6Groups value = some n) :
    ∃ groups, EightGroups value groups ∧ n = ofPieces (groups.map hexadecimal) := by
  have hvalue := intercalate_splitDouble value
  have hgroups : ∃ groups, EightGroups value groups := by
    have hne := splitDouble_ne_nil value
    simp only [v6Groups] at h
    generalize splitDouble value = halves at h hvalue hne
    rcases halves with _ | ⟨first, _ | ⟨second, _ | _⟩⟩
    · exact absurd rfl hne
    · simp only [List.getD_cons_zero, List.getD_cons_succ, List.getD_nil, groupsOf_nil,
        List.append_nil, List.length_cons, List.length_nil, if_true] at h
      rw [if_neg (by decide)] at h
      split at h
      · nomatch h
      next hall =>
      split at h
      · nomatch h
      next hmissing =>
      have hfirst : first = value := by simpa using hvalue
      refine ⟨groupsOf first, ?_⟩
      rw [← hfirst]
      nth_rewrite 1 [← join_groupsOf first]
      exact .full (by simpa using hall) (by omega)
    · simp only [List.getD_cons_zero, List.getD_cons_succ, List.length_cons, List.length_nil,
        if_neg (show ¬0 + 1 + 1 = 1 by decide)] at h
      rw [if_neg (by decide)] at h
      split at h
      · nomatch h
      next hall =>
      split at h
      · nomatch h
      next hmissing =>
      have hgroup : ∀ group ∈ groupsOf first ++ groupsOf second, isGroup group = true := by
        rw [Bool.not_eq_true, List.any_eq_false] at hall
        intro group hgroup
        simpa using hall group hgroup
      have hhalves : first ++ ':' :: ':' :: second = value := by
        rw [← hvalue]
        simp [List.intercalate]
      rw [← hhalves]
      nth_rewrite 1 [← join_groupsOf first]
      nth_rewrite 1 [← join_groupsOf second]
      exact ⟨_, .compressed (fun group hmem => hgroup group (List.mem_append_left _ hmem))
        (fun group hmem => hgroup group (List.mem_append_right _ hmem)) (by omega)⟩
    · rw [if_pos (by simp)] at h
      nomatch h
  obtain ⟨groups, hgroups⟩ := hgroups
  rw [v6Groups_of hgroups, Option.some.injEq] at h
  exact ⟨groups, hgroups, h.symm⟩

/-! ## A dotted quad at the end -/

/-- A text that another group may follow. -/
def Ends (text : List Char) : Prop := text = [] ∨ text.getLast? = some ':'

theorem ends_append (text : List Char) : Ends (text ++ [':']) :=
  .inr List.getLast?_concat

theorem Ends.append {text more : List Char} (h : more.getLast? = some ':') :
    Ends (text ++ more) := by
  right
  rw [List.getLast?_append, h]
  rfl

theorem colon_split {text word : List Char} (h : Ends text) (hword : ':' ∉ word) :
    uptoColon (text ++ word) = text ∧ afterColon (text ++ word) = word := by
  have hreverse : ∀ c ∈ word.reverse, decide (c ≠ ':') = true := by
    intro c hc
    rw [decide_eq_true_eq]
    rintro rfl
    exact hword (List.mem_reverse.mp hc)
  unfold uptoColon afterColon
  rw [List.reverse_append, List.dropWhile_append_of_pos hreverse,
    List.takeWhile_append_of_pos hreverse]
  rcases h with rfl | h
  · simp
  · obtain ⟨front, rfl⟩ := List.getLast?_eq_some_iff.mp h
    simp

/-- The groups with a colon after each of them. -/
def lead (groups : List (List Char)) : List Char :=
  if groups = [] then [] else join groups ++ [':']

theorem ends_lead (groups : List (List Char)) : Ends (lead groups) := by
  unfold lead
  split
  · exact .inl rfl
  · exact ends_append _

theorem join_append (groups : List (List Char)) {more : List (List Char)} (hmore : more ≠ []) :
    join (groups ++ more) = lead groups ++ join more := by
  induction groups with
  | nil => rfl
  | cons group groups ih =>
    cases groups with
    | nil =>
      obtain ⟨next, more, rfl⟩ := List.exists_cons_of_ne_nil hmore
      rw [List.singleton_append, join_cons_cons]
      simp [lead, join]
    | cons next groups =>
      rw [List.cons_append, List.cons_append, join_cons_cons, ← List.cons_append, ih]
      simp [lead, join_cons_cons]

theorem join_last (groups : List (List Char)) (last : List Char) :
    join (groups ++ [last]) = lead groups ++ last := by
  rw [join_append groups (by simp)]
  simp [join]

theorem join_zeros (groups : List (List Char)) :
    join (groups ++ [['0'], ['0']]) = lead groups ++ ['0', ':', '0'] :=
  join_append groups (by simp)

theorem join_last_two (groups : List (List Char)) (first last : List Char) :
    join (groups ++ [first, last]) = lead groups ++ first ++ [':'] ++ last := by
  rw [join_append groups (by simp), join_cons_cons]
  simp [join]

/-- Two texts that end in the same groups begin the same way. -/
theorem groups_inj {text text' word word' : List Char} (h : Ends text) (h' : Ends text')
    (hword : ':' ∉ word) (hword' : ':' ∉ word') (heq : text ++ word = text' ++ word') :
    text = text' ∧ word = word' := by
  have hsplit := colon_split h hword
  have hsplit' := colon_split h' hword'
  rw [heq] at hsplit
  exact ⟨hsplit.1.symm.trans hsplit'.1, hsplit.2.symm.trans hsplit'.2⟩

theorem zeros_inj {text upto first last : List Char} (h : Ends text) (hupto : Ends upto)
    (hfirst : ':' ∉ first) (hlast : ':' ∉ last)
    (heq : text ++ first ++ [':'] ++ last = upto ++ ['0', ':', '0']) :
    text = upto ∧ first = ['0'] ∧ last = ['0'] := by
  have hzeros : upto ++ ['0', ':', '0'] = upto ++ ['0'] ++ [':'] ++ ['0'] := by simp
  rw [hzeros] at heq
  obtain ⟨hrest, hlast'⟩ := groups_inj (ends_append _) (ends_append _) hlast (by decide) heq
  have hrest := List.append_cancel_right hrest
  obtain ⟨htext, hfirst'⟩ := groups_inj h hupto hfirst (by decide) hrest
  exact ⟨htext, hfirst', hlast'⟩

/-- The pieces of a text whose last two groups are replaced by a dotted quad. -/
def withQuad (groups : List (List Char)) (value : ℕ) : ℕ :=
  ofPieces (groups.map hexadecimal ++ [value / 65536, value % 65536])

theorem quad_lt {text : List Char} {value : ℕ} (h : DottedQuad text value) : value < 2 ^ 32 := by
  obtain ⟨a, b, c, d, ha, hb, hc, hd, _, rfl⟩ := h
  omega

theorem quad_chars {text : List Char} {value : ℕ} (h : DottedQuad text value) :
    '.' ∈ text ∧ ':' ∉ text ∧ '%' ∉ text ∧ '[' ∉ text := by
  obtain ⟨a, b, c, d, ha, hb, hc, hd, rfl, _⟩ := h
  have hdigits : ∀ other : Char, other ≠ '.' → isDigit other = false →
      other ∉ Nat.toDigits 10 a ++ '.' :: (Nat.toDigits 10 b ++ '.' ::
        (Nat.toDigits 10 c ++ '.' :: Nat.toDigits 10 d)) := by
    intro other hdot hdigit hmem
    have hnot : ∀ n < 256, other ∉ Nat.toDigits 10 n := by
      intro n hn hmem
      rw [toDigits_chars n hn other hmem] at hdigit
      nomatch hdigit
    simp only [List.mem_append, List.mem_cons] at hmem
    rcases hmem with h | rfl | h | rfl | h | rfl | h
    · exact hnot a ha h
    · exact hdot rfl
    · exact hnot b hb h
    · exact hdot rfl
    · exact hnot c hc h
    · exact hdot rfl
    · exact hnot d hd h
  exact ⟨by simp, hdigits _ (by decide) (by decide), hdigits _ (by decide) (by decide),
    hdigits _ (by decide) (by decide)⟩

theorem ofPieces_quad (pieces : List ℕ) {value : ℕ} (h : value < 2 ^ 32) :
    ofPieces (pieces ++ [0, 0]) >>> 32 <<< 32 ||| value =
      ofPieces (pieces ++ [value / 65536, value % 65536]) := by
  rw [shiftLeft_or h, Nat.shiftRight_eq_div_pow]
  simp only [ofPieces, List.foldl_append, List.foldl_cons, List.foldl_nil]
  omega

theorem part_text (groups : List (List Char)) : (⟨groups, none⟩ : Part).text = join groups := by
  simp [Part.text]

theorem part_pieces (groups : List (List Char)) :
    (⟨groups, none⟩ : Part).pieces = groups.map hexadecimal := by
  simp [Part.pieces]

theorem part_valid {groups : List (List Char)} (h : ∀ group ∈ groups, isGroup group = true) :
    (⟨groups, none⟩ : Part).Valid :=
  ⟨fun group hgroup => isGroup_iff.mp (h group hgroup), fun _ _ hquad => nomatch hquad⟩

theorem quad_valid {groups : List (List Char)} (h : ∀ group ∈ groups, isGroup group = true)
    {text : List Char} {value : ℕ} (hquad : DottedQuad text value) :
    (⟨groups, some (text, value)⟩ : Part).Valid := by
  refine ⟨fun group hgroup => isGroup_iff.mp (h group hgroup), ?_⟩
  intro text' value' heq
  obtain ⟨rfl, rfl⟩ := Prod.mk.inj (Option.some.inj heq)
  exact hquad

theorem exists_last_two {groups : List (List Char)} (h : 2 ≤ groups.length) :
    ∃ front first last, groups = front ++ [first, last] := by
  rcases List.eq_nil_or_concat groups with rfl | ⟨rest, last, rfl⟩
  · nomatch h
  rcases List.eq_nil_or_concat rest with rfl | ⟨front, first, rfl⟩
  · exact absurd h (by simp)
  · exact ⟨front, first, last, by simp⟩

/-- Zeros in the place of a quad are eight groups, and the quad in their place is an address. -/
theorem v6Text_of_zeros {upto : List Char} {groups : List (List Char)} (hupto : Ends upto)
    (h : EightGroups (upto ++ ['0', ':', '0']) groups) :
    ∃ front, groups = front ++ [['0'], ['0']] ∧ ∀ text value, DottedQuad text value →
      V6Text (upto ++ text) (withQuad front value) := by
  generalize htext : upto ++ ['0', ':', '0'] = whole at h
  cases h with
  | full h hlength =>
    have htwo : 2 ≤ groups.length := by omega
    obtain ⟨front, first, last, rfl⟩ := exists_last_two htwo
    rw [join_last_two] at htext
    obtain ⟨hlead, rfl, rfl⟩ := zeros_inj (ends_lead front) hupto
      (colon_not_mem (h first (by simp))) (colon_not_mem (h last (by simp))) htext.symm
    refine ⟨front, rfl, ?_⟩
    intro text value hquad
    have hvalid := quad_valid (fun group hgroup => h group (List.mem_append_left _ hgroup)) hquad
    have hfull := V6Text.full _ hvalid (by simpa [Part.pieces] using hlength)
    have htext' : (⟨front, some (text, value)⟩ : Part).text = upto ++ text := by
      rw [← hlead, ← join_last]
      simp [Part.text]
    rw [htext'] at hfull
    exact hfull
  | @compressed head rest hhead hrest hlength =>
    rcases List.eq_nil_or_concat rest with rfl | ⟨rest, last, rfl⟩
    · -- nothing after the colons
      have hend : join head ++ ':' :: ':' :: join [] = (join head ++ [':']) ++ [':'] ++ [] := by
        simp [join]
      rw [hend] at htext
      have hzeros : upto ++ ['0', ':', '0'] = upto ++ ['0'] ++ [':'] ++ ['0'] := by simp
      rw [hzeros] at htext
      have hlast := (groups_inj (ends_append _) (ends_append _) (by decide) (by decide) htext).2
      nomatch hlast
    rw [List.concat_eq_append] at *
    have hlast := colon_not_mem (hrest last (by simp))
    rcases List.eq_nil_or_concat rest with rfl | ⟨front, first, rfl⟩
    · -- one group after the colons, with a colon before it
      have hend : join head ++ ':' :: ':' :: join ([] ++ [last]) =
          (join head ++ [':']) ++ [':'] ++ last := by
        simp [join]
      have hzeros : upto ++ ['0', ':', '0'] = upto ++ ['0'] ++ [':'] ++ ['0'] := by simp
      rw [hend, hzeros] at htext
      have hrest := (groups_inj (ends_append _) (ends_append _) (by decide) hlast htext).1
      have hrest := List.append_cancel_right hrest
      have hchar := congrArg List.getLast? hrest
      simp at hchar
    rw [List.concat_eq_append, List.append_assoc, List.singleton_append] at *
    have hend : join head ++ ':' :: ':' :: join (front ++ [first, last]) =
        (join head ++ [':', ':'] ++ lead front) ++ first ++ [':'] ++ last := by
      rw [join_last_two]
      simp
    have hends : Ends (join head ++ [':', ':'] ++ lead front) := by
      rcases ends_lead front with hnil | hcolon
      · rw [hnil, List.append_nil]
        exact Ends.append rfl
      · exact Ends.append hcolon
    rw [hend] at htext
    obtain ⟨hlead, rfl, rfl⟩ := zeros_inj hends hupto
      (colon_not_mem (hrest first (by simp))) hlast htext.symm
    have hfront : ∀ group ∈ front, isGroup group = true :=
      fun group hgroup => hrest group (List.mem_append_left _ hgroup)
    refine ⟨head ++ List.replicate (8 - head.length - (front.length + 2)) ['0'] ++ front, ?_, ?_⟩
    · simp
    intro text value hquad
    have hvalid := quad_valid hfront hquad
    have hcompressed := V6Text.compressed _ _ (part_valid hhead) hvalid rfl
      (by simpa [Part.pieces] using hlength)
    have htext' : (⟨head, none⟩ : Part).text ++ ':' :: ':' ::
        (⟨front, some (text, value)⟩ : Part).text = upto ++ text := by
      rw [part_text, ← hlead]
      simp [Part.text, join_last]
    rw [htext'] at hcompressed
    have hzero : hexadecimal ['0'] = 0 := by decide
    simpa [withQuad, Part.pieces, hzero] using hcompressed

/-- An address is eight groups, or it is eight groups with a quad for the last two. -/
theorem v6Text_cases {value : List Char} {n : ℕ} (h : V6Text value n) :
    (∃ groups, EightGroups value groups ∧ n = ofPieces (groups.map hexadecimal)) ∨
      ∃ upto text quad front, value = upto ++ text ∧ Ends upto ∧ DottedQuad text quad ∧
        EightGroups (upto ++ ['0', ':', '0']) (front ++ [['0'], ['0']]) ∧
          n = withQuad front quad := by
  have hgroup : ∀ {part : Part}, part.Valid → ∀ group ∈ part.groups, isGroup group = true :=
    fun hvalid group hgroup => isGroup_iff.mpr (hvalid.groups group hgroup)
  have hzeros : ∀ {groups : List (List Char)}, (∀ group ∈ groups, isGroup group = true) →
      ∀ group ∈ groups ++ [['0'], ['0']], isGroup group = true := by
    intro groups hgroups group hmem
    simp only [List.mem_append, List.mem_cons, List.not_mem_nil, or_false, or_self] at hmem
    rcases hmem with hmem | rfl
    · exact hgroups group hmem
    · decide
  cases h with
  | full part hvalid hlength =>
    have hgroups := hgroup hvalid
    rcases part with ⟨groups, _ | ⟨text, quad⟩⟩
    · left
      rw [part_text, part_pieces] at *
      exact ⟨groups, .full hgroups (by simpa using hlength), rfl⟩
    · right
      refine ⟨lead groups, text, quad, groups, ?_, ends_lead groups, hvalid.quad _ _ rfl, ?_, rfl⟩
      · simp [Part.text, join_last]
      · rw [← join_zeros]
        exact .full (hzeros hgroups) (by simpa [Part.pieces] using hlength)
  | compressed head rest hhead hrest hquad hlength =>
    have hheads := hgroup hhead
    have hrests := hgroup hrest
    rcases head with ⟨head, quad⟩
    obtain rfl : quad = none := hquad
    rcases rest with ⟨rest, _ | ⟨text, quad⟩⟩
    · left
      simp only [part_text, part_pieces, List.length_map] at *
      refine ⟨_, .compressed hheads hrests hlength, ?_⟩
      have hzero : hexadecimal ['0'] = 0 := by decide
      simp [hzero]
    · right
      have hends : Ends (join head ++ [':', ':'] ++ lead rest) := by
        rcases ends_lead rest with hnil | hcolon
        · rw [hnil, List.append_nil]
          exact Ends.append rfl
        · exact Ends.append hcolon
      have hlength : head.length + (rest ++ [['0'], ['0']]).length ≤ 7 := by
        simpa [Part.pieces] using hlength
      have height := EightGroups.compressed hheads (hzeros hrests) hlength
      rw [join_zeros] at height
      refine ⟨_, text, quad,
        head ++ List.replicate (8 - head.length - (rest.length + 2)) ['0'] ++ rest,
        ?_, hends, hrest.quad _ _ rfl, ?_, ?_⟩
      · rw [part_text]
        simp [Part.text, join_last]
      · simpa using height
      · have hzero : hexadecimal ['0'] = 0 := by decide
        simp [withQuad, Part.pieces, hzero]

theorem mem_join {groups : List (List Char)} {c : Char} (h : c ∈ join groups) :
    c = ':' ∨ ∃ group ∈ groups, c ∈ group := by
  induction groups with
  | nil => nomatch h
  | cons group groups ih =>
    cases groups with
    | nil => exact .inr ⟨group, List.mem_cons_self .., by simpa [join] using h⟩
    | cons next groups =>
      rw [join_cons_cons, List.mem_append, List.mem_cons] at h
      rcases h with h | rfl | h
      · exact .inr ⟨group, List.mem_cons_self .., h⟩
      · exact .inl rfl
      · rcases ih h with rfl | ⟨other, hother, hc⟩
        · exact .inl rfl
        · exact .inr ⟨other, List.mem_cons_of_mem _ hother, hc⟩

theorem EightGroups.chars {value : List Char} {groups : List (List Char)}
    (h : EightGroups value groups) : ∀ c ∈ value, c = ':' ∨ isHex c = true := by
  have hjoin : ∀ {groups : List (List Char)}, (∀ group ∈ groups, isGroup group = true) →
      ∀ c ∈ join groups, c = ':' ∨ isHex c = true := by
    intro groups hgroups c hc
    rcases mem_join hc with rfl | ⟨group, hgroup, hc⟩
    · exact .inl rfl
    · exact .inr ((isGroup_iff.mp (hgroups group hgroup)).2.2 c hc)
  intro c hc
  cases h with
  | full h => exact hjoin h c hc
  | compressed hhead hrest =>
    rw [List.mem_append, List.mem_cons, List.mem_cons] at hc
    rcases hc with hc | rfl | rfl | hc
    · exact hjoin hhead c hc
    · exact .inl rfl
    · exact .inl rfl
    · exact hjoin hrest c hc

theorem EightGroups.colon_mem {value : List Char} {groups : List (List Char)}
    (h : EightGroups value groups) : ':' ∈ value := by
  cases h with
  | full _ hlength =>
    match groups, hlength with
    | first :: second :: groups, _ => simp [join_cons_cons]
  | compressed => simp

/-- What the rest of the reader needs of an IPv6 text. -/
theorem v6Text_chars {value : List Char} {n : ℕ} (h : V6Text value n) :
    ':' ∈ value ∧ '%' ∉ value ∧ '[' ∉ value := by
  rcases v6Text_cases h with
    ⟨groups, height, _⟩ | ⟨upto, text, quad, front, rfl, hupto, hquad, height, _⟩
  · refine ⟨height.colon_mem, ?_, ?_⟩
    · intro hmem
      exact absurd (height.chars _ hmem) (by decide)
    · intro hmem
      exact absurd (height.chars _ hmem) (by decide)
  · have hcolon : ':' ∈ upto := by
      rcases hupto with rfl | hlast
      · have hnone : v6Groups ([] ++ ['0', ':', '0']) = none := by decide
        rw [v6Groups_of height] at hnone
        nomatch hnone
      · exact List.mem_of_mem_getLast? hlast
    obtain ⟨_, _, hpercent, hbracket⟩ := quad_chars hquad
    have hchars : ∀ c ∈ upto, c = ':' ∨ isHex c = true :=
      fun c hc => height.chars c (List.mem_append_left _ hc)
    simp only [List.mem_append, not_or]
    refine ⟨.inl hcolon, ⟨?_, hpercent⟩, ?_, hbracket⟩
    · intro hmem
      exact absurd (hchars _ hmem) (by decide)
    · intro hmem
      exact absurd (hchars _ hmem) (by decide)

/-! ## The readers -/

theorem uptoColon_append_afterColon (value : List Char) :
    uptoColon value ++ afterColon value = value := by
  unfold uptoColon afterColon
  rw [← List.reverse_append, List.takeWhile_append_dropWhile, List.reverse_reverse]

theorem ends_uptoColon (value : List Char) : Ends (uptoColon value) := by
  by_cases hrest : value.reverse.dropWhile (· ≠ ':') = []
  · left
    rw [uptoColon, hrest]
    rfl
  · right
    have hhead := List.head_dropWhile_not (· ≠ ':') hrest
    rw [decide_eq_false_iff_not, ne_eq, not_not] at hhead
    rw [uptoColon, List.getLast?_reverse, List.head?_eq_some_head hrest, hhead]

theorem map_zeros (front : List (List Char)) :
    (front ++ [['0'], ['0']]).map hexadecimal = front.map hexadecimal ++ [0, 0] := by
  rw [List.map_append]
  rfl

theorem v6_iff {text : List Char} {n : ℕ} :
    v6 text = some n ↔ V6Text ((text.map Char.toLower).takeWhile (· ≠ '%')) n := by
  simp only [v6]
  generalize (text.map Char.toLower).takeWhile (· ≠ '%') = value
  constructor
  · intro h
    split at h
    · split at h
      · nomatch h
      next tail htail =>
        rw [v4_iff] at htail
        obtain ⟨result, hresult, rfl⟩ := Option.map_eq_some_iff.mp h
        obtain ⟨groups, height, rfl⟩ := of_v6Groups hresult
        obtain ⟨front, rfl, hquad⟩ := v6Text_of_zeros (ends_uptoColon value) height
        have htext := hquad _ _ htail
        rw [uptoColon_append_afterColon] at htext
        rw [map_zeros, ofPieces_quad _ (quad_lt htail)]
        exact htext
    · obtain ⟨groups, height, rfl⟩ := of_v6Groups h
      cases height with
      | full hgroups hlength =>
        rw [← part_text, ← part_pieces]
        exact .full _ (part_valid hgroups) (by simpa [part_pieces] using hlength)
      | @compressed head rest hhead hrest hlength =>
        have hcompressed := V6Text.compressed _ _ (part_valid hhead) (part_valid hrest) rfl
          (by simpa [part_pieces] using hlength)
        have hzero : hexadecimal ['0'] = 0 := by decide
        simpa [part_text, part_pieces, hzero] using hcompressed
  · intro h
    rcases v6Text_cases h with
      ⟨groups, height, rfl⟩ | ⟨upto, tail, quad, front, rfl, hupto, hquad, height, rfl⟩
    · rw [if_neg]
      · exact v6Groups_of height
      · intro hmem
        exact absurd (height.chars _ hmem) (by decide)
    · obtain ⟨hdot, hcolon, _⟩ := quad_chars hquad
      obtain ⟨hfront, htail⟩ := colon_split hupto hcolon
      rw [if_pos (List.mem_append_right _ hdot), hfront, htail, v4_iff.mpr hquad]
      simp only [v6Groups_of height, Option.map_some, map_zeros, ofPieces_quad _ (quad_lt hquad)]
      rfl

theorem le_toLower {c : Char} (h : isUpper c = true) : 97 ≤ c.toLower.toNat := by
  have hupper : ∀ n < 91, 65 ≤ n → 97 ≤ (Char.ofNat n).toLower.toNat := by decide
  simp only [isUpper, Bool.and_eq_true, decide_eq_true_eq, Char.le_def,
    UInt32.le_iff_toNat_le] at h
  have hlow : 65 ≤ c.toNat := h.1
  have hhigh : c.toNat ≤ 90 := h.2
  rw [← Char.ofNat_toNat c]
  exact hupper _ (by omega) hlow

theorem toLower_of_not_isUpper {c : Char} (h : isUpper c = false) : c.toLower = c := by
  unfold Char.toLower
  split
  next hupper =>
    simp only [isUpper, Bool.and_eq_false_iff, decide_eq_false_iff_not, Char.le_def] at h
    rcases h with h | h
    · exact absurd hupper.1 h
    · exact absurd hupper.2 h
  next => rfl

/-- A sign that is no letter is lowered from itself only. -/
theorem toLower_eq {c d : Char} (hd : d.toNat < 97) (hupper : isUpper d = false) :
    c.toLower = d ↔ c = d := by
  constructor
  · intro h
    cases hc : isUpper c with
    | true =>
      have hle := le_toLower hc
      rw [h] at hle
      omega
    | false => rwa [toLower_of_not_isUpper hc] at h
  · rintro rfl
    exact toLower_of_not_isUpper hupper

theorem mem_map_toLower {text : List Char} {d : Char} (hd : d.toNat < 97)
    (hupper : isUpper d = false) : d ∈ text.map Char.toLower ↔ d ∈ text := by
  simp only [List.mem_map, toLower_eq hd hupper, exists_eq_right]

theorem takeWhile_map_toLower (text : List Char) : (text.map Char.toLower).takeWhile (· ≠ '%') =
      (text.takeWhile (· ≠ '%')).map Char.toLower := by
  rw [List.takeWhile_map]
  congr 2
  funext c
  simp only [Function.comp_apply, ne_eq, toLower_eq (d := '%') (by decide) (by decide)]

theorem parseAddress_plain {text : List Char} {address : Address} :
    parseAddress text = some address ↔ Plain (unbracketed text) address := by
  simp only [parseAddress]
  generalize unbracketed text = plain
  constructor
  · intro h
    split at h
    next value hvalue =>
      obtain rfl := Option.some.inj h
      exact .four (v4_iff.mp hvalue)
    next =>
      split at h
      · obtain ⟨value, hvalue, rfl⟩ := Option.map_eq_some_iff.mp h
        rw [v6_iff, takeWhile_map_toLower] at hvalue
        have hplain := Plain.six (plain.dropWhile (· ≠ '%')) ?_ hvalue
        · rwa [List.takeWhile_append_dropWhile] at hplain
        · by_cases hzone : plain.dropWhile (· ≠ '%') = []
          · exact .inl hzone
          · right
            have hhead := List.head_dropWhile_not (· ≠ '%') hzone
            rw [decide_eq_false_iff_not, ne_eq, not_not] at hhead
            rw [List.head?_eq_some_head hzone, hhead]
      · nomatch h
  · intro h
    cases h with
    | four h => rw [v4_iff.mpr h]
    | @six text value zone hzone h =>
      obtain ⟨hcolon, hpercent, _⟩ := v6Text_chars h
      rw [mem_map_toLower (by decide) (by decide)] at hcolon hpercent
      have hmem : ':' ∈ text ++ zone := List.mem_append_left _ hcolon
      have hnone : v4 (text ++ zone) = none := by
        rw [Option.eq_none_iff_forall_ne_some]
        intro value hvalue
        exact (quad_chars (v4_iff.mp hvalue)).2.1 hmem
      have htake : (text ++ zone).takeWhile (· ≠ '%') = text := by
        rw [List.takeWhile_append_of_pos]
        · rcases hzone with rfl | hzone
          · simp
          · obtain ⟨tail, rfl⟩ := List.head?_eq_some_iff.mp hzone
            simp
        · intro c hc
          rw [decide_eq_true_eq]
          rintro rfl
          exact hpercent hc
      rw [hnone]
      simp only [if_pos hmem]
      rw [v6_iff.mpr (by rwa [takeWhile_map_toLower, htake] : V6Text _ value)]
      rfl

theorem plain_head {plain : List Char} {address : Address} (h : Plain plain address) :
    plain.head? ≠ some '[' := by
  cases h with
  | four h =>
    intro hhead
    exact (quad_chars h).2.2.2 (List.mem_of_mem_head? hhead)
  | @six text value zone hzone h =>
    obtain ⟨hcolon, _, hbracket⟩ := v6Text_chars h
    rw [mem_map_toLower (by decide) (by decide)] at hcolon hbracket
    cases text with
    | nil => nomatch hcolon
    | cons c text =>
      intro hhead
      obtain rfl := Option.some.inj hhead
      exact hbracket (List.mem_cons_self ..)

/-- The reader accepts the spellings of addresses, with their values, and nothing else. -/
theorem parseAddress_iff {text : List Char} {address : Address} :
    parseAddress text = some address ↔ Spells text address := by
  rw [parseAddress_plain]
  unfold unbracketed
  constructor
  · intro h
    split at h
    next hbrackets =>
      obtain ⟨hhead, hlast⟩ := hbrackets
      obtain ⟨rest, rfl⟩ := List.head?_eq_some_iff.mp hhead
      rcases List.eq_nil_or_concat rest with rfl | ⟨inner, last, rfl⟩
      · exact absurd hlast (by decide)
      · simp only [List.concat_eq_append, List.tail_cons, List.dropLast_concat] at h hlast ⊢
        rw [← List.cons_append, List.getLast?_concat, Option.some.injEq] at hlast
        rw [hlast]
        exact .bracketed h
    next => exact .plain h
  · intro h
    cases h with
    | plain h =>
      rw [if_neg (fun hbrackets => plain_head h hbrackets.1)]
      exact h
    | bracketed h =>
      rw [if_pos]
      · simpa using h
      · exact ⟨rfl, by rw [← List.cons_append, List.getLast?_concat]⟩

end Sbarbase.Scheduler.Proofs.AddressText
