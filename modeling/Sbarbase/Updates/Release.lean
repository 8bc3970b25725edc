import Mathlib.Data.Char
import Mathlib.Data.Prod.Lex
import Mathlib.Order.Lex
import Sbarbase.Lib.Text
/-!
# The versions of releases

`parse`, `key` and `tag_version` of `lab/release_channel.py`. What `\d` matches
and what `int` reads are Python's: any decimal digit, and no more digits than
the interpreter reads at once.
-/

namespace Sbarbase.Updates.Release

open Lib

/-! ## Numbers in Python -/

/-- The decimal digits of the interpreter, and the most that `int` reads (`none` for
no limit). -/
structure Digits where
  value : Char → Option ℕ
  limit : Option ℕ
  value_lt : ∀ c n, value c = some n → n < 10
  ascii : ∀ c, c.toNat < 128 → value c = if isDigit c then some (c.toNat - '0'.toNat) else none

/-- The digits of ASCII, and the limit an interpreter starts with. -/
def Digits.plain : Digits where
  value c := if isDigit c then some (c.toNat - '0'.toNat) else none
  limit := some 4300
  value_lt c n h := by
    split_ifs at h with hc
    simp only [isDigit, Bool.and_eq_true, decide_eq_true_eq, Char.le_def, UInt32.le_iff_toNat_le] at hc
    have hhigh : c.toNat ≤ 57 := hc.2
    have hzero : '0'.toNat = 48 := rfl
    have hn := Option.some.inj h
    omega
  ascii _ _ := rfl

/-- `\d`. -/
def Digits.isDecimal (py : Digits) (c : Char) : Bool := (py.value c).isSome

/-- `int` of a text of digits. A text that is too long raises. -/
def Digits.int (py : Digits) (text : List Char) : Except String ℕ :=
  if py.limit.all (text.length ≤ ·) then
    .ok (text.foldl (fun n c => 10 * n + (py.value c).getD 0) 0)
  else .error "Exceeds the limit for integer string conversion"

/-! ## The pattern -/

section

variable (py : Digits)

/-- `0|[1-9]\d*`. -/
def isNumber (text : List Char) : Bool :=
  text = ['0'] ||
    match text with
    | [] => false
    | c :: rest => isDigit c && c ≠ '0' && rest.all py.isDecimal

/-- `[0-9A-Za-z-]`. -/
def isIdentifierChar (c : Char) : Bool := isAlphanumeric c || c = '-'

/-- `[0-9A-Za-z-]+`. -/
def isIdentifier (text : List Char) : Bool := !text.isEmpty && text.all isIdentifierChar

/-- The text up to the first `-`. -/
def core (text : List Char) : List Char := text.takeWhile (· ≠ '-')

/-- The text behind the first `-`. -/
def afterCore (text : List Char) : Option (List Char) :=
  match text.dropWhile (· ≠ '-') with
  | [] => none
  | _ :: rest => some rest

/-- The groups of `SEMVER.fullmatch`: three numbers, and what stands behind `-`. -/
def semver (text : List Char) : Option (List Char × List Char × List Char × Option (List Char)) :=
  match (core text).splitOn '.' with
  | [major, minor, patch] =>
    if isNumber py major && isNumber py minor && isNumber py patch &&
        (afterCore text).all (fun rest => (rest.splitOn '.').all isIdentifier) then
      some (major, minor, patch, afterCore text)
    else none
  | _ => none

structure Parsed where
  major : ℕ
  minor : ℕ
  patch : ℕ
  pre : List (List Char)
  deriving DecidableEq

def parse (version : List Char) : Except String (Option Parsed) :=
  match semver py version with
  | none => .ok none
  | some (major, minor, patch, rest) => do
    let major ← py.int major
    let minor ← py.int minor
    let patch ← py.int patch
    return some ⟨major, minor, patch, (rest.map (·.splitOn '.')).getD []⟩

/-- `item.isdigit()` of an identifier, which is ASCII. -/
def isNumeric (item : List Char) : Bool := !item.isEmpty && item.all isDigit

/-- A number, a text: what `key` makes of an identifier. -/
abbrev IdentifierKey := ℕ ×ₗ ℕ ×ₗ List Char

/-- The tuple of `key`. Tuples and strings compare item by item. -/
abbrev Key := ℕ ×ₗ ℕ ×ₗ ℕ ×ₗ ℕ ×ₗ List IdentifierKey

instance : DecidableEq IdentifierKey :=
  letI : DecidableEq (ℕ ×ₗ List Char) := inferInstanceAs (DecidableEq (ℕ × List Char))
  inferInstanceAs (DecidableEq (ℕ × (ℕ ×ₗ List Char)))

instance : DecidableEq Key :=
  letI : DecidableEq (ℕ ×ₗ List IdentifierKey) :=
    inferInstanceAs (DecidableEq (ℕ × List IdentifierKey))
  letI : DecidableEq (ℕ ×ₗ ℕ ×ₗ List IdentifierKey) :=
    inferInstanceAs (DecidableEq (ℕ × (ℕ ×ₗ List IdentifierKey)))
  letI : DecidableEq (ℕ ×ₗ ℕ ×ₗ ℕ ×ₗ List IdentifierKey) :=
    inferInstanceAs (DecidableEq (ℕ × (ℕ ×ₗ ℕ ×ₗ List IdentifierKey)))
  inferInstanceAs (DecidableEq (ℕ × (ℕ ×ₗ ℕ ×ₗ ℕ ×ₗ List IdentifierKey)))

def identifierKey (item : List Char) : Except String IdentifierKey :=
  if isNumeric item then return toLex (0, toLex (← py.int item, []))
  else return toLex (1, toLex (0, item))

/-- `key`. A text that is no version cannot be unpacked. -/
def key (version : List Char) : Except String Key := do
  match ← parse py version with
  | none => .error "cannot unpack non-iterable NoneType object"
  | some parsed =>
    let identifiers ← parsed.pre.mapM (identifierKey py)
    return toLex (parsed.major, toLex (parsed.minor, toLex (parsed.patch,
      toLex (if parsed.pre = [] then 1 else 0, identifiers))))

def tagVersion (tag : List Char) : Except String (Option (List Char)) :=
  match tag with
  | 'v' :: version => do
    match ← parse py version with
    | none => return none
    | some _ => return some version
  | _ => .ok none

end

/-! ## Semantic versions -/

/-- An identifier of a pre-release. -/
inductive Identifier
  | numeric (n : ℕ)
  | alphanumeric (text : List Char)
  deriving DecidableEq

/-- A semantic version without build metadata. -/
structure Version where
  major : ℕ
  minor : ℕ
  patch : ℕ
  pre : List Identifier
  deriving DecidableEq

def Identifier.text : Identifier → List Char
  | .numeric n => Nat.toDigits 10 n
  | .alphanumeric text => text

/-- An alphanumeric identifier has a character that is no digit. -/
def Identifier.Valid : Identifier → Prop
  | .numeric _ => True
  | .alphanumeric text => (∀ c ∈ text, isIdentifierChar c = true) ∧ ∃ c ∈ text, isDigit c = false

/-- The text of a version. -/
def Version.text (v : Version) : List Char :=
  ['.'].intercalate [Nat.toDigits 10 v.major, Nat.toDigits 10 v.minor, Nat.toDigits 10 v.patch] ++
    if v.pre = [] then [] else '-' :: ['.'].intercalate (v.pre.map Identifier.text)

/-- The text is a semantic version without build metadata. -/
def IsVersion (text : List Char) (v : Version) : Prop :=
  text = v.text ∧ ∀ identifier ∈ v.pre, identifier.Valid

/-- Numeric identifiers compare numerically and stand below alphanumeric ones, which
compare in ASCII order. -/
def Identifier.Below : Identifier → Identifier → Prop
  | .numeric a, .numeric b => a < b
  | .numeric _, .alphanumeric _ => True
  | .alphanumeric _, .numeric _ => False
  | .alphanumeric a, .alphanumeric b => a < b

/-- The first difference decides, and fewer identifiers stand below more. -/
def AllBelow : List Identifier → List Identifier → Prop
  | _, [] => False
  | [], _ :: _ => True
  | a :: as, b :: bs => a.Below b ∨ a = b ∧ AllBelow as bs

/-- Precedence: major, minor and patch in this order, then a pre-release below its
release, then the identifiers. -/
def Version.Below (v w : Version) : Prop :=
  v.major < w.major ∨ v.major = w.major ∧
    (v.minor < w.minor ∨ v.minor = w.minor ∧
      (v.patch < w.patch ∨ v.patch = w.patch ∧
        (v.pre ≠ [] ∧ (w.pre = [] ∨ AllBelow v.pre w.pre))))

end Sbarbase.Updates.Release
