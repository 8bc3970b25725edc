import Sbarbase.Lib.Bytes
import Sbarbase.Lib.Value
/-!
# The digest of a source inventory

`ordered_inventory_digest` of `lab/storage_write_settlement.py` and
`sourceSettlementInventoryDigest` of `control/storage-settlement-contract.ts`, up
to the bytes that each of them hashes; none where it refuses.
-/

namespace Sbarbase.Settlement

open Lib

/-- `Number.MAX_SAFE_INTEGER`, and the bound of `integer`. -/
def MAX_INTEGER : ℤ := 9007199254740991

def decimalDigits (n : ℤ) : CodePoints := codePoints (toString n)

/-- `\uXXXX` -/
def unicodeEscape (c : ℕ) : CodePoints :=
  codePoints "\\u" ++ [c / 4096 % 16, c / 256 % 16, c / 16 % 16, c % 16].map fun digit =>
    (Nat.digitChar digit).toNat

def quoted (text : CodePoints) : CodePoints := [34] ++ text ++ [34]

/-- UTF-8; none for a surrogate. -/
def encodeUtf8 (text : CodePoints) : Option Bytes :=
  if text.any isSurrogate then none
  else some (text.flatMap fun c =>
    if c < 0x80 then [UInt8.ofNat c]
    else if c < 0x800 then [UInt8.ofNat (0xC0 + c / 64), UInt8.ofNat (0x80 + c % 64)]
    else if c < 0x10000 then
      [UInt8.ofNat (0xE0 + c / 4096), UInt8.ofNat (0x80 + c / 64 % 64), UInt8.ofNat (0x80 + c % 64)]
    else [UInt8.ofNat (0xF0 + c / 262144), UInt8.ofNat (0x80 + c / 4096 % 64),
      UInt8.ofNat (0x80 + c / 64 % 64), UInt8.ofNat (0x80 + c % 64)])

/-- Parts between brackets, with commas. -/
def enclose (first last : ℕ) (parts : List CodePoints) : CodePoints :=
  [first] ++ [44].intercalate parts ++ [last]

/-! ## In Python -/

namespace Python

/-- `check`: what it refuses is false. -/
def check : Value PyNumber → ℕ → Bool :=
  Value.fold
    { null := fun depth => depth ≤ 100
      flag := fun _ depth => depth ≤ 100
      number := fun value depth => depth ≤ 100 &&
        match value with
        | .int n => -MAX_INTEGER ≤ n && n ≤ MAX_INTEGER
        | .float _ => false
      text := fun _ depth => depth ≤ 100
      array := fun items depth => depth ≤ 100 && items.all fun item => item (depth + 1)
      object := fun members depth => depth ≤ 100 &&
        members.all fun member => (encodeUtf8 member.1).isSome && member.2 (depth + 1) }

/-- `re.fullmatch(r'0|[1-9][0-9]*', key)` -/
def isCanonical (key : CodePoints) : Bool :=
  match key with
  | [] => false
  | [c] => 48 ≤ c && c ≤ 57
  | c :: rest => 49 ≤ c && c ≤ 57 && rest.all fun digit => 48 ≤ digit && digit ≤ 57

/-- `int(key)`, of digits. -/
def intOf (key : CodePoints) : ℕ := key.foldl (fun n c => 10 * n + (c - 48)) 0

def isIndex (key : CodePoints) : Bool :=
  isCanonical key && key.length ≤ 10 && intOf key < 4294967295

/-- The keys of `javascript_order`, with their values. -/
def javascriptKeys {α : Type} (members : List (CodePoints × α)) : List (CodePoints × α) :=
  (members.filter fun member => isIndex member.1).mergeSort (fun a b => intOf a.1 ≤ intOf b.1) ++
    members.filter fun member => !isIndex member.1

def javascriptOrder : Value PyNumber → Value PyNumber :=
  Value.fold ⟨.null, .flag, .number, .text, .array, fun members => .object (javascriptKeys members)⟩

/-- A character of a text, with `ensure_ascii=False`. -/
def escape (c : ℕ) : CodePoints :=
  if c = 34 then codePoints "\\\""
  else if c = 92 then codePoints "\\\\"
  else if c = 10 then codePoints "\\n"
  else if c = 13 then codePoints "\\r"
  else if c = 9 then codePoints "\\t"
  else if c = 12 then codePoints "\\f"
  else if c = 8 then codePoints "\\b"
  else if c < 32 then unicodeEscape c
  else [c]

def encodeString (text : CodePoints) : CodePoints := quoted (text.flatMap escape)

/-- `json.dumps`; `floatRepr` is `float.__repr__`, which no value that passed `check` needs. -/
def dumps (floatRepr : Double → CodePoints) : Value PyNumber → CodePoints :=
  Value.fold
    { null := codePoints "null"
      flag := fun value => codePoints (if value then "true" else "false")
      number := fun value =>
        match value with
        | .int n => decimalDigits n
        | .float value => floatRepr value
      text := encodeString
      array := enclose 91 93
      object := fun members =>
        enclose 123 125 (members.map fun member => encodeString member.1 ++ [58] ++ member.2) }

def isDict : Value PyNumber → Bool
  | .object _ => true
  | _ => false

/-- The bytes that `ordered_inventory_digest` hashes. -/
def orderedInventoryBytes (floatRepr : Double → CodePoints) (value : Value PyNumber) :
    Option Bytes :=
  match value with
  | .array items =>
    if 0 < items.length ∧ items.length ≤ 100 ∧ items.all isDict ∧ check value 0 then
      encodeUtf8 (dumps floatRepr (javascriptOrder value))
    else none
  | _ => none

end Python

/-! ## In TypeScript -/

namespace TypeScript

/-- The keys in the order of enumeration: the array indices first, by their number. -/
def arrayIndex (key : CodePoints) : Option ℕ :=
  let n := key.foldl (fun n c => 10 * n + (c - 48)) 0
  if key = codePoints (toString n) ∧ n < 2 ^ 32 - 1 then some n else none

def ownEntries {α : Type} (members : List (CodePoints × α)) : List (CodePoints × α) :=
  (members.filter fun member => (arrayIndex member.1).isSome).mergeSort
      (fun a b => (arrayIndex a.1).getD 0 ≤ (arrayIndex b.1).getD 0) ++
    members.filter fun member => (arrayIndex member.1).isNone

def unicodeString (input : CodePoints) : Option CodePoints :=
  if input.any isSurrogate then none else some input

/-- The number of `jsonClone`. -/
def safeNumber (input : Double) : Option ℤ :=
  if input.isNegativeZero then none else input.safeInteger

/-- A clone of a part, at the depth the part is at. -/
abbrev Clone := ℕ → Option (Value ℤ)

def cloneMember (depth : ℕ) (member : CodePoints × Clone) : Option (CodePoints × Value ℤ) :=
  (unicodeString member.1).bind fun name => (member.2 depth).map fun value => (name, value)

def jsonClone : Value Double → Clone :=
  Value.fold
    { null := fun depth => if 100 < depth then none else some .null
      flag := fun value depth => if 100 < depth then none else some (.flag value)
      number := fun value depth =>
        if 100 < depth then none else (safeNumber value).map .number
      text := fun value depth => if 100 < depth then none else (unicodeString value).map .text
      array := fun items depth =>
        if 100 < depth then none
        else (items.mapM fun item : Clone => item (depth + 1)).map .array
      object := fun members depth =>
        if 100 < depth then none
        else ((ownEntries members).mapM (cloneMember (depth + 1))).map .object }

/-- `QuoteJSONString` -/
def quoteString (text : CodePoints) : CodePoints :=
  quoted (text.flatMap fun c =>
    match c with
    | 0x08 => codePoints "\\b"
    | 0x09 => codePoints "\\t"
    | 0x0A => codePoints "\\n"
    | 0x0C => codePoints "\\f"
    | 0x0D => codePoints "\\r"
    | 0x22 => codePoints "\\\""
    | 0x5C => codePoints "\\\\"
    | c => if c < 0x20 ∨ isSurrogate c then unicodeEscape c else [c])

/-- `JSON.stringify`, of what `jsonClone` returned. -/
def stringify : Value ℤ → CodePoints :=
  Value.fold
    { null := codePoints "null"
      flag := fun value => codePoints (if value then "true" else "false")
      number := decimalDigits
      text := quoteString
      array := enclose 91 93
      object := fun members =>
        enclose 123 125 ((ownEntries members).map fun member =>
          quoteString member.1 ++ [58] ++ member.2) }

def isObject : Value ℤ → Bool
  | .object _ => true
  | _ => false

def inventory (input : Value Double) : Option (Value ℤ) :=
  match input with
  | .array items =>
    if items.length = 0 ∨ 100 < items.length then none
    else
      match jsonClone input 0 with
      | some (.array result) => if result.all isObject then some (.array result) else none
      | _ => none
  | _ => none

/-- The bytes that `sourceSettlementInventoryDigest` hashes. -/
def inventoryBytes (input : Value Double) : Option Bytes :=
  (inventory input).bind fun value => encodeUtf8 (stringify value)

end TypeScript

end Sbarbase.Settlement
