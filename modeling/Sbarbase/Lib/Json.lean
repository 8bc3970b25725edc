import Mathlib.Data.Nat.Notation
import Mathlib.Data.Int.Notation
/-!
# JSON texts

`json.dumps(value, sort_keys=True, separators=(',', ':'), ensure_ascii=True)`, as
one function for each kind of value. A text is the list of its characters, and the
parts of a list or an object are given as texts already.
-/

namespace Sbarbase.Lib.Json

/-- The lowest `n` hexadecimal digits of a number. -/
def hexDigits : ℕ → ℕ → List Char
  | 0, _ => []
  | n + 1, value => hexDigits n (value / 16) ++ [Nat.digitChar (value % 16)]

/-- `\uXXXX`, in a surrogate pair where the character needs one. -/
def escapeUnicode (code : ℕ) : List Char :=
  if code < 0x10000 then '\\' :: 'u' :: hexDigits 4 code
  else
    let rest := code - 0x10000
    ('\\' :: 'u' :: hexDigits 4 (0xd800 + rest / 0x400)) ++
      ('\\' :: 'u' :: hexDigits 4 (0xdc00 + rest % 0x400))

def escape (c : Char) : List Char :=
  let code := c.toNat
  if 0x20 ≤ code ∧ code ≤ 0x7e ∧ code ≠ 0x22 ∧ code ≠ 0x5c then [c]
  else if code = 0x22 then ['\\', '"']
  else if code = 0x5c then ['\\', '\\']
  else if code = 0x0a then ['\\', 'n']
  else if code = 0x0d then ['\\', 'r']
  else if code = 0x09 then ['\\', 't']
  else if code = 0x08 then ['\\', 'b']
  else if code = 0x0c then ['\\', 'f']
  else escapeUnicode code

def text (value : String) : List Char := '"' :: (value.toList.flatMap escape ++ ['"'])

def number (value : ℤ) : List Char := (toString value).toList

def flag (value : Bool) : List Char := (if value then "true" else "false").toList

/-- `None` is `null`. -/
def optional {α : Type} (encode : α → List Char) : Option α → List Char
  | none => "null".toList
  | some value => encode value

def list (items : List (List Char)) : List Char := '[' :: ([','].intercalate items ++ [']'])

/-- An object, its members given in the order of their names. -/
def object (members : List (String × List Char)) : List Char :=
  '\x7b' :: ([','].intercalate (members.map fun member => text member.1 ++ ':' :: member.2) ++
    ['\x7d'])

end Sbarbase.Lib.Json
