import Mathlib.Algebra.GroupWithZero.Nat
/-!
# Text

The checks on text the modelled code makes: the length of a string in the source
language, and the regular expressions it matches texts against. Each pattern is
a definition of its own shape, applied to the classes of characters it names.
-/

namespace Sbarbase.Lib

/-- `text.length`: the number of UTF-16 code units. -/
def utf16Length (text : String) : Nat :=
  (text.toList.map fun c => if c.toNat < 0x10000 then 1 else 2).sum

theorem utf16Length_append (a b : String) :
    utf16Length (a ++ b) = utf16Length a + utf16Length b := by
  simp [utf16Length]

/-! ## Classes of characters -/

/-- `[a-z]`. -/
def isLower (c : Char) : Bool := 'a' ≤ c && c ≤ 'z'

/-- `[A-Z]`. -/
def isUpper (c : Char) : Bool := 'A' ≤ c && c ≤ 'Z'

/-- `[0-9]`. -/
def isDigit (c : Char) : Bool := '0' ≤ c && c ≤ '9'

/-- `[a-f0-9]`. -/
def isHex (c : Char) : Bool := isDigit c || ('a' ≤ c && c ≤ 'f')

/-- `[0-9a-fA-F]`. -/
def isAnyHex (c : Char) : Bool := isHex c || ('A' ≤ c && c ≤ 'F')

/-- `[A-Za-z0-9]`. -/
def isAlphanumeric (c : Char) : Bool := isLower c || isUpper c || isDigit c

/-- `\s`, which is also what `trim` removes. -/
def isSpace (c : Char) : Bool :=
  ('\t' ≤ c && c ≤ '\r') || c = ' ' || c.toNat = 0xa0 || c.toNat = 0x1680 ||
    (0x2000 ≤ c.toNat && c.toNat ≤ 0x200a) || c.toNat = 0x2028 || c.toNat = 0x2029 ||
    c.toNat = 0x202f || c.toNat = 0x205f || c.toNat = 0x3000 || c.toNat = 0xfeff

/-- `[\x00-\xNN].test(text)`. -/
def hasCharUpTo (last : Nat) (text : String) : Bool := text.toList.any fun c => c.toNat ≤ last

def trim (text : String) : String :=
  String.ofList (((text.toList.dropWhile isSpace).reverse.dropWhile isSpace).reverse)

/-- The number that a row of decimal digits stands for. -/
def decimal (digits : List Char) : Nat := digits.foldl (fun n c => 10 * n + (c.toNat - '0'.toNat)) 0

/-! ## Patterns -/

/-- `^[first][rest]{least,most}$`. -/
def matchesRange (first rest : Char → Bool) (least most : Nat) (text : String) : Bool :=
  match text.toList with
  | [] => false
  | c :: chars => first c && chars.all rest && least ≤ chars.length && chars.length ≤ most

/-- `^prefix[p]{n}$`. -/
def matchesAfter (lead : String) (p : Char → Bool) (n : Nat) (text : String) : Bool :=
  lead.toList.isPrefixOf text.toList &&
    (text.toList.drop lead.length).length = n && (text.toList.drop lead.length).all p

/-- `^[p]{n}$`. -/
def matchesExactly (p : Char → Bool) (n : Nat) (text : String) : Bool := matchesAfter "" p n text

/-- `^[p]{n₁}-[p]{n₂}-…$`. -/
def matchesGroups (p : Char → Bool) : List Nat → List Char → Bool
  | [], chars => chars.isEmpty
  | [n], chars => chars.length = n && chars.all p
  | n :: lengths, chars =>
    (chars.take n).length = n && (chars.take n).all p && (chars.drop n).head? = some '-' &&
      matchesGroups p lengths (chars.drop (n + 1))

/-- `^[a-f0-9]{8}-[a-f0-9]{4}-[a-f0-9]{4}-[a-f0-9]{4}-[a-f0-9]{12}$`. -/
def isUuid (text : String) : Bool := matchesGroups isHex [8, 4, 4, 4, 12] text.toList

/-- `^e_[a-f0-9]{24}$`. -/
def isRuntime (text : String) : Bool := matchesAfter "e_" isHex 24 text

/-- `needle` occurs in the text. -/
def occursIn (needle : List Char) : List Char → Bool
  | [] => needle.isEmpty
  | c :: chars => needle.isPrefixOf (c :: chars) || occursIn needle chars

/-- `[p]{n,}` matches somewhere, `count` characters of `p` standing before. -/
def hasRun (p : Char → Bool) (n : Nat) (count : Nat) : List Char → Bool
  | [] => n ≤ count
  | c :: chars => n ≤ count || hasRun p n (if p c then count + 1 else 0) chars

/-- `(?<![p])[p]{n}(?![p])` matches somewhere, `count` characters of `p` standing before. -/
def hasExactRun (p : Char → Bool) (n : Nat) (count : Nat) : List Char → Bool
  | [] => count = n
  | c :: chars =>
    if p c then hasExactRun p n (count + 1) chars else count = n || hasExactRun p n 0 chars

/-- `^[p]+\.[p]+\.[p]+$`: `dots` separators are still to come, and `some` says
whether the part under way has a character. -/
def matchesParts (p : Char → Bool) (dots : Nat) (some : Bool) : List Char → Bool
  | [] => dots = 0 && some
  | c :: chars =>
    if p c then matchesParts p dots true chars
    else c = '.' && some && 0 < dots && matchesParts p (dots - 1) false chars

end Sbarbase.Lib
