import Sbarbase.Lib.Value
/-!
# The binding of a transfer

`validate_binding` of `lab/transfer_journal.py` and `validateTransferBinding` of
`control/transfer-contract.ts`, each over the value that its language reads from a
JSON text.
-/

namespace Sbarbase.Transfer.Contract

open Lib

/-! ## Patterns -/

def isDigitPoint (c : ℕ) : Bool := 48 ≤ c && c ≤ 57

/-- `[0-9a-f]` -/
def isHexPoint (c : ℕ) : Bool := isDigitPoint c || (97 ≤ c && c ≤ 102)

/-- A pattern of classes, each with the number of its characters, against a whole text. -/
def matchesAll : List ((ℕ → Bool) × ℕ) → CodePoints → Bool
  | [], text => text = []
  | (p, n) :: rest, text =>
    (text.take n).length = n && (text.take n).all p && matchesAll rest (text.drop n)

def is (c : Char) (point : ℕ) : Bool := point = c.toNat

/-- `[0-9a-f]{64}` -/
def DIGEST : List ((ℕ → Bool) × ℕ) := [(isHexPoint, 64)]

/-- `e_[0-9a-f]{24}` -/
def RUNTIME : List ((ℕ → Bool) × ℕ) := [(is 'e', 1), (is '_', 1), (isHexPoint, 24)]

/-- `[1-9][0-9]{0,9}` -/
def matchesOid : CodePoints → Bool
  | [] => false
  | c :: rest => 49 ≤ c && c ≤ 57 && rest.length ≤ 9 && rest.all isDigitPoint

def decimalValue (text : CodePoints) : ℕ := text.foldl (fun n c => 10 * n + (c - 48)) 0

/-- The value under a name. -/
def get {α : Type} (members : List (CodePoints × α)) (name : CodePoints) : Option α :=
  (members.find? fun member => member.1 = name).map Prod.snd

def names {α : Type} (members : List (CodePoints × α)) : List CodePoints := members.map Prod.fst

/-- `runtime + '_' + kind` -/
def roleName (runtime : CodePoints) (kind : String) : CodePoints :=
  runtime ++ codePoints "_" ++ codePoints kind

/-! ## In Python -/

namespace Python

def BINDING_FIELDS : List CodePoints :=
  ["operation", "environment", "runtime", "project", "source", "destination", "actor",
    "installation", "runtime_epoch", "management_epoch", "inventory_digest", "daemon_digest",
    "engine_id", "database_oid", "roles", "routing_revision"].map codePoints

/-- What the Unicode database says of the characters beyond ASCII. -/
structure Unicode where
  isSpace : ℕ → Bool
  digit : ℕ → Option ℕ

section

variable (unicode : Unicode)

/-- `text.replace(pattern, '')`; the first characters of `skip` are gone already. -/
def removeAll (pattern : CodePoints) : ℕ → CodePoints → CodePoints
  | _, [] => []
  | skip + 1, _ :: rest => removeAll pattern skip rest
  | 0, c :: rest =>
    if pattern.isPrefixOf (c :: rest) then removeAll pattern (pattern.length - 1) rest
    else c :: removeAll pattern 0 rest

def stripAll (p : ℕ → Bool) (text : CodePoints) : CodePoints :=
  ((text.dropWhile p).reverse.dropWhile p).reverse

def isSpace (c : ℕ) : Bool :=
  if c < 128 then (9 ≤ c && c ≤ 13) || (28 ≤ c && c ≤ 32) else unicode.isSpace c

def hexDigit (c : ℕ) : Option ℕ :=
  if isDigitPoint c then some (c - 48)
  else if 97 ≤ c ∧ c ≤ 102 then some (c - 87)
  else if 65 ≤ c ∧ c ≤ 70 then some (c - 55)
  else if c < 128 then none else unicode.digit c

/-- Digits, with single underscores between them. -/
def hexValue (value : ℕ) (afterDigit : Bool) : CodePoints → Option ℕ
  | [] => if afterDigit then some value else none
  | c :: rest =>
    if c = 95 then if afterDigit then hexValue value false rest else none
    else
      match hexDigit unicode c with
      | none => none
      | some digit => hexValue (16 * value + digit) true rest

/-- Digits that may begin with `0x`. -/
def prefixedValue : CodePoints → Option ℕ
  | 48 :: 120 :: 95 :: rest => hexValue unicode 0 false rest
  | 48 :: 88 :: 95 :: rest => hexValue unicode 0 false rest
  | 48 :: 120 :: rest => hexValue unicode 0 false rest
  | 48 :: 88 :: rest => hexValue unicode 0 false rest
  | text => hexValue unicode 0 false text

/-- `int(text, 16)` -/
def intBase16 (text : CodePoints) : Option ℤ :=
  match stripAll (isSpace unicode) text with
  | 43 :: rest => (prefixedValue unicode rest).map fun n => (n : ℤ)
  | 45 :: rest => (prefixedValue unicode rest).map fun n => -(n : ℤ)
  | rest => (prefixedValue unicode rest).map fun n => (n : ℤ)

/-- `uuid.UUID(text).int` -/
def uuidInt (text : CodePoints) : Option ℕ :=
  let hex := removeAll (codePoints "uuid:") 0 (removeAll (codePoints "urn:") 0 text)
  let hex := (stripAll (fun c => c = 123 || c = 125) hex).filter fun c => c ≠ 45
  if hex.length = 32 then
    match intBase16 unicode hex with
    | some n => if 0 ≤ n ∧ n < 2 ^ 128 then some n.toNat else none
    | none => none
  else none

def hexPoint (digit : ℕ) : ℕ := if digit < 10 then 48 + digit else 87 + digit

/-- The lowest `n` hexadecimal digits of a number. -/
def hexText : ℕ → ℕ → CodePoints
  | 0, _ => []
  | n + 1, value => hexText n (value / 16) ++ [hexPoint (value % 16)]

/-- `str(uuid.UUID(int=value))` -/
def uuidText (value : ℕ) : CodePoints :=
  let hex := hexText 32 value
  hex.take 8 ++ [45] ++ (hex.drop 8).take 4 ++ [45] ++ (hex.drop 12).take 4 ++ [45] ++
    (hex.drop 16).take 4 ++ [45] ++ hex.drop 20

def _uuid : Value PyNumber → Bool
  | .text text =>
    match uuidInt unicode text with
    | none => false
    | some n => uuidText n = text && n ≠ 0
  | _ => false

end

def _integer : Value PyNumber → Bool
  | .number (.int n) => 0 ≤ n && n ≤ 9007199254740991
  | _ => false

def atLeastOne : Value PyNumber → Bool
  | .number (.int n) => 1 ≤ n
  | _ => false

def _digest : Value PyNumber → Bool
  | .text text => matchesAll DIGEST text
  | _ => false

def _oid : Value PyNumber → Bool
  | .text text => matchesOid text && decimalValue text ≤ 4294967295
  | _ => false

def asText : Value PyNumber → Option CodePoints
  | .text text => some text
  | _ => none

/-- The roles of a binding, of its runtime. -/
def validRoles (runtime : CodePoints) : Value PyNumber → Bool
  | .object roles =>
    let required := ["auth", "rest", "storage"].map (roleName runtime)
    let allowed := required ++ ["realtime", "developer", "studio"].map (roleName runtime)
    required.all (fun name => (names roles).contains name) &&
      (names roles).all (fun name => allowed.contains name) &&
      roles.all (fun role => _oid role.2) &&
      (roles.map fun role => asText role.2).dedup.length = roles.length
  | _ => false

/-- `validate_binding`: true when it does not fail. -/
def validateBinding (unicode : Unicode) : Value PyNumber → Bool
  | .object value =>
    let field (name : String) : Value PyNumber := (get value (codePoints name)).getD .null
    (names value).all (fun name => BINDING_FIELDS.contains name) &&
      BINDING_FIELDS.all (fun name => (names value).contains name) &&
      ["operation", "environment", "project", "source", "destination", "actor", "installation"].all
        (fun key => _uuid unicode (field key)) &&
      match asText (field "runtime") with
      | none => false
      | some runtime =>
        matchesAll RUNTIME runtime &&
        !(asText (field "source") = asText (field "destination")) &&
        ["runtime_epoch", "management_epoch", "routing_revision"].all
          (fun key => _integer (field key)) &&
        atLeastOne (field "runtime_epoch") &&
        ["inventory_digest", "daemon_digest", "engine_id"].all (fun key => _digest (field key)) &&
        _oid (field "database_oid") && validRoles runtime (field "roles")
  | _ => false

end Python

/-! ## In TypeScript -/

namespace TypeScript

def UUID : List ((ℕ → Bool) × ℕ) :=
  [(isHexPoint, 8), (is '-', 1), (isHexPoint, 4), (is '-', 1), (isHexPoint, 4), (is '-', 1),
    (isHexPoint, 4), (is '-', 1), (isHexPoint, 12)]

def ROLE_SUFFIXES : List String := ["auth", "rest", "storage", "realtime", "developer", "studio"]

def FIELDS : List CodePoints :=
  ["operation", "project", "source", "destination", "environment", "runtime", "actor",
    "management_epoch", "runtime_epoch", "inventory_digest", "installation", "daemon_digest",
    "engine_id", "database_oid", "roles", "routing_revision"].map codePoints

def boundedInteger (positive : Bool) : Option (Value Double) → Bool
  | some (.number n) =>
    match n.safeInteger with
    | some value => (if positive then 1 else 0) ≤ value
    | none => false
  | _ => false

def asText : Option (Value Double) → Option CodePoints
  | some (.text text) => some text
  | _ => none

def matchesPattern (pattern : List ((ℕ → Bool) × ℕ)) (value : Option (Value Double)) : Bool :=
  match asText value with
  | some text => matchesAll pattern text
  | none => false

def uuid (value : Option (Value Double)) : Bool :=
  matchesPattern UUID value &&
    asText value ≠ some (codePoints "00000000-0000-0000-0000-000000000000")

/-- `Number(value) <= bound`, of a row of digits. -/
def numberAtMost (text : CodePoints) (bound : ℚ) : Bool :=
  match (Double.ofRat false (decimalValue text)).magnitude with
  | some value => value ≤ bound
  | none => false

def oid (value : Option (Value Double)) : Bool :=
  match asText value with
  | some text => matchesOid text && numberAtMost text 4294967295
  | none => false

def validRoles (runtime : CodePoints) : Option (Value Double) → Bool
  | some (.object entries) =>
    let names' := ROLE_SUFFIXES.map (roleName runtime)
    3 ≤ entries.length && entries.length ≤ names'.length &&
      entries.all (fun entry => names'.contains entry.1 && oid (some entry.2)) &&
      ["auth", "rest", "storage"].all
        (fun suffix => (names entries).contains (roleName runtime suffix)) &&
      (entries.map fun entry => asText (some entry.2)).dedup.length = entries.length
  | _ => false

/-- `validateTransferBinding`: true when it does not throw. -/
def validateTransferBinding : Value Double → Bool
  | .object value =>
    let field (name : String) : Option (Value Double) := get value (codePoints name)
    value.length = FIELDS.length && (names value).all (fun key => FIELDS.contains key) &&
      ["operation", "project", "source", "destination", "environment", "installation"].all
        (fun key => uuid (field key)) &&
      !(asText (field "source") = asText (field "destination")) && uuid (field "actor") &&
      matchesPattern RUNTIME (field "runtime") &&
      ["inventory_digest", "daemon_digest", "engine_id"].all
        (fun key => matchesPattern DIGEST (field key)) &&
      boundedInteger true (field "runtime_epoch") &&
      boundedInteger false (field "management_epoch") &&
      boundedInteger false (field "routing_revision") && oid (field "database_oid") &&
      validRoles ((asText (field "runtime")).getD []) (field "roles")
  | _ => false

/-- A number as `JSON.stringify` writes it; `other` writes those that are no safe integer. -/
def writeNumber (other : Double → Numeral) (d : Double) : Numeral :=
  match d.safeInteger with
  | some n => ⟨n < 0, n.natAbs, none, none⟩
  | none => other d

end TypeScript

end Sbarbase.Transfer.Contract
