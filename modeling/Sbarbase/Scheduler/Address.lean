import Mathlib.Data.Nat.Notation
import Mathlib.Data.Int.Notation
import Sbarbase.Lib.Text
/-!
# Addresses

The readers of `scheduler/egress.ts` for IPv4 and IPv6 addresses, and the ranges
it compares them with. Texts are lists of characters. A value is the number an
address stands for.
-/

namespace Sbarbase.Scheduler

open Lib

/-! ## Reading an address -/

/-- `^(0|[1-9][0-9]{0,2})$`. -/
def isOctet : List Char → Bool
  | [] => false
  | c :: rest =>
    (c = '0' && rest.isEmpty) || ('1' ≤ c && c ≤ '9' && rest.all isDigit && rest.length ≤ 2)

def v4 (text : List Char) : Option ℕ :=
  let parts := text.splitOn '.'
  if parts.length ≠ 4 ∨ parts.any (fun part => !isOctet part || 255 < decimal part) then none
  else some (parts.foldl (fun value part => value <<< 8 ||| decimal part) 0)

/-- `value.split('::')`. -/
def splitDouble : List Char → List (List Char)
  | [] => [[]]
  | [c] => [[c]]
  | c :: d :: rest =>
    if c = ':' ∧ d = ':' then [] :: splitDouble rest
    else (splitDouble (d :: rest)).modifyHead (c :: ·)

/-- `half ? half.split(':') : []`. -/
def groupsOf (half : List Char) : List (List Char) :=
  if half = [] then [] else half.splitOn ':'

/-- `^[0-9a-f]{1,4}$`. -/
def isGroup (group : List Char) : Bool := 1 ≤ group.length && group.length ≤ 4 && group.all isHex

/-- The value of a hexadecimal digit in lower case. -/
def hexDigit (c : Char) : ℕ := if isDigit c then c.toNat - '0'.toNat else c.toNat - 'a'.toNat + 10

/-- `parseInt(group,16)`. -/
def hexadecimal (group : List Char) : ℕ := group.foldl (fun n c => 16 * n + hexDigit c) 0

/-- The eight groups of an address without a dotted part. -/
def v6Groups (value : List Char) : Option ℕ :=
  let halves := splitDouble value
  if 2 < halves.length then none
  else
    let head := groupsOf (halves.getD 0 [])
    let rest := groupsOf (halves.getD 1 [])
    if (head ++ rest).any (fun group => !isGroup group) then none
    else
      let missing : ℤ := 8 - head.length - rest.length
      if (if halves.length = 1 then missing ≠ 0 else missing < 1) then none
      else
        let groups := head ++ List.replicate (if halves.length = 2 then missing.toNat else 0) ['0'] ++
          rest
        some (groups.foldl (fun acc group => acc <<< 16 ||| hexadecimal group) 0)

/-- `value.slice(0,value.lastIndexOf(':')+1)`. -/
def uptoColon (value : List Char) : List Char := (value.reverse.dropWhile (· ≠ ':')).reverse

/-- `value.slice(value.lastIndexOf(':')+1)`. -/
def afterColon (value : List Char) : List Char := (value.reverse.takeWhile (· ≠ ':')).reverse

/-- A letter outside ASCII lowers to no hexadecimal digit and to none of the
separators, so `toLowerCase` is modelled on ASCII. -/
def v6 (text : List Char) : Option ℕ :=
  let value := (text.map Char.toLower).takeWhile (· ≠ '%')
  if '.' ∈ value then
    match v4 (afterColon value) with
    | none => none
    | some tail => (v6Groups (uptoColon value ++ ['0', ':', '0'])).map fun result =>
        (result >>> 32) <<< 32 ||| tail
  else v6Groups value

inductive Family
  | four
  | six
  deriving DecidableEq

def Family.width : Family → ℕ
  | .four => 32
  | .six => 128

structure Address where
  v : Family
  value : ℕ
  deriving DecidableEq

/-- `text.slice(1,-1)` of a text in brackets, or the text. -/
def unbracketed (text : List Char) : List Char :=
  if text.head? = some '[' ∧ text.getLast? = some ']' then text.tail.dropLast else text

def parseAddress (text : List Char) : Option Address :=
  let plain := unbracketed text
  match v4 plain with
  | some value => some ⟨.four, value⟩
  | none => if ':' ∈ plain then (v6 plain).map fun value => ⟨.six, value⟩ else none

/-! ## Ranges -/

structure Range where
  v : Family
  base : ℕ
  bits : ℤ
  label : String
  deriving DecidableEq

/-- The value under the mask of the first `bits` bits of `width`. -/
def masked (width : ℕ) (bits : ℤ) (value : ℕ) : ℕ :=
  value >>> (width - bits.toNat) <<< (width - bits.toNat)

/-- `Number(size)`, as `BigInt` and the shifts take it. What they make of a size
that is not a few digits is left to `exotic`. -/
def sizeOf (exotic : List Char → Except String ℤ) (size : List Char) : Except String ℤ :=
  if 1 ≤ size.length ∧ size.length ≤ 3 ∧ size.all isDigit then .ok (decimal size) else exotic size

def range (exotic : List Char → Except String ℤ) (cidr : List Char) (label : String) :
    Except String Range :=
  let parts := cidr.splitOn '/'
  match parseAddress (parts.getD 0 []) with
  | none => .error ("Invalid range " ++ String.ofList cidr)
  | some parsed => do
    let bits ← match parts[1]? with
      | some size => sizeOf exotic size
      | none => .ok parsed.v.width
    .ok ⟨parsed.v, masked parsed.v.width bits parsed.value, bits, label⟩

def inside (entry : Range) (address : Address) : Bool :=
  entry.v = address.v && masked entry.v.width entry.bits address.value = entry.base

/-- The IANA special-purpose registries, and the ranges that carry an IPv4 address. -/
def registry : List (String × String) :=
  [("0.0.0.0/8", "this network"), ("10.0.0.0/8", "private"), ("100.64.0.0/10", "shared address space"),
    ("127.0.0.0/8", "loopback"), ("169.254.0.0/16", "link-local"), ("172.16.0.0/12", "private"),
    ("192.0.0.0/24", "IETF protocol assignments"), ("192.0.2.0/24", "documentation"),
    ("192.88.99.0/24", "6to4 relay"), ("192.168.0.0/16", "private"), ("198.18.0.0/15", "benchmarking"),
    ("198.51.100.0/24", "documentation"), ("203.0.113.0/24", "documentation"),
    ("224.0.0.0/4", "multicast"), ("240.0.0.0/4", "reserved"), ("::/128", "unspecified"),
    ("::1/128", "loopback"), ("::/96", "IPv4 compatible"), ("64:ff9b::/96", "NAT64"),
    ("64:ff9b:1::/48", "NAT64"), ("100::/64", "discard"), ("2001::/23", "IETF protocol assignments"),
    ("2001:db8::/32", "documentation"), ("2002::/16", "6to4"), ("fc00::/7", "unique local"),
    ("fe80::/10", "link-local"), ("fec0::/10", "site-local"), ("ff00::/8", "multicast")]

/-- Every size of the registry is a few digits. -/
def literalRange (cidr label : String) : Except String Range :=
  range (fun size => .error (String.ofList size)) cidr.toList label

/-- The ranges of the registry. None is invalid, which would stop the module. -/
def SPECIAL : List Range :=
  registry.filterMap fun entry => (literalRange entry.1 entry.2).toOption

/-- `::ffff:0:0/96`. -/
def MAPPED : Range := ⟨.six, 0xffff00000000, 96, "IPv4 mapped"⟩

end Sbarbase.Scheduler
