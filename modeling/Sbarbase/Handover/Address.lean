import Mathlib.Algebra.Group.Int.Defs
import Mathlib.Algebra.Group.Nat.Defs
import Sbarbase.Lib.Json
import Sbarbase.Scheduler.Address
/-!
# The address of a listener

`procAddress` of `http/handover.ts` and `hex_address` of `lab/handover.py`: the
file under `/proc/net` that has a listener, and its address as that file prints
it. Texts are lists of characters. `isIPv4`, `isIPv6` and `inet_pton` read the
texts of an address as the readers of `Scheduler.Address` do.
-/

namespace Sbarbase.Handover

open Lib Scheduler

inductive ProcFile
  | tcp
  | tcp6
  deriving DecidableEq

structure Printed where
  file : ProcFile
  hex : List Char
  deriving DecidableEq

/-- `localhost` is 127.0.0.1 to both. -/
def named (host : List Char) : List Char :=
  if host = "localhost".toList then "127.0.0.1".toList else host

def notAnAddress (host : List Char) : String := String.ofList host ++ " is not an IP address"

def upper (text : List Char) : List Char := text.map Char.toUpper

/-! ## The console -/

/-- `isIPv4` of `node:net`. -/
def isIPv4 (text : List Char) : Bool := (v4 text).isSome

/-- `isIPv6` of `node:net`; `zone` tells which texts it takes after `%`. -/
def isIPv6 (zone : List Char → Bool) (text : List Char) : Bool :=
  (v6 text).isSome &&
    match text.dropWhile (· ≠ '%') with
    | [] => true
    | _ :: rest => zone rest

def isSpace (c : Char) : Bool :=
  c.toNat ∈ [9, 10, 11, 12, 13, 32, 0xA0, 0x1680, 0x2028, 0x2029, 0x202F, 0x205F, 0x3000, 0xFEFF] ||
    (0x2000 ≤ c.toNat && c.toNat ≤ 0x200A)

/-- `parseInt(word,16)`; none is `NaN`. A number of more than 53 bits is not rounded. -/
def parseInt (word : List Char) : Option ℤ :=
  let text := (word.map Char.toLower).dropWhile isSpace
  let (sign, text) : ℤ × List Char :=
    match text with
    | '-' :: rest => (-1, rest)
    | '+' :: rest => (1, rest)
    | _ => (1, text)
  let digits :=
    (match text with
    | '0' :: 'x' :: rest => rest
    | _ => text).takeWhile isHex
  if digits = [] then none else some (sign * hexadecimal digits)

/-- The operand of a bitwise operator. -/
def toInt32 (number : Option ℤ) : ℤ := (number.getD 0 + 2 ^ 31) % 2 ^ 32 - 2 ^ 31

/-- `[group>>8,group&255]` -/
def bytesOf (group : Option ℤ) : List ℤ := [toInt32 group / 256, toInt32 group % 256]

/-- `byte.toString(16).padStart(2,'0')` -/
def byteText (byte : ℤ) : List Char :=
  let digits := if byte < 0 then '-' :: Nat.toDigits 16 byte.natAbs else Nat.toDigits 16 byte.toNat
  List.replicate (2 - digits.length) '0' ++ digits

/-- `words`, of a text that is not empty. -/
def words (text : List Char) : List (Option ℤ) := (groupsOf text).map parseInt

/-- `bytes.slice(at,at+4)` for each fourth `at` below 16, reversed. -/
def reversedWords {α : Type} (bytes : List α) : List α :=
  (List.range 4).flatMap fun i => ((bytes.drop (4 * i)).take 4).reverse

/-- The groups of `procAddress`; none is an error. An array of a negative length is one, and
its text is not kept. -/
def groups (host : List Char) : Option (List (Option ℤ)) :=
  match splitDouble host with
  | head :: tail :: _ =>
    let front := words head
    let back := words tail
    if front.length + back.length > 8 then none
    else some (front ++ List.replicate (8 - front.length - back.length) (some 0) ++ back)
  | halves =>
    let front := words (halves.getD 0 [])
    if front.length ≠ 8 then none else some front

def procAddress (zone : List Char → Bool) (text : List Char) : Except String Printed :=
  let host := named text
  if isIPv4 host then
    let octets := (host.splitOn '.').map fun octet => (decimal octet : ℤ)
    .ok ⟨.tcp, upper (octets.reverse.flatMap byteText)⟩
  else if !isIPv6 zone host then .error (notAnAddress host)
  else
    match groups host with
    | none => .error (String.ofList host ++ " is not an IPv6 address")
    | some groups => .ok ⟨.tcp6, upper ((reversedWords (groups.flatMap bytesOf)).flatMap byteText)⟩

/-! ## The supervisor -/

/-- The bytes of a number, the highest first. -/
def packed (n value : ℕ) : List ℕ := (List.range n).map fun i => value / 256 ^ (n - 1 - i) % 256

/-- `socket.inet_pton(socket.AF_INET,host)` -/
def inetPton4 (host : List Char) : Option (List ℕ) := (v4 host).map (packed 4)

/-- `socket.inet_pton(socket.AF_INET6,host)`, which takes no zone. -/
def inetPton6 (host : List Char) : Option (List ℕ) :=
  if '%' ∈ host then none else (v6 host).map (packed 16)

/-- `.hex()` -/
def hexOf (bytes : List ℕ) : List Char := bytes.flatMap (Json.hexDigits 2)

def hexAddress (text : List Char) : Except String Printed :=
  let host := named text
  match inetPton4 host with
  | some bytes => .ok ⟨.tcp, upper (hexOf bytes.reverse)⟩
  | none =>
    match inetPton6 host with
    | some bytes => .ok ⟨.tcp6, upper (hexOf (reversedWords bytes))⟩
    | none => .error (notAnAddress host)

/-! ## The kernel -/

/-- A word of 32 bits whose bytes lie in memory in the order of the address, as a processor
reads it that takes the first byte for the lowest. -/
def littleEndian (word : ℕ) : ℕ :=
  ((word % 256 * 256 + word / 256 % 256) * 256 + word / 65536 % 256) * 256 + word / 16777216 % 256

/-- The words of an address. -/
def wordsOf (address : Address) : List ℕ :=
  (List.range (address.v.width / 32)).map fun i =>
    address.value / 2 ^ (32 * (address.v.width / 32 - 1 - i)) % 2 ^ 32

/-- What `/proc/net` prints of an address: each word by `%08X`. -/
def kernelText (address : Address) : Printed where
  file := match address.v with
    | .four => .tcp
    | .six => .tcp6
  hex := upper ((wordsOf address).flatMap fun word => Json.hexDigits 8 (littleEndian word))

end Sbarbase.Handover
