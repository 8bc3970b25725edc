import Mathlib.Algebra.Group.Int.Defs
import Mathlib.Algebra.Group.Nat.Defs
import Mathlib.Data.Int.Notation
import Sbarbase.Lib.Checked
import Sbarbase.Lib.Source
import Sbarbase.Lib.Text
import Mathlib.Data.Set.Defs
/-!
# Encrypted copies

`encrypted_size`, `EncryptingReader` and `decrypt_stream` of `lab/offsite.py`. The
cipher, the key derivation and the digest are parameters. What the operating
system answers comes with each call.
-/

namespace Sbarbase.Offsite

open Lib Checked

abbrev Bytes := List UInt8

/-- `AESGCM`; the arguments are key, nonce, data and associated data. -/
structure Aead where
  encrypt : Bytes → Bytes → Bytes → Bytes → Bytes
  /-- None is `InvalidTag`. -/
  decrypt : Bytes → Bytes → Bytes → Bytes → Option Bytes

/-! ## The format -/

def MAGIC : Bytes := [0x53, 0x42, 0x42, 0x31]

def CHUNK : ℕ := 4 * 1024 * 1024

def TAG : ℕ := 16

/-- `struct.pack('>I', index)` -/
def pack (index : ℕ) : Bytes :=
  [UInt8.ofNat (index / 2 ^ 24), UInt8.ofNat (index / 2 ^ 16), UInt8.ofNat (index / 2 ^ 8),
    UInt8.ofNat index]

def nonce (noncePrefix : Bytes) (index : ℕ) : Bytes := noncePrefix ++ pack index

/-- `struct.pack('>IB', index, last)` -/
def associated (index : ℕ) (last : Bool) : Bytes := pack index ++ [if last then 1 else 0]

def size (value : ℤ) (name : String) : Except String ℤ :=
  if value < 0 ∨ CHUNK * 2 ^ 32 < value then
    .error (name ++ " must be a nonnegative integer within the SBB1 size ceiling")
  else .ok value

def encryptedSize (plain : ℤ) : Except String ℤ :=
  match size plain "Plaintext size" with
  | .error error => .error error
  | .ok plain =>
    let chunks := max 1 (-(-plain / CHUNK))
    .ok (MAGIC.length + 16 + 8 + plain + chunks * TAG)

/-! ## Encryption -/

/-- What `os.fstat` says of the source. -/
structure Stat where
  regular : Bool
  size : ℕ
  modified : ℕ
  changed : ℕ

/-- The fields that are compared with the snapshot. -/
def Stat.same (a b : Stat) : Bool :=
  a.size = b.size && a.modified = b.modified && a.changed = b.changed

structure EncryptingReader where
  handle : Source UInt8
  snapshot : Stat
  key : Bytes
  noncePrefix : Bytes
  pending : Bytes
  index : ℕ
  remaining : ℕ
  finished : Bool
  failed : Bool
  closed : Bool

/-- `self.handle.read(1)` finds something. -/
def grown (handle : Source UInt8) : Bool :=
  match handle.read 1 with
  | none => true
  | some (extra, _) => extra ≠ []

namespace EncryptingReader

/-- `EncryptingReader(path, key, salt)`, with the drawn prefix. -/
def init (handle : Source UInt8) (snapshot : Stat) (key salt noncePrefix : Bytes) :
    Except String EncryptingReader :=
  if key.length ≠ 32 ∨ salt.length ≠ 16 then
    .error "Encryption requires a 32-byte key and 16-byte salt"
  else if !snapshot.regular then .error "Encryption source must be a regular file"
  else
    match Offsite.size snapshot.size "Plaintext size" with
    | .error error => .error error
    | .ok _ =>
      .ok {
        handle, snapshot, key, noncePrefix
        pending := MAGIC ++ salt ++ noncePrefix
        index := 0
        remaining := snapshot.size
        finished := false
        failed := false
        closed := false }

variable (aead : Aead)

/-- `_next`, with what `os.fstat` says now. -/
def next (reader : EncryptingReader) (current : Stat) : Except String EncryptingReader :=
  if reader.failed then .error "Encryption source previously failed admission"
  else if 2 ^ 32 ≤ reader.index then .error "SBB1 chunk index exhausted"
  else
    let wanted := min CHUNK reader.remaining
    match reader.handle.readBlock wanted with
    | none => .error "Ciphertext source returned an invalid read"
    | some (data, handle) =>
      if data.length ≠ wanted then .error "Encryption source shrank while reading"
      else
        let remaining := reader.remaining - data.length
        let last : Bool := remaining = 0
        if last && (grown handle || !current.same reader.snapshot) then
          .error "Encryption source changed while reading"
        else
          .ok { reader with
            handle := handle
            remaining := remaining
            pending := aead.encrypt reader.key (nonce reader.noncePrefix reader.index) data
              (associated reader.index last)
            index := reader.index + 1
            finished := last }

/-- `readinto` with a buffer of `count` bytes. -/
def readinto (reader : EncryptingReader) (count : ℕ) (current : Stat) :
    Except String Bytes × EncryptingReader :=
  if reader.closed then (.error "read of closed encryption source", reader)
  else if count = 0 then (.ok [], reader)
  else
    let filled := if reader.pending = [] ∧ !reader.finished then reader.next aead current
      else .ok reader
    match filled with
    | .error error => (.error error, { reader with failed := true })
    | .ok reader =>
      (.ok (reader.pending.take count), { reader with pending := reader.pending.drop count })

/-- The reads of a consumer, one after the other. -/
def reads (reader : EncryptingReader) (current : Stat) :
    List ℕ → Except String (List Bytes × EncryptingReader)
  | [] => .ok ([], reader)
  | count :: counts =>
    match reader.readinto aead count current with
    | (.error error, _) => .error error
    | (.ok part, reader) =>
      match reads reader current counts with
      | .error error => .error error
      | .ok (parts, reader) => .ok (part :: parts, reader)

def close (reader : EncryptingReader) : EncryptingReader := { reader with closed := true }

end EncryptingReader

/-! ## Decryption -/

/-- What `lstat` says of the destination. -/
inductive Destination
  | absent
  | regular
  | other
  deriving DecidableEq

def destination : Destination → Except String Unit
  | .other => .error "Decryption destination must be absent or a regular file"
  | _ => .ok ()

/-- What the operating system answers to a decryption. -/
structure Io where
  before : Destination
  /-- The staging directory and the file in it were made. -/
  staged : Bool
  /-- The plaintext was written and synced. -/
  written : Bool
  after : Destination
  replaced : Bool
  synced : Bool
  cleaned : Bool

structure Limits where
  expectedBytes : Option ℤ
  expectedSha256 : Option String
  maxBytes : Option ℤ

/-- A value that was given. -/
def sizeGiven (value : Option ℤ) (name : String) : Except String Unit :=
  match value with
  | none => .ok ()
  | some value => do
    let _ ← size value name

/-- The checks of the limits. -/
def Limits.check (limits : Limits) : Except String Unit := do
  sizeGiven limits.expectedBytes "Expected bytes"
  sizeGiven limits.maxBytes "Maximum bytes"
  require (∀ value ∈ limits.expectedSha256, matchesExactly isHex 64 value = true)
    "Expected SHA-256 must be 64 lowercase hexadecimal characters"
  require (∀ expected ∈ limits.expectedBytes, ∀ most ∈ limits.maxBytes, expected ≤ most)
    "Expected bytes exceed maximum bytes"

/-- A limit that so many bytes exceed. -/
def Limits.exceeded (limits : Limits) (total : ℕ) : Bool :=
  limits.expectedBytes.any (fun limit => limit < (total : ℤ)) ||
    limits.maxBytes.any fun limit => limit < (total : ℤ)

structure Receipt where
  bytes : ℕ
  sha256 : String

/-- What is returned or raised, and the content of the file that was published. -/
structure Outcome where
  result : Except String Receipt
  published : Option Bytes

section

variable (aead : Aead)

def readBlock (source : Source UInt8) (limit : ℕ) : Except String (Bytes × Source UInt8) :=
  match source.readBlock limit with
  | none => .error "Ciphertext source returned an invalid read"
  | some block => .ok block

/-- The loop: the chunk with its index, and what was written before it. -/
def decryptChunks (key noncePrefix : Bytes) (limits : Limits) (index : ℕ) (block written : Bytes)
    (source : Source UInt8) : Except String Bytes :=
  if 2 ^ 32 ≤ index ∨ block.length < TAG then
    .error "Invalid or exhausted SBB1 ciphertext chunk"
  else
    match if block.length = CHUNK + TAG then readBlock source (CHUNK + TAG)
      else .ok ([], source) with
    | .error error => .error error
    | .ok (following, source) =>
      let last := following.isEmpty
      match aead.decrypt key (nonce noncePrefix index) block (associated index last) with
      | none => .error ("The file does not decrypt: a wrong passphrase, " ++
          "or a damaged or truncated copy")
      | some data =>
        let written := written ++ data
        if limits.exceeded written.length then
          .error "Decrypted plaintext exceeds the admitted byte limit"
        else if last then .ok written
        else decryptChunks key noncePrefix limits (index + 1) following written source
termination_by 2 ^ 32 - index

variable (derive : String → Bytes → Bytes) (digest : Bytes → String)

/-- What is read before there is a staging directory: the header and the first chunk. -/
def begin (source : Source UInt8) (limits : Limits) (io : Io) :
    Except String (Bytes × Bytes × Source UInt8) := do
  limits.check
  destination io.before
  let (header, source) ← readBlock source 28
  require (header.length = 28 ∧ header.take 4 = MAGIC) "Not an encrypted Sbarbase backup file"
  let (block, source) ← readBlock source (CHUNK + TAG)
  require (io.staged = true) "OSError"
  return (header, block, source)

/-- The plaintext that waits in the staging directory. -/
def stage (header block : Bytes) (source : Source UInt8) (passphrase : String) (limits : Limits)
    (io : Io) : Except String Bytes := do
  let key := derive passphrase ((header.drop 4).take 16)
  let plaintext ← decryptChunks aead key (header.drop 20) limits 0 block [] source
  require (∀ expected ∈ limits.expectedBytes, (plaintext.length : ℤ) = expected)
    "Decrypted plaintext does not match expected bytes"
  require (∀ expected ∈ limits.expectedSha256, digest plaintext = expected)
    "Decrypted plaintext does not match expected SHA-256"
  require (io.written = true) "OSError"
  destination io.after
  require (io.replaced = true) "OSError"
  return plaintext

def decryptStream (source : Source UInt8) (passphrase : String) (limits : Limits) (io : Io) :
    Outcome :=
  match begin source limits io with
  | .error error => ⟨.error error, none⟩
  | .ok (header, block, source) =>
    match stage aead derive digest header block source passphrase limits io with
    | .error error =>
      ⟨.error (if io.cleaned then error else "Private staging cleanup failed"), none⟩
    | .ok plaintext =>
      if !io.cleaned then ⟨.error "Private staging cleanup failed", some plaintext⟩
      else if !io.synced then ⟨.error "OSError", some plaintext⟩
      else ⟨.ok ⟨plaintext.length, digest plaintext⟩, some plaintext⟩

end

/-!
## The format of an encrypted copy

A header with the salt and the nonce prefix, then the plaintext in full chunks
and one last chunk, each sealed with its index and whether it is the last.
-/

/-- The plaintext in chunks; the last may be short, and is empty for an empty plaintext only. -/
def pieces (data : Bytes) : List Bytes :=
  if data.length ≤ CHUNK then [data] else data.take CHUNK :: pieces (data.drop CHUNK)
termination_by data.length
decreasing_by
  rw [List.length_drop]
  have : 0 < CHUNK := by decide
  omega

/-- The chunks from an index on, sealed. -/
def sealedFrom (aead : Aead) (key noncePrefix : Bytes) (index : ℕ) : List Bytes → Bytes
  | [] => []
  | piece :: rest =>
    aead.encrypt key (nonce noncePrefix index) piece (associated index rest.isEmpty) ++
      sealedFrom aead key noncePrefix (index + 1) rest

/-- A plaintext, and what is drawn for its copy. -/
structure Copy where
  passphrase : String
  salt : Bytes
  noncePrefix : Bytes
  plaintext : Bytes
  salt_length : salt.length = 16
  noncePrefix_length : noncePrefix.length = 8
  plaintext_length : plaintext.length ≤ CHUNK * 2 ^ 32

namespace Copy

variable (derive : String → Bytes → Bytes) (copy : Copy)

def key : Bytes := derive copy.passphrase copy.salt

def header : Bytes := MAGIC ++ copy.salt ++ copy.noncePrefix

/-- The copy as it is stored. -/
def encrypted (aead : Aead) : Bytes :=
  copy.header ++ sealedFrom aead (copy.key derive) copy.noncePrefix 0 (pieces copy.plaintext)

end Copy

/-- Decryption inverts encryption, and a tag is added to the data. -/
structure Aead.Correct (aead : Aead) : Prop where
  decrypt_encrypt : ∀ key nonce data associated,
    aead.decrypt key nonce (aead.encrypt key nonce data associated) associated = some data
  length : ∀ key nonce data associated,
    (aead.encrypt key nonce data associated).length = data.length + TAG

/-- The chunk of a copy at an index, and whether it is the last. -/
def Copy.Holds (copy : Copy) (index : ℕ) (piece : Bytes) (last : Bool) : Prop :=
  ∃ before after, pieces copy.plaintext = before ++ piece :: after ∧ index = before.length ∧
    last = after.isEmpty

/-- Nothing decrypts but what was encrypted for one of the copies. -/
def Aead.Ideal (aead : Aead) (derive : String → Bytes → Bytes) (copies : Set Copy) : Prop :=
  ∀ key nonce block associated data, aead.decrypt key nonce block associated = some data →
    ∃ copy ∈ copies, ∃ index last, copy.Holds index data last ∧ key = copy.key derive ∧
      nonce = Offsite.nonce copy.noncePrefix index ∧ associated = Offsite.associated index last ∧
      block = aead.encrypt key nonce data associated

/-- The salts and prefixes of the copies were drawn apart, and no two salts give one key. -/
structure Fresh (derive : String → Bytes → Bytes) (copies : Set Copy) : Prop where
  copies : ∀ a ∈ copies, ∀ b ∈ copies, a.key derive = b.key derive →
    a.noncePrefix = b.noncePrefix → a = b
  keys : ∀ passphrase salt passphrase' salt', derive passphrase salt = derive passphrase' salt' →
    salt = salt'

end Sbarbase.Offsite
