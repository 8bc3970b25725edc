import Sbarbase.Lib.Durable
import Sbarbase.Transfer.Record
import Sbarbase.Lib.Machine
/-!
# The journal of a transfer

`TransferJournal` of `lab/transfer_journal.py`: how a record is published over
marker, candidate and rename, and how an interrupted publication is reconciled.

The installation lock is held while a journal is open, so no other writer touches
its files: the checks of the source that a file is still the one that was read
(`_witness`, `_sync_leaf` and the metadata comparisons) keep here what they say
about the directory. A sync changes nothing that a later reader sees; the
creation of a file, its text, a rename and an unlink are one durable step each.
-/

namespace Sbarbase.Transfer

open Lib

/-- A file that was created and not written out yet, or one with its whole text. -/
inductive File (α : Type)
  | torn
  | whole (content : α)
  deriving DecidableEq

/-- The files of one journal: the record, the publication marker, the files of
its pending prefix, its abort receipts, and how many other entries the directory
has. -/
structure Disk where
  record : Option (File Record)
  marker : Option (File Manifest)
  candidates : Dict String (File Record)
  receipts : Dict String (File AbortReceipt)
  others : ℕ
  deriving DecidableEq

def Disk.entries (d : Disk) : ℕ :=
  (if d.record.isSome then 1 else 0) + (if d.marker.isSome then 1 else 0) +
    d.candidates.keys.length + d.receipts.keys.length + d.others

def Disk.setMarker (d : Disk) (file : Option (File Manifest)) : Disk := { d with marker := file }

def Disk.setCandidate (d : Disk) (name : String) (file : File Record) : Disk :=
  { d with candidates := d.candidates.set name file }

def Disk.setReceipt (d : Disk) (name : String) (file : File AbortReceipt) : Disk :=
  { d with receipts := d.receipts.set name file }

/-- `os.replace(candidate, self.name)` -/
def Disk.renameCandidate (d : Disk) (name : String) : Disk :=
  { d with record := d.candidates.get name, candidates := d.candidates.delete name }

/-- What an open journal remembers. -/
structure Process where
  poisoned : Bool
  trustedMaterialDigest : Option String
  deriving DecidableEq

def Process.fresh : Process := ⟨false, none⟩

abbrev Journal (α : Type) := Durable Disk Process Failure α

namespace Journal

def refuse {α : Type} (code : String) : Journal α := .throw (.reason code)

def ensure (p : Prop) [Decidable p] (code : String) : Journal Unit := .require p (.reason code)

end Journal

open Journal

def reconciliationRequired : String := "PUBLICATION_RECONCILIATION_REQUIRED"

def boundary (allowPublication : Bool) : Journal Unit := do
  let process ← .memory
  ensure (process.poisoned = false ∨ allowPublication = true) reconciliationRequired
  let d ← .disk
  ensure (d.entries ≤ 4096) reconciliationRequired
  ensure (allowPublication = true ∨ (d.marker = none ∧ d.candidates.keys = []))
    reconciliationRequired

/-- `_read_leaf`, of a file that may be missing. -/
def readLeaf {α : Type} (encode : α → List Char) (file : Disk → Option (File α)) :
    Journal (Option α) := do
  boundary true
  let d ← .disk
  match file d with
  | none => return none
  | some .torn => refuse "RECORD_INVALID"
  | some (.whole content) => do
    ensure ((encode content).length ≤ maxBytes) "RECORD_INVALID"
    boundary true
    return some content

section

variable (sha256 : List Char → ℕ) (binding : Binding)

/-- `self.name` -/
def recordName : String := binding.operation ++ "." ++ binding.runtime ++ ".json"

def pendingPrefix : String := "." ++ recordName binding ++ ".pending-"

def abortPrefix : String := "." ++ recordName binding ++ ".aborted-"

/-- `__init__`: the binding is checked and the journal opened. -/
def openJournal : Journal Unit := do
  .lift (validateBinding binding)
  boundary true

/-- `_read` -/
def readRecord (missing : Bool) : Journal (Option Record) := do
  boundary false
  let record ← readLeaf Record.encode Disk.record
  ensure (missing = true ∨ record ≠ none) "RESERVATION_MISSING"
  boundary false
  match record with
  | none => return none
  | some record => do
    .lift (validate sha256 binding record)
    return some record

/-- The marker of a publication. -/
def manifestOf (old : Option Record) (record : Record) (candidate : String) : Manifest where
  schema := 2
  bindingDigest := bindingDigest sha256 binding
  candidate := candidate
  previousRecordDigest := old.map (recordDigest sha256)
  previousRevision := old.map Record.revision
  previousState := old.map Record.publicState
  proposedRecordDigest := recordDigest sha256 record
  proposedRevision := record.revision
  materialDigest := record.materialDigest

/-- The writes of `_publish`. -/
def writeGeneration (manifest : Manifest) (record : Record) (previous : Bool) : Journal Unit := do
  let d ← .disk
  .require (d.marker = none) .os
  .store fun d => d.setMarker (some .torn)
  .store fun d => d.setMarker (some (.whole manifest))
  .require (d.candidates.get manifest.candidate = none) .os
  .store fun d => d.setCandidate manifest.candidate .torn
  .store fun d => d.setCandidate manifest.candidate (.whole record)
  ensure (d.record.isSome = previous) "FILE_BINDING_CHANGED"
  .store fun d => d.renameCandidate manifest.candidate
  .store fun d => d.setMarker none
  boundary false

/-- The record that `_publish` compares with. -/
def previousRecord (previous : Bool) : Journal (Option Record) :=
  if previous then readRecord sha256 binding false else pure none

/-- `_publish`: whether there is a previous record, the 16 random bytes of the
candidate's name as `token`. -/
def publish (record : Record) (previous : Bool) (token : String) : Journal Unit := do
  .lift (validate sha256 binding record)
  boundary false
  ensure (record.encode.length ≤ maxBytes) "RECORD_TOO_LARGE"
  let old ← previousRecord sha256 binding previous
  .lift (transition old record)
  let manifest := manifestOf sha256 binding old record (pendingPrefix binding ++ token)
  ensure (manifest.encode.length ≤ maxBytes) "RECORD_TOO_LARGE"
  (writeGeneration manifest record previous).onError
    (fun process => { process with poisoned := true })
    fun _ => .reason reconciliationRequired

/-! ## Reconciliation -/

/-- `_manifest` -/
def checkManifest (m : Manifest) : Checked Unit := do
  let lead := pendingPrefix binding
  check (m.schema = 2) "PUBLICATION_MANIFEST_INVALID"
  check (m.bindingDigest = bindingDigest sha256 binding) "BINDING_DIFFERS"
  check (matchesAfter lead isHex 32 m.candidate) "PUBLICATION_MANIFEST_INVALID"
  check ([m.bindingDigest, m.proposedRecordDigest, m.materialDigest].all isDigest ∧
    isInteger m.proposedRevision) "PUBLICATION_MANIFEST_INVALID"
  match m.previousRecordDigest with
  | none =>
    check (m.previousRevision = none ∧ m.previousState = none ∧ m.proposedRevision = 0)
      "PUBLICATION_MANIFEST_INVALID"
  | some digest => do
    check (isDigest digest ∧
      m.previousRevision.any fun revision => isInteger revision ∧ m.proposedRevision = revision + 1)
      "PUBLICATION_MANIFEST_INVALID"
    check m.previousState.isSome "PUBLICATION_MANIFEST_INVALID"

def previousGeneration (m : Manifest) (credentials : Credentials) : Checked (Option Record) :=
  match m.previousState with
  | none => .ok none
  | some state => do
    let old := state.withCredentials credentials
    validate sha256 binding old
    check (some (recordDigest sha256 old) = m.previousRecordDigest ∧
      some old.revision = m.previousRevision) "PUBLICATION_PREVIOUS_DIFFERS"
    return some old

def publicContinuity (record : Record) (effectStarted : Bool) (expected : Option String) :
    Checked Unit :=
  match expected with
  | none =>
    check (effectStarted = false ∧ record.effects = [] ∧ record.revision = 0)
      "PUBLIC_MATERIAL_REQUIRED"
  | some digest => check (digest = record.materialDigest) "MATERIAL_DIFFERS"

/-- What the public state of the operation says. -/
def publicState (effectStarted : Bool) (expected : Option String) : Checked Unit := do
  check (expected.all isDigest) "PUBLIC_STATE_INVALID"
  check (effectStarted = true → expected ≠ none) "PUBLIC_MATERIAL_REQUIRED"

/-- One receipt of `_aborted_receipt`. -/
def checkAbortReceipt (target : Record) (manifests : List String) (receipt : AbortReceipt) :
    Checked Unit := do
  check (receipt.schema = 1 ∧ receipt.outcome = "publication_aborted" ∧
    [receipt.bindingDigest, receipt.manifestDigest, receipt.proposedRecordDigest,
      receipt.materialDigest].all isDigest ∧ receipt.previousRecordDigest.any isDigest ∧
    isInteger receipt.proposedRevision ∧ 1 ≤ receipt.proposedRevision ∧
    receipt.bindingDigest = bindingDigest sha256 binding ∧
    receipt.materialDigest = target.materialDigest) "PUBLICATION_ABORT_RECEIPT_DIFFERS"
  check (holdsSecret target.credentials receipt.encode = false) "CREDENTIAL_IN_OBSERVATION"
  check (receipt.manifestDigest ∉ manifests) "PUBLICATION_ABORT_RECEIPT_DIFFERS"
  check (if receipt.previousRecordDigest = some (recordDigest sha256 target) then
      receipt.proposedRevision = target.revision + 1
    else receipt.proposedRevision ≤ target.revision) "PUBLICATION_ABORT_RECEIPT_DIFFERS"

/-- The rest of the name of an abort receipt: `[0-9a-f]{32}\.json`. -/
def isAbortName (name : String) : Bool :=
  let rest := name.toList.drop (abortPrefix binding).length
  (rest.take 32).all isHex && (rest.take 32).length = 32 && rest.drop 32 = ".json".toList

/-- The loop of `_aborted_receipt`: the receipts of the target's generation. -/
def abortedReceipts (target : Record) : List String → List String → Journal (List AbortReceipt)
  | _, [] => return []
  | manifests, name :: names => do
    ensure (isAbortName binding name) "PUBLICATION_ABORT_RECEIPT_DIFFERS"
    let receipt ← readLeaf AbortReceipt.encode fun d => d.receipts.get name
    match receipt with
    | none => refuse "RESERVATION_MISSING"
    | some receipt => do
      .lift (checkAbortReceipt sha256 binding target manifests receipt)
      let rest ← abortedReceipts target (receipt.manifestDigest :: manifests) names
      return if receipt.previousRecordDigest = some (recordDigest sha256 target) then
        receipt :: rest else rest

def abortedReceipt (target : Record) : Journal (List AbortReceipt) := do
  let d ← .disk
  let names := d.receipts.keys.insertionSort fun a b => a ≤ b
  ensure (names.length ≤ maxEffects) "PUBLICATION_EVIDENCE_AMBIGUOUS"
  abortedReceipts sha256 binding target [] names

/-- What a reconciled journal shows: the record without its credentials, and the
publications that were aborted. -/
structure Status where
  state : PublicState
  publications : List AbortReceipt
  deriving DecidableEq

def snapshot : Journal PublicState := do
  let record ← readRecord sha256 binding false
  match record with
  | none => refuse "RESERVATION_MISSING"
  | some record => return record.publicState

def publicationStatus (history : List AbortReceipt) : Journal Status := do
  let state ← snapshot sha256 binding
  return ⟨state, history⟩

/-- The journal trusts the record it reconciled. -/
def trust (digest : String) : Journal Unit := .remember fun _ => ⟨false, some digest⟩

/-- `reconcile_publication` without a marker. -/
def confirmPublication (target : Option Record) (effectStarted : Bool)
    (expected : Option String) : Journal Status := do
  let d ← .disk
  ensure (d.candidates.keys = []) "PUBLICATION_EVIDENCE_AMBIGUOUS"
  match target with
  | none => refuse "RESERVATION_MISSING"
  | some target => do
    .lift (publicContinuity target effectStarted expected)
    let history ← abortedReceipt sha256 binding target
    ensure (d.receipts.keys = [] ∨ expected ≠ none) "PUBLIC_MATERIAL_REQUIRED"
    boundary true
    trust target.materialDigest
    publicationStatus sha256 binding history

/-- The name of the receipt: it ends as the candidate does. -/
def abortName (m : Manifest) : String :=
  abortPrefix binding ++ String.ofList (m.candidate.toList.drop (m.candidate.length - 32)) ++
    ".json"

def abortReceiptOf (m : Manifest) : AbortReceipt where
  schema := 1
  outcome := "publication_aborted"
  bindingDigest := m.bindingDigest
  manifestDigest := hexdigest sha256 m.encode
  previousRecordDigest := m.previousRecordDigest
  proposedRecordDigest := m.proposedRecordDigest
  proposedRevision := m.proposedRevision
  materialDigest := m.materialDigest

/-- The end of `_abort_publication` and of `reconcile_publication`: no unknown
candidate came up, and the marker goes. -/
def unlinkMarker : Journal Unit := do
  boundary true
  let d ← .disk
  ensure (d.candidates.keys = []) "PUBLICATION_EVIDENCE_AMBIGUOUS"
  .store fun d => d.setMarker none
  boundary true

/-- The receipt of `_abort_publication`, kept or written. -/
def keepReceipt (name : String) (receipt : AbortReceipt) : Journal Unit := do
  let existing ← readLeaf AbortReceipt.encode fun d => d.receipts.get name
  match existing with
  | none => do
    .store fun d => d.setReceipt name .torn
    .store fun d => d.setReceipt name (.whole receipt)
  | some existing => ensure (existing = receipt) "PUBLICATION_ABORT_RECEIPT_DIFFERS"

def abortPublication (m : Manifest) (target : Record) : Journal Status := do
  boundary true
  let previous ← .lift (previousGeneration sha256 binding m target.credentials)
  ensure (previous = some target) "PUBLICATION_PREVIOUS_DIFFERS"
  keepReceipt (abortName binding m) (abortReceiptOf sha256 m)
  unlinkMarker
  trust target.materialDigest
  let history ← abortedReceipt sha256 binding target
  publicationStatus sha256 binding history

def adoptCandidate (m : Manifest) : Journal Unit := do
  boundary true
  .store fun d => d.renameCandidate m.candidate
  let adopted ← readLeaf Record.encode Disk.record
  ensure (adopted.any fun record => recordDigest sha256 record = m.proposedRecordDigest)
    "PUBLICATION_RECORD_DIFFERS"

/-- The checks before a marked publication is completed. -/
def checkProposed (m : Manifest) (proposed : Record) (effectStarted : Bool)
    (expected : Option String) : Checked Unit := do
  check (proposed.revision = m.proposedRevision ∧ proposed.materialDigest = m.materialDigest)
    "PUBLICATION_RECORD_DIFFERS"
  let previous ← previousGeneration sha256 binding m proposed.credentials
  transition previous proposed
  publicContinuity proposed effectStarted expected

/-- What is left of a publication once the record is in its place. -/
def completePublication (proposed : Record) : Journal PublicState := do
  unlinkMarker
  trust proposed.materialDigest
  snapshot sha256 binding

/-- A marked publication is completed with its candidate. -/
def adoptPublication (m : Manifest) (proposed : Record) (effectStarted : Bool)
    (expected : Option String) : Journal Status := do
  .lift (checkProposed sha256 binding m proposed effectStarted expected)
  adoptCandidate sha256 m
  let state ← completePublication sha256 binding proposed
  return ⟨state, []⟩

/-- A marked publication is completed whose candidate was renamed already. -/
def confirmRenamed (m : Manifest) (target : Record) (effectStarted : Bool)
    (expected : Option String) : Journal Status := do
  .lift (checkProposed sha256 binding m target effectStarted expected)
  let state ← completePublication sha256 binding target
  return ⟨state, []⟩

/-- `reconcile_publication` with a marker and its candidate. -/
def resumeCandidate (m : Manifest) (target : Option Record) (proposed : Record)
    (effectStarted : Bool) (expected : Option String) : Journal Status := do
  .lift (validate sha256 binding proposed)
  ensure (recordDigest sha256 proposed = m.proposedRecordDigest) "PUBLICATION_RECORD_DIFFERS"
  ensure (target.map (recordDigest sha256) = m.previousRecordDigest ∧
    (target ≠ none → target.map Record.revision = m.previousRevision))
    "PUBLICATION_PREVIOUS_DIFFERS"
  .lift (transition target proposed)
  adoptPublication sha256 binding m proposed effectStarted expected

/-- `reconcile_publication` with a marker and no candidate. -/
def resumeTarget (m : Manifest) (target : Record) (effectStarted : Bool)
    (expected : Option String) : Journal Status :=
  if m.previousRecordDigest = some (recordDigest sha256 target) ∧
      m.previousRevision = some target.revision ∧ target.materialDigest = m.materialDigest then do
    ensure (expected ≠ none) "PUBLIC_MATERIAL_REQUIRED"
    .lift (publicContinuity target effectStarted expected)
    abortPublication sha256 binding m target
  else do
    ensure (recordDigest sha256 target = m.proposedRecordDigest) "PUBLICATION_GENERATION_MISSING"
    confirmRenamed sha256 binding m target effectStarted expected

/-- `reconcile_publication` with a marker. -/
def resumePublication (m : Manifest) (target : Option Record) (effectStarted : Bool)
    (expected : Option String) : Journal Status := do
  .lift (checkManifest sha256 binding m)
  let d ← .disk
  ensure (d.candidates.keys = [] ∨ d.candidates.keys = [m.candidate])
    "PUBLICATION_EVIDENCE_AMBIGUOUS"
  let proposed ← readLeaf Record.encode fun d => d.candidates.get m.candidate
  match proposed, target with
  | some proposed, _ =>
    resumeCandidate sha256 binding m target proposed effectStarted expected
  | none, some target => resumeTarget sha256 binding m target effectStarted expected
  | none, none => refuse "PUBLICATION_GENERATION_MISSING"

/-- `_validate`, of a record that may be missing. -/
def validateTarget : Option Record → Checked Unit
  | none => .ok ()
  | some target => validate sha256 binding target

def reconcilePublication (effectStarted : Bool) (expected : Option String) : Journal Status :=
  Durable.onError
    (do
      .lift (publicState effectStarted expected)
      boundary true
      let manifest ← readLeaf Manifest.encode Disk.marker
      let target ← readLeaf Record.encode Disk.record
      .lift (validateTarget sha256 binding target)
      match manifest with
      | none => confirmPublication sha256 binding target effectStarted expected
      | some m => resumePublication sha256 binding m target effectStarted expected)
    (fun process => { process with poisoned := true })
    fun failure => if failure = .os then .reason reconciliationRequired else failure

/-! ## Effects -/

/-- An error of the operating system becomes the code of the operation. -/
def unavailable {α : Type} (code : String) (c : Journal α) : Journal α :=
  c.onError id fun failure => if failure = .os then .reason code else failure

/-- The record of a reservation: the one that was found, or the first. -/
def reservedRecord (effectStarted : Bool) (expected : Option String) (credentials : Credentials)
    (createdAt : ℤ) (token : String) : Option Record → Journal Record
  | some record => return record
  | none => do
    ensure (effectStarted = false ∧ expected = none) "POST_EFFECT_MATERIAL_MISSING"
    let record : Record :=
      ⟨1, binding, credentials, materialDigest sha256 credentials, createdAt, 0, []⟩
    publish sha256 binding record false token
    return record

/-- `reserve`: the random credentials, the clock and the candidate's token are given. -/
def reserve (effectStarted : Bool) (expected : Option String) (credentials : Credentials)
    (createdAt : ℤ) (token : String) : Journal Credentials :=
  unavailable "RESERVATION_UNAVAILABLE" do
    .lift (publicState effectStarted expected)
    let found ← readRecord sha256 binding true
    let record ←
      reservedRecord sha256 binding effectStarted expected credentials createdAt token found
    ensure (record.effects = [] ∨ expected ≠ none) "PUBLIC_MATERIAL_REQUIRED"
    ensure (∀ digest ∈ expected, digest = record.materialDigest) "MATERIAL_DIFFERS"
    .remember fun process => { process with trustedMaterialDigest := some record.materialDigest }
    return record.credentials

def materialContinuity (record : Record) : Journal Unit := do
  let process ← .memory
  ensure (process.trustedMaterialDigest ≠ none) "PUBLIC_MATERIAL_REQUIRED"
  ensure (process.trustedMaterialDigest = some record.materialDigest) "MATERIAL_DIFFERS"

/-- The reserved record, for an effect. -/
def readReserved : Journal Record := do
  let found ← readRecord sha256 binding false
  match found with
  | none => refuse "RESERVATION_MISSING"
  | some record => do
    materialContinuity record
    return record

def beforeEffect (name : String) (metadata : Observation) (token : String) : Journal Effect :=
  unavailable "EFFECT_UNAVAILABLE" do
    ensure (isStep name) "EFFECT_INVALID"
    let record ← readReserved sha256 binding
    ensure (holdsSecret record.credentials name.toList = false) "CREDENTIAL_IN_OBSERVATION"
    .lift (validateObservation binding record.credentials metadata)
    match record.effects.find? fun e => e.name = name with
    | some existing => do
      ensure (existing.metadata = metadata) "EFFECT_BINDING_DIFFERS"
      return existing
    | none => do
      ensure (∀ e ∈ record.effects, e.state ≠ "pending") "NATIVE_EFFECT_PENDING"
      ensure (record.effects.length < maxEffects) "EFFECT_LIMIT"
      let effect : Effect := ⟨name, "pending", metadata, none, record.materialDigest⟩
      publish sha256 binding
        { record with effects := record.effects ++ [effect], revision := record.revision + 1 }
        true token
      return effect

/-- An effect with the receipt it is settled with. -/
def Effect.settle (e : Effect) (receipt : Receipt) : Effect :=
  { e with
    receipt := some receipt
    state := if receipt.outcome = "verified" then "verified" else e.state }

/-- The first effect of a name is settled. -/
def settleFirst (name : String) (receipt : Receipt) : List Effect → List Effect
  | [] => []
  | e :: effects =>
    if e.name = name then e.settle receipt :: effects else e :: settleFirst name receipt effects

def afterEffect (name : String) (receipt : Receipt) (token : String) : Journal Effect :=
  unavailable "EFFECT_UNAVAILABLE" do
    ensure (isStep name) "EFFECT_INVALID"
    let record ← readReserved sha256 binding
    .lift (validateReceipt binding record.credentials receipt)
    match record.effects.find? fun e => e.name = name with
    | none => refuse "EFFECT_NOT_REQUESTED"
    | some effect => do
      ensure (sameResource receipt effect.metadata) "EFFECT_BINDING_DIFFERS"
      if effect.state = "verified" then do
        ensure (effect.receipt = some receipt) "SETTLED_RECEIPT_DIFFERS"
        return effect
      else do
        publish sha256 binding
          { record with
            effects := settleFirst name receipt record.effects
            revision := record.revision + 1 }
          true token
        return effect.settle receipt

end

/-!
## The journal as a machine

One directory over the life of a transfer. A process opens the journal, calls its
operations and closes it or dies. An operation that is cut short leaves the disk
after any number of its writes, whatever the process remembers then, or no
process at all. Other journals of the directory come and go.
-/

inductive Operation
  | reserve (effectStarted : Bool) (expected : Option String) (credentials : Credentials)
      (createdAt : ℤ) (token : String)
  | beforeEffect (name : String) (metadata : Observation) (token : String)
  | afterEffect (name : String) (receipt : Receipt) (token : String)
  | reconcilePublication (effectStarted : Bool) (expected : Option String)
  | snapshot

structure System where
  disk : Disk
  process : Option Process

inductive Event
  | openJournal
  | call (operation : Operation)
  | interrupted (operation : Operation) (writes : ℕ) (process : Option Process)
  | close
  | others (count : ℕ)

section

variable (sha256 : List Char → ℕ) (binding : Binding)

def perform : Operation → Journal Unit
  | .reserve effectStarted expected credentials createdAt token => do
    let _ ← reserve sha256 binding effectStarted expected credentials createdAt token
  | .beforeEffect name metadata token => do
    let _ ← beforeEffect sha256 binding name metadata token
  | .afterEffect name receipt token => do
    let _ ← afterEffect sha256 binding name receipt token
  | .reconcilePublication effectStarted expected => do
    let _ ← reconcilePublication sha256 binding effectStarted expected
  | .snapshot => do
    let _ ← snapshot sha256 binding

def emptyDisk : Disk := ⟨none, none, ∅, ∅, 0⟩

/-- The first process finds an empty directory. -/
def machine : Machine System Event where
  initial := ⟨emptyDisk, none⟩
  step s
    | .openJournal =>
      match (openJournal binding s.disk .fresh).outcome with
      | .ok () => { s with process := some .fresh }
      | .error _ => { s with process := none }
    | .call operation =>
      match s.process with
      | none => s
      | some process =>
        let ran := perform sha256 binding operation s.disk process
        ⟨ran.disk, some ran.memory⟩
    | .interrupted operation writes process' =>
      match s.process with
      | none => s
      | some process => ⟨(perform sha256 binding operation).cut writes s.disk process, process'⟩
    | .close => { s with process := none }
    | .others count => { s with disk := { s.disk with others := count } }

/-- The disks that an event passes, in order. -/
def passes (s : System) : Event → List Disk
  | .openJournal | .close => []
  | .call operation =>
    match s.process with
    | none => []
    | some process => (perform sha256 binding operation s.disk process).passed
  | .interrupted operation writes _ =>
    match s.process with
    | none => []
    | some process => (perform sha256 binding operation s.disk process).passed.take writes
  | .others count => [{ s.disk with others := count }]

/-- Every disk that a run passes, in order. -/
def history : System → List Event → List Disk
  | _, [] => []
  | s, e :: events => passes sha256 binding s e ++ history ((machine sha256 binding).step s e) events

end

end Sbarbase.Transfer
