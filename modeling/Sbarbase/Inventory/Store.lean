import Mathlib.Data.Int.Notation
import Sbarbase.Lib.Call
import Sbarbase.Lib.Dict
import Sbarbase.Lib.Table
import Sbarbase.Lib.Text
/-!
# The inventory of a transfer

`TransferInventoryStore` of `control/transfer-store.ts`. SHA-256 and JSON are
parameters. What the ports answer comes with each call.
-/

namespace Sbarbase.Inventory

open Lib

/-- What `JSON.parse` returns, as far as it is looked at: the length of an array,
and `JSON.stringify` of it. -/
structure Parsed where
  length : Option ℕ
  stringified : String

structure Json where
  digest : String → String
  parse : String → Option Parsed

structure InventoryCandidate where
  inventory : String
  inventoryDigest : String
  coverage : String
  placementDigest : String
  deriving DecidableEq

structure InventorySnapshot extends InventoryCandidate where
  runtime : String
  environment : String
  installation : String
  generation : ℤ
  epoch : ℤ
  digestVersion : String
  deriving DecidableEq

structure InventoryGeneration extends InventorySnapshot where
  operation : Option String
  previousDigest : Option String
  proofDigest : Option String
  deriving DecidableEq

structure InventoryMutation where
  operation : String
  runtime : String
  environment : String
  installation : String
  sourceGeneration : ℤ
  sourceEpoch : ℤ
  heldEpoch : ℤ
  previousDigest : String
  sourcePlacementDigest : String
  heldPlacementDigest : String
  deriving DecidableEq

structure InventoryVerification extends InventoryMutation where
  candidateDigest : String
  candidatePlacementDigest : String
  coverage : String
  proofDigest : String

/-! ## Checks -/

def MAX_SAFE_INTEGER : ℤ := 9007199254740991

def whole (value : ℤ) : Bool := 0 ≤ value && value ≤ MAX_SAFE_INTEGER

def uuid (value : String) : Bool := isUuid value && value ≠ "00000000-0000-0000-0000-000000000000"

def sha (value : String) : Bool := matchesExactly isHex 64 value

def coverageKind (value : String) : Bool :=
  value ∈ ["dedicated-resources", "complete-shared-resources", "disposable-fixture"]

/-- The text is an array of one to a hundred items, as `JSON.stringify` writes it. -/
def isManifest (json : Json) (inventory : String) : Bool :=
  match json.parse inventory with
  | none => false
  | some parsed =>
    match parsed.length with
    | none => false
    | some length => 1 ≤ length && length ≤ 100 && parsed.stringified = inventory

def candidate (json : Json) (value : InventoryCandidate) : Except String Unit :=
  if 128 * 1024 < value.inventory.utf8ByteSize ∨ !sha value.inventoryDigest ∨
      !sha value.placementDigest ∨ !coverageKind value.coverage ∨
      json.digest value.inventory ≠ value.inventoryDigest then
    .error "INVENTORY_DIGEST_INVALID"
  else if !isManifest json value.inventory then .error "INVENTORY_JSON_INVALID"
  else .ok ()

def snapshot (json : Json) (value : InventorySnapshot) : Except String Unit :=
  if !isRuntime value.runtime ∨ !uuid value.environment ∨ !uuid value.installation ∨
      !whole value.generation ∨ !whole value.epoch ∨ value.digestVersion ≠ "sb07-json-v1" then
    .error "INVENTORY_BINDING_INVALID"
  else candidate json value.toInventoryCandidate

def mutation (value : InventoryMutation) : Except String Unit :=
  if !uuid value.operation ∨ !isRuntime value.runtime ∨ !uuid value.environment ∨
      !uuid value.installation ∨ !whole value.sourceGeneration ∨
      MAX_SAFE_INTEGER ≤ value.sourceGeneration ∨ !whole value.sourceEpoch ∨
      MAX_SAFE_INTEGER ≤ value.sourceEpoch ∨ value.heldEpoch ≠ value.sourceEpoch + 1 ∨
      !sha value.previousDigest ∨ !sha value.sourcePlacementDigest ∨
      !sha value.heldPlacementDigest then
    .error "INVENTORY_MUTATION_INVALID"
  else .ok ()

/-! ## The tables -/

/-- A row, with the mutation it was published for, which the table does not hold. -/
structure Stored where
  row : InventoryGeneration
  request : Option InventoryMutation

def Stored.key (stored : Stored) : String × ℤ := (stored.row.runtime, stored.row.generation)

structure Ledger where
  rows : Table Stored.key
  heads : Dict String ℤ

def Ledger.empty : Ledger := ⟨.empty, ∅⟩

namespace Ledger

variable (ledger : Ledger)

/-- `SELECT … WHERE runtime=? ORDER BY generation`. -/
def stored (runtime : String) : List Stored :=
  (ledger.rows.rows.filter fun stored => stored.row.runtime = runtime).mergeSort
    fun a b => a.row.generation ≤ b.row.generation

def history (runtime : String) : List InventoryGeneration := (ledger.stored runtime).map Stored.row

/-- The row of a key. -/
def generation (runtime : String) (generation : ℤ) : Option InventoryGeneration :=
  (ledger.rows.get (runtime, generation)).map Stored.row

def head (runtime : String) : Option InventoryGeneration :=
  (ledger.heads.get runtime).bind (ledger.generation runtime)

/-- The row of an operation, which is unique for a runtime. -/
def ofOperation (runtime operation : String) : Option InventoryGeneration :=
  (ledger.rows.rows.find? fun stored =>
    stored.row.runtime = runtime ∧ stored.row.operation = some operation).map Stored.row

/-- `INSERT` under `PRIMARY KEY(runtime,generation)` and `UNIQUE(runtime,operation)`. -/
def insert (stored : Stored) : Except String Ledger :=
  if stored.row.operation ≠ none ∧ ledger.rows.rows.any fun old =>
      old.row.runtime = stored.row.runtime ∧ old.row.operation = stored.row.operation then
    .error "UNIQUE constraint failed"
  else
    match ledger.rows.insert stored with
    | none => .error "UNIQUE constraint failed"
    | some rows => .ok { ledger with rows := rows }

def insertHead (runtime : String) (generation : ℤ) : Except String Ledger :=
  if ledger.heads.has runtime then .error "UNIQUE constraint failed"
  else .ok { ledger with heads := ledger.heads.set runtime generation }

/-- `UPDATE … SET generation=? WHERE runtime=? AND generation=?`, which changes one row or fails. -/
def moveHead (runtime : String) (source generation : ℤ) : Except String Ledger :=
  if ledger.heads.get runtime = some source then
    .ok { ledger with heads := ledger.heads.set runtime generation }
  else .error "INVENTORY_CAS_REFUSED"

end Ledger

/-! ## Calls -/

abbrev LedgerCall := Call Ledger String

open Call

/-- A port that returns nothing; anything else is a refusal. -/
def authority (answer : Bool) : LedgerCall Unit :=
  require (answer = true) "INVENTORY_AUTHORITY_REFUSED"

def head (runtime : String) : LedgerCall (Option InventoryGeneration) := do
  require (isRuntime runtime = true) "INVENTORY_BINDING_INVALID"
  read fun ledger => ledger.head runtime

def history (runtime : String) : LedgerCall (List InventoryGeneration) := do
  require (isRuntime runtime = true) "INVENTORY_BINDING_INVALID"
  read fun ledger => ledger.history runtime

section

variable (json : Json)

/-- The first generation of a runtime. `manifest` and `adoption` are what the ports answer. -/
def adoptInTransaction (input : InventorySnapshot) (manifest adoption : Bool) :
    LedgerCall InventoryGeneration := do
  lift (snapshot json input)
  require (input.generation = 0) "INVENTORY_BOOTSTRAP_INVALID"
  transaction do
    authority manifest
    authority adoption
    match ← head input.runtime with
    | some current =>
      require (current.operation = none ∧ current.toInventorySnapshot = input)
        "INVENTORY_BOOTSTRAP_DIFFERS"
      pure current
    | none =>
      let rows ← history input.runtime
      require (rows = []) "INVENTORY_HEAD_MISSING"
      let row : InventoryGeneration :=
        { input with operation := none, previousDigest := none, proofDigest := none }
      attempt fun ledger => ledger.insert ⟨row, none⟩
      attempt fun ledger => ledger.insertHead row.runtime 0
      pure row

def checkPrevious (current : Option InventoryGeneration) (request : InventoryMutation) :
    LedgerCall InventoryGeneration := do
  let current ← found current "INVENTORY_CAS_REFUSED"
  require (current.generation = request.sourceGeneration ∧
    current.inventoryDigest = request.previousDigest ∧
    current.environment = request.environment ∧ current.installation = request.installation ∧
    current.epoch ≤ request.sourceEpoch ∧
    current.placementDigest = request.sourcePlacementDigest) "INVENTORY_CAS_REFUSED"
  pure current

def previous (request : InventoryMutation) : LedgerCall InventoryGeneration := do
  let current ← head request.runtime
  checkPrevious current request

/-- `#publicationState`: the row to follow, and the row that the operation published already. -/
def publicationState (request : InventoryMutation) (next : InventoryCandidate) :
    LedgerCall (InventoryGeneration × Option InventoryGeneration) := do
  match ← read fun ledger => ledger.ofOperation request.runtime request.operation with
  | none =>
    let previous ← previous request
    pure (previous, none)
  | some existing =>
    let head ← head request.runtime
    require (existing.generation = request.sourceGeneration + 1 ∧
      existing.epoch = request.heldEpoch ∧ existing.environment = request.environment ∧
      existing.installation = request.installation ∧ existing.digestVersion = "sb07-json-v1" ∧
      existing.toInventoryCandidate = next ∧
      existing.previousDigest = some request.previousDigest ∧
      (existing.proofDigest.any sha) = true ∧
      head.map (·.generation) = some existing.generation) "INVENTORY_OPERATION_REUSED"
    let source ← read fun ledger => ledger.generation request.runtime request.sourceGeneration
    let previous ← checkPrevious source request
    pure (previous, some existing)

/-- `verifyPublication` up to the native verification it waits for. -/
def beginVerification (input : InventoryMutation) (next : InventoryCandidate)
    (assert manifest : Bool) : LedgerCall Unit := do
  lift (mutation input)
  lift (candidate json next)
  authority assert
  authority manifest
  let (previous, _) ← publicationState input next
  require (next.coverage = previous.coverage) "INVENTORY_COVERAGE_CHANGED"

/-- What a capability stands for. -/
structure Prepared where
  request : InventoryMutation
  candidate : InventoryCandidate
  proofDigest : String

/-- `verifyPublication` after the native verification, which may have refused. -/
def endVerification (request : InventoryMutation) (admitted : InventoryCandidate)
    (verified : Option InventoryVerification) (assert : Bool) : LedgerCall Prepared := do
  let verified ← found verified "NATIVE_INVENTORY_VERIFICATION_REFUSED"
  require (verified.toInventoryMutation = request ∧
    verified.candidateDigest = admitted.inventoryDigest ∧
    verified.candidatePlacementDigest = admitted.placementDigest ∧
    verified.coverage = admitted.coverage ∧ sha verified.proofDigest = true)
    "NATIVE_INVENTORY_VERIFICATION_DIFFERS"
  authority assert
  let (_, existing) ← publicationState request admitted
  pure ⟨request, admitted, (existing.bind (·.proofDigest)).getD verified.proofDigest⟩

def appendInTransaction (prepared : Option Prepared) (assert manifest : Bool) :
    LedgerCall InventoryGeneration := do
  let prepared ← found prepared "TRUSTED_INVENTORY_VERIFICATION_REQUIRED"
  let request := prepared.request
  let next := prepared.candidate
  transaction do
    authority assert
    authority manifest
    match ← publicationState request next with
    | (_, some existing) =>
      require (existing.proofDigest = some prepared.proofDigest) "INVENTORY_OPERATION_REUSED"
      pure existing
    | (_, none) =>
      let _ ← previous request
      let row : InventoryGeneration :=
        { next with
          runtime := request.runtime, environment := request.environment
          installation := request.installation, generation := request.sourceGeneration + 1
          epoch := request.heldEpoch, digestVersion := "sb07-json-v1"
          operation := some request.operation, previousDigest := some request.previousDigest
          proofDigest := some prepared.proofDigest }
      attempt fun ledger => ledger.insert ⟨row, some request⟩
      attempt fun ledger => ledger.moveHead row.runtime request.sourceGeneration row.generation
      pure row

end

end Sbarbase.Inventory
