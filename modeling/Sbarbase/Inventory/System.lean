import Sbarbase.Inventory.Store
import Sbarbase.Lib.Machine
/-!
# Reading a history back

What `CurrentTransferHistoryQuery` of `control/transfer-history.ts` checks of the
stored history of a runtime. Who asks and what the runtime is fenced with is
checked elsewhere in the same method.
-/

namespace Sbarbase.Inventory

open Lib

structure TransferHistoryQuery where
  environment : String
  installation : String
  runtime : String
  sourceGeneration : ℤ
  sourceEpoch : ℤ
  sourceInventoryDigest : String
  sourcePlacementDigest : String

/-- What the lifecycle of the environment says of it. -/
structure Live where
  epoch : ℤ
  inventory : String
  coverage : String

/-- `!uuid(row.operation)||…`: the operation of the first row, or of one with a row before it. -/
def follows (row : InventoryGeneration) : Option InventoryGeneration → Bool
  | none => row.operation = none && row.previousDigest = none && row.proofDigest = none
  | some previous =>
    row.operation.any uuid && row.proofDigest.any sha &&
      row.previousDigest = some previous.inventoryDigest && previous.epoch ≤ row.epoch

/-- The body of the loop over the rows. -/
def rowAccepted (json : Json) (query : TransferHistoryQuery) (rows : List InventoryGeneration)
    (index : ℕ) (row : InventoryGeneration) : Bool :=
  row.generation = index && row.runtime = query.runtime && row.environment = query.environment &&
    row.installation = query.installation && whole row.epoch &&
    row.digestVersion = "sb07-json-v1" && sha row.inventoryDigest && sha row.placementDigest &&
    row.inventory.utf8ByteSize ≤ 128 * 1024 && coverageKind row.coverage &&
    json.digest row.inventory = row.inventoryDigest && isManifest json row.inventory &&
    follows row (if index = 0 then none else rows[index - 1]?)

/-- What the loop throws at a row. -/
def rowError (json : Json) (query : TransferHistoryQuery) (rows : List InventoryGeneration)
    (entry : InventoryGeneration × ℕ) : Option String :=
  if (json.parse entry.1.inventory).isNone then some "CURRENT_HISTORY_UNAVAILABLE"
  else if !rowAccepted json query rows entry.2 entry.1 then some "CURRENT_HISTORY_INCOMPLETE"
  else none

/-- The size of a history: its rows, and the bytes of their inventories. -/
def historySize (rows : List InventoryGeneration) : ℕ × ℕ :=
  (rows.length, (rows.map fun row => row.inventory.utf8ByteSize).sum)

/-- The head, the source and the rows of an accepted history. -/
def readHistory (json : Json) (ledger : Ledger) (query : TransferHistoryQuery) (live : Live) :
    Except String (InventoryGeneration × InventoryGeneration × List InventoryGeneration) :=
  let rows := ledger.history query.runtime
  let size := historySize rows
  if size.1 < 1 ∨ 128 < size.1 ∨ 2 * 1024 * 1024 < size.2 then .error "CURRENT_HISTORY_INCOMPLETE"
  else
    match ledger.head query.runtime with
    | none => .error "CURRENT_HISTORY_INCOMPLETE"
    | some head =>
      if head.generation ≠ rows.length - 1 ∨ head.generation < query.sourceGeneration ∨
          live.epoch < head.epoch ∨ head.inventory ≠ live.inventory ∨
          head.coverage ≠ live.coverage then
        .error "CURRENT_HISTORY_INCOMPLETE"
      else
        match rows.zipIdx.findSome? (rowError json query rows) with
        | some code => .error code
        | none =>
          match rows[query.sourceGeneration.toNat]? with
          | none => .error "CURRENT_HISTORY_UNAVAILABLE"
          | some source =>
            if source.epoch ≠ query.sourceEpoch ∨
                source.inventoryDigest ≠ query.sourceInventoryDigest ∨
                source.placementDigest ≠ query.sourcePlacementDigest then
              .error "CLAIMED_SOURCE_HISTORY_REFUSED"
            else .ok (head, source, rows)

/-!
## Publications over time

The Catalog connection with its transaction, the verifications that wait for the
native proof, and the capabilities handed out. A capability is its place in the
list of those handed out.
-/

structure State where
  committed : Ledger
  /-- What the open transaction sees. -/
  working : Option Ledger
  pending : List (InventoryMutation × InventoryCandidate)
  prepared : List Prepared

/-- What a query on the connection sees. -/
def State.view (s : State) : Ledger := s.working.getD s.committed

inductive Event
  | begin
  | commit
  | rollback
  | adopt (input : InventorySnapshot) (manifest adoption : Bool)
  | append (capability : ℕ) (assert manifest : Bool)
  | verify (input : InventoryMutation) (next : InventoryCandidate) (assert manifest : Bool)
  | verified (index : ℕ) (answer : Option InventoryVerification) (assert : Bool)
  /-- The process ends; the next one has the committed tables only. -/
  | restart

def step (json : Json) (s : State) : Event → State
  | .begin => if s.working.isNone then { s with working := some s.committed } else s
  | .commit => { s with committed := s.view, working := none }
  | .rollback => { s with working := none }
  | .adopt input manifest adoption =>
    -- outside a transaction the call throws
    let call := adoptInTransaction json input manifest adoption
    { s with working := s.working.map call.after }
  | .append capability assert manifest =>
    let call := appendInTransaction s.prepared[capability]? assert manifest
    { s with working := s.working.map call.after }
  | .verify input next assert manifest =>
    -- inside a transaction the call throws
    if s.working.isNone then
      match (beginVerification json input next assert manifest s.committed).1 with
      | .ok () => { s with pending := s.pending ++ [(input, next)] }
      | .error _ => s
    else s
  | .verified index answer assert =>
    match s.pending[index]? with
    | none => s
    | some (request, admitted) =>
      let s := { s with pending := s.pending.eraseIdx index }
      match (endVerification request admitted answer assert s.view).1 with
      | .ok prepared => { s with prepared := s.prepared ++ [prepared] }
      | .error _ => s
  | .restart => { s with working := none, pending := [], prepared := [] }

def machine (json : Json) : Machine State Event where
  initial := ⟨.empty, none, [], []⟩
  step := step json

end Sbarbase.Inventory
