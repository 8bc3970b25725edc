import Mathlib.Data.List.Sort
import Sbarbase.Control.Catalog
/-!
# Running a lifecycle operation

`runLifecycleOperation` of `src/control/lifecycle.ts`. A run inspects every
resource of its operation, then has the adapter do the effect on each in a fixed
order, with a pending and a done record around it, and finishes the operation.
It stops at every `await`, where other calls of the catalog come between and
where it may throw or die. The history of a run is kept beside it.
-/

namespace Sbarbase.Control

open Lib

/-- The effects of an operation. -/
inductive EffectAction
  | quarantine
  | restore
  | purge
  deriving DecidableEq

inductive ResourceState
  | present
  | absent
  | quarantined
  | restored
  | purged
  deriving DecidableEq

def ResourceState.text : ResourceState → String
  | .present => "present"
  | .absent => "absent"
  | .quarantined => "quarantined"
  | .restored => "restored"
  | .purged => "purged"

/-- What the adapter answers. -/
structure ResourceOutcome where
  outcome : ResourceState
  reclaimedBytes : ℤ
  observedBytes : Option ℤ
  deriving DecidableEq

def LifecycleState.action : LifecycleState → Option EffectAction
  | .active => none
  | .deleting => some .quarantine
  | .deleted => none
  | .restoring => some .restore
  | .purging => some .purge
  | .purged => none

def EffectAction.expected : EffectAction → ResourceState
  | .quarantine => .quarantined
  | .restore => .restored
  | .purge => .purged

/-- `lifecycleRow`: the row with the effects of its operation. -/
structure LifecycleOperation where
  row : LifecycleRow
  effects : List LifecycleEffect

def Catalog.lifecycleOperation (c : Catalog) (row : LifecycleRow) : LifecycleOperation :=
  ⟨row, c.effects.rows.filter fun effect => effect.operation = row.operation⟩

/-- `row.effects.find(effect=>effect.resource===resource)`. -/
def LifecycleOperation.effect (operation : LifecycleOperation) (resource : String) :
    Option LifecycleEffect :=
  operation.effects.find? fun effect => effect.resource = resource

def isContainer (item : LifecycleResource) : Bool :=
  item.kind = "container" || item.kind = "durable-container"

def rank (action : EffectAction) (item : LifecycleResource) : ℕ :=
  if action = .restore then
    if item.kind = "shared-database" || item.kind = "durable-tenant" then 0
    else if isContainer item then 2 else 1
  else if isContainer item then 0
  else if item.kind = "shared-database" then 1
  else if item.kind = "volume" then 2 else 3

def ordered (action : EffectAction) (resources : List LifecycleResource) : List LifecycleResource :=
  resources.insertionSort fun a b => rank action a ≤ rank action b

/-- Where a run waits: before a turn of one of its loops, or for the adapter. -/
inductive Point
  | start
  | inspect (waiting : List LifecycleResource)
  | inspected (resource : LifecycleResource) (waiting : List LifecycleResource)
  | effect (waiting : List LifecycleResource)
  | effected (resource : LifecycleResource) (waiting : List LifecycleResource)
  | probe (waiting : List LifecycleResource)
  | probed (waiting : List LifecycleResource)
  | ready
  | readied
  | finish

/-- A run. `readiness` says whether the caller gave the function of that name. -/
structure Run where
  operation : LifecycleOperation
  action : EffectAction
  readiness : Bool
  measurements : List (String × ℤ)
  point : Point

def Run.row (run : Run) : LifecycleRow := run.operation.row

/-- `measurements.get(resource)!`. -/
def Run.measurement (run : Run) (resource : String) : ℤ :=
  ((run.measurements.find? fun entry => entry.1 = resource).map Prod.snd).getD 0

/-- What a run did: `began` has the resources in their order. -/
inductive Mark
  | began (action : EffectAction) (order : List String)
  | measured (resource : String) (bytes : ℤ)
  | pending (resource : String) (bytes : ℤ)
  | attempted (resource : String)
  | recorded (resource : String) (bytes : ℤ)
  | finished
  | stopped
  deriving DecidableEq

section

variable (ctx : Context)

/-- The checks on what an inspection found. -/
def measure (run : Run) (resource : String) (result : ResourceOutcome) : CatalogCall ℤ := do
  let previous := run.operation.effect resource
  .require (¬ (result.outcome = .absent ∧ (run.action ≠ .purge ∨ previous = none)))
    "Retained resource is missing"
  let bytes := ((previous.map LifecycleEffect.reclaimedBytes).or result.observedBytes).getD 0
  .require (isSafeInteger bytes ∧ 0 ≤ bytes) "Resource measurement unavailable"
  .require (¬ (run.action = .purge ∧ previous = none ∧ result.observedBytes = none))
    "Resource measurement unavailable"
  return bytes

/-- The outcome and the number of bytes an effect has to end with. -/
def establishes (action : EffectAction) (result : ResourceOutcome) : Bool :=
  (result.outcome = action.expected || (action = .purge && result.outcome = .absent)) &&
    isSafeInteger result.reclaimedBytes && 0 ≤ result.reclaimedBytes

/-- A run goes on to its next point, or returns. `result` and `isReady` are what
it waited for. The marks are newest first. -/
def advance (result : ResourceOutcome) (isReady : Bool) (run : Run) :
    CatalogCall (Option Run × List Mark) :=
  match run.point with
  | .start => do
    .lift (validateLifecycleCoverage run.row.runtime run.row.resources run.row.coverage)
    assertLifecycleOperation ctx run.row
    .require (run.row.resources ≠ []) "Exact ownership inventory unavailable"
    let action ← .found run.row.state.action "Lifecycle operation is not pending"
    return (some { run with action, point := .inspect run.row.resources },
      [.began action ((ordered action run.row.resources).map LifecycleResource.resource)])
  | .inspect [] =>
    pure (some { run with point := .effect (ordered run.action run.row.resources) }, [])
  | .inspect (resource :: waiting) => do
    assertLifecycleOperation ctx run.row
    return (some { run with point := .inspected resource waiting }, [])
  | .inspected resource waiting => do
    assertLifecycleOperation ctx run.row
    let bytes ← measure run resource.resource result
    return (some { run with
        measurements := (resource.resource, bytes) :: run.measurements, point := .inspect waiting },
      [.measured resource.resource bytes])
  | .effect [] =>
    pure (some { run with
      point := if run.action = .restore then .probe (ordered run.action run.row.resources)
        else .finish }, [])
  | .effect (resource :: waiting) => do
    assertLifecycleOperation ctx run.row
    if (run.operation.effect resource.resource).any LifecycleEffect.done then
      return (some { run with point := .effect waiting }, [])
    else do
      let bytes := if run.action = .purge then run.measurement resource.resource else 0
      lifecycleEffect ctx run.row resource.resource none bytes
      return (some { run with point := .effected resource waiting },
        [.attempted resource.resource, .pending resource.resource bytes])
  | .effected resource waiting => do
    assertLifecycleOperation ctx run.row
    .require (establishes run.action result) "Resource effect did not establish its postcondition"
    let bytes :=
      if run.action = .purge then run.measurement resource.resource else result.reclaimedBytes
    lifecycleEffect ctx run.row resource.resource (some run.action.expected.text) bytes
    return (some { run with point := .effect waiting }, [.recorded resource.resource bytes])
  | .probe [] =>
    pure (some { run with
      point := if run.row.coverage ≠ some "disposable-fixture" || run.readiness then .ready
        else .finish }, [])
  | .probe (_ :: waiting) => do
    assertLifecycleOperation ctx run.row
    return (some { run with point := .probed waiting }, [])
  | .probed waiting => do
    assertLifecycleOperation ctx run.row
    .require (result.outcome = .restored) "Restore readiness unavailable"
    return (some { run with point := .probe waiting }, [])
  | .ready => do
    assertLifecycleOperation ctx run.row
    .require run.readiness "Complete runtime readiness unavailable"
    return (some { run with point := .readied }, [])
  | .readied => do
    .require isReady "Complete runtime readiness unavailable"
    assertLifecycleOperation ctx run.row
    return (some { run with point := .finish }, [])
  | .finish => do
    finishLifecycle ctx run.row none
    return (none, [.finished])

/-- The credential-free text that a `catch` keeps of an error. -/
def blocker (error : String) : String :=
  if error ∈ ["Complete recovery proof unavailable", "Lifecycle authority revoked",
    "Shared writer isolation unavailable"] then error
  else "Resource reconciliation required"

/-- The `catch` of a run. -/
def block (row : LifecycleRow) (error : String) : CatalogCall Unit :=
  (blockLifecycle ctx row (blocker error)).orElse fun _ => pure ()

end

/-! ## Runs and replays -/

/-- The catalog, the run that is under way and what the runs of the operation did,
newest first. -/
structure Replays where
  catalog : Catalog
  run : Option Run
  history : List Mark

/-- `fails` is a refreshed authorization that is revoked, or an adapter that throws. -/
inductive ReplayEvent
  | other (ctx : Context) (operation : Operation)
  | claim (environment : String) (readiness : Bool)
  | turn (ctx : Context) (result : ResourceOutcome) (isReady : Bool)
  | fails (ctx : Context) (error : String)
  | crash

/-- A call that only the worker of the operation makes. -/
def Operation.isWork (operation : String) : Operation → Bool
  | .lifecycleEffect row _ _ _ => row.operation = operation
  | .blockLifecycle row _ => row.operation = operation
  | .finishLifecycle row _ => row.operation = operation
  | _ => false

/-- A run that stops on an error. -/
def Replays.stop (s : Replays) (ctx : Context) (row : LifecycleRow) (error : String) (c : Catalog) :
    Replays :=
  { s with catalog := (block ctx row error).after c, run := none, history := .stopped :: s.history }

/-- A turn of a run. -/
def Replays.turn (s : Replays) (ctx : Context) (result : ResourceOutcome) (isReady : Bool) (run : Run) :
    Replays :=
  match advance ctx result isReady run s.catalog with
  | (.ok (next, marks), c) => { catalog := c, run := next, history := marks ++ s.history }
  | (.error error, c) => s.stop ctx run.row error c

/-- The worker reads the operation and begins a run. -/
def Replays.claim (s : Replays) (row : LifecycleRow) (action : EffectAction) (readiness : Bool) : Replays :=
  { s with run := some ⟨s.catalog.lifecycleOperation row, action, readiness, [], .start⟩ }

/-- The operation under any order of runs and other calls. -/
def replayMachine (operation : String) : Machine Replays ReplayEvent where
  initial := ⟨.empty, none, []⟩
  step s event :=
    match event, s.run with
    | .other ctx op, _ =>
      if op.isWork operation then s else { s with catalog := catalogMachine.step s.catalog (ctx, op) }
    | .claim environment readiness, none =>
      match (s.catalog.lifecycle.get environment).filter fun row => row.operation = operation with
      | none => s
      | some row =>
        match row.state.action with
        | none => s
        | some action => s.claim row action readiness
    | .claim _ _, some _ => s
    | .turn ctx result isReady, some run => s.turn ctx result isReady run
    | .turn _ _ _, none => s
    | .fails ctx error, some run => s.stop ctx run.row error s.catalog
    | .fails _ _, none => s
    | .crash, some _ => { s with run := none, history := .stopped :: s.history }
    | .crash, none => s

end Sbarbase.Control
