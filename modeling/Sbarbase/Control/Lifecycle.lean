import Sbarbase.Control.Routing
/-!
# The lifecycle of an environment

Deletion, restore and purge of `src/control/catalog.ts`. An owner requests an
operation, a worker records an effect for every resource of the inventory and
finishes it. Every deletion starts a new epoch of the runtime.
-/

namespace Sbarbase.Control

open Lib

/-- The operations an owner requests on a deleted environment. -/
inductive LifecycleRequest
  | restoring
  | purging
  deriving DecidableEq

def LifecycleRequest.state : LifecycleRequest → LifecycleState
  | .restoring => .restoring
  | .purging => .purging

/-- The state a finished request leaves. -/
def LifecycleRequest.finished : LifecycleRequest → LifecycleState
  | .restoring => .active
  | .purging => .purged

namespace Catalog

/-- `lifecycleAuthorizationDigest` -/
def authorizationDigest (c : Catalog) (operation : String) : Option String :=
  (c.authorizations.get operation).map LifecycleAuthorization.currentDigest

/-- The operation id belongs to an operation already, or to one that was. -/
def operationUsed (c : Catalog) (operation : String) : Bool :=
  (c.lifecycle.rows.any fun row => row.operation = operation) ||
    c.effects.rows.any fun effect => effect.operation = operation

end Catalog

/-- The row of `environment_lifecycle`, its unique columns checked. -/
def putLifecycle (row : LifecycleRow) : CatalogCall Unit := do
  let c ← .read id
  .require (c.environments.get row.environment).isSome foreignKeyFailed
  .require (c.lifecycle.rows.all fun old =>
      old.environment = row.environment || old.runtime ≠ row.runtime)
    (uniqueFailed "environment_lifecycle.runtime")
  .require (c.lifecycle.rows.all fun old =>
      old.environment = row.environment || old.operation ≠ row.operation)
    (uniqueFailed "environment_lifecycle.operation")
  .write fun c => { c with lifecycle := c.lifecycle.put row }

def assertLifecycleRuntimeUnheld (runtime : String) : CatalogCall Unit := do
  let c ← .read id
  .require (runtime ∉ c.transferGuards) "Lifecycle authority revoked"

section

variable (ctx : Context)

/-! ## Authority -/

def captureAuthorization (row : LifecycleRow) (renewal : Bool) :
    CatalogCall (Option (String × String)) := do
  let c ← .read id
  match ctx.authority with
  | some authority => do
    let signed ← .lift (authority.capture c row renewal)
    return some signed
  | none => do
    .require (ctx.authorizationStore = false ∧ softCoverage row.coverage)
      "Lifecycle authority revoked"
    return none

def requireLifecycleAuthorization (row : LifecycleRow) : CatalogCall Unit := do
  let c ← .read id
  .when (¬ (ctx.authorizationStore = false ∧ c.authorizationDigest row.operation = none ∧
      softCoverage row.coverage)) do
    let authority ← .found ctx.authority "Lifecycle authority revoked"
    .lift (authority.assertCurrent c row)

/-- The private `captureLifecycleAuthorization`: the digest is stored with the operation. -/
def captureLifecycleAuthorization (row : LifecycleRow) : CatalogCall Unit := do
  let signed ← captureAuthorization ctx row false
  match signed with
  | none => requireLifecycleAuthorization ctx row
  | some (digest, identity) => do
    let c ← .read id
    let authorizations ← .found
      (c.authorizations.insert ⟨row.operation, digest, digest, identity, identity⟩)
      (uniqueFailed "lifecycle_authorizations.operation")
    .write ({ · with authorizations })
    requireLifecycleAuthorization ctx row

def assertLifecycleOwner (actor environment : String) (state : LifecycleState) :
    CatalogCall Unit := do
  let _ ← Access.retainedProject ctx actor environment [.owner]
  .when (state = .purging) do
    let operator ← Access.installationOperator ctx actor
    .require operator "Lifecycle authority revoked"

def lifecycleBinding (row : LifecycleRow) : CatalogCall LifecycleBinding := do
  let c ← .read id
  let routing ← .lift (c.runtimeRouting ctx.parseUrl row.runtime)
  let resolved ← .lift (resolveRuntimePlacement ctx.parseUrl row.runtime routing)
  return {
    environment := row.environment, runtime := row.runtime, epoch := row.epoch
    coverage := row.coverage
    placement := match resolved with
      | .legacyShared _ => "legacy-shared"
      | .nativeDedicated _ => "native-dedicated"
    inventoryDigest := ctx.digest ((row.inventory.map Inventory.text).getD "[]")
    placementDigest := ctx.placementDigest routing }

/-- What the admission says of a purge. -/
def recoveryReceipt (row : LifecycleRow) : CatalogCall (Option String) :=
  match ctx.lifecycleAdmission with
  | none => pure none
  | some admission => do
    let binding ← lifecycleBinding ctx row
    return admission binding row.resources

/-! ## Enrolment -/

/-- Record an inventory for the environment of a job. -/
def enroll (job : ProvisionJob) (inventory : Inventory) (coverage operation : String) :
    CatalogCall Unit := do
  let c ← .read id
  putLifecycle (match c.lifecycle.get job.environment with
    | some row => { row with inventory := some inventory, coverage := some coverage }
    | none => {
        environment := job.environment, runtime := job.runtime, state := .active, epoch := 0
        deletedAt := none, retainUntil := none, operation, failure := none
        recoveryReceipt := none, inventory := some inventory, coverage := some coverage
        actor := none, managementEpoch := none })

/-- `operation` is the random id a new row gets. -/
def registerDurableInventory (runtime : String) (inventory : Inventory) (operation : String) :
    CatalogCall Unit := do
  .lift (validateLifecycleCoverage runtime inventory.resources (some durableCoverage))
  .transaction do
    assertLifecycleRuntimeUnheld runtime
    let c ← .read id
    let job ← .found (c.jobOfRuntime runtime) "Runtime unavailable"
    let row := c.lifecycle.get job.environment
    .require (row.all fun row => row.state = .active) "Lifecycle operation is active"
    .require (row.all fun row => row.inventory = none || row.coverage = some durableCoverage)
      "Ownership inventory is immutable"
    let recorded := row.bind LifecycleRow.inventory
    .when (recorded.map Inventory.text ≠ some inventory.text) do
      enroll job inventory durableCoverage operation
      Access.record ctx "system:lifecycle"
        (if recorded.isSome then "lifecycle.resources_refreshed"
          else "lifecycle.resources_enrolled") job.environment
        [("runtime", .text runtime), ("resources", .number inventory.resources.length),
          ("coverage", .text durableCoverage)]

def registerLifecycleResources (runtime : String) (inventory : Inventory)
    (coverage operation : String) : CatalogCall Unit := do
  .lift (validateLifecycleCoverage runtime inventory.resources (some coverage))
  .transaction do
    assertLifecycleRuntimeUnheld runtime
    let c ← .read id
    let job ← .found (c.jobOfRuntime runtime) "Runtime unavailable"
    let row := c.lifecycle.get job.environment
    .require (row.all fun row => row.inventory.all fun recorded =>
        recorded.text = inventory.text && row.coverage = some coverage)
      "Ownership inventory is immutable"
    .require (row.all fun row =>
        row.state = .active || row.state = .deleting || row.state = .deleted)
      "Lifecycle operation is active"
    enroll job inventory coverage operation
    Access.record ctx "system:lifecycle" "lifecycle.resources_enrolled" job.environment
      [("runtime", .text runtime), ("resources", .number inventory.resources.length),
        ("coverage", .text coverage)]

/-! ## Requests -/

/-- `operation` is the random id of the deletion. -/
def deleteEnvironment (actor environment operation : String) : CatalogCall (Option String) :=
  .transaction do
    let project ← Access.retainedProject ctx actor environment [.owner]
    let c ← .read id
    let job := c.job environment
    .forEach job.toList fun job => assertLifecycleRuntimeUnheld job.runtime
    if c.retired environment then return job.map ProvisionJob.runtime
    else do
      .require (job.all fun job => job.state ≠ .queued && job.state ≠ .running)
        "Provisioning is active"
      .require (job.all fun job => c.runtimeServicesActive job.runtime = false)
        "Environment services are still on"
      let job ← .found job "No provisioning operation"
      let current ← .found ((c.lifecycle.get environment).filter fun row => row.resources ≠ [])
        "Exact ownership inventory unavailable"
      .lift (validateLifecycleCoverage job.runtime current.resources current.coverage)
      .require (isSafeInteger (current.epoch + 1)) "Runtime epoch exhausted"
      let row := { current with
        state := .deleting, epoch := current.epoch + 1, deletedAt := some ctx.now
        retainUntil := some (ctx.now + retentionMs), operation, failure := none
        recoveryReceipt := none, actor := some actor
        managementEpoch := some (c.security.epoch actor) }
      putLifecycle row
      captureLifecycleAuthorization ctx row
      Access.record ctx actor "environment.deleted" project.id
        [("environment", .text environment), ("runtime", .text job.runtime),
          ("epoch", .number row.epoch), ("retain_until", .number (ctx.now + retentionMs))]
      return some job.runtime

/-- The request was made before under this operation. -/
def LifecycleRow.repeats (row : LifecycleRow) (request : LifecycleRequest) (operation : String) :
    Bool :=
  row.operation = operation && (row.state = request.state || row.state = request.finished)

def requestLifecycle (actor environment operation : String) (request : LifecycleRequest) :
    CatalogCall LifecycleRow := do
  .require (isUuid operation) "Invalid lifecycle operation"
  .transaction do
    let _ ← Access.retainedProject ctx actor environment [.owner]
    let c ← .read id
    let found := c.lifecycle.get environment
    .forEach found.toList fun row => assertLifecycleRuntimeUnheld row.runtime
    match found.filter fun row => row.repeats request operation with
    | some row => return row
    | none => do
      .require (c.operationUsed operation = false) "Lifecycle operation identity was already used"
      let row ← .found (found.filter fun row => row.state = .deleted)
        "Lifecycle operation is active"
      .require (row.resources ≠ []) "Exact ownership inventory unavailable"
      .require (¬ (request = .purging ∧ row.coverage = some durableCoverage))
        "Shared writer isolation unavailable"
      .lift (validateLifecycleCoverage row.runtime row.resources row.coverage)
      .require (¬ (request = .restoring ∧ row.retainUntil.all fun until_ => until_ ≤ ctx.now))
        "Retention has expired"
      let receipt ← purgeReceipt row
      let next := { row with
        state := request.state, operation, failure := none, recoveryReceipt := receipt
        actor := some actor, managementEpoch := some (c.security.epoch actor) }
      putLifecycle next
      captureLifecycleAuthorization ctx next
      Access.record ctx actor ("lifecycle." ++ request.state.text ++ "_requested") environment
        [("runtime", .text row.runtime), ("epoch", .number row.epoch),
          ("operation", .text operation)]
      return next
where
  /-- A purge needs an operator, an expired retention and the admission's receipt. -/
  purgeReceipt (row : LifecycleRow) : CatalogCall (Option String) :=
    match request with
    | .restoring => pure none
    | .purging => do
      let operator ← Access.installationOperator ctx actor
      .require operator "Forbidden"
      .require (row.retainUntil.all fun until_ => until_ ≤ ctx.now) "Retention has not expired"
      let receipt ← recoveryReceipt ctx row
      let text ← .found (receipt.filter fun text => text ≠ "") "Complete recovery proof unavailable"
      return some text

def resumeLifecycleOperation (actor environment operation : String) : CatalogCall LifecycleRow :=
  .transaction do
    let _ ← Access.retainedProject ctx actor environment [.owner]
    let c ← .read id
    let row ← .found ((c.lifecycle.get environment).filter fun row =>
        row.operation = operation &&
          (row.state = .deleting || row.state = .restoring || row.state = .purging))
      "Stale lifecycle operation"
    assertLifecycleOwner ctx actor environment row.state
    let signed ← captureAuthorization ctx row true
    let (digest, identity) ← .found signed "Lifecycle authority revoked"
    .require (c.authorizationDigest operation).isSome "Lifecycle original authorization unavailable"
    .write fun c => { c with
      authorizations := c.authorizations.modify (fun old => old.operation = operation)
        (fun old => { old with currentDigest := digest, currentIdentity := identity })
        fun _ => rfl }
    requireLifecycleAuthorization ctx row
    Access.record ctx actor "lifecycle.authorization_renewed" environment
      [("operation", .text operation), ("epoch", .number row.epoch)]
    return row

/-! ## The worker -/

/-- The row a worker holds is still the operation under way. -/
def LifecycleRow.same (row current : LifecycleRow) : Bool :=
  current.operation = row.operation && current.epoch = row.epoch && current.state = row.state &&
    current.inventory.map Inventory.text = row.inventory.map Inventory.text &&
    current.coverage = row.coverage && current.actor = row.actor &&
    current.managementEpoch = row.managementEpoch

/-- Without a signed authorization, the requester's session and role must be current. -/
def assertRequester (row : LifecycleRow) : CatalogCall Unit := do
  let c ← .read id
  .when (c.authorizationDigest row.operation = none) do
    let actor ← .found (row.actor.filter fun actor => actor ≠ "") "Lifecycle authority revoked"
    .require (row.managementEpoch = some (c.security.epoch actor)) "Lifecycle authority revoked"
    (assertLifecycleOwner ctx actor row.environment row.state).orElse
      fun _ => .throw "Lifecycle authority revoked"

def assertLifecycleOperation (row : LifecycleRow) : CatalogCall Unit := do
  assertLifecycleRuntimeUnheld row.runtime
  let c ← .read id
  .require ((c.lifecycle.get row.environment).any row.same) "Stale lifecycle operation"
  .lift (validateLifecycleCoverage row.runtime row.resources row.coverage)
  requireLifecycleAuthorization ctx row
  assertRequester ctx row
  .when (row.state = .purging) do
    let stored ← .found (row.recoveryReceipt.filter fun text => text ≠ "")
      "Complete recovery proof unavailable"
    let receipt ← recoveryReceipt ctx row
    .require (receipt = some stored) "Complete recovery proof unavailable"
  requireLifecycleAuthorization ctx row

def lifecycleEffect (row : LifecycleRow) (resource : String) (outcome : Option String)
    (reclaimedBytes : ℤ) : CatalogCall Unit :=
  .transaction do
    assertLifecycleOperation ctx row
    .require (row.resources.any fun item => item.resource = resource) "Unknown lifecycle resource"
    .require (isSafeInteger reclaimedBytes ∧ 0 ≤ reclaimedBytes) "Invalid reclaimed bytes"
    requireLifecycleAuthorization ctx row
    let c ← .read id
    let done := outcome.any (· ≠ "")
    let before := (c.effects.get (row.operation, resource)).map LifecycleEffect.reclaimedBytes
    .write fun c => { c with
      effects := c.effects.put ⟨row.operation, resource, done, outcome,
        if done then reclaimedBytes else before.getD reclaimedBytes⟩ }
    .when done
      (Access.record ctx "system:lifecycle" ("lifecycle.resource_" ++ outcome.getD "")
        row.environment
        [("operation", .text row.operation), ("resource", .text resource),
          ("reclaimedBytes", .number reclaimedBytes)])

def blockLifecycle (row : LifecycleRow) (reason : String) : CatalogCall Unit := do
  let c ← .read id
  .require ((c.lifecycle.get row.environment).any fun current =>
      current.operation = row.operation && current.epoch = row.epoch && current.state = row.state)
    "Stale lifecycle operation"
  .write fun c => { c with
    lifecycle := c.lifecycle.modify (fun old => old.environment = row.environment)
      (fun old => { old with failure := some reason }) fun _ => rfl }
  Access.record ctx "system:lifecycle" "lifecycle.blocked" row.environment
    [("operation", .text row.operation), ("epoch", .number row.epoch)]

/-- Every resource of the operation has a done effect. -/
def Catalog.effectsDone (c : Catalog) (row : LifecycleRow) : Bool :=
  row.resources ≠ [] && row.resources.all fun item =>
    (c.effects.get (row.operation, item.resource)).any LifecycleEffect.done

/-- The state after an operation without failure. -/
def LifecycleState.next : LifecycleState → LifecycleState
  | .deleting => .deleted
  | .restoring => .active
  | .active => .purged
  | .deleted => .purged
  | .purging => .purged
  | .purged => .purged

def finishLifecycle (row : LifecycleRow) (failure : Option String) : CatalogCall Unit :=
  .transaction do
    assertLifecycleOperation ctx row
    let c ← .read id
    let failed := failure.any (· ≠ "")
    .require (failed ∨ c.effectsDone row) "Lifecycle effects are incomplete"
    let state := if failed then row.state else row.state.next
    requireLifecycleAuthorization ctx row
    .write fun c => { c with
      lifecycle := c.lifecycle.modify (fun old => old.environment = row.environment)
        (fun old => { old with
          state, failure
          retainUntil := if state = .deleted ∧ failed = false then
              old.retainUntil.map fun time => max time (ctx.now + retentionMs)
            else old.retainUntil }) fun _ => rfl }
    Access.record ctx "system:lifecycle"
      (if failed then "lifecycle.blocked" else "lifecycle." ++ state.text)
      row.environment [("operation", .text row.operation), ("epoch", .number row.epoch)]

end

end Sbarbase.Control
