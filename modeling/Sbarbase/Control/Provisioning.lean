import Sbarbase.Control.Outbox
/-!
# Projects, environments and provisioning

The operations of `src/control/catalog.ts` on projects and environments, and the
jobs that provision them: creation, the worker's claim and its outcome, recovery
and retry. The limit on environments is checked where a job enters the states
that hold a slot.
-/

namespace Sbarbase.Control

open Lib

def environmentLimit : ℕ := 8

/-- The states `'queued','running','succeeded'`. -/
def JobState.holds : JobState → Bool
  | .queued => true
  | .running => true
  | .succeeded => true
  | .failed => false
  | .cancelled => false

namespace Catalog

/-- A lifecycle row of the runtime is purged. -/
def purged (c : Catalog) (runtime : String) : Bool :=
  c.lifecycle.rows.any fun row => row.runtime = runtime && row.state = .purged

/-- The jobs that hold or may take a runtime slot. -/
def held (c : Catalog) : ℕ :=
  c.jobs.rows.countP fun job => job.state.holds && !c.purged job.runtime

def runtimeReady (c : Catalog) (runtime : String) : Bool :=
  c.jobs.rows.any fun job => job.runtime = runtime && job.state = .succeeded &&
    c.lifecycle.rows.all fun row => !(row.runtime = runtime && row.state ≠ .active)

def runtimeEpoch (c : Catalog) (runtime : String) : ℤ :=
  ((c.lifecycleOfRuntime runtime).map LifecycleRow.epoch).getD 0

def runtimeDeleted (c : Catalog) (runtime : String) : Bool :=
  (c.deletedRuntimes.get runtime).isSome ||
    c.lifecycle.rows.any fun row => row.runtime = runtime && row.state ≠ .active

/-- The environments of a project. -/
def inProject (c : Catalog) (project environment : String) : Bool :=
  (c.environments.get environment).any fun row => row.project = project

end Catalog

def requireEnvironmentCapacity : CatalogCall Unit := do
  let c ← .read id
  .require (c.held < environmentLimit) "Environment capacity reached"

/-- Change the job of an environment, its environment staying. -/
def updateJob (p : ProvisionJob → Bool) (f : ProvisionJob → ProvisionJob)
    (hf : ∀ job, (f job).environment = job.environment) : CatalogCall Unit :=
  .write fun c => { c with jobs := c.jobs.modify p f hf }

def unusedProjectName (organization name : String) (except : Option String) :
    CatalogCall Unit := do
  let c ← .read id
  .require (c.projects.rows.all fun row =>
      !(row.organization = organization && row.name = name) || some row.id = except)
    "Name already used"

section

variable (ctx : Context)

/-! ## Creation -/

def createProject (actor organization name id : String) : CatalogCall String := do
  let title ← Access.name name
  .transaction do
    let _ ← Access.requireRole ctx actor organization [.owner, .admin]
    unusedProjectName organization title none
    insertProject ⟨id, organization, title⟩
    Access.record ctx actor "project.created" id [("organization", .text organization)]
    return id

/-- `runtime` is `'e_'+randomBytes(12).toString('hex')`. -/
def createEnvironment (actor project name id runtime : String) : CatalogCall String := do
  let title ← Access.name name
  .transaction do
    let parent ← Access.project ctx actor project [.owner, .admin]
    let c ← .read fun c => c
    .require (c.environments.rows.all fun row => !(row.project = project && row.name = title))
      "Name already used"
    requireEnvironmentCapacity
    insertEnvironment ⟨id, project, title⟩
    insertJob id runtime actor parent.organization
    Access.record ctx actor "environment.created" id [("project", .text project)]
    return id

def createProjectWithProduction (actor organization name projectId environmentId runtime : String) :
    CatalogCall (String × String) :=
  .transaction do
    let id ← createProject ctx actor organization name projectId
    let environment ← createEnvironment ctx actor id "production" environmentId runtime
    return (id, environment)

/-! ## The worker -/

def recoverProvisioning : CatalogCall Unit :=
  updateJob (fun job => job.state = .running)
    (fun job => { job with state := .queued, claim := none }) fun _ => rfl

/-- The requester may still provision in the organization the job names. -/
def checkRequester (job : ProvisionJob) : CatalogCall Unit := do
  let c ← .read id
  let env ← .found (c.environments.get job.environment) "Forbidden"
  let parent ← Access.project ctx job.actor env.project [.owner, .admin]
  .require (parent.organization = job.organization) "Forbidden"

/-- The loop of `claimProvision` over the queued jobs. -/
def claimFirst (claim : String) : List ProvisionJob → CatalogCall (Option ProvisionJob)
  | [] => pure none
  | job :: jobs => do
    let allowed ← ((checkRequester ctx job >>= fun _ => pure true).orElse fun _ => pure false :
      CatalogCall Bool)
    if allowed then do
      updateJob (fun row => row.environment = job.environment)
        (fun row => { row with
          state := .running, attempt := row.attempt + 1, claim := some claim }) fun _ => rfl
      Access.record ctx "system" "provision.started" job.environment
        [("attempt", .number (job.attempt + 1))]
      return some { job with
        state := .running, attempt := job.attempt + 1, claim := some claim }
    else do
      updateJob (fun row => row.environment = job.environment)
        (fun row => { row with state := .cancelled }) fun _ => rfl
      Access.record ctx "system" "provision.cancelled" job.environment []
      claimFirst claim jobs

def claimProvision (claim : String) : CatalogCall (Option ProvisionJob) :=
  .transaction do
    let c ← .read id
    claimFirst ctx claim ((c.jobs.rows.filter fun job => job.state = .queued).mergeSort
      fun a b => a.environment ≤ b.environment)

/-- The job of the environment runs under the claim. -/
def Catalog.runs (c : Catalog) (environment claim : String) : Bool :=
  (c.job environment).any fun job => job.state = .running && job.claim = some claim

def finishProvision (environment claim : String) (success : Bool) (failure : ProvisionFailure)
    (refusalReason : Option String) : CatalogCall Unit := do
  .require (refusalReason.all (· ∈ notificationReasons)) "Invalid notification reason"
  .transaction do
    let c ← .read id
    .require (c.runs environment claim) "Stale provisioning claim"
    updateJob (fun job => job.environment = environment)
      (fun job => { job with
        state := if success then .succeeded else .failed
        failure := if success then none else some failure
        claim := none }) fun _ => rfl
    Access.record ctx "system" (if success then "provision.succeeded" else "provision.failed")
      environment (if success then [] else [("failure", .text failure.text)])
    if success then applyDefaultModes ctx environment
    else do
      let c ← .read id
      match c.job environment, failure with
      | none, _ => pure ()
      | some job, .runtimeFailed => do
        let _ ← Outbox.notify ctx .provisionFailed .critical ("provision.failed|" ++ environment)
          (notificationScope c environment job.organization job.runtime) "system" "runtime_failed"
          [("failure", .text failure.text), ("attempt", .number job.attempt)]
      | some job, .capacityExceeded => do
        let _ ← Outbox.notify ctx .provisionCapacityRefused .warning
          ("provision.capacity_refused|" ++ environment)
          (notificationScope c environment job.organization job.runtime) "system"
          (refusalReason.getD "unrecorded")
          [("failure", .text failure.text), ("attempt", .number job.attempt),
            ("reason_source",
              .text (if refusalReason.isSome then "settlement" else "unrecorded"))]

def applyProvisionReceipt (environment runtime claim : String) (attempt exitCode : ℤ)
    (refusalReason : Option String) : CatalogCall Unit := do
  .require (exitCode = 0 ∨ exitCode = 75) "Unresolved provisioning outcome"
  .transaction do
    let c ← .read id
    match c.job environment with
    | none =>
      -- The tombstone of a deleted runtime keeps exactly the outcome that settled.
      .require ((c.deletedRuntimes.get runtime).any fun gone =>
          gone.environment = environment && gone.attempt = attempt &&
            gone.claim = some claim && gone.exitCode = some exitCode)
        "Provisioning receipt mismatch"
    | some job => do
      .require (job.runtime = runtime ∧ attempt ≤ job.attempt) "Provisioning receipt mismatch"
      match c.effectResults.get (environment, attempt) with
      | some prior =>
        .require (prior.runtime = runtime ∧ prior.claim = claim ∧ prior.exitCode = exitCode)
          "Provisioning receipt mismatch"
      | none => do
        .require (job.attempt = attempt ∧ job.state = .running ∧ job.claim = some claim)
          "Provisioning receipt mismatch"
        finishProvision ctx environment claim (exitCode = 0) .capacityExceeded refusalReason
        let c ← .read id
        let effectResults ← .found
          (c.effectResults.insert ⟨environment, attempt, runtime, claim, exitCode⟩)
          (uniqueFailed "provision_effect_results.environment, provision_effect_results.attempt")
        .write ({ · with effectResults })

/-- `decision==='retry'?'requeued':'failed'` -/
def RecoveryChoice.outcome : RecoveryChoice → String
  | .retry => "requeued"
  | .failed => "failed"

/-- The decision on a lost attempt: two retries, then failure. -/
def Catalog.recoveryChoice (c : Catalog) (environment : String) : RecoveryChoice :=
  if (c.recoveryDecisions.rows.countP fun row =>
      row.environment = environment && row.decision = .retry) < 2 then .retry
  else .failed

def recoverPreflightReceipt (environment runtime claim : String) (attempt : ℤ) (token : String) :
    CatalogCall String :=
  .transaction do
    let c ← .read id
    match c.job environment with
    | none => do
      let gone ← .found ((c.deletedRuntimes.get runtime).filter fun gone =>
          gone.environment = environment && gone.attempt = attempt &&
            gone.claim = some claim && gone.receiptToken = some token)
        "Preflight receipt mismatch"
      let decision ← .found gone.decision "Preflight receipt mismatch"
      return decision.outcome
    | some job => do
      .require (job.runtime = runtime ∧ attempt ≤ job.attempt) "Preflight receipt mismatch"
      match c.recoveryDecisions.get (environment, attempt) with
      | some prior => do
        .require (prior.runtime = runtime ∧ prior.claim = claim ∧ prior.receiptToken = token)
          "Preflight receipt mismatch"
        return prior.decision.outcome
      | none => do
        .require (job.state = .running ∧ job.attempt = attempt ∧ job.claim = some claim)
          "Preflight receipt mismatch"
        let choice := c.recoveryChoice environment
        updateJob (fun job => job.environment = environment)
          (fun job => { job with
            state := if choice = .retry then .queued else .failed
            claim := none
            failure := if choice = .retry then none else some .runtimeFailed }) fun _ => rfl
        let c ← .read id
        let recoveryDecisions ← .found
          (c.recoveryDecisions.insert ⟨environment, attempt, runtime, claim, token, choice⟩)
          (uniqueFailed
            "provision_recovery_decisions.environment, provision_recovery_decisions.attempt")
        .write ({ · with recoveryDecisions })
        Access.record ctx "system"
          (if choice = .retry then "provision.preflight_requeued"
            else "provision.preflight_retry_limit") environment [("attempt", .number attempt)]
        .when (choice ≠ .retry) do
          let c ← .read id
          let _ ← Outbox.notify ctx .provisionRetryLimit .critical
            ("provision.retry_limit|" ++ environment)
            (notificationScope c environment job.organization job.runtime) "system" "retry_limit"
            [("attempt", .number attempt), ("reason_source", .text "settlement")]
        return choice.outcome

/-! ## Retry and transfer -/

def retryProvision (actor environment : String) : CatalogCall Unit :=
  .transaction do
    let parent ← Access.environmentProject ctx actor environment [.owner, .admin]
    requireEnvironmentCapacity
    let c ← .read id
    .require ((c.job environment).any fun job => job.state = .failed || job.state = .cancelled)
      "Operation is not retryable"
    updateJob (fun job => job.environment = environment)
      (fun job => { job with
        state := .queued, actor := actor, organization := parent.organization
        claim := none, failure := none }) fun _ => rfl
    Access.record ctx actor "provision.retried" environment []
    let c ← .read id
    match c.job environment with
    | none => pure ()
    | some job => do
      let _ ← Outbox.notify ctx .provisionRetried .info ("provision.retried|" ++ environment)
        (notificationScope c environment parent.organization job.runtime) actor "retry_requested"
        [("attempt", .number job.attempt), ("reason_source", .text "settlement")]

/-- A queued job carries authority in the source organization: the move cancels it. -/
def cancelQueued (job : ProvisionJob) : CatalogCall Unit := do
  updateJob (fun row => row.environment = job.environment)
    (fun row => { row with state := .cancelled, claim := none }) fun _ => rfl
  Access.record ctx "system" "provision.cancelled" job.environment
    [("reason", .text "project_transferred")]

/-- `revokeRuntime` revokes the keys of a runtime in their own store, or throws. -/
def transferProject (actor project destination : String)
    (revokeRuntime : String → Except String Unit) : CatalogCall (List String × List String) :=
  .transaction do
    let source ← Access.project ctx actor project [.owner]
    let _ ← Access.requireRole ctx actor destination [.owner]
    let c ← .read id
    .require (c.lifecycle.rows.all fun row =>
        !(c.inProject project row.environment && row.state ≠ .active))
      "Lifecycle operation is active"
    if source.organization = destination then return ([], [])
    else do
      unusedProjectName destination source.name (some project)
      .require (c.jobs.rows.all fun job =>
          !(c.inProject project job.environment && job.state = .running))
        "Provisioning is active"
      .write fun c => { c with
        projects := c.projects.modify (fun row => row.id = project)
          (fun row => { row with organization := destination }) fun _ => rfl }
      Access.record ctx actor "project.ownership_changed" project
        [("from", .text source.organization), ("to", .text destination)]
      let queued := c.jobs.rows.filter fun job =>
        c.inProject project job.environment && job.state = .queued
      .forEach queued (cancelQueued ctx)
      updateJob (fun job => c.inProject project job.environment)
        (fun job => { job with organization := destination }) fun _ => rfl
      let _ ← Outbox.notify ctx .projectOwnershipChanged .critical
        ("project.ownership_changed|" ++ project)
        ⟨some source.organization, some project, none, none⟩ actor "ownership_changed"
        [("from", .text source.organization), ("to", .text destination)]
      let runtimes := ((c.jobs.rows.filter fun job =>
        c.inProject project job.environment).map ProvisionJob.runtime).mergeSort
      .forEach runtimes fun runtime => .lift (revokeRuntime runtime)
      return (queued.map ProvisionJob.environment, runtimes)

def renameProject (actor project name : String) : CatalogCall Unit := do
  let title ← Access.name name
  .transaction do
    let current ← Access.project ctx actor project [.owner, .admin]
    unusedProjectName current.organization title (some project)
    .write fun c => { c with
      projects := c.projects.modify (fun row => row.id = project)
        (fun row => { row with name := title }) fun _ => rfl }
    Access.record ctx actor "project.renamed" project []

def renameEnvironment (actor environment name : String) : CatalogCall Unit := do
  let title ← Access.name name
  .transaction do
    let project ← Access.environmentProject ctx actor environment [.owner, .admin]
    let c ← .read id
    .require (c.environments.rows.all fun row =>
        !(row.project = project.id && row.name = title) || row.id = environment)
      "Name already used"
    .write fun c => { c with
      environments := c.environments.modify (fun row => row.id = environment)
        (fun row => { row with name := title }) fun _ => rfl }
    Access.record ctx actor "environment.renamed" environment []

def deleteProject (actor project : String) : CatalogCall Unit :=
  .transaction do
    let current ← Access.project ctx actor project [.owner]
    let c ← .read id
    .require (c.environments.rows.all fun row => row.project ≠ project) "Project has environments"
    .write fun c => { c with projects := c.projects.keep fun row => row.id ≠ project }
    Access.record ctx actor "project.deleted" current.organization []

/-! ## Relinking -/

/-- Which organization, project and environment owned a runtime, each id with its name. -/
structure Ownership where
  organization : Organization
  project : String × String
  environment : String × String

structure RelinkResult where
  organization : String
  project : String
  environment : String
  runtime : String
  state : JobState
  created : Bool × Bool × Bool
  deriving DecidableEq

/-- The recorded organization exists and is the actor's, or is created. -/
def relinkOrganization (actor : String) (row : Organization) : CatalogCall Bool := do
  let c ← .read id
  if (c.organizations.get row.id).isSome then do
    let _ ← Access.requireRole ctx actor row.id [.owner]
    return false
  else do
    .require (c.organizations.rows.all fun old => old.name ≠ row.name)
      "Organization name belongs to another organization"
    insertOrganization row
    insertMembership ⟨row.id, actor, .owner⟩
    Access.record ctx actor "organization.created" row.id [("relinked", .flag true)]
    return true

def relinkProject (actor : String) (row : Project) : CatalogCall Bool := do
  let c ← .read id
  match c.projects.get row.id with
  | some existing => do
    .require (existing.organization = row.organization) "Project belongs to another organization"
    return false
  | none => do
    unusedProjectName row.organization row.name none
    insertProject row
    Access.record ctx actor "project.created" row.id [("relinked", .flag true)]
    return true

def relinkEnvironment (actor : String) (ownership : Ownership) (runtime : String) :
    CatalogCall RelinkResult := do
  .require (isRuntime runtime) "Invalid runtime"
  .require (isUuid ownership.organization.id ∧ isUuid ownership.project.1 ∧
      isUuid ownership.environment.1) "Invalid ownership"
  let organizationName ← Access.name ownership.organization.name
  let projectName ← Access.name ownership.project.2
  let environmentName ← Access.name ownership.environment.2
  let organization := ownership.organization.id
  let project := ownership.project.1
  let environment := ownership.environment.1
  .transaction do
    let operator ← Access.installationOperator ctx actor
    .require operator "Forbidden"
    let c ← .read id
    .require (c.runtimeDeleted runtime = false) "Runtime was deleted here"
    let newOrganization ← relinkOrganization ctx actor ⟨organization, organizationName⟩
    let newProject ← relinkProject ctx actor ⟨project, organization, projectName⟩
    let c ← .read id
    match c.environments.get environment with
    | some existing => do
      let job ← .found ((c.job environment).filter fun job =>
          existing.project = project && job.runtime = runtime)
        "Environment exists with another project or runtime"
      return ⟨organization, project, environment, runtime, job.state,
        (newOrganization, newProject, false)⟩
    | none => do
      .require (c.jobs.rows.all fun job => job.runtime ≠ runtime)
        "Runtime belongs to another environment"
      .require (c.environments.rows.all fun row =>
          !(row.project = project && row.name = environmentName)) "Name already used"
      requireEnvironmentCapacity
      insertEnvironment ⟨environment, project, environmentName⟩
      insertJob environment runtime actor organization
      Access.record ctx actor "environment.relinked" environment [("project", .text project)]
      return ⟨organization, project, environment, runtime, .queued,
        (newOrganization, newProject, true)⟩

end

end Sbarbase.Control
