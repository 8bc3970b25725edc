import Sbarbase.Control.Lifecycle
import Sbarbase.Control.Membership
/-!
# The catalog as a machine

Every operation is one event, with the context it is called in. A call that
throws is an event too. `elsewhere` stands for the operations that are not
modelled: they may leave anything in the tables none of the others writes rows
of, and add events to the audit log and the outbox.
-/

namespace Sbarbase.Control

open Lib

/-- The tables other operations write. -/
structure Elsewhere where
  deletedRuntimes : Table DeletedRuntime.runtime
  serviceModes : Table ServiceMode.key
  installationSettings : Table InstallationSetting.key
  switches : Table ServiceSwitch.key
  studioSessions : Table StudioSession.runtime
  savedSettings : Table SavedSetting.key
  transferGuards : List String
  audit : List AuditEvent
  outbox : Table OutboxRow.id
  deliveries : Table DeliveryRow.key
  security : ManagementSecurity

inductive Operation
  | createOrganization (owner name id : String)
  | initializeInstallation (operation owner name id : String)
  | renameOrganization (actor organization name : String)
  | deleteOrganization (actor organization : String)
  | setMember (actor organization target : String) (role : Option MembershipRole)
  | changeMember (actor organization target : String) (role : Option MembershipRole)
  | createInvitation (actor organization email : String) (role : MembershipRole)
      (id token : String)
  | cancelInvitation (actor organization id : String)
  | acceptInvitation (id actor : String)
  | createProject (actor organization name id : String)
  | createProjectWithProduction (actor organization name projectId environmentId runtime : String)
  | renameProject (actor project name : String)
  | deleteProject (actor project : String)
  | transferProject (actor project destination : String)
      (revokeRuntime : String → Except String Unit)
  | createEnvironment (actor project name id runtime : String)
  | renameEnvironment (actor environment name : String)
  | relinkEnvironment (actor : String) (ownership : Ownership) (runtime : String)
  | recoverProvisioning
  | claimProvision (claim : String)
  | finishProvision (environment claim : String) (success : Bool) (failure : ProvisionFailure)
      (refusalReason : Option String)
  | applyProvisionReceipt (environment runtime claim : String) (attempt exitCode : ℤ)
      (refusalReason : Option String)
  | recoverPreflightReceipt (environment runtime claim : String) (attempt : ℤ) (token : String)
  | retryProvision (actor environment : String)
  | registerDurableInventory (runtime : String) (inventory : Inventory) (operation : String)
  | registerLifecycleResources (runtime : String) (inventory : Inventory)
      (coverage operation : String)
  | deleteEnvironment (actor environment operation : String)
  | requestLifecycle (actor environment operation : String) (request : LifecycleRequest)
  | resumeLifecycleOperation (actor environment operation : String)
  | lifecycleEffect (row : LifecycleRow) (resource : String) (outcome : Option String)
      (reclaimedBytes : ℤ)
  | blockLifecycle (row : LifecycleRow) (reason : String)
  | finishLifecycle (row : LifecycleRow) (failure : Option String)
  | changeRuntimeRouting (runtime : String) (expectedRevision : ℤ) (action : RoutingAction)
  | elsewhere (tables : Elsewhere)

/-- What another operation left. -/
def writeElsewhere (tables : Elsewhere) : CatalogCall Unit :=
  .write fun c => { c with
    deletedRuntimes := tables.deletedRuntimes
    serviceModes := tables.serviceModes
    installationSettings := tables.installationSettings
    switches := tables.switches
    studioSessions := tables.studioSessions
    savedSettings := tables.savedSettings
    transferGuards := tables.transferGuards
    audit := tables.audit
    outbox := tables.outbox
    deliveries := tables.deliveries
    security := tables.security }

def perform (ctx : Context) : Operation → CatalogCall Unit
  | .createOrganization owner name id => (createOrganization ctx owner name id).discard
  | .initializeInstallation operation owner name id =>
    (initializeInstallation ctx operation owner name id).discard
  | .renameOrganization actor organization name => renameOrganization ctx actor organization name
  | .deleteOrganization actor organization => deleteOrganization ctx actor organization
  | .setMember actor organization target role => setMember ctx actor organization target role
  | .changeMember actor organization target role =>
    (changeMember ctx actor organization target role).discard
  | .createInvitation actor organization email role id token =>
    (createInvitation ctx actor organization email role id token).discard
  | .cancelInvitation actor organization id => cancelInvitation ctx actor organization id
  | .acceptInvitation id actor => (acceptInvitation ctx id actor).discard
  | .createProject actor organization name id =>
    (createProject ctx actor organization name id).discard
  | .createProjectWithProduction actor organization name projectId environmentId runtime =>
    (createProjectWithProduction ctx actor organization name projectId environmentId
      runtime).discard
  | .renameProject actor project name => renameProject ctx actor project name
  | .deleteProject actor project => deleteProject ctx actor project
  | .transferProject actor project destination revokeRuntime =>
    (transferProject ctx actor project destination revokeRuntime).discard
  | .createEnvironment actor project name id runtime =>
    (createEnvironment ctx actor project name id runtime).discard
  | .renameEnvironment actor environment name => renameEnvironment ctx actor environment name
  | .relinkEnvironment actor ownership runtime =>
    (relinkEnvironment ctx actor ownership runtime).discard
  | .recoverProvisioning => recoverProvisioning
  | .claimProvision claim => (claimProvision ctx claim).discard
  | .finishProvision environment claim success failure refusalReason =>
    finishProvision ctx environment claim success failure refusalReason
  | .applyProvisionReceipt environment runtime claim attempt exitCode refusalReason =>
    applyProvisionReceipt ctx environment runtime claim attempt exitCode refusalReason
  | .recoverPreflightReceipt environment runtime claim attempt token =>
    (recoverPreflightReceipt ctx environment runtime claim attempt token).discard
  | .retryProvision actor environment => retryProvision ctx actor environment
  | .registerDurableInventory runtime inventory operation =>
    registerDurableInventory ctx runtime inventory operation
  | .registerLifecycleResources runtime inventory coverage operation =>
    registerLifecycleResources ctx runtime inventory coverage operation
  | .deleteEnvironment actor environment operation =>
    (deleteEnvironment ctx actor environment operation).discard
  | .requestLifecycle actor environment operation request =>
    (requestLifecycle ctx actor environment operation request).discard
  | .resumeLifecycleOperation actor environment operation =>
    (resumeLifecycleOperation ctx actor environment operation).discard
  | .lifecycleEffect row resource outcome reclaimedBytes =>
    lifecycleEffect ctx row resource outcome reclaimedBytes
  | .blockLifecycle row reason => blockLifecycle ctx row reason
  | .finishLifecycle row failure => finishLifecycle ctx row failure
  | .changeRuntimeRouting runtime expectedRevision action =>
    (changeRuntimeRouting ctx runtime expectedRevision action).discard
  | .elsewhere tables => writeElsewhere tables

/-- The catalog under any order of calls. -/
def catalogMachine : Machine Catalog (Context × Operation) where
  initial := .empty
  step c event := (perform event.1 event.2).after c

/-!
## Shares of the application gateway

`src/gateway/shares.ts` and the share operations of `src/control/catalog.ts`. The
table `gateway_shares` is beside the tables of `Catalog`: no other operation reads
or writes it.
-/

namespace Gateway

def share : ℤ := 8

def total : ℤ := 8 * environmentLimit

def ceiling : ℤ := 24

end Gateway

structure GatewayShare where
  runtime : String
  share : ℤ
  actor : String
  updatedAt : ℤ
  deriving DecidableEq

/-- The catalog with its recorded shares. -/
structure Sharing where
  catalog : Catalog
  shares : Table GatewayShare.runtime

namespace Sharing

def empty : Sharing := ⟨.empty, .empty⟩

/-- `gatewayShare(runtime)` -/
def gatewayShare (s : Sharing) (runtime : String) : Option ℤ :=
  (s.shares.get runtime).map GatewayShare.share

/-- `gatewayShare(runtime)??GATEWAY.share` -/
def shareOf (s : Sharing) (runtime : String) : ℤ := (s.gatewayShare runtime).getD Gateway.share

/-- The provisioning of the job succeeded and its runtime is not purged. -/
def counts (c : Catalog) (job : ProvisionJob) : Bool :=
  job.state = .succeeded && !c.purged job.runtime

def allocatedShares (s : Sharing) : ℤ :=
  ((s.catalog.jobs.rows.filter (counts s.catalog)).map fun job => s.shareOf job.runtime).sum

end Sharing

abbrev SharingCall := Call Sharing String

/-- A call of the catalog leaves the shares alone. -/
def onCatalog {α : Type} (call : CatalogCall α) : SharingCall α := fun s =>
  ((call s.catalog).1, { s with catalog := (call s.catalog).2 })

structure GatewayShareState where
  share : ℤ
  default : ℤ
  ceiling : ℤ
  operator : Bool
  /-- The total and what is allocated, for installation operators only. -/
  installation : Option (ℤ × ℤ)
  deriving DecidableEq

section

variable (ctx : Context)

/-- The job of an environment that is ready. -/
def readyJob (environment : String) : SharingCall ProvisionJob := do
  let s ← .read id
  .found ((s.catalog.job environment).filter fun job =>
    job.state = .succeeded && !s.catalog.runtimeDeleted job.runtime) "Environment is not ready"

def gatewayShareState (actor environment : String) : SharingCall GatewayShareState := do
  let operator ← onCatalog (Access.installationOperator ctx actor)
  .when (operator = false) (onCatalog do
    let _ ← Access.environmentProject ctx actor environment [.owner, .admin, .viewer])
  let job ← readyJob environment
  let s ← .read id
  return ⟨s.shareOf job.runtime, Gateway.share, Gateway.ceiling, operator,
    if operator then some (Gateway.total, s.allocatedShares) else none⟩

def setGatewayShare (actor environment : String) (share : ℤ) : SharingCall GatewayShareState :=
  .transaction do
    let operator ← onCatalog (Access.installationOperator ctx actor)
    .require operator "Forbidden"
    .require (isSafeInteger share ∧ 1 ≤ share ∧ share ≤ Gateway.ceiling) "Invalid share"
    let job ← readyJob environment
    let s ← .read id
    let current := s.shareOf job.runtime
    .require (¬ (current < share ∧ Gateway.total < s.allocatedShares - current + share))
      "Shares exceed gateway capacity"
    .write fun s => { s with shares := s.shares.put ⟨job.runtime, share, actor, ctx.now⟩ }
    onCatalog (Access.record ctx actor "gateway.share_changed" environment
      [("from", .number current), ("to", .number share)])
    gatewayShareState ctx actor environment

end

/-! ## The machine -/

inductive SharingOperation
  | catalog (operation : Operation)
  | setGatewayShare (actor environment : String) (share : ℤ)

def performSharing (ctx : Context) : SharingOperation → SharingCall Unit
  | .catalog operation => onCatalog (perform ctx operation)
  | .setGatewayShare actor environment share =>
    (setGatewayShare ctx actor environment share).discard

/-- The catalog and its shares under any order of calls. -/
def sharingMachine : Machine Sharing (Context × SharingOperation) where
  initial := .empty
  step s event := (performSharing event.1 event.2).after s

end Sbarbase.Control
