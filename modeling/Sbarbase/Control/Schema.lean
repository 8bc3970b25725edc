import Sbarbase.Control.LifecycleContract
import Sbarbase.Control.ManagementSecurity
import Sbarbase.Control.Placement
/-!
# The tables of the catalog

The rows of `src/control/catalog.ts` and the statements that write them. A
statement that breaks a key, a unique index or a foreign key throws. Columns
that no modelled operation reads are left out.
-/

namespace Sbarbase.Control

open Lib

/-! ## Organizations and their members -/

inductive MembershipRole
  | owner
  | admin
  | viewer
  deriving DecidableEq

/-- `{owner:0,admin:1,viewer:2}` -/
def MembershipRole.rank : MembershipRole → ℕ
  | .owner => 0
  | .admin => 1
  | .viewer => 2

def MembershipRole.text : MembershipRole → String
  | .owner => "owner"
  | .admin => "admin"
  | .viewer => "viewer"

structure Organization where
  id : String
  name : String
  deriving DecidableEq

structure Bootstrap where
  operation : String
  actor : String
  organization : String
  deriving DecidableEq

structure Membership where
  organization : String
  actor : String
  role : MembershipRole
  deriving DecidableEq

def Membership.key (row : Membership) : String × String := (row.organization, row.actor)

structure Invitation where
  id : String
  organization : String
  email : String
  role : MembershipRole
  tokenHash : String
  inviter : String
  createdAt : ℤ
  expiresAt : ℤ
  usedAt : Option ℤ
  usedBy : Option String
  cancelledAt : Option ℤ
  deriving DecidableEq

structure Project where
  id : String
  organization : String
  name : String
  deriving DecidableEq

structure Environment where
  id : String
  project : String
  name : String
  deriving DecidableEq

/-! ## Provisioning -/

inductive JobState
  | queued
  | running
  | succeeded
  | failed
  | cancelled
  deriving DecidableEq

inductive ProvisionFailure
  | capacityExceeded
  | runtimeFailed
  deriving DecidableEq

def ProvisionFailure.text : ProvisionFailure → String
  | .capacityExceeded => "capacity_exceeded"
  | .runtimeFailed => "runtime_failed"

structure ProvisionJob where
  environment : String
  runtime : String
  actor : String
  organization : String
  state : JobState
  attempt : ℤ
  claim : Option String
  failure : Option ProvisionFailure
  deriving DecidableEq

structure EffectResult where
  environment : String
  attempt : ℤ
  runtime : String
  claim : String
  exitCode : ℤ
  deriving DecidableEq

def EffectResult.key (row : EffectResult) : String × ℤ := (row.environment, row.attempt)

inductive RecoveryChoice
  | retry
  | failed
  deriving DecidableEq

structure RecoveryDecision where
  environment : String
  attempt : ℤ
  runtime : String
  claim : String
  receiptToken : String
  decision : RecoveryChoice
  deriving DecidableEq

def RecoveryDecision.key (row : RecoveryDecision) : String × ℤ := (row.environment, row.attempt)

/-- The tombstone an earlier release left of a deleted runtime. -/
structure DeletedRuntime where
  runtime : String
  environment : String
  attempt : ℤ
  claim : Option String
  exitCode : Option ℤ
  receiptToken : Option String
  decision : Option RecoveryChoice
  deriving DecidableEq

/-! ## Lifecycle and routing -/

/-- A recorded inventory: its text and what the text says. -/
structure Inventory where
  text : String
  resources : List LifecycleResource
  deriving DecidableEq

/-- A row of `environment_lifecycle`. -/
structure LifecycleRow where
  environment : String
  runtime : String
  state : LifecycleState
  epoch : ℤ
  deletedAt : Option ℤ
  retainUntil : Option ℤ
  operation : String
  failure : Option String
  recoveryReceipt : Option String
  inventory : Option Inventory
  coverage : Option String
  actor : Option String
  managementEpoch : Option ℤ
  deriving DecidableEq

/-- `row.inventory?JSON.parse(row.inventory):[]` -/
def LifecycleRow.resources (row : LifecycleRow) : List LifecycleResource :=
  (row.inventory.map Inventory.resources).getD []

structure LifecycleAuthorization where
  operation : String
  originalDigest : String
  currentDigest : String
  originalIdentity : String
  currentIdentity : String
  deriving DecidableEq

structure LifecycleEffect where
  operation : String
  resource : String
  done : Bool
  outcome : Option String
  reclaimedBytes : ℤ
  deriving DecidableEq

def LifecycleEffect.key (row : LifecycleEffect) : String × String := (row.operation, row.resource)

structure RoutingRow where
  runtime : String
  revision : ℤ
  maintenance : Bool
  placement : Option RuntimePlacement
  deriving DecidableEq

/-! ## Optional services -/

inductive OnDemandService
  | realtime
  | functions
  deriving DecidableEq

def OnDemandService.text : OnDemandService → String
  | .realtime => "realtime"
  | .functions => "functions"

inductive Mode
  | off
  | on
  | onDemand
  deriving DecidableEq

def Mode.text : Mode → String
  | .off => "off"
  | .on => "on"
  | .onDemand => "on_demand"

structure ServiceMode where
  runtime : String
  service : OnDemandService
  mode : Mode
  idleMinutes : Option ℤ
  deriving DecidableEq

def ServiceMode.key (row : ServiceMode) : String × OnDemandService := (row.runtime, row.service)

/-- A setting of the installation. -/
structure InstallationSetting where
  key : String
  value : String
  deriving DecidableEq

/-- The tables of services that are switched on and off. -/
inductive SwitchTable
  | realtimeSettings
  | functionsSettings
  | databaseAccess
  | scheduledJobs
  deriving DecidableEq

inductive SwitchState
  | off
  | pending
  | on
  | failed
  deriving DecidableEq

structure ServiceSwitch where
  table : SwitchTable
  runtime : String
  desired : Bool
  state : SwitchState
  failure : Option String
  actor : String
  updatedAt : ℤ
  deriving DecidableEq

def ServiceSwitch.key (row : ServiceSwitch) : SwitchTable × String := (row.table, row.runtime)

inductive StudioState
  | stopped
  | starting
  | running
  | failed
  deriving DecidableEq

structure StudioSession where
  runtime : String
  desired : Bool
  state : StudioState
  deriving DecidableEq

/-- The tables of settings an operator applies. -/
inductive SavedTable
  | authSettings
  | dataApiSettings
  | signingKeys
  deriving DecidableEq

structure SavedSetting where
  table : SavedTable
  runtime : String
  pending : Bool
  deriving DecidableEq

def SavedSetting.key (row : SavedSetting) : SavedTable × String := (row.table, row.runtime)

/-! ## Records for people -/

/-- A value in the detail of an audit event or a notification. -/
inductive DetailValue
  | null
  | flag (value : Bool)
  | number (value : ℤ)
  | text (value : String)
  deriving DecidableEq

abbrev Detail := List (String × DetailValue)

instance : LawfulBEq (String × DetailValue) := inferInstance

structure AuditEvent where
  sequence : ℕ
  actor : String
  action : String
  subject : String
  detail : Detail
  time : ℤ
  deriving DecidableEq

inductive NotificationSeverity
  | info
  | warning
  | critical
  deriving DecidableEq

inductive NotificationChannel
  | email
  | webhook
  | telegram
  deriving DecidableEq

structure OutboxRow where
  id : String
  time : ℤ
  lastAt : ℤ
  windowUntil : ℤ
  occurrences : ℕ
  kind : String
  severity : NotificationSeverity
  dedupeKey : String
  organization : Option String
  project : Option String
  environment : Option String
  runtime : Option String
  actor : String
  reason : String
  detail : Detail
  expiresAt : ℤ
  deriving DecidableEq

inductive DeliveryState
  | pending
  | claimed
  | delivered
  | failed
  deriving DecidableEq

structure DeliveryRow where
  event : String
  channel : NotificationChannel
  state : DeliveryState
  attempts : ℕ
  nextAttemptAt : ℤ
  deriving DecidableEq

def DeliveryRow.key (row : DeliveryRow) : String × NotificationChannel := (row.event, row.channel)

/-! ## The database -/

structure Catalog where
  organizations : Table Organization.id
  bootstrap : Option Bootstrap
  memberships : Table Membership.key
  invitations : Table Invitation.id
  projects : Table Project.id
  environments : Table Environment.id
  jobs : Table ProvisionJob.environment
  effectResults : Table EffectResult.key
  recoveryDecisions : Table RecoveryDecision.key
  deletedRuntimes : Table DeletedRuntime.runtime
  lifecycle : Table LifecycleRow.environment
  authorizations : Table LifecycleAuthorization.operation
  effects : Table LifecycleEffect.key
  routing : Table RoutingRow.runtime
  serviceModes : Table ServiceMode.key
  installationSettings : Table InstallationSetting.key
  switches : Table ServiceSwitch.key
  studioSessions : Table StudioSession.runtime
  savedSettings : Table SavedSetting.key
  transferGuards : List String
  audit : List AuditEvent
  outbox : Table OutboxRow.id
  deliveries : Table DeliveryRow.key
  security : ManagementSecurity

def Catalog.empty : Catalog where
  organizations := .empty
  bootstrap := none
  memberships := .empty
  invitations := .empty
  projects := .empty
  environments := .empty
  jobs := .empty
  effectResults := .empty
  recoveryDecisions := .empty
  deletedRuntimes := .empty
  lifecycle := .empty
  authorizations := .empty
  effects := .empty
  routing := .empty
  serviceModes := .empty
  installationSettings := .empty
  switches := .empty
  studioSessions := .empty
  savedSettings := .empty
  transferGuards := []
  audit := []
  outbox := .empty
  deliveries := .empty
  security := .empty

end Sbarbase.Control
