import Sbarbase.Control.Schema
import Sbarbase.Lib.Call
/-!
# Access and the audit log

What every operation of the catalog begins with: the checks on names and actors,
the role an actor has, the project an environment belongs to. And the statements
that insert rows, with the constraints of their tables.
-/

namespace Sbarbase.Control

open Lib

abbrev CatalogCall (α : Type) := Call Catalog String α

/-- What a lifecycle admission is asked about. -/
structure LifecycleBinding where
  environment : String
  runtime : String
  epoch : ℤ
  coverage : Option String
  placement : String
  inventoryDigest : String
  placementDigest : String
  deriving DecidableEq

/-- The native authority of a request: it signs an operation and stays current or not. -/
structure LifecycleAuthority where
  capture : Catalog → LifecycleRow → Bool → Except String (String × String)
  assertCurrent : Catalog → LifecycleRow → Except String Unit

/-- What a call finds outside the catalog: the clock, the management request it
runs for, the id of its notification, what is installed, and the functions of
the platform (`digest` is the SHA-256 of a text). -/
structure Context where
  now : ℤ
  current : Catalog → Bool
  event : String
  channels : List NotificationChannel
  authorizationStore : Bool
  authority : Option LifecycleAuthority
  lifecycleAdmission : Option (LifecycleBinding → List LifecycleResource → Option String)
  parseUrl : String → Option Url
  toLowerCase : String → String
  digest : String → String
  placementDigest : RuntimeRouting → String

/-! ## Statements -/

def foreignKeyFailed : String := "FOREIGN KEY constraint failed"

def uniqueFailed (columns : String) : String := "UNIQUE constraint failed: " ++ columns

def insertOrganization (row : Organization) : CatalogCall Unit := do
  let c ← .read id
  let organizations ← .found (c.organizations.insert row) (uniqueFailed "organizations.id")
  .write ({ · with organizations })

def insertMembership (row : Membership) : CatalogCall Unit := do
  let c ← .read id
  .require (c.organizations.get row.organization).isSome foreignKeyFailed
  let memberships ← .found (c.memberships.insert row)
    (uniqueFailed "memberships.organization, memberships.actor")
  .write ({ · with memberships })

/-- `INSERT … ON CONFLICT(organization,actor) DO UPDATE SET role=excluded.role` -/
def upsertMembership (row : Membership) : CatalogCall Unit := do
  let c ← .read id
  .require (c.organizations.get row.organization).isSome foreignKeyFailed
  .write fun c => { c with memberships := c.memberships.put row }

def insertBootstrap (row : Bootstrap) : CatalogCall Unit := do
  let c ← .read id
  .require (c.bootstrap = none) (uniqueFailed "installation_bootstrap.singleton")
  .require (c.organizations.get row.organization).isSome foreignKeyFailed
  .write ({ · with bootstrap := some row })

def insertProject (row : Project) : CatalogCall Unit := do
  let c ← .read id
  .require (c.organizations.get row.organization).isSome foreignKeyFailed
  .require (c.projects.rows.all fun old =>
      !(old.organization = row.organization && old.name = row.name))
    (uniqueFailed "projects.organization, projects.name")
  let projects ← .found (c.projects.insert row) (uniqueFailed "projects.id")
  .write ({ · with projects })

def insertEnvironment (row : Environment) : CatalogCall Unit := do
  let c ← .read id
  .require (c.projects.get row.project).isSome foreignKeyFailed
  .require (c.environments.rows.all fun old =>
      !(old.project = row.project && old.name = row.name))
    (uniqueFailed "environments.project, environments.name")
  let environments ← .found (c.environments.insert row) (uniqueFailed "environments.id")
  .write ({ · with environments })

/-- The job of a new environment: queued, at attempt 0, without a claim. -/
def insertJob (environment runtime actor organization : String) : CatalogCall Unit := do
  let c ← .read id
  .require ((c.environments.get environment).isSome ∧ (c.organizations.get organization).isSome)
    foreignKeyFailed
  .require (c.jobs.rows.all fun old => old.runtime ≠ runtime)
    (uniqueFailed "provision_jobs.runtime")
  let jobs ← .found
    (c.jobs.insert ⟨environment, runtime, actor, organization, .queued, 0, none, none⟩)
    (uniqueFailed "provision_jobs.environment")
  .write ({ · with jobs })

def insertInvitation (row : Invitation) : CatalogCall Unit := do
  let c ← .read id
  .require (c.organizations.get row.organization).isSome foreignKeyFailed
  .require (c.invitations.rows.all fun old => old.tokenHash ≠ row.tokenHash)
    (uniqueFailed "invitations.token_hash")
  let invitations ← .found (c.invitations.insert row) (uniqueFailed "invitations.id")
  .write ({ · with invitations })

/-! ## Reading -/

namespace Catalog

def roleOf (c : Catalog) (organization actor : String) : Option MembershipRole :=
  (c.memberships.get (organization, actor)).map Membership.role

/-- `SELECT * FROM provision_jobs WHERE environment=?` -/
def job (c : Catalog) (environment : String) : Option ProvisionJob := c.jobs.get environment

def jobOfRuntime (c : Catalog) (runtime : String) : Option ProvisionJob :=
  c.jobs.rows.find? fun job => job.runtime = runtime

def lifecycleOfRuntime (c : Catalog) (runtime : String) : Option LifecycleRow :=
  c.lifecycle.rows.find? fun row => row.runtime = runtime

/-- The environment has a lifecycle row that is not active. -/
def retired (c : Catalog) (environment : String) : Bool :=
  (c.lifecycle.get environment).any fun row => row.state ≠ .active

end Catalog

namespace Access

variable (ctx : Context)

def name (value : String) : CatalogCall String := do
  .require (trim value ≠ "" ∧ utf16Length value ≤ 100 ∧ hasCharUpTo 0x1f value = false)
    "Invalid name"
  return trim value

def requireCurrentManagement : CatalogCall Unit := do
  let c ← .read id
  .require (ctx.current c) "Forbidden"

def actor (value : String) : CatalogCall Unit := do
  requireCurrentManagement ctx
  .require (value ≠ "" ∧ utf16Length value ≤ 200 ∧ hasCharUpTo 0x20 value = false) "Invalid actor"

/-- `require` -/
def requireRole (member organization : String) (roles : List MembershipRole) :
    CatalogCall MembershipRole := do
  actor ctx member
  let c ← .read id
  let role ← .found (c.roleOf organization member) "Forbidden"
  .require (role ∈ roles) "Forbidden"
  return role

def project (member id : String) (roles : List MembershipRole) : CatalogCall Project := do
  let c ← .read fun c => c
  let project ← .found (c.projects.get id) "Forbidden"
  let _ ← requireRole ctx member project.organization roles
  return project

def environmentProject (member environment : String) (roles : List MembershipRole) :
    CatalogCall Project := do
  let c ← .read id
  let env ← .found (c.environments.get environment) "Forbidden"
  .require (c.retired environment = false) "Forbidden"
  project ctx member env.project roles

def retainedProject (member environment : String) (roles : List MembershipRole) :
    CatalogCall Project := do
  let c ← .read id
  let row ← .found (c.environments.get environment) "Forbidden"
  project ctx member row.project roles

/-- Owners and admins of the organization created at bootstrap. -/
def installationOperator (member : String) : CatalogCall Bool := do
  actor ctx member
  let c ← .read id
  return c.bootstrap.any fun bootstrap =>
    (c.roleOf bootstrap.organization member).any fun role => role = .owner || role = .admin

def record (member action subject : String) (detail : Detail) : CatalogCall Unit :=
  .write fun c => { c with
    audit := c.audit ++ [⟨c.audit.length + 1, member, action, subject, detail, ctx.now⟩] }

end Access

/-!
## Optional services

The part of `src/control/catalog.ts` and `src/control/on-demand-policy.ts` that
provisioning and deletion use: the modes a new environment gets, and whether a
service of a runtime is still on.
-/

def idleFloorMinutes : ℤ := 5

def idleCeilingMinutes : ℤ := 7 * 24 * 60

def defaultIdleMinutes : OnDemandService → ℤ
  | .realtime => 30
  | .functions => 15

/-- A quiet period inside its limits, or the default of the service. -/
def boundedMinutes (minutes : Option ℤ) (service : OnDemandService) : ℤ :=
  match minutes with
  | none => defaultIdleMinutes service
  | some minutes =>
    if idleFloorMinutes ≤ minutes ∧ minutes ≤ idleCeilingMinutes then minutes
    else defaultIdleMinutes service

/-- `idleMinutes`, of a saved text: `/^\d{1,6}$/`. -/
def idleMinutesText (value : Option String) (service : OnDemandService) : ℤ :=
  boundedMinutes
    ((value.filter fun text => matchesRange isDigit isDigit 0 5 text).bind fun text =>
      text.toNat?.map Int.ofNat) service

def onDemandByDefault : OnDemandService → Bool
  | .realtime => false
  | .functions => true

def onDemandServices : List OnDemandService := [.realtime, .functions]

def OnDemandService.idleKey (service : OnDemandService) : String := "idle_" ++ service.text

namespace Catalog

/-- `SELECT value FROM installation_services WHERE key=?` -/
def installationSetting (c : Catalog) (key : String) : Option String :=
  (c.installationSettings.get key).map InstallationSetting.value

/-- `installationServices().defaultMode`; without a setting, `DEFAULT_NEW_MODE`. -/
def defaultMode (c : Catalog) : Mode :=
  if c.installationSetting "default_mode" = some "off" then .off else .onDemand

def idleSetting (c : Catalog) (service : OnDemandService) : ℤ :=
  idleMinutesText (c.installationSetting service.idleKey) service

def onDemandAvailable (c : Catalog) (service : OnDemandService) : Bool :=
  onDemandByDefault service ||
    (service = .realtime && c.installationSetting "realtime_on_demand" = some "1")

end Catalog

def settingsTable : OnDemandService → SwitchTable
  | .realtime => .realtimeSettings
  | .functions => .functionsSettings

namespace Catalog

/-- The saved mode of a service and its quiet period, or what its switch implies. -/
def serviceMode (c : Catalog) (runtime : String) (service : OnDemandService) : Mode × ℤ :=
  match c.serviceModes.get (runtime, service) with
  | some row => (row.mode, boundedMinutes (some (row.idleMinutes.getD (c.idleSetting service)))
      service)
  | none =>
    let on := (c.switches.get (settingsTable service, runtime)).any fun row =>
      row.desired || row.state = .on
    (if on then .on else .off, c.idleSetting service)

def runtimeServicesActive (c : Catalog) (runtime : String) : Bool :=
  (c.switches.rows.any fun row =>
    row.runtime = runtime && (row.desired || row.state = .pending || row.state = .on)) ||
  (c.studioSessions.get runtime).any (fun row =>
    row.desired || row.state = .starting || row.state = .running) ||
  (c.savedSettings.rows.any fun row => row.runtime = runtime && row.pending) ||
  (c.routing.get runtime).any RoutingRow.maintenance

end Catalog

section

variable (ctx : Context)

def saveMode (runtime : String) (service : OnDemandService) (mode : Mode) (actor : String)
    (idle : Option ℤ) (reason : String) : CatalogCall Unit := do
  let c ← .read id
  let (before, idleBefore) := c.serviceMode runtime service
  let minutes := idle.getD idleBefore
  let environment := ((c.jobOfRuntime runtime).map ProvisionJob.environment).getD runtime
  .write fun c => { c with
    serviceModes := c.serviceModes.put ⟨runtime, service, mode, some minutes⟩ }
  .when (before ≠ mode ∨ idleBefore ≠ minutes ∨ reason = "default")
    (Access.record ctx actor (service.text ++ ".mode_changed") environment
      [("from", .text before.text), ("to", .text mode.text), ("idle_minutes", .number minutes),
        ("reason", .text reason)])

/-- The body of the loop of `applyDefaultModes`. -/
def applyDefaultMode (runtime : String) (idleMinutes : OnDemandService → ℤ)
    (service : OnDemandService) : CatalogCall Unit := do
  let c ← .read id
  .when (c.onDemandAvailable service ∧ c.serviceModes.get (runtime, service) = none ∧
      ((c.switches.get (settingsTable service, runtime)).any ServiceSwitch.desired) = false)
    (saveMode ctx runtime service .onDemand "system:default" (some (idleMinutes service))
      "default")

/-- A new environment gets the default mode of the installation. -/
def applyDefaultModes (environment : String) : CatalogCall Unit := do
  let c ← .read id
  match c.job environment with
  | none => pure ()
  | some job =>
    .when (c.defaultMode = .onDemand)
      (.forEach onDemandServices (applyDefaultMode ctx job.runtime c.idleSetting))

end

end Sbarbase.Control
