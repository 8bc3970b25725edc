import Mathlib.Data.List.Sort
import Sbarbase.Control.Routing
/-!
# Requests for optional services

The part of `src/control/catalog.ts` that turns Realtime and Edge Functions of an
environment on and off: the requests of owners, the ones the gateway and the
sleeper write, and the stop that is called off. Each writes the settings row of
one service, and the supervisor applies it.
-/

namespace Sbarbase.OnDemand

open Lib Control

/-- What a settings row says; without one, the service is off. -/
structure ServiceRow where
  desired : Bool
  state : SwitchState
  failure : Option String
  updatedAt : Option ℤ
  deriving DecidableEq

/-- `RealtimeState`, of either service. -/
structure SettingsState where
  runtime : String
  row : ServiceRow
  deriving DecidableEq

/-- Why the gateway or the sleeper asks for a change. -/
inductive ChangeReason
  | wake
  | idle
  | killSwitch
  deriving DecidableEq

def ChangeReason.text : ChangeReason → String
  | .wake => "wake"
  | .idle => "idle"
  | .killSwitch => "kill_switch"

inductive ChangeResult
  | requested
  | pending
  | noop
  deriving DecidableEq

def changeInProgress : OnDemandService → String
  | .realtime => "Realtime change in progress"
  | .functions => "Edge Functions change in progress"

def wakeWindowMs : ℤ := 3600000

def validIdleMinutes (minutes : ℤ) : Prop :=
  idleFloorMinutes ≤ minutes ∧ minutes ≤ idleCeilingMinutes

instance (minutes : ℤ) : Decidable (validIdleMinutes minutes) :=
  inferInstanceAs (Decidable (_ ∧ _))

/-- A service saved as On demand, with its quiet period. -/
structure Target where
  runtime : String
  service : OnDemandService
  idleMinutes : ℤ
  deriving DecidableEq

/-! ## Reading -/

section

variable (c : Catalog)

/-- The settings row of a service as the database has it. -/
def settings (runtime : String) (service : OnDemandService) : Option ServiceSwitch :=
  c.switches.get (settingsTable service, runtime)

def serviceRow (runtime : String) (service : OnDemandService) : ServiceRow :=
  match settings c runtime service with
  | some row => ⟨row.desired, row.state, row.failure, some row.updatedAt⟩
  | none => ⟨false, .off, none, none⟩

def killSwitch : Bool := c.installationSetting "kill_switch" = some "1"

/-- Wakes of a service that requests asked for in the last hour. -/
def wakesInWindow (runtime : String) (service : OnDemandService) (now : ℤ) : ℕ :=
  match c.jobOfRuntime runtime with
  | none => 0
  | some job => c.audit.countP fun event =>
      event.action = service.text ++ ".wake_requested" && event.subject = job.environment &&
        decide (now - wakeWindowMs < event.time) && decide (("reason", .text "wake") ∈ event.detail)

/-- `ORDER BY m.runtime,m.service` -/
def inOrder (a b : ServiceMode) : Bool :=
  decide (a.runtime < b.runtime) ||
    (a.runtime = b.runtime && decide (a.service.text ≤ b.service.text))

def onDemandTargets : List Target :=
  let saved := (c.serviceModes.rows.filter fun row => row.mode = .onDemand).insertionSort
    fun a b => inOrder a b
  (saved.filter fun row => c.runtimeReady row.runtime).map fun row =>
    ⟨row.runtime, row.service, (c.serviceMode row.runtime row.service).2⟩

end

/-! ## Writing -/

section

variable (ctx : Context)

/-- `INSERT … ON CONFLICT(runtime) DO UPDATE`: the row asks for a change. -/
def putRequest (runtime : String) (service : OnDemandService) (on : Bool) (actor : String) :
    CatalogCall Unit :=
  .write fun c => { c with
    switches := c.switches.put
      ⟨settingsTable service, runtime, on, .pending, none, actor, ctx.now⟩ }

/-- `realtime` and `functions`: the row, for owners and admins of a ready environment. -/
def readSettings (service : OnDemandService) (actor environment : String) :
    CatalogCall SettingsState := do
  let _ ← Access.environmentProject ctx actor environment [.owner, .admin]
  let c ← .read id
  let job ← .found (c.job environment) "Environment is not ready"
  .require (job.state = .succeeded ∧ c.runtimeDeleted job.runtime = false)
    "Environment is not ready"
  return ⟨job.runtime, serviceRow c job.runtime service⟩

/-- The body that `requestRealtime` and `requestFunctions` share. -/
def requestSettings (service : OnDemandService) (actor environment : String) (on : Bool) :
    CatalogCall SettingsState :=
  .transaction do
    let current ← readSettings ctx service actor environment
    .require (current.row.state ≠ .pending) (changeInProgress service)
    putRequest ctx current.runtime service on actor
    saveMode ctx current.runtime service (if on then .on else .off) actor none "user"
    Access.record ctx actor
      (service.text ++ if on then ".requested" else ".stop_requested") environment []
    readSettings ctx service actor environment

def requestRealtime (actor environment : String) (on : Bool) : CatalogCall SettingsState :=
  requestSettings ctx .realtime actor environment on

def requestFunctions (actor environment : String) (on : Bool) : CatalogCall SettingsState :=
  requestSettings ctx .functions actor environment on

def writeRequest (runtime : String) (service : OnDemandService) (on : Bool)
    (actor action environment : String) (detail : Detail) : CatalogCall Unit := do
  putRequest ctx runtime service on actor
  Access.record ctx actor action environment detail

def setServiceMode (actor environment : String) (service : OnDemandService) (mode : Mode)
    (idle : Option ℤ) : CatalogCall (String × (Mode × ℤ) × ServiceRow) :=
  .transaction do
    let _ ← Access.environmentProject ctx actor environment [.owner, .admin]
    let c ← .read id
    let job ← .found (c.job environment) "Environment is not ready"
    .require (job.state = .succeeded ∧ c.runtimeDeleted job.runtime = false)
      "Environment is not ready"
    .require ((∀ minutes ∈ idle, validIdleMinutes minutes) ∧
        (mode = .onDemand → c.onDemandAvailable service)) "Invalid services setting"
    let row := serviceRow c job.runtime service
    .require (row.state ≠ .pending) (changeInProgress service)
    saveMode ctx job.runtime service mode actor idle "user"
    .when (mode = .on ∧ row.state ≠ .on)
      (writeRequest ctx job.runtime service true actor (service.text ++ ".requested") environment
        [("reason", .text "user")])
    .when (mode = .off ∧ (row.state = .on ∨ row.desired = true))
      (writeRequest ctx job.runtime service false actor (service.text ++ ".stop_requested")
        environment [("reason", .text "user")])
    let after ← .read id
    return (job.runtime, after.serviceMode job.runtime service,
      serviceRow after job.runtime service)

/-- The gateway or the sleeper asks for a change without touching the saved mode. -/
def requestServiceChange (runtime : String) (service : OnDemandService) (on : Bool)
    (actor : String) (reason : ChangeReason) (force : Bool) : CatalogCall ChangeResult :=
  .transaction do
    let c ← .read id
    let job ← .found (c.jobOfRuntime runtime) "Environment is not ready"
    .require (c.runtimeReady runtime) "Environment is not ready"
    let row := serviceRow c runtime service
    if row.state = .pending then return .pending
    else if (on = true ∧ row.state = .on ∧ force = false) ∨
        (on = false ∧ row.state ≠ .on ∧ row.desired = false) then return .noop
    else do
      writeRequest ctx runtime service on actor
        (service.text ++ if on then ".wake_requested" else ".sleep_requested") job.environment
        [("reason", .text reason.text)]
      return .requested

/-- The rows `cancelSleep` updates: a stop the sleeper asked for, not yet applied. -/
def sleepRequested (row : ServiceSwitch) : Bool :=
  row.state = .pending && row.desired = false && row.actor = "system:idle"

def cancelSleep (runtime : String) (service : OnDemandService) : CatalogCall Bool :=
  .transaction do
    let c ← .read id
    match (settings c runtime service).filter sleepRequested with
    | none => return false
    | some row => do
      .write fun c => { c with
        switches := c.switches.put
          { row with desired := true, state := .on, failure := none, actor := "system:wake" } }
      match c.jobOfRuntime runtime with
      | some job =>
        Access.record ctx "system:wake" (service.text ++ ".sleep_cancelled") job.environment
          [("reason", .text "wake")]
      | none => pure ()
      return true

end

end Sbarbase.OnDemand
