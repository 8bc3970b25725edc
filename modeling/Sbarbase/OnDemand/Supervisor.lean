import Sbarbase.OnDemand.Requests
/-!
# The operator that applies a request

`lab/realtime.py apply`, which the supervisor runs once for each pending row of
Realtime or Edge Functions: it reads the desired state, starts or stops the
container in a child, and records the outcome in the row. Nothing holds the
database between these steps, so the operator is a state and each step a
transition.
-/

namespace Sbarbase.OnDemand

open Lib Control

/-- A service of an environment. -/
abbrev Key := OnDemandService × String

instance : LawfulBEq Key := inferInstance

/-- `CAPACITY` -/
def capacityCode : ℕ := 75

/-- `BUSY` -/
def busyCode : ℕ := 76

/-- `SERVICES[service][1]` -/
def serviceLabel : OnDemandService → String
  | .realtime => "Realtime"
  | .functions => "Edge Functions"

def failureText (service : OnDemandService) (code : ℕ) (want : Bool) : String :=
  if code = capacityCode then
    "This server does not have the room, in memory or database connections, to run " ++
      serviceLabel service ++ " for another environment."
  else
    serviceLabel service ++ " could not be " ++ (if want then "started" else "stopped") ++
      ". The environment keeps working without it."

/-- `SYSTEM_ACTORS` -/
def systemReason (actor : String) : String :=
  if actor = "system:wake" then "wake"
  else if actor = "system:kill-switch" then "kill_switch"
  else if actor = "system:idle" then "idle"
  else "user"

/-- The command line of the child. -/
def toggleCommand (key : Key) (want : Bool) (reason : String) : List String :=
  ["/usr/bin/python3", "lab/durable_runtime.py", key.1.text, key.2] ++
    (if want then [] else ["--off"]) ++
    (if key.1 = .realtime ∧ (reason = "wake" ∨ reason = "kill_switch") ∧ want = true then
      ["--wake"] else []) ++
    (if key.1 = .realtime ∧ reason = "idle" ∧ want = false then ["--sleep"] else [])

/-- Where an `apply` stands. -/
inductive Operator
  | started
  /-- `desired` was read. -/
  | wanted (want : Bool)
  /-- `busy` found no other operation. -/
  | free (want : Bool)
  /-- The child runs. -/
  | running (want : Bool) (reason : String) (command : List String)
  /-- The child ended and the outcome is not recorded yet. -/
  | ended (want : Bool) (reason : String) (code : ℕ)
  | recorded (want : Bool) (reason : String) (code : ℕ)
  deriving DecidableEq

/-- What the operator meets in one step: a lock held or not, the exit code of its
child, a write that an error of the database drops or not, the clock. -/
inductive OperatorStep
  | desired
  | busy (held : Bool)
  | requestedBy
  | result (code : ℕ)
  | record (stored : Bool) (now : ℤ)
  | audit (stored : Bool) (seconds : ℤ) (now : ℤ)
  | killed
  deriving DecidableEq

/-- The row once an outcome is recorded in it. -/
def withOutcome (state : SwitchState) (failure : Option String) (now : ℤ) (row : ServiceSwitch) :
    ServiceSwitch :=
  { row with state, failure, updatedAt := now }

/-- `UPDATE … SET state=?,failure=?,updated_at=? WHERE runtime=?` -/
def recordOutcome (c : Catalog) (key : Key) (state : SwitchState) (failure : Option String)
    (now : ℤ) : Catalog :=
  { c with
    switches := c.switches.modify (fun row => row.key = (settingsTable key.1, key.2))
      (withOutcome state failure now) fun _ => rfl }

/-- `INSERT INTO audit_events … SELECT … FROM provision_jobs WHERE runtime=?` -/
def superviseAudit (c : Catalog) (key : Key) (action : String) (detail : Detail) (now : ℤ) :
    Catalog :=
  match c.jobOfRuntime key.2 with
  | none => c
  | some job => { c with
      audit := c.audit ++ [⟨c.audit.length + 1, "system:supervisor", key.1.text ++ "." ++ action,
        job.environment, detail, now⟩] }

/-- The state and the failure that `apply` records. -/
def outcome (key : Key) (want : Bool) (code : ℕ) : SwitchState × Option String :=
  if code = 0 then (if want then .on else .off, none)
  else (.failed, some (failureText key.1 code want))

/-- The audit event of the outcome. -/
def outcomeAudit (c : Catalog) (key : Key) (want : Bool) (reason : String) (code : ℕ)
    (seconds now : ℤ) : Catalog :=
  let wanted : DetailValue := .text (if want then "on" else "off")
  if code = 0 then
    superviseAudit c key "applied"
      [("state", wanted), ("reason", .text reason), ("seconds", .number seconds)] now
  else
    superviseAudit c key "apply_failed"
      [("want", wanted), ("reason", .text (if code = capacityCode then "capacity" else reason)),
        ("seconds", .number seconds)] now

/-- One step of `apply`: the catalog it leaves, and where the operator stands
then, or the code it exits with. A step out of place leaves both alone. -/
def applyStep (key : Key) (c : Catalog) : Operator → OperatorStep → Catalog × (Operator ⊕ ℕ)
  | .started, .desired =>
    match settings c key.2 key.1 with
    | none => (c, .inr 1)
    | some row => (c, .inl (.wanted row.desired))
  | .wanted want, .busy held => (c, if held then .inr capacityCode else .inl (.free want))
  | .free want, .requestedBy =>
    let reason := systemReason (((settings c key.2 key.1).map ServiceSwitch.actor).getD "")
    (c, .inl (.running want reason (toggleCommand key want reason)))
  | .running want reason _, .result code =>
    (c, if code = busyCode then .inr capacityCode else .inl (.ended want reason code))
  | .ended want reason code, .record stored now =>
    let (state, failure) := outcome key want code
    (if stored then recordOutcome c key state failure now else c,
      .inl (.recorded want reason code))
  | .recorded want reason code, .audit stored seconds now =>
    (if stored then outcomeAudit c key want reason code seconds now else c,
      .inr (if code = 0 then 0 else 1))
  | _, .killed => (c, .inr 1)
  | operator, _ => (c, .inl operator)

end Sbarbase.OnDemand
