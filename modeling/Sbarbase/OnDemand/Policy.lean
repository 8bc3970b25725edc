import Sbarbase.OnDemand.Supervisor
import Sbarbase.Lib.Dict
/-!
# The On demand policy

`src/control/on-demand.ts`: `ensure` holds a request while its service wakes,
the wakes take turns on one chain, and `sweep` puts quiet services to sleep or,
with the kill switch on, wakes what sleeps. Each definition here is a part of
the code that runs without a pause; the pauses lie between them.

Which containers answer (`running`) and whether a service was quiet are asked of
the gateway, so they are parameters.
-/

namespace Sbarbase.OnDemand

open Lib Control

/-- `OnDemandOptions`, with the values of `on-demand-policy.ts`. -/
structure Options where
  holdMs : ℤ := 20000
  maxHeld : ℕ := 64
  wakesPerHour : ℕ := 6

def retryAfterSeconds : ℤ := 2

def retryFailedMs : ℤ := 10 * 60000

inductive Outcome
  | up
  | refused (status : ℕ) (message : String) (retryAfter : Option ℤ)
  deriving DecidableEq

def retry (message : String) : Outcome := .refused 503 message (some retryAfterSeconds)

/-- A wake that has its turn on the chain. -/
structure Turn where
  key : Key
  deadline : ℤ
  requested : Bool
  deriving DecidableEq

/-- What one console process keeps: the held requests, the wakes that wait for
their turn, the wake that has it, and when sleep was last decided. -/
structure Policy where
  held : List Key
  waiting : List Key
  current : Option Turn
  lastSleepSweep : ℤ
  deriving DecidableEq

def Policy.initial : Policy := ⟨[], [], none, 0⟩

namespace Policy

/-- `held.get(runtime)` -/
def heldFor (p : Policy) (runtime : String) : ℕ := p.held.countP fun key => key.2 = runtime

/-- `waking`: the wakes that have not settled. -/
def waking (p : Policy) (key : Key) : Bool :=
  key ∈ p.waiting || p.current.any fun turn => turn.key = key

/-- One held request stops waiting. -/
def release (p : Policy) (key : Key) : Policy := { p with held := p.held.erase key }

/-- The wake that had its turn is over, and so are the requests it held. -/
def settle (p : Policy) (key : Key) : Policy :=
  { p with held := p.held.filter (· ≠ key), current := none }

/-- The turn that runs, or the one that begins now. -/
def turn (p : Policy) (options : Options) (now : ℤ) : Option Turn :=
  match p.current with
  | some turn => some turn
  | none => p.waiting.head?.map fun key => ⟨key, now + options.holdMs, false⟩

/-- The chain once that turn runs. -/
def running (p : Policy) (turn : Turn) : Policy :=
  { p with
    waiting := if p.current.isNone then p.waiting.tail else p.waiting
    current := some turn }

end Policy

section

variable (options : Options) (ctx : Context)

/-! ## A request arrives -/

/-- The sleeper's stop is called off: Edge Functions only. -/
def callOff (c : Catalog) (key : Key) (running : Bool) : Catalog :=
  let row := serviceRow c key.2 key.1
  if key.1 = .functions ∧ row.state = .pending ∧ row.desired = false ∧ running = true then
    (cancelSleep ctx key.2 key.1).after c
  else c

/-- `ensure`, up to where it waits: `none` is a request that is held. -/
def ensure (p : Policy) (c : Catalog) (key : Key) (running : Bool) :
    Option Outcome × Policy × Catalog :=
  let mode := (c.serviceMode key.2 key.1).1
  if mode = .on ∧ (serviceRow c key.2 key.1).state = .on ∧ running = true then (some .up, p, c)
  else if mode ≠ .onDemand then
    (some (.refused 404 "Service is off for this environment" none), p, c)
  else
    let c := callOff ctx c key running
    if (serviceRow c key.2 key.1).state = .on ∧ running = true then (some .up, p, c)
    else if options.maxHeld < p.heldFor key.2 + 1 then
      (some (retry "Too many requests are waiting for this service to start. Retry shortly."),
        p, c)
    else
      let waiting := if p.waking key then p.waiting else p.waiting ++ [key]
      (none, { p with held := p.held ++ [key], waiting }, c)

/-! ## A wake has its turn -/

/-- One pass of the loop of `wakeNow`: the outcome that ends it, if it ends. -/
def wakePass (c : Catalog) (turn : Turn) (running : Bool) : Option Outcome × Turn × Catalog :=
  let row := serviceRow c turn.key.2 turn.key.1
  if turn.deadline ≤ ctx.now then
    (some (retry "The service is starting. Retry in a moment."), turn, c)
  else if row.state = .on ∧ running = true then (some .up, turn, c)
  else if row.state = .pending then (none, turn, c)
  else if turn.requested = true ∧ row.state = .failed then
    (some (.refused 503 ("Could not wake: " ++ row.failure.getD "the service did not start" ++
      " The environment keeps working without it.") (some 30)), turn, c)
  else if turn.requested = true ∧ row.state = .off ∧ row.desired = false then
    (some (retry "The service could not be started. Retry shortly."), turn, c)
  else if turn.requested = true then (none, turn, c)
  else if options.wakesPerHour ≤ wakesInWindow c turn.key.2 turn.key.1 ctx.now then
    (some (.refused 429
      "This service has been woken too often in the last hour. Keep it On, or retry later."
      (some 600)), turn, c)
  else
    match requestServiceChange ctx turn.key.2 turn.key.1 true "system:wake" .wake
        (row.state = .on) c with
    | (.error _, c) => (some (retry "Service state unavailable"), turn, c)
    | (.ok result, c) => (none, { turn with requested := decide (result = .requested) }, c)

/-- The chain moves on: the turn that runs makes a pass, or the next one begins
with its first pass. -/
def wakeNow (p : Policy) (c : Catalog) (running : Bool) : Policy × Catalog :=
  match p.turn options ctx.now with
  | none => (p, c)
  | some turn =>
    match wakePass options ctx c turn running with
    | (some _, turn, c) => ((p.running turn).settle turn.key, c)
    | (none, turn, c) => (p.running turn, c)

/-! ## The sweep -/

/-- What a sweep has done so far. -/
structure Sweep where
  catalog : Catalog
  pending : Bool
  slept : ℕ
  woke : ℕ

/-- A start that failed lately is not tried again yet. -/
def failedLately (row : ServiceRow) : Bool :=
  row.state = .failed && decide (ctx.now - row.updatedAt.getD 0 < retryFailedMs)

section

variable (killed sleepDue : Bool) (running quiet : Target → Bool)

/-- The body of the loop of `sweep`. -/
def sweepTarget (sweep : Sweep) (target : Target) : Sweep :=
  let row := serviceRow sweep.catalog target.runtime target.service
  let running := row.state = .on ∧ running target = true
  if row.state = .pending then { sweep with pending := true }
  else if killed = true ∧ failedLately ctx row = true then sweep
  else if killed = true then
    if ¬ running ∧ sweep.pending = false then
      match requestServiceChange ctx target.runtime target.service true "system:kill-switch"
          .killSwitch false sweep.catalog with
      | (.ok .requested, catalog) => { sweep with catalog, pending := true, woke := sweep.woke + 1 }
      | (_, catalog) => { sweep with catalog }
    else sweep
  else if sleepDue = true ∧ running ∧
      target.idleMinutes * 60000 ≤ ctx.now - row.updatedAt.getD 0 ∧ quiet target = true then
    match requestServiceChange ctx target.runtime target.service false "system:idle" .idle false
        sweep.catalog with
    | (.ok .requested, catalog) => { sweep with catalog, slept := sweep.slept + 1 }
    | (_, catalog) => { sweep with catalog }
  else sweep

end

def sweep (p : Policy) (c : Catalog) (running quiet : Target → Bool) : Sweep × Policy :=
  let killed := killSwitch c
  let sleepDue := decide (60000 ≤ ctx.now - p.lastSleepSweep)
  ((onDemandTargets c).foldl (sweepTarget ctx killed sleepDue running quiet) ⟨c, false, 0, 0⟩,
    if sleepDue = true ∧ killed = false then { p with lastSleepSweep := ctx.now } else p)

end

/-!
## The installation as a machine

One console process with its policy, the catalog, and the operators that the
supervisor started, at most one for each service of an environment. `restart`
is a console process that began again; `elsewhere` stands for the operations
that write none of the settings rows.
-/

structure Installation where
  catalog : Catalog
  policy : Policy
  operators : Dict Key Operator
  /-- The last request written on a service since its operator read the row. The
  code does not keep this. -/
  newer : Key → Option ServiceSwitch

inductive Event
  | ensure (ctx : Context) (key : Key) (running : Bool)
  | wake (ctx : Context) (running : Bool)
  /-- A held request waited long enough. -/
  | expire (key : Key)
  | sweep (ctx : Context) (running quiet : Target → Bool)
  | request (ctx : Context) (actor environment : String) (service : OnDemandService) (on : Bool)
  | setServiceMode (ctx : Context) (actor environment : String) (service : OnDemandService)
      (mode : Mode) (idle : Option ℤ)
  | elsewhere (c : Catalog)
  | restart
  /-- The supervisor starts an operator for a row it found pending a moment ago. -/
  | schedule (key : Key)
  | operator (key : Key) (step : OperatorStep)

/-- The request that a service's row carries and did not carry before. -/
def written (before after : Catalog) (key : Key) : Option ServiceSwitch :=
  (settings after key.2 key.1).filter fun row =>
    row.state = .pending && settings before key.2 key.1 ≠ some row

namespace Installation

/-- A step of the catalog, and the requests it wrote. -/
def withCatalog (s : Installation) (c : Catalog) : Installation :=
  { s with
    catalog := c
    newer := fun key => (written s.catalog c key).or (s.newer key) }

/-- A step of the operator of a service. -/
def operate (s : Installation) (key : Key) (step : OperatorStep) : Installation :=
  match s.operators.get key with
  | none => s
  | some operator =>
    let newer := fun other =>
      if operator = .started ∧ step = .desired ∧ other = key then none else s.newer other
    match applyStep key s.catalog operator step with
    | (catalog, .inl next) =>
      { s with catalog, newer, operators := s.operators.set key next }
    | (catalog, .inr _) => { s with catalog, newer, operators := s.operators.delete key }

end Installation

def machine (options : Options) : Machine Installation Event where
  initial := ⟨.empty, .initial, ∅, fun _ => none⟩
  step s
    | .ensure ctx key running =>
      let (_, policy, catalog) := ensure options ctx s.policy s.catalog key running
      { s.withCatalog catalog with policy }
    | .wake ctx running =>
      let (policy, catalog) := wakeNow options ctx s.policy s.catalog running
      { s.withCatalog catalog with policy }
    | .expire key => { s with policy := s.policy.release key }
    | .sweep ctx running quiet =>
      let (sweep, policy) := sweep ctx s.policy s.catalog running quiet
      { s.withCatalog sweep.catalog with policy }
    | .request ctx actor environment service on =>
      s.withCatalog ((requestSettings ctx service actor environment on).after s.catalog)
    | .setServiceMode ctx actor environment service mode idle =>
      s.withCatalog
        ((setServiceMode ctx actor environment service mode idle).after s.catalog)
    | .elsewhere c => { s with catalog := { c with switches := s.catalog.switches } }
    | .restart => { s with policy := .initial }
    | .schedule key =>
      if s.operators.has key then s
      else { s with operators := s.operators.set key .started }
    | .operator key step => s.operate key step

end Sbarbase.OnDemand
