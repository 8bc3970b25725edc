import Sbarbase.OnDemand.Policy
import Sbarbase.Lib.Tally
/-!
# Requests held while a service wakes

`ensure` and `wakeNow` of `src/control/on-demand.ts` with what they keep in
memory: the count of held requests of each environment, and the promises of the
wakes. A held request waits for the race of its wake and its timer, and gives its
place back in `finally`.
-/

namespace Sbarbase.OnDemand.Holding

open Lib Control

/-- How a promise settled: rejected, or with an outcome. -/
abbrev Settled := Except Unit Outcome

/-- A promise of `wake`. -/
structure Wake where
  key : Key
  turn : Option Turn
  settled : Option Settled
  /-- Its `finally` took it out of `waking`. -/
  forgotten : Bool
  deriving DecidableEq

/-- A call of `ensure` that took a place. -/
structure Request where
  key : Key
  wake : ℕ
  raced : Option Settled
  answered : Option Settled
  deriving DecidableEq

/-- What the console process keeps. -/
structure Gate where
  held : Dict String ℤ
  waking : Dict Key ℕ
  wakes : List Wake
  requests : List Request

def Gate.initial : Gate := ⟨∅, ∅, [], []⟩

/-- Where `ensure` throws: reading the mode, before a stop is called off, or after. -/
inductive EnsureFault
  | mode
  | before
  | after
  deriving DecidableEq

/-- Where a pass of `wakeNow` meets an exception. -/
inductive PassFault
  | row
  | running
  | window
  | request
  deriving DecidableEq

def unavailable : Outcome := retry "Service state unavailable"

def starting : Outcome := retry "The service is starting. Retry in a moment."

def tooManyWaiting : Outcome :=
  retry "Too many requests are waiting for this service to start. Retry shortly."

section

variable (options : Options)

/-- The place of a new request, and the wake that it waits for. -/
def Gate.hold (g : Gate) (key : Key) : Gate :=
  let held := g.held.raise key.2
  match g.waking.get key with
  | some wake => { g with held, requests := g.requests ++ [⟨key, wake, none, none⟩] }
  | none =>
    { held
      waking := g.waking.set key g.wakes.length
      wakes := g.wakes ++ [⟨key, none, none, false⟩]
      requests := g.requests ++ [⟨key, g.wakes.length, none, none⟩] }

/-- `ensure`, up to where it waits: `none` is a request that is held. -/
def ensure (ctx : Context) (g : Gate) (c : Catalog) (key : Key) (running : Bool)
    (fault : Option EnsureFault) : Option Settled × Gate × Catalog :=
  let mode := (c.serviceMode key.2 key.1).1
  if fault = some .mode then (some (.ok unavailable), g, c)
  else if fault = some .before then (some (.error ()), g, c)
  else if mode = .on ∧ (serviceRow c key.2 key.1).state = .on ∧ running = true then
    (some (.ok .up), g, c)
  else if mode ≠ .onDemand then
    (some (.ok (.refused 404 "Service is off for this environment" none)), g, c)
  else
    let c := callOff ctx c key running
    if fault = some .after then (some (.error ()), g, c)
    else if (serviceRow c key.2 key.1).state = .on ∧ running = true then (some (.ok .up), g, c)
    else if options.maxHeld < (g.held.get key.2).getD 0 + 1 then
      (some (.ok tooManyWaiting), g, c)
    else (none, g.hold key, c)

/-- One pass of the loop of `wakeNow`, which reads the clock as `now`; a request it
writes is recorded at the time of `ctx`. -/
def wakePass (now : ℤ) (ctx : Context) (c : Catalog) (turn : Turn) (running : Bool)
    (fault : Option PassFault) : Option Settled × Turn × Catalog :=
  let row := serviceRow c turn.key.2 turn.key.1
  if turn.deadline ≤ now then (some (.ok starting), turn, c)
  else if fault = some .row then (some (.ok unavailable), turn, c)
  else if fault = some .running ∧ row.state = .on then (some (.error ()), turn, c)
  else if row.state = .on ∧ running = true then (some (.ok .up), turn, c)
  else if row.state = .pending then (none, turn, c)
  else if turn.requested = true ∧ row.state = .failed then
    (some (.ok (.refused 503 ("Could not wake: " ++
      row.failure.getD "the service did not start" ++
      " The environment keeps working without it.") (some 30))), turn, c)
  else if turn.requested = true ∧ row.state = .off ∧ row.desired = false then
    (some (.ok (retry "The service could not be started. Retry shortly.")), turn, c)
  else if turn.requested = true then (none, turn, c)
  else if fault = some .window then (some (.ok unavailable), turn, c)
  else if options.wakesPerHour ≤ wakesInWindow c turn.key.2 turn.key.1 now then
    (some (.ok (.refused 429
      "This service has been woken too often in the last hour. Keep it On, or retry later."
      (some 600))), turn, c)
  else if fault = some .request then (some (.ok unavailable), turn, c)
  else
    match requestServiceChange ctx turn.key.2 turn.key.1 true "system:wake" .wake
        (row.state = .on) c with
    | (.error _, c) => (some (.ok unavailable), turn, c)
    | (.ok result, c) => (none, { turn with requested := decide (result = .requested) }, c)

/-- The wake whose turn it is on the chain. -/
def Gate.current (g : Gate) : Option ℕ := g.wakes.findIdx? fun wake => wake.settled.isNone

/-- `wakeNow` begins. -/
def Gate.start (g : Gate) (now : ℤ) : Gate :=
  match g.current with
  | none => g
  | some i =>
    { g with wakes := g.wakes.modify i fun wake =>
        { wake with turn := wake.turn.or (some ⟨wake.key, now + options.holdMs, false⟩) } }

/-- `wakeNow` makes a pass. -/
def Gate.pass (g : Gate) (now : ℤ) (ctx : Context) (c : Catalog) (running : Bool)
    (fault : Option PassFault) : Gate × Catalog :=
  match g.current, g.current.bind fun i => g.wakes[i]?.bind Wake.turn with
  | some i, some turn =>
    let (settled, turn, c) := wakePass options now ctx c turn running fault
    ({ g with wakes := g.wakes.modify i fun wake => { wake with turn := some turn, settled } }, c)
  | _, _ => (g, c)

end

/-- `finally(()=>{this.waking.delete(key);})` of a wake that settled. -/
def Gate.forget (g : Gate) (i : ℕ) : Gate :=
  match g.wakes[i]? with
  | some wake =>
    if wake.settled.isSome ∧ wake.forgotten = false then
      { g with
        waking := g.waking.delete wake.key
        wakes := g.wakes.modify i fun wake => { wake with forgotten := true } }
    else g
  | none => g

/-- The race of a request is decided, once. -/
def Gate.decide (g : Gate) (i : ℕ) (settled : Option Settled) : Gate :=
  match g.requests[i]? with
  | some request =>
    { g with requests := g.requests.set i { request with raced := request.raced.or settled } }
  | none => g

/-- The wake of a request settled. -/
def Gate.race (g : Gate) (i : ℕ) : Gate :=
  g.decide i (g.requests[i]?.bind fun request => g.wakes[request.wake]?.bind Wake.settled)

/-- The `finally` of a request: the place it took is given back. -/
def giveBack (held : Dict String ℤ) (runtime : String) : Dict String ℤ :=
  let remaining := (held.get runtime).getD 1 - 1
  if 0 < remaining then held.set runtime remaining else held.delete runtime

/-- A request goes on after its race. It answers what the race decided, or rejects
where `touch` throws. -/
def Gate.answer (g : Gate) (i : ℕ) (touchThrows : Bool) : Gate :=
  match g.requests[i]? with
  | some ⟨key, wake, some settled, none⟩ =>
    let answer := if settled = .ok .up ∧ touchThrows = true then .error () else settled
    { g with
      held := giveBack g.held key.2
      requests := g.requests.set i ⟨key, wake, some settled, some answer⟩ }
  | _ => g

/-! ## The machine -/

/-- A request of a person's call, written by a wake. -/
def isWakeOf (service : OnDemandService) (event : AuditEvent) : Bool :=
  event.action = service.text ++ ".wake_requested" &&
    decide (("reason", .text "wake") ∈ event.detail)

/-- Work elsewhere writes no wake and takes none out of the audit log. -/
def SameWakes (c c' : Catalog) : Prop :=
  ∀ service, c'.audit.filter (isWakeOf service) = c.audit.filter (isWakeOf service)

instance (c c' : Catalog) : Decidable (SameWakes c c') :=
  decidable_of_iff
    (c'.audit.filter (isWakeOf .realtime) = c.audit.filter (isWakeOf .realtime) ∧
      c'.audit.filter (isWakeOf .functions) = c.audit.filter (isWakeOf .functions))
    ⟨fun h service => by cases service <;> simp [h.1, h.2],
      fun h => ⟨h .realtime, h .functions⟩⟩

structure Console where
  catalog : Catalog
  gate : Gate

inductive Event
  | ensure (ctx : Context) (key : Key) (running : Bool) (fault : Option EnsureFault)
  | start (now : ℤ)
  | pass (now : ℤ) (ctx : Context) (running : Bool) (fault : Option PassFault)
  | forget (wake : ℕ)
  | timeout (request : ℕ)
  | race (request : ℕ)
  | answer (request : ℕ) (touchThrows : Bool)
  /-- The rest of the installation: owners, the sweeper, the supervisor. -/
  | elsewhere (c : Catalog)
  /-- The console process begins again. -/
  | restart

def machine (options : Options) : Machine Console Event where
  initial := ⟨.empty, .initial⟩
  step s
    | .ensure ctx key running fault =>
      let (_, gate, catalog) := ensure options ctx s.gate s.catalog key running fault
      ⟨catalog, gate⟩
    | .start now => { s with gate := s.gate.start options now }
    | .pass now ctx running fault =>
      let (gate, catalog) := s.gate.pass options now ctx s.catalog running fault
      ⟨catalog, gate⟩
    | .forget wake => { s with gate := s.gate.forget wake }
    | .timeout request => { s with gate := s.gate.decide request (some (.ok starting)) }
    | .race request => { s with gate := s.gate.race request }
    | .answer request touchThrows => { s with gate := s.gate.answer request touchThrows }
    | .elsewhere c => if SameWakes s.catalog c then { s with catalog := c } else s
    | .restart => { s with gate := .initial }

end Sbarbase.OnDemand.Holding
