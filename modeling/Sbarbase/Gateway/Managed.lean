import Sbarbase.Gateway.Handler
/-!
# The gateway over the control plane

`managedGateway` of `src/gateway/managed.ts`. The gateway asks the catalog, the keys
and the services anew after every await: a `Moment` is what they answer then. The
awaits of a request are the wake of a service that sleeps, and what comes before the
transport (the concurrency gate and the body).
-/

namespace Sbarbase.Gateway.Handler

open Lib Lib.Checked

/-- What is answered for one runtime at one moment. `route` is `routeWithPlacement`,
`keys` is `KeyStore.resolve`, `none` when it throws. -/
structure Moment where
  ready : Bool
  deleted : Bool
  epoch : ℤ
  keys : String → Option KeyVerdict
  dedicated : Bool
  maintenance : Bool
  route : Option EnvironmentRoute
  draining : Bool
  onDemand : Service → Bool
  publicFunction : String → Bool

/-- The answer of `ensure`, a refusal with its status and message, and whether it woke the
service. -/
structure Ensured where
  woke : Bool
  refusal : Option (ℕ × String)
  deriving DecidableEq

/-- What happens at the awaits: `body` is the refusal of the concurrency gate or of the
body, and `transport` the moment at which the transport is called. -/
structure Awaits where
  ensured : Ensured
  after : Moment
  body : Option (ℕ × String)
  transport : Moment

inductive Answer
  | refused (refusal : Refusal)
  | preflight
  | sent (dispatch : Dispatch)
  deriving DecidableEq

structure Outcome where
  woke : Bool
  answer : Answer
  deriving DecidableEq

/-- A service that a request of it may wake. -/
def wakeable : Service → Bool
  | .functions => true
  | .realtime => true
  | _ => false

/-- `may`: the request carries a verified key, or calls a function without one that its
owner made public. -/
def mayWake (moment : Moment) (service : Service) (path : String) (access : Access) : Bool :=
  access.apiKey.isSome || (service = .functions && access.keylessFunction &&
    moment.publicFunction (firstSegment path))

/-- The service is on demand and the request may wake it. -/
def asks (moment : Moment) (request : Request) (service : Service) (path : String)
    (access : Access) : Bool :=
  wakeable service && request.method ≠ "OPTIONS" && moment.onDemand service &&
    mayWake moment service path access

def Moment.allows (moment : Moment) (epoch : ℤ) : Bool := moment.ready && moment.epoch = epoch

/-- The keys as the second pass asks for them. -/
def Moment.verify (moment : Moment) (epoch : ℤ) (key : String) : Option KeyVerdict :=
  if moment.allows epoch then moment.keys key else some .null

def drainRefusal : Refusal :=
  ⟨503, "Edge Functions are being turned off. Retry shortly.", .other⟩

/-- The checks before a wake, with the service, its path and the access. -/
def enter (first : Moment) (request : Request) :
    Except Refusal (String × Service × String × Access) := do
  let runtime := firstSegment request.pathname
  require (runtime ≠ "" ∧ first.ready = true)
    (if runtime ≠ "" ∧ first.deleted = true then invalidKey
      else ⟨404, "Unknown environment", .route⟩)
  let (_, service, path) ← found (parsePath request.pathname) ⟨404, "Unknown route", .route⟩
  let access ← gatewayKeyAccess request service path first.keys
  require (first.dedicated = false) ⟨503, if access.apiKey.isNone then
    "Environment routing unavailable" else "Native dedicated placement is not admitted", .other⟩
  require (first.maintenance = false) ⟨503, "Environment temporarily paused", .other⟩
  require (first.route.isSome = true) ⟨503, "Environment routing unavailable", .other⟩
  require (¬ (service = .functions ∧ request.method ≠ "OPTIONS" ∧ first.draining = true))
    drainRefusal
  return (runtime, service, path, access)

/-- `createGateway` with the guarded transport. -/
def forward (parseUrl : String → Option Url) (runtime : String) (epoch : ℤ) (moment : Moment)
    (awaits : Awaits) (request : Request) : Answer :=
  match moment.route with
  | none => .refused ⟨503, "Environment routing unavailable", .other⟩
  | some route =>
    match gatewayHandler parseUrl (fun environment => if environment = runtime then some route else none)
        (fun _ key => moment.verify epoch key) request with
    | .error refusal => .refused refusal
    | .ok none => .preflight
    | .ok (some handed) =>
      match awaits.body with
      | some (status, message) => .refused ⟨status, message, .other⟩
      | none => if awaits.transport.allows epoch then .sent handed else .refused invalidKey

def managedGateway (parseUrl : String → Option Url) (first : Moment) (awaits : Awaits)
    (request : Request) : Outcome :=
  match enter first request with
  | .error refusal => ⟨false, .refused refusal⟩
  | .ok (runtime, service, path, access) =>
    if asks first request service path access then
      ⟨awaits.ensured.woke,
        match awaits.ensured.refusal with
        | some (status, message) => .refused ⟨status, message, .other⟩
        | none =>
          if awaits.after.allows first.epoch then
            forward parseUrl runtime first.epoch awaits.after awaits request
          else .refused invalidKey⟩
    else ⟨false, forward parseUrl runtime first.epoch first awaits request⟩

end Sbarbase.Gateway.Handler
