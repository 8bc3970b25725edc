import Sbarbase.Lifecycle.Effects
/-!
# The catalog and its retained environments

The lifecycle of one environment in `src/control/catalog.ts`, with the effects
that the worker asks for (`runLifecycleOperation` of `src/control/lifecycle.ts`).
The worker asks for the effects of a pending operation in one order and skips
those marked done; here they come in any order and any number of times, each cut
short anywhere.
-/

namespace Sbarbase.Lifecycle

open Lib

/-! ## The inventory -/

/-- `/^[a-f0-9-]{36}$/` -/
def isIdentity (text : String) : Bool := matchesExactly (fun c => isHex c || c = '-') 36 text

def Kind.service : Kind → Option Service
  | .container service => some service
  | .tenant .. => none

def validItem (runtime : String) (item : Resource) : Bool :=
  item.runtime = runtime && isIdentity item.resource && isIdentity item.installation &&
    match item.kind with
    | .container service => item.id = containerName runtime service
    | .tenant database roles storageTenant =>
      item.id = runtime && database = runtime && storageTenant = runtime && roles.Nodup &&
        roles.all (fun name => name ∈ roleNames.map (roleName runtime)) &&
        requiredRoles.all fun suffix => roleName runtime suffix ∈ roles

def validateDurableInventory (runtime : String) (resources : List Resource) : Bool :=
  isRuntime runtime && 3 ≤ resources.length && resources.length ≤ 8 &&
    resources.all (validItem runtime) && (resources.map Resource.resource).Nodup &&
    resources.all (fun item => resources.all fun item' => item.installation = item'.installation) &&
    (resources.filterMap fun item => item.kind.service).Nodup &&
    (resources.filter fun item => item.kind.service = none).length = 1 &&
    [Service.auth, .rest].all fun service =>
      service ∈ resources.filterMap fun item => item.kind.service

/-! ## The catalog -/

/-- A row of `lifecycle_effects`. -/
structure EffectRow where
  operation : String
  resource : String
  done : Bool
  deriving DecidableEq

/-- One environment in the catalog and on its host. `began` is the host as it was
when the first effect of the last delete began, none before; `returned` are the
resources whose effect of the present operation has returned. -/
structure System where
  row : Row
  effects : List EffectRow
  host : Host
  began : Option Host
  returned : List Resource

namespace System

/-- `Lifecycle operation identity was already used`, or the identity of the row. -/
def Used (s : System) (operation : String) : Prop :=
  s.row.operation = operation ∨ ∃ effect ∈ s.effects, effect.operation = operation

instance (s : System) (operation : String) : Decidable (s.Used operation) :=
  inferInstanceAs (Decidable (_ ∨ _))

def pendingState (state : State) : Bool := state = .deleting || state = .restoring

def registerDurableInventory (s : System) (resources : List Resource) : System :=
  if validateDurableInventory s.row.runtime resources = true ∧ s.row.state = .active then
    { s with row := { s.row with resources, coverage := durableCoverage } }
  else s

/-- `deleteEnvironment`, with an identity that was never drawn before. -/
def deleteEnvironment (s : System) (operation : String) : System :=
  if s.row.state = .active ∧ s.row.coverage = durableCoverage ∧
      validateDurableInventory s.row.runtime s.row.resources = true ∧ ¬ s.Used operation then
    { s with
      row := { s.row with state := .deleting, epoch := s.row.epoch + 1, operation }
      began := none
      returned := [] }
  else s

/-- `requestLifecycle` of a restore. -/
def restoreEnvironment (s : System) (operation : String) : System :=
  if isUuid operation = true ∧ s.row.state = .deleted ∧ ¬ s.Used operation ∧
      validateDurableInventory s.row.runtime s.row.resources = true then
    { s with row := { s.row with state := .restoring, operation }, returned := [] }
  else s

def lifecycleEffect (s : System) (resource : String) (done : Bool) : System :=
  if pendingState s.row.state = true ∧ ∃ item ∈ s.row.resources, item.resource = resource then
    { s with
      effects := ⟨s.row.operation, resource, done⟩ ::
        s.effects.filter fun effect => (effect.operation, effect.resource) ≠
          (s.row.operation, resource) }
  else s

def done (s : System) (item : Resource) : Prop :=
  ⟨s.row.operation, item.resource, true⟩ ∈ s.effects

instance (s : System) (item : Resource) : Decidable (s.done item) :=
  inferInstanceAs (Decidable (_ ∈ _))

def finishLifecycle (s : System) : System :=
  if s.row.resources ≠ [] ∧ ∀ item ∈ s.row.resources, s.done item then
    match s.row.state with
    | .deleting => { s with row := { s.row with state := .deleted } }
    | .restoring => { s with row := { s.row with state := .active }, began := none }
    | _ => s
  else s

/-- The outcome that the worker expects of an action. -/
def expected : Action → Option Outcome
  | .quarantine => some .quarantined
  | .restore => some .restored
  | .inspect | .purge | .readiness => none

/-- What is noted of an effect that begins. -/
def begins (s : System) (request : Request) : System :=
  if s.began = none ∧ request.action = .quarantine ∧ checkRequest s.row request = .ok () then
    { s with began := some s.host }
  else s

/-- What is noted of an effect that returned. -/
def returns (s : System) (request : Request) (result : Result) : System :=
  if expected request.action = some result.outcome then
    { s with returned := request.resource :: s.returned }
  else s

/-- An effect that is cut short after some of its writes. -/
def attempt (s : System) (outside : Outside) (request : Request) (writes : ℕ) : System :=
  { s.begins request with host := (apply s.row outside request).cut writes s.host () }

/-- An effect that runs to its end; the worker may be gone before it marks it done. -/
def effect (s : System) (outside : Outside) (request : Request) (marked : Bool) : System :=
  let ran := apply s.row outside request s.host ()
  let s' := { s.begins request with host := ran.disk }
  match ran.outcome with
  | .error _ => s'
  | .ok result =>
    let s'' := s'.returns request result
    if marked = true ∧ expected request.action = some result.outcome then
      s''.lifecycleEffect request.resource.resource true
    else s''

end System

/-- The two hosts agree on all that is the environment's own. -/
def SameOwn (runtime : String) (host host' : Host) : Prop :=
  host'.journals.get runtime = host.journals.get runtime ∧
    (∀ service, host'.named (containerName runtime service) =
      host.named (containerName runtime service)) ∧
    (∀ suffix, host'.roles.get (roleName runtime suffix) =
      host.roles.get (roleName runtime suffix)) ∧
    host'.endpoints.get runtime = host.endpoints.get runtime

inductive Event
  | register (resources : List Resource)
  | delete (operation : String)
  | restore (operation : String)
  | pending (resource : String)
  | attempt (outside : Outside) (request : Request) (writes : ℕ)
  | effect (outside : Outside) (request : Request) (marked : Bool)
  | finish

namespace System

def step (s : System) : Event → System
  | .register resources => s.registerDurableInventory resources
  | .delete operation => s.deleteEnvironment operation
  | .restore operation => s.restoreEnvironment operation
  | .pending resource => s.lifecycleEffect resource false
  | .attempt outside request writes => s.attempt outside request writes
  | .effect outside request marked => s.effect outside request marked
  | .finish => s.finishLifecycle

/-- What others do to the host: never to a journal of the environment, and to nothing
of its own from the first effect of a delete to the end of the restore. -/
def Elsewhere (s : System) (host : Host) : Prop :=
  host.journals.get s.row.runtime = s.host.journals.get s.row.runtime ∧
    (s.began ≠ none → SameOwn s.row.runtime s.host host)

/-- The states of an environment that was never deleted, and what follows from them. -/
inductive Reached : System → Prop
  | start (s : System) (hstate : s.row.state = .active)
      (hjournal : s.host.journals.get s.row.runtime = none) (hbegan : s.began = none)
      (hreturned : s.returned = []) : Reached s
  | step (s : System) (event : Event) (h : Reached s) : Reached (s.step event)
  | outside (s : System) (host : Host) (h : Reached s) (helsewhere : s.Elsewhere host) :
      Reached { s with host }

end System

end Sbarbase.Lifecycle
