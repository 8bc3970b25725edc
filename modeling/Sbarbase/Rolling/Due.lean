import Mathlib.Data.String.Basic
import Sbarbase.Rolling.Swap
/-!
# When a roll is due

`due`, `revivable` and `roll_once` of `lab/rolling.py`: the check the supervisor
makes every minute, and the run it starts. Both read the plan, the held records
and what stands around them. A call that raises is left out of both.
-/

namespace Sbarbase.Rolling

/-! ## The plan -/

/-- The services that can be replaced side by side. -/
inductive Service
  | auth
  | rest
deriving DecidableEq

/-- What the plan says of one environment's service. -/
inductive EntryState
  | old
  | new
  | failed
  | skipped
deriving DecidableEq

structure Entry where
  service : Service
  state : EntryState
  fromImage : String
  toImage : String
  reason : Option String
deriving DecidableEq

/-- `rolling-plan.json`. Environments and services stand under keys of their own. -/
structure Plan where
  environments : List (String × List Entry)
  stopped : Option String
  canary : Option String
deriving DecidableEq

/-- The pairs of environment and service, in the order of the plan. -/
def Plan.entries (plan : Plan) : List (String × Entry) :=
  plan.environments.flatMap fun environment => environment.2.map fun entry => (environment.1, entry)

/-- Change the entry of a service. -/
def Plan.change (plan : Plan) (e : String) (service : Service) (f : Entry → Entry) : Plan :=
  { plan with
    environments := plan.environments.map fun environment =>
      (environment.1, environment.2.map fun entry =>
        if environment.1 = e ∧ entry.service = service then f entry else entry) }

/-- The entry is on its previous pin, to be replaced. -/
def Plan.waits (plan : Plan) (e : String) (service : Service) : Bool :=
  plan.entries.any fun found =>
    found.1 = e && found.2.service = service && found.2.state = .old

/-- `[s for s in ('auth', 'rest') if s in services and services[s]['state'] == 'old']`. -/
def Plan.waiting (plan : Plan) (e : String) : List Service :=
  [.auth, .rest].filter (plan.waits e)

/-! ## What stands around the plan -/

/-- A swap record, and what `inspect` finds under the two names of its service. -/
structure Recorded where
  environment : String
  record : Record
  current : Option Container
  upcoming : Option Container
deriving DecidableEq

/-- The record and the containers are in a state `repair` recognises. -/
def Recorded.recognised (recorded : Recorded) : Bool :=
  (repairSteps recorded.record recorded.current recorded.upcoming).isSome

structure Situation where
  record : Option Recorded
  /-- The environments in `rolling-held.json`. -/
  held : List String
  plan : Option Plan
  published : String → Bool
  paused : String → Bool
  fenced : String → Bool
  /-- The container of the canonical name is there and runs. -/
  running : String → Service → Bool
  /-- The environment's Data API lock is taken. -/
  locked : String → Bool
  /-- `SBARBASE_ROLLING_CANARY`. -/
  wantedCanary : String

def SKIP_RECHECK_MAX : ℕ := 16

/-- The skipped entries whose container runs again, of the first `limit` skipped ones. -/
def revivable (running : String → Service → Bool) (plan : Plan) (limit : ℕ) : List (String × Service) :=
  (((plan.entries.filter fun found => found.2.state = .skipped).take limit).map fun found =>
    (found.1, found.2.service)).filter fun found => running found.1 found.2

/-- A roll could take the environment as far as `due` looks. -/
def Situation.free (s : Situation) (e : String) : Bool :=
  s.published e && !s.held.contains e && !s.paused e

/-- `due`. `recheck` says that skipped entries were not looked at for a while. -/
def due (s : Situation) (recheck : Bool) : Bool :=
  if s.record.isSome then true
  else
    match s.plan with
    | none => false
    | some plan =>
      if plan.stopped.isSome then false
      else if plan.entries.any fun found => found.2.state = .old && s.free found.1 then true
      else if recheck then (revivable s.running plan SKIP_RECHECK_MAX).any fun found => s.free found.1
      else false

/-! ## One roll -/

/-- The canary first, then the rest by name. -/
def order (plan : Plan) (wantedCanary : String) : Option String × List String :=
  let names := (plan.environments.map Prod.fst).mergeSort fun a b => decide (a ≤ b)
  let canary :=
    match plan.canary with
    | some canary => if names.contains canary then some canary
        else if names.contains wantedCanary then some wantedCanary else names.head?
    | none => if names.contains wantedCanary then some wantedCanary else names.head?
  match canary with
  | some canary => (some canary, canary :: names.filter fun e => e ≠ canary)
  | none => (none, names)

/-- How `swap` of one service ends. -/
inductive Swapped
  | replaced
  | skipped (reason : String)
  | failed (error : String)
deriving DecidableEq

inductive Exit
  | done
  | busy
  | idle
deriving DecidableEq

def Service.text : Service → String
  | .auth => "auth"
  | .rest => "rest"

/-- The waiting services of one environment, one after the other. The first
failure stops the plan. -/
def rollServices (swap : String → Service → Swapped) (e : String) : Plan → List Service → Plan × Bool
  | plan, [] => (plan, true)
  | plan, service :: waiting =>
    match swap e service with
    | .skipped reason =>
      rollServices swap e
        (plan.change e service fun entry => { entry with state := .skipped, reason := some reason }) waiting
    | .failed error =>
      ({ plan.change e service fun entry => { entry with state := .failed } with
          stopped := some (e ++ " " ++ service.text ++ ": " ++ error) }, false)
    | .replaced =>
      rollServices swap e (plan.change e service fun entry => { entry with state := .new }) waiting

/-- `roll_environment`, with the plan that is left. A plan that is all new goes. -/
def rollEnvironment (swap : String → Service → Swapped) (plan : Plan) (e : String)
    (waiting : List Service) : Option Plan :=
  match rollServices swap e plan waiting with
  | (plan, true) => if plan.entries.all fun found => found.2.state = .new then none else some plan
  | (plan, false) => some plan

/-- What a roll did. -/
structure Roll where
  /-- A swap record was repaired or moved aside. -/
  settled : Bool
  /-- The skipped entries that were taken back. -/
  revived : List (String × Service)
  /-- The environment whose services it went on to replace. -/
  tried : Option String
  plan : Option Plan
  code : Exit
deriving DecidableEq

/-- The environments held after `repair_or_hold`. -/
def Situation.heldAfter (s : Situation) : List String :=
  match s.record with
  | some recorded => if recorded.recognised then s.held else recorded.environment :: s.held
  | none => s.held

/-- Take the skipped entries back. -/
def Plan.revive (plan : Plan) (found : List (String × Service)) : Plan :=
  found.foldl
    (fun plan pair => plan.change pair.1 pair.2 fun entry => { entry with state := .old, reason := none })
    plan

def rollOnce (swap : String → Service → Swapped) (s : Situation) : Roll :=
  let settled := s.record.isSome
  let held := s.heldAfter
  match s.plan with
  | none => ⟨settled, [], none, none, .idle⟩
  | some plan =>
    if plan.stopped.isSome then ⟨settled, [], none, some plan, .idle⟩
    else
      let revived := revivable s.running plan SKIP_RECHECK_MAX
      let plan := plan.revive revived
      let ordered := order plan s.wantedCanary
      let plan := { plan with canary := ordered.1 }
      match ordered.2.find? fun e => plan.waiting e ≠ [] && !(held.contains e || !s.published e || s.paused e) &&
          !s.fenced e with
      | none => ⟨settled, revived, none, some plan, .idle⟩
      | some e =>
        -- the plan with its canary is written with the first entry that changes
        if s.locked e then ⟨settled, revived, some e, some { plan with canary := (s.plan.bind Plan.canary) }, .busy⟩
        else ⟨settled, revived, some e, rollEnvironment swap plan e (plan.waiting e), .done⟩

/-- The run repaired or moved aside a record, took an entry back, or went on to
replace a service. -/
def Roll.Acts (roll : Roll) : Prop := roll.settled = true ∨ roll.revived ≠ [] ∨ roll.tried.isSome

instance (roll : Roll) : Decidable roll.Acts := inferInstanceAs (Decidable (_ ∨ _ ∨ _))

end Sbarbase.Rolling
