import Sbarbase.Lib.Dict
import Sbarbase.Lib.Machine
import Sbarbase.Lib.Table
import Sbarbase.Lib.Window
/-!
# The guard of the external listener

`ExternalGuard` of `http/database-external.ts`. A clock reading is a number of
milliseconds since 1970. What `enabled` answers comes with each call; `close` is
a callback of the caller, and the sessions that end while it runs come with the
sweep that calls it.
-/

namespace Sbarbase.Database

open Lib

structure GuardLimits where
  perAddress : ℕ
  total : ℕ
  windowMs : ℤ
  failures : ℕ
  lockMs : ℤ

def DEFAULT_LIMITS : GuardLimits where
  perAddress := 30
  total := 120
  windowMs := 10000
  failures := 10
  lockMs := 60000

inductive Outcome
  | ok
  | badPassword
  deriving DecidableEq

/-- An entry of the map of sessions, with its set. -/
structure OpenSessions (Close : Type*) where
  runtime : String
  closes : List Close

/-- The private fields. -/
structure ExternalGuard (Close : Type*) where
  address : Dict String (List ℤ)
  total : List ℤ
  failed : Dict String (List ℤ)
  locked : Dict String ℤ
  sessions : Table fun set : OpenSessions Close => set.runtime
  /-- The interval is set. -/
  sweeper : Bool

/-- What `admit` answers. -/
inductive Admission
  | admitted
  | refused (message : String)
  /-- `enabled` throws. -/
  | thrown
  deriving DecidableEq

namespace ExternalGuard

variable {Close : Type*} [DecidableEq Close]

/-- `accept`: nothing, or why the connection is refused. -/
def accept (guard : ExternalGuard Close) (limits : GuardLimits) (remote : String) (now : ℤ) :
    Option String × ExternalGuard Close :=
  let mine := recent limits.windowMs now ((guard.address.get remote).getD [])
  let total := recent limits.windowMs now guard.total
  if mine.length ≥ limits.perAddress ∨ total.length ≥ limits.total then
    (some "Too many connection attempts; try again shortly", { guard with total := total })
  else
    let address := guard.address.set remote (mine ++ [now])
    (none, { guard with
      address :=
        if address.keys.length > 1024 then
          address.filter fun _ list => (recent limits.windowMs now list).length ≠ 0
        else address
      total := total ++ [now] })

/-- The method `admit`. A lock that is not there is 0, which is false as well. -/
def admitRuntime (guard : ExternalGuard Close) (runtime : String) (now : ℤ)
    (enabled : Option Bool) : Admission × ExternalGuard Close :=
  let lock := (guard.locked.get runtime).getD 0
  if lock ≠ 0 ∧ lock > now then
    (.refused "Too many failed logins; try again in a minute", guard)
  else
    let guard := if lock ≠ 0 then { guard with locked := guard.locked.delete runtime } else guard
    match enabled with
    | none => (.thrown, guard)
    | some false => (.refused "External database access is not enabled for this environment", guard)
    | some true => (.admitted, guard)

/-- The set of a runtime, empty if it has none. -/
def closesOf (guard : ExternalGuard Close) (runtime : String) : List Close :=
  ((guard.sessions.get runtime).map (·.closes)).getD []

/-- `session`; what it returns is `release`. -/
def session (guard : ExternalGuard Close) (runtime : String) (close : Close) :
    ExternalGuard Close :=
  let set := guard.closesOf runtime
  { guard with
    sessions := guard.sessions.put ⟨runtime, if close ∈ set then set else set ++ [close]⟩
    sweeper := true }

/-- The function that `session` returns. -/
def release (guard : ExternalGuard Close) (runtime : String) (close : Close) :
    ExternalGuard Close :=
  let sessions :=
    match guard.sessions.get runtime with
    | none => guard.sessions
    | some set =>
      let closes := set.closes.filter (· ≠ close)
      if closes.length = 0 then guard.sessions.keep (·.runtime ≠ runtime)
      else guard.sessions.put ⟨runtime, closes⟩
  { guard with
    sessions := sessions
    sweeper := if sessions.rows.length = 0 then false else guard.sweeper }

/-- The variables of `sweep`: the guard, and the calls of `close` so far. -/
structure Sweep (Close : Type*) where
  guard : ExternalGuard Close
  closed : List (String × Close)

/-- `close()`, and the sessions that end while it runs. -/
def callClose (during : String → Close → List (String × Close)) (runtime : String)
    (pass : Sweep Close) (close : Close) : Sweep Close where
  guard :=
    (during runtime close).foldl (fun guard ended => release guard ended.1 ended.2) pass.guard
  closed := pass.closed ++ [(runtime, close)]

/-- The body of the loop over the entries. The set is read when its turn comes; a set
that lost its last session is empty. -/
def sweepEntry (enabled : String → Option Bool) (during : String → Close → List (String × Close))
    (pass : Sweep Close) (runtime : String) : Sweep Close :=
  if (enabled runtime).getD false then pass
  else (pass.guard.closesOf runtime).foldl (callClose during runtime) pass

/-- `sweep`. A reading of `enabled` that throws is none. -/
def sweep (guard : ExternalGuard Close) (enabled : String → Option Bool)
    (during : String → Close → List (String × Close)) : Sweep Close :=
  (guard.sessions.rows.map (·.runtime)).foldl (sweepEntry enabled during) ⟨guard, []⟩

def outcome (guard : ExternalGuard Close) (limits : GuardLimits) (runtime : String)
    (result : Outcome) (now : ℤ) : ExternalGuard Close :=
  match result with
  | .ok => guard
  | .badPassword =>
    let list := recent limits.lockMs now ((guard.failed.get runtime).getD []) ++ [now]
    let failed := guard.failed.set runtime list
    if list.length ≥ limits.failures then
      { guard with
        locked := guard.locked.set runtime (now + limits.lockMs)
        failed := failed.delete runtime }
    else { guard with failed := failed }

end ExternalGuard

/-! ## The calls over time -/

inductive Call (Close : Type*)
  | accept (remote : String)
  | admission (runtime remote : String) (enabled : Option Bool)
  | outcome (runtime remote : String) (result : Outcome)
  | session (runtime : String) (close : Close)
  | release (runtime : String) (close : Close)
  | sweep (enabled : String → Option Bool) (during : String → Close → List (String × Close))

/-- A call and the reading of the clock while it runs. -/
structure Event (Close : Type*) where
  now : ℕ
  call : Call Close

inductive Answer (Close : Type*)
  /-- Of `accept`. -/
  | accept (refusal : Option String)
  /-- Of `admit`. -/
  | admission (admission : Admission)
  /-- The calls of `close`, in their order. -/
  | closed (calls : List (String × Close))
  | nothing
  deriving DecidableEq

structure Entry (Close : Type*) extends Event Close where
  answer : Answer Close

/-- The guard and the calls it answered, oldest first. -/
structure Guarded (Close : Type*) where
  guard : ExternalGuard Close
  past : List (Entry Close)

section

variable {Close : Type*} [DecidableEq Close]

def answer (limits : GuardLimits) (guard : ExternalGuard Close) (e : Event Close) :
    Answer Close × ExternalGuard Close :=
  match e.call with
  | .accept remote =>
    let (refusal, guard) := guard.accept limits remote e.now
    (.accept refusal, guard)
  | .admission runtime _ enabled =>
    let (admission, guard) := guard.admitRuntime runtime e.now enabled
    (.admission admission, guard)
  | .outcome runtime _ result => (.nothing, guard.outcome limits runtime result e.now)
  | .session runtime close => (.nothing, guard.session runtime close)
  | .release runtime close => (.nothing, guard.release runtime close)
  | .sweep enabled during =>
    let pass := guard.sweep enabled during
    (.closed pass.closed, pass.guard)

/-- A guard from its construction on. -/
def calls (limits : GuardLimits) : Machine (Guarded Close) (Event Close) where
  initial := ⟨⟨∅, [], ∅, ∅, Table.empty, false⟩, []⟩
  step s e :=
    let (reply, guard) := answer limits s.guard e
    ⟨guard, s.past ++ [⟨e, reply⟩]⟩

end

/-! ## What the calls say -/

section

variable {Close : Type*} [DecidableEq Close]

/-- The time of an attempt that was accepted. -/
def Entry.accepted (entry : Entry Close) : Option (String × ℤ) :=
  match entry.call, entry.answer with
  | .accept remote, .accept none => some (remote, entry.now)
  | _, _ => none

/-- The times of the accepted attempts. -/
def accepted (past : List (Entry Close)) : List ℤ :=
  past.filterMap fun entry => entry.accepted.map Prod.snd

/-- The times of the accepted attempts of one address. -/
def acceptedOf (remote : String) (past : List (Entry Close)) : List ℤ :=
  past.filterMap fun entry => (entry.accepted.filter (·.1 = remote)).map Prod.snd

/-- The times of the bad passwords of a runtime. -/
def badPasswords (runtime : String) (past : List (Entry Close)) : List ℤ :=
  past.filterMap fun entry =>
    match entry.call with
    | .outcome other _ .badPassword => if other = runtime then some (entry.now : ℤ) else none
    | _ => none

/-- The bad passwords since the last lock, and the times of the locks. -/
structure Failures where
  since : List ℤ
  locks : List ℤ

/-- A bad password with which the number within `lockMs` since the last lock reaches
the limit is a lock. -/
def Failures.add (limits : GuardLimits) (f : Failures) (now : ℤ) : Failures :=
  if limits.failures ≤ (recent limits.lockMs now f.since).length + 1 then ⟨[], f.locks ++ [now]⟩
  else ⟨f.since ++ [now], f.locks⟩

/-- The failures of a runtime, none of them ever dropped. -/
def failures (limits : GuardLimits) (runtime : String) (past : List (Entry Close)) : Failures :=
  (badPasswords runtime past).foldl (Failures.add limits) ⟨[], []⟩

/-- The open sessions after one more call. -/
def openStep (sessions : List (String × Close)) (entry : Entry Close) : List (String × Close) :=
  match entry.call with
  | .session runtime close => sessions ++ [(runtime, close)]
  | .release runtime close => sessions.filter (· ≠ (runtime, close))
  | .sweep _ during =>
    match entry.answer with
    | .closed calls => sessions.filter fun pair => ¬ ∃ call ∈ calls, pair ∈ during call.1 call.2
    | _ => sessions
  | _ => sessions

/-- The sessions that were opened and have not ended. -/
def openSessions (past : List (Entry Close)) : List (String × Close) := past.foldl openStep []

end

end Sbarbase.Database
