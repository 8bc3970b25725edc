import Mathlib.Logic.Function.Basic
import Sbarbase.Lib.Machine
/-!
# The runner of an environment

`EnvironmentRunner` of `scheduler/runner.ts`. A step goes from one `await` to the
next. The bookkeeping session carries one statement at a time, in the order of
the queue. What the database, the clock and the other connections answer comes
with each event.
-/

namespace Sbarbase.Scheduler.Runner

open Lib

def MAX_RUNNING : ℕ := 2

def MAX_REQUESTS : ℕ := 8

structure JobState where
  text : String
  pending : Bool
  running : Bool

inductive Status
  | starting
  | running
  | succeeded
  | failed
  deriving DecidableEq

/-- Who waits for a finish. -/
inductive Caller
  | execute
  | terminate
  deriving DecidableEq

/-- The `await` that `execute` is at; `over` after its `finally`. -/
inductive Phase
  | selecting
  | inserting
  | opening
  | marking
  | working
  | finishing (status : Status)
  | over
  deriving DecidableEq

/-- The `await` that `end` is at, if it was called. -/
inductive Ender
  | idle
  | killing
  | asking
  | lastResort
  | recording
  | done
  deriving DecidableEq

/-- A run. Its row is numbered like it, for it inserts one at most; `runid` and `pid`
say that theirs is not null. -/
structure Run where
  jobid : ℕ
  phase : Phase
  runid : Bool
  pid : Bool
  ended : Bool
  ender : Ender
  deriving DecidableEq

/-- A row, with the terminal statuses it got one after the other, and whether a statement
that inserted it or was to record its end failed. -/
structure Row where
  status : Status
  terminals : List Status
  failed : Bool
  deriving DecidableEq

inductive Statement
  | jobs
  | drain (room : ℕ)
  | prune (more : Bool)
  | select (run : ℕ)
  | insert (run : ℕ)
  | mark (run : ℕ)
  | finish (run : ℕ) (status : Status) (caller : Caller)
  | kill (run : ℕ)
  | response
  deriving DecidableEq

/-- The `await` that the loop is at. -/
inductive Loop
  | off
  | pausing
  | ticking
  | ended
  deriving DecidableEq

/-- What `stop` waits for. -/
inductive Stop
  | no
  | waiting (runs : List ℕ)
  | finished

structure State where
  jobs : ℕ → Option JobState
  count : ℕ
  run : ℕ → Run
  row : ℕ → Option Row
  queue : List Statement
  book : Bool
  loop : Loop
  stop : Stop
  requests : ℕ
  sending : ℕ

def Run.none : Run := ⟨0, .over, false, false, false, .idle⟩

def State.initial : State where
  jobs := fun _ => .none
  count := 0
  run := fun _ => .none
  row := fun _ => .none
  queue := []
  book := false
  loop := .off
  stop := .no
  requests := 0
  sending := 0

namespace State

variable (s : State)

def runs : List ℕ := (List.range s.count).filter fun id => (s.run id).phase ≠ .over

def stopping : Bool :=
  match s.stop with
  | .no => false
  | _ => true

def setRun (id : ℕ) (run : Run) : State := { s with run := Function.update s.run id run }

def setRow (id : ℕ) (row : Option Row) : State := { s with row := Function.update s.row id row }

/-- `this.sql`, whose statement waits for those before it. -/
def sql (statement : Statement) : State := { s with queue := s.queue ++ [statement] }

/-- The `finally` of `execute`. -/
def conclude (id : ℕ) : State :=
  let run := s.run id
  -- the state of a running job is never deleted, so that the job names it
  { s.setRun id { run with phase := .over } with
    jobs := Function.update s.jobs run.jobid
      ((s.jobs run.jobid).map fun job => { job with running := false }) }

/-- `finish` called by `execute`, with a message. -/
def finishExecute (id : ℕ) (status : Status) : State :=
  let run := s.run id
  if run.runid then
    (s.setRun id { run with runid := false, phase := .finishing status }).sql
      (.finish id status .execute)
  else s.conclude id

/-- The `catch` of `execute`. -/
def failRun (id : ℕ) : State :=
  if (s.run id).ended then s.conclude id else s.finishExecute id .failed

/-- `finish` called by `end`, when the backend was ended. -/
def finishEnd (id : ℕ) : State :=
  let run := s.run id
  if run.runid then
    (s.setRun id { run with runid := false, ender := .recording }).sql
      (.finish id .failed .terminate)
  else s.setRun id { run with ender := .done }

/-- `end` -/
def endRun (id : ℕ) : State :=
  let run := s.run id
  if run.ended then s
  else if run.pid then s.setRun id { run with ended := true, ender := .killing }
  else (s.setRun id { run with ended := true }).finishEnd id

/-- The call of `execute` for a job that is due. -/
def startRun (jobid : ℕ) (job : JobState) : State :=
  { s with
    jobs := Function.update s.jobs jobid (some { job with pending := false, running := true })
    count := s.count + 1
    run := Function.update s.run s.count ⟨jobid, .selecting, false, false, false, .idle⟩
    queue := s.queue ++ [.select s.count] }

/-- The loop at the end of `tick` that starts what is due. -/
def startRuns (s : State) : List (ℕ × String) → State
  | [] => s
  | (jobid, _) :: rows =>
    if s.stopping ∨ MAX_RUNNING ≤ s.runs.length then s
    else
      match s.jobs jobid with
      | none => startRuns s rows
      | some job =>
        if job.pending ∧ !job.running then startRuns (s.startRun jobid job) rows
        else startRuns s rows

/-- The rows of `cron.job` are read again: a changed schedule changes its state in place. -/
def reload (s : State) : List (ℕ × String) → State
  | [] => s
  | (jobid, schedule) :: rows =>
    let job : JobState :=
      match s.jobs jobid with
      | none => ⟨schedule, false, false⟩
      | some job => if job.text ≠ schedule then { job with text := schedule, pending := false }
        else job
    reload { s with jobs := Function.update s.jobs jobid (some job) } rows

/-- Jobs that are gone are forgotten, unless they run. -/
def forget (seen : List ℕ) : State :=
  { s with jobs := fun jobid => (s.jobs jobid).filter fun job => jobid ∈ seen || job.running }

/-- Jobs that became due. -/
def due (isDue : ℕ → Bool) : State :=
  { s with jobs := fun jobid => (s.jobs jobid).map fun job =>
      { job with pending := job.pending || isDue jobid } }

/-- The statement for a finished row, and the row as its statement leaves it. -/
def sweepRow (row : Row) : Row :=
  match row.status with
  | .starting | .running => { row with status := .failed, terminals := row.terminals ++ [.failed] }
  | _ => row

/-- What `open` does to the rows it finds, with no run in flight. -/
def sweep : State :=
  if s.runs = [] then { s with row := fun id => (s.row id).map sweepRow } else s

end State

/-- What is answered to a statement. A statement that failed may have taken effect, and may
have ended the session. -/
structure Answer where
  ok : Bool
  effect : Bool
  ended : Bool
  rows : List (ℕ × String)
  isDue : ℕ → Bool
  policy : Bool
  prune : Bool
  found : Bool
  developer : Bool
  taken : ℕ

namespace State

variable (s : State) (answer : Answer)

/-- The end of `tick`, before its pruning. -/
def pruneOrPause : State :=
  if answer.prune then s.sql (.prune true) else { s with loop := .pausing }

/-- `tick` after its first statement. -/
def tick : State :=
  let seen := answer.rows.map Prod.fst
  let s := (((s.reload answer.rows).forget seen).due answer.isDue).startRuns answer.rows
  let room := MAX_REQUESTS - s.requests
  if !answer.policy ∨ s.stopping ∨ room = 0 then s.pruneOrPause answer else s.sql (.drain room)

/-- `tick` threw. -/
def tickFailed : State := { s with book := false, loop := .pausing }

/-- What a statement does to the rows. -/
def apply (ok : Bool) : Statement → State
  | .insert id => s.setRow id (some ⟨.starting, [], !ok⟩)
  | .mark id => s.setRow id ((s.row id).map fun row => { row with status := .running })
  | .finish id status _ => s.setRow id ((s.row id).map fun row =>
      { row with status := status, terminals := row.terminals ++ [status] })
  | _ => s

/-- The row of a finish that failed. -/
def spoil : Statement → State
  | .finish id _ _ => s.setRow id ((s.row id).map fun row => { row with failed := true })
  | _ => s

/-- What waits for a statement goes on. -/
def resume (answer : Answer) : Statement → State
  | .jobs => if answer.ok then s.tick answer else s.tickFailed
  | .drain room =>
    if answer.ok then
      { s with
        requests := s.requests + min answer.taken room
        sending := s.sending + min answer.taken room }.pruneOrPause answer
    else s.tickFailed
  | .prune more =>
    if !answer.ok then s.tickFailed
    else if more then s.sql (.prune false)
    else { s with loop := .pausing }
  | .select id =>
    if !answer.ok then s.failRun id
    else if !answer.found then s.conclude id
    else (s.setRun id { s.run id with phase := .inserting }).sql (.insert id)
  | .insert id =>
    if !answer.ok then s.failRun id
    else
      let s := s.setRun id { s.run id with runid := true }
      if s.stopping ∨ !answer.developer then s.failRun id
      else s.setRun id { s.run id with phase := .opening }
  | .mark id =>
    if !answer.ok then s.failRun id else s.setRun id { s.run id with phase := .working }
  | .finish id _ .execute => s.conclude id
  | .finish id _ .terminate => s.setRun id { s.run id with ender := .done }
  | .kill id =>
    if answer.ok then s.finishEnd id else s.setRun id { s.run id with ender := .lastResort }
  | .response => { s with requests := s.requests - 1 }

/-- The first statement of the queue is answered. -/
def settle (statement : Statement) : State :=
  let s := if answer.ok ∨ answer.effect then s.apply answer.ok statement else s
  let s := if answer.ok then s else s.spoil statement
  s.resume answer statement

end State

inductive Event
  | start
  | wake
  /-- A session was opened for the first statement of the queue, or could not be. -/
  | opened (ok swept : Bool)
  | answered (answer : Answer)
  | runOpened (run : ℕ) (ok : Bool)
  | commandEnded (run : ℕ) (ok : Bool)
  | deadline (run : ℕ)
  | killed (run : ℕ)
  | killFailed (run : ℕ)
  | requestSent
  | stop
  | stopFinished

/-- The answer to a statement that was not sent. -/
def Answer.unsent : Answer where
  ok := false
  effect := false
  ended := false
  rows := []
  isDue := fun _ => false
  policy := false
  prune := false
  found := false
  developer := false
  taken := 0

def step (s : State) : Event → State
  | .start =>
    if s.loop ≠ .off then s
    else if s.stopping then { s with loop := .ended }
    else { s with loop := .ticking }.sql .jobs
  | .wake =>
    if s.loop ≠ .pausing then s
    else if s.stopping then { s with loop := .ended }
    else { s with loop := .ticking }.sql .jobs
  | .opened ok swept =>
    match s.queue with
    | [] => s
    | statement :: queue =>
      if s.book then s
      else if ok ∧ ¬ (s.stopping ∧ s.loop = .off) then { s.sweep with book := true }
      else
        let s := if swept then s.sweep else s
        { s with queue := queue }.settle .unsent statement
  | .answered answer =>
    match s.queue with
    | [] => s
    | statement :: queue =>
      if answer.ok ∧ !s.book then s
      else { s with queue := queue, book := s.book && (answer.ok || !answer.ended) }.settle answer
        statement
  | .runOpened id ok =>
    let run := s.run id
    if run.phase ≠ .opening then s
    else if !ok then s.failRun id
    else
      let s := s.setRun id { run with pid := true }
      if run.ended then s.failRun id
      else (s.setRun id { s.run id with phase := .marking }).sql (.mark id)
  | .commandEnded id ok =>
    if (s.run id).phase ≠ .working then s
    else if ok then s.finishExecute id .succeeded
    else s.failRun id
  | .deadline id =>
    -- the timer is set when the connection was opened, and cleared at the end
    match (s.run id).phase with
    | .marking | .working | .finishing _ => if (s.run id).pid then s.endRun id else s
    | _ => s
  | .killed id =>
    match (s.run id).ender with
    | .killing | .lastResort => s.finishEnd id
    | _ => s
  | .killFailed id =>
    if (s.run id).ender = .killing then
      (s.setRun id { s.run id with ender := .asking }).sql (.kill id)
    else s
  | .requestSent =>
    if s.sending = 0 then s
    else
      let s := { s with sending := s.sending - 1 }
      if s.stopping ∧ !s.book then { s with requests := s.requests - 1 } else s.sql .response
  | .stop =>
    if s.stopping then s
    else
      let waiting := s.runs.filter fun id => !(s.run id).ended
      waiting.foldl State.endRun { s with stop := .waiting waiting }
  | .stopFinished =>
    match s.stop with
    | .waiting runs =>
      if (∀ id ∈ runs, (s.run id).ender = .done) ∧ (s.loop = .off ∨ s.loop = .ended) then
        { s with stop := .finished, book := false }
      else s
    | _ => s

def machine : Machine State Event where
  initial := .initial
  step := step

end Sbarbase.Scheduler.Runner
