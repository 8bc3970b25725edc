import Sbarbase.Updates.Requests
import Sbarbase.Lib.Machine
/-!
# The update channel

The files of `.lab/upgrades`, the supervisor with its turns (`schedule_updates` of
`lab/dev.py`), the child of `lab/upgrade.py` that it runs, the guard before a start
and the console. A turn is a list of writes; an exception leaves the first of them
and the supervisor goes on, a crash is such a turn with the end of the process after
it. Only the supervisor writes the ledger, the last request and a taken slot, so no
other writer is seen between two writes of one turn.
-/

namespace Sbarbase.Updates

open Lib

/-- A child that `start_update` runs, with how far `apply` came. -/
structure Child where
  kind : Kind
  run : ℕ
  version : Option String
  automatic : Bool
  passed : Bool
  saved : Bool
  moved : Bool
  status : Option Bool
  deriving DecidableEq

/-- `self.update` -/
structure Job where
  kind : Kind
  request : Option Request
  run : ℕ
  deriving DecidableEq

/-- `self.drain`, where `release` stands for the command. -/
structure Drain where
  kind : Kind
  request : Request
  release : Option String
  deriving DecidableEq

/-- A request with the reading of the clock and the settings it was decided on. -/
structure Asked where
  request : Request
  moment : Moment
  settings : Settings
  deriving DecidableEq

/-- The memory of a supervisor. `gated` is `confirm` while an upgrade waits for its
health checks, `serving` that the requests of the previous process were settled. -/
structure Process where
  head : String
  serving : Bool
  gated : Bool
  update : Option Job
  drain : Option Drain
  creating : Option Asked
  stopping : Bool
  deriving DecidableEq

/-- A request as it was created, with the versions that had a lost try and those whose
way back had been announced by then. -/
structure Made where
  asked : Asked
  lost : List String
  back : List String
  deriving DecidableEq

/-- The files, the processes, and from `seen` on what the history did: the versions
ever marked, the requests created, every final form written and those written as the
last request, the lost tries with their versions, and the versions announced as moved
back. -/
structure System where
  slot : Option Request
  last : Option Request
  ledger : Ledger
  outcome : Option Outcome
  upgrade : Option Upgrade
  available : Option Document
  current : Option Current
  settings : Settings
  checkout : String
  child : Option Child
  process : Option Process
  asking : List Request
  drawn : ℕ
  seen : List String
  made : List Made
  finals : List Request
  recorded : List Request
  lost : List (ℕ × String)
  back : List String

/-! ## Writes -/

inductive Act
  /-- `write('request.json', …)` -/
  | slot (request : Request)
  /-- `write('last-request.json', …)` -/
  | last (request : Request)
  | unlink
  | mark (version : String) (change : Change)
  /-- `announce_outcome` went past the ledger. -/
  | told (version : String)
  | upgrade (record : Upgrade)
  | checkout (commit : String)
  /-- `available.json` is moved aside. -/
  | aside
  | current (record : Current)

def Act.perform (s : System) : Act → System
  | .slot request =>
    { s with
      slot := some request
      finals := if request.state.final then request :: s.finals else s.finals }
  | .last request =>
    { s with
      last := some request
      finals := request :: s.finals
      recorded := request :: s.recorded }
  | .unlink => { s with slot := none }
  | .mark version change =>
    { s with
      ledger := Updates.mark s.ledger version change
      seen := if version ∈ s.seen then s.seen else s.seen ++ [version] }
  | .told version => { s with back := version :: s.back }
  | .upgrade record => { s with upgrade := some record }
  | .checkout commit => { s with checkout := commit }
  | .aside => { s with available := none }
  | .current record => { s with current := some record }

def System.perform (s : System) (acts : List Act) : System := acts.foldl Act.perform s

/-! ## Requests -/

/-- `create_request`, up to the link. -/
def createRequest (id : ℕ) (kind : Kind) (version : Option String) (trigger : Trigger)
    (now : ℕ) : Request :=
  ⟨id, kind, trigger, .requested, now, version, none, false, none, none, none⟩

/-- `update_request` to `running`: the changed request, if the slot holds it. -/
def updateRequest (slot : Option Request) (request : Request) (moment : Moment) :
    Option Request :=
  (slot.filter fun current => current.id = request.id).map fun current =>
    { current with state := .running, startedAt := some (stamp moment) }

def finishRequest (slot : Option Request) (request : Request) (state : Progress)
    (detail : Option String) (moment : Moment) : List Act :=
  match slot.filter fun current => current.id = request.id with
  | some current =>
    let final := { current with state, detail, finishedAt := some (stamp moment) }
    [.slot final, .last final, .unlink]
  | none => [.last { request with state, detail, finishedAt := some (stamp moment) }]

/-- `spend`, as its write. -/
def spendActs (request : Request) (result : Option Outcome) (moved : Bool) : List Act :=
  (spend request result moved).toList.map fun version => .mark version .spent

def settle (s : System) (moment : Moment) : List Act :=
  match s.slot with
  | none => []
  | some request =>
    if request.state.final then finishRequest s.slot request request.state request.detail moment
    else if request.state = .running then
      if progressed request s.upgrade then finishRequest s.slot request .done none moment
      else spendActs request (outcome s.outcome request.id) false ++
        finishRequest s.slot request .failed (some Messages.interrupted) moment
    else if parseTime request.requestedAt + requestTtl < moment.micros then
      finishRequest s.slot request .failed (some Messages.expired) moment
    else []

/-! ## Notifications -/

/-- `announce_outcome`, of one record whose phase was `was`. -/
def announceOutcome (was : Phase) (after_ : Upgrade) : List Act :=
  if was ≠ after_.phase ∧ label after_ ≠ "" ∧ after_.retryable = false ∧
      (after_.phase = .rollingBack ∨ after_.phase = .rolledBack ∨
        after_.phase = .rollbackFailed) then
    [.mark (label after_) .rolledBack, .told (label after_)]
  else []

def upgradeNotices (s : System) : List Act :=
  match s.upgrade with
  | none => []
  | some record =>
    if record.notices = [] then []
    else record.notices.flatMap (fun (was, phase) =>
      announceOutcome was { record with phase }) ++ [.upgrade { record with notices := [] }]

/-- The versions that `announce_available` marks. -/
def announceAvailable (ledger : Ledger) (document : Document) (emitted : Bool) : List Act :=
  if emitted = false then []
  else
    let candidates := document.available.toList ++
      (document.newest.filter fun release => release.signed).toList
    let fresh := (candidates.map Release.version).dedup.filter fun version =>
      !(ledger.entry version).announced
    fresh.map fun version => .mark version .announced

/-! ## A turn -/

/-- What a turn reads besides the files: the clock, whether a daily backup runs,
whether nothing is in flight, whether the drain's time passed, whether a check is due,
whether `blocked` names a reason, what a rollback would refuse with, and whether the
catalog takes a notification. -/
structure Turn where
  moment : Moment
  backup : Bool
  idle : Bool
  expired : Bool
  due : Bool
  blocked : Bool
  refusal : Option String
  emitted : Bool

/-- What a turn does: its writes, then the memory and the child it leaves. -/
structure Plan where
  acts : List Act
  process : Process
  child : Option Child

def System.unsettled (s : System) (p : Process) : Bool :=
  (s.upgrade.any fun record => record.phase.pending) || s.checkout ≠ p.head

def System.wayBackDone (s : System) (record : Upgrade) : Bool :=
  record.movedBack && s.checkout = record.source && !record.restorePending

def System.movedForGood (s : System) (p : Process) (kind : Kind) : Bool :=
  s.upgrade.any fun record =>
    match kind with
    | .apply =>
      record.phase = .applied && record.moved && record.target = s.checkout &&
        s.checkout ≠ p.head
    | _ => record.phase = .rollingBack && s.checkout ≠ p.head && s.wayBackDone record

/-- `resume_work`: the supervisor stops for the guard when the checkout is not settled. -/
def System.resumeWork (s : System) (p : Process) : Process :=
  { p with stopping := p.stopping || s.unsettled p }

def startUpdate (s : System) (p : Process) (kind : Kind) (request : Option Request)
    (release : Option String) (moment : Moment) : Plan :=
  let updated := request.bind fun request => updateRequest s.slot request moment
  let request := updated.or request
  let run := (request.map Request.id).getD s.drawn
  { acts := updated.toList.map .slot
    process := { p with update := some ⟨kind, request, run⟩, drain := none }
    child := some ⟨kind, run, release, request.any fun request => request.trigger = .automatic,
      false, false, false, none⟩ }

def drainTimeout : String :=
  "Provisioning or another operation did not finish within 10 minutes, so nothing was changed. Try again later."

/-- `continue_drain`; `none` waits. -/
def continueDrain (s : System) (p : Process) (drain : Drain) (t : Turn) : Option Plan :=
  if t.idle then some (startUpdate s p drain.kind (some drain.request) drain.release t.moment)
  else if t.expired then
    some {
      acts := finishRequest s.slot drain.request .failed (some drainTimeout) t.moment
      process := s.resumeWork { p with drain := none }
      child := none }
  else none

def beginDrain (s : System) (p : Process) (kind : Kind) (request : Request)
    (release : Option String) (t : Turn) : Plan :=
  let updated := updateRequest s.slot request t.moment
  let drain : Drain := ⟨kind, updated.getD request, release⟩
  let acts := updated.toList.map Act.slot
  match continueDrain (s.perform acts) p drain { t with expired := false } with
  | some plan => { plan with acts := acts ++ plan.acts }
  | none => { acts, process := { p with drain := some drain }, child := none }

/-- `start_request`; `none` waits for the daily backup. -/
def startRequest (s : System) (p : Process) (request : Request) (t : Turn) : Option Plan :=
  let refused (reason : Option String) : Plan :=
    { acts := finishRequest s.slot request .failed reason t.moment, process := p, child := none }
  match request.kind with
  | .check => some (startUpdate s p .check (some request) none t.moment)
  | .apply =>
    if t.backup then none
    else
      let acknowledged := request.acknowledged && request.trigger ≠ .automatic
      match applyRefusal request.version s.available s.upgrade acknowledged with
      | some reason => some (refused (some reason))
      | none => some (beginDrain s p .apply request request.version t)
  | .rollback =>
    if t.backup then none
    else
      match rollbackVerdict s.upgrade t.refusal with
      | (false, reason) => some (refused reason)
      | (true, _) => some (beginDrain s p .rollback request none t)

def movedOnDetail (request : Option Request) : String :=
  "The checkout moved to Sbarbase " ++ (request.bind Request.version).getD "the new version" ++
    ". Sbarbase restarts on it now."

def movedBackDetail : String :=
  "The checkout moved back to the previous version. Sbarbase restarts on it now."

/-- The end of a job's request, if it has one. -/
def finishJob (s : System) (job : Job) (state : Progress) (detail : Option String)
    (moment : Moment) : List Act :=
  match job.request with
  | none => []
  | some request => finishRequest s.slot request state detail moment

/-- The part of `update_finished` for a check. -/
def checkFinished (s : System) (p : Process) (job : Job) (ok : Bool) (t : Turn) : Plan :=
  let error :=
    if ok then (if s.available.isNone then some "The check left no result." else none)
    else some (failure (outcome s.outcome job.run))
  let announced :=
    match error, s.available with
    | none, some document => announceAvailable s.ledger document t.emitted
    | _, _ => []
  { acts := announced ++
      finishJob s job (if error.isSome then .failed else .done) error t.moment
    process := { p with update := none }
    child := none }

/-- Whether an upgrade or rollback got where it was going. -/
def System.completed (s : System) (p : Process) (job : Job) (ok : Bool) : Bool :=
  ok || s.movedForGood p job.kind

/-- `update_finished`, for a child that ended. -/
def updateFinished (s : System) (p : Process) (job : Job) (ok : Bool) (t : Turn) : Plan :=
  match job.kind with
  | .check => checkFinished s p job ok t
  | _ =>
    let result := outcome s.outcome job.run
    let completed := s.completed p job ok
    let spent := (job.request.toList.map fun request => spendActs request result completed).flatten
    if completed then
      let detail := if job.kind = .apply then movedOnDetail job.request else movedBackDetail
      { acts := spent ++ finishJob s job .done (some detail) t.moment
        process := { p with update := none, stopping := true }
        child := none }
    else
      let detail := failure result ++
        if s.unsettled p then
          " Sbarbase restarts so the checkout is settled before anything else runs."
        else ""
      { acts := spent ++ finishJob s job .failed (some detail) t.moment
        process := s.resumeWork { p with update := none }
        child := none }

/-- `schedule_updates`; `none` leaves everything for a later turn. -/
def scheduleUpdates (s : System) (p : Process) (t : Turn) : Option Plan :=
  match p.update with
  | some job =>
    match s.child.bind Child.status with
    | none => none
    | some ok => some (updateFinished s p job ok t)
  | none =>
    match p.drain with
    | some drain => continueDrain s p drain t
    | none =>
      match s.slot with
      | some request =>
        if request.state = .requested then startRequest s p request t
        else
          let final := request.state.final
          some {
            acts := finishRequest s.slot request (if final then request.state else .failed)
              (if final then request.detail else some Messages.interrupted) t.moment
            process := p
            child := none }
      | none =>
        if s.settings.check && t.due then some (startUpdate s p .check none none t.moment)
        else
          match automaticRelease s.settings s.available s.upgrade t.moment t.backup s.ledger with
          | none => none
          | some release =>
            if t.blocked then none
            else
              let request := createRequest s.drawn .apply (some release.version) .automatic
                (stamp t.moment)
              some {
                acts := [.mark release.version (.tried (stamp t.moment))]
                process := { p with creating := some ⟨request, t.moment, s.settings⟩ }
                child := none }

/-! ## The other processes -/

/-- What `guard` of `lab/upgrade_guard.py` meets on a pending record. -/
inductive Guard
  | proceed
  | back (now : ℕ)
  | giveUp (now : ℕ)
  | stay
  | refuse
  deriving DecidableEq

def beginWayBack (record : Upgrade) (automatic : Bool) (now : ℕ) : Upgrade :=
  { record with
    phase := .rollingBack
    automatic
    rollbackAt := some now
    restorePending := record.phase = .applied && record.attempted
    movedBack := false }

/-- The record after a way back that finished. -/
def Upgrade.returned (record : Upgrade) : Upgrade :=
  { record with movedBack := true, restorePending := false }

/-- `notice`, of a record that leaves the phase `was`. -/
def notice (record : Upgrade) (was : Phase) : Upgrade :=
  { record with notices := record.notices ++ [(was, record.phase)] }

/-- `guard`: the checkout and the record it leaves, and whether the start goes on. -/
def guardRecord (decision : Guard) (checkout : String) (record : Upgrade) :
    String × Upgrade × Bool :=
  let failed := fun record : Upgrade =>
    notice { record with phase := .rollbackFailed } .rollingBack
  if record.phase = .applied ∧ record.moved = false then
    match decision with
    | .refuse => (checkout, record, false)
    | _ => (record.source, { record with phase := .failed }, true)
  else if record.phase = .applied then
    match decision with
    | .back now => (record.source, (notice (beginWayBack record true now) .applied).returned, true)
    | .giveUp now => (record.source, failed (notice (beginWayBack record true now) .applied), true)
    | .refuse => (checkout, record, false)
    | .proceed | .stay => (checkout, record, true)
  else if record.phase = .rollingBack then
    match decision with
    | .refuse => (checkout, record, false)
    | .giveUp _ => (record.source, failed record, true)
    | .stay => (record.target, { record with phase := .confirmed }, true)
    | .proceed | .back _ => (record.source, record.returned, true)
  else (checkout, record, true)

/-- `after_start(True)` with what it announces. -/
def confirmActs (s : System) : List Act :=
  match s.upgrade with
  | none => []
  | some record =>
    if record.phase.pending then
      let confirmed : Upgrade :=
        { record with phase := if record.phase = .applied then .confirmed else .rolledBack }
      .upgrade confirmed :: announceOutcome record.phase confirmed
    else []

/-- `after_start(False)` with what it announces; `retryable` is the mark of
`before_start`. -/
def failedActs (s : System) (retryable : Bool) (now : ℕ) : List Act :=
  match s.upgrade with
  | none => []
  | some record =>
    let marked : List Act :=
      if retryable then [.upgrade { record with retryable := true }] else []
    let record := { record with retryable := record.retryable || retryable }
    if record.phase = .applied then
      let back := beginWayBack record true now
      marked ++ [.upgrade back, .checkout record.source, .upgrade back.returned] ++
        announceOutcome .applied back.returned
    else if record.phase = .rollingBack then
      if s.wayBackDone record then
        let failed : Upgrade := { record with phase := .rollbackFailed }
        .upgrade failed :: announceOutcome .rollingBack failed
      else [.checkout record.source, .upgrade record.returned]
    else []

/-- What a child does next. -/
inductive ChildStep
  /-- `record_outcome(request, 'start', passed=True)` -/
  | passed
  /-- `save_state` of a new record. -/
  | saved (now : ℕ) (commit : String)
  | checkedOut
  /-- `save_state({**record, 'moved': True})` -/
  | movedOn
  /-- The move failed, and the move back did not. -/
  | putBack
  /-- `rollback` begins its way back. -/
  | wentBack (now : ℕ)
  | cameBack
  /-- `write_check` -/
  | wrote (document : Document)
  /-- It exits, with the refusals and the error it recorded if it could. -/
  | ended (ok : Bool) (report : Option (List String × Option String))
  deriving DecidableEq

def recordOutcome (recorded : Option Outcome) (run : ℕ) (f : Outcome → Outcome) : Outcome :=
  f ((outcome recorded run).getD ⟨run, false, [], none⟩)

/-- A try that passed its point of no return and ends without having moved the
checkout, with its version. -/
def Child.loses (child : Child) : Option (ℕ × String) :=
  if child.kind = .apply ∧ child.automatic = true ∧ child.passed = true ∧ child.moved = false then
    child.version.map fun version => (child.run, version)
  else none

def childStep (s : System) (child : Child) (step : ChildStep) : System :=
  match step, child.kind, s.upgrade with
  | .passed, .apply, upgrade =>
    if child.passed ∨ (upgrade.any fun record => record.phase.pending) = true then s
    else
      { s with
        outcome := some (recordOutcome s.outcome child.run fun old => { old with passed := true })
        child := some { child with passed := true } }
  | .saved now commit, .apply, _ =>
    if child.passed = false ∨ child.saved then s
    else
      let trigger := if child.automatic then .automatic else .console
      { s with
        upgrade := some ⟨.applied, s.checkout, commit, now, trigger, false, child.version,
          false, false, false, none, false, false, [], some child.run⟩
        child := some { child with saved := true } }
  | .checkedOut, .apply, some record =>
    if child.saved ∧ child.moved = false ∧ record.phase = .applied then
      { s with checkout := record.target }
    else s
  | .movedOn, .apply, some record =>
    if child.saved ∧ record.phase = .applied ∧ s.checkout = record.target then
      { s with
        upgrade := some { record with moved := true }
        child := some { child with moved := true } }
    else s
  | .putBack, .apply, some record =>
    if child.saved ∧ child.moved = false ∧ record.phase = .applied then
      { s with
        checkout := record.source
        upgrade := some { record with phase := .failed } }
    else s
  | .wentBack now, .rollback, some record =>
    if record.phase = .confirmed then { s with upgrade := some (beginWayBack record false now) }
    else s
  | .cameBack, .rollback, some record =>
    if record.phase = .rollingBack then
      { s with checkout := record.source, upgrade := some record.returned }
    else s
  | .wrote document, .check, _ => { s with available := some document }
  | .ended ok report, kind, upgrade =>
    -- a start or a rollback exits with 0 only once it moved
    let moved :=
      match kind with
      | .apply => child.moved
      | .rollback => upgrade.any fun record => record.phase = .rollingBack && record.movedBack
      | .check => true
    if ok = true ∧ moved = false then s
    else
      { s with
        outcome := (report.map fun (refusals, error) =>
          recordOutcome s.outcome child.run fun old => { old with refusals, error }).or s.outcome
        child := some { child with status := some ok }
        lost := child.loses.toList ++ s.lost }
  | _, _, _ => s

/-! ## The machine -/

inductive Event
  | start (decision : Guard)
  | notices (cut : Option ℕ)
  | settle (moment : Moment) (cut : Option ℕ)
  | confirmed (cut : Option ℕ)
  | failedStart (retryable : Bool) (now : ℕ) (cut : Option ℕ)
  | turn (t : Turn) (cut : Option ℕ)
  /-- The link of an automatic request, after its try was counted. -/
  | create
  | publish (running : String) (refusal : Option String) (blockers : List String)
      (cut : Option ℕ)
  | ask (kind : Kind) (version : Option String) (acknowledged : Bool) (now : ℕ)
  | link (request : Request)
  | saveSettings (settings : Settings)
  | child (step : ChildStep)
  /-- An upgrade or rollback from the command line saves its record. -/
  | commandLine (record : Upgrade) (commit : String)
  | killed

/-- The first writes, or all of them. -/
def cutActs (cut : Option ℕ) (acts : List Act) : List Act :=
  match cut with
  | none => acts
  | some k => acts.take k

/-- What an exception leaves of the memory. -/
def Process.dropped (p : Process) : Process :=
  { p with update := none, drain := none, creating := none }

def System.after (s : System) (p : Process) (plan : Plan) (cut : Option ℕ) : System :=
  let s' := s.perform (cutActs cut plan.acts)
  match cut with
  | none => { s' with process := some plan.process, child := plan.child, drawn := s.drawn + 1 }
  | some _ => { s' with process := some p.dropped, child := none, drawn := s.drawn + 1 }

/-- A link that succeeds only while the slot is free. -/
def System.link (s : System) (asked : Asked) : System :=
  match s.slot with
  | some _ => s
  | none => { s with slot := some asked.request, made := ⟨asked, s.lost.map Prod.snd, s.back⟩ :: s.made }

/-- The supervisor and with it its child and the console end. -/
def System.stop (s : System) : System :=
  let running := s.child.filter fun child => child.status.isNone
  { s with
    process := none
    child := none
    asking := []
    lost := (running.bind Child.loses).toList ++ s.lost }

def System.start (s : System) (decision : Guard) : System :=
  let (checkout, upgrade, goes) : String × Option Upgrade × Bool :=
    match s.upgrade with
    | none => (s.checkout, none, true)
    | some record =>
      let (checkout, record, goes) := guardRecord decision s.checkout record
      (checkout, some record, goes)
  let gated := upgrade.any fun record => record.phase.pending
  let process : Process := ⟨checkout, false, gated, none, none, none, false⟩
  { s with checkout, upgrade, process := if goes then some process else none }

def System.turn (s : System) (p : Process) (t : Turn) (cut : Option ℕ) : System :=
  if p.serving = false ∨ p.gated ∨ p.stopping ∨ p.creating.isSome then s
  else
    match scheduleUpdates s p t with
    | none => s
    | some plan => s.after p plan cut

def step (s : System) (event : Event) : System :=
  match event, s.process with
  | .start decision, none => s.start decision
  | .notices cut, some p =>
    if p.serving then s else s.perform (cutActs cut (upgradeNotices s))
  | .settle moment cut, some p =>
    if p.serving then s
    else { s.perform (cutActs cut (settle s moment)) with process := some { p with serving := true } }
  | .confirmed cut, some p =>
    if p.gated then
      let s' := s.perform (cutActs cut (confirmActs s))
      { s' with process := some { p with gated := cut.isSome } }
    else s
  | .failedStart retryable now cut, some p =>
    if p.creating.isSome then s else (s.perform (cutActs cut (failedActs s retryable now))).stop
  | .turn t cut, some p => s.turn p t cut
  | .create, some p =>
    match p.creating with
    | none => s
    | some asked =>
      { s with process := some { p with creating := none } }.link asked
  | .publish running refusal blockers cut, some _ =>
    let document := setAside s.available running
    let acts := (if document = s.available then [] else [Act.aside]) ++
      [.current (publishCurrent document s.upgrade refusal blockers)]
    s.perform (cutActs cut acts)
  | .ask kind version acknowledged now, some p =>
    if p.serving = false then s
    else
      match requestUpdate s.current s.upgrade kind version acknowledged with
      | .error _ => s
      | .ok (version, tag, acknowledged) =>
        let request := { createRequest s.drawn kind version .console now with tag, acknowledged }
        { s with asking := request :: s.asking, drawn := s.drawn + 1 }
  | .link request, some _ =>
    if request ∈ s.asking then
      { s with asking := s.asking.erase request }.link ⟨request, ⟨0, 0⟩, s.settings⟩
    else s
  | .saveSettings settings, some _ =>
    if settings.valid then { s with settings } else s
  | .child step, some _ =>
    match s.child with
    | none => s
    | some child => if child.status.isSome then s else childStep s child step
  | .commandLine record commit, _ =>
    -- the upgrade lock
    if s.child.any fun child => child.status.isNone && child.kind != .check then s
    else { s with upgrade := some { record with run := none }, checkout := commit }
  | .killed, some _ => s.stop
  | _, _ => s

def initial (commit : String) : System where
  slot := none
  last := none
  ledger := .empty
  outcome := none
  upgrade := none
  available := none
  current := none
  settings := defaultSettings
  checkout := commit
  child := none
  process := none
  asking := []
  drawn := 0
  seen := []
  made := []
  finals := []
  recorded := []
  lost := []
  back := []

def machine (commit : String) : Machine System Event where
  initial := initial commit
  step := step

end Sbarbase.Updates
