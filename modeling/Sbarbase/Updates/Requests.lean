import Sbarbase.Updates.Ledger
import Sbarbase.Lib.Text
/-!
# Update requests and the decisions about them

The one request of `request.json`, the upgrade record of `lab/upgrade.py`, and what
`lab/updates.py` and the console decide from them.
-/

namespace Sbarbase.Updates

open Lib

inductive Kind
  | apply
  | rollback
  | check
  deriving DecidableEq

inductive Trigger
  | cli
  | console
  | automatic
  deriving DecidableEq

/-- The `state` of a request. -/
inductive Progress
  | requested
  | running
  | done
  | failed
  deriving DecidableEq

def Progress.final : Progress → Bool
  | .done | .failed => true
  | .requested | .running => false

structure Request where
  id : ℕ
  kind : Kind
  trigger : Trigger
  state : Progress
  requestedAt : ℕ
  version : Option String
  tag : Option String
  acknowledged : Bool
  startedAt : Option ℕ
  finishedAt : Option ℕ
  detail : Option String
  deriving DecidableEq

/-- The class of a release. -/
inductive Class
  | safe
  | attended
  | rebuild
  | manual
  deriving DecidableEq

structure Release where
  version : String
  tag : String
  commit : String
  class_ : Class
  signed : Bool
  deriving DecidableEq

/-- `available.json`: a check result, with the commit it was made on. -/
structure Document where
  available : Option Release
  newest : Option Release
  refusals : List String
  current : String
  deriving DecidableEq

inductive Phase
  | applied
  | confirmed
  | rollingBack
  | rolledBack
  | rollbackFailed
  | failed
  deriving DecidableEq

def Phase.pending : Phase → Bool
  | .applied | .rollingBack => true
  | _ => false

/-- `state.json`. `run` is the child that saved the record, which the file does not
hold. -/
structure Upgrade where
  phase : Phase
  source : String
  target : String
  startedAt : ℕ
  trigger : Trigger
  moved : Bool
  release : Option String
  automatic : Bool
  retryable : Bool
  attempted : Bool
  rollbackAt : Option ℕ
  movedBack : Bool
  restorePending : Bool
  notices : List (Phase × Phase)
  run : Option ℕ
  deriving DecidableEq

/-- `outcome.json` -/
structure Outcome where
  request : ℕ
  passed : Bool
  refusals : List String
  error : Option String
  deriving DecidableEq

/-- `outcome`: what the child run for `run` recorded. -/
def outcome (recorded : Option Outcome) (run : ℕ) : Option Outcome :=
  recorded.filter fun value => value.request = run

/-- `label`: the version that an upgrade record names. -/
def label (upgrade : Upgrade) : String :=
  upgrade.release.getD (String.ofList (upgrade.target.toList.take 12))

/-! ## The sentences shown as they are -/

namespace Messages

def busy : String := "Another update request is still in progress. Wait for it to finish."

def nothing : String := "No newer release is available to install. Check for updates first."

def other : String := "That version is not the release available now. Check for updates again."

def class_ : String :=
  "This release cannot be installed from the console. Follow the instructions on the Updates page to install it on the server."

def acknowledge : String :=
  "This release updates services that change environment databases when they start. Confirm the warning on the Updates page to install it."

def unsigned : String :=
  "This release is not signed by a Sbarbase release key, so it cannot be installed."

def refused : String :=
  "The server cannot install this release now. The reasons are listed on the Updates page."

def pending : String :=
  "The last update has not finished starting yet. Wait for it to finish."

def noRollback : String := "There is no installed update to roll back."

def expired : String :=
  "The server did not pick up this request within an hour, so it was not carried out."

def interrupted : String :=
  "Sbarbase stopped while this request was running, before it finished."

/-- `CONSOLE_MESSAGES` -/
def starting : String := "The server has not finished starting; try again in a minute."

def rollbackUnjudged : String :=
  "Sbarbase has not checked yet whether this update can be rolled back. Try again in a moment."

end Messages

/-! ## Decisions of the supervisor -/

/-- `progressed`: whether the upgrade record shows that a running request went
through. -/
def progressed (request : Request) (upgrade : Option Upgrade) : Bool :=
  let since := request.startedAt.getD request.requestedAt
  match upgrade, request.kind with
  | some upgrade, .apply => since ≤ upgrade.startedAt && upgrade.phase != .failed
  | some upgrade, .rollback => upgrade.rollbackAt.any fun went => since ≤ went
  | _, _ => false

/-- `spend`: the version to mark, of an automatic try that passed its point of no
return and did not move the checkout. -/
def spend (request : Request) (result : Option Outcome) (moved : Bool) : Option String :=
  if request.trigger = .automatic ∧ request.kind = .apply ∧ moved = false ∧
      (result.any fun value => value.passed) = true then request.version
  else none

def applyRefusal (version : Option String) (document : Option Document)
    (upgrade : Option Upgrade) (acknowledged : Bool) : Option String :=
  if (upgrade.any fun record => record.phase.pending) = true then some Messages.pending
  else match document with
  | none => some Messages.nothing
  | some document =>
    match document.available with
    | none => some Messages.nothing
    | some release =>
      if some release.version ≠ version then some Messages.other
      else if release.class_ ≠ .safe ∧ release.class_ ≠ .attended then some Messages.class_
      else if release.class_ = .attended ∧ acknowledged = false then some Messages.acknowledge
      else if release.signed = false then some Messages.unsigned
      else if document.refusals ≠ [] then some Messages.refused
      else none

/-- Whether the entry of a version lets automatic mode try it at `moment`. -/
def Entry.allows (entry : Entry) (moment : Moment) : Bool :=
  !entry.spent && !entry.rolledBack &&
    (entry.tries == 0 ||
      (decide (entry.tries < automaticTries) && entry.last.any fun last =>
        parseTime last + tryBackoff * 2 ^ (entry.tries - 1) ≤ moment.micros))

def automaticRelease (settings : Settings) (document : Option Document)
    (upgrade : Option Upgrade) (moment : Moment) (backupRunning : Bool) (ledger : Ledger) :
    Option Release :=
  if !(settings.check && settings.automatic) || backupRunning then none
  else if !inWindow settings.window moment then none
  else match document.bind Document.available with
  | none => none
  | some release =>
    if release.class_ ≠ .safe ∨
        (applyRefusal (some release.version) document upgrade false).isSome = true then none
    else if (ledger.entry release.version).allows moment then some release
    else none

/-- `rollback_verdict`, where `refusal` is what `upgrade.py rollback` would refuse with. -/
def rollbackVerdict (upgrade : Option Upgrade) (refusal : Option String) :
    Bool × Option String :=
  if (upgrade.any fun record => record.phase = .confirmed) = false then
    (false, some Messages.noRollback)
  else match refusal with
  | some reason => (false, some (if reason.endsWith "." then reason else reason ++ "."))
  | none => (true, none)

/-- The `apply` verdict of `current.json`. -/
structure Verdict where
  version : String
  tag : String
  class_ : Class
  possible : Bool
  reason : Option String
  acknowledgement : Bool
  deriving DecidableEq

def applyVerdict (document : Option Document) (upgrade : Option Upgrade)
    (blockers : List String) : Option Verdict :=
  (document.bind Document.available).map fun release =>
    let reason := (applyRefusal (some release.version) document upgrade true).or blockers.head?
    ⟨release.version, "v" ++ release.version, release.class_, reason.isNone, reason,
      release.class_ = .attended⟩

/-- `current.json`: the verdicts, the one on a rollback for the record that started
then. -/
structure Current where
  apply : Option Verdict
  startedAt : Option ℕ
  possible : Bool
  reason : Option String
  deriving DecidableEq

/-- `set_aside`: only a check result made on the running commit is used. -/
def setAside (document : Option Document) (running : String) : Option Document :=
  document.filter fun document => document.current = running

def publishCurrent (document : Option Document) (upgrade : Option Upgrade)
    (refusal : Option String) (blockers : List String) : Current :=
  let verdict := rollbackVerdict upgrade refusal
  ⟨applyVerdict document upgrade blockers, upgrade.map Upgrade.startedAt, verdict.1, verdict.2⟩

/-! ## Sentences about a child that failed -/

/-- `rstrip('.')` -/
def stripDots (text : String) : String :=
  String.ofList (text.toList.reverse.dropWhile (· = '.')).reverse

def failure (result : Option Outcome) : String :=
  let refusals := ((result.map Outcome.refusals).getD []).map trim
  let refusals := (refusals.filter (· ≠ "")).map stripDots
  let lines := ((((result.bind Outcome.error).getD "").splitOn "\n").map trim).filter (· ≠ "")
  let sentence :=
    if refusals ≠ [] then "; ".intercalate refusals ++ ". Nothing was changed."
    else match lines with
    | line :: _ => stripDots line ++ "."
    | [] => "It stopped without saying why."
  if sentence.length ≤ 400 then sentence
  else trim (String.ofList (sentence.toList.take 397)) ++ "..."

/-! ## The console asks -/

/-- `requestUpdate`, up to the file it links into place: the fields it adds, or the
sentence it answers with. -/
def requestUpdate (current : Option Current) (upgrade : Option Upgrade) (kind : Kind)
    (version : Option String) (acknowledged : Bool) :
    Except String (Option String × Option String × Bool) :=
  match kind with
  | .check => .ok (none, none, false)
  | .apply =>
    match current with
    | none => .error Messages.starting
    | some current =>
      match current.apply with
      | none => .error Messages.nothing
      | some verdict =>
        if some verdict.version ≠ version then .error Messages.other
        else if verdict.possible = false then .error (verdict.reason.getD Messages.refused)
        else if verdict.acknowledgement = true ∧ acknowledged = false then
          .error Messages.acknowledge
        else .ok (some verdict.version, some verdict.tag, verdict.acknowledgement)
  | .rollback =>
    match upgrade with
    | none => .error Messages.noRollback
    | some upgrade =>
      if upgrade.phase ≠ .confirmed then .error Messages.noRollback
      else match current with
      | none => .error Messages.rollbackUnjudged
      | some current =>
        if current.startedAt ≠ some upgrade.startedAt then .error Messages.rollbackUnjudged
        else if current.possible = false then .error (current.reason.getD Messages.noRollback)
        else .ok (none, none, false)

end Sbarbase.Updates
