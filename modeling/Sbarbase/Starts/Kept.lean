import Sbarbase.Lib.Dict
/-!
# The record of a planned exit

`lab/kept_runtime.py`: what a planned exit writes about the owned containers it
leaves running, and when a later start may adopt them; with `decide` of
`lab/leftover_runtime.py`. The clock is in microseconds, the record in seconds.
-/

namespace Sbarbase.Starts

open Lib

/-- `MAX_AGE`, in seconds. -/
def maxAge : ℕ := 1800

/-- `LATER_GRACE`, in seconds. -/
def laterGrace : ℕ := 300

def microseconds : ℕ := 1000000

/-- A process: its pid with its start time. -/
structure Process where
  pid : ℕ
  started : ℕ
  deriving DecidableEq

/-- What the record holds of a container. -/
structure Item where
  image : String
  name : String
  deriving DecidableEq

/-- `kept-runtime.json`, with `target` for `to`, `origin` for `from` and `moment` for `at`. -/
structure Record where
  target : String
  origin : Option String
  moment : ℕ
  containers : Dict ℕ Item
  claimed : Option Process
  deriving DecidableEq

/-- What is at the path of the record; `read` refuses a `damaged` file. -/
inductive File where
  | absent
  | damaged
  | written (record : Record)
  deriving DecidableEq

def File.present : File → Bool
  | .absent => false
  | _ => true

def File.read : File → Option Record
  | .written record => some record
  | _ => none

/-- `started`, asked of the table of the processes. -/
def startedOf (table : List Process) (pid : ℕ) : Option ℕ :=
  (table.find? fun process => process.pid = pid).map Process.started

/-- The record that `leave` writes. -/
def leave (running : List (ℕ × Item)) (target : String) (origin : Option String) (clock : ℕ) :
    Record where
  target := target
  origin := origin
  moment := clock / microseconds
  containers := running.foldl (fun kept entry => kept.set entry.1 entry.2) ∅
  claimed := none

def claim (file : File) (process : Process) : File :=
  match file.read with
  | none => file
  | some record => .written { record with claimed := some process }

/-- Whether the claim on a record is the one of the process that asks, or of its parent. -/
def ownClaim (claimed : Process) (owners : List ℕ) (table : List Process) : Bool :=
  owners.contains claimed.pid && startedOf table claimed.pid == some claimed.started

/-- `judge`: `none` when the running containers may be adopted. `owners` are the pids of the
process that asks and of its parent, and `grace` is in seconds. -/
def judge (record : Option Record) (running : Option (List (ℕ × Item))) (commit : Option String)
    (waiting : List String) (clock grace : ℕ) (owners : List ℕ) (table : List Process) :
    Option String :=
  match record with
  | none => some "no readable record"
  | some record =>
    if commit ≠ some record.target then
      some "the checkout is not the version the record was written for"
    else if clock < record.moment * microseconds ∨
        (record.moment + maxAge + grace) * microseconds < clock then
      some "the record is too old"
    else if waiting ≠ [] then
      some (", ".intercalate waiting ++ " needs reconciliation")
    else if (record.claimed.map fun claimed => !ownClaim claimed owners table) = some true then
      some "an earlier start took the record and did not finish"
    else match running with
      | none => some "Docker could not be asked"
      | some running =>
        (running.find? fun entry => record.containers.get entry.1 ≠ some entry.2).map fun entry =>
          entry.2.name ++ " is running and is not a container the record kept as it is"

def current (file : File) (running : Option (List (ℕ × Item))) (commit : Option String)
    (waiting : List String) (clock grace : ℕ) (owners : List ℕ) (table : List Process) :
    Except String Record :=
  if !file.present then .error "no record"
  else match judge file.read running commit waiting clock grace owners table, file.read with
    | some reason, _ => .error reason
    | none, some record => .ok record
    | none, none => .error "no readable record"

inductive Decision where
  | nothing
  | stop
  | decline
  deriving DecidableEq

/-- `decide`, without the text for the operator. -/
def decideLeftover (running : List (ℕ × Item)) (waiting held : List String) : Decision :=
  if running = [] then .nothing
  else if held ≠ [] then .decline
  else if waiting ≠ [] then .decline
  else .stop

/-! ## What a record that holds says -/

theorem startedOf_mem {table : List Process} {process : Process}
    (h : startedOf table process.pid = some process.started) : process ∈ table := by
  obtain ⟨found, hfound, hstarted⟩ := Option.map_eq_some_iff.mp h
  have hpid : found.pid = process.pid := by simpa using List.find?_some hfound
  obtain rfl : found = process := by
    cases found
    cases process
    simp_all
  exact List.mem_of_find?_eq_some hfound

/-- What `judge` asked of a record that it lets the running containers be adopted with. -/
structure Holds (record : Record) (running : List (ℕ × Item)) (commit : Option String)
    (waiting : List String) (clock grace : ℕ) (table : List Process) : Prop where
  target : commit = some record.target
  moment : record.moment * microseconds ≤ clock
  age : clock ≤ (record.moment + maxAge + grace) * microseconds
  waiting : waiting = []
  claimed : ∀ process, record.claimed = some process → process ∈ table
  running : ∀ entry ∈ running, record.containers.get entry.1 = some entry.2

theorem holds_of_judge {record : Record} {running : Option (List (ℕ × Item))}
    {commit : Option String} {waiting : List String} {clock grace : ℕ} {owners : List ℕ}
    {table : List Process}
    (h : judge (some record) running commit waiting clock grace owners table = none) :
    ∃ found, running = some found ∧ Holds record found commit waiting clock grace table := by
  unfold judge at h
  by_cases htarget : commit ≠ some record.target
  · simp [htarget] at h
  by_cases hage : clock < record.moment * microseconds ∨
      (record.moment + maxAge + grace) * microseconds < clock
  · simp [htarget, hage] at h
  by_cases hwaiting : waiting ≠ []
  · simp [htarget, hage, hwaiting] at h
  by_cases hclaimed : (record.claimed.map fun claimed => !ownClaim claimed owners table) = some true
  · simp only [if_neg htarget, if_neg hage, if_neg hwaiting, if_pos hclaimed] at h
    cases h
  simp only [if_neg htarget, if_neg hage, if_neg hwaiting, if_neg hclaimed] at h
  cases running with
  | none => cases h
  | some found =>
      have hall : ∀ entry ∈ found, record.containers.get entry.1 = some entry.2 := by
        have hnone := List.find?_eq_none.mp (Option.map_eq_none_iff.mp h)
        intro entry hentry
        simpa using hnone entry hentry
      refine ⟨found, rfl, not_not.mp htarget, ?_, ?_, not_not.mp hwaiting, ?_, hall⟩
      · omega
      · omega
      · intro process hprocess
        have hown : ownClaim process owners table = true := by simpa [hprocess] using hclaimed
        simp only [ownClaim, Bool.and_eq_true, beq_iff_eq] at hown
        exact startedOf_mem hown.2

theorem holds_of_current {file : File} {running : Option (List (ℕ × Item))}
    {commit : Option String} {waiting : List String} {clock grace : ℕ} {owners : List ℕ}
    {table : List Process} {record : Record}
    (h : current file running commit waiting clock grace owners table = .ok record) :
    file = .written record ∧
      ∃ found, running = some found ∧ Holds record found commit waiting clock grace table := by
  cases file with
  | absent => exact (nomatch h)
  | damaged => exact (nomatch h)
  | written written =>
      cases hjudge : judge (some written) running commit waiting clock grace owners table with
      | some reason => simp [current, File.present, File.read, hjudge] at h
      | none =>
          have hrecord : written = record := by
            simpa [current, File.present, File.read, hjudge] using h
          subst hrecord
          exact ⟨rfl, holds_of_judge hjudge⟩

end Sbarbase.Starts
