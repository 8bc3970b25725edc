import Sbarbase.Lib.Checked
import Sbarbase.Lib.Dict
import Sbarbase.Lib.Machine
import Sbarbase.Lib.Newest
import Sbarbase.Lib.Text
/-!
# Which backups are kept

`upgrade_run_times`, `mark_moved`, `upgrade_runs` and `prune` of `lab/backup.py`, and
the runs of `create` that call them. A stamp is a name that `STAMP` matches, in the
order of texts; no function here looks at other names.
-/

namespace Sbarbase.Backup

open Lib Lib.Checked

def UPGRADE_RUNS_KEPT : ℕ := 3

def MOVED_KEPT : ℕ := 20

/-! ## What is on the disk -/

/-- What `manifest.json` says of the reason. -/
inductive Manifest
  | damaged
  | readable (reason : Option String)
  deriving DecidableEq

/-- One folder of a scope. -/
structure Entry (Stamp : Type) where
  name : Stamp
  manifest : Option Manifest
  deriving DecidableEq

/-- `upgrade-moved.json`: not there, not readable as a list of runs, or the runs it lists. -/
inductive MovedRecord (Stamp : Type)
  | missing
  | damaged
  | runs (runs : List Stamp)
  deriving DecidableEq

structure Disk (Stamp : Type) where
  folders : Dict String (List (Entry Stamp))
  moved : MovedRecord Stamp
  /-- The backup that the completion of a scope names. -/
  completions : String → Option Stamp
  /-- What `no_pending_completion` raises. -/
  pending : Option String

section

variable {Stamp : Type} [LinearOrder Stamp]

def Entry.isComplete (entry : Entry Stamp) : Bool := entry.manifest.isSome

def Entry.isUpgrade (entry : Entry Stamp) : Bool :=
  entry.manifest = some (.readable (some "upgrade"))

def Disk.folder (disk : Disk Stamp) (e : String) : List (Entry Stamp) :=
  (disk.folders.get e).getD []

def Disk.setFolder (disk : Disk Stamp) (e : String) (entries : List (Entry Stamp)) : Disk Stamp :=
  { disk with folders := disk.folders.set e entries }

def Disk.entries (disk : Disk Stamp) : List (Entry Stamp) :=
  disk.folders.entries.flatMap fun folder => folder.2

def completeBackups (disk : Disk Stamp) (e : String) : List Stamp :=
  sorted (((disk.folder e).filter Entry.isComplete).map Entry.name)

def upgradeRunTimes (disk : Disk Stamp) : List Stamp :=
  ((disk.entries.filter Entry.isUpgrade).map Entry.name).dedup

def movedRuns (disk : Disk Stamp) : Option (List Stamp) :=
  match disk.moved with
  | .missing => none
  | .damaged => none
  | .runs runs => some runs.dedup

/-- No stamp: the argument is not the time of a run. -/
def markMoved (disk : Disk Stamp) (stamp : Option Stamp) : Except String (Disk Stamp) := do
  let stamp ← found stamp "Not a backup run time"
  let earlier := (movedRuns disk).getD (upgradeRunTimes disk)
  return { disk with moved := .runs (lastOf MOVED_KEPT (sorted (earlier.insert stamp))) }

/-- `runs &= moved`, where there is a record. -/
def movedUpgradeRuns (disk : Disk Stamp) : List Stamp :=
  match movedRuns disk with
  | some moved => (upgradeRunTimes disk).filter fun run => moved.contains run
  | none => upgradeRunTimes disk

def upgradeRuns (disk : Disk Stamp) (limit : ℕ) (current : Option Stamp) : List Stamp :=
  let runs := current.elim (movedUpgradeRuns disk) (movedUpgradeRuns disk).insert
  if 0 < limit then lastOf limit (sorted runs) else []

/-- `e in DATABASE_SCOPES or RUNTIME.fullmatch(e)` -/
def hasCompletion (e : String) : Bool := e = "storage" || e = "management" || isRuntime e

/-- The complete backups that `keep` applies to. -/
def countedBackups (disk : Disk Stamp) (e : String) (guarded : List Stamp) : List Stamp :=
  let completed := if hasCompletion e then disk.completions e else none
  (completeBackups disk e).filter fun name => !guarded.contains name && some name ≠ completed

/-- An interrupted backup that is older than the newest complete one. -/
def isStale (disk : Disk Stamp) (e : String) (entry : Entry Stamp) : Bool :=
  !entry.isComplete && (completeBackups disk e).getLast?.any fun last => entry.name < last

/-- The disk that `prune` leaves. -/
def prune (disk : Disk Stamp) (e : String) (keep : ℕ) (guarded : Option (List Stamp)) :
    Except String (Disk Stamp) := do
  require (disk.pending = none) (disk.pending.getD "")
  require (1 ≤ keep) "Keep at least one backup"
  let guarded := guarded.getD (upgradeRuns disk UPGRADE_RUNS_KEPT none)
  let doomed := allBut keep (countedBackups disk e guarded)
  return disk.setFolder e
    ((disk.folder e).filter fun entry => !doomed.contains entry.name && !isStale disk e entry)

/-! ## Runs -/

/-- A run of `create`, with the set that it read as it began. -/
structure Run (Stamp : Type) where
  stamp : Stamp
  keep : ℕ
  upgrade : Bool
  guarded : List Stamp

/-- The lock admits one run. All the runs that were ever marked, since the record was last
lost, are kept beside it; nothing reads them. -/
structure State (Stamp : Type) where
  disk : Disk Stamp
  run : Option (Run Stamp)
  marked : Option (List Stamp)

inductive Event (Stamp : Type)
  | start (stamp : Stamp) (keep : ℕ) (upgrade : Bool)
  | makeFolder (e : String)
  | writeManifest (e : String)
  | prune (e : String)
  | stop
  | pruneAlone (e : String) (keep : ℕ)
  | markMoved (stamp : Option Stamp)
  | loseRecord
  | damageRecord
  | restored (e : String) (backup : Option Stamp)
  | pending (message : Option String)

/-- The run under way, as `current`. -/
def currentOf (stamp : Stamp) (upgrade : Bool) : Option Stamp :=
  if upgrade then some stamp else none

def manifestOf (upgrade : Bool) : Manifest := .readable (if upgrade then some "upgrade" else none)

/-- The times go up. -/
def Disk.Before (disk : Disk Stamp) (stamp : Stamp) : Prop :=
  ∀ entry ∈ disk.entries, entry.name < stamp

instance (disk : Disk Stamp) (stamp : Stamp) : Decidable (disk.Before stamp) :=
  inferInstanceAs (Decidable (∀ entry ∈ disk.entries, entry.name < stamp))

def State.write (s : State Stamp) (disk : Except String (Disk Stamp)) : State Stamp :=
  match disk with
  | .ok disk => { s with disk := disk }
  | .error _ => s

def step (s : State Stamp) : Event Stamp → State Stamp
  | .start stamp keep upgrade =>
    if s.run.isNone ∧ s.disk.Before stamp then
      let guarded := upgradeRuns s.disk UPGRADE_RUNS_KEPT (currentOf stamp upgrade)
      { s with run := some ⟨stamp, keep, upgrade, guarded⟩ }
    else s
  | .makeFolder e =>
    match s.run with
    | some run =>
      if (s.disk.pending.isSome ∧ e ≠ "installation") ∨
          ∃ entry ∈ s.disk.folder e, entry.name = run.stamp then s
      else { s with disk := s.disk.setFolder e (⟨run.stamp, none⟩ :: s.disk.folder e) }
    | none => s
  | .writeManifest e =>
    match s.run with
    | some run =>
      { s with disk := s.disk.setFolder e ((s.disk.folder e).map fun entry =>
          if entry.name = run.stamp then { entry with manifest := some (manifestOf run.upgrade) }
          else entry) }
    | none => s
  | .prune e =>
    match s.run with
    | some run => s.write (prune s.disk e run.keep (some run.guarded))
    | none => s
  | .stop => { s with run := none }
  | .pruneAlone e keep => s.write (prune s.disk e keep none)
  | .markMoved stamp =>
    match stamp with
    | some known =>
      { s.write (markMoved s.disk stamp) with
        marked := some ((s.marked.getD (upgradeRunTimes s.disk)).insert known) }
    | none => s
  | .loseRecord => { s with disk := { s.disk with moved := .missing }, marked := none }
  | .damageRecord => { s with disk := { s.disk with moved := .damaged }, marked := none }
  | .restored e backup =>
    { s with
      disk := { s.disk with
        completions := fun other => if other = e then backup else s.disk.completions other } }
  | .pending message => { s with disk := { s.disk with pending := message } }

def machine (initial : State Stamp) : Machine (State Stamp) (Event Stamp) := ⟨initial, step⟩

/-- No run is under way, a folder is there once, and what the record lists is what was marked. -/
structure State.Initial (s : State Stamp) : Prop where
  run : s.run = none
  names : ∀ e, ((s.disk.folder e).map Entry.name).Nodup
  marked : s.marked = movedRuns s.disk

end

end Sbarbase.Backup
