import Sbarbase.Lib.Table
/-!
# Versions that automatic mode tried

The settings, the maintenance window and the ledger of `lab/updates.py`: one entry
for each version, in the order the versions were first recorded.
-/

namespace Sbarbase.Updates

open Lib

/-- A reading of the server's clock: microseconds since the epoch, and the minute of
the local day. -/
structure Moment where
  micros : ℕ
  minute : ℕ
  deriving DecidableEq

/-- `stamp`: a written time has whole seconds. -/
def stamp (moment : Moment) : ℕ := moment.micros / 1000000

/-- `parse_time` of a written time, in microseconds. -/
def parseTime (written : ℕ) : ℕ := written * 1000000

/-- `window`, each end as minutes of the day. -/
structure Window where
  start : ℕ
  finish : ℕ
  deriving DecidableEq

structure Settings where
  check : Bool
  automatic : Bool
  window : Window
  deriving DecidableEq

def defaultSettings : Settings := ⟨true, false, ⟨180, 300⟩⟩

/-- What `validate_settings` accepts, of settings with the right members. -/
def Settings.valid (settings : Settings) : Bool :=
  settings.window.start < 1440 && settings.window.finish < 1440 &&
    settings.window.start != settings.window.finish && (!settings.automatic || settings.check)

def inWindow (window : Window) (moment : Moment) : Bool :=
  if window.start < window.finish then
    window.start ≤ moment.minute && moment.minute < window.finish
  else window.start ≤ moment.minute || moment.minute < window.finish

def ledgerKeep : ℕ := 50

def automaticTries : ℕ := 3

/-- `TRY_BACKOFF`, in microseconds. -/
def tryBackoff : ℕ := 600 * 1000000

/-- `REQUEST_TTL`, in microseconds. -/
def requestTtl : ℕ := 3600 * 1000000

structure Entry where
  version : String
  announced : Bool
  tries : ℕ
  last : Option ℕ
  spent : Bool
  rolledBack : Bool
  deriving DecidableEq

/-- `ENTRY` -/
def Entry.blank (version : String) : Entry := ⟨version, false, 0, none, false, false⟩

/-- The ledger, oldest version first. -/
abbrev Ledger := Table Entry.version

def Ledger.entry (ledger : Ledger) (version : String) : Entry :=
  (ledger.get version).getD (.blank version)

/-- The fields that a caller of `mark` gives. -/
inductive Change
  | announced
  | spent
  | rolledBack
  /-- `begin_automatic`: one more try, at this time. -/
  | tried (at_ : ℕ)
  deriving DecidableEq

def Change.of (change : Change) (entry : Entry) : Entry :=
  match change with
  | .announced => { entry with announced := true }
  | .spent => { entry with spent := true }
  | .rolledBack => { entry with rolledBack := true }
  | .tried at_ => { entry with tries := entry.tries + 1, last := some at_ }

@[simp] theorem Change.version_of (change : Change) (entry : Entry) :
    (change.of entry).version = entry.version := by cases change <;> rfl

@[simp] theorem Ledger.version_entry (ledger : Ledger) (version : String) :
    (ledger.entry version).version = version := by
  unfold entry
  cases h : ledger.get version with
  | none => rfl
  | some entry => exact (Table.get_eq_some.mp h).2

/-- The last `LEDGER_KEEP` versions. -/
def Ledger.trim (ledger : Ledger) : Ledger where
  rows := ledger.rows.drop (ledger.rows.length - ledgerKeep)
  distinct := ledger.distinct.sublist ((List.drop_sublist _ _).map _)

def mark (ledger : Ledger) (version : String) (change : Change) : Ledger :=
  Ledger.trim (ledger.put (change.of (ledger.entry version)))

/-! ## What a mark changes -/

theorem Ledger.trim_of_le {ledger : Ledger} (h : ledger.rows.length ≤ ledgerKeep) :
    ledger.trim = ledger := by
  cases ledger with
  | mk rows distinct =>
    have hzero : rows.length - ledgerKeep = 0 := Nat.sub_eq_zero_of_le h
    simp only [trim, hzero, List.drop_zero]

/-- While every version that was ever marked still has its entry, a mark changes one
entry and keeps the others. -/
theorem entry_mark {ledger : Ledger} {version : String} {change : Change}
    (h : (ledger.put (change.of (ledger.entry version))).rows.length ≤ ledgerKeep)
    (other : String) :
    (mark ledger version change).entry other =
      if version = other then change.of (ledger.entry version) else ledger.entry other := by
  rw [mark, Ledger.trim_of_le h, Ledger.entry, Table.get_put]
  simp only [Change.version_of, Ledger.version_entry]
  split_ifs
  · rfl
  · rfl

/-- The versions of the ledger, oldest first. -/
def Ledger.versions (ledger : Ledger) : List String := ledger.rows.map Entry.version

theorem versions_put (ledger : Ledger) (entry : Entry) : Ledger.versions (ledger.put entry) =
      if entry.version ∈ ledger.versions then ledger.versions
      else ledger.versions ++ [entry.version] := by
  unfold Ledger.versions Table.put
  split_ifs with hkey
  · rw [List.map_map]
    apply List.map_congr_left
    intro old _
    simp only [Function.comp_apply]
    split_ifs with heq
    · exact heq.symm
    · rfl
  · simp

end Sbarbase.Updates
