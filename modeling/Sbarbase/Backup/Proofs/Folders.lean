import Sbarbase.Backup.Retention
/-!
# The runs that count, and what a prune takes

Both are lists that the source sorts and cuts. Here they are properties of a run and
of a folder: with fewer than so many newer ones.
-/

namespace Sbarbase.Backup.Proofs

open Lib Lib.Checked

variable {Stamp : Type}

/-! ## Folders -/

theorem folder_setFolder (disk : Disk Stamp) (e e' : String) (entries : List (Entry Stamp)) :
    (disk.setFolder e entries).folder e' = if e' = e then entries else disk.folder e' := by
  rw [Disk.folder, Disk.setFolder]
  simp only [Dict.get_set]
  split_ifs with h
  · rfl
  · rfl

theorem mem_entries {disk : Disk Stamp} {entry : Entry Stamp} :
    entry ∈ disk.entries ↔ ∃ e, entry ∈ disk.folder e := by
  rw [Disk.entries, List.mem_flatMap]
  constructor
  · rintro ⟨⟨e, entries⟩, hmem, hentry⟩
    refine ⟨e, ?_⟩
    rw [Disk.folder, Dict.get_eq_some.mpr hmem]
    exact hentry
  · rintro ⟨e, hentry⟩
    rw [Disk.folder] at hentry
    cases h : disk.folders.get e with
    | none =>
        rw [h] at hentry
        nomatch hentry
    | some entries =>
        rw [h] at hentry
        exact ⟨⟨e, entries⟩, Dict.get_eq_some.mp h, hentry⟩

/-- Entries of one name are one entry. -/
theorem entry_unique {disk : Disk Stamp} {e : String}
    (h : ((disk.folder e).map Entry.name).Nodup) {a b : Entry Stamp} (ha : a ∈ disk.folder e)
    (hb : b ∈ disk.folder e) (hname : a.name = b.name) : a = b :=
  List.inj_on_of_nodup_map h ha hb hname

/-! ## The runs that count -/

variable [LinearOrder Stamp]

/-- An upgrade run of which some manifest is left. -/
def IsUpgradeRun (disk : Disk Stamp) (run : Stamp) : Prop :=
  ∃ e, ∃ entry ∈ disk.folder e, entry.isUpgrade = true ∧ entry.name = run

/-- It is marked as moved, as long as the record can be read, or it is under way. -/
def Counts (disk : Disk Stamp) (current : Option Stamp) (run : Stamp) : Prop :=
  (IsUpgradeRun disk run ∧ ∀ moved, movedRuns disk = some moved → run ∈ moved) ∨
    current = some run

/-- One of the last upgrade runs that count. -/
def Guarded (disk : Disk Stamp) (current : Option Stamp) (run : Stamp) : Prop :=
  Counts disk current run ∧
    Fewer UPGRADE_RUNS_KEPT fun other => Counts disk current other ∧ run < other

theorem mem_upgradeRunTimes {disk : Disk Stamp} {run : Stamp} :
    run ∈ upgradeRunTimes disk ↔ IsUpgradeRun disk run := by
  rw [upgradeRunTimes, List.mem_dedup, List.mem_map]
  constructor
  · rintro ⟨entry, hentry, hname⟩
    obtain ⟨hmem, hupgrade⟩ := List.mem_filter.mp hentry
    obtain ⟨e, hfolder⟩ := mem_entries.mp hmem
    exact ⟨e, entry, hfolder, hupgrade, hname⟩
  · rintro ⟨e, entry, hfolder, hupgrade, hname⟩
    exact ⟨entry, List.mem_filter.mpr ⟨mem_entries.mpr ⟨e, hfolder⟩, hupgrade⟩, hname⟩

theorem mem_movedUpgradeRuns {disk : Disk Stamp} {run : Stamp} : run ∈ movedUpgradeRuns disk ↔
      IsUpgradeRun disk run ∧ ∀ moved, movedRuns disk = some moved → run ∈ moved := by
  rw [movedUpgradeRuns]
  cases movedRuns disk with
  | none => simp [mem_upgradeRunTimes]
  | some moved => simp [List.mem_filter, mem_upgradeRunTimes]

theorem nodup_movedUpgradeRuns (disk : Disk Stamp) : (movedUpgradeRuns disk).Nodup := by
  rw [movedUpgradeRuns]
  cases movedRuns disk with
  | none => exact List.nodup_dedup _
  | some moved => exact (List.nodup_dedup _).filter _

theorem mem_upgradeRuns {disk : Disk Stamp} {current : Option Stamp} {run : Stamp} :
    run ∈ upgradeRuns disk UPGRADE_RUNS_KEPT current ↔ Guarded disk current run := by
  have hruns : ∀ other, other ∈ current.elim (movedUpgradeRuns disk)
      (movedUpgradeRuns disk).insert ↔ Counts disk current other := by
    intro other
    cases current with
    | none => simp [mem_movedUpgradeRuns, Counts]
    | some current => simp [mem_movedUpgradeRuns, Counts, or_comm, eq_comm]
  have hnodup : (current.elim (movedUpgradeRuns disk) (movedUpgradeRuns disk).insert).Nodup := by
    cases current with
    | none => exact nodup_movedUpgradeRuns disk
    | some current => exact (nodup_movedUpgradeRuns disk).insert
  have hfewer := fewer_above_iff (n := UPGRADE_RUNS_KEPT) (x := run) hnodup
  simp only [hruns] at hfewer
  rw [upgradeRuns, if_pos (by decide), mem_lastOf_sorted hnodup, hruns, ← hfewer, Guarded]

/-! ## What a prune takes -/

theorem nodup_complete {disk : Disk Stamp} {e : String}
    (h : ((disk.folder e).map Entry.name).Nodup) : (completeBackups disk e).Pairwise (· < ·) :=
  sorted_pairwise (h.sublist (List.filter_sublist.map _))

theorem mem_completeBackups {disk : Disk Stamp} {e : String} {name : Stamp} :
    name ∈ completeBackups disk e ↔
      ∃ entry ∈ disk.folder e, entry.isComplete = true ∧ entry.name = name := by
  rw [completeBackups, mem_sorted, List.mem_map]
  constructor
  · rintro ⟨entry, hentry, hname⟩
    obtain ⟨hmem, hcomplete⟩ := List.mem_filter.mp hentry
    exact ⟨entry, hmem, hcomplete, hname⟩
  · rintro ⟨entry, hmem, hcomplete, hname⟩
    exact ⟨entry, List.mem_filter.mpr ⟨hmem, hcomplete⟩, hname⟩

/-- A complete backup that only the number of backups kept can keep. -/
def Counted (disk : Disk Stamp) (e : String) (guard : Stamp → Prop) (name : Stamp) : Prop :=
  (∃ entry ∈ disk.folder e, entry.isComplete = true ∧ entry.name = name) ∧ ¬ guard name ∧
    ¬ (hasCompletion e = true ∧ disk.completions e = some name)

/-- What is removed: of the complete backups that are counted all but the newest `keep`, and
of the incomplete ones those older than a complete one. -/
def Doomed (disk : Disk Stamp) (e : String) (keep : ℕ) (guard : Stamp → Prop)
    (entry : Entry Stamp) : Prop :=
  (entry.isComplete = true ∧ Counted disk e guard entry.name ∧
    ¬ Fewer keep fun other => Counted disk e guard other ∧ entry.name < other) ∨
  (entry.isComplete = false ∧
    ∃ other ∈ disk.folder e, other.isComplete = true ∧ entry.name < other.name)

theorem older_than_last {names : List Stamp} (h : names.Pairwise (· < ·)) (name : Stamp) :
    (names.getLast?.any fun last => name < last) = true ↔ ∃ other ∈ names, name < other := by
  rw [Option.any_eq_true]
  constructor
  · rintro ⟨last, hlast, hlt⟩
    exact ⟨last, List.mem_of_getLast? hlast, of_decide_eq_true hlt⟩
  · rintro ⟨other, hother, hlt⟩
    obtain ⟨front, last, rfl⟩ : ∃ front last, names = front ++ [last] :=
      ⟨names.dropLast, names.getLast (List.ne_nil_of_mem hother),
        (List.dropLast_append_getLast _).symm⟩
    refine ⟨last, List.getLast?_concat, decide_eq_true ?_⟩
    rcases List.mem_append.mp hother with hother | hother
    · exact lt_trans hlt ((List.pairwise_append.mp h).2.2 other hother last List.mem_cons_self)
    · rw [← List.mem_singleton.mp hother]
      exact hlt

theorem mem_countedBackups {disk : Disk Stamp} {e : String} {guarded : List Stamp}
    {guard : Stamp → Prop} (hguard : ∀ name, name ∈ guarded ↔ guard name) {name : Stamp} :
    name ∈ countedBackups disk e guarded ↔ Counted disk e guard name := by
  rw [countedBackups, List.mem_filter, mem_completeBackups, Counted, Bool.and_eq_true,
    Bool.not_eq_true', decide_eq_true_eq, ← Bool.not_eq_true, List.contains_iff_mem, hguard]
  refine and_congr_right fun _ => and_congr_right fun _ => not_congr ?_
  cases hasCompletion e with
  | false => simp
  | true => simp [eq_comm]

theorem isStale_iff {disk : Disk Stamp} {e : String} {entry : Entry Stamp}
    (hnames : ((disk.folder e).map Entry.name).Nodup) :
    isStale disk e entry = true ↔ entry.isComplete = false ∧
      ∃ other ∈ disk.folder e, other.isComplete = true ∧ entry.name < other.name := by
  rw [isStale, Bool.and_eq_true, Bool.not_eq_true', older_than_last (nodup_complete hnames)]
  refine and_congr_right fun _ => ⟨?_, ?_⟩
  · rintro ⟨name, hname, hlt⟩
    obtain ⟨other, hother, hcomplete, rfl⟩ := mem_completeBackups.mp hname
    exact ⟨other, hother, hcomplete, hlt⟩
  · rintro ⟨other, hother, hcomplete, hlt⟩
    exact ⟨other.name, mem_completeBackups.mpr ⟨other, hother, hcomplete, rfl⟩, hlt⟩

theorem prune_spec {disk next : Disk Stamp} {e : String} {keep : ℕ}
    {guarded : Option (List Stamp)} {guard : Stamp → Prop}
    (hguard : ∀ name, name ∈ guarded.getD (upgradeRuns disk UPGRADE_RUNS_KEPT none) ↔ guard name)
    (hnames : ((disk.folder e).map Entry.name).Nodup)
    (h : prune disk e keep guarded = .ok next) :
    (∃ entries, next = disk.setFolder e entries ∧ entries.Sublist (disk.folder e)) ∧
    ∀ entry ∈ disk.folder e, entry ∉ next.folder e ↔ Doomed disk e keep guard entry := by
  rw [prune] at h
  obtain ⟨_, _, h⟩ := bind_eq_ok.mp h
  obtain ⟨_, _, h⟩ := bind_eq_ok.mp h
  rw [← pure_eq_ok.mp h]
  refine ⟨⟨_, rfl, List.filter_sublist⟩, fun entry hentry => ?_⟩
  have hpairwise : (countedBackups disk e
      (guarded.getD (upgradeRuns disk UPGRADE_RUNS_KEPT none))).Pairwise (· < ·) :=
    (nodup_complete hnames).filter _
  have hfewer := fewer_above_iff (n := keep) (x := entry.name)
    (hpairwise.imp fun hlt => ne_of_lt hlt)
  simp only [mem_countedBackups hguard] at hfewer
  have hcut : entry.name ∈ allBut keep (countedBackups disk e
      (guarded.getD (upgradeRuns disk UPGRADE_RUNS_KEPT none))) ↔
        Counted disk e guard entry.name ∧
          ¬ Fewer keep fun other => Counted disk e guard other ∧ entry.name < other := by
    rw [mem_allBut hpairwise, mem_countedBackups hguard, hfewer, not_lt]
  have hcomplete : Counted disk e guard entry.name → entry.isComplete = true := by
    rintro ⟨⟨other, hother, hcomplete, hname⟩, _⟩
    rw [← entry_unique hnames hother hentry hname]
    exact hcomplete
  rw [folder_setFolder, if_pos rfl, List.mem_filter, Bool.and_eq_true, Bool.not_eq_true',
    Bool.not_eq_true', ← Bool.not_eq_true, ← Bool.not_eq_true, List.contains_iff_mem, hcut,
    isStale_iff hnames, Doomed]
  constructor
  · intro hgone
    by_contra hkept
    exact hgone ⟨hentry, fun hcounted => hkept (.inl ⟨hcomplete hcounted.1, hcounted⟩),
      fun hstale => hkept (.inr hstale)⟩
  · rintro (⟨_, hcounted⟩ | hstale) ⟨_, hnotCounted, hnotStale⟩
    · exact hnotCounted hcounted
    · exact hnotStale hstale

end Sbarbase.Backup.Proofs
