import Mathlib.Data.String.Basic
import Sbarbase.Backup.Proofs.Folders
/-!
# What no prune removes

A run reads once, as it begins, which upgrade runs are guarded; itself it counts as
one of them where it is an upgrade's. The record of the runs that moved is cut to its
last twenty, which hides none of the last three.
-/

namespace Sbarbase.Backup.Proofs.RetentionLaw

open Lib Lib.Checked

variable {Stamp : Type} [LinearOrder Stamp]

/-! ## What the events leave of the folders -/

def NamesOnce (disk : Disk Stamp) : Prop := ∀ e, ((disk.folder e).map Entry.name).Nodup

theorem prune_folder {disk next : Disk Stamp} {e : String} {keep : ℕ}
    {guarded : Option (List Stamp)} (h : prune disk e keep guarded = .ok next) :
    ∃ entries, next = disk.setFolder e entries ∧ entries.Sublist (disk.folder e) := by
  rw [prune] at h
  obtain ⟨_, _, h⟩ := bind_eq_ok.mp h
  obtain ⟨_, _, h⟩ := bind_eq_ok.mp h
  rw [← pure_eq_ok.mp h]
  exact ⟨_, rfl, List.filter_sublist⟩

/-- A step leaves the folders, takes entries out of one, or writes to the folder of the run. -/
inductive Shape (s : State Stamp) : State Stamp → Prop
  | same (t : State Stamp) : t.disk.folders = s.disk.folders → Shape s t
  | fewer (e : String) (entries : List (Entry Stamp)) : entries.Sublist (s.disk.folder e) →
      Shape s { s with disk := s.disk.setFolder e entries }
  | made (run : Run Stamp) (e : String) : s.run = some run →
      (∀ entry ∈ s.disk.folder e, entry.name ≠ run.stamp) →
      Shape s { s with disk := s.disk.setFolder e (⟨run.stamp, none⟩ :: s.disk.folder e) }
  | written (run : Run Stamp) (e : String) : s.run = some run →
      Shape s { s with disk := s.disk.setFolder e ((s.disk.folder e).map fun entry =>
        if entry.name = run.stamp then { entry with manifest := some (manifestOf run.upgrade) }
        else entry) }

theorem write_shape {s : State Stamp} {e : String} {keep : ℕ} {guarded : Option (List Stamp)} :
    Shape s (s.write (prune s.disk e keep guarded)) := by
  cases h : prune s.disk e keep guarded with
  | error message => exact .same _ rfl
  | ok next =>
      obtain ⟨entries, rfl, hsublist⟩ := prune_folder h
      exact .fewer e entries hsublist

theorem step_shape (s : State Stamp) (event : Event Stamp) : Shape s (step s event) := by
  cases event with
  | start stamp keep upgrade =>
      simp only [step]
      split <;> exact .same _ rfl
  | makeFolder e =>
      simp only [step]
      split
      next run hrun =>
        split
        · exact .same _ rfl
        next habsent =>
          refine .made run e hrun fun entry hentry hname => habsent (.inr ⟨entry, hentry, hname⟩)
      next => exact .same _ rfl
  | writeManifest e =>
      simp only [step]
      split
      next run hrun => exact .written run e hrun
      next => exact .same _ rfl
  | prune e =>
      simp only [step]
      split
      · exact write_shape
      · exact .same _ rfl
  | pruneAlone e keep => exact write_shape
  | markMoved stamp => cases stamp <;> exact .same _ rfl
  | stop | loseRecord | damageRecord | restored | pending => exact .same _ rfl

omit [LinearOrder Stamp] in
theorem folder_congr {disk disk' : Disk Stamp} (h : disk'.folders = disk.folders) (e : String) :
    disk'.folder e = disk.folder e := by
  rw [Disk.folder, Disk.folder, h]

theorem names_shape {s t : State Stamp} (h : NamesOnce s.disk) (hshape : Shape s t) :
    NamesOnce t.disk := by
  intro e'
  cases hshape with
  | same _ hfolders =>
      rw [folder_congr hfolders]
      exact h e'
  | fewer e entries hsublist =>
      rw [folder_setFolder]
      split
      · exact (h e).sublist (hsublist.map _)
      · exact h e'
  | made run e hrun habsent =>
      rw [folder_setFolder]
      split
      · refine List.nodup_cons.mpr ⟨fun hmem => ?_, h e⟩
        obtain ⟨entry, hentry, hname⟩ := List.mem_map.mp hmem
        exact habsent entry hentry hname
      · exact h e'
  | written run e hrun =>
      rw [folder_setFolder]
      split
      · have hsame : ((s.disk.folder e).map fun entry =>
            if entry.name = run.stamp then
              { entry with manifest := some (manifestOf run.upgrade) }
            else entry).map Entry.name = (s.disk.folder e).map Entry.name := by
          rw [List.map_map]
          refine List.map_congr_left fun entry _ => ?_
          rw [Function.comp_apply]
          split <;> rfl
        rw [hsame]
        exact h e
      · exact h e'

/-! ## During a run -/

/-- The run is under way since `began`, and every entry was there or is its own. -/
def Since (began : Disk Stamp) (run : Run Stamp) (s : State Stamp) : Prop :=
  s.run = some run ∧ ∀ e, ∀ entry ∈ s.disk.folder e, entry ∈ began.folder e ∨
    (entry.name = run.stamp ∧ (entry.isUpgrade = true → run.upgrade = true))

theorem run_step {s : State Stamp} {run : Run Stamp} (h : s.run = some run) {event : Event Stamp}
    (hstop : event ≠ .stop) : (step s event).run = some run := by
  have hwrite : ∀ disk, (s.write disk).run = s.run := by
    intro disk
    cases disk <;> rfl
  cases event with
  | start => simp [step, h]
  | makeFolder e =>
      simp only [step, h]
      split
      · exact h
      · rfl
  | writeManifest e => simp only [step, h]
  | prune e =>
      simp only [step, h]
      rw [hwrite, h]
  | pruneAlone e keep => rw [step, hwrite, h]
  | markMoved stamp =>
      cases stamp with
      | none => exact h
      | some known => exact h
  | stop => exact absurd rfl hstop
  | loseRecord | damageRecord | restored | pending => exact h

theorem since_shape {began : Disk Stamp} {run : Run Stamp} {s t : State Stamp}
    (h : Since began run s) (hshape : Shape s t) (hrun' : t.run = some run) :
    Since began run t := by
  obtain ⟨hrun, hentries⟩ := h
  refine ⟨hrun', fun e' entry hentry => ?_⟩
  cases hshape with
  | same _ hfolders =>
      rw [folder_congr hfolders] at hentry
      exact hentries e' entry hentry
  | fewer e entries hsublist =>
      rw [folder_setFolder] at hentry
      split at hentry
      next he =>
        rw [he]
        exact hentries e entry (hsublist.subset hentry)
      next => exact hentries e' entry hentry
  | made own e hown =>
      cases hrun.symm.trans hown
      rw [folder_setFolder] at hentry
      split at hentry
      next he =>
        rw [he]
        rcases List.mem_cons.mp hentry with rfl | hentry
        · exact .inr ⟨rfl, fun hupgrade => by nomatch hupgrade⟩
        · exact hentries e entry hentry
      next => exact hentries e' entry hentry
  | written own e hown =>
      cases hrun.symm.trans hown
      rw [folder_setFolder] at hentry
      split at hentry
      next he =>
        rw [he]
        obtain ⟨before, hmem, rfl⟩ := List.mem_map.mp hentry
        split
        next hname =>
          refine .inr ⟨hname, fun hupgrade => ?_⟩
          cases hkind : run.upgrade with
          | true => rfl
          | false =>
              rw [Entry.isUpgrade, hkind] at hupgrade
              nomatch hupgrade
        next hname =>
          exact (hentries e before hmem).imp_right fun hown => absurd hown.1 hname
      next => exact hentries e' entry hentry

/-! ## The record of the runs that moved -/

/-- The record lists runs that were marked, and of those every one with fewer than twenty
newer ones. -/
def Recorded (s : State Stamp) : Prop :=
  (s.marked = none ∧ movedRuns s.disk = none) ∨
  ∃ marked runs, s.marked = some marked ∧ movedRuns s.disk = some runs ∧
    (∀ run ∈ runs, run ∈ marked) ∧
    ∀ run ∈ marked, Fewer MOVED_KEPT (fun other => other ∈ marked ∧ run < other) → run ∈ runs

theorem recorded_initial {s : State Stamp} (h : s.marked = movedRuns s.disk) : Recorded s := by
  cases hmoved : movedRuns s.disk with
  | none => exact .inl ⟨h.trans hmoved, hmoved⟩
  | some runs => exact .inr ⟨runs, runs, h.trans hmoved, hmoved, fun _ hrun => hrun, fun _ hrun _ => hrun⟩

theorem mem_cut {earlier : List Stamp} (hnodup : earlier.Nodup) {known run : Stamp} :
    run ∈ (lastOf MOVED_KEPT (sorted (earlier.insert known))).dedup ↔
      (run = known ∨ run ∈ earlier) ∧
        Fewer MOVED_KEPT fun other => (other = known ∨ other ∈ earlier) ∧ run < other := by
  have hfewer := fewer_above_iff (n := MOVED_KEPT) (x := run) (hnodup.insert (a := known))
  simp only [List.mem_insert_iff] at hfewer
  rw [List.mem_dedup, mem_lastOf_sorted hnodup.insert, List.mem_insert_iff, hfewer]

theorem recorded_markMoved {s : State Stamp} (h : Recorded s) (known : Stamp) :
    Recorded (step s (.markMoved (some known))) := by
  rcases h with ⟨hmarked, hmoved⟩ | ⟨marked, runs, hmarked, hmoved, hsubset, hrecent⟩
  · have hnodup : (upgradeRunTimes s.disk).Nodup := List.nodup_dedup _
    refine .inr ⟨(upgradeRunTimes s.disk).insert known,
      (lastOf MOVED_KEPT (sorted ((upgradeRunTimes s.disk).insert known))).dedup, ?_, ?_, ?_, ?_⟩
    · rw [step, hmarked]
      rfl
    · simp only [step, markMoved, found, ok_bind, hmoved]
      rfl
    · intro run hrun
      rw [mem_cut hnodup] at hrun
      exact List.mem_insert_iff.mpr hrun.1
    · intro run hrun hfewer
      rw [mem_cut hnodup]
      simp only [List.mem_insert_iff] at hrun hfewer
      exact ⟨hrun, hfewer⟩
  · have hnodup : runs.Nodup := by
      rw [movedRuns] at hmoved
      split at hmoved
      · cases hmoved
      · cases hmoved
      · cases hmoved
        exact List.nodup_dedup _
    refine .inr ⟨marked.insert known,
      (lastOf MOVED_KEPT (sorted (runs.insert known))).dedup, ?_, ?_, ?_, ?_⟩
    · rw [step, hmarked]
      rfl
    · simp only [step, markMoved, found, ok_bind, hmoved]
      rfl
    · intro run hrun
      rw [mem_cut hnodup] at hrun
      exact List.mem_insert_iff.mpr (hrun.1.imp_right (hsubset run))
    · intro run hrun hfewer
      simp only [List.mem_insert_iff] at hrun hfewer
      rw [mem_cut hnodup]
      constructor
      · refine hrun.imp_right fun hrun => hrecent run hrun ?_
        exact hfewer.mono fun other hother => ⟨.inr hother.1, hother.2⟩
      · exact hfewer.mono fun other hother => ⟨hother.1.imp_right (hsubset other), hother.2⟩

theorem recorded_step {s : State Stamp} (h : Recorded s) (event : Event Stamp) :
    Recorded (step s event) := by
  have hkeep : ∀ t : State Stamp, t.marked = s.marked → t.disk.moved = s.disk.moved →
      Recorded t := by
    intro t hmarked hmoved
    have hruns : movedRuns t.disk = movedRuns s.disk := by
      rw [movedRuns, movedRuns, hmoved]
    rw [Recorded, hmarked, hruns]
    exact h
  have hwrite : ∀ e keep guarded, Recorded (s.write (prune s.disk e keep guarded)) := by
    intro e keep guarded
    cases hprune : prune s.disk e keep guarded with
    | error message => exact h
    | ok next =>
        obtain ⟨entries, rfl, _⟩ := prune_folder hprune
        exact hkeep _ rfl rfl
  cases event with
  | start stamp keep upgrade =>
      simp only [step]
      split
      · exact hkeep _ rfl rfl
      · exact h
  | makeFolder e =>
      simp only [step]
      split
      · split
        · exact h
        · exact hkeep _ rfl rfl
      · exact h
  | writeManifest e =>
      simp only [step]
      split
      · exact hkeep _ rfl rfl
      · exact h
  | prune e =>
      simp only [step]
      split
      · exact hwrite _ _ _
      · exact h
  | pruneAlone e keep => exact hwrite _ _ _
  | markMoved stamp =>
      cases stamp with
      | none => exact h
      | some known => exact recorded_markMoved h known
  | loseRecord => exact .inl ⟨rfl, rfl⟩
  | damageRecord => exact .inl ⟨rfl, rfl⟩
  | stop | restored | pending => exact hkeep _ rfl rfl

/-! ## Prunes -/

/-- A prune of one scope, where the runs of `guard` are guarded. -/
structure Pruned (s t : State Stamp) (e : String) (keep : ℕ) (guard : Stamp → Prop) : Prop where
  removed : ∀ entry ∈ s.disk.folder e,
    entry ∉ t.disk.folder e ↔ Doomed s.disk e keep guard entry
  added : ∀ entry ∈ t.disk.folder e, entry ∈ s.disk.folder e
  others : ∀ e', e' ≠ e → t.disk.folder e' = s.disk.folder e'

/-- Of all the runs ever marked, with the one under way, the backups of the last stay. -/
def KeepsMarked (began s t : State Stamp) (e : String) (current : Option Stamp) : Prop :=
  ∀ marked, began.marked = some marked → ∀ entry ∈ s.disk.folder e, entry.isUpgrade = true →
    (entry.name ∈ marked ∨ current = some entry.name) →
    (Fewer UPGRADE_RUNS_KEPT fun other =>
      (other ∈ marked ∨ current = some other) ∧ entry.name < other) →
    entry ∈ t.disk.folder e

theorem write_pruned {s : State Stamp} {e : String} {keep : ℕ} {guarded : Option (List Stamp)}
    {guard : Stamp → Prop} (hnames : NamesOnce s.disk) (hpending : s.disk.pending = none)
    (hkeep : 1 ≤ keep)
    (hguard : ∀ name,
      name ∈ guarded.getD (upgradeRuns s.disk UPGRADE_RUNS_KEPT none) ↔ guard name) :
    Pruned s (s.write (prune s.disk e keep guarded)) e keep guard := by
  obtain ⟨next, hnext⟩ : ∃ next, prune s.disk e keep guarded = .ok next := by
    rw [prune, require_pos hpending, ok_bind, require_pos hkeep]
    exact ⟨_, rfl⟩
  obtain ⟨⟨entries, hentries, hsublist⟩, hremoved⟩ := prune_spec hguard (hnames e) hnext
  rw [hnext]
  refine ⟨hremoved, fun entry hentry => ?_, fun e' he' => ?_⟩
  · have hfolder : next.folder e = entries := by
      rw [hentries, folder_setFolder, if_pos rfl]
    exact hsublist.subset (hfolder ▸ hentry)
  · rw [State.write, hentries]
    exact (folder_setFolder _ _ _ _).trans (if_neg he')

/-- A guarded run is not doomed. -/
theorem Pruned.kept {s t : State Stamp} {e : String} {keep : ℕ} {guard : Stamp → Prop}
    (h : Pruned s t e keep guard) {entry : Entry Stamp} (hentry : entry ∈ s.disk.folder e)
    (hcomplete : entry.isComplete = true) (hguard : guard entry.name) :
    entry ∈ t.disk.folder e := by
  by_contra hgone
  rcases (h.removed entry hentry).mp hgone with ⟨_, hcounted, _⟩ | ⟨hincomplete, _⟩
  · exact hcounted.2.1 hguard
  · rw [hcomplete] at hincomplete
    nomatch hincomplete

omit [LinearOrder Stamp] in
theorem isComplete_of_isUpgrade {entry : Entry Stamp} (h : entry.isUpgrade = true) :
    entry.isComplete = true := by
  rw [Entry.isUpgrade, decide_eq_true_eq] at h
  rw [Entry.isComplete, h]
  rfl

/-- The last of the marked runs are guarded: the cut record still lists them. -/
theorem guarded_of_marked {began : State Stamp} (hrecorded : Recorded began)
    {current : Option Stamp} {marked : List Stamp} (hmarked : began.marked = some marked)
    {run : Stamp} (hrun : run ∈ marked ∧ IsUpgradeRun began.disk run ∨ current = some run)
    (hfewer : Fewer UPGRADE_RUNS_KEPT fun other =>
      (other ∈ marked ∨ current = some other) ∧ run < other) :
    Guarded began.disk current run := by
  rcases hrecorded with ⟨hnone, _⟩ | ⟨marked', runs, hmarked', hruns, hsubset, hrecent⟩
  · rw [hnone] at hmarked
    nomatch hmarked
  · cases hmarked.symm.trans hmarked'
    have hlisted : ∀ {other}, Counts began.disk current other →
        other ∈ marked ∨ current = some other := by
      rintro other (⟨_, hmoved⟩ | hcurrent)
      · exact .inl (hsubset other (hmoved runs hruns))
      · exact .inr hcurrent
    refine ⟨?_, hfewer.mono fun other hother => ⟨hlisted hother.1, hother.2⟩⟩
    rcases hrun with ⟨hmem, hupgrade⟩ | hcurrent
    · have hfewMarked : Fewer MOVED_KEPT fun other => other ∈ marked ∧ run < other := by
        intro others hnodup hothers
        have hless := hfewer others hnodup fun other hother =>
          ⟨.inl (hothers other hother).1, (hothers other hother).2⟩
        exact hless.trans (by decide)
      refine .inl ⟨hupgrade, fun moved hmoved => ?_⟩
      cases hruns.symm.trans hmoved
      exact hrecent run hmem hfewMarked
    · exact .inr hcurrent

/-- Over any history of runs, marks and losses of the record, what each prune removes. -/
theorem retention_law (initial : State Stamp) (hinitial : initial.Initial)
    (before : List (Event Stamp)) :
    let began := (machine initial).run before
    (∀ stamp keep upgrade during e, began.run = none → began.disk.Before stamp →
      (∀ event ∈ during, event ≠ .stop) → 1 ≤ keep →
      let s := (machine initial).runFrom (step began (.start stamp keep upgrade)) during
      s.disk.pending = none →
        Pruned s (step s (.prune e)) e keep (Guarded began.disk (currentOf stamp upgrade)) ∧
        KeepsMarked began s (step s (.prune e)) e (currentOf stamp upgrade)) ∧
    ∀ e keep, began.disk.pending = none → 1 ≤ keep →
      Pruned began (step began (.pruneAlone e keep)) e keep (Guarded began.disk none) ∧
      KeepsMarked began began (step began (.pruneAlone e keep)) e none := by
  intro began
  have hstep : ∀ (s : State Stamp) (event : Event Stamp), NamesOnce s.disk ∧ Recorded s →
      NamesOnce (step s event).disk ∧ Recorded (step s event) := fun s event h =>
    ⟨names_shape h.1 (step_shape s event), recorded_step h.2 event⟩
  have hbegan : NamesOnce began.disk ∧ Recorded began :=
    (machine initial).run_invariant (I := fun s => NamesOnce s.disk ∧ Recorded s)
      ⟨hinitial.names, recorded_initial hinitial.marked⟩ hstep before
  refine ⟨?_, ?_⟩
  · intro stamp keep upgrade during e hnone htime hduring hkeep s hpending
    have hstart : step began (.start stamp keep upgrade) =
        { began with run := some ⟨stamp, keep, upgrade,
            upgradeRuns began.disk UPGRADE_RUNS_KEPT (currentOf stamp upgrade)⟩ } := by
      simp only [step]
      rw [if_pos ⟨Option.isNone_iff_eq_none.mpr hnone, htime⟩]
    have hsince : Since began.disk ⟨stamp, keep, upgrade,
        upgradeRuns began.disk UPGRADE_RUNS_KEPT (currentOf stamp upgrade)⟩ s ∧
          NamesOnce s.disk := by
      refine (machine initial).runFrom_invariant_of (A := fun event => event ≠ .stop) (I := fun s =>
        Since began.disk _ s ∧ NamesOnce s.disk) ?_ ?_ during hduring
      · intro s event hstop h
        exact ⟨since_shape h.1 (step_shape s event) (run_step h.1.1 hstop),
          names_shape h.2 (step_shape s event)⟩
      · rw [hstart]
        exact ⟨⟨rfl, fun _ _ hentry => .inl hentry⟩, hbegan.1⟩
    obtain ⟨⟨hrun, hentries⟩, hnames⟩ := hsince
    have hpruned : Pruned s (step s (.prune e)) e keep
        (Guarded began.disk (currentOf stamp upgrade)) := by
      simp only [step, hrun]
      exact write_pruned hnames hpending hkeep fun name => mem_upgradeRuns
    refine ⟨hpruned, fun marked hmarked entry hentry hupgrade hmem hfewer => ?_⟩
    refine hpruned.kept hentry (isComplete_of_isUpgrade hupgrade) ?_
    refine guarded_of_marked hbegan.2 hmarked ?_ hfewer
    rcases hentries e entry hentry with hold | ⟨hname, hkind⟩
    · exact hmem.imp_left fun hmem => ⟨hmem, e, entry, hold, hupgrade, rfl⟩
    · have hkind : upgrade = true := hkind hupgrade
      right
      rw [hname, currentOf, if_pos hkind]
  · intro e keep hpending hkeep
    have hpruned : Pruned began (step began (.pruneAlone e keep)) e keep
        (Guarded began.disk none) :=
      write_pruned hbegan.1 hpending hkeep fun name => mem_upgradeRuns
    refine ⟨hpruned, fun marked hmarked entry hentry hupgrade hmem hfewer => ?_⟩
    refine hpruned.kept hentry (isComplete_of_isUpgrade hupgrade) ?_
    refine guarded_of_marked hbegan.2 hmarked ?_ hfewer
    exact hmem.imp_left fun hmem => ⟨hmem, e, entry, hentry, hupgrade, rfl⟩

/-! ## A run that never moves -/

def emptyState : State String where
  disk := ⟨∅, .missing, fun _ => none, none⟩
  run := none
  marked := none

/-- A whole run, of one scope. -/
def runOf (stamp : String) (upgrade : Bool) : List (Event String) :=
  [.start stamp 1 upgrade, .makeFolder "storage", .writeManifest "storage", .prune "storage",
    .stop]

/-- Three upgrades that moved, and a daily run. -/
def threeMoved : List (Event String) :=
  runOf "20260901T100000Z" true ++ [.markMoved (some "20260901T100000Z")] ++
    (runOf "20260903T100000Z" true ++ [.markMoved (some "20260903T100000Z")]) ++
    (runOf "20260905T100000Z" true ++ [.markMoved (some "20260905T100000Z")]) ++
    runOf "20260906T030000Z" false

/-- The backup of the first of them. -/
def firstMoved : Entry String := ⟨"20260901T100000Z", some (.readable (some "upgrade"))⟩

/-- A fourth run, which has yet to move, takes the place of the first. -/
theorem unmoved_takes_place : let s := (machine emptyState).run (threeMoved ++
      [.start "20260907T100000Z" 1 true, .makeFolder "storage", .writeManifest "storage"])
    movedRuns s.disk = some ["20260901T100000Z", "20260903T100000Z", "20260905T100000Z"] ∧
      s.disk.pending = none ∧ Guarded s.disk none firstMoved.name ∧
      firstMoved ∈ s.disk.folder "storage" ∧
      firstMoved ∉ (step s (.prune "storage")).disk.folder "storage" := by
  refine ⟨by decide, by decide, mem_upgradeRuns.mp (by decide),
    by decide, by decide⟩

theorem emptyState_initial : emptyState.Initial := ⟨rfl, fun _ => List.nodup_nil, rfl⟩

/-- The second and the third stay. -/
theorem later_stay : let began := (machine emptyState).run threeMoved
    let s := (machine emptyState).runFrom (step began (.start "20260907T100000Z" 1 true))
      [.makeFolder "storage", .writeManifest "storage"]
    Pruned s (step s (.prune "storage")) "storage" 1
      (Guarded began.disk (currentOf "20260907T100000Z" true)) :=
  ((retention_law emptyState emptyState_initial threeMoved).1 "20260907T100000Z" 1 true
    [.makeFolder "storage", .writeManifest "storage"] "storage" (by decide)
    (by decide) (by simp) le_rfl (by decide)).1

end Sbarbase.Backup.Proofs.RetentionLaw
