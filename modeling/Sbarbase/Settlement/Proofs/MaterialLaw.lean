import Sbarbase.Settlement.Material
/-!
# What reconciling reports

The entries do not depend on the order of rows and files. Whether a walk is
refused does where a row lies under the path of another row's sidecar: the walk
keeps rows and sidecars in one set.
-/

namespace Sbarbase.Settlement.Proofs.MaterialLaw

open Lib Lib.Checked Settlement.Material

/-! ## Rows where they lie -/

/-- What the walk makes of a row. -/
structure Located where
  key : CodePoints × CodePoints
  path : CodePoints
  size : ℤ

/-- The checks on a row alone. -/
def locate (spec : Spec) (value : Datum) : Except String Located := do
  let row ← identify value
  require (isSafe spec row) "Unsafe original row path"
  let path ← pathOf spec row
  let size ← sizeOf value
  return ⟨(row.bucket, row.name), path, size⟩

def located (spec : Spec) (value : Datum) : Located :=
  (locate spec value).toOption.getD ⟨([], []), [], 0⟩

def fileOf (value : Datum) : File := (readFile [] value).toOption.getD ⟨[], 0⟩

/-- The walk over a row that passed its own checks. -/
def visit (files : List File) (walk : Walk) (row : Located) : Except String Walk := do
  require (row.key ∉ walk.names) "Duplicate original object row"
  require (row.path ∉ walk.reachable) "Original version paths collide"
  return {
    reachable := if isListed files (sidecar row.path) then sidecar row.path :: row.path :: walk.reachable
      else row.path :: walk.reachable
    unresolved := if hasFile files row.path row.size then walk.unresolved
      else walk.unresolved ++ [codePoints "row-file:" ++ row.path]
    names := row.key :: walk.names }

theorem reconcileRow_located {spec : Spec} {value : Datum} {row : Located} (h : locate spec value = .ok row)
    (files : List File) (walk : Walk) : reconcileRow spec files walk value = visit files walk row := by
  obtain ⟨read, hread, h⟩ := bind_eq_ok.mp h
  obtain ⟨_, hsafe, h⟩ := bind_eq_ok.mp h
  obtain ⟨path, hpath, h⟩ := bind_eq_ok.mp h
  obtain ⟨size, hsize, h⟩ := bind_eq_ok.mp h
  obtain rfl := pure_eq_ok.mp h
  have hsafe' := require_eq_ok.mp hsafe
  rw [reconcileRow, hread, ok_bind, require_pos hsafe', ok_bind, hpath, visit]
  by_cases hkey : (read.bucket, read.name) ∉ walk.names
  · rw [require_pos hkey, ok_bind, ok_bind, ok_bind]
    by_cases hfresh : path ∉ walk.reachable
    · rw [require_pos hfresh, ok_bind, hsize]
      rfl
    · rw [require_neg hfresh]
      rfl
  · rw [require_neg hkey]
    rfl

theorem located_eq {spec : Spec} {value : Datum} (h : ∃ row, locate spec value = .ok row) :
    locate spec value = .ok (located spec value) := by
  obtain ⟨row, h⟩ := h
  rw [located, h]
  rfl

theorem walk_located {spec : Spec} {files : List File} {values : List Datum}
    (h : ∀ value ∈ values, ∃ row, locate spec value = .ok row) (walk : Walk) :
    values.foldlM (reconcileRow spec files) walk = (values.map (located spec)).foldlM (visit files) walk := by
  induction values generalizing walk with
  | nil => rfl
  | cons value values ih =>
      rw [List.map_cons, List.foldlM_cons, List.foldlM_cons,
        reconcileRow_located (located_eq (h value List.mem_cons_self))]
      congr 1
      funext next
      exact ih (fun other hother => h other (List.mem_cons_of_mem _ hother)) next

/-! ## The walk -/

/-- The walk goes on from the first row to the second. -/
def Compatible (files : List File) (row later : Located) : Prop :=
  later.key ≠ row.key ∧ later.path ≠ row.path ∧
    ¬ (later.path = sidecar row.path ∧ isListed files later.path = true)

/-- The walk has nothing of the row. -/
def Fresh (walk : Walk) (row : Located) : Prop := row.key ∉ walk.names ∧ row.path ∉ walk.reachable

theorem visit_eq_ok {files : List File} {walk walk' : Walk} {row : Located} :
    visit files walk row = .ok walk' ↔ Fresh walk row ∧ walk' = {
      reachable := if isListed files (sidecar row.path) then sidecar row.path :: row.path :: walk.reachable
        else row.path :: walk.reachable
      unresolved := if hasFile files row.path row.size then walk.unresolved
        else walk.unresolved ++ [codePoints "row-file:" ++ row.path]
      names := row.key :: walk.names } := by
  rw [visit, bind_eq_ok]
  constructor
  · rintro ⟨_, hkey, h⟩
    obtain ⟨_, hpath, h⟩ := bind_eq_ok.mp h
    exact ⟨⟨require_eq_ok.mp hkey, require_eq_ok.mp hpath⟩, (pure_eq_ok.mp h).symm⟩
  · rintro ⟨⟨hkey, hpath⟩, rfl⟩
    refine ⟨(), require_pos hkey, ?_⟩
    rw [require_pos hpath, ok_bind]
    rfl

/-- Behind a row the walk has what it had, the row, and its sidecar if that is listed. -/
theorem fresh_visit {files : List File} {walk walk' : Walk} {row later : Located}
    (h : visit files walk row = .ok walk') :
    Fresh walk' later ↔ Fresh walk later ∧ Compatible files row later := by
  obtain ⟨_, rfl⟩ := visit_eq_ok.mp h
  unfold Fresh Compatible
  by_cases hlisted : isListed files (sidecar row.path) = true
  · simp only [if_pos hlisted, List.mem_cons, not_or]
    constructor
    · rintro ⟨⟨hkey, hnames⟩, hsidecar, hpath, hreachable⟩
      exact ⟨⟨hnames, hreachable⟩, hkey, hpath, fun hboth => hsidecar hboth.1⟩
    · rintro ⟨⟨hnames, hreachable⟩, hkey, hpath, hnot⟩
      exact ⟨⟨hkey, hnames⟩, fun heq => hnot ⟨heq, by rw [heq]; exact hlisted⟩, hpath, hreachable⟩
  · simp only [if_neg hlisted, List.mem_cons, not_or]
    constructor
    · rintro ⟨⟨hkey, hnames⟩, hpath, hreachable⟩
      refine ⟨⟨hnames, hreachable⟩, hkey, hpath, fun hboth => hlisted ?_⟩
      rw [← hboth.1]
      exact hboth.2
    · rintro ⟨⟨hnames, hreachable⟩, hkey, hpath, hnot⟩
      exact ⟨⟨hkey, hnames⟩, hpath, hreachable⟩

/-- The walk is refused exactly where a row is not fresh or two are not compatible. -/
theorem walk_ok_iff {files : List File} {rows : List Located} {walk : Walk} :
    (∃ walk', rows.foldlM (visit files) walk = .ok walk') ↔
      (∀ row ∈ rows, Fresh walk row) ∧ rows.Pairwise (Compatible files) := by
  induction rows generalizing walk with
  | nil => simp [pure, Except.pure]
  | cons row rows ih =>
      rw [List.pairwise_cons, List.forall_mem_cons]
      constructor
      · rintro ⟨last, h⟩
        rw [List.foldlM_cons] at h
        obtain ⟨next, hvisit, h⟩ := bind_eq_ok.mp h
        obtain ⟨hfresh, hpairwise⟩ := ih.mp ⟨last, h⟩
        have hboth := fun later hlater => (fresh_visit hvisit).mp (hfresh later hlater)
        exact ⟨⟨(visit_eq_ok.mp hvisit).1, fun later hlater => (hboth later hlater).1⟩,
          fun later hlater => (hboth later hlater).2, hpairwise⟩
      · rintro ⟨⟨hrow, hfresh⟩, hcompatible, hpairwise⟩
        obtain ⟨next, hvisit⟩ : ∃ next, visit files walk row = .ok next := ⟨_, visit_eq_ok.mpr ⟨hrow, rfl⟩⟩
        have hnext : ∀ later ∈ rows, Fresh next later :=
          fun later hlater => (fresh_visit hvisit).mpr ⟨hfresh later hlater, hcompatible later hlater⟩
        obtain ⟨last, h⟩ := ih.mpr ⟨hnext, hpairwise⟩
        refine ⟨last, ?_⟩
        rw [List.foldlM_cons, hvisit, ok_bind]
        exact h

/-- A row reaches its path and its sidecar, if that is listed. -/
def Reaches (files : List File) (row : Located) (path : CodePoints) : Prop :=
  path = row.path ∨ (path = sidecar row.path ∧ isListed files path = true)

/-- What a walk ends with. -/
theorem walk_result {files : List File} {rows : List Located} {walk walk' : Walk}
    (h : rows.foldlM (visit files) walk = .ok walk') :
    (∀ path, path ∈ walk'.reachable ↔ path ∈ walk.reachable ∨ ∃ row ∈ rows, Reaches files row path) ∧
      walk'.unresolved = walk.unresolved ++
        (rows.filter fun row => !hasFile files row.path row.size).map fun row =>
          codePoints "row-file:" ++ row.path := by
  induction rows generalizing walk with
  | nil =>
      obtain rfl := pure_eq_ok.mp h
      simp
  | cons row rows ih =>
      rw [List.foldlM_cons] at h
      obtain ⟨next, hvisit, h⟩ := bind_eq_ok.mp h
      obtain ⟨hreachable, hunresolved⟩ := ih h
      obtain ⟨_, rfl⟩ := visit_eq_ok.mp hvisit
      constructor
      · intro path
        have hfirst : (path ∈ if isListed files (sidecar row.path) then sidecar row.path :: row.path :: walk.reachable
            else row.path :: walk.reachable) ↔ path ∈ walk.reachable ∨ Reaches files row path := by
          unfold Reaches
          by_cases hlisted : isListed files (sidecar row.path) = true
          · rw [if_pos hlisted, List.mem_cons, List.mem_cons]
            constructor
            · rintro (rfl | heq | hold)
              · exact Or.inr (Or.inr ⟨rfl, hlisted⟩)
              · exact Or.inr (Or.inl heq)
              · exact Or.inl hold
            · rintro (hold | heq | ⟨heq, _⟩)
              · exact Or.inr (Or.inr hold)
              · exact Or.inr (Or.inl heq)
              · exact Or.inl heq
          · rw [if_neg hlisted, List.mem_cons]
            constructor
            · rintro (heq | hold)
              · exact Or.inr (Or.inl heq)
              · exact Or.inl hold
            · rintro (hold | heq | ⟨rfl, hsidecar⟩)
              · exact Or.inr hold
              · exact Or.inl heq
              · exact absurd hsidecar hlisted
        rw [hreachable, hfirst]
        simp only [List.mem_cons, or_and_right, exists_or, exists_eq_left, or_assoc]
      · rw [hunresolved]
        by_cases hfile : hasFile files row.path row.size = true
        · rw [if_pos hfile, List.filter_cons_of_neg (by simp [hfile])]
        · rw [if_neg hfile, List.filter_cons_of_pos (by simpa using hfile), List.map_cons, List.append_assoc]
          rfl

/-! ## Files -/

theorem readFile_before {value : Datum} {file : File} (h : readFile [] value = .ok file)
    {before : List CodePoints} (hfresh : file.path ∉ before) : readFile before value = .ok file := by
  obtain ⟨_, hclosed, h⟩ := bind_eq_ok.mp h
  obtain ⟨path, hpath, h⟩ := bind_eq_ok.mp h
  obtain ⟨size, hsize, hrest⟩ := bind_eq_ok.mp h
  have hsame : path = file.path := by
    obtain ⟨_, _, h⟩ := bind_eq_ok.mp hrest
    obtain ⟨_, _, h⟩ := bind_eq_ok.mp h
    obtain ⟨_, _, h⟩ := bind_eq_ok.mp h
    obtain ⟨_, _, h⟩ := bind_eq_ok.mp h
    obtain ⟨_, _, h⟩ := bind_eq_ok.mp h
    obtain ⟨_, _, h⟩ := bind_eq_ok.mp h
    rw [← pure_eq_ok.mp h]
  have hfound := found_eq_ok.mp hpath
  rw [Option.filter_eq_some_iff] at hfound
  have hpath' : found (((member "path" value).bind asText).filter fun path => path ∉ before)
      "Duplicate original file path" = .ok path := by
    rw [found_eq_ok, Option.filter_eq_some_iff]
    refine ⟨hfound.1, ?_⟩
    rw [hsame]
    exact decide_eq_true hfresh
  rw [readFile, hclosed, ok_bind, hpath', ok_bind, hsize, ok_bind]
  exact hrest

theorem fileOf_eq {value : Datum} (h : ∃ file, readFile [] value = .ok file) :
    readFile [] value = .ok (fileOf value) := by
  obtain ⟨file, h⟩ := h
  rw [fileOf, h]
  rfl

theorem readFiles_eq {before : List File} {values : List Datum}
    (h : ∀ value ∈ values, ∃ file, readFile [] value = .ok file)
    (hdistinct : (before.map File.path ++ values.map fun value => (fileOf value).path).Nodup) :
    readFiles before values = .ok (before ++ values.map fileOf) := by
  induction values generalizing before with
  | nil => rw [List.map_nil, List.append_nil, readFiles]
  | cons value values ih =>
      have hfresh : (fileOf value).path ∉ before.map File.path := by
        intro hmem
        rw [List.nodup_append] at hdistinct
        exact hdistinct.2.2 _ hmem _ List.mem_cons_self rfl
      have hread := readFile_before (fileOf_eq (h value List.mem_cons_self)) hfresh
      rw [readFiles, hread, ok_bind, ih (fun other hother => h other (List.mem_cons_of_mem _ hother))]
      · rw [List.append_assoc]
        rfl
      · rw [List.map_append, List.append_assoc]
        exact hdistinct

/-! ## The report -/

/-- Rows and files that pass their own checks, none of them twice, in a database
without writers. -/
structure WellFormed (canon : Canon) (spec : Spec) (database : Database) (files : List Datum) : Prop where
  oid : canon.exact database.databaseOid spec.databaseOid = true
  quiet : canon.exact database.sessions (.array []) = true ∧ canon.exact database.prepared (.array []) = true
  few : files.length ≤ MAX_FILES
  rowsPass : ∀ value ∈ database.objects, ∃ row, locate spec value = .ok row
  names : (database.objects.map fun value => (located spec value).key).Nodup
  filesPass : ∀ value ∈ files, ∃ file, readFile [] value = .ok file
  paths : (files.map fun value => (fileOf value).path).Nodup

/-- Every row has a file of its size, and every file is that of a row or its sidecar. -/
def Matched (spec : Spec) (objects files : List Datum) : Prop :=
  (∀ value ∈ objects, ∃ file ∈ files,
    (fileOf file).path = (located spec value).path ∧ (fileOf file).size = (located spec value).size) ∧
  ∀ file ∈ files, ∃ value ∈ objects, (fileOf file).path = (located spec value).path ∨
    (fileOf file).path = sidecar (located spec value).path

/-- The report has neither entry. -/
def Reconciled (report : Report) : Prop :=
  ∀ entry ∈ report.unresolved,
    ¬ codePoints "row-file:" <+: entry ∧ ¬ codePoints "unclassified-file:" <+: entry

/-- Both are refused, or both report the same entries. -/
def SameOutcome : Except String Report → Except String Report → Prop
  | .error _, .error _ => True
  | .ok report, .ok report' => ∀ entry, entry ∈ report.unresolved ↔ entry ∈ report'.unresolved
  | _, _ => False

/-- Nothing is unresolved exactly where rows and files match, and the order of rows
and files says nothing. -/
def Meets (canon : Canon) (spec : Spec) (database : Database) (files : List Datum) : Prop :=
  (∀ report, reconcileMaterial canon spec database files = .ok report →
    (Reconciled report ↔ Matched spec database.objects files)) ∧
  ∀ objects' files', objects'.Perm database.objects → files'.Perm files →
    SameOutcome (reconcileMaterial canon spec { database with objects := objects' } files')
      (reconcileMaterial canon spec database files)

/-- No two rows have one path, and a row lies under the path of another's sidecar,
where there is a file. -/
def SidecarRow (spec : Spec) (objects files : List Datum) : Prop :=
  (objects.map fun value => (located spec value).path).Nodup ∧
    ∃ value ∈ objects, ∃ other ∈ objects, (located spec other).path = sidecar (located spec value).path ∧
      ∃ file ∈ files, (fileOf file).path = (located spec other).path

section

variable {canon : Canon} {spec : Spec} {database : Database} {files : List Datum}

theorem wellFormed_perm (h : WellFormed canon spec database files) {objects' files' : List Datum}
    (hobjects : objects'.Perm database.objects) (hfiles : files'.Perm files) :
    WellFormed canon spec { database with objects := objects' } files' where
  oid := h.oid
  quiet := h.quiet
  few := by rw [hfiles.length_eq]; exact h.few
  rowsPass value hvalue := h.rowsPass value (hobjects.mem_iff.mp hvalue)
  names := (hobjects.map _).nodup_iff.mpr h.names
  filesPass value hvalue := h.filesPass value (hfiles.mem_iff.mp hvalue)
  paths := (hfiles.map _).nodup_iff.mpr h.paths

theorem readFiles_files (h : WellFormed canon spec database files) :
    readFiles [] files = .ok (files.map fileOf) := by
  have hdistinct : (([] : List File).map File.path ++ files.map fun value => (fileOf value).path).Nodup := h.paths
  exact readFiles_eq h.filesPass hdistinct

/-- The report as the walk over the located rows. -/
theorem reconcile_ok (h : WellFormed canon spec database files) {report : Report} :
    reconcileMaterial canon spec database files = .ok report →
      ∃ walk, (database.objects.map (located spec)).foldlM (visit (files.map fileOf)) ⟨[], [], []⟩ = .ok walk ∧
        report.unresolved = walk.unresolved ++ unclassified (files.map fileOf) walk.reachable ++ barriers spec := by
  intro hreport
  rw [reconcileMaterial, require_pos h.oid, ok_bind, require_pos h.quiet, ok_bind, require_pos h.few, ok_bind,
    readFiles_files h, ok_bind, walk_located h.rowsPass] at hreport
  obtain ⟨walk, hwalk, hreport⟩ := bind_eq_ok.mp hreport
  refine ⟨walk, hwalk, ?_⟩
  rw [← pure_eq_ok.mp hreport]

theorem reconcile_isOk (h : WellFormed canon spec database files) :
    (∃ report, reconcileMaterial canon spec database files = .ok report) ↔
      (database.objects.map (located spec)).Pairwise (Compatible (files.map fileOf)) := by
  have hfresh : ∀ row ∈ database.objects.map (located spec), Fresh ⟨[], [], []⟩ row :=
    fun row _ => ⟨List.not_mem_nil, List.not_mem_nil⟩
  constructor
  · rintro ⟨report, hreport⟩
    obtain ⟨walk, hwalk, _⟩ := reconcile_ok h hreport
    exact (walk_ok_iff.mp ⟨walk, hwalk⟩).2
  · intro hpairwise
    obtain ⟨walk, hwalk⟩ := walk_ok_iff.mpr ⟨hfresh, hpairwise⟩
    rw [← walk_located h.rowsPass] at hwalk
    rw [reconcileMaterial, require_pos h.oid, ok_bind, require_pos h.quiet, ok_bind, require_pos h.few, ok_bind,
      readFiles_files h, ok_bind, hwalk]
    exact ⟨_, rfl⟩

/-- Some row reaches the path. -/
def Reached (spec : Spec) (objects files : List Datum) (path : CodePoints) : Prop :=
  ∃ value ∈ objects, Reaches (files.map fileOf) (located spec value) path

/-- The entries of a report, one by one. -/
theorem mem_unresolved (h : WellFormed canon spec database files) {report : Report}
    (hreport : reconcileMaterial canon spec database files = .ok report) (entry : CodePoints) :
    entry ∈ report.unresolved ↔
      (∃ value ∈ database.objects, hasFile (files.map fileOf) (located spec value).path (located spec value).size =
        false ∧ entry = codePoints "row-file:" ++ (located spec value).path) ∨
      (∃ file ∈ files, ¬ Reached spec database.objects files (fileOf file).path ∧
        entry = codePoints "unclassified-file:" ++ (fileOf file).path) ∨
      entry ∈ barriers spec := by
  obtain ⟨walk, hwalk, hunresolved⟩ := reconcile_ok h hreport
  obtain ⟨hreachable, hentries⟩ := walk_result hwalk
  have hreached : ∀ path, path ∈ walk.reachable ↔ Reached spec database.objects files path := by
    intro path
    rw [hreachable, Reached]
    simp
  rw [hunresolved, hentries, unclassified, List.nil_append, List.mem_append, List.mem_append, or_assoc]
  refine or_congr ?_ (or_congr ?_ Iff.rfl)
  · simp only [List.mem_map, List.mem_filter, Bool.not_eq_true']
    constructor
    · rintro ⟨_, ⟨⟨value, hvalue, rfl⟩, hmissing⟩, rfl⟩
      exact ⟨value, hvalue, hmissing, rfl⟩
    · rintro ⟨value, hvalue, hmissing, rfl⟩
      exact ⟨_, ⟨⟨value, hvalue, rfl⟩, hmissing⟩, rfl⟩
  · simp only [List.mem_map, List.mem_insertionSort, List.mem_filter, decide_eq_true_eq, hreached]
    constructor
    · rintro ⟨_, ⟨⟨_, ⟨file, hfile, rfl⟩, rfl⟩, hnot⟩, rfl⟩
      exact ⟨file, hfile, hnot, rfl⟩
    · rintro ⟨file, hfile, hnot, rfl⟩
      exact ⟨_, ⟨⟨_, ⟨file, hfile, rfl⟩, rfl⟩, hnot⟩, rfl⟩

end

/-! ## The law -/

section

variable {canon : Canon} {spec : Spec} {database : Database} {files : List Datum}

theorem hasFile_eq {files : List Datum} {path : CodePoints} {size : ℤ} :
    hasFile (files.map fileOf) path size = true ↔
      ∃ file ∈ files, (fileOf file).path = path ∧ (fileOf file).size = size := by
  simp [hasFile]

theorem isListed_eq {files : List Datum} {path : CodePoints} :
    isListed (files.map fileOf) path = true ↔ ∃ file ∈ files, (fileOf file).path = path := by
  simp [isListed]

/-- The words before the colon tell the entries apart. -/
theorem barriers_marked {entry : CodePoints} (h : entry ∈ barriers spec) :
    ¬ codePoints "row-file:" <+: entry ∧ ¬ codePoints "unclassified-file:" <+: entry := by
  obtain ⟨feature, _, rfl⟩ := List.mem_map.mp h
  rw [show codePoints "pending-effect-barrier:" = 112 :: codePoints "ending-effect-barrier:" from by decide,
    show codePoints "row-file:" = 114 :: codePoints "ow-file:" from by decide,
    show codePoints "unclassified-file:" = 117 :: codePoints "nclassified-file:" from by decide]
  exact ⟨fun hword => absurd (List.cons_prefix_cons.mp hword).1 (by decide),
    fun hword => absurd (List.cons_prefix_cons.mp hword).1 (by decide)⟩

/-- A file of a row or a sidecar of one is reached. -/
theorem reached_iff {objects : List Datum} {file : Datum} (hfile : file ∈ files) :
    Reached spec objects files (fileOf file).path ↔ ∃ value ∈ objects,
      (fileOf file).path = (located spec value).path ∨ (fileOf file).path = sidecar (located spec value).path := by
  have hlisted : isListed (files.map fileOf) (fileOf file).path = true := isListed_eq.mpr ⟨file, hfile, rfl⟩
  unfold Reached Reaches
  simp only [hlisted, and_true]

/-- A report that is made has an entry exactly where something does not match. -/
theorem reconciled_iff (h : WellFormed canon spec database files) {report : Report}
    (hreport : reconcileMaterial canon spec database files = .ok report) :
    Reconciled report ↔ Matched spec database.objects files := by
  constructor
  · intro hnone
    constructor
    · intro value hvalue
      rw [← hasFile_eq]
      by_contra hmissing
      have hentry := (mem_unresolved h hreport _).mpr
        (Or.inl ⟨value, hvalue, Bool.eq_false_iff.mpr hmissing, rfl⟩)
      exact (hnone _ hentry).1 (List.prefix_append _ _)
    · intro file hfile
      rw [← reached_iff hfile]
      by_contra hnot
      have hentry := (mem_unresolved h hreport _).mpr (Or.inr (Or.inl ⟨file, hfile, hnot, rfl⟩))
      exact (hnone _ hentry).2 (List.prefix_append _ _)
  · rintro ⟨hrows, hfiles⟩ entry hentry
    rcases (mem_unresolved h hreport entry).mp hentry with ⟨value, hvalue, hmissing, _⟩ | ⟨file, hfile, hnot, _⟩ | hbarrier
    · rw [hasFile_eq.mpr (hrows value hvalue)] at hmissing
      cases hmissing
    · exact absurd ((reached_iff hfile).mpr (hfiles file hfile)) hnot
    · exact barriers_marked hbarrier

/-- The entries are those of any other order. -/
theorem unresolved_perm (h : WellFormed canon spec database files) {objects' files' : List Datum}
    (hobjects : objects'.Perm database.objects) (hfiles : files'.Perm files) {report report' : Report}
    (hreport : reconcileMaterial canon spec database files = .ok report)
    (hreport' : reconcileMaterial canon spec { database with objects := objects' } files' = .ok report')
    (entry : CodePoints) : entry ∈ report'.unresolved ↔ entry ∈ report.unresolved := by
  have hsize : ∀ path size, hasFile (files'.map fileOf) path size = hasFile (files.map fileOf) path size := by
    intro path size
    rw [Bool.eq_iff_iff, hasFile_eq, hasFile_eq]
    simp only [hfiles.mem_iff]
  have hlisted : ∀ path, isListed (files'.map fileOf) path = isListed (files.map fileOf) path := by
    intro path
    rw [Bool.eq_iff_iff, isListed_eq, isListed_eq]
    simp only [hfiles.mem_iff]
  rw [mem_unresolved (wellFormed_perm h hobjects hfiles) hreport', mem_unresolved h hreport]
  simp only [Reached, Reaches, hobjects.mem_iff, hfiles.mem_iff, hsize, hlisted]

/-- Two rows that are not each under the sidecar of the other are compatible in
both orders. -/
theorem pairwise_of_no_sidecar {objects : List Datum}
    (hnames : (objects.map fun value => (located spec value).key).Nodup)
    (hpaths : (objects.map fun value => (located spec value).path).Nodup)
    (hnone : ∀ value ∈ objects, ∀ other ∈ objects,
      ¬ ((located spec other).path = sidecar (located spec value).path ∧
        ∃ file ∈ files, (fileOf file).path = (located spec other).path)) :
    (objects.map (located spec)).Pairwise (Compatible (files.map fileOf)) := by
  rw [List.pairwise_map]
  rw [List.Nodup, List.pairwise_map] at hnames hpaths
  refine (hnames.and hpaths).imp_of_mem fun hvalue hother hne => ?_
  refine ⟨hne.1.symm, hne.2.symm, ?_⟩
  rw [isListed_eq]
  exact hnone _ hvalue _ hother

theorem length_sidecar (path : CodePoints) : (sidecar path).length = path.length + 5 := by
  rw [sidecar, List.length_append]
  rfl

/-- The row of the longer path stands in front. -/
def LongerFirst (spec : Spec) (a b : Datum) : Prop :=
  (located spec b).path.length ≤ (located spec a).path.length

instance : DecidableRel (LongerFirst spec) := fun _ _ => inferInstanceAs (Decidable (_ ≤ _))

instance : Std.Total (LongerFirst spec) := ⟨fun _ _ => Nat.le_total _ _⟩

instance : IsTrans Datum (LongerFirst spec) := ⟨fun _ _ _ hab hbc => Nat.le_trans hbc hab⟩

/-- With the longest paths in front no walk meets a sidecar before its row. -/
theorem exists_order (files : List Datum) {objects : List Datum}
    (hnames : (objects.map fun value => (located spec value).key).Nodup)
    (hpaths : (objects.map fun value => (located spec value).path).Nodup) :
    ∃ objects' : List Datum, objects'.Perm objects ∧
      (objects'.map (located spec)).Pairwise (Compatible (files.map fileOf)) := by
  have hperm := List.perm_insertionSort (LongerFirst spec) objects
  refine ⟨_, hperm, ?_⟩
  have hnames' := (hperm.map fun value => (located spec value).key).nodup_iff.mpr hnames
  have hpaths' := (hperm.map fun value => (located spec value).path).nodup_iff.mpr hpaths
  rw [List.Nodup, List.pairwise_map] at hnames' hpaths'
  rw [List.pairwise_map]
  refine ((List.pairwise_insertionSort (LongerFirst spec) objects).and (hnames'.and hpaths')).imp ?_
  rintro a b ⟨hlonger, hname, hpath⟩
  refine ⟨hname.symm, hpath.symm, fun hboth => ?_⟩
  have hlength := congrArg List.length hboth.1
  rw [length_sidecar] at hlength
  have hle : (located spec b).path.length ≤ (located spec a).path.length := hlonger
  omega

/-- Two different rows can be put in front, in either order. -/
theorem perm_front {objects : List Datum} {value other : Datum} (hvalue : value ∈ objects) (hother : other ∈ objects)
    (hne : value ≠ other) : ∃ rest, (value :: other :: rest).Perm objects := by
  obtain ⟨before, after, rfl⟩ := List.append_of_mem hvalue
  have hmem : other ∈ before ++ after := by
    rcases List.mem_append.mp hother with hin | hin
    · exact List.mem_append_left _ hin
    · exact List.mem_append_right _ ((List.mem_cons.mp hin).resolve_left fun heq => hne heq.symm)
  obtain ⟨before', after', hsplit⟩ := List.append_of_mem hmem
  refine ⟨before' ++ after', ?_⟩
  refine List.Perm.trans ?_ List.perm_middle.symm
  rw [hsplit]
  exact (List.perm_middle.symm).cons value

theorem sameOutcome_isOk {result result' : Except String Report} (h : SameOutcome result result') :
    (∃ report, result = .ok report) ↔ ∃ report, result' = .ok report := by
  cases result with
  | error e =>
      cases result' with
      | error e' => simp
      | ok report' => exact h.elim
  | ok report =>
      cases result' with
      | error e' => exact h.elim
      | ok report' => simp

/-- Of well-formed rows and files, reconciling reports what does not match, in any
order, unless a row lies under the path of another row's sidecar. -/
theorem material_law (h : WellFormed canon spec database files) :
    Meets canon spec database files ↔ ¬ SidecarRow spec database.objects files := by
  constructor
  · rintro ⟨-, horder⟩ ⟨hpaths, value, hvalue, other, hother, hsidecar, hfile⟩
    -- one order is walked to its end, the other is refused
    obtain ⟨objects', hperm, hpairwise⟩ := exists_order files h.names hpaths
    have hok := (reconcile_isOk (wellFormed_perm h hperm (List.Perm.refl files))).mpr hpairwise
    have hne : value ≠ other := by
      rintro rfl
      have hlength := congrArg List.length hsidecar
      rw [length_sidecar] at hlength
      omega
    obtain ⟨rest, hfront⟩ := perm_front hvalue hother hne
    have hsame := sameOutcome_isOk (horder objects' files hperm (List.Perm.refl files))
    have hsame' := sameOutcome_isOk (horder _ files hfront (List.Perm.refl files))
    have hrefused := (reconcile_isOk (wellFormed_perm h hfront (List.Perm.refl files))).mp
      (hsame'.mpr (hsame.mp hok))
    rw [List.map_cons, List.map_cons, List.pairwise_cons] at hrefused
    exact (hrefused.1 _ List.mem_cons_self).2.2 ⟨hsidecar, isListed_eq.mpr hfile⟩
  · intro hnone
    refine ⟨fun report hreport => reconciled_iff h hreport, fun objects' files' hobjects hfiles => ?_⟩
    have h' := wellFormed_perm h hobjects hfiles
    have hiff : (∃ report, reconcileMaterial canon spec { database with objects := objects' } files' = .ok report) ↔
        ∃ report, reconcileMaterial canon spec database files = .ok report := by
      rw [reconcile_isOk h', reconcile_isOk h]
      by_cases hpaths : (database.objects.map fun value => (located spec value).path).Nodup
      · have hfree : ∀ value ∈ database.objects, ∀ other ∈ database.objects,
            ¬ ((located spec other).path = sidecar (located spec value).path ∧
              ∃ file ∈ files, (fileOf file).path = (located spec other).path) :=
          fun value hvalue other hother hboth =>
            hnone ⟨hpaths, value, hvalue, other, hother, hboth.1, hboth.2⟩
        refine iff_of_true (pairwise_of_no_sidecar h'.names ((hobjects.map _).nodup_iff.mpr hpaths) ?_)
          (pairwise_of_no_sidecar h.names hpaths hfree)
        intro value hvalue other hother
        simp only [hfiles.mem_iff]
        exact hfree value (hobjects.mem_iff.mp hvalue) other (hobjects.mem_iff.mp hother)
      · -- two rows of one path are refused in any order
        have hrefused : ∀ objects : List Datum, ∀ files : List Datum,
            (objects.map (located spec)).Pairwise (Compatible (files.map fileOf)) →
            (objects.map fun value => (located spec value).path).Nodup := by
          intro objects files hpairwise
          rw [List.pairwise_map] at hpairwise
          rw [List.Nodup, List.pairwise_map]
          exact hpairwise.imp fun hcompatible => hcompatible.2.1.symm
        refine iff_of_false (fun hpairwise => hpaths ?_) (fun hpairwise => hpaths (hrefused _ _ hpairwise))
        exact (hobjects.map _).nodup_iff.mp (hrefused _ _ hpairwise)
    cases hreport' : reconcileMaterial canon spec { database with objects := objects' } files' with
    | error e =>
        cases hreport : reconcileMaterial canon spec database files with
        | error e' => trivial
        | ok report =>
            obtain ⟨report', heq⟩ := hiff.mpr ⟨report, hreport⟩
            rw [hreport'] at heq
            cases heq
    | ok report' =>
        cases hreport : reconcileMaterial canon spec database files with
        | error e' =>
            obtain ⟨report, heq⟩ := hiff.mp ⟨report', hreport'⟩
            rw [hreport] at heq
            cases heq
        | ok report => exact unresolved_perm h hobjects hfiles hreport hreport'

end

/-! ## Two objects -/

/-- A canonical form under which everything is as enrolled. -/
def fixtureCanon : Canon := ⟨fun _ _ => true, fun _ => []⟩

def fixtureSpec : Spec where
  internalBucket := codePoints "s"
  versionSeparator := .slash
  runtime := codePoints "r"
  databaseOid := .number (.int 5)
  features := [("standard", true)]
  manifest := .object []

def fixtureRow (name : String) : Datum := .object [(codePoints "id", .text (codePoints name)),
  (codePoints "bucket_id", .text (codePoints "b")), (codePoints "name", .text (codePoints name)),
  (codePoints "version", .null), (codePoints "metadata", .object [(codePoints "size", .number (.int 1))])]

def fixtureFile (path : String) : Datum := .object [(codePoints "path", .text (codePoints path)),
  (codePoints "size", .number (.int 1)), (codePoints "sha256", .text (List.replicate 64 97)),
  (codePoints "mtime_ns", .number (.int 1)), (codePoints "mode", .number (.int 384)),
  (codePoints "uid", .number (.int 0)), (codePoints "gid", .number (.int 0)),
  (codePoints "xattrs", .object [])]

/-- Objects of these names, in this order. -/
def fixtureDatabase (names : List String) : Database :=
  ⟨.number (.int 5), .array [], .array [], names.map fixtureRow⟩

theorem exists_of_isOk {α : Type} {result : Except String α} (h : result.isOk = true) : ∃ a, result = .ok a := by
  cases result with
  | error e => cases h
  | ok a => exact ⟨a, rfl⟩

theorem fixture_wellFormed : WellFormed fixtureCanon fixtureSpec (fixtureDatabase ["a", "c"])
    [fixtureFile "s/r/b/c", fixtureFile "s/r/b/a", fixtureFile "s/r/b/a.info"] where
  oid := rfl
  quiet := ⟨rfl, rfl⟩
  few := by decide
  rowsPass value hvalue := exists_of_isOk (by revert value hvalue; decide)
  names := by decide
  filesPass value hvalue := exists_of_isOk (by revert value hvalue; decide)
  paths := by decide

/-- Two objects, one of them with a sidecar. -/
theorem material_law_objects : Meets fixtureCanon fixtureSpec (fixtureDatabase ["a", "c"])
      [fixtureFile "s/r/b/c", fixtureFile "s/r/b/a", fixtureFile "s/r/b/a.info"] ↔
    ¬ SidecarRow fixtureSpec (fixtureDatabase ["a", "c"]).objects
      [fixtureFile "s/r/b/c", fixtureFile "s/r/b/a", fixtureFile "s/r/b/a.info"] :=
  material_law fixture_wellFormed

/-- Objects `a` and `a.info`, each with its file: refused in this order, reconciled
in the other. -/
theorem sidecar_object : WellFormed fixtureCanon fixtureSpec (fixtureDatabase ["a", "a.info"])
      [fixtureFile "s/r/b/a", fixtureFile "s/r/b/a.info"] ∧
    (reconcileMaterial fixtureCanon fixtureSpec (fixtureDatabase ["a", "a.info"])
      [fixtureFile "s/r/b/a", fixtureFile "s/r/b/a.info"]).isOk = false ∧
    (reconcileMaterial fixtureCanon fixtureSpec (fixtureDatabase ["a.info", "a"])
      [fixtureFile "s/r/b/a", fixtureFile "s/r/b/a.info"]).isOk = true ∧
    ¬ Meets fixtureCanon fixtureSpec (fixtureDatabase ["a", "a.info"])
      [fixtureFile "s/r/b/a", fixtureFile "s/r/b/a.info"] := by
  have hrefused : (reconcileMaterial fixtureCanon fixtureSpec (fixtureDatabase ["a", "a.info"])
      [fixtureFile "s/r/b/a", fixtureFile "s/r/b/a.info"]).isOk = false := by decide
  have hreport : (reconcileMaterial fixtureCanon fixtureSpec (fixtureDatabase ["a.info", "a"])
      [fixtureFile "s/r/b/a", fixtureFile "s/r/b/a.info"]).isOk = true := by decide
  refine ⟨⟨rfl, ⟨rfl, rfl⟩, by decide, fun value hvalue => exists_of_isOk ?_, by decide,
    fun value hvalue => exists_of_isOk ?_, by decide⟩, hrefused, hreport, fun hmeets => ?_⟩
  · revert value hvalue
    decide
  · revert value hvalue
    decide
  · have hsame := hmeets.2 (fixtureDatabase ["a.info", "a"]).objects _ (List.Perm.swap _ _ _) (List.Perm.refl _)
    obtain ⟨report, heq⟩ := (sameOutcome_isOk hsame).mp (exists_of_isOk hreport)
    rw [heq] at hrefused
    cases hrefused

end Sbarbase.Settlement.Proofs.MaterialLaw
