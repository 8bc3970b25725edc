import Sbarbase.Functions.Deploys
/-!
# The functions folder while an operation writes

What holds of the folder after every write: the manifest is whole and is the
replay of the changes that took effect, its entries and the staged versions have
their files. Writes in a version folder that nothing points at keep that.
-/

namespace Sbarbase.Functions.Proofs.Folders

open Lib Lib.Durable Functions

/-! ## What holds of the folder -/

def apply : Change → Manifest → Manifest
  | .deployed name version input size now, manifest =>
    manifest.set name (deployedEntry (manifest.get name) version input.verifyJwt size now)
  | .jwtSwitched name verify, manifest =>
    match manifest.get name with
    | none => manifest
    | some before => manifest.set name { before with verifyJwt := verify }
  | .removed name, manifest => manifest.delete name

/-- The manifest that the changes make, one after the other. -/
def replay (changes : List Change) : Manifest :=
  changes.foldl (fun manifest change => apply change manifest) ∅

/-- The files of a version are all files of the deploy, under the function's name. -/
def HoldsFiles (folder : Folder) (name : String) (input : Deployment) : Prop :=
  (∀ path content, input.files.get path = some content →
      folder.files.get (name, .of path) = some (.whole content)) ∧
    ∀ path content, input.shared.get path = some content →
      folder.files.get (sharedFolder, .of path) = some (.whole content)

/-- The folder of the version is there, with all files of the deploy. -/
def Complete (disk : Disk) (version name : String) (input : Deployment) : Prop :=
  ∃ folder, disk.folders.get version = some folder ∧ HoldsFiles folder name input

def Referenced (manifest : Manifest) (version : String) : Prop :=
  ∃ name entry, manifest.get name = some entry ∧ entry.version = version

/-- Every entry is what some deploy made, and has its files. -/
def Backed (disk : Disk) (manifest : Manifest) (changes : List Change) : Prop :=
  ∀ name entry, manifest.get name = some entry → ∃ input size now,
    .deployed name entry.version input size now ∈ changes ∧
      Complete disk entry.version name input

/-- A staged version has its files, is no older than its staging, and nothing points at it. -/
structure Kept (disk : Disk) (staged : Staged) : Prop where
  folder : ∃ folder, disk.folders.get staged.version = some folder ∧
    staged.stagedAt ≤ folder.mtime ∧ HoldsFiles folder staged.name staged.input
  unreferenced : ¬ Referenced (readManifest disk) staged.version

structure Safe (held : Staged → Prop) (disk : Disk) : Prop where
  whole : disk.files.get functionsJson ≠ some .torn
  replayed : readManifest disk = replay disk.done
  count : (readManifest disk).keys.length ≤ MAX_FUNCTIONS
  backed : Backed disk (readManifest disk) disk.done
  kept : ∀ staged, held staged → Kept disk staged

theorem Safe.weaken {held held' : Staged → Prop} {disk : Disk} (h : Safe held disk)
    (hsub : ∀ staged, held' staged → held staged) : Safe held' disk :=
  { h with kept := fun staged hstaged => h.kept staged (hsub staged hstaged) }

/-- A version that nothing points at and no deploy holds. -/
structure Loose (held : Staged → Prop) (disk : Disk) (version : String) : Prop where
  unreferenced : ¬ Referenced (readManifest disk) version
  unheld : ∀ staged, held staged → staged.version ≠ version

/-- The disks differ in one version folder only. -/
structure SameBut (version : String) (disk disk' : Disk) : Prop where
  files : disk'.files = disk.files
  done : disk'.done = disk.done
  folders : ∀ other, other ≠ version → disk'.folders.get other = disk.folders.get other

namespace SameBut

variable {version : String} {disk disk' disk'' : Disk}

theorem refl : SameBut version disk disk := ⟨rfl, rfl, fun _ _ => rfl⟩

theorem trans (h : SameBut version disk disk') (h' : SameBut version disk' disk'') :
    SameBut version disk disk'' :=
  ⟨h'.files.trans h.files, h'.done.trans h.done,
    fun other hne => (h'.folders other hne).trans (h.folders other hne)⟩

theorem readManifest (h : SameBut version disk disk') :
    Functions.readManifest disk' = Functions.readManifest disk := by
  rw [Functions.readManifest, Functions.readManifest, h.files]

end SameBut

section

variable {held : Staged → Prop} {version : String} {disk disk' : Disk}

theorem Loose.sameBut (h : Loose held disk version) (hsame : SameBut version disk disk') :
    Loose held disk' version :=
  ⟨by rw [hsame.readManifest]; exact h.unreferenced, h.unheld⟩

/-- Whatever is written in a loose version folder, the rest stays as it was. -/
theorem Safe.sameBut (h : Safe held disk) (hloose : Loose held disk version)
    (hsame : SameBut version disk disk') : Safe held disk' where
  whole := by rw [hsame.files]; exact h.whole
  replayed := by rw [hsame.readManifest, hsame.done]; exact h.replayed
  count := by rw [hsame.readManifest]; exact h.count
  backed := by
    rw [hsame.readManifest, hsame.done]
    intro name entry hentry
    obtain ⟨input, size, now, hdone, folder, hfolder, hfiles⟩ := h.backed name entry hentry
    have hne : entry.version ≠ version := fun heq =>
      hloose.unreferenced ⟨name, entry, hentry, heq⟩
    exact ⟨input, size, now, hdone, folder, by rw [hsame.folders _ hne, hfolder], hfiles⟩
  kept := by
    intro staged hstaged
    obtain ⟨folder, hfolder, hrest⟩ := (h.kept staged hstaged).folder
    refine ⟨⟨folder, ?_, hrest⟩, ?_⟩
    · rw [hsame.folders _ (hloose.unheld staged hstaged), hfolder]
    · rw [hsame.readManifest]
      exact (h.kept staged hstaged).unreferenced

/-- A version whose folder is not there is loose. -/
theorem Safe.loose_of_missing (h : Safe held disk) (hmissing : disk.folders.get version = none) :
    Loose held disk version where
  unreferenced := by
    rintro ⟨name, entry, hentry, rfl⟩
    obtain ⟨_, _, _, _, folder, hfolder, _⟩ := h.backed name entry hentry
    rw [hmissing] at hfolder
    cases hfolder
  unheld := by
    rintro staged hstaged rfl
    obtain ⟨folder, hfolder, _⟩ := (h.kept staged hstaged).folder
    rw [hmissing] at hfolder
    cases hfolder

end

/-! ## Writes in a version folder -/

section

variable {version top : String} {now : ℤ} {disk : Disk}
  {change : Dict (String × FileName) (Written String) → Dict (String × FileName) (Written String)}

theorem get_setFiles (other : String) : (disk.setFiles version change).folders.get other =
      if other = version then
        (disk.folders.get version).map fun folder => { folder with files := change folder.files }
      else disk.folders.get other := by
  unfold Disk.setFiles
  split
  · rename_i hnone
    split_ifs with hsame
    · rw [hsame, hnone]
      rfl
    · rfl
  · rename_i folder hfolder
    rw [Dict.get_set, hfolder]
    rfl

theorem sameBut_setFiles : SameBut version disk (disk.setFiles version change) := by
  refine ⟨?_, ?_, fun other hne => by rw [get_setFiles, if_neg hne]⟩
  · unfold Disk.setFiles
    split <;> rfl
  · unfold Disk.setFiles
    split <;> rfl

theorem get_makeFolder_ne {other : String} (hne : other ≠ version) :
    (disk.makeFolder version top now).folders.get other = disk.folders.get other := by
  unfold Disk.makeFolder
  split
  · rw [Dict.get_set, if_neg hne]
  · split_ifs
    · rfl
    · rw [Dict.get_set, if_neg hne]

theorem sameBut_makeFolder : SameBut version disk (disk.makeFolder version top now) := by
  refine ⟨?_, ?_, fun other hne => get_makeFolder_ne hne⟩
  · unfold Disk.makeFolder
    split
    · rfl
    · split_ifs <;> rfl
  · unfold Disk.makeFolder
    split
    · rfl
    · split_ifs <;> rfl

/-- The folder after `mkdirSync`: no older than now or as it was, with the files it had. -/
theorem get_makeFolder : ∃ folder,
    (disk.makeFolder version top now).folders.get version = some folder ∧
      (now ≤ folder.mtime ∨ ∃ old, disk.folders.get version = some old ∧ old.mtime = folder.mtime) ∧
      folder.files = (disk.folders.get version).elim ∅ Folder.files := by
  unfold Disk.makeFolder
  split
  · rename_i hnone
    refine ⟨⟨now, ∅⟩, ?_, .inl (le_refl now), ?_⟩
    · rw [Dict.get_set, if_pos rfl]
    · rw [hnone]
      rfl
  · rename_i folder hfolder
    split_ifs
    · exact ⟨folder, hfolder, .inr ⟨folder, hfolder, rfl⟩, by rw [hfolder]; rfl⟩
    · refine ⟨{ folder with mtime := now }, ?_, .inl (le_refl now), by rw [hfolder]; rfl⟩
      rw [Dict.get_set, if_pos rfl]

end

/-! ## Staging -/

section

variable {version top : String} {now : ℤ} {start disk : Disk}

def filesOf (disk : Disk) (version : String) : Dict (String × FileName) (Written String) :=
  (disk.folders.get version).elim ∅ Folder.files

/-- The folder is no older than `now`, if it is there. -/
def Young (now : ℤ) (version : String) (disk : Disk) : Prop :=
  ∀ folder, disk.folders.get version = some folder → now ≤ folder.mtime

theorem filesOf_setFiles
    {change : Dict (String × FileName) (Written String) → Dict (String × FileName) (Written String)}
    (hthere : disk.folders.get version ≠ none) :
    filesOf (disk.setFiles version change) version = change (filesOf disk version) := by
  obtain ⟨folder, hfolder⟩ := Option.ne_none_iff_exists'.mp hthere
  rw [filesOf, filesOf, get_setFiles, if_pos rfl, hfolder]
  rfl

theorem there_setFiles
    {change : Dict (String × FileName) (Written String) → Dict (String × FileName) (Written String)}
    (hthere : disk.folders.get version ≠ none) :
    (disk.setFiles version change).folders.get version ≠ none := by
  rw [get_setFiles, if_pos rfl, ne_eq, Option.map_eq_none_iff]
  exact hthere

theorem young_setFiles
    {change : Dict (String × FileName) (Written String) → Dict (String × FileName) (Written String)}
    (h : Young now version disk) : Young now version (disk.setFiles version change) := by
  intro folder hfolder
  rw [get_setFiles, if_pos rfl, Option.map_eq_some_iff] at hfolder
  obtain ⟨old, hold, rfl⟩ := hfolder
  exact h old hold

/-- A program that stages in `version` and leaves `P` of its files. -/
def Stages (version : String) (now : ℤ) (start : Disk) (operation : Operation Unit) (disk : Disk)
    (P : Dict (String × FileName) (Written String) → Prop) : Prop :=
  ∀ t, operation.Meets disk t (fun _ disk' => SameBut version start disk') fun r disk' _ =>
    r = .ok () ∧ SameBut version start disk' ∧ Young now version disk' ∧
      disk'.folders.get version ≠ none ∧ P (filesOf disk' version)

theorem stages_writeFile (hstart : SameBut version start disk) (hyoung : Young now version disk)
    (path content draw : String) :
    Stages version now start (writeFile version top path content draw now) disk fun files =>
      files.get (top, .of path) = some (.whole content) ∧
        ∀ key : String × FileName, key.2.pending = none → key ≠ (top, .of path) →
          files.get key = (filesOf disk version).get key := by
  intro t
  obtain ⟨folder, hfolder, hmtime, hfiles⟩ := @get_makeFolder version top now disk
  have hmade : SameBut version start (disk.makeFolder version top now) :=
    hstart.trans sameBut_makeFolder
  have hthere : (disk.makeFolder version top now).folders.get version ≠ none := by
    rw [hfolder]
    exact Option.some_ne_none folder
  have hage : Young now version (disk.makeFolder version top now) := by
    intro found hfound
    obtain rfl := Option.some.inj (hfolder.symm.trans hfound)
    rcases hmtime with hnow | ⟨old, hold, hsame⟩
    · exact hnow
    · rw [← hsame]
      exact hyoung old hold
  unfold writeFile
  refine meets_store_bind hmade ?_
  refine meets_store_bind (hmade.trans sameBut_setFiles) ?_
  refine meets_store_bind ((hmade.trans sameBut_setFiles).trans sameBut_setFiles) ?_
  refine meets_store.mpr ⟨((hmade.trans sameBut_setFiles).trans sameBut_setFiles).trans
    sameBut_setFiles, rfl, ((hmade.trans sameBut_setFiles).trans sameBut_setFiles).trans
    sameBut_setFiles, young_setFiles (young_setFiles (young_setFiles hage)),
    there_setFiles (there_setFiles (there_setFiles hthere)), ?_⟩
  have hbase : filesOf (disk.makeFolder version top now) version = filesOf disk version := by
    rw [filesOf, hfolder, Option.elim_some, hfiles]
    rfl
  rw [filesOf_setFiles (there_setFiles (there_setFiles hthere)),
    filesOf_setFiles (there_setFiles hthere), filesOf_setFiles hthere, hbase]
  refine ⟨by rw [Dict.get_set, if_pos rfl], fun key hkey hne => ?_⟩
  have hpending : key ≠ (top, ⟨path, some draw⟩) := by
    rintro rfl
    cases hkey
  rw [Dict.get_set, if_neg hne, Dict.get_delete, if_neg hpending, Dict.get_set, if_neg hpending,
    Dict.get_set, if_neg hpending]

/-- A loop of writes leaves each of its files, and the others as they were. -/
theorem meets_writeAll (files : List ((_ : String) × String)) (draw : String → String)
    (hnodup : (files.map Sigma.fst).Nodup) (hstart : SameBut version start disk)
    (hyoung : Young now version disk) (t : Unit) :
    (Durable.forEach files fun file => writeFile version top file.1 file.2 (draw file.1) now).Meets
      disk t (fun _ disk' => SameBut version start disk') fun r disk' _ =>
        r = .ok () ∧ SameBut version start disk' ∧ Young now version disk' ∧
          (files ≠ [] ∨ disk.folders.get version ≠ none → disk'.folders.get version ≠ none) ∧
          (∀ file ∈ files,
            (filesOf disk' version).get (top, .of file.1) = some (.whole file.2)) ∧
          ∀ key : String × FileName, key.2.pending = none →
            (∀ file ∈ files, key ≠ (top, .of file.1)) →
            (filesOf disk' version).get key = (filesOf disk version).get key := by
  induction files generalizing disk with
  | nil =>
      exact meets_pure.mpr ⟨rfl, hstart, hyoung, fun h => h.resolve_left (fun h => h rfl),
        fun _ h => absurd h List.not_mem_nil, fun _ _ _ => rfl⟩
  | cons file files ih =>
      rw [List.map_cons, List.nodup_cons] at hnodup
      obtain ⟨hfresh, hnodup⟩ := hnodup
      refine meets_bind ((stages_writeFile hstart hyoung file.1 file.2 (draw file.1) t).mono
        (fun _ _ h => h) ?_)
      rintro r next t' ⟨rfl, hsame, hage, hthere, hself, hothers⟩
      refine (ih hnodup hsame hage).mono (fun _ _ h => h) ?_
      rintro r' last t'' ⟨rfl, hsame', hage', hthere', hfiles, hrest⟩
      refine ⟨rfl, hsame', hage', fun _ => hthere' (.inr hthere), ?_, ?_⟩
      · intro found hfound
        rcases List.mem_cons.mp hfound with rfl | hmem
        · rw [hrest _ rfl, hself]
          intro later hlater heq
          apply hfresh
          have hpath : found.1 = later.1 := congrArg (fun key => key.2.path) heq
          rw [hpath]
          exact List.mem_map_of_mem hlater
        · exact hfiles found hmem
      · intro key hkey hne
        rw [hrest key hkey fun found hfound => hne found (List.mem_cons_of_mem _ hfound)]
        exact hothers key hkey (hne file List.mem_cons_self)

/-- What `stageVersion` leaves. -/
theorem meets_stageVersion {name : String} {input : Deployment} {draw : String → String}
    (hname : name ≠ sharedFolder) (hfiles : input.files.entries ≠ [])
    (hmissing : disk.folders.get version = none) (t : Unit) :
    (stageVersion name input version draw now).Meets disk t
      (fun _ disk' => SameBut version disk disk') fun r disk' _ =>
        SameBut version disk disk' ∧ ∀ staged, r = .ok staged →
          staged.name = name ∧ staged.input = input ∧ staged.version = version ∧
            staged.stagedAt = now ∧
            ∃ folder, disk'.folders.get version = some folder ∧ now ≤ folder.mtime ∧
              HoldsFiles folder name input := by
  have hyoung : Young now version disk := by
    intro folder hfolder
    rw [hmissing] at hfolder
    cases hfolder
  unfold stageVersion
  refine meets_returned (returns_disk.mpr rfl) ?_
  refine meets_look (fun _ => ⟨.refl, nofun⟩) fun _ _ => ?_
  refine meets_bind ((meets_writeAll _ draw input.files.nodupKeys SameBut.refl hyoung t).mono
    (fun _ _ h => h) ?_)
  rintro r next t' ⟨rfl, hsame, hage, hthere, hself, hothers⟩
  refine meets_bind ((meets_writeAll _ draw input.shared.nodupKeys hsame hage t').mono
    (fun _ _ h => h) ?_)
  rintro r' last t'' ⟨rfl, hsame', hage', hthere', hself', hothers'⟩
  refine meets_pure.mpr ⟨hsame', ?_⟩
  rintro staged hstaged
  obtain rfl := Except.ok.inj hstaged
  refine ⟨rfl, rfl, rfl, rfl, ?_⟩
  obtain ⟨folder, hfolder⟩ :=
    Option.ne_none_iff_exists'.mp (hthere' (.inr (hthere (.inl hfiles))))
  have hfilesOf : filesOf last version = folder.files := by
    rw [filesOf, hfolder]
    rfl
  rw [hfilesOf] at hself' hothers'
  refine ⟨folder, hfolder, hage' folder hfolder, fun path content hget => ?_,
    fun path content hget => hself' ⟨path, content⟩ (Dict.get_eq_some.mp hget)⟩
  rw [hothers' (name, .of path) rfl]
  · exact hself ⟨path, content⟩ (Dict.get_eq_some.mp hget)
  · intro file _ heq
    exact hname (congrArg Prod.fst heq)

end

/-! ## Removing -/

theorem meets_removeFolder {version : String} (disk : Disk) (t : Unit) :
    (removeFolder version).Meets disk t (fun _ disk' => SameBut version disk disk')
      fun r disk' _ => r = .ok () ∧ SameBut version disk disk' := by
  unfold removeFolder
  refine meets_returned (returns_disk.mpr rfl) ?_
  refine meets_bind ((meets_forEach (I := fun disk' _ => SameBut version disk disk') _ ?_
    SameBut.refl).mono (fun _ _ h => h) ?_)
  · intro file _ disk' t' hsame
    exact meets_store.mpr ⟨hsame.trans sameBut_setFiles, rfl, hsame.trans sameBut_setFiles⟩
  · rintro r disk' t' ⟨rfl, hsame⟩
    have hlast : SameBut version disk
        { disk' with folders := disk'.folders.delete version } :=
      hsame.trans ⟨rfl, rfl, fun other hne => by rw [Dict.get_delete, if_neg hne]⟩
    exact meets_store.mpr ⟨hlast, rfl, hlast⟩

end Sbarbase.Functions.Proofs.Folders
