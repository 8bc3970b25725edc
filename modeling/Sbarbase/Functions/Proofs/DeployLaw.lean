import Sbarbase.Functions.Proofs.Folders
/-!
# What the functions folder holds at any time

One lemma for each operation, over all disks a crash in it can leave, and from
them the invariant of the process and its disk.
-/

namespace Sbarbase.Functions.Proofs.DeployLaw

open Lib Lib.Durable Functions Functions.Proofs.Folders

section

variable {held others : Staged → Prop} {disk : Disk} {manifest : Manifest} {now : ℤ}

/-! ## Pruning -/

theorem not_referenced_of_entries {version : String}
    (h : ∀ entry ∈ manifest.entries, entry.2.version ≠ version) :
    ¬ Referenced manifest version := by
  rintro ⟨name, entry, hentry, rfl⟩
  exact h ⟨name, entry⟩ (Dict.get_eq_some.mp hentry) rfl

theorem meets_pruneFolder (hsafe : Safe held disk) (hmanifest : readManifest disk = manifest)
    (hage : ∀ staged, held staged → now - staged.stagedAt ≤ pruneAfterMs) (version : String)
    (t : Unit) :
    (pruneFolder manifest now version).Meets disk t
      (fun _ disk' => Safe held disk' ∧ disk'.done = disk.done) fun r disk' _ =>
        r = .ok () ∧ Safe held disk' ∧ readManifest disk' = manifest ∧
          disk'.done = disk.done := by
  unfold pruneFolder
  refine meets_returned (returns_disk.mpr rfl) ?_
  unfold whenever
  simp only
  split_ifs with hdoomed
  · obtain ⟨-, hunused, hold⟩ := hdoomed
    obtain ⟨folder, hfolder, hmtime⟩ := (Option.any_eq_true _ _).mp hold
    have hloose : Loose held disk version := by
      refine ⟨by rw [hmanifest]; exact not_referenced_of_entries hunused, ?_⟩
      rintro staged hstaged rfl
      -- a staged version is younger than what is pruned
      obtain ⟨found, hfound, hyoung, -⟩ := (hsafe.kept staged hstaged).folder
      obtain rfl := Option.some.inj (hfolder.symm.trans hfound)
      have hlimit := hage staged hstaged
      have hlate := of_decide_eq_true hmtime
      omega
    refine (meets_removeFolder disk t).mono (fun _ _ hsame => ?_) ?_
    · exact ⟨hsafe.sameBut hloose hsame, hsame.done⟩
    · rintro r disk' t' ⟨rfl, hsame⟩
      exact ⟨rfl, hsafe.sameBut hloose hsame, hsame.readManifest.trans hmanifest, hsame.done⟩
  · exact meets_pure.mpr ⟨rfl, hsafe, hmanifest, rfl⟩

theorem meets_prune (hsafe : Safe held disk) (hmanifest : readManifest disk = manifest)
    (hage : ∀ staged, held staged → now - staged.stagedAt ≤ pruneAfterMs) (t : Unit) :
    (prune manifest now).Meets disk t
      (fun _ disk' => Safe held disk' ∧ disk'.done = disk.done) fun r disk' _ =>
        r = .ok () ∧ Safe held disk' ∧ disk'.done = disk.done := by
  unfold prune
  refine meets_returned (returns_disk.mpr rfl) ?_
  refine (meets_forEach (I := fun disk' _ => Safe held disk' ∧ readManifest disk' = manifest ∧
    disk'.done = disk.done) _ ?_ ⟨hsafe, hmanifest, rfl⟩).mono (fun _ _ h => h) ?_
  · rintro version - disk' t' ⟨hsafe', hmanifest', hdone⟩
    refine (meets_pruneFolder hsafe' hmanifest' hage version t').mono (fun _ _ h => ?_) ?_
    · exact ⟨h.1, h.2.trans hdone⟩
    · rintro r last t'' ⟨rfl, hlast, hmanifest'', hdone'⟩
      exact ⟨rfl, hlast, hmanifest'', hdone'.trans hdone⟩
  · rintro r disk' t' ⟨rfl, hsafe', -, hdone⟩
    exact ⟨rfl, hsafe', hdone⟩

/-! ## The manifest -/

theorem safe_of_same {disk' : Disk} (h : Safe held disk)
    (hfile : disk'.files.get functionsJson = disk.files.get functionsJson)
    (hfolders : disk'.folders = disk.folders) (hdone : disk'.done = disk.done) :
    Safe held disk' := by
  have hread : readManifest disk' = readManifest disk := by
    rw [readManifest, readManifest, hfile]
  refine ⟨by rw [hfile]; exact h.whole, by rw [hread, hdone]; exact h.replayed,
    by rw [hread]; exact h.count, ?_, fun staged hstaged => ?_⟩
  · rw [hread, hdone]
    intro name entry hentry
    obtain ⟨input, size, time, hmem, folder, hfolder, hfiles⟩ := h.backed name entry hentry
    exact ⟨input, size, time, hmem, folder, by rw [hfolders, hfolder], hfiles⟩
  · obtain ⟨folder, hfolder, hrest⟩ := (h.kept staged hstaged).folder
    exact ⟨⟨folder, by rw [hfolders, hfolder], hrest⟩,
      by rw [hread]; exact (h.kept staged hstaged).unreferenced⟩

/-- A manifest that may replace the one on the disk by `change`. -/
structure Follows (held : Staged → Prop) (disk : Disk) (manifest : Manifest) (change : Change) :
    Prop where
  applied : apply change (readManifest disk) = manifest
  count : manifest.keys.length ≤ MAX_FUNCTIONS
  backed : Backed disk manifest (disk.done ++ [change])
  unreferenced : ∀ staged, held staged → ¬ Referenced manifest staged.version

theorem safe_replaced {disk' : Disk} {change : Change} (h : Safe held disk)
    (hnext : Follows held disk manifest change)
    (hfile : disk'.files.get functionsJson = some (.whole manifest))
    (hfolders : disk'.folders = disk.folders) (hdone : disk'.done = disk.done ++ [change]) :
    Safe held disk' ∧ readManifest disk' = manifest := by
  have hread : readManifest disk' = manifest := by rw [readManifest, hfile]
  refine ⟨⟨by rw [hfile]; simp, ?_, by rw [hread]; exact hnext.count, ?_, fun staged hstaged => ?_⟩,
    hread⟩
  · rw [hread, hdone, replay, List.foldl_append, ← hnext.applied, h.replayed]
    rfl
  · rw [hread, hdone]
    intro name entry hentry
    obtain ⟨input, size, time, hmem, folder, hfolder, hfiles⟩ := hnext.backed name entry hentry
    exact ⟨input, size, time, hmem, folder, by rw [hfolders, hfolder], hfiles⟩
  · obtain ⟨folder, hfolder, hrest⟩ := (h.kept staged hstaged).folder
    exact ⟨⟨folder, by rw [hfolders, hfolder], hrest⟩,
      by rw [hread]; exact hnext.unreferenced staged hstaged⟩

/-- The disks between the start of an operation and its end: its change took effect or not. -/
def Between (held : Staged → Prop) (done : List Change) (change : Change) (disk : Disk) : Prop :=
  Safe held disk ∧ (disk.done = done ∨ disk.done = done ++ [change])

theorem pending_ne (draw : String) : functionsJson ≠ ⟨functionsJson.path, some draw⟩ := by
  intro h
  cases congrArg FileName.pending h

theorem meets_writeManifest {change : Change} (hsafe : Safe held disk)
    (hnext : Follows held disk manifest change) (draw : String) (t : Unit) :
    (writeManifest manifest draw change).Meets disk t
      (fun _ => Between held disk.done change) fun r disk' _ =>
        r = .ok () ∧ Safe held disk' ∧ readManifest disk' = manifest ∧
          disk'.done = disk.done ++ [change] := by
  unfold writeManifest
  refine meets_store_bind ⟨safe_of_same hsafe ?_ rfl rfl, .inl rfl⟩ ?_
  · rw [Dict.get_set, if_neg (pending_ne draw)]
  refine meets_store_bind ⟨safe_of_same hsafe ?_ rfl rfl, .inl rfl⟩ ?_
  · simp only [Dict.get_set, if_neg (pending_ne draw)]
  -- the rename
  have hlast : ∀ disk' : Disk, disk'.files.get functionsJson = some (.whole manifest) →
      disk'.folders = disk.folders → disk'.done = disk.done ++ [change] →
      Between held disk.done change disk' ∧ Safe held disk' ∧ readManifest disk' = manifest ∧
        disk'.done = disk.done ++ [change] := by
    intro disk' hfile hfolders hdone
    obtain ⟨hsafe', hread⟩ := safe_replaced hsafe hnext hfile hfolders hdone
    exact ⟨⟨hsafe', .inr hdone⟩, hsafe', hread, hdone⟩
  refine meets_store.mpr ?_
  obtain ⟨hbetween, hend⟩ := hlast { disk with
    files := (((disk.files.set ⟨functionsJson.path, some draw⟩ .torn).set
      ⟨functionsJson.path, some draw⟩ (.whole manifest)).delete
        ⟨functionsJson.path, some draw⟩).set functionsJson (.whole manifest)
    done := disk.done ++ [change] } (by rw [Dict.get_set, if_pos rfl]) rfl rfl
  exact ⟨hbetween, rfl, hend⟩

/-- The manifest is written, and then what nothing uses is pruned. -/
theorem meets_written {α : Type} {change : Change} (hsafe : Safe held disk)
    (hnext : Follows held disk manifest change)
    (hage : ∀ staged, held staged → now - staged.stagedAt ≤ pruneAfterMs) (draw : String)
    (result : α) (t : Unit) :
    (do
      writeManifest manifest draw change
      prune manifest now
      return result : Operation α).Meets disk t
      (fun _ => Between held disk.done change) fun r disk' _ =>
        r = .ok result ∧ Safe held disk' ∧ disk'.done = disk.done ++ [change] := by
  refine meets_bind ((meets_writeManifest hsafe hnext draw t).mono (fun _ _ h => h) ?_)
  rintro r written t' ⟨rfl, hsafe', hread, hdone⟩
  refine meets_bind ((meets_prune hsafe' hread hage t').mono (fun _ _ h => ?_) ?_)
  · exact ⟨h.1, .inr (h.2.trans hdone)⟩
  · rintro r' pruned t'' ⟨rfl, hsafe'', hdone'⟩
    exact meets_pure.mpr ⟨rfl, hsafe'', hdone'.trans hdone⟩

/-! ## What may replace the manifest -/

theorem keys_set_le (name : String) (entry : FunctionEntry) (hroom : manifest.has name ∨
    ¬ full manifest) (hcount : manifest.keys.length ≤ MAX_FUNCTIONS) :
    (manifest.set name entry).keys.length ≤ MAX_FUNCTIONS := by
  rw [Dict.set, AList.keys_insert, List.length_cons]
  by_cases hmem : name ∈ manifest.keys
  · have hpos := List.length_pos_of_mem hmem
    rw [List.length_erase_of_mem hmem]
    omega
  · rw [List.erase_of_not_mem hmem]
    have hnone : manifest.has name = false := by
      rw [Dict.has, Dict.get, Option.isSome_eq_false_iff, Option.isNone_iff_eq_none]
      exact AList.lookup_eq_none.mpr hmem
    have hfull := hroom.resolve_left (by rw [hnone]; exact Bool.false_ne_true)
    rw [full] at hfull
    omega

theorem follows_deployed {staged : Staged} (hsafe : Safe held disk) (hstaged : held staged)
    (hothers : ∀ other, others other → held other ∧ other.version ≠ staged.version)
    (hroom : (readManifest disk).has staged.name ∨ ¬ full (readManifest disk)) :
    Follows others disk
      ((readManifest disk).set staged.name (deployedEntry ((readManifest disk).get staged.name)
        staged.version staged.input.verifyJwt staged.size now))
      (.deployed staged.name staged.version staged.input staged.size now) where
  applied := rfl
  count := keys_set_le _ _ hroom hsafe.count
  backed := by
    intro name entry hentry
    rw [Dict.get_set] at hentry
    split_ifs at hentry with hname
    · obtain rfl := Option.some.inj hentry
      obtain ⟨folder, hfolder, -, hfiles⟩ := (hsafe.kept staged hstaged).folder
      rw [hname]
      exact ⟨staged.input, staged.size, now, List.mem_append_right _ List.mem_cons_self, folder,
        hfolder, hfiles⟩
    · obtain ⟨input, size, time, hmem, hcomplete⟩ := hsafe.backed name entry hentry
      exact ⟨input, size, time, List.mem_append_left _ hmem, hcomplete⟩
  unreferenced := by
    rintro other hother ⟨name, entry, hentry, hversion⟩
    rw [Dict.get_set] at hentry
    split_ifs at hentry with hname
    · obtain rfl := Option.some.inj hentry
      exact (hothers other hother).2 hversion.symm
    · exact (hsafe.kept other (hothers other hother).1).unreferenced ⟨name, entry, hentry, hversion⟩

theorem follows_switched {name : String} {before : FunctionEntry} (verify : Bool)
    (hsafe : Safe held disk) (hbefore : (readManifest disk).get name = some before) :
    Follows held disk ((readManifest disk).set name { before with verifyJwt := verify })
      (.jwtSwitched name verify) where
  applied := by rw [apply, hbefore]
  count := keys_set_le _ _ (.inl (by rw [Dict.has, hbefore]; rfl)) hsafe.count
  backed := by
    intro other entry hentry
    have hold : ∃ old, (readManifest disk).get other = some old ∧ old.version = entry.version := by
      rw [Dict.get_set] at hentry
      split_ifs at hentry with hname
      · obtain rfl := Option.some.inj hentry
        exact ⟨before, by rw [hname, hbefore], rfl⟩
      · exact ⟨entry, hentry, rfl⟩
    obtain ⟨old, hget, hversion⟩ := hold
    obtain ⟨input, size, time, hmem, hcomplete⟩ := hsafe.backed other old hget
    rw [hversion] at hmem hcomplete
    exact ⟨input, size, time, List.mem_append_left _ hmem, hcomplete⟩
  unreferenced := by
    rintro staged hstaged ⟨other, entry, hentry, hversion⟩
    apply (hsafe.kept staged hstaged).unreferenced
    rw [Dict.get_set] at hentry
    split_ifs at hentry with hname
    · obtain rfl := Option.some.inj hentry
      exact ⟨name, before, hbefore, hversion⟩
    · exact ⟨other, entry, hentry, hversion⟩

theorem follows_removed (name : String) (hsafe : Safe held disk) :
    Follows held disk ((readManifest disk).delete name) (.removed name) where
  applied := rfl
  count := by
    rw [Dict.delete, AList.keys_erase]
    exact List.length_erase_le.trans hsafe.count
  backed := by
    intro other entry hentry
    rw [Dict.get_delete] at hentry
    split_ifs at hentry
    obtain ⟨input, size, time, hmem, hcomplete⟩ := hsafe.backed other entry hentry
    exact ⟨input, size, time, List.mem_append_left _ hmem, hcomplete⟩
  unreferenced := by
    rintro staged hstaged ⟨other, entry, hentry, hversion⟩
    rw [Dict.get_delete] at hentry
    split_ifs at hentry
    exact (hsafe.kept staged hstaged).unreferenced ⟨other, entry, hentry, hversion⟩

/-! ## Operations -/

theorem meets_discardVersion {version : String} (hsafe : Safe held disk)
    (hloose : Loose held disk version) (t : Unit) :
    (discardVersion version).Meets disk t
      (fun _ disk' => Safe held disk' ∧ disk'.done = disk.done) fun _ disk' _ =>
        Safe held disk' ∧ disk'.done = disk.done := by
  unfold discardVersion
  refine meets_look (fun _ => ⟨hsafe, rfl⟩) fun _ _ => ?_
  refine (meets_removeFolder disk t).mono (fun _ _ hsame => ?_) ?_
  · exact ⟨hsafe.sameBut hloose hsame, hsame.done⟩
  · rintro r disk' t' ⟨-, hsame⟩
    exact ⟨hsafe.sameBut hloose hsame, hsame.done⟩

theorem loose_of_others {staged : Staged} (hsafe : Safe held disk) (hstaged : held staged)
    (hothers : ∀ other, others other → held other ∧ other.version ≠ staged.version) :
    Loose others disk staged.version :=
  ⟨(hsafe.kept staged hstaged).unreferenced, fun other hother => (hothers other hother).2⟩

theorem meets_publish {staged : Staged} (hsafe : Safe held disk) (hstaged : held staged)
    (hothers : ∀ other, others other → held other ∧ other.version ≠ staged.version)
    (hage : ∀ other, others other → now - other.stagedAt ≤ pruneAfterMs) (draw : String)
    (t : Unit) :
    (publish staged draw now).Meets disk t
      (fun _ => Between others disk.done
        (.deployed staged.name staged.version staged.input staged.size now)) fun r disk' _ =>
        Safe others disk' ∧ match r with
          | .ok _ => disk'.done = disk.done ++
              [.deployed staged.name staged.version staged.input staged.size now]
          | .error _ => disk'.done = disk.done := by
  have hsafe' : Safe others disk := hsafe.weaken fun other hother => (hothers other hother).1
  unfold publish
  refine meets_orElse ?_
  have hdiscard : ∀ reason : String, (do
      discardVersion staged.version
      Durable.throw reason : Operation FunctionEntry).Meets disk t
      (fun _ => Between others disk.done
        (.deployed staged.name staged.version staged.input staged.size now)) fun r disk' _ =>
        Safe others disk' ∧ match r with
          | .ok _ => disk'.done = disk.done ++
              [.deployed staged.name staged.version staged.input staged.size now]
          | .error _ => disk'.done = disk.done := by
    intro reason
    refine meets_bind ((meets_discardVersion hsafe' (loose_of_others hsafe hstaged hothers) t).mono
      (fun _ _ h => ⟨h.1, .inl h.2⟩) ?_)
    rintro (e | u) disk' t' h
    · exact h
    · exact meets_throw.mpr h
  unfold commitVersion
  refine meets_returned (returns_disk.mpr rfl) ?_
  refine meets_look (fun reason => hdiscard reason) fun _ hroom => ?_
  refine (meets_written hsafe' (follows_deployed hsafe hstaged hothers
    (returns_require.mp hroom)) hage draw _ t).mono (fun _ _ h => h) ?_
  rintro r disk' t' ⟨rfl, hsafe'', hdone⟩
  exact ⟨hsafe'', hdone⟩

theorem meets_setVerifyJwt {name : String} {verify : Bool} (hsafe : Safe held disk)
    (draw : String) (t : Unit) :
    (setVerifyJwt name verify draw).Meets disk t
      (fun _ => Between held disk.done (.jwtSwitched name verify)) fun r disk' _ =>
        Safe held disk' ∧ match r with
          | .ok (some _) => disk'.done = disk.done ++ [.jwtSwitched name verify]
          | _ => disk'.done = disk.done := by
  unfold setVerifyJwt
  refine meets_returned (returns_disk.mpr rfl) ?_
  split
  · exact meets_pure.mpr ⟨hsafe, rfl⟩
  · rename_i before hbefore
    refine meets_bind ((meets_writeManifest hsafe (follows_switched verify hsafe hbefore) draw
      t).mono (fun _ _ h => h) ?_)
    rintro r disk' t' ⟨rfl, hsafe', -, hdone⟩
    exact meets_pure.mpr ⟨hsafe', hdone⟩

theorem meets_remove {name : String} (hsafe : Safe held disk)
    (hage : ∀ staged, held staged → now - staged.stagedAt ≤ pruneAfterMs) (draw : String)
    (t : Unit) :
    (remove name draw now).Meets disk t
      (fun _ => Between held disk.done (.removed name)) fun r disk' _ =>
        Safe held disk' ∧ match r with
          | .ok true => disk'.done = disk.done ++ [.removed name]
          | _ => disk'.done = disk.done := by
  unfold remove
  refine meets_returned (returns_disk.mpr rfl) ?_
  split_ifs with hhas
  · refine (meets_written hsafe (follows_removed name hsafe) hage draw true t).mono
      (fun _ _ h => h) ?_
    rintro r disk' t' ⟨rfl, hsafe', hdone⟩
    exact ⟨hsafe', hdone⟩
  · exact meets_pure.mpr ⟨hsafe, rfl⟩

end

/-! ## The process and its disk -/

/-- The deploys under way. -/
def Holding (staged : Dict ℕ Staged) (deploy : Staged) : Prop := ∃ id, staged.get id = some deploy

structure Inv (s : State) : Prop where
  safe : Safe (Holding s.staged) s.disk
  distinct : ∀ i j a b, s.staged.get i = some a → s.staged.get j = some b →
    a.version = b.version → i = j
  prompt : ∀ i a, s.staged.get i = some a → s.clock ≤ a.stagedAt + bootTimeoutMs

/-- What a request may leave: a disk to start from wherever it is cut, the
invariant at its end, and exactly the change it reports. -/
structure Good (s : State) (trace : Trace) : Prop where
  passed : ∀ disk ∈ trace.passed, Safe (fun _ => False) disk ∧
    (disk.done = s.disk.done ∨ ∃ change, disk.done = s.disk.done ++ [change])
  ended : Inv { s with disk := trace.ended.disk, staged := trace.ended.staged }
  reported : trace.ended.disk.done = s.disk.done ++ trace.ended.reported.toList

theorem Inv.age {s : State} (h : Inv s) {deploy : Staged} (hstaged : Holding s.staged deploy) :
    s.clock - deploy.stagedAt ≤ pruneAfterMs := by
  obtain ⟨id, hget⟩ := hstaged
  have hclock := h.prompt id deploy hget
  have hlimit : bootTimeoutMs ≤ pruneAfterMs := by decide
  omega

theorem good_refuse {s : State} (h : Inv s) : Good s s.refuse where
  passed := fun _ hmem => absurd hmem List.not_mem_nil
  ended := h
  reported := (List.append_nil _).symm

/-- An operation is good if what it meets is. -/
theorem good_perform {α : Type} {s : State} {operation : Operation α} {held : Staged → Prop}
    {next : Except String α → Option Change × Dict ℕ Staged}
    {Q : Except String α → Disk → Unit → Prop}
    (h : operation.Meets s.disk () (fun _ disk => Safe held disk ∧
      (disk.done = s.disk.done ∨ ∃ change, disk.done = s.disk.done ++ [change])) Q)
    (hended : ∀ outcome disk, Q outcome disk () →
      Inv { s with disk := disk, staged := (next outcome).2 } ∧
        disk.done = s.disk.done ++ (next outcome).1.toList) :
    Good s (s.perform operation next) where
  passed := by
    intro disk hmem
    obtain ⟨hsafe, hdone⟩ := forall_of_isChain h.1 disk hmem
    exact ⟨hsafe.weaken fun _ hfalse => hfalse.elim, hdone⟩
  ended := (hended _ _ h.2.2).1
  reported := (hended _ _ h.2.2).2

theorem between_imp {held : Staged → Prop} {done : List Change} {change : Change} {disk : Disk}
    (h : Between held done change disk) :
    Safe held disk ∧ (disk.done = done ∨ ∃ change, disk.done = done ++ [change]) :=
  ⟨h.1, h.2.imp_right fun hdone => ⟨change, hdone⟩⟩

/-- A deploy less: the others are as they were. -/
theorem others_of_delete {s : State} (h : Inv s) {deploy : ℕ} {staged : Staged}
    (hget : s.staged.get deploy = some staged) :
    ∀ other, Holding (s.staged.delete deploy) other →
      Holding s.staged other ∧ other.version ≠ staged.version := by
  rintro other ⟨id, hother⟩
  rw [Dict.get_delete] at hother
  split_ifs at hother with hid
  exact ⟨⟨id, hother⟩, fun heq => hid (h.distinct id deploy other staged hother hget heq)⟩

theorem Inv.delete {s : State} (h : Inv s) (deploy : ℕ) {disk : Disk}
    (hsafe : Safe (Holding (s.staged.delete deploy)) disk) :
    Inv { s with disk := disk, staged := s.staged.delete deploy } where
  safe := hsafe
  distinct := by
    intro i j a b ha hb
    rw [Dict.get_delete] at ha hb
    split_ifs at ha hb
    exact h.distinct i j a b ha hb
  prompt := by
    intro i a ha
    rw [Dict.get_delete] at ha
    split_ifs at ha
    exact h.prompt i a ha

theorem Inv.set {s : State} (h : Inv s) {deploy : ℕ} {staged : Staged} {disk : Disk}
    (hsafe : Safe (Holding s.staged) disk) (hkept : Kept disk staged)
    (hloose : ∀ other, Holding s.staged other → other.version ≠ staged.version)
    (hstart : staged.stagedAt = s.clock) :
    Inv { s with disk := disk, staged := s.staged.set deploy staged } where
  safe := by
    refine { hsafe with kept := ?_ }
    rintro other ⟨id, hother⟩
    rw [Dict.get_set] at hother
    split_ifs at hother with hid
    · obtain rfl := Option.some.inj hother
      exact hkept
    · exact hsafe.kept other ⟨id, hother⟩
  distinct := by
    intro i j a b ha hb heq
    rw [Dict.get_set] at ha hb
    split_ifs at ha hb with hi hj hj
    · rw [hi, hj]
    · obtain rfl := Option.some.inj ha
      exact absurd heq.symm (hloose b ⟨j, hb⟩)
    · obtain rfl := Option.some.inj hb
      exact absurd heq (hloose a ⟨i, ha⟩)
    · exact h.distinct i j a b ha hb heq
  prompt := by
    intro i a ha
    rw [Dict.get_set] at ha
    split_ifs at ha
    · obtain rfl := Option.some.inj ha
      have hlimit : 0 ≤ bootTimeoutMs := by decide
      simp only
      omega
    · exact h.prompt i a ha

theorem good_stage {s : State} (h : Inv s) {deploy : ℕ} {name version : String}
    {input : Deployment} {draw : String → String} (hname : name ≠ sharedFolder)
    (hfiles : input.files.entries ≠ []) (hmissing : s.disk.folders.get version = none) :
    Good s (s.stage deploy name input version draw) := by
  have hloose := h.safe.loose_of_missing hmissing
  refine good_perform ((meets_stageVersion hname hfiles hmissing ()).mono (fun _ _ hsame =>
    ⟨h.safe.sameBut hloose hsame, .inl hsame.done⟩) fun _ _ _ hQ => hQ) ?_
  rintro (reason | staged) disk ⟨hsame, hstaged⟩
  · exact ⟨⟨h.safe.sameBut hloose hsame, h.distinct, h.prompt⟩,
      hsame.done.trans (List.append_nil _).symm⟩
  · obtain ⟨rfl, rfl, rfl, hstart, folder, hfolder, hmtime, hholds⟩ := hstaged staged rfl
    have hkept : Kept disk staged :=
      ⟨⟨folder, hfolder, hstart.trans_le hmtime, hholds⟩, (hloose.sameBut hsame).unreferenced⟩
    exact ⟨h.set (h.safe.sameBut hloose hsame) hkept hloose.unheld hstart,
      hsame.done.trans (List.append_nil _).symm⟩

theorem good_publish {s : State} (h : Inv s) {deploy : ℕ} {staged : Staged} (draw : String)
    (hget : s.staged.get deploy = some staged) : Good s (s.publish deploy staged draw) := by
  have hothers := others_of_delete h hget
  refine good_perform ((meets_publish h.safe ⟨deploy, hget⟩ hothers
    (fun other hother => h.age (hothers other hother).1) draw ()).mono
    (fun _ _ hbetween => between_imp hbetween) fun _ _ _ hQ => hQ) ?_
  rintro (reason | entry) disk ⟨hsafe, hdone⟩
  · exact ⟨h.delete deploy hsafe, hdone.trans (List.append_nil _).symm⟩
  · exact ⟨h.delete deploy hsafe, hdone⟩

theorem good_discard {s : State} (h : Inv s) {deploy : ℕ} {staged : Staged}
    (hget : s.staged.get deploy = some staged) :
    Good s (s.perform (discardVersion staged.version)
      fun _ => (none, s.staged.delete deploy)) := by
  have hothers := others_of_delete h hget
  have hsafe : Safe (Holding (s.staged.delete deploy)) s.disk :=
    h.safe.weaken fun other hother => (hothers other hother).1
  refine good_perform ((meets_discardVersion hsafe
    (loose_of_others h.safe ⟨deploy, hget⟩ hothers) ()).mono (fun _ _ hbetween =>
      ⟨hbetween.1, .inl hbetween.2⟩) fun _ _ _ hQ => hQ) ?_
  rintro outcome disk ⟨hsafe', hdone⟩
  exact ⟨h.delete deploy hsafe', hdone.trans (List.append_nil _).symm⟩

theorem Inv.sameStaged {s : State} (h : Inv s) {disk : Disk}
    (hsafe : Safe (Holding s.staged) disk) : Inv { s with disk := disk, staged := s.staged } :=
  ⟨hsafe, h.distinct, h.prompt⟩

/-! ## The conditions on a run -/

/-- The name drawn for a version is not the name of a folder. -/
def FreshVersion (s : State) : Request → Prop
  | .stage _ _ _ _ _ version _ => s.disk.folders.get version = none
  | _ => True

instance (s : State) : ∀ request, Decidable (FreshVersion s request)
  | .stage _ _ _ _ _ version _ => decidable_of_iff ((s.disk.folders.get version).isNone = true)
      Option.isNone_iff_eq_none
  | .publish .. | .discard .. | .setVerifyJwt .. | .remove .. => inferInstanceAs (Decidable True)

/-- Versions are drawn anew, and no boot check takes longer than its deadline. -/
def Regular (s : State) : Event → Prop
  | .tick milliseconds => ∀ entry ∈ s.staged.entries,
      s.clock + milliseconds ≤ entry.2.stagedAt + bootTimeoutMs
  | .run request | .crash request _ => FreshVersion s request

instance (s : State) : ∀ e, Decidable (Regular s e)
  | .tick _ => inferInstanceAs (Decidable (∀ entry ∈ s.staged.entries, _))
  | .run request | .crash request _ => inferInstanceAs (Decidable (FreshVersion s request))

theorem entries_of_deployment {files shared : Dict String String} {verifyJwt : Option Bool}
    {input : Deployment} (h : deployment files shared verifyJwt = .ok input) :
    input.files.entries ≠ [] := by
  simp only [deployment, Checked.bind_eq_ok, Checked.require_eq_ok, Checked.pure_eq_ok] at h
  obtain ⟨_, _, _, _, _, hentry, _, _, rfl⟩ := h
  obtain ⟨path, -, hhas⟩ := List.any_eq_true.mp hentry
  obtain ⟨content, hget⟩ := Option.isSome_iff_exists.mp hhas
  exact List.ne_nil_of_mem (Dict.get_eq_some.mp hget)

theorem name_ne_sharedFolder {name : String} (h : isFunctionName name = true) :
    name ≠ sharedFolder := by
  rintro rfl
  revert h
  decide

theorem good_handle {s : State} (h : Inv s) (request : Request) (hfresh : FreshVersion s request) :
    Good s (s.handle request) := by
  cases request with
  | stage deploy name files shared verifyJwt version draw =>
      simp only [State.handle]
      split
      · exact good_refuse h
      · rename_i input hinput
        split_ifs with hname
        · exact good_stage h (name_ne_sharedFolder hname.1) (entries_of_deployment hinput) hfresh
        · exact good_refuse h
  | publish deploy draw =>
      simp only [State.handle]
      split
      · exact good_refuse h
      · rename_i staged hget
        exact good_publish h draw hget
  | discard deploy =>
      simp only [State.handle]
      split
      · exact good_refuse h
      · rename_i staged hget
        exact good_discard h hget
  | setVerifyJwt name verify draw =>
      simp only [State.handle]
      refine good_perform ((meets_setVerifyJwt h.safe draw ()).mono
        (fun _ _ hbetween => between_imp hbetween) fun _ _ _ hQ => hQ) ?_
      rintro (reason | entry | entry) disk ⟨hsafe, hdone⟩
      · exact ⟨h.sameStaged hsafe, hdone.trans (List.append_nil _).symm⟩
      · exact ⟨h.sameStaged hsafe, hdone.trans (List.append_nil _).symm⟩
      · exact ⟨h.sameStaged hsafe, hdone⟩
  | remove name draw =>
      simp only [State.handle]
      refine good_perform ((meets_remove h.safe (fun other hother => h.age hother) draw ()).mono
        (fun _ _ hbetween => between_imp hbetween) fun _ _ _ hQ => hQ) ?_
      rintro (reason | removed | removed) disk ⟨hsafe, hdone⟩
      · exact ⟨h.sameStaged hsafe, hdone.trans (List.append_nil _).symm⟩
      · exact ⟨h.sameStaged hsafe, hdone.trans (List.append_nil _).symm⟩
      · exact ⟨h.sameStaged hsafe, hdone⟩

/-- The disk that a cut leaves is one that was passed, or the one before. -/
theorem cut_mem (passed : List Disk) (disk : Disk) (writes : ℕ) :
    (passed.take writes).getLastD disk = disk ∨ (passed.take writes).getLastD disk ∈ passed := by
  rcases List.mem_cons.mp (getLastD_mem (passed.take writes) disk) with h | h
  · exact .inl h
  · exact .inr (List.mem_of_mem_take h)

theorem inv_step (s : State) (e : Event) (he : Regular s e) (h : Inv s) : Inv (step s e) := by
  cases e with
  | tick milliseconds =>
      refine ⟨h.safe, h.distinct, fun i a ha => ?_⟩
      exact he ⟨i, a⟩ (Dict.get_eq_some.mp ha)
  | run request => exact (good_handle h request he).ended
  | crash request writes =>
      have hsafe : Safe (fun _ => False) (step s (.crash request writes)).disk := by
        simp only [step]
        rcases cut_mem (s.handle request).passed s.disk writes with hsame | hmem
        · rw [hsame]
          exact h.safe.weaken fun _ hfalse => hfalse.elim
        · exact ((good_handle h request he).passed _ hmem).1
      refine ⟨hsafe.weaken ?_, ?_, ?_⟩
      · rintro other ⟨id, hother⟩
        cases hother
      · intro i j a b ha
        cases ha
      · intro i a ha
        cases ha

/-- What an event did to the changes: what it reported, or what was cut short. -/
def Recorded (s s' : State) : Event → Prop
  | .tick _ => s'.disk.done = s.disk.done
  | .run request => s'.disk.done = s.disk.done ++ (s.handle request).ended.reported.toList
  | .crash _ _ => s'.disk.done = s.disk.done ∨ ∃ change, s'.disk.done = s.disk.done ++ [change]

theorem recorded_step (s : State) (e : Event) (he : Regular s e) (h : Inv s) :
    Recorded s (step s e) e := by
  cases e with
  | tick milliseconds => exact rfl
  | run request => exact (good_handle h request he).reported
  | crash request writes =>
      simp only [Recorded, step]
      rcases cut_mem (s.handle request).passed s.disk writes with hsame | hmem
      · rw [hsame]
        exact .inl rfl
      · exact ((good_handle h request he).passed _ hmem).2

theorem inv_initial (start : ℤ) : Inv (machine start).initial where
  safe := ⟨nofun, rfl, Nat.zero_le _, nofun, by rintro staged ⟨id, hget⟩; cases hget⟩
  distinct := by
    intro i j a b ha
    cases ha
  prompt := by
    intro i a ha
    cases ha

def helloFiles : Dict String String := (∅ : Dict String String).set "index.ts" "export {}"

def hello : List Event :=
  [.crash (.stage 0 "hello" helloFiles ∅ none "vmhq3k2a0-00000000" fun _ => "0a0a0a0a") 3,
    .tick 1000,
    .run (.stage 0 "hello" helloFiles ∅ none "vmhq3k2rs-11111111" fun _ => "1b1b1b1b"),
    .tick 20000, .run (.publish 0 "2c2c2c2c"), .run (.setVerifyJwt "hello" false "3d3d3d3d"),
    .tick 400000, .run (.remove "hello" "4e4e4e4e")]

end Sbarbase.Functions.Proofs.DeployLaw
