import Sbarbase.Transfer.Proofs.Generations
import Sbarbase.Transfer.Proofs.Publication
/-!
# How an interrupted publication is reconciled

A publication that did not replace the record is aborted or refused, one that
did is completed, and the candidate in between decides once: it is refused with
nothing written, or it takes the record's place and nothing can fail any more.
-/

namespace Sbarbase.Transfer.Proofs.Recovery

open Lib Lib.Durable Journal Generations Publication

/-! ## Staying on one side -/

/-- The disk stays in `K`, and without a marker if the program returns. -/
def Ends (K : Disk → Prop) {α : Type} (r : Except Failure α) (d : Disk) (_ : Process) : Prop :=
  K d ∧ (r.isOk = true → d.marker = none)

/-- The program passes only disks in `K` and ends there. -/
def Keeps (K : Disk → Prop) {α : Type} (c : Journal α) (d : Disk) (t : Process) : Prop :=
  c.Meets d t (fun _ => K) (Ends K)

section

variable {K : Disk → Prop} {α β : Type} {d : Disk} {t : Process}

theorem ends_error {e : Failure} (h : K d) : Ends K (.error e : Except Failure α) d t :=
  ⟨h, fun hok => by simp [Except.isOk, Except.toBool] at hok⟩

theorem keeps_look {c : Journal α} {f : α → Journal β} [Looks c] (hd : K d)
    (h : ∀ a, c.Returns d t a → Keeps K (f a) d t) : Keeps K (c >>= f) d t :=
  meets_look (fun _ => ends_error hd) h

theorem keeps_looked {c : Journal α} [Looks c] (hd : K d) (hmarker : d.marker = none) :
    Keeps K c d t :=
  meets_looked (fun _ => ends_error hd) fun _ _ => ⟨hd, fun _ => hmarker⟩

theorem keeps_refuse {code : String} (hd : K d) : Keeps K (refuse code : Journal α) d t :=
  meets_throw.mpr (ends_error hd)

theorem keeps_remember {f : Process → Process} {g : Unit → Journal β}
    (h : Keeps K (g ()) d (f t)) : Keeps K (remember f >>= g) d t :=
  meets_remember_bind h

theorem keeps_onError {c : Journal α} {f : Process → Process} {g : Failure → Failure}
    (h : Keeps K c d t) : Keeps K (c.onError f g) d t := by
  rw [Keeps, meets_onError]
  refine h.mono (fun _ _ hK => hK) ?_
  intro r d' t' hends
  cases r with
  | error e => exact ends_error hends.1
  | ok a => exact hends

theorem keeps_bind {c : Journal α} {f : α → Journal β}
    (h : c.Meets d t (fun _ => K) fun r d' t' => K d' ∧ ∀ a, r = .ok a → Keeps K (f a) d' t') :
    Keeps K (c >>= f) d t := by
  apply meets_bind
  refine h.mono (fun _ _ hK => hK) ?_
  rintro (e | a) d' t' ⟨hd', hnext⟩
  · exact ends_error hd'
  · exact hnext a rfl

theorem Keeps.look {c : Journal α} {f : α → Journal β} [∀ a, Looks (f a)] (h : Keeps K c d t) :
    Keeps K (c >>= f) d t := by
  apply keeps_bind
  refine h.mono (fun _ _ hK => hK) ?_
  intro r d' t' hends
  refine ⟨hends.1, ?_⟩
  intro a ha
  exact keeps_looked hends.1 (hends.2 (by rw [ha]; rfl))

/-- The marker goes, unless the program stops before. -/
theorem unlinkMarker_meets (hd : K d) (hunlinked : K (d.setMarker none)) :
    unlinkMarker.Meets d t (fun _ => K) fun r d' t' =>
      K d' ∧ ∀ a, r = .ok a → d' = d.setMarker none ∧ t' = t := by
  unfold unlinkMarker
  apply meets_look (fun _ => ⟨hd, by simp⟩)
  intro _ _
  apply meets_look (fun _ => ⟨hd, by simp⟩)
  intro _ _
  apply meets_look (fun _ => ⟨hd, by simp⟩)
  intro _ _
  apply meets_store_bind hunlinked
  exact meets_looked (fun _ => ⟨hunlinked, by simp⟩) fun _ _ => ⟨hunlinked, fun _ _ => ⟨rfl, rfl⟩⟩

end

section

variable {sha256 : List Char → ℕ} {binding : Binding} {K : Disk → Prop} {d : Disk} {t : Process}
  {effectStarted : Bool} {expected : Option String}

/-- What the record and the marker say when both could be read. -/
theorem keeps_reconcilePublication (hd : K d)
    (h : ∀ manifest target, d.marker = manifest.map File.whole →
      d.record = target.map File.whole →
      Keeps K (match manifest with
        | none => confirmPublication sha256 binding target effectStarted expected
        | some m => resumePublication sha256 binding m target effectStarted expected) d t) :
    Keeps K (reconcilePublication sha256 binding effectStarted expected) d t := by
  unfold reconcilePublication
  apply keeps_onError
  apply keeps_look hd
  intro _ _
  apply keeps_look hd
  intro _ _
  apply keeps_look hd
  intro manifest hmanifest
  apply keeps_look hd
  intro target htarget
  apply keeps_look hd
  intro _ _
  have hread := h manifest target (returns_readLeaf hmanifest).1 (returns_readLeaf htarget).1
  cases manifest with
  | none => exact hread
  | some m => exact hread

/-- A journal without a marker is only read. -/
theorem keeps_confirmPublication {target : Option Record} (hd : K d) (hmarker : d.marker = none) :
    Keeps K (confirmPublication sha256 binding target effectStarted expected) d t := by
  unfold confirmPublication
  apply keeps_look hd
  intro _ _
  apply keeps_look hd
  intro _ _
  cases target with
  | none => exact keeps_refuse hd
  | some target =>
      apply keeps_look hd
      intro _ _
      apply keeps_look hd
      intro _ _
      apply keeps_look hd
      intro _ _
      apply keeps_look hd
      intro _ _
      unfold trust
      apply keeps_remember
      exact keeps_looked hd hmarker

/-- What a marked publication goes by. -/
theorem keeps_resumePublication {m : Manifest} {target : Option Record} (hd : K d)
    (hcandidate : ∀ proposed, d.candidates.get m.candidate = some (.whole proposed) →
      Keeps K (resumeCandidate sha256 binding m target proposed effectStarted expected) d t)
    (htarget : d.candidates.get m.candidate = none → ∀ o ∈ target,
      Keeps K (resumeTarget sha256 binding m o effectStarted expected) d t) :
    Keeps K (resumePublication sha256 binding m target effectStarted expected) d t := by
  unfold resumePublication
  apply keeps_look hd
  intro _ _
  apply keeps_look hd
  intro _ _
  apply keeps_look hd
  intro _ _
  apply keeps_look hd
  intro proposed hproposed
  have hread := (returns_readLeaf hproposed).1
  cases proposed with
  | some proposed => exact hcandidate proposed hread
  | none =>
      cases target with
      | none => exact keeps_refuse hd
      | some o => exact htarget hread o rfl

/-- The marker goes and the journal is read once more. -/
theorem keeps_unlinkMarker {α : Type} {digest : String} {c : Unit → Journal α} [∀ u, Looks (c u)]
    (hd : K d) (hunlinked : K (d.setMarker none)) :
    Keeps K (do unlinkMarker; let u ← trust digest; c u) d t := by
  apply keeps_bind
  refine (unlinkMarker_meets hd hunlinked).mono (fun _ _ hK => hK) ?_
  rintro r d' t' ⟨hd', hended⟩
  refine ⟨hd', ?_⟩
  intro a ha
  obtain ⟨rfl, rfl⟩ := hended a ha
  unfold trust
  apply keeps_remember
  exact keeps_looked hd' rfl

/-- The receipt is there if the program returns, and nothing else was written. -/
theorem keepReceipt_meets {name : String} {receipt : AbortReceipt} :
    (keepReceipt name receipt).Meets d t
      (fun _ d' => ∃ receipts, d' = { d with receipts := receipts })
      fun r d' _ => ∃ receipts, d' = { d with receipts := receipts } ∧
        ∀ a, r = .ok a → receipts.get name = some (.whole receipt) := by
  unfold keepReceipt
  apply meets_look (fun _ => ⟨d.receipts, rfl, by simp⟩)
  intro existing hexisting
  cases existing with
  | none =>
      apply meets_store_bind ⟨_, rfl⟩
      rw [meets_store]
      exact ⟨⟨_, rfl⟩, _, rfl, fun _ _ => AList.lookup_insert _⟩
  | some existing =>
      refine meets_looked (fun _ => ⟨d.receipts, rfl, by simp⟩) ?_
      intro _ hsame
      refine ⟨d.receipts, rfl, ?_⟩
      intro _ _
      rw [(returns_readLeaf hexisting).1, returns_ensure.mp hsame]
      rfl

end

/-! ## The three sides of a publication -/

section

variable {sha256 : List Char → ℕ} {binding : Binding} {old : Option Record} {candidate : String}
  {record : Record} {d : Disk} {t : Process} {effectStarted : Bool} {expected : Option String}

/-- The abort of a publication whose candidate is gone. -/
theorem keeps_abortPublication {m : Manifest} {o : Record}
    (hmarker : d.marker = some (.whole m)) (hcandidates : d.candidates = ∅)
    (hrecord : d.record = (some o).map File.whole) :
    Keeps (Kept sha256 binding (some o) m) (abortPublication sha256 binding m o) d t := by
  have hd : Kept sha256 binding (some o) m d := .marked hmarker hcandidates hrecord
  unfold abortPublication
  apply keeps_look hd
  intro _ _
  apply keeps_look hd
  intro _ _
  apply keeps_look hd
  intro _ _
  apply keeps_bind
  refine keepReceipt_meets.mono ?_ ?_
  · rintro _ _ ⟨receipts, rfl⟩
    exact .marked hmarker hcandidates hrecord
  · rintro r _ t' ⟨receipts, rfl, hreceipt⟩
    have hkept : Kept sha256 binding (some o) m { d with receipts := receipts } :=
      .marked hmarker hcandidates hrecord
    refine ⟨hkept, ?_⟩
    intro a ha
    exact keeps_unlinkMarker hkept (.aborted rfl hcandidates hrecord (by simp) (hreceipt a ha))

/-- A publication that did not replace the record stays so. -/
theorem keeps_of_kept {m : Manifest} (hm : m = manifestOf sha256 binding old record candidate)
    (hfollows : transition old record = .ok ()) (hd : Kept sha256 binding old m d) :
    Keeps (Kept sha256 binding old m) (reconcilePublication sha256 binding effectStarted expected)
      d t := by
  apply keeps_reconcilePublication hd
  intro manifest target hmanifest htarget
  cases hd with
  | marking hmarker _ _ =>
      rw [hmarker] at hmanifest
      cases manifest <;> simp at hmanifest
  | marked hmarker hcandidates hrecord =>
      obtain rfl := map_whole_injective (a := some m) (hmarker.symm.trans hmanifest)
      obtain rfl := map_whole_injective (hrecord.symm.trans htarget)
      apply keeps_resumePublication (.marked hmarker hcandidates hrecord)
      · intro proposed hproposed
        rw [hcandidates] at hproposed
        contradiction
      · intro _ o ho
        obtain rfl := Option.mem_def.mp ho
        have hdigest := (succeeds_of_transition hfollows).materialDigest
        unfold resumeTarget
        rw [if_pos (by rw [hm]; exact ⟨rfl, rfl, hdigest.symm⟩)]
        have hkept : Kept sha256 binding (some o) m d := .marked hmarker hcandidates hrecord
        apply keeps_look hkept
        intro _ _
        apply keeps_look hkept
        intro _ _
        exact keeps_abortPublication hmarker hcandidates hrecord
  | drafting hmarker hcandidates hrecord =>
      obtain rfl := map_whole_injective (a := some m) (hmarker.symm.trans hmanifest)
      have htorn : d.candidates.get m.candidate = some .torn := by
        rw [hcandidates, get_set_self]
      apply keeps_resumePublication (.drafting hmarker hcandidates hrecord)
      · intro proposed hproposed
        rw [htorn] at hproposed
        simp at hproposed
      · intro hproposed
        rw [htorn] at hproposed
        contradiction
  | aborted hmarker hcandidates hrecord hold hreceipt =>
      obtain rfl := map_whole_injective (a := none) (hmarker.symm.trans hmanifest)
      exact keeps_confirmPublication (.aborted hmarker hcandidates hrecord hold hreceipt) hmarker

/-- What is left of a publication that replaced the record. -/
theorem keeps_confirmRenamed {K : Disk → Prop} {m : Manifest} (hd : K d)
    (hunlinked : K (d.setMarker none)) :
    Keeps K (confirmRenamed sha256 binding m record effectStarted expected) d t := by
  unfold confirmRenamed
  apply keeps_look hd
  intro _ _
  apply Keeps.look
  exact keeps_unlinkMarker hd hunlinked

/-- A publication that replaced the record stays so. -/
theorem keeps_of_installed {m : Manifest} (hm : m = manifestOf sha256 binding old record candidate)
    (hfollows : transition old record = .ok ()) (hd : Installed m record d) :
    Keeps (Installed m record) (reconcilePublication sha256 binding effectStarted expected) d t := by
  apply keeps_reconcilePublication hd
  intro manifest target hmanifest htarget
  cases hd with
  | renamed hmarker hcandidates hrecord =>
      have hrenamed : Installed m record d := .renamed hmarker hcandidates hrecord
      obtain rfl := map_whole_injective (a := some m) (hmarker.symm.trans hmanifest)
      obtain rfl := map_whole_injective (a := some record) (hrecord.symm.trans htarget)
      apply keeps_resumePublication hrenamed
      · intro proposed hproposed
        rw [hcandidates] at hproposed
        contradiction
      · intro _ o ho
        obtain rfl := Option.some.inj ho
        have hrevision : m.previousRevision ≠ some record.revision := by
          rw [hm]
          cases old with
          | none => simp [manifestOf]
          | some o =>
              have hnext := (succeeds_of_transition hfollows).revision
              simp only [manifestOf, Option.map_some, ne_eq, Option.some.injEq]
              omega
        unfold resumeTarget
        rw [if_neg (fun hsame => hrevision hsame.2.1)]
        apply keeps_look hrenamed
        intro _ _
        exact keeps_confirmRenamed hrenamed (.published rfl hcandidates hrecord)
  | published hmarker hcandidates hrecord =>
      obtain rfl := map_whole_injective (a := none) (hmarker.symm.trans hmanifest)
      exact keeps_confirmPublication (.published hmarker hcandidates hrecord) hmarker

end

/-! ## The candidate in between -/

section

variable {sha256 : List Char → ℕ} {binding : Binding} {record : Record} {d : Disk} {t : Process}

theorem boundary_returns (hentries : d.entries ≤ 4096) : (boundary true).Returns d t () := by
  unfold boundary
  simp only [returns_bind, returns_memory, returns_disk, returns_ensure]
  exact ⟨t, rfl, (), by simp, d, rfl, (), hentries, by simp⟩

theorem boundary_returns_settled (hentries : d.entries ≤ 4096) (hpoisoned : t.poisoned = false)
    (hmarker : d.marker = none) (hcandidates : d.candidates = ∅) :
    (boundary false).Returns d t () := by
  unfold boundary
  simp only [returns_bind, returns_memory, returns_disk, returns_ensure]
  exact ⟨t, rfl, (), .inl hpoisoned, d, rfl, (), hentries, .inr ⟨hmarker, by rw [hcandidates]; rfl⟩⟩

theorem readLeaf_returns {α : Type} {encode : α → List Char} {file : Disk → Option (File α)}
    {content : α} (hentries : d.entries ≤ 4096) (hfile : file d = some (.whole content))
    (hsize : (encode content).length ≤ maxBytes) :
    (readLeaf encode file).Returns d t (some content) := by
  unfold readLeaf
  rw [returns_bind]
  refine ⟨(), boundary_returns hentries, ?_⟩
  rw [returns_bind]
  refine ⟨d, returns_disk.mpr rfl, ?_⟩
  rw [hfile]
  dsimp only
  rw [returns_bind]
  refine ⟨(), returns_ensure.mpr hsize, ?_⟩
  rw [returns_bind]
  exact ⟨(), boundary_returns hentries, returns_pure.mpr rfl⟩

theorem readRecord_returns (hentries : d.entries ≤ 4096) (hpoisoned : t.poisoned = false)
    (hmarker : d.marker = none) (hcandidates : d.candidates = ∅)
    (hrecord : d.record = some (.whole record)) (hsize : record.encode.length ≤ maxBytes)
    (hvalid : validate sha256 binding record = .ok ()) :
    (readRecord sha256 binding false).Returns d t (some record) := by
  have hboundary := boundary_returns_settled hentries hpoisoned hmarker hcandidates
  unfold readRecord
  rw [returns_bind]
  refine ⟨(), hboundary, ?_⟩
  rw [returns_bind]
  refine ⟨some record, readLeaf_returns hentries hrecord hsize, ?_⟩
  rw [returns_bind]
  refine ⟨(), returns_ensure.mpr (by simp), ?_⟩
  rw [returns_bind]
  refine ⟨(), hboundary, ?_⟩
  dsimp only
  rw [returns_bind]
  exact ⟨(), hvalid, returns_pure.mpr rfl⟩

theorem snapshot_returns (hentries : d.entries ≤ 4096) (hpoisoned : t.poisoned = false)
    (hmarker : d.marker = none) (hcandidates : d.candidates = ∅)
    (hrecord : d.record = some (.whole record)) (hsize : record.encode.length ≤ maxBytes)
    (hvalid : validate sha256 binding record = .ok ()) :
    (snapshot sha256 binding).Returns d t record.publicState := by
  unfold snapshot
  rw [returns_bind]
  refine ⟨some record, ?_, returns_pure.mpr rfl⟩
  exact readRecord_returns hentries hpoisoned hmarker hcandidates hrecord hsize hvalid

end

section

variable {sha256 : List Char → ℕ} {binding : Binding} {old : Option Record} {m : Manifest}
  {record : Record} {d : Disk} {t : Process} {effectStarted : Bool} {expected : Option String}

/-- Nothing was written, or the record was replaced and the marker is gone. -/
def Decides (m : Manifest) (record : Record) (d : Disk) {α : Type} (r : Except Failure α)
    (d' : Disk) (_ : Process) : Prop :=
  match r with
  | .error _ => d' = d
  | .ok _ => Installed m record d' ∧ d'.marker = none

theorem entries_renameCandidate (hd : Drafted old m record d) :
    (d.renameCandidate m.candidate).entries ≤ d.entries := by
  unfold Disk.entries Disk.renameCandidate
  rw [hd.candidates, get_set_self, delete_set, keys_set]
  have hone : (if d.record.isSome then 1 else 0) + 0 ≤ 1 := by split_ifs <;> omega
  simp only [Option.isSome_some, if_true, List.length_singleton, AList.keys_empty, List.length_nil]
  omega

theorem entries_setMarker : (d.setMarker none).entries ≤ d.entries := by
  unfold Disk.entries Disk.setMarker
  simp

/-- Nothing refuses between the rename and the end. -/
theorem completePublication_meets (hvalid : validate sha256 binding record = .ok ())
    (hsize : record.encode.length ≤ maxBytes) (hentries : d.entries ≤ 4096)
    (hcandidates : d.candidates = ∅) (hrecord : d.record = some (.whole record)) :
    (completePublication sha256 binding record).Meets d t (fun _ => Installed m record)
      fun r d' _ => (∃ state, r = .ok state) ∧ Installed m record d' ∧ d'.marker = none := by
  have hentries' : (d.setMarker none).entries ≤ 4096 := entries_setMarker.trans hentries
  have hpublished : Installed m record (d.setMarker none) := .published rfl hcandidates hrecord
  unfold completePublication
  apply meets_bind
  unfold unlinkMarker
  apply meets_returned (boundary_returns hentries)
  apply meets_returned (returns_disk.mpr rfl)
  apply meets_returned (returns_ensure (u := ()).mpr (by rw [hcandidates]; rfl))
  apply meets_store_bind hpublished
  apply (boundary_returns hentries').meets
  unfold trust
  apply meets_remember_bind
  have hsnapshot := snapshot_returns (t := ⟨false, some record.materialDigest⟩) hentries' rfl rfl
    hcandidates hrecord hsize hvalid
  exact hsnapshot.meets ⟨⟨_, rfl⟩, hpublished, rfl⟩

/-- Once the candidate was renamed, nothing refuses. -/
theorem decides_adoptPublication (hvalid : validate sha256 binding record = .ok ())
    (hsize : record.encode.length ≤ maxBytes) (hd : Drafted old m record d)
    (hdigest : recordDigest sha256 record = m.proposedRecordDigest) :
    (adoptPublication sha256 binding m record effectStarted expected).Meets d t
      (fun _ => Installed m record) (Decides m record d) := by
  have hrecord : (d.renameCandidate m.candidate).record = some (.whole record) := by
    rw [Disk.renameCandidate, hd.candidates, get_set_self]
  have hcandidates : (d.renameCandidate m.candidate).candidates = ∅ := by
    rw [Disk.renameCandidate, hd.candidates, delete_set]
  unfold adoptPublication
  apply meets_look (fun _ => rfl)
  intro _ _
  apply meets_bind
  unfold adoptCandidate
  refine meets_look ?_ fun _ hboundary => ?_
  · intro _
    rfl
  have hentries := (entries_renameCandidate hd).trans (returns_boundary hboundary).1
  apply meets_store_bind (.renamed hd.marker hcandidates hrecord)
  apply meets_returned (readLeaf_returns hentries hrecord hsize)
  refine (returns_ensure (u := ()).mpr ?_).meets ?_
  · simpa using hdigest
  apply meets_bind
  refine (completePublication_meets hvalid hsize hentries hcandidates hrecord).mono
    (fun _ _ h => h) ?_
  rintro r d' t' ⟨⟨state, rfl⟩, hinstalled, hmarker⟩
  exact meets_pure.mpr ⟨hinstalled, hmarker⟩

/-- The candidate is refused with nothing written, or it becomes the record. -/
theorem decides_reconcilePublication (hvalid : validate sha256 binding record = .ok ())
    (hsize : record.encode.length ≤ maxBytes) (hd : Drafted old m record d) :
    (reconcilePublication sha256 binding effectStarted expected).Meets d t
      (fun _ => Installed m record) (Decides m record d) := by
  unfold reconcilePublication
  rw [meets_onError]
  refine Meets.mono (Q := Decides m record d) ?_ (fun _ _ h => h) ?_
  · apply meets_look (fun _ => rfl)
    intro _ _
    apply meets_look (fun _ => rfl)
    intro _ _
    apply meets_look (fun _ => rfl)
    intro manifest hmanifest
    apply meets_look (fun _ => rfl)
    intro target _
    apply meets_look (fun _ => rfl)
    intro _ _
    obtain rfl := map_whole_injective (a := some m) (hd.marker.symm.trans (returns_readLeaf hmanifest).1)
    unfold resumePublication
    apply meets_look (fun _ => rfl)
    intro _ _
    apply meets_look (fun _ => rfl)
    intro _ _
    apply meets_look (fun _ => rfl)
    intro _ _
    apply meets_look (fun _ => rfl)
    intro proposed hproposed
    have hread := (returns_readLeaf hproposed).1
    rw [hd.candidates, get_set_self] at hread
    obtain rfl := map_whole_injective (a := some record) hread
    unfold resumeCandidate
    apply meets_look (fun _ => rfl)
    intro _ _
    apply meets_look (fun _ => rfl)
    intro _ hdigest
    apply meets_look (fun _ => rfl)
    intro _ _
    apply meets_look (fun _ => rfl)
    intro _ _
    exact decides_adoptPublication hvalid hsize hd (returns_ensure.mp hdigest)
  · intro r d' t' h
    cases r <;> exact h

end

/-! ## Interrupted publications -/

/-- The disks that an interrupted publication of `record` on `d` leaves: a crash
after one of its durable writes, then any number of reconciliations, each cut
short at any point or not, while other journals of the directory come and go. -/
inductive Interrupted (sha256 : List Char → ℕ) (binding : Binding) (d : Disk) (record : Record)
    (token : String) : Disk → Prop
  | publishing {t : Process} {x : Disk}
      (hx : x ∈ (publish sha256 binding record d.record.isSome token d t).passed) :
      Interrupted sha256 binding d record token x
  | reconciling {effectStarted : Bool} {expected : Option String} {t : Process} {x y : Disk}
      (hx : Interrupted sha256 binding d record token x)
      (hy : y ∈ (reconcilePublication sha256 binding effectStarted expected).crashes x t) :
      Interrupted sha256 binding d record token y
  | others {x : Disk} (count : ℕ) (hx : Interrupted sha256 binding d record token x) :
      Interrupted sha256 binding d record token { x with others := count }

section

variable {sha256 : List Char → ℕ} {binding : Binding} {d : Disk} {record : Record} {token : String}
  {old : Option Record} {m : Manifest} {x y : Disk} {t : Process} {effectStarted : Bool}
  {expected : Option String}

theorem stage_others (count : ℕ) (h : Stage sha256 binding old m record x) :
    Stage sha256 binding old m record { x with others := count } := by
  rcases h with h | h | h
  · refine .kept ?_
    cases h with
    | marking hmarker hcandidates hrecord => exact .marking hmarker hcandidates hrecord
    | marked hmarker hcandidates hrecord => exact .marked hmarker hcandidates hrecord
    | drafting hmarker hcandidates hrecord => exact .drafting hmarker hcandidates hrecord
    | aborted hmarker hcandidates hrecord hold hreceipt =>
        exact .aborted hmarker hcandidates hrecord hold hreceipt
  · exact .drafted ⟨h.marker, h.candidates, h.record⟩
  · refine .installed ?_
    cases h with
    | renamed hmarker hcandidates hrecord => exact .renamed hmarker hcandidates hrecord
    | published hmarker hcandidates hrecord => exact .published hmarker hcandidates hrecord

/-- A candidate that is still there was not renamed. -/
theorem not_installed_of_drafted (h : Drafted old m record x) : ¬ Installed m record x := by
  have hkeys : x.candidates.keys ≠ [] := by
    rw [h.candidates, keys_set]
    simp
  rintro (⟨_, hcandidates, _⟩ | ⟨_, hcandidates, _⟩) <;>
    exact hkeys (by rw [hcandidates]; rfl)

/-- The disks a reconciliation of a candidate can leave. -/
theorem crashes_of_drafted (hdraft : Draft sha256 binding old record) (hx : Drafted old m record x)
    (hy : y ∈ (reconcilePublication sha256 binding effectStarted expected).crashes x t) :
    y = x ∨ Installed m record y := by
  have hran : (reconcilePublication sha256 binding effectStarted expected).Meets x t
      (fun _ => Installed m record) (Decides m record x) :=
    decides_reconcilePublication hdraft.valid hdraft.size hx
  rcases List.mem_cons.mp hy with rfl | hpassed
  · exact .inl rfl
  · exact .inr (forall_of_isChain hran.1 y hpassed)

theorem interrupted_publishing (h : Interrupted sha256 binding d record token x) :
    ∃ old, d.record = old.map File.whole ∧ Publishing sha256 binding token old record x := by
  induction h with
  | @publishing t x hx =>
      exact forall_of_isChain (publish_meets sha256 binding token record d t).1 x hx
  | @reconciling _ _ t x y _ hy ih =>
      obtain ⟨old, hrecord, hdraft, hstage⟩ := ih
      refine ⟨old, hrecord, hdraft, ?_⟩
      rcases hstage with hkept | hdrafted | hinstalled
      · exact .kept ((keeps_of_kept rfl hdraft.follows hkept).crashes hkept y hy)
      · rcases crashes_of_drafted hdraft hdrafted hy with rfl | hinstalled
        · exact .drafted hdrafted
        · exact .installed hinstalled
      · exact .installed ((keeps_of_installed rfl hdraft.follows hinstalled).crashes hinstalled y hy)
  | others count _ ih =>
      obtain ⟨old, hrecord, hdraft, hstage⟩ := ih
      exact ⟨old, hrecord, hdraft, stage_others count hstage⟩

theorem record_of_kept (h : Kept sha256 binding old m x) : x.record = old.map File.whole := by
  cases h <;> assumption

theorem record_of_installed (h : Installed m record x) : x.record = some (.whole record) := by
  cases h <;> assumption

/-- The previous record, and the receipt that its successor was not installed. -/
theorem aborted_of_kept (h : Kept sha256 binding old m x) (hmarker : x.marker = none) :
    x.candidates = ∅ ∧ old ≠ none ∧
      x.receipts.get (abortName binding m) = some (.whole (abortReceiptOf sha256 m)) := by
  cases h with
  | marking h _ _ => rw [hmarker] at h; contradiction
  | marked h _ _ => rw [hmarker] at h; contradiction
  | drafting h _ _ => rw [hmarker] at h; contradiction
  | aborted _ hcandidates _ hold hreceipt => exact ⟨hcandidates, hold, hreceipt⟩

theorem candidates_of_installed (h : Installed m record x) : x.candidates = ∅ := by
  cases h <;> assumption

theorem disk_of_refused {e : Failure} (hdraft : Draft sha256 binding old record)
    (hx : Drafted old m record x)
    (hfailed : (reconcilePublication sha256 binding effectStarted expected x t).outcome = .error e) :
    (reconcilePublication sha256 binding effectStarted expected x t).disk = x := by
  have hran : (reconcilePublication sha256 binding effectStarted expected).Meets x t
      (fun _ => Installed m record) (Decides m record x) :=
    decides_reconcilePublication hdraft.valid hdraft.size hx
  have hdecided := hran.2.2
  rw [hfailed] at hdecided
  exact hdecided

theorem disk_of_adopted {status : Status} (hdraft : Draft sha256 binding old record)
    (hx : Drafted old m record x)
    (hok : (reconcilePublication sha256 binding effectStarted expected x t).outcome = .ok status) :
    Installed m record (reconcilePublication sha256 binding effectStarted expected x t).disk ∧
      (reconcilePublication sha256 binding effectStarted expected x t).disk.marker = none := by
  have hran : (reconcilePublication sha256 binding effectStarted expected).Meets x t
      (fun _ => Installed m record) (Decides m record x) :=
    decides_reconcilePublication hdraft.valid hdraft.size hx
  have hdecided := hran.2.2
  rw [hok] at hdecided
  exact hdecided

/-- A refused candidate is where it was: the reconciliation wrote nothing. -/
theorem crashes_of_refused {e : Failure} (hdraft : Draft sha256 binding old record)
    (hx : Drafted old m record x)
    (hfailed : (reconcilePublication sha256 binding effectStarted expected x t).outcome = .error e)
    (hy : y ∈ (reconcilePublication sha256 binding effectStarted expected).crashes x t) : y = x := by
  have hran : (reconcilePublication sha256 binding effectStarted expected).Meets x t
      (fun _ => Installed m record) (Decides m record x) :=
    decides_reconcilePublication hdraft.valid hdraft.size hx
  have hlast := hran.2.1.symm.trans (disk_of_refused hdraft hx hfailed)
  have hinstalled := forall_of_isChain hran.1
  rw [crashes] at hy
  cases hwrites : (reconcilePublication sha256 binding effectStarted expected x t).passed with
  | nil =>
      rw [hwrites] at hy
      exact List.mem_singleton.mp hy
  | cons first rest =>
      rw [hwrites] at hlast hinstalled
      rw [List.getLastD_cons] at hlast
      have hfinal := hinstalled _ List.getLastD_mem_cons
      rw [hlast] at hfinal
      exact absurd hfinal (not_installed_of_drafted hx)

/-- Where a reconciliation leaves the record. -/
theorem disk_of_kept (hdraft : Draft sha256 binding old record)
    (hx : Kept sha256 binding old (manifestOf sha256 binding old record token) x) :
    (reconcilePublication sha256 binding effectStarted expected x t).disk.record =
      old.map File.whole := by
  have hran : Keeps (Kept sha256 binding old (manifestOf sha256 binding old record token))
      (reconcilePublication sha256 binding effectStarted expected) x t :=
    keeps_of_kept rfl hdraft.follows hx
  exact record_of_kept hran.2.2.1

theorem disk_of_installed (hdraft : Draft sha256 binding old record)
    (hx : Installed (manifestOf sha256 binding old record token) record x) :
    (reconcilePublication sha256 binding effectStarted expected x t).disk.record =
      some (.whole record) := by
  have hran : Keeps (Installed (manifestOf sha256 binding old record token) record)
      (reconcilePublication sha256 binding effectStarted expected) x t :=
    keeps_of_installed rfl hdraft.follows hx
  exact record_of_installed hran.2.2.1

/-- A reconciliation that fails leaves the record. -/
theorem record_of_failed {e : Failure} (hdraft : Draft sha256 binding old record)
    (hx : Stage sha256 binding old (manifestOf sha256 binding old record token) record x)
    (hfailed : (reconcilePublication sha256 binding effectStarted expected x t).outcome = .error e) :
    (reconcilePublication sha256 binding effectStarted expected x t).disk.record = x.record := by
  rcases hx with hkept | hdrafted | hinstalled
  · rw [disk_of_kept hdraft hkept, record_of_kept hkept]
  · rw [disk_of_refused hdraft hdrafted hfailed]
  · rw [disk_of_installed hdraft hinstalled, record_of_installed hinstalled]

/-- A reconciliation that returns has cleared the publication. -/
theorem ended_of_returned {status : Status} (hdraft : Draft sha256 binding old record)
    (hrecord : d.record = old.map File.whole)
    (hx : Stage sha256 binding old (manifestOf sha256 binding old record token) record x)
    (hok : (reconcilePublication sha256 binding effectStarted expected x t).outcome = .ok status) :
    let ran := reconcilePublication sha256 binding effectStarted expected x t
    ran.disk.marker = none ∧ ran.disk.candidates = ∅ ∧
      (ran.disk.record = some (.whole record) ∨
        ∃ o, d.record = some (.whole o) ∧ ran.disk.record = d.record ∧
          let m := manifestOf sha256 binding (some o) record token
          ran.disk.receipts.get (abortName binding m) = some (.whole (abortReceiptOf sha256 m))) := by
  rcases hx with hkept | hdrafted | hinstalled
  · have hran : Keeps (Kept sha256 binding old (manifestOf sha256 binding old record token))
        (reconcilePublication sha256 binding effectStarted expected) x t :=
      keeps_of_kept rfl hdraft.follows hkept
    have hmarker := hran.2.2.2 (by rw [hok]; rfl)
    obtain ⟨hcandidates, hold, hreceipt⟩ := aborted_of_kept hran.2.2.1 hmarker
    obtain ⟨o, rfl⟩ := Option.ne_none_iff_exists'.mp hold
    refine ⟨hmarker, hcandidates, .inr ⟨o, hrecord, ?_, hreceipt⟩⟩
    rw [record_of_kept hran.2.2.1, hrecord]
  · obtain ⟨hinstalled, hmarker⟩ := disk_of_adopted hdraft hdrafted hok
    exact ⟨hmarker, candidates_of_installed hinstalled, .inl (record_of_installed hinstalled)⟩
  · have hran : Keeps (Installed (manifestOf sha256 binding old record token) record)
        (reconcilePublication sha256 binding effectStarted expected) x t :=
      keeps_of_installed rfl hdraft.follows hinstalled
    have hmarker := hran.2.2.2 (by rw [hok]; rfl)
    exact ⟨hmarker, candidates_of_installed hran.2.2.1, .inl (record_of_installed hran.2.2.1)⟩

/-- A reconciliation that was cut short is run again. -/
theorem record_of_repeated (hdraft : Draft sha256 binding old record)
    (hx : Stage sha256 binding old (manifestOf sha256 binding old record token) record x)
    (hy : y ∈ (reconcilePublication sha256 binding effectStarted expected).crashes x t) :
    (reconcilePublication sha256 binding effectStarted expected y t).disk.record =
      (reconcilePublication sha256 binding effectStarted expected x t).disk.record := by
  rcases hx with hkept | hdrafted | hinstalled
  · have hkept' := (keeps_of_kept rfl hdraft.follows hkept).crashes hkept y hy
    rw [disk_of_kept hdraft hkept', disk_of_kept hdraft hkept]
  · cases hend : (reconcilePublication sha256 binding effectStarted expected x t).outcome with
    | error e => rw [crashes_of_refused hdraft hdrafted hend hy]
    | ok status =>
        have hadopted := record_of_installed (disk_of_adopted hdraft hdrafted hend).1
        rcases crashes_of_drafted hdraft hdrafted hy with rfl | hinstalled
        · rfl
        · rw [disk_of_installed hdraft hinstalled, hadopted]
  · have hinstalled' :=
      (keeps_of_installed rfl hdraft.follows hinstalled).crashes hinstalled y hy
    rw [disk_of_installed hdraft hinstalled', disk_of_installed hdraft hinstalled]

/-- Two reconciliations that return agree, whatever their callers said. -/
theorem record_of_returned {effectStarted' : Bool} {expected' : Option String} {t' : Process}
    {status status' : Status} (hdraft : Draft sha256 binding old record)
    (hx : Stage sha256 binding old (manifestOf sha256 binding old record token) record x)
    (hy : y ∈ (reconcilePublication sha256 binding effectStarted expected).crashes x t)
    (hok : (reconcilePublication sha256 binding effectStarted expected x t).outcome = .ok status)
    (hok' : (reconcilePublication sha256 binding effectStarted' expected' y t').outcome =
      .ok status') :
    (reconcilePublication sha256 binding effectStarted' expected' y t').disk.record =
      (reconcilePublication sha256 binding effectStarted expected x t).disk.record := by
  rcases hx with hkept | hdrafted | hinstalled
  · have hkept' := (keeps_of_kept rfl hdraft.follows hkept).crashes hkept y hy
    rw [disk_of_kept hdraft hkept', disk_of_kept hdraft hkept]
  · rw [record_of_installed (disk_of_adopted hdraft hdrafted hok).1]
    rcases crashes_of_drafted hdraft hdrafted hy with rfl | hinstalled
    · exact record_of_installed (disk_of_adopted hdraft hdrafted hok').1
    · exact disk_of_installed hdraft hinstalled
  · have hinstalled' :=
      (keeps_of_installed rfl hdraft.follows hinstalled).crashes hinstalled y hy
    rw [disk_of_installed hdraft hinstalled', disk_of_installed hdraft hinstalled]

end

/-- A reconciliation of an interrupted publication fails and leaves the record,
or ends without marker and candidate with the previous record and its abort
receipt or with the proposed record. Cut short and run again, it ends in the same
record; whatever a caller says, two that succeed end in the same one. -/
theorem reconcile_law (sha256 : List Char → ℕ) (binding : Binding) (d : Disk) (record : Record)
    (token : String) (x : Disk) (hx : Interrupted sha256 binding d record token x)
    (effectStarted : Bool) (expected : Option String) (t : Process) :
    let reconcile := reconcilePublication sha256 binding effectStarted expected
    let ran := reconcile x t
    (∀ e, ran.outcome = .error e → ran.disk.record = x.record) ∧
    (∀ status, ran.outcome = .ok status → ran.disk.marker = none ∧ ran.disk.candidates = ∅ ∧
      (ran.disk.record = some (.whole record) ∨
        ∃ old, d.record = some (.whole old) ∧ ran.disk.record = d.record ∧
          let m := manifestOf sha256 binding (some old) record (pendingPrefix binding ++ token)
          ran.disk.receipts.get (abortName binding m) = some (.whole (abortReceiptOf sha256 m)))) ∧
    ∀ y ∈ reconcile.crashes x t, (reconcile y t).disk.record = ran.disk.record ∧
      ∀ effectStarted' expected' t' status status',
        let again := reconcilePublication sha256 binding effectStarted' expected' y t'
        ran.outcome = .ok status → again.outcome = .ok status' →
          again.disk.record = ran.disk.record := by
  obtain ⟨old, hrecord, hdraft, hstage⟩ := interrupted_publishing hx
  refine ⟨?_, ?_, ?_⟩
  · intro e hfailed
    exact record_of_failed hdraft hstage hfailed
  · intro status hok
    exact ended_of_returned hdraft hrecord hstage hok
  · intro y hy
    refine ⟨record_of_repeated hdraft hstage hy, ?_⟩
    intro effectStarted' expected' t' status status' _ hok hok'
    exact record_of_returned hdraft hstage hy hok hok'

/-! ## A first publication -/

section

variable {sha256 : List Char → ℕ} {binding : Binding} {record : Record} {token : String}

/-- The first record of a directory gets as far as its marker. -/
theorem interrupted_first (hvalid : validate sha256 binding record = .ok ())
    (hfirst : record.revision = 0 ∧ record.effects = [])
    (hsize : record.encode.length ≤ maxBytes)
    (hmanifest : (manifestOf sha256 binding none record
      (pendingPrefix binding ++ token)).encode.length ≤ maxBytes) :
    Interrupted sha256 binding emptyDisk record token (emptyDisk.setMarker (some .torn)) := by
  have hboundary : (boundary false).Returns emptyDisk .fresh () :=
    boundary_returns_settled (by decide) rfl rfl rfl
  have hold : (previousRecord sha256 binding emptyDisk.record.isSome).Returns emptyDisk .fresh
      none :=
    returns_pure.mpr rfl
  have hfollows : (lift (transition none record) : Journal Unit).Returns emptyDisk .fresh () :=
    check_eq_ok.mpr hfirst
  apply Interrupted.publishing (t := .fresh)
  unfold publish
  rw [passed_returned (returns_lift.mpr hvalid), passed_returned hboundary,
    passed_returned (returns_ensure (u := ()).mpr hsize), passed_returned hold,
    passed_returned hfollows, passed_returned (returns_ensure (u := ()).mpr hmanifest),
    passed_onError]
  unfold writeGeneration
  rw [passed_returned (returns_disk.mpr rfl),
    passed_returned (returns_require (p := emptyDisk.marker = none) (u := ()).mpr rfl),
    passed_store_bind]
  exact List.mem_cons_self

end

section

/-- `n` times the same digit. -/
def hexes (n : ℕ) (c : Char) : String := String.ofList (List.replicate n c)

theorem hexes_toList (n : ℕ) (c : Char) : (hexes n c).toList = List.replicate n c :=
  String.toList_ofList

def uuidChars (c : Char) : List Char :=
  List.replicate 8 c ++ '-' :: List.replicate 4 c ++ '-' :: List.replicate 4 c ++
    '-' :: List.replicate 4 c ++ '-' :: List.replicate 12 c

def uuidOf (c : Char) : String := String.ofList (uuidChars c)

theorem uuidOf_toList (c : Char) : (uuidOf c).toList = uuidChars c := String.toList_ofList

def sampleBinding : Binding where
  operation := uuidOf '1'
  environment := uuidOf '2'
  runtime := "e_aaaaaaaaaaaaaaaaaaaaaaaa"
  project := uuidOf '3'
  source := uuidOf '4'
  destination := uuidOf '5'
  actor := uuidOf '6'
  installation := uuidOf '7'
  runtimeEpoch := 1
  managementEpoch := 0
  inventoryDigest := hexes 64 'a'
  daemonDigest := hexes 64 'b'
  engineId := hexes 64 'c'
  databaseOid := "1"
  roles := (((∅ : Dict String String).set "e_aaaaaaaaaaaaaaaaaaaaaaaa_auth" "2").set
    "e_aaaaaaaaaaaaaaaaaaaaaaaa_rest" "3").set "e_aaaaaaaaaaaaaaaaaaaaaaaa_storage" "4"
  routingRevision := 0

def sampleCredentials : Credentials where
  auth := hexes 64 '0'
  rest := hexes 64 '1'
  storage := hexes 64 '2'
  jwt := hexes 64 '3'
  realtime := hexes 64 '4'
  realtimeApi := hexes 64 '5'
  realtimeBase := hexes 128 '6'
  realtimeEnc := hexes 16 '7'
  developer := hexes 32 'x'

def sampleRecord : Record :=
  ⟨1, sampleBinding, sampleCredentials, hexes 64 '0', 0, 0, []⟩

theorem validate_sampleRecord : validate (fun _ => 0) sampleBinding sampleRecord = .ok () := by
  have hbinding : validateBinding sampleBinding = .ok () := by
    simp only [validateBinding, sampleBinding, matchesExactly, matchesAfter, List.all_cons,
      hexes_toList, uuidOf_toList, isIdentifier, isUuid, isDigest]
    decide
  have hcredentials : validateCredentials sampleCredentials = .ok () := by
    simp only [validateCredentials, sampleCredentials, matchesExactly, matchesAfter,
      List.all_cons, hexes_toList]
    decide +kernel
  unfold validate
  simp only [sampleRecord, hbinding, hcredentials]
  decide

theorem length_sampleRecord : sampleRecord.encode.length ≤ maxBytes := by
  simp only [Record.encode, Binding.encode, Credentials.encode, sampleRecord, sampleBinding,
    sampleCredentials, Json.object, Json.text, List.map_cons, hexes_toList, uuidOf_toList]
  decide +kernel

theorem length_sampleManifest : (manifestOf (fun _ => 0) sampleBinding none sampleRecord
      (pendingPrefix sampleBinding ++ hexes 32 '0')).encode.length ≤ maxBytes := by
  simp only [Manifest.encode, manifestOf, bindingDigest, recordDigest, hexdigest, sampleRecord,
    Json.object, Json.text, List.map_cons, hexes_toList, String.toList_ofList, String.toList_append]
  decide +kernel

theorem reconcile_law_first : let x := emptyDisk.setMarker (some .torn)
    let ran := reconcilePublication (fun _ => 0) sampleBinding false none x .fresh
    ∀ e, ran.outcome = .error e → ran.disk.record = x.record :=
  (reconcile_law (fun _ => 0) sampleBinding emptyDisk sampleRecord (hexes 32 '0') _
    (interrupted_first validate_sampleRecord ⟨rfl, rfl⟩ length_sampleRecord length_sampleManifest)
    false none .fresh).1

end

end Sbarbase.Transfer.Proofs.Recovery
