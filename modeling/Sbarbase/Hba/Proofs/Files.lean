import Sbarbase.Hba.Proofs.Requests
/-!
# The texts that an HBA file has held

Every prepared text begins with a UUID of its own. A file that took one therefore
never holds what it held before again: to write the earlier text once more, that
text's own predecessor would have to be there.
-/

namespace Sbarbase.Hba.Proofs

open Lib

theorem length_of_matchesGroups {p : Char → Bool} {n : ℕ} {lengths : List ℕ} {chars : List Char}
    (h : matchesGroups p (n :: lengths) chars = true) :
    chars.length = n + (lengths.map (· + 1)).sum := by
  induction lengths generalizing n chars with
  | nil =>
      rw [matchesGroups, Bool.and_eq_true, decide_eq_true_eq] at h
      simpa using h.1
  | cons m lengths ih =>
      rw [matchesGroups] at h
      · simp only [Bool.and_eq_true, decide_eq_true_eq] at h
        obtain ⟨⟨⟨htake, _⟩, hdash⟩, hrest⟩ := h
        have hdrop := ih hrest
        have hlong : n < chars.length := by
          by_contra hshort
          rw [List.drop_of_length_le (not_lt.mp hshort)] at hdash
          nomatch hdash
        rw [List.length_drop] at hdrop
        rw [List.map_cons, List.sum_cons]
        omega
      · simp

theorem length_of_uuid {revision : CodePoints} (h : matchesText UUID revision = true) :
    revision.length = 36 := by
  have hgroups : matchesGroups isHex [8, 4, 4, 4, 12] (revision.map Char.ofNat) = true := by
    simpa [matchesText, UUID, isUuid] using h
  simpa using length_of_matchesGroups hgroups

/-- A text begins with one UUID. -/
theorem revision_unique {revision revision' content : CodePoints}
    (h : matchesText UUID revision = true) (h' : matchesText UUID revision' = true)
    (hline : revisionLine revision <+: content) (hline' : revisionLine revision' <+: content) :
    revision = revision' := by
  have hlength : (revisionLine revision).length = (revisionLine revision').length := by
    simp [revisionLine, length_of_uuid h, length_of_uuid h']
  have hsame := (List.prefix_of_prefix_length_le hline hline' (Nat.le_of_eq hlength)).eq_of_length
    hlength
  exact List.append_cancel_left (List.append_cancel_right hsame)

variable {T : Type} {X : Texts T}

/-- The file holds the text, or held it. -/
def Seen (s : World T) (cid text : CodePoints) : Prop :=
  text ∈ s.past cid ∨ text = (s.backends cid).hba

structure Files (X : Texts T) (s : World T) : Prop where
  shown : ∀ cid text, Seen s cid text → ∀ revision, matchesText UUID revision = true →
    revisionLine revision <+: text → revision ∈ s.issued
  contents : ∀ P ∈ s.prepared, ∃ revision ∈ s.issued, matchesText UUID revision = true ∧
    revisionLine revision <+: P.content
  unique : ∀ P ∈ s.prepared, ∀ Q ∈ s.prepared, P.content = Q.content → P = Q
  permits : ∀ permit ∈ s.permits, permit.prepared ∈ s.prepared
  commands : ∀ permit, Command.apply permit ∈ s.commands → permit.prepared ∈ s.prepared
  written : ∀ P ∈ s.prepared, ∀ cid, Seen s cid P.content →
    ∃ text ∈ s.past cid, X.fileDigest text = P.expectedDigest
  current : ∀ cid, (s.backends cid).hba ∉ s.past cid

theorem files_initial {s : World T} (h : s.Initial) : Files X s where
  shown := by
    intro cid text hseen revision hrevision hline
    rcases hseen with hpast | rfl
    · rw [h.past cid] at hpast
      nomatch hpast
    · exact h.issued cid revision hrevision hline
  contents := by simp [h.prepared]
  unique := by simp [h.prepared]
  permits := by simp [h.permits]
  commands := by simp [h.commands]
  written := by simp [h.prepared]
  current := by simp [h.past]

/-! ## A file that is replaced -/

section

variable {s : World T} {cid cid' : CodePoints} {next : Backend T}

@[simp] theorem backends_replace : (s.replace cid next).backends cid = next :=
  Function.update_self ..

theorem backends_replace_of_ne (h : cid' ≠ cid) :
    (s.replace cid next).backends cid' = s.backends cid' := Function.update_of_ne h ..

theorem past_replace_of_ne (h : cid' ≠ cid) : (s.replace cid next).past cid' = s.past cid' := by
  simp only [World.replace]
  split
  · rfl
  · rw [Function.update_of_ne h]

theorem past_replace_same (h : next.hba = (s.backends cid).hba) :
    (s.replace cid next).past = s.past := if_pos h

theorem past_replace (h : next.hba ≠ (s.backends cid).hba) :
    (s.replace cid next).past cid = s.past cid ++ [(s.backends cid).hba] := by
  simp only [World.replace]
  rw [if_neg h, Function.update_self]

theorem past_replace_mono {text : CodePoints} (h : text ∈ s.past cid') :
    text ∈ (s.replace cid next).past cid' := by
  by_cases hcid : cid' = cid
  · subst hcid
    by_cases hsame : next.hba = (s.backends cid').hba
    · rw [past_replace_same hsame]
      exact h
    · rw [past_replace hsame]
      exact List.mem_append_left _ h
  · rw [past_replace_of_ne hcid]
    exact h

theorem seen_replace {text : CodePoints} (h : Seen (s.replace cid next) cid' text) :
    Seen s cid' text ∨ (cid' = cid ∧ text = next.hba) := by
  by_cases hcid : cid' = cid
  · subst hcid
    rw [Seen, backends_replace] at h
    rcases h with h | h
    · by_cases hsame : next.hba = (s.backends cid').hba
      · rw [past_replace_same hsame] at h
        exact .inl (.inl h)
      · rw [past_replace hsame, List.mem_append, List.mem_singleton] at h
        exact .inl h
    · exact .inr ⟨rfl, h⟩
  · rw [Seen, past_replace_of_ne hcid, backends_replace_of_ne hcid] at h
    exact .inl h

/-- A file that keeps its text. -/
theorem hba_replace_same (h : next.hba = (s.backends cid).hba) :
    ((s.replace cid next).backends cid').hba = (s.backends cid').hba := by
  by_cases hcid : cid' = cid
  · rw [hcid, backends_replace, h]
  · rw [backends_replace_of_ne hcid]

end

theorem Files.replace_same {s : World T} (hfiles : Files X s) {cid : CodePoints}
    {next : Backend T} (h : next.hba = (s.backends cid).hba) :
    Files X (s.replace cid next) := by
  have hpast := past_replace_same h
  have hhba : ∀ {cid'}, ((s.replace cid next).backends cid').hba = (s.backends cid').hba :=
    hba_replace_same h
  have hseen : ∀ {cid' text}, Seen (s.replace cid next) cid' text ↔ Seen s cid' text := by
    intro cid' text
    rw [Seen, Seen, hpast, hhba]
  refine ⟨fun cid' text htext => hfiles.shown cid' text (hseen.mp htext), hfiles.contents,
    hfiles.unique, hfiles.permits, hfiles.commands, fun P hP cid' hcontent => ?_, fun cid' => ?_⟩
  · rw [hpast]
    exact hfiles.written P hP cid' (hseen.mp hcontent)
  · rw [hpast, hhba]
    exact hfiles.current cid'

/-- The text that a permit's file takes was never in it. -/
theorem Files.content_unseen (hfile : Function.Injective X.fileDigest) {s : World T}
    (hfiles : Files X s) {P : Prepared} (hP : P ∈ s.prepared) {cid : CodePoints}
    (hdigest : X.fileDigest (s.backends cid).hba = P.expectedDigest) : ¬ Seen s cid P.content := by
  intro hseen
  obtain ⟨text, htext, hexpected⟩ := hfiles.written P hP cid hseen
  have hsame : text = (s.backends cid).hba := hfile (hexpected.trans hdigest.symm)
  exact hfiles.current cid (hsame ▸ htext)

theorem Files.replace_content (hfile : Function.Injective X.fileDigest) {s : World T}
    (hfiles : Files X s) {P : Prepared} (hP : P ∈ s.prepared) {cid : CodePoints}
    (hdigest : X.fileDigest (s.backends cid).hba = P.expectedDigest) {next : Backend T}
    (hnext : next.hba = P.content) :
    Files X (s.replace cid next) ∧
      (s.replace cid next).past cid = s.past cid ++ [(s.backends cid).hba] := by
  have hunseen := hfiles.content_unseen hfile hP hdigest
  have hne : next.hba ≠ (s.backends cid).hba := fun h => hunseen (.inr (hnext.symm.trans h))
  have hpast := past_replace hne
  refine ⟨⟨?_, hfiles.contents, hfiles.unique, hfiles.permits, hfiles.commands, ?_, ?_⟩, hpast⟩
  · intro cid' text htext revision hrevision hline
    rcases seen_replace htext with htext | ⟨_, rfl⟩
    · exact hfiles.shown cid' text htext revision hrevision hline
    · obtain ⟨own, hissued, huuid, hown⟩ := hfiles.contents P hP
      rw [hnext] at hline
      rw [revision_unique hrevision huuid hline hown]
      exact hissued
  · intro Q hQ cid' hcontent
    rcases seen_replace hcontent with hcontent | ⟨rfl, hsame⟩
    · obtain ⟨text, htext, hexpected⟩ := hfiles.written Q hQ cid' hcontent
      exact ⟨text, past_replace_mono htext, hexpected⟩
    · -- The text is of one preparation, so what it replaced has the digest it names.
      rw [hfiles.unique Q hQ P hP (hsame.trans hnext)]
      exact ⟨_, hpast ▸ List.mem_append_right _ List.mem_cons_self, hdigest⟩
  · intro cid'
    by_cases hcid : cid' = cid
    · subst hcid
      rw [hpast, backends_replace, hnext, List.mem_append, List.mem_singleton]
      exact hunseen
    · rw [past_replace_of_ne hcid, backends_replace_of_ne hcid]
      exact hfiles.current cid'

/-! ## Along a run -/

theorem Files.prepare {s : World T} (hfiles : Files X s) {P : Prepared}
    {revision body : CodePoints} (hfresh : Fresh s.issued revision)
    (hcontent : P.content = revisionLine revision ++ body) :
    Files X { s with issued := revision :: s.issued, prepared := s.prepared ++ [P] } := by
  have hline : revisionLine revision <+: P.content := hcontent ▸ List.prefix_append _ _
  have hother : ∀ Q ∈ s.prepared, Q.content ≠ P.content := by
    intro Q hQ hsame
    obtain ⟨own, hissued, huuid, hown⟩ := hfiles.contents Q hQ
    rw [hsame] at hown
    rw [revision_unique huuid hfresh.2 hown hline] at hissued
    exact hfresh.1 hissued
  have hunseen : ∀ cid, ¬ Seen s cid P.content := fun cid hseen =>
    hfresh.1 (hfiles.shown cid P.content hseen revision hfresh.2 hline)
  refine ⟨fun cid text htext own huuid hown => ?_, fun Q hQ => ?_, fun Q hQ R hR hsame => ?_,
    fun permit hpermit => List.mem_append_left _ (hfiles.permits permit hpermit),
    fun permit hpermit => List.mem_append_left _ (hfiles.commands permit hpermit),
    fun Q hQ cid hseen => ?_, hfiles.current⟩
  · exact List.mem_cons_of_mem _ (hfiles.shown cid text htext own huuid hown)
  · rcases List.mem_append.mp hQ with hQ | hQ
    · obtain ⟨own, hissued, hown⟩ := hfiles.contents Q hQ
      exact ⟨own, List.mem_cons_of_mem _ hissued, hown⟩
    · cases List.mem_singleton.mp hQ
      exact ⟨revision, List.mem_cons_self, hfresh.2, hline⟩
  · rcases List.mem_append.mp hQ with hQ | hQ <;> rcases List.mem_append.mp hR with hR | hR
    · exact hfiles.unique Q hQ R hR hsame
    · cases List.mem_singleton.mp hR
      exact absurd hsame (hother Q hQ)
    · cases List.mem_singleton.mp hQ
      exact absurd hsame.symm (hother R hR)
    · rw [List.mem_singleton.mp hQ, List.mem_singleton.mp hR]
  · rcases List.mem_append.mp hQ with hQ | hQ
    · exact hfiles.written Q hQ cid hseen
    · cases List.mem_singleton.mp hQ
      exact absurd hseen (hunseen cid)

theorem Files.change (hfile : Function.Injective X.fileDigest) {s t : World T}
    (hfiles : Files X s) (h : Change X s t) : Files X t := by
  cases h with
  | none => exact hfiles
  | issue revision _ =>
      exact { hfiles with
        shown := fun cid text htext own huuid hown =>
          List.mem_cons_of_mem _ (hfiles.shown cid text htext own huuid hown)
        contents := fun Q hQ => (hfiles.contents Q hQ).imp fun own hown =>
          ⟨List.mem_cons_of_mem _ hown.1, hown.2⟩ }
  | send revision command _ _ hother =>
      refine ⟨fun cid text htext own huuid hown =>
          List.mem_cons_of_mem _ (hfiles.shown cid text htext own huuid hown),
        fun Q hQ => (hfiles.contents Q hQ).imp fun own hown =>
          ⟨List.mem_cons_of_mem _ hown.1, hown.2⟩,
        hfiles.unique, hfiles.permits, fun permit hpermit => ?_, hfiles.written, hfiles.current⟩
      rcases List.mem_append.mp hpermit with hpermit | hpermit
      · exact hfiles.commands permit hpermit
      · exact absurd (List.mem_singleton.mp hpermit).symm (hother permit)
  | prepare cid content revision hfresh => exact hfiles.prepare hfresh rfl
  | grant permit hprepared _ =>
      refine { hfiles with permits := fun other hother => ?_ }
      rcases List.mem_append.mp hother with hother | hother
      · exact hfiles.permits other hother
      · rw [List.mem_singleton.mp hother]
        exact hprepared
  | apply permit hpermit =>
      refine { hfiles with commands := fun other hother => ?_ }
      rcases List.mem_append.mp hother with hother | hother
      · exact hfiles.commands other hother
      · cases List.mem_singleton.mp hother
        exact hfiles.permits permit hpermit
  | deliver command cut next hmem hscript =>
      rcases script_cases hscript with ⟨_, _, _, _, hhba, _⟩ | ⟨_, _, _, _, _, _, _, hnext⟩ |
        ⟨permit, _, rfl, _, _, hdigest, hnext⟩
      · exact hfiles.replace_same hhba
      · exact hfiles.replace_same (by rw [hnext])
      · exact (hfiles.replace_content hfile (hfiles.commands permit hmem) hdigest
          (by rw [hnext])).1

/-- What a file held once is never forgotten. -/
theorem past_change {s t : World T} (h : Change X s t) {cid text : CodePoints}
    (htext : text ∈ s.past cid) : text ∈ t.past cid := by
  cases h with
  | none | issue | send | prepare | grant | apply => exact htext
  | deliver command cut next hmem hscript => exact past_replace_mono htext

end Sbarbase.Hba.Proofs
