import Sbarbase.Transfer.Journal
/-!
# How a record is published

A publication passes a fixed row of stages: the marker is made and written, the
candidate is made and written, the candidate takes the record's place, the
marker goes. What a journal looks at changes nothing.
-/

namespace Sbarbase.Transfer.Proofs.Publication

open Lib Lib.Durable Journal

/-! ## Looking -/

section

variable (sha256 : List Char → ℕ) (binding : Binding)

instance (p : Prop) [Decidable p] (code : String) : Looks (ensure p code) := by
  unfold ensure
  infer_instance

instance {α : Type} (code : String) : Looks (refuse code : Journal α) := by
  unfold refuse
  infer_instance

instance (allow : Bool) : Looks (boundary allow) := by
  unfold boundary
  infer_instance

instance {α : Type} (encode : α → List Char) (file : Disk → Option (File α)) :
    Looks (readLeaf encode file) := by
  unfold readLeaf
  refine Looks.bind inferInstance fun _ => Looks.bind inferInstance fun d => ?_
  rcases file d with _ | _ | content <;> infer_instance

instance (missing : Bool) : Looks (readRecord sha256 binding missing) := by
  unfold readRecord
  refine Looks.bind inferInstance fun _ => Looks.bind inferInstance fun record =>
    Looks.bind inferInstance fun _ => Looks.bind inferInstance fun _ => ?_
  cases record <;> infer_instance

instance : Looks (snapshot sha256 binding) := by
  unfold snapshot
  refine Looks.bind inferInstance fun record => ?_
  cases record <;> infer_instance

instance (history : List AbortReceipt) : Looks (publicationStatus sha256 binding history) := by
  unfold publicationStatus
  infer_instance

instance (target : Record) (manifests names : List String) :
    Looks (abortedReceipts sha256 binding target manifests names) := by
  induction names generalizing manifests with
  | nil => exact inferInstanceAs (Looks (pure []))
  | cons name names ih =>
      unfold abortedReceipts
      refine Looks.bind inferInstance fun _ => Looks.bind inferInstance fun receipt => ?_
      cases receipt <;> infer_instance

instance (target : Record) : Looks (abortedReceipt sha256 binding target) := by
  unfold abortedReceipt
  infer_instance

instance (record : Record) : Looks (materialContinuity record) := by
  unfold materialContinuity
  infer_instance

instance : Looks (readReserved sha256 binding) := by
  unfold readReserved
  refine Looks.bind inferInstance fun record => ?_
  cases record <;> infer_instance

end

section

variable {sha256 : List Char → ℕ} {binding : Binding} {d : Disk} {t : Process}

theorem returns_ensure {p : Prop} [Decidable p] {code : String} {u : Unit} :
    (ensure p code).Returns d t u ↔ p :=
  returns_require

theorem not_returns_refuse {α : Type} {code : String} {a : α} :
    ¬ (refuse code : Journal α).Returns d t a :=
  not_returns_throw

/-- No publication is under way. -/
def Settled (d : Disk) : Prop := d.marker = none ∧ d.candidates = ∅

theorem eq_empty_of_keys {ν : Type} {m : Dict String ν} (h : m.keys = []) : m = ∅ := by
  apply AList.ext
  exact List.map_eq_nil_iff.mp h

theorem returns_boundary {allow : Bool} {u : Unit} (h : (boundary allow).Returns d t u) :
    d.entries ≤ 4096 ∧ (allow = false → t.poisoned = false ∧ Settled d) := by
  unfold boundary at h
  simp only [returns_bind, returns_memory, returns_disk, returns_ensure] at h
  obtain ⟨_, rfl, _, hpoisoned, _, rfl, _, hentries, hmarks⟩ := h
  refine ⟨hentries, ?_⟩
  rintro rfl
  obtain ⟨hmarker, hkeys⟩ := hmarks.resolve_left (by simp)
  exact ⟨hpoisoned.resolve_right (by simp), hmarker, eq_empty_of_keys hkeys⟩

theorem returns_readLeaf {α : Type} {encode : α → List Char} {file : Disk → Option (File α)}
    {found : Option α} (h : (readLeaf encode file).Returns d t found) :
    file d = found.map File.whole ∧ ∀ content ∈ found, (encode content).length ≤ maxBytes := by
  unfold readLeaf at h
  rw [returns_bind] at h
  obtain ⟨_, -, h⟩ := h
  rw [returns_bind] at h
  obtain ⟨_, hd, h⟩ := h
  obtain rfl := returns_disk.mp hd
  split at h
  · rename_i hfile
    obtain rfl := returns_pure.mp h
    exact ⟨hfile, by simp⟩
  · exact absurd h not_returns_refuse
  · rename_i content hfile
    rw [returns_bind] at h
    obtain ⟨_, hsize, h⟩ := h
    rw [returns_bind] at h
    obtain ⟨_, -, h⟩ := h
    obtain rfl := returns_pure.mp h
    refine ⟨hfile, ?_⟩
    intro content' hcontent
    obtain rfl := Option.some.inj hcontent
    exact returns_ensure.mp hsize

theorem returns_readRecord {missing : Bool} {found : Option Record}
    (h : (readRecord sha256 binding missing).Returns d t found) :
    Settled d ∧ d.record = found.map File.whole ∧ (missing = false → found ≠ none) ∧
      ∀ record ∈ found, validate sha256 binding record = .ok () := by
  unfold readRecord at h
  rw [returns_bind] at h
  obtain ⟨_, hboundary, h⟩ := h
  rw [returns_bind] at h
  obtain ⟨read, hread, h⟩ := h
  rw [returns_bind] at h
  obtain ⟨_, hmissing, h⟩ := h
  rw [returns_bind] at h
  obtain ⟨_, -, h⟩ := h
  have hsettled := ((returns_boundary hboundary).2 rfl).2
  have hrecord := (returns_readLeaf hread).1
  rw [returns_ensure] at hmissing
  cases read with
  | none =>
      obtain rfl := returns_pure.mp h
      exact ⟨hsettled, hrecord, by simpa using hmissing, by simp⟩
  | some record =>
      dsimp only at h
      rw [returns_bind] at h
      obtain ⟨_, hvalid, h⟩ := h
      obtain rfl := returns_pure.mp h
      refine ⟨hsettled, hrecord, by simp, ?_⟩
      intro record' hrecord'
      obtain rfl := Option.some.inj hrecord'
      exact hvalid

end

theorem map_whole_injective {α : Type} {a b : Option α}
    (h : a.map File.whole = b.map File.whole) : a = b :=
  Option.map_injective (fun _ _ => File.whole.inj) h

/-! ## The stages of a publication -/

/-- A publication of `record` after `old`, as it was checked before the first write. -/
structure Draft (sha256 : List Char → ℕ) (binding : Binding) (old : Option Record)
    (record : Record) : Prop where
  valid : validate sha256 binding record = .ok ()
  size : record.encode.length ≤ maxBytes
  follows : transition old record = .ok ()

/-- A publication that was begun and did not replace the record: it can be
aborted, or it is stuck at a file that was never written out. -/
inductive Kept (sha256 : List Char → ℕ) (binding : Binding) (old : Option Record) (m : Manifest)
    (d : Disk) : Prop
  | marking (hmarker : d.marker = some .torn) (hcandidates : d.candidates = ∅)
      (hrecord : d.record = old.map File.whole)
  | marked (hmarker : d.marker = some (.whole m)) (hcandidates : d.candidates = ∅)
      (hrecord : d.record = old.map File.whole)
  | drafting (hmarker : d.marker = some (.whole m))
      (hcandidates : d.candidates = (∅ : Dict _ _).set m.candidate .torn)
      (hrecord : d.record = old.map File.whole)
  | aborted (hmarker : d.marker = none) (hcandidates : d.candidates = ∅)
      (hrecord : d.record = old.map File.whole) (hold : old ≠ none)
      (hreceipt : d.receipts.get (abortName binding m) = some (.whole (abortReceiptOf sha256 m)))

/-- The candidate is whole, and the record not replaced yet. -/
structure Drafted (old : Option Record) (m : Manifest) (record : Record) (d : Disk) : Prop where
  marker : d.marker = some (.whole m)
  candidates : d.candidates = (∅ : Dict _ _).set m.candidate (.whole record)
  record : d.record = old.map File.whole

/-- The record was replaced. -/
inductive Installed (m : Manifest) (record : Record) (d : Disk) : Prop
  | renamed (hmarker : d.marker = some (.whole m)) (hcandidates : d.candidates = ∅)
      (hrecord : d.record = some (.whole record))
  | published (hmarker : d.marker = none) (hcandidates : d.candidates = ∅)
      (hrecord : d.record = some (.whole record))

/-- Where a publication that was begun stands. The abort receipts and the other
entries of the directory are not its concern, except the receipt that says it
was aborted. -/
inductive Stage (sha256 : List Char → ℕ) (binding : Binding) (old : Option Record) (m : Manifest)
    (record : Record) (d : Disk) : Prop
  | kept (h : Kept sha256 binding old m d)
  | drafted (h : Drafted old m record d)
  | installed (h : Installed m record d)

section

variable {ν : Type} (candidate : String) (v w : ν)

theorem set_set : ((∅ : Dict String ν).set candidate v).set candidate w =
    (∅ : Dict String ν).set candidate w :=
  AList.insert_insert ∅

theorem delete_set : ((∅ : Dict String ν).set candidate v).delete candidate = ∅ := by
  apply AList.ext
  exact List.kerase_cons_eq rfl

theorem get_set_self : ((∅ : Dict String ν).set candidate v).get candidate = some v :=
  AList.lookup_insert ∅

theorem keys_set : ((∅ : Dict String ν).set candidate v).keys = [candidate] := rfl

end

section

variable (sha256 : List Char → ℕ) (binding : Binding) (token : String)

/-- The publication of `record` after `old` under a candidate of its own. -/
def Publishing (old : Option Record) (record : Record) (d : Disk) : Prop :=
  Draft sha256 binding old record ∧
    Stage sha256 binding old
      (manifestOf sha256 binding old record (pendingPrefix binding ++ token)) record d

instance (previous : Bool) : Looks (previousRecord sha256 binding previous) := by
  unfold previousRecord
  cases previous <;> infer_instance

theorem returns_previousRecord {d : Disk} {t : Process} {previous : Bool} {old : Option Record}
    (hprevious : d.record.isSome = previous)
    (h : (previousRecord sha256 binding previous).Returns d t old) :
    d.record = old.map File.whole := by
  cases previous with
  | true => exact (returns_readRecord h).2.1
  | false =>
      obtain rfl := returns_pure.mp h
      simpa using hprevious

/-- The writes of a publication pass its stages and stop at one of them. -/
theorem writeGeneration_meets {old : Option Record} {m : Manifest} {record : Record} {d : Disk}
    {t : Process} {previous : Bool} (hcandidates : d.candidates = ∅)
    (hrecord : d.record = old.map File.whole) :
    (writeGeneration m record previous).Meets d t
      (fun _ => Stage sha256 binding old m record)
      (fun _ d' _ => d' = d ∨ Stage sha256 binding old m record d') := by
  unfold writeGeneration
  apply meets_look (fun _ => .inl rfl)
  intro d' hd'
  rw [returns_disk] at hd'
  rw [hd']
  apply meets_look (fun _ => .inl rfl)
  intro _ _
  apply meets_store_bind (.kept (.marking rfl hcandidates hrecord))
  have hmarked : Stage sha256 binding old m record
      ((d.setMarker (some .torn)).setMarker (some (.whole m))) :=
    .kept (.marked rfl hcandidates hrecord)
  apply meets_store_bind hmarked
  apply meets_look (fun _ => .inr hmarked)
  intro _ _
  have hdrafting : d.candidates.set m.candidate .torn =
      (∅ : Dict String (File Record)).set m.candidate .torn := by
    rw [hcandidates]
  apply meets_store_bind (.kept (.drafting rfl hdrafting hrecord))
  have hfilled : (d.candidates.set m.candidate .torn).set m.candidate (.whole record) =
      (∅ : Dict String (File Record)).set m.candidate (.whole record) := by
    rw [hdrafting, set_set]
  have hdrafted : Stage sha256 binding old m record
      ((((d.setMarker (some .torn)).setMarker (some (.whole m))).setCandidate m.candidate
        .torn).setCandidate m.candidate (.whole record)) :=
    .drafted ⟨rfl, hfilled, hrecord⟩
  apply meets_store_bind hdrafted
  apply meets_look (fun _ => .inr hdrafted)
  intro _ _
  have hadopted : ((d.candidates.set m.candidate .torn).set m.candidate (.whole record)).get
      m.candidate = some (.whole record) := by
    rw [hfilled, get_set_self]
  have hempty : ((d.candidates.set m.candidate .torn).set m.candidate (.whole record)).delete
      m.candidate = ∅ := by
    rw [hfilled, delete_set]
  apply meets_store_bind (.installed (.renamed rfl hempty hadopted))
  apply meets_store_bind (.installed (.published rfl hempty hadopted))
  exact meets_looked (fun _ => .inr (.installed (.published rfl hempty hadopted)))
    fun _ _ => .inr (.installed (.published rfl hempty hadopted))

/-- A publication that ends leaves the disk alone or stands at one of its stages,
which are also all it passes. -/
theorem publish_meets (record : Record) (d : Disk) (t : Process) :
    (publish sha256 binding record d.record.isSome token).Meets d t
      (fun _ d' => ∃ old, d.record = old.map File.whole ∧
        Publishing sha256 binding token old record d')
      (fun _ d' _ => d' = d ∨ ∃ old, d.record = old.map File.whole ∧
        Publishing sha256 binding token old record d') := by
  unfold publish
  apply meets_look (fun _ => .inl rfl)
  intro _ hvalid
  apply meets_look (fun _ => .inl rfl)
  intro _ hboundary
  obtain ⟨-, hmarker, hcandidates⟩ := (returns_boundary hboundary).2 rfl
  apply meets_look (fun _ => .inl rfl)
  intro _ hsize
  apply meets_look (fun _ => .inl rfl)
  intro old hold
  have hrecord := returns_previousRecord sha256 binding rfl hold
  apply meets_look (fun _ => .inl rfl)
  intro _ hfollows
  apply meets_look (fun _ => .inl rfl)
  intro _ hmanifest
  have hdraft : Draft sha256 binding old record :=
    ⟨hvalid, returns_ensure.mp hsize, hfollows⟩
  rw [meets_onError]
  refine (writeGeneration_meets sha256 binding hcandidates hrecord).mono ?_ ?_
  · intro _ d' hstage
    exact ⟨old, hrecord, hdraft, hstage⟩
  · intro r d' t' hstage
    have hended : d' = d ∨ ∃ old, d.record = old.map File.whole ∧
        Publishing sha256 binding token old record d' :=
      hstage.imp_right fun hstage => ⟨old, hrecord, hdraft, hstage⟩
    cases r <;> exact hended

end

end Sbarbase.Transfer.Proofs.Publication
