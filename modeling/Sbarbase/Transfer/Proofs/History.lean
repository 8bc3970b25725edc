import Sbarbase.Transfer.Proofs.Generations
import Sbarbase.Transfer.Proofs.Publication
/-!
# The history of a transfer journal

Every durable write of every operation leaves the record alone or publishes a
checked successor of it, so the disks of a run form a chain of generations.
-/

namespace Sbarbase.Transfer.Proofs.History

open Lib Lib.Durable Journal Generations Publication

/-- What one durable write does to the record: nothing, or the first record, or
the one that succeeds it. -/
inductive Published (sha256 : List Char → ℕ) (binding : Binding) :
    Option (File Record) → Option (File Record) → Prop
  | same (file : Option (File Record)) : Published sha256 binding file file
  | first {new : Record} (hvalid : validate sha256 binding new = .ok ())
      (hfirst : new.revision = 0 ∧ new.effects = []) :
      Published sha256 binding none (some (.whole new))
  | next {old new : Record} (hvalid : validate sha256 binding new = .ok ())
      (hnext : Succeeds old new) :
      Published sha256 binding (some (.whole old)) (some (.whole new))

theorem published_of_transition {sha256 : List Char → ℕ} {binding : Binding}
    {old : Option Record} {new : Record} (hvalid : validate sha256 binding new = .ok ())
    (h : transition old new = .ok ()) :
    Published sha256 binding (old.map File.whole) (some (.whole new)) := by
  cases old with
  | none => exact .first hvalid (first_of_transition h)
  | some old => exact .next hvalid (succeeds_of_transition h)

/-! ## One operation -/

/-- Every write of the program publishes nothing or a checked successor. -/
def Publishes (sha256 : List Char → ℕ) (binding : Binding) {α : Type} (c : Journal α) (d : Disk)
    (t : Process) : Prop :=
  c.Meets d t (fun d' d'' => Published sha256 binding d'.record d''.record) fun _ _ _ => True

section

variable {sha256 : List Char → ℕ} {binding : Binding} {α β : Type} {d : Disk} {t : Process}

theorem publishes_look {c : Journal α} {f : α → Journal β} [Looks c]
    (h : ∀ a, c.Returns d t a → Publishes sha256 binding (f a) d t) :
    Publishes sha256 binding (c >>= f) d t :=
  meets_look (fun _ => trivial) h

theorem publishes_looked {c : Journal α} [Looks c] : Publishes sha256 binding c d t :=
  meets_looked (fun _ => trivial) fun _ _ => trivial

theorem publishes_remember {f : Process → Process} {g : Unit → Journal β}
    (h : Publishes sha256 binding (g ()) d (f t)) :
    Publishes sha256 binding (remember f >>= g) d t :=
  meets_remember_bind h

theorem publishes_store {f : Disk → Disk} {g : Unit → Journal β}
    (hR : Published sha256 binding d.record (f d).record)
    (h : Publishes sha256 binding (g ()) (f d) t) : Publishes sha256 binding (store f >>= g) d t :=
  meets_store_bind hR h

theorem publishes_bind {c : Journal α} {f : α → Journal β} (h : Publishes sha256 binding c d t)
    (hf : ∀ a d' t', Publishes sha256 binding (f a) d' t') :
    Publishes sha256 binding (c >>= f) d t := by
  apply meets_bind
  refine h.mono (fun _ _ hR => hR) ?_
  intro r d' t' _
  cases r with
  | error e => trivial
  | ok a => exact hf a d' t'

theorem publishes_onError {c : Journal α} {f : Process → Process} {g : Failure → Failure}
    (h : Publishes sha256 binding c d t) : Publishes sha256 binding (c.onError f g) d t := by
  rw [Publishes, meets_onError]
  refine h.mono (fun _ _ hR => hR) ?_
  intro r _ _ _
  cases r <;> trivial

end

section

variable {sha256 : List Char → ℕ} {binding : Binding} {d : Disk} {t : Process}
  {effectStarted : Bool} {expected : Option String}

theorem publishes_writeGeneration {old : Option Record} {m : Manifest} {record : Record}
    {previous : Bool} (hvalid : validate sha256 binding record = .ok ())
    (hfollows : transition old record = .ok ()) (hrecord : d.record = old.map File.whole) :
    Publishes sha256 binding (writeGeneration m record previous) d t := by
  unfold writeGeneration
  apply publishes_look
  intro d' hd'
  rw [returns_disk] at hd'
  rw [hd']
  apply publishes_look
  intro _ _
  apply publishes_store (.same _)
  apply publishes_store (.same _)
  apply publishes_look
  intro _ _
  apply publishes_store (.same _)
  apply publishes_store (.same _)
  apply publishes_look
  intro _ _
  refine publishes_store ?_ ?_
  · have hadopted : ((d.candidates.set m.candidate .torn).set m.candidate (.whole record)).get
        m.candidate = some (.whole record) := AList.lookup_insert _
    have hpublished := published_of_transition hvalid hfollows
    rw [← hrecord, ← hadopted] at hpublished
    exact hpublished
  · exact publishes_store (.same _) publishes_looked

theorem publishes_publish {record : Record} {previous : Bool} {token : String}
    (hprevious : d.record.isSome = previous) :
    Publishes sha256 binding (publish sha256 binding record previous token) d t := by
  unfold publish
  apply publishes_look
  intro _ hvalid
  apply publishes_look
  intro _ _
  apply publishes_look
  intro _ _
  apply publishes_look
  intro old hold
  have hrecord := returns_previousRecord sha256 binding hprevious hold
  apply publishes_look
  intro _ hfollows
  apply publishes_look
  intro _ _
  exact publishes_onError (publishes_writeGeneration hvalid hfollows hrecord)

theorem publishes_reserve {credentials : Credentials} {createdAt : ℤ} {token : String} :
    Publishes sha256 binding
      (reserve sha256 binding effectStarted expected credentials createdAt token) d t := by
  unfold reserve unavailable
  apply publishes_onError
  apply publishes_look
  intro _ _
  apply publishes_look
  intro found hfound
  refine publishes_bind ?_ fun record d' t' => ?_
  · unfold reservedRecord
    cases found with
    | some record => exact publishes_looked
    | none =>
        apply publishes_look
        intro _ _
        have hnone := (returns_readRecord hfound).2.1
        refine publishes_bind (publishes_publish (by rw [hnone]; rfl)) fun _ _ _ => ?_
        exact publishes_looked
  · apply publishes_look
    intro _ _
    apply publishes_look
    intro _ _
    exact publishes_remember publishes_looked

theorem record_of_readReserved {record : Record}
    (h : (readReserved sha256 binding).Returns d t record) : d.record = some (.whole record) := by
  unfold readReserved at h
  rw [returns_bind] at h
  obtain ⟨found, hfound, h⟩ := h
  cases found with
  | none => exact absurd h not_returns_refuse
  | some found =>
      dsimp only at h
      rw [returns_bind] at h
      obtain ⟨_, _, h⟩ := h
      obtain rfl := returns_pure.mp h
      exact (returns_readRecord hfound).2.1

theorem publishes_beforeEffect {name : String} {metadata : Observation} {token : String} :
    Publishes sha256 binding (beforeEffect sha256 binding name metadata token) d t := by
  unfold beforeEffect unavailable
  apply publishes_onError
  apply publishes_look
  intro _ _
  apply publishes_look
  intro record hrecord
  have hsome := record_of_readReserved hrecord
  apply publishes_look
  intro _ _
  apply publishes_look
  intro _ _
  cases record.effects.find? fun e => e.name = name with
  | some existing => exact publishes_look fun _ _ => publishes_looked
  | none =>
      apply publishes_look
      intro _ _
      apply publishes_look
      intro _ _
      refine publishes_bind (publishes_publish (by rw [hsome]; rfl)) fun _ _ _ => ?_
      exact publishes_looked

theorem publishes_afterEffect {name : String} {receipt : Receipt} {token : String} :
    Publishes sha256 binding (afterEffect sha256 binding name receipt token) d t := by
  unfold afterEffect unavailable
  apply publishes_onError
  apply publishes_look
  intro _ _
  apply publishes_look
  intro record hrecord
  have hsome := record_of_readReserved hrecord
  apply publishes_look
  intro _ _
  cases record.effects.find? fun e => e.name = name with
  | none => exact publishes_looked
  | some effect =>
      apply publishes_look
      intro _ _
      split_ifs
      · exact publishes_look fun _ _ => publishes_looked
      · refine publishes_bind (publishes_publish (by rw [hsome]; rfl)) fun _ _ _ => ?_
        exact publishes_looked

theorem publishes_unlinkMarker : Publishes sha256 binding unlinkMarker d t := by
  unfold unlinkMarker
  apply publishes_look
  intro _ _
  apply publishes_look
  intro _ _
  apply publishes_look
  intro _ _
  exact publishes_store (.same _) publishes_looked

theorem publishes_completePublication {record : Record} :
    Publishes sha256 binding (completePublication sha256 binding record) d t := by
  unfold completePublication
  refine publishes_bind publishes_unlinkMarker fun _ _ _ => ?_
  exact publishes_remember publishes_looked

theorem publishes_confirmPublication {target : Option Record} :
    Publishes sha256 binding (confirmPublication sha256 binding target effectStarted expected)
      d t := by
  unfold confirmPublication
  apply publishes_look
  intro _ _
  apply publishes_look
  intro _ _
  cases target with
  | none => exact publishes_looked
  | some target =>
      apply publishes_look
      intro _ _
      apply publishes_look
      intro _ _
      apply publishes_look
      intro _ _
      apply publishes_look
      intro _ _
      exact publishes_remember publishes_looked

theorem publishes_abortPublication {m : Manifest} {target : Record} :
    Publishes sha256 binding (abortPublication sha256 binding m target) d t := by
  unfold abortPublication
  apply publishes_look
  intro _ _
  apply publishes_look
  intro _ _
  apply publishes_look
  intro _ _
  refine publishes_bind ?_ fun _ _ _ => ?_
  · unfold keepReceipt
    apply publishes_look
    intro existing _
    cases existing with
    | none =>
        apply publishes_store (.same _)
        exact meets_store.mpr ⟨.same _, trivial⟩
    | some existing => exact publishes_looked
  · refine publishes_bind publishes_unlinkMarker fun _ _ _ => ?_
    exact publishes_remember publishes_looked

/-- The candidate that is adopted was checked against the record it replaces. -/
theorem publishes_resumeCandidate {m : Manifest} {target : Option Record} {proposed : Record}
    (hrecord : d.record = target.map File.whole)
    (hproposed : d.candidates.get m.candidate = some (.whole proposed)) :
    Publishes sha256 binding
      (resumeCandidate sha256 binding m target proposed effectStarted expected) d t := by
  unfold resumeCandidate
  apply publishes_look
  intro _ hvalid
  apply publishes_look
  intro _ _
  apply publishes_look
  intro _ _
  apply publishes_look
  intro _ hfollows
  unfold adoptPublication
  apply publishes_look
  intro _ _
  refine publishes_bind ?_ fun _ _ _ => publishes_bind publishes_completePublication fun _ _ _ => ?_
  · unfold adoptCandidate
    apply publishes_look
    intro _ _
    refine publishes_store ?_ (publishes_look fun _ _ => publishes_looked)
    have hpublished := published_of_transition hvalid hfollows
    rw [← hrecord, ← hproposed] at hpublished
    exact hpublished
  · exact publishes_looked

theorem publishes_resumeTarget {m : Manifest} {target : Record} :
    Publishes sha256 binding (resumeTarget sha256 binding m target effectStarted expected) d t := by
  unfold resumeTarget
  split_ifs
  · apply publishes_look
    intro _ _
    apply publishes_look
    intro _ _
    exact publishes_abortPublication
  · apply publishes_look
    intro _ _
    unfold confirmRenamed
    apply publishes_look
    intro _ _
    refine publishes_bind publishes_completePublication fun _ _ _ => ?_
    exact publishes_looked

theorem publishes_reconcilePublication :
    Publishes sha256 binding (reconcilePublication sha256 binding effectStarted expected) d t := by
  unfold reconcilePublication
  apply publishes_onError
  apply publishes_look
  intro _ _
  apply publishes_look
  intro _ _
  apply publishes_look
  intro manifest _
  apply publishes_look
  intro target htarget
  apply publishes_look
  intro _ _
  cases manifest with
  | none => exact publishes_confirmPublication
  | some m =>
      dsimp only
      unfold resumePublication
      apply publishes_look
      intro _ _
      apply publishes_look
      intro _ _
      apply publishes_look
      intro _ _
      apply publishes_look
      intro proposed hproposed
      cases proposed with
      | some proposed =>
          exact publishes_resumeCandidate (returns_readLeaf htarget).1 (returns_readLeaf hproposed).1
      | none =>
          cases target with
          | none => exact publishes_looked
          | some target => exact publishes_resumeTarget

theorem publishes_perform {operation : Operation} :
    Publishes sha256 binding (perform sha256 binding operation) d t := by
  cases operation with
  | reserve effectStarted expected credentials createdAt token =>
      exact publishes_bind publishes_reserve fun _ _ _ => publishes_looked
  | beforeEffect name metadata token =>
      exact publishes_bind publishes_beforeEffect fun _ _ _ => publishes_looked
  | afterEffect name receipt token =>
      exact publishes_bind publishes_afterEffect fun _ _ _ => publishes_looked
  | reconcilePublication effectStarted expected =>
      exact publishes_bind publishes_reconcilePublication fun _ _ _ => publishes_looked
  | snapshot => exact publishes_look fun _ _ => publishes_looked

end

/-! ## Runs -/

section

variable (sha256 : List Char → ℕ) (binding : Binding)

/-- The disks that one event passes are a chain, and it stops at the last. -/
theorem step_publishes (s : System) (e : Event) : (s.disk :: passes sha256 binding s e).IsChain
        (fun d d' => Published sha256 binding d.record d'.record) ∧
      ((machine sha256 binding).step s e).disk = (passes sha256 binding s e).getLastD s.disk := by
  rcases s with ⟨d, process⟩
  cases e with
  | openJournal =>
      refine ⟨.singleton d, ?_⟩
      dsimp only [machine]
      cases (openJournal binding d .fresh).outcome <;> rfl
  | close => exact ⟨.singleton d, rfl⟩
  | others count => exact ⟨.cons_cons (.same _) (.singleton _), rfl⟩
  | call operation =>
      cases process with
      | none => exact ⟨.singleton d, rfl⟩
      | some process =>
          have hran : Publishes sha256 binding (perform sha256 binding operation) d process :=
            publishes_perform
          exact ⟨hran.1, hran.2.1⟩
  | interrupted operation writes process' =>
      cases process with
      | none => exact ⟨.singleton d, rfl⟩
      | some process =>
          have hran : Publishes sha256 binding (perform sha256 binding operation) d process :=
            publishes_perform
          exact ⟨hran.1.take (writes + 1), rfl⟩

theorem history_publishes (s : System) (events : List Event) :
    (s.disk :: history sha256 binding s events).IsChain
        (fun d d' => Published sha256 binding d.record d'.record) ∧
      ((machine sha256 binding).runFrom s events).disk =
        (history sha256 binding s events).getLastD s.disk := by
  induction events generalizing s with
  | nil => exact ⟨.singleton s.disk, rfl⟩
  | cons e events ih =>
      obtain ⟨hfirst, hdisk⟩ := step_publishes sha256 binding s e
      obtain ⟨hrest, hend⟩ := ih ((machine sha256 binding).step s e)
      rw [hdisk] at hrest hend
      refine ⟨isChain_append hfirst hrest, ?_⟩
      rw [history, getLastD_append]
      exact hend

variable {sha256 binding}

/-- The record on the disk was validated. -/
def Valid (sha256 : List Char → ℕ) (binding : Binding) (d : Disk) : Prop :=
  ∀ file ∈ d.record, ∃ r, file = .whole r ∧ validate sha256 binding r = .ok () ∧
    Orderly r.effects

/-- The effect is in the record, and verified. -/
def Verified (e : Effect) (d : Disk) : Prop :=
  ∃ r, d.record = some (.whole r) ∧ e ∈ r.effects ∧ e.state = "verified"

theorem valid_of_published {d d' : Disk} (h : Published sha256 binding d.record d'.record)
    (hd : Valid sha256 binding d) : Valid sha256 binding d' := by
  intro file hfile
  generalize hold : d.record = old at h
  generalize hnew : d'.record = new at h hfile
  cases h with
  | same => exact hd file (hold.trans hfile)
  | first hvalid _ =>
      obtain rfl := Option.some.inj hfile
      exact ⟨_, rfl, hvalid, orderly_of_validate hvalid⟩
  | next hvalid _ =>
      obtain rfl := Option.some.inj hfile
      exact ⟨_, rfl, hvalid, orderly_of_validate hvalid⟩

theorem verified_of_published {d d' : Disk} {e : Effect}
    (h : Published sha256 binding d.record d'.record) (hd : Verified e d) : Verified e d' := by
  obtain ⟨r, hrecord, he, hverified⟩ := hd
  generalize hold : d.record = old at h
  generalize hnew : d'.record = new at h
  cases h with
  | same => exact ⟨r, hnew.trans (hold.symm.trans hrecord), he, hverified⟩
  | first _ _ =>
      rw [hold] at hrecord
      contradiction
  | next _ hnext =>
      rw [hold] at hrecord
      obtain rfl := File.whole.inj (Option.some.inj hrecord)
      exact ⟨_, hnew, verified_of_grown hnext.effects he hverified, hverified⟩

/-- With names that occur once, an effect is found by its own. -/
theorem find_of_orderly {effects : List Effect} (hnames : (effects.map Effect.name).Nodup)
    {e : Effect} (he : e ∈ effects) : effects.find? (fun e' => e'.name = e.name) = some e := by
  induction effects with
  | nil => contradiction
  | cons first effects ih =>
      rw [List.map_cons, List.nodup_cons] at hnames
      rcases List.mem_cons.mp he with rfl | hlater
      · exact List.find?_cons_of_pos (by simp)
      · have hother : first.name ≠ e.name := by
          intro hsame
          exact hnames.1 (hsame ▸ List.mem_map_of_mem hlater)
        rw [List.find?_cons_of_neg (by simpa using hother)]
        exact ih hnames.2 hlater

/-- An effect that was verified is answered with what is known of it. -/
theorem beforeEffect_of_verified {d : Disk} {e : Effect} (hd : Valid sha256 binding d)
    (he : Verified e d) (metadata : Observation) (token : String) (t : Process) :
    (beforeEffect sha256 binding e.name metadata token d t).passed = [] ∧
      ∀ f, (beforeEffect sha256 binding e.name metadata token d t).outcome = .ok f → f = e := by
  obtain ⟨r, hrecord, hmem, _⟩ := he
  have hran : (beforeEffect sha256 binding e.name metadata token).Meets d t
      (fun _ _ => False) (fun result _ _ => ∀ f, result = .ok f → f = e) := by
    unfold beforeEffect unavailable
    rw [meets_onError]
    refine Meets.mono (Q := fun result _ _ => ∀ f, result = .ok f → f = e) ?_
      (fun _ _ h => h) ?_
    · apply meets_look (by simp)
      intro _ _
      apply meets_look (by simp)
      intro record hread
      obtain rfl : r = record := by
        have hsame := hrecord.symm.trans (record_of_readReserved hread)
        exact File.whole.inj (Option.some.inj hsame)
      apply meets_look (by simp)
      intro _ _
      apply meets_look (by simp)
      intro _ _
      obtain ⟨r', hsame, _, horderly⟩ := hd _ hrecord
      obtain rfl := File.whole.inj hsame
      rw [find_of_orderly horderly.names hmem]
      apply meets_look (by simp)
      intro _ _
      rw [meets_pure]
      intro f hf
      exact (Except.ok.inj hf).symm
    · intro result _ _ h
      cases result with
      | error _ => simp
      | ok f => exact h
  refine ⟨?_, hran.2.2⟩
  cases hpassed : (beforeEffect sha256 binding e.name metadata token d t).passed with
  | nil => rfl
  | cons first rest =>
      have hchain := hran.1
      rw [hpassed, List.isChain_cons_cons] at hchain
      exact hchain.1.elim

end

/-- Over every run of a journal, crashes and reopenings included: every record on
disk is valid, with one pending effect at most and that in the last place; every
write leaves the record or publishes its successor; a verified effect stays in
every later record, and asking for it again writes nothing and shows it. -/
theorem journal_law (sha256 : List Char → ℕ) (binding : Binding) (events : List Event) :
    let disks := emptyDisk :: history sha256 binding (machine sha256 binding).initial events
    (∀ d ∈ disks, ∀ file ∈ d.record, ∃ r, file = .whole r ∧
      validate sha256 binding r = .ok () ∧ Orderly r.effects) ∧
    disks.IsChain (fun d d' => Published sha256 binding d.record d'.record) ∧
    disks.Pairwise (fun d d' => ∀ e, Verified e d → Verified e d') ∧
    ∀ d ∈ disks, ∀ e, Verified e d → ∀ metadata token process,
      let ran := beforeEffect sha256 binding e.name metadata token
        ((machine sha256 binding).run events).disk process
      ran.passed = [] ∧ ∀ f, ran.outcome = .ok f → f = e := by
  obtain ⟨hchain, hlast⟩ := history_publishes sha256 binding (machine sha256 binding).initial events
  have hvalid : ∀ d ∈ emptyDisk :: history sha256 binding (machine sha256 binding).initial events,
      Valid sha256 binding d := by
    apply hchain.induction
    · intro d d' hpublished hd
      exact valid_of_published hpublished hd
    · intro _ file hfile
      contradiction
  have hkept : (emptyDisk :: history sha256 binding (machine sha256 binding).initial events).IsChain
      fun d d' => ∀ e, Verified e d → Verified e d' :=
    hchain.imp fun d d' hpublished e => verified_of_published hpublished
  refine ⟨hvalid, hchain, ?_, ?_⟩
  · have : Trans (fun d d' => ∀ e, Verified e d → Verified e d')
        (fun d d' => ∀ e, Verified e d → Verified e d')
        (fun d d' => ∀ e, Verified e d → Verified e d') :=
      ⟨fun h h' e he => h' e (h e he)⟩
    exact hkept.pairwise
  · intro d hd e he metadata token process
    have hfinal := rel_getLastD (fun _ _ he => he) (fun _ _ _ h h' e he => h' e (h e he)) hkept d hd
    have hrun : ((machine sha256 binding).run events).disk = _ := hlast
    rw [hrun]
    exact beforeEffect_of_verified (hvalid _ List.getLastD_mem_cons) (hfinal e he) metadata token
      process

end Sbarbase.Transfer.Proofs.History
