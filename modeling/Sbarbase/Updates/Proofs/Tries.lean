import Sbarbase.Updates.Proofs.Channel
/-!
# The ledger over a whole history

While no more versions than the ledger keeps were ever marked, an entry only grows:
the tries are counted before each automatic request, and a way back is marked before
it counts as announced.
-/

namespace Sbarbase.Updates.Proofs.Tries

open Lib Updates Updates.Proofs.Slot Updates.Proofs.Turns Updates.Proofs.Channel

/-- No version was ever dropped from the ledger. -/
def Bounded (s : System) : Prop := s.seen.length ≤ ledgerKeep

/-- What a later ledger still knows of a version. -/
structure Grows (s s' : System) : Prop where
  seen : s.seen.length ≤ s'.seen.length
  tries : Bounded s' → ∀ version, (s.ledger.entry version).tries ≤ (s'.ledger.entry version).tries
  spent : Bounded s' → ∀ version, (s.ledger.entry version).spent = true →
    (s'.ledger.entry version).spent = true

theorem Grows.refl (s : System) : Grows s s :=
  ⟨le_rfl, fun _ _ => le_rfl, fun _ _ h => h⟩

theorem Grows.trans {a b c : System} (h : Grows a b) (h' : Grows b c) : Grows a c where
  seen := h.seen.trans h'.seen
  tries hbound version := (h.tries (h'.seen.trans hbound) version).trans (h'.tries hbound version)
  spent hbound version hspent :=
    h'.spent hbound version (h.spent (h'.seen.trans hbound) version hspent)

theorem Grows.of_eq {s s' : System} (ledger : s'.ledger = s.ledger) (seen : s'.seen = s.seen) :
    Grows s s' where
  seen := by rw [seen]
  tries := by rw [ledger]; exact fun _ _ => le_rfl
  spent := by rw [ledger]; exact fun _ _ h => h

/-- The ledger has exactly the versions marked, and never more than the allowed tries. -/
structure Ledgers (s : System) : Prop where
  versions : s.ledger.versions = s.seen
  back : ∀ version ∈ s.back, (s.ledger.entry version).rolledBack = true
  tries : ∀ version, (s.ledger.entry version).tries ≤ automaticTries

/-- What a write needs of the ledger. -/
def Counted (s : System) : Act → Prop
  | .mark version (.tried _) => (s.ledger.entry version).tries < automaticTries
  | .told version => Bounded s → (s.ledger.entry version).rolledBack = true
  | _ => True

/-! ## One write -/

/-- A mark that drops nothing changes the entry of its version. -/
theorem entry_perform_mark {s : System} {version : String} {change : Change} (h : Ledgers s)
    (hbound : Bounded ((Act.mark version change).perform s)) (other : String) :
    ((Act.mark version change).perform s).ledger.entry other =
      if version = other then change.of (s.ledger.entry version) else s.ledger.entry other := by
  refine entry_mark ?_ other
  have hversions := versions_put s.ledger (change.of (s.ledger.entry version))
  simp only [Change.version_of, Ledger.version_entry, h.versions] at hversions
  calc (s.ledger.put (change.of (s.ledger.entry version))).rows.length
      = (Ledger.versions (s.ledger.put (change.of (s.ledger.entry version)))).length := by
        rw [Ledger.versions, List.length_map]
    _ ≤ ledgerKeep := by
        rw [hversions]
        exact hbound

theorem versions_perform_mark {s : System} {version : String} {change : Change} (h : Ledgers s)
    (hbound : Bounded ((Act.mark version change).perform s)) :
    ((Act.mark version change).perform s).ledger.versions =
      ((Act.mark version change).perform s).seen := by
  have hversions := versions_put s.ledger (change.of (s.ledger.entry version))
  simp only [Change.version_of, Ledger.version_entry, h.versions] at hversions
  have hlength : (s.ledger.put (change.of (s.ledger.entry version))).rows.length ≤ ledgerKeep := by
    have hrows : (Ledger.versions (s.ledger.put (change.of (s.ledger.entry version)))).length ≤
        ledgerKeep := by
      rw [hversions]
      exact hbound
    rwa [Ledger.versions, List.length_map] at hrows
  simp only [Act.perform, mark, Ledger.trim_of_le hlength, hversions]

theorem Change.grows (change : Change) (entry : Entry) :
    entry.tries ≤ (change.of entry).tries ∧ (entry.spent = true → (change.of entry).spent = true) ∧
      (entry.rolledBack = true → (change.of entry).rolledBack = true) := by
  cases change with
  | announced => exact ⟨le_rfl, id, id⟩
  | spent => exact ⟨le_rfl, fun _ => rfl, id⟩
  | rolledBack => exact ⟨le_rfl, id, fun _ => rfl⟩
  | tried at_ => exact ⟨Nat.le_succ _, id, id⟩

theorem seen_perform (s : System) (act : Act) : s.seen.length ≤ (act.perform s).seen.length := by
  cases act with
  | mark version change =>
      simp only [Act.perform]
      split_ifs
      · exact le_rfl
      · rw [List.length_append]
        exact Nat.le_add_right _ _
  | slot | last | unlink | told | upgrade | checkout | aside | current => exact le_rfl

theorem grows_perform {s : System} (act : Act) (h : Bounded s → Ledgers s) :
    Grows s (act.perform s) := by
  cases act with
  | mark version change =>
      have hseen := seen_perform s (.mark version change)
      refine ⟨hseen, fun hbound other => ?_, fun hbound other hspent => ?_⟩
      · rw [entry_perform_mark (h (hseen.trans hbound)) hbound]
        split_ifs with heq
        · rw [← heq]
          exact (Change.grows change _).1
        · exact le_rfl
      · rw [entry_perform_mark (h (hseen.trans hbound)) hbound]
        split_ifs with heq
        · rw [← heq] at hspent
          exact (Change.grows change _).2.1 hspent
        · exact hspent
  | slot | last | unlink | told | upgrade | checkout | aside | current =>
      exact Grows.of_eq rfl rfl

theorem ledgers_perform {s : System} {act : Act} (hcounted : Counted s act)
    (h : Bounded s → Ledgers s) (hbound : Bounded (act.perform s)) : Ledgers (act.perform s) := by
  have hledgers := h ((seen_perform s act).trans hbound)
  cases act with
  | mark version change =>
      refine ⟨versions_perform_mark hledgers hbound, fun other hother => ?_, fun other => ?_⟩
      · rw [entry_perform_mark hledgers hbound]
        have hback := hledgers.back other hother
        split_ifs with heq
        · rw [← heq] at hback
          exact (Change.grows change _).2.2 hback
        · exact hback
      · rw [entry_perform_mark hledgers hbound]
        split_ifs
        · cases change with
          | announced | spent | rolledBack => exact hledgers.tries version
          | tried at_ => exact hcounted
        · exact hledgers.tries other
  | told version =>
      refine ⟨hledgers.versions, fun other hother => ?_, hledgers.tries⟩
      rcases List.mem_cons.mp hother with rfl | hother
      · exact hcounted hbound
      · exact hledgers.back other hother
  | slot | last | unlink | upgrade | checkout | aside | current =>
      exact ⟨hledgers.versions, hledgers.back, hledgers.tries⟩

/-- A list of writes keeps the ledger sound and lets it grow. -/
theorem ledgers_performAll {s : System} {acts : List Act} (hcounted : Each Counted s acts)
    (h : Bounded s → Ledgers s) :
    (Bounded (s.perform acts) → Ledgers (s.perform acts)) ∧ Grows s (s.perform acts) := by
  induction acts generalizing s with
  | nil => exact ⟨h, Grows.refl s⟩
  | cons act acts ih =>
      obtain ⟨hrest, hgrows⟩ := ih hcounted.2 (ledgers_perform hcounted.1 h)
      exact ⟨hrest, (grows_perform act h).trans hgrows⟩

/-! ## The lists of the code -/

/-- A write that the ledger does not ask anything of. -/
def Plain : Act → Prop
  | .mark _ (.tried _) | .told _ => False
  | _ => True

theorem Plain.counted {act : Act} (h : Plain act) (s : System) : Counted s act := by
  cases act with
  | mark version change =>
      cases change with
      | tried at_ => exact absurd h id
      | announced | spent | rolledBack => trivial
  | told => exact absurd h id
  | slot | last | unlink | upgrade | checkout | aside | current => trivial

theorem counted_plain {s : System} {acts : List Act} (h : ∀ act ∈ acts, Plain act) :
    Each Counted s acts := Each.of_all fun s act hact => (h act hact).counted s

theorem plain_finish {slot : Option Request} {request : Request} {state : Progress}
    {detail : Option String} {moment : Moment} :
    ∀ act ∈ finishRequest slot request state detail moment, Plain act := by
  intro act hmem
  unfold finishRequest at hmem
  split at hmem
  · simp only [List.mem_cons, List.not_mem_nil, or_false] at hmem
    rcases hmem with rfl | rfl | rfl <;> trivial
  · rw [List.mem_singleton.mp hmem]
    trivial

theorem plain_spend {request : Request} {result : Option Outcome} {moved : Bool} :
    ∀ act ∈ spendActs request result moved, Plain act := by
  intro act hmem
  obtain ⟨version, -, rfl⟩ := List.mem_map.mp hmem
  trivial

theorem plain_settle (s : System) (moment : Moment) : ∀ act ∈ settle s moment, Plain act := by
  intro act hmem
  unfold settle at hmem
  split at hmem
  · exact absurd hmem List.not_mem_nil
  · split_ifs at hmem
    · exact plain_finish act hmem
    · exact plain_finish act hmem
    · rcases List.mem_append.mp hmem with hmem | hmem
      · exact plain_spend act hmem
      · exact plain_finish act hmem
    · exact plain_finish act hmem
    · exact absurd hmem List.not_mem_nil

theorem plain_updateFinished (s : System) (p : Process) (job : Job) (ok : Bool) (t : Turn) :
    ∀ act ∈ (updateFinished s p job ok t).acts, Plain act := by
  have hjob : ∀ state detail, ∀ act ∈ finishJob s job state detail t.moment, Plain act := by
    intro state detail act hmem
    unfold finishJob at hmem
    split at hmem
    · exact absurd hmem List.not_mem_nil
    · exact plain_finish act hmem
  intro act hmem
  unfold updateFinished at hmem
  split at hmem
  · rcases List.mem_append.mp hmem with hmem | hmem
    · split at hmem
      · unfold announceAvailable at hmem
        split_ifs at hmem
        · exact absurd hmem List.not_mem_nil
        · obtain ⟨version, -, rfl⟩ := List.mem_map.mp hmem
          trivial
      · exact absurd hmem List.not_mem_nil
    · exact hjob _ _ act hmem
  · have hspent : ∀ completed, ∀ act ∈ (job.request.toList.map fun request =>
        spendActs request (outcome s.outcome job.run) completed).flatten, Plain act := by
      intro completed act hmem
      obtain ⟨acts, hacts, hact⟩ := List.mem_flatten.mp hmem
      obtain ⟨request, -, rfl⟩ := List.mem_map.mp hacts
      exact plain_spend act hact
    simp only at hmem
    split at hmem
    · rcases List.mem_append.mp hmem with hmem | hmem
      · exact hspent _ act hmem
      · exact hjob _ _ act hmem
    · rcases List.mem_append.mp hmem with hmem | hmem
      · exact hspent _ act hmem
      · exact hjob _ _ act hmem

/-- An announced way back is marked first. -/
theorem counted_announce {s : System} {was : Phase} {record : Upgrade} (h : Bounded s → Ledgers s) :
    Each Counted s (announceOutcome was record) := by
  unfold announceOutcome
  split_ifs
  · refine ⟨trivial, fun hbound => ?_, trivial⟩
    have hledgers := h ((seen_perform s _).trans hbound)
    rw [entry_perform_mark hledgers hbound, if_pos rfl]
    rfl
  · trivial

theorem Each.counted_append {s : System} {acts more : List Act} (h : Bounded s → Ledgers s)
    (hacts : Each Counted s acts)
    (hmore : ∀ s', (Bounded s' → Ledgers s') → Each Counted s' more) :
    Each Counted s (acts ++ more) :=
  hacts.append (hmore _ (ledgers_performAll hacts h).1)

theorem counted_flatMap {α : Type*} {f : α → List Act}
    (hf : ∀ item s, (Bounded s → Ledgers s) → Each Counted s (f item)) (items : List α)
    {s : System} (h : Bounded s → Ledgers s) : Each Counted s (items.flatMap f) := by
  induction items generalizing s with
  | nil => trivial
  | cons item items ih =>
      rw [List.flatMap_cons]
      exact Each.counted_append h (hf item s h) fun s' h' => ih h'

theorem counted_notices {s : System} (h : Bounded s → Ledgers s) :
    Each Counted s (upgradeNotices s) := by
  unfold upgradeNotices
  split
  · trivial
  · rename_i record _
    split_ifs
    · trivial
    · exact Each.counted_append h (counted_flatMap (fun _ _ h' => counted_announce h') _ h)
        fun s' _ => ⟨trivial, trivial⟩

theorem counted_confirm {s : System} (h : Bounded s → Ledgers s) :
    Each Counted s (confirmActs s) := by
  unfold confirmActs
  split
  · trivial
  · rename_i record _
    by_cases hpending : record.phase.pending = true
    · rw [if_pos hpending]
      exact ⟨trivial, counted_announce (ledgers_perform trivial h)⟩
    · rw [if_neg hpending]
      trivial

theorem counted_failed {s : System} (h : Bounded s → Ledgers s) (retryable : Bool) (now : ℕ) :
    Each Counted s (failedActs s retryable now) := by
  unfold failedActs
  split
  · trivial
  · simp only
    split
    · refine Each.counted_append h (counted_plain fun act hmem => ?_) fun s' h' =>
        counted_announce h'
      rcases List.mem_append.mp hmem with hmem | hmem
      · split_ifs at hmem
        · rw [List.mem_singleton.mp hmem]
          trivial
        · exact absurd hmem List.not_mem_nil
      · simp only [List.mem_cons, List.not_mem_nil, or_false] at hmem
        rcases hmem with rfl | rfl | rfl <;> trivial
    · split
      · split_ifs
        · exact ⟨trivial, counted_announce (ledgers_perform trivial h)⟩
        · exact ⟨trivial, trivial, trivial⟩
      · trivial

end Sbarbase.Updates.Proofs.Tries
