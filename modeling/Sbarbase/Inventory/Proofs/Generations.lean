import Sbarbase.Inventory.Proofs.Reader
/-!
# Generations over whole runs

Adoptions, verifications and appends of any number of capabilities, with
transactions that end either way, leave every runtime one chain that the reader
accepts.
-/

namespace Sbarbase.Inventory.Proofs.Generations

open Lib Call Chain Reader

variable {json : Json}

/-! ## What a call needs of the state -/

theorem extends_trans {a b c : Ledger} (hab : Extends json a b) (hbc : Extends json b c) :
    Extends json a c where
  sound := hbc.sound
  rows := fun stored hmem => hbc.rows stored (hab.rows stored hmem)

theorem backed_mono {ledger ledger' : Ledger} {request : InventoryMutation}
    {next : InventoryCandidate} (h : Backed json ledger request next)
    (hextends : Extends json ledger ledger') : Backed json ledger' request next where
  mutation := h.mutation
  candidate := h.candidate
  coverage := by
    obtain ⟨stored, hmem, hgeneration, hcoverage⟩ := h.coverage
    obtain ⟨hmem, hruntime⟩ := mem_rowsOf.mp hmem
    exact ⟨stored, mem_rowsOf.mpr ⟨hextends.rows stored hmem, hruntime⟩, hgeneration, hcoverage⟩

instance (input : InventorySnapshot) (manifest adoption : Bool) :
    Atomic (adoptInTransaction json input manifest adoption) := by
  unfold adoptInTransaction
  infer_instance

instance (prepared : Option Prepared) (assert manifest : Bool) :
    Atomic (appendInTransaction prepared assert manifest) := by
  unfold appendInTransaction
  infer_instance

/-- A call that extends when it returns, and changes nothing when it throws. -/
theorem extends_after {call : LedgerCall InventoryGeneration} [hatomic : Atomic call]
    {ledger : Ledger} (h : Sound json ledger)
    (hcall : call.Ensures ledger fun _ ledger' => Extends json ledger ledger') :
    Extends json ledger (call.after ledger) := by
  rcases hatomic.after_cases ledger with hsame | ⟨row, hreturns⟩
  · rw [hsame]
    exact .refl h
  · exact hcall row _ hreturns

/-- The row before a publication is stored. -/
theorem mem_of_publicationState {ledger : Ledger} {request : InventoryMutation}
    {next : InventoryCandidate} {row : InventoryGeneration}
    {existing : Option InventoryGeneration} (h : Sound json ledger)
    (hstate : (publicationState request next).Returns ledger (row, existing) ledger) :
    ∃ stored ∈ rowsOf ledger request.runtime, stored.row = row := by
  have hreturns := publicationState_returns hstate
  cases existing with
  | none =>
    obtain ⟨_, _, hhead⟩ := hreturns
    rw [head_eq h, Option.map_eq_some_iff] at hhead
    obtain ⟨stored, hlast, hrow⟩ := hhead
    exact ⟨stored, List.mem_of_getLast? hlast, hrow⟩
  | some published =>
    obtain ⟨_, _, hsource⟩ := hreturns
    obtain ⟨stored, hmem, _, hrow⟩ := generation_eq_some.mp hsource
    exact ⟨stored, hmem, hrow⟩

theorem backed_of_verification {ledger : Ledger} {input : InventoryMutation}
    {next : InventoryCandidate} {assert manifest : Bool} (h : Sound json ledger) :
    (beginVerification json input next assert manifest).Ensures ledger fun _ _ =>
      Backed json ledger input next := by
  unfold beginVerification
  apply ensures_check; intro _ hmutation
  apply ensures_check; intro _ hcandidate
  apply ensures_check; intro _ _
  apply ensures_check; intro _ _
  apply ensures_check; intro state hstate
  obtain ⟨before, existing⟩ := state
  rw [ensures_require]
  intro hcoverage
  obtain ⟨hprecedes, _⟩ := publicationState_returns hstate
  obtain ⟨stored, hmem, rfl⟩ := mem_of_publicationState h hstate
  exact {
    mutation := (returns_lift.mp hmutation).1
    candidate := (returns_lift.mp hcandidate).1
    coverage := ⟨stored, hmem, hprecedes.generation, hcoverage.symm⟩ }

theorem prepared_of_verification {ledger : Ledger} {request : InventoryMutation}
    {admitted : InventoryCandidate} {verified : Option InventoryVerification} {assert : Bool} :
    (endVerification request admitted verified assert).Ensures ledger fun prepared _ =>
      prepared.request = request ∧ prepared.candidate = admitted ∧
        sha prepared.proofDigest = true := by
  unfold endVerification
  apply ensures_check; intro answer _
  apply ensures_check; intro _ hanswer
  apply ensures_check; intro _ _
  apply ensures_check; intro state hstate
  obtain ⟨before, existing⟩ := state
  rw [ensures_pure]
  refine ⟨rfl, rfl, ?_⟩
  obtain ⟨_, _, _, _, hsha⟩ := (returns_require.mp hanswer).1
  cases existing with
  | none => exact hsha
  | some published =>
    obtain ⟨_, hproof, _⟩ := publicationState_returns hstate
    cases hdigest : published.proofDigest with
    | none => rw [hdigest] at hproof; nomatch hproof
    | some digest =>
      rw [hdigest] at hproof
      simpa [hdigest] using hproof

/-! ## The invariant -/

structure Safe (json : Json) (s : State) : Prop where
  committed : Sound json s.committed
  view : Extends json s.committed s.view
  pending : ∀ pair ∈ s.pending, Backed json s.committed pair.1 pair.2
  prepared : ∀ capability ∈ s.prepared,
    Backed json s.committed capability.request capability.candidate ∧
      sha capability.proofDigest = true

theorem safe_initial : Safe json (machine json).initial where
  committed := sound_empty json
  view := .refl (sound_empty json)
  pending := fun _ h => nomatch h
  prepared := fun _ h => nomatch h

/-- A call in the open transaction. -/
theorem safe_call {s : State} {call : LedgerCall InventoryGeneration} [Atomic call]
    (h : Safe json s)
    (hcall : call.Ensures s.view fun _ ledger' => Extends json s.view ledger') :
    Safe json { s with working := s.working.map call.after } where
  committed := h.committed
  view := by
    cases hworking : s.working with
    | none => exact .refl h.committed
    | some working =>
      have hview : s.view = working := by rw [State.view, hworking, Option.getD_some]
      rw [hview] at hcall
      have hextends := h.view
      rw [hview] at hextends
      exact extends_trans hextends (extends_after hextends.sound hcall)
  pending := h.pending
  prepared := h.prepared

theorem safe_step (s : State) (event : Event) (h : Safe json s) :
    Safe json ((machine json).step s event) := by
  change Safe json (step json s event)
  cases event with
  | begin =>
    by_cases hworking : s.working.isNone
    · simp only [step, hworking, if_true]
      exact ⟨h.committed, .refl h.committed, h.pending, h.prepared⟩
    · simpa only [step, hworking, Bool.false_eq_true, if_false] using h
  | commit =>
    exact {
      committed := h.view.sound
      view := .refl h.view.sound
      pending := fun pair hmem => backed_mono (h.pending pair hmem) h.view
      prepared := fun capability hmem =>
        ⟨backed_mono (h.prepared capability hmem).1 h.view, (h.prepared capability hmem).2⟩ }
  | rollback => exact ⟨h.committed, .refl h.committed, h.pending, h.prepared⟩
  | adopt input manifest adoption => exact safe_call h (extends_adopt h.view.sound)
  | append capability assert manifest =>
    refine safe_call h (extends_append h.view.sound fun prepared hmem => ?_)
    obtain ⟨hbacked, hproof⟩ := h.prepared prepared (List.mem_of_getElem? hmem)
    exact ⟨backed_mono hbacked h.view, hproof⟩
  | verify input next assert manifest =>
    by_cases hworking : s.working.isNone
    · simp only [step, hworking, if_true]
      split
      next hbegin =>
        refine ⟨h.committed, h.view, ?_, h.prepared⟩
        intro pair hmem
        rcases List.mem_append.mp hmem with hold | hnew
        · exact h.pending pair hold
        · obtain rfl := List.mem_singleton.mp hnew
          exact backed_of_verification h.committed () _ (Prod.ext hbegin rfl)
      next => exact h
    · simpa only [step, hworking, Bool.false_eq_true, if_false] using h
  | verified index answer assert =>
    simp only [step]
    split
    next => exact h
    next request admitted hpending =>
      have herased : ∀ pair ∈ s.pending.eraseIdx index, Backed json s.committed pair.1 pair.2 :=
        fun pair hmem => h.pending pair (List.mem_of_mem_eraseIdx hmem)
      split
      next prepared hend =>
        refine ⟨h.committed, h.view, herased, ?_⟩
        intro capability hmem
        rcases List.mem_append.mp hmem with hold | hnew
        · exact h.prepared capability hold
        · obtain rfl := List.mem_singleton.mp hnew
          obtain ⟨rfl, rfl, hproof⟩ := prepared_of_verification _ _ (Prod.ext hend rfl)
          exact ⟨h.pending (_, _) (List.mem_of_getElem? hpending), hproof⟩
      next =>
        exact {
          committed := h.committed
          view := h.view
          pending := herased
          prepared := h.prepared }
  | restart =>
    exact {
      committed := h.committed
      view := .refl h.committed
      pending := fun _ hmem => nomatch hmem
      prepared := fun _ hmem => nomatch hmem }

theorem safe_run (events : List Event) : Safe json ((machine json).run events) :=
  (machine json).run_invariant safe_initial safe_step events

/-- In every reachable state, committed or in an open transaction, the rows of a runtime are
numbered without a gap up to the head, no operation comes twice, every row follows the
one before it, and the reader accepts them. -/
theorem history_law (json : Json) (events : List Event) (ledger : Ledger)
    (hledger : ledger = ((machine json).run events).committed ∨
      ledger = ((machine json).run events).view) (runtime : String) :
    (∀ (index : ℕ) (stored : Stored), (ledger.stored runtime)[index]? = some stored →
      stored.row.generation = index) ∧
    ledger.head runtime = (ledger.history runtime).getLast? ∧
    ((ledger.stored runtime).filterMap fun stored => stored.row.operation).Nodup ∧
    (∀ (index : ℕ) (before after : Stored), (ledger.stored runtime)[index]? = some before →
      (ledger.stored runtime)[index + 1]? = some after → Follows before after) ∧
    ∀ query live head source, query.runtime = runtime →
      (ledger.history runtime).length ≤ 128 →
      ((ledger.history runtime).map fun row => row.inventory.utf8ByteSize).sum ≤ 2 * 1024 * 1024 →
      ledger.head runtime = some head →
      head.environment = query.environment ∧ head.installation = query.installation →
      head.epoch ≤ live.epoch ∧ head.inventory = live.inventory ∧ head.coverage = live.coverage →
      ledger.generation runtime query.sourceGeneration = some source →
      source.epoch = query.sourceEpoch ∧ source.inventoryDigest = query.sourceInventoryDigest ∧
        source.placementDigest = query.sourcePlacementDigest →
      readHistory json ledger query live = .ok (head, source, ledger.history runtime) := by
  have hsafe : Safe json ((machine json).run events) := safe_run events
  have hsound : Sound json ledger := by
    rcases hledger with rfl | rfl
    · exact hsafe.committed
    · exact hsafe.view.sound
  have hchained := hsound.chained runtime
  have hstored : ledger.stored runtime = rowsOf ledger runtime := stored_eq hsound
  refine ⟨?_, ?_, ?_, ?_, ?_⟩
  · intro index stored hrow
    rw [hstored] at hrow
    obtain ⟨hindex, rfl⟩ := List.getElem?_eq_some_iff.mp hrow
    exact hchained.numbered index hindex
  · rw [Ledger.history, hstored, head_eq hsound, List.getLast?_map]
  · rw [hstored]
    exact hchained.operations
  · intro index before after hbefore hafter
    rw [hstored] at hbefore hafter
    obtain ⟨_, rfl⟩ := List.getElem?_eq_some_iff.mp hbefore
    obtain ⟨hindex, rfl⟩ := List.getElem?_eq_some_iff.mp hafter
    exact linked_at hchained hindex
  · rintro query live head source rfl hrows hbytes hhead hbinding hlive hsource hclaim
    exact readHistory_ok hsound hrows hbytes hhead hbinding hlive hsource hclaim

/-! A publication after an adoption. -/

def sampleJson : Json where
  digest := fun _ => "aaaaaaaaaaaaaaaaaaaaaaaaaaaaaaaaaaaaaaaaaaaaaaaaaaaaaaaaaaaaaaaa"
  parse := fun text => some ⟨some 1, text⟩

def sampleCandidate : InventoryCandidate :=
  ⟨"[1]", sampleJson.digest "[1]", "disposable-fixture", sampleJson.digest "[1]"⟩

def sampleSnapshot : InventorySnapshot :=
  { sampleCandidate with
    runtime := "e_aaaaaaaaaaaaaaaaaaaaaaaa", environment := "11111111-1111-4111-8111-111111111111"
    installation := "11111111-1111-4111-8111-111111111111", generation := 0, epoch := 3
    digestVersion := "sb07-json-v1" }

def sampleMutation : InventoryMutation where
  operation := "22222222-2222-4222-8222-222222222222"
  runtime := sampleSnapshot.runtime
  environment := sampleSnapshot.environment
  installation := sampleSnapshot.installation
  sourceGeneration := 0
  sourceEpoch := 4
  heldEpoch := 5
  previousDigest := sampleSnapshot.inventoryDigest
  sourcePlacementDigest := sampleSnapshot.placementDigest
  heldPlacementDigest := sampleSnapshot.placementDigest

def sampleVerification : InventoryVerification :=
  ⟨sampleMutation, sampleCandidate.inventoryDigest, sampleCandidate.placementDigest,
    sampleCandidate.coverage, sampleCandidate.inventoryDigest⟩

def sampleEvents : List Event :=
  [.begin, .adopt sampleSnapshot true true, .commit,
    .verify sampleMutation sampleCandidate true true, .verified 0 (some sampleVerification) true,
    .begin, .append 0 true true, .commit]

def sampleFirst : InventoryGeneration := ⟨sampleSnapshot, none, none, none⟩

def samplePublished : InventoryGeneration where
  toInventorySnapshot := { sampleSnapshot with generation := 1, epoch := 5 }
  operation := some sampleMutation.operation
  previousDigest := some sampleMutation.previousDigest
  proofDigest := some sampleVerification.proofDigest

theorem sample_committed : let ledger := ((machine sampleJson).run sampleEvents).committed
    (rowsOf ledger sampleSnapshot.runtime).map Stored.row = [sampleFirst, samplePublished] ∧
      ledger.generation sampleSnapshot.runtime 0 = some sampleFirst := by
  decide +kernel

theorem sample_history :
    ((machine sampleJson).run sampleEvents).committed.history sampleSnapshot.runtime =
      [sampleFirst, samplePublished] := by
  have hsafe : Safe sampleJson ((machine sampleJson).run sampleEvents) := safe_run sampleEvents
  rw [Ledger.history, stored_eq hsafe.committed]
  exact sample_committed.1

theorem history_law_published :
    readHistory sampleJson ((machine sampleJson).run sampleEvents).committed
      ⟨sampleSnapshot.environment, sampleSnapshot.installation, sampleSnapshot.runtime, 0, 3,
        sampleSnapshot.inventoryDigest, sampleSnapshot.placementDigest⟩
      ⟨5, "[1]", "disposable-fixture"⟩ =
    .ok (samplePublished, sampleFirst, [sampleFirst, samplePublished]) := by
  have hlaw := history_law sampleJson sampleEvents _ (.inl rfl) sampleSnapshot.runtime
  rw [sample_history] at hlaw
  exact hlaw.2.2.2.2 _ _ samplePublished sampleFirst rfl (by decide) (by decide)
    hlaw.2.1 (by decide) (by decide) sample_committed.2 (by decide)

end Sbarbase.Inventory.Proofs.Generations
