import Sbarbase.Inventory.System
import Mathlib.Data.List.Chain
import Mathlib.Data.List.Sort
/-!
# The chain of generations

What a row is to the row before it, that the rows of every runtime form one
chain whose last row is the head, and that a call of the store keeps this.
-/

namespace Sbarbase.Inventory.Proofs.Chain

open Lib Call

/-- The rows of a runtime, in the order they were inserted. -/
def rowsOf (ledger : Ledger) (runtime : String) : List Stored :=
  ledger.rows.rows.filter fun stored => stored.row.runtime = runtime

/-- A row that was published after another. -/
structure Follows (a b : Stored) : Prop where
  previousDigest : b.row.previousDigest = some a.row.inventoryDigest
  source : ∃ request, b.request = some request ∧ b.row.operation = some request.operation ∧
    request.sourcePlacementDigest = a.row.placementDigest
  epoch : a.row.epoch < b.row.epoch
  environment : b.row.environment = a.row.environment
  installation : b.row.installation = a.row.installation
  coverage : b.row.coverage = a.row.coverage
  operation : ∃ operation, b.row.operation = some operation ∧ uuid operation = true
  proofDigest : ∃ digest, b.row.proofDigest = some digest ∧ sha digest = true

/-- What every row passed before it was inserted. -/
structure Valid (json : Json) (row : InventoryGeneration) : Prop where
  epoch : whole row.epoch = true
  digestVersion : row.digestVersion = "sb07-json-v1"
  candidate : candidate json row.toInventoryCandidate = .ok ()

/-- The rows are numbered from zero, and each follows the one before it. -/
structure Chained (json : Json) (rows : List Stored) : Prop where
  numbered : ∀ index (h : index < rows.length), rows[index].row.generation = index
  first : ∀ stored ∈ rows.head?, stored.row.operation = none ∧ stored.row.previousDigest = none ∧
    stored.row.proofDigest = none
  linked : rows.IsChain Follows
  valid : ∀ stored ∈ rows, Valid json stored.row
  operations : (rows.filterMap fun stored => stored.row.operation).Nodup

/-- Every runtime has a chain, and its head is the last generation. -/
structure Sound (json : Json) (ledger : Ledger) : Prop where
  chained : ∀ runtime, Chained json (rowsOf ledger runtime)
  heads : ∀ runtime, ledger.heads.get runtime =
    (rowsOf ledger runtime).getLast?.map fun stored => stored.row.generation

theorem chained_nil (json : Json) : Chained json [] where
  numbered := fun _ h => nomatch h
  first := fun _ h => nomatch h
  linked := .nil
  valid := fun _ h => nomatch h
  operations := .nil

theorem sound_empty (json : Json) : Sound json .empty where
  chained := fun _ => chained_nil json
  heads := fun _ => rfl

/-! ## Reading a chain -/

section

variable {json : Json} {ledger : Ledger} {runtime : String}

theorem mem_rowsOf {stored : Stored} :
    stored ∈ rowsOf ledger runtime ↔ stored ∈ ledger.rows.rows ∧ stored.row.runtime = runtime := by
  simp [rowsOf]

theorem stored_eq (h : Sound json ledger) : ledger.stored runtime = rowsOf ledger runtime := by
  apply List.mergeSort_of_pairwise
  rw [List.pairwise_iff_getElem]
  intro i j hi hj hij
  have hnumbered := (h.chained runtime).numbered
  change decide ((rowsOf ledger runtime)[i].row.generation ≤
    (rowsOf ledger runtime)[j].row.generation) = true
  rw [hnumbered i hi, hnumbered j hj, decide_eq_true_eq]
  omega

theorem generation_eq_some {generation : ℤ} {row : InventoryGeneration} :
    ledger.generation runtime generation = some row ↔
      ∃ stored ∈ rowsOf ledger runtime, stored.row.generation = generation ∧ stored.row = row := by
  unfold Ledger.generation
  rw [Option.map_eq_some_iff]
  constructor
  · rintro ⟨stored, hget, rfl⟩
    obtain ⟨hmem, hkey⟩ := Table.get_eq_some.mp hget
    obtain ⟨hruntime, hgeneration⟩ := Prod.mk.inj hkey
    exact ⟨stored, mem_rowsOf.mpr ⟨hmem, hruntime⟩, hgeneration, rfl⟩
  · rintro ⟨stored, hmem, hgeneration, rfl⟩
    obtain ⟨hmem, hruntime⟩ := mem_rowsOf.mp hmem
    exact ⟨stored, Table.get_eq_some.mpr ⟨hmem, Prod.ext hruntime hgeneration⟩, rfl⟩

/-- The head is the last row. -/
theorem head_eq (h : Sound json ledger) :
    ledger.head runtime = (rowsOf ledger runtime).getLast?.map Stored.row := by
  unfold Ledger.head
  rw [h.heads runtime]
  cases hlast : (rowsOf ledger runtime).getLast? with
  | none => rfl
  | some stored =>
    simp only [Option.map_some, Option.bind_some]
    rw [generation_eq_some]
    exact ⟨stored, List.mem_of_getLast? hlast, rfl, rfl⟩

theorem last_generation (h : Sound json ledger) {stored : Stored}
    (hlast : (rowsOf ledger runtime).getLast? = some stored) :
    stored.row.generation + 1 = (rowsOf ledger runtime).length := by
  have hne : rowsOf ledger runtime ≠ [] := List.ne_nil_of_mem (List.mem_of_getLast? hlast)
  have hlength := List.length_pos_iff.mpr hne
  rw [List.getLast?_eq_getElem?, List.getElem?_eq_getElem (by omega)] at hlast
  obtain rfl := Option.some.inj hlast
  rw [(h.chained runtime).numbered]
  omega

/-- Two rows of one generation are one row. -/
theorem eq_of_generation {a b : Stored} (ha : a ∈ rowsOf ledger runtime)
    (hb : b ∈ rowsOf ledger runtime) (h : a.row.generation = b.row.generation) : a = b := by
  obtain ⟨ha, hra⟩ := mem_rowsOf.mp ha
  obtain ⟨hb, hrb⟩ := mem_rowsOf.mp hb
  exact ledger.rows.eq_of_key ha hb (Prod.ext (hra.trans hrb.symm) h)

end

/-! ## Adding a row -/

section

variable {json : Json} {ledger ledger' : Ledger} {new : Stored}

/-- A row more, which is the head of its runtime. -/
structure Adds (ledger ledger' : Ledger) (new : Stored) : Prop where
  rows : ledger'.rows.rows = ledger.rows.rows ++ [new]
  heads : ledger'.heads = ledger.heads.set new.row.runtime new.row.generation

theorem rowsOf_same (h : Adds ledger ledger' new) :
    rowsOf ledger' new.row.runtime = rowsOf ledger new.row.runtime ++ [new] := by
  simp [rowsOf, h.rows]

theorem rowsOf_other (h : Adds ledger ledger' new) {runtime : String}
    (hother : runtime ≠ new.row.runtime) : rowsOf ledger' runtime = rowsOf ledger runtime := by
  simp [rowsOf, h.rows, Ne.symm hother]

theorem sound_adds (h : Sound json ledger) (hadds : Adds ledger ledger' new)
    (hchained : Chained json (rowsOf ledger new.row.runtime ++ [new])) : Sound json ledger' where
  chained := by
    intro runtime
    by_cases hruntime : runtime = new.row.runtime
    · rw [hruntime, rowsOf_same hadds]
      exact hchained
    · rw [rowsOf_other hadds hruntime]
      exact h.chained runtime
  heads := by
    intro runtime
    by_cases hruntime : runtime = new.row.runtime
    · rw [hruntime, rowsOf_same hadds, hadds.heads, List.getLast?_concat, Dict.get_set, if_pos rfl]
      rfl
    · rw [rowsOf_other hadds hruntime, hadds.heads, Dict.get_set, if_neg hruntime]
      exact h.heads runtime

theorem chained_first (hvalid : Valid json new.row) (hgeneration : new.row.generation = 0)
    (hfirst : new.row.operation = none ∧ new.row.previousDigest = none ∧
      new.row.proofDigest = none) : Chained json [new] where
  numbered := by
    intro index hindex
    obtain rfl : index = 0 := by simpa using hindex
    exact hgeneration
  first := by
    rintro stored ⟨⟩
    exact hfirst
  linked := List.isChain_singleton _
  valid := by
    intro stored hstored
    obtain rfl := List.mem_singleton.mp hstored
    exact hvalid
  operations := by
    rw [List.filterMap_cons, hfirst.1]
    exact List.nodup_nil

theorem chained_next {rows : List Stored} {last : Stored} (h : Chained json rows)
    (hlast : rows.getLast? = some last) (hfollows : Follows last new)
    (hvalid : Valid json new.row) (hgeneration : new.row.generation = rows.length)
    (hoperation : ∀ stored ∈ rows, stored.row.operation ≠ new.row.operation) :
    Chained json (rows ++ [new]) where
  numbered := by
    intro index hindex
    rw [List.getElem_append]
    split
    next hold => exact h.numbered index hold
    next hnew =>
      rw [List.length_append, List.length_singleton] at hindex
      rw [List.getElem_singleton, hgeneration]
      omega
  first := by
    intro stored hstored
    rw [List.head?_append_of_ne_nil _ (List.ne_nil_of_mem (List.mem_of_getLast? hlast))] at hstored
    exact h.first stored hstored
  linked := by
    rw [List.isChain_append]
    refine ⟨h.linked, List.isChain_singleton _, ?_⟩
    intro a ha b hb
    rw [hlast] at ha
    obtain rfl := Option.some.inj ha
    obtain rfl := Option.some.inj hb
    exact hfollows
  valid := by
    intro stored hstored
    rcases List.mem_append.mp hstored with hold | hnew
    · exact h.valid stored hold
    · obtain rfl := List.mem_singleton.mp hnew
      exact hvalid
  operations := by
    obtain ⟨operation, hnew, _⟩ := hfollows.operation
    rw [List.filterMap_append, List.filterMap_cons, hnew, List.filterMap_nil]
    refine List.Nodup.append h.operations (List.nodup_singleton _) ?_
    intro other hother hmem
    obtain rfl := List.mem_singleton.mp hmem
    obtain ⟨stored, hstored, heq⟩ := List.mem_filterMap.mp hother
    exact hoperation stored hstored (heq.trans hnew.symm)

end

/-! ## The calls -/

section

variable {json : Json} {ledger ledger' : Ledger} {row : InventoryGeneration}

theorem insert_ok {stored : Stored} (h : ledger.insert stored = .ok ledger') :
    ledger'.rows.rows = ledger.rows.rows ++ [stored] ∧ ledger'.heads = ledger.heads := by
  unfold Ledger.insert at h
  split at h
  · nomatch h
  split at h
  · nomatch h
  next rows hrows =>
    obtain rfl := Except.ok.inj h
    exact ⟨(Table.insert_eq_some hrows).1, rfl⟩

theorem insertHead_ok {runtime : String} {generation : ℤ}
    (h : ledger.insertHead runtime generation = .ok ledger') :
    ledger' = { ledger with heads := ledger.heads.set runtime generation } := by
  unfold Ledger.insertHead at h
  split at h
  · nomatch h
  · exact (Except.ok.inj h).symm

theorem moveHead_ok {runtime : String} {source generation : ℤ}
    (h : ledger.moveHead runtime source generation = .ok ledger') :
    ledger' = { ledger with heads := ledger.heads.set runtime generation } := by
  unfold Ledger.moveHead at h
  split at h
  · exact (Except.ok.inj h).symm
  · cases h

theorem snapshot_ok {input : InventorySnapshot} (h : snapshot json input = .ok ()) :
    whole input.epoch = true ∧ input.digestVersion = "sb07-json-v1" ∧
      candidate json input.toInventoryCandidate = .ok () := by
  unfold snapshot at h
  split at h
  · nomatch h
  next hchecks =>
    simp only [not_or, Bool.not_eq_true', Bool.not_eq_false, ne_eq, not_not] at hchecks
    exact ⟨hchecks.2.2.2.2.1, hchecks.2.2.2.2.2, h⟩

theorem mutation_ok {input : InventoryMutation} (h : mutation input = .ok ()) :
    uuid input.operation = true ∧ whole input.heldEpoch = true ∧
      input.heldEpoch = input.sourceEpoch + 1 := by
  unfold mutation at h
  split at h
  · nomatch h
  next hchecks =>
    simp only [not_or, Bool.not_eq_true', Bool.not_eq_false, ne_eq, not_not, not_le] at hchecks
    obtain ⟨hoperation, _, _, _, _, _, hepoch, hlimit, hheld, _⟩ := hchecks
    refine ⟨hoperation, ?_, hheld⟩
    simp only [whole, Bool.and_eq_true, decide_eq_true_eq] at hepoch ⊢
    omega

instance (answer : Bool) : Leaves id (authority answer) := by
  unfold authority
  infer_instance

instance (runtime : String) : Leaves id (head runtime) := by
  unfold head
  infer_instance

instance (runtime : String) : Leaves id (history runtime) := by
  unfold history
  infer_instance

instance (current : Option InventoryGeneration) (request : InventoryMutation) :
    Leaves id (checkPrevious current request) := by
  unfold checkPrevious
  infer_instance

instance (request : InventoryMutation) : Leaves id (previous request) := by
  unfold previous
  infer_instance

instance (request : InventoryMutation) (next : InventoryCandidate) :
    Leaves id (publicationState request next) := by
  unfold publicationState
  refine Leaves.bind inferInstance fun existing => ?_
  cases existing <;> infer_instance

theorem head_returns {runtime : String} {current : Option InventoryGeneration}
    (h : (head runtime).Returns ledger current ledger') : current = ledger.head runtime := by
  simp only [head, returns_bind, returns_require, returns_read] at h
  obtain ⟨_, _, ⟨_, rfl⟩, hcurrent, _⟩ := h
  exact hcurrent

/-- The rows that were there stay, and the chains stay chains. -/
structure Extends (json : Json) (ledger ledger' : Ledger) : Prop where
  sound : Sound json ledger'
  rows : ∀ stored ∈ ledger.rows.rows, stored ∈ ledger'.rows.rows

theorem Extends.refl (h : Sound json ledger) : Extends json ledger ledger := ⟨h, fun _ hmem => hmem⟩

theorem extends_adds {new : Stored} (h : Sound json ledger) (hadds : Adds ledger ledger' new)
    (hchained : Chained json (rowsOf ledger new.row.runtime ++ [new])) :
    Extends json ledger ledger' where
  sound := sound_adds h hadds hchained
  rows := by
    intro stored hmem
    rw [hadds.rows]
    exact List.mem_append_left _ hmem

theorem added {new : Stored} {inserted : Ledger} (hinsert : ledger.insert new = .ok inserted)
    (hhead : ledger' = { inserted with
      heads := inserted.heads.set new.row.runtime new.row.generation }) :
    Adds ledger ledger' new := by
  obtain ⟨hrows, hheads⟩ := insert_ok hinsert
  constructor
  · rw [hhead, hrows]
  · rw [hhead, hheads]

/-- An adoption returns what is there, or adds the first row of its runtime. -/
theorem extends_adopt {input : InventorySnapshot} {manifest adoption : Bool}
    (h : Sound json ledger) :
    (adoptInTransaction json input manifest adoption).Ensures ledger fun _ ledger' =>
      Extends json ledger ledger' := by
  unfold adoptInTransaction
  apply ensures_check; intro _ hsnapshot
  apply ensures_check; intro _ hzero
  rw [ensures_transaction]
  apply ensures_check; intro _ _
  apply ensures_check; intro _ _
  apply ensures_check; intro current hhead
  cases current with
  | some current =>
    apply ensures_check; intro _ _
    rw [ensures_pure]
    exact .refl h
  | none =>
    apply ensures_check; intro _ _
    apply ensures_check; intro _ _
    simp only [ensures_bind, ensures_attempt, ensures_pure]
    intro inserted hinsert ledger' hmoved
    obtain ⟨hepoch, hversion, hcandidate⟩ := snapshot_ok (returns_lift.mp hsnapshot).1
    have hnone := head_returns hhead
    have hgeneration := (returns_require.mp hzero).1
    rw [head_eq h, eq_comm, Option.map_eq_none_iff, List.getLast?_eq_none_iff] at hnone
    refine extends_adds h (added hinsert ?_) ?_
    · rw [insertHead_ok hmoved, hgeneration]
    · simp only [hnone, List.nil_append]
      exact chained_first ⟨hepoch, hversion, hcandidate⟩ hgeneration ⟨rfl, rfl, rfl⟩

/-- What `#checkPrevious` passes. -/
structure Precedes (row : InventoryGeneration) (request : InventoryMutation) : Prop where
  generation : row.generation = request.sourceGeneration
  previousDigest : row.inventoryDigest = request.previousDigest
  environment : row.environment = request.environment
  installation : row.installation = request.installation
  epoch : row.epoch ≤ request.sourceEpoch
  placementDigest : row.placementDigest = request.sourcePlacementDigest

theorem checkPrevious_returns {current : Option InventoryGeneration} {request : InventoryMutation}
    (h : (checkPrevious current request).Returns ledger row ledger') :
    current = some row ∧ Precedes row request := by
  simp only [checkPrevious, returns_bind, returns_found, returns_require, returns_pure] at h
  obtain ⟨found, _, ⟨hfound, rfl⟩, _, _, ⟨hchecks, rfl⟩, rfl, _⟩ := h
  obtain ⟨hgeneration, hdigest, henvironment, hinstallation, hepoch, hplacement⟩ := hchecks
  exact ⟨hfound, hgeneration, hdigest, henvironment, hinstallation, hepoch, hplacement⟩

theorem previous_returns {request : InventoryMutation}
    (h : (previous request).Returns ledger row ledger') :
    ledger.head request.runtime = some row ∧ Precedes row request := by
  rw [previous, returns_bind] at h
  obtain ⟨current, _, hhead, hcheck⟩ := h
  rw [← head_returns hhead]
  exact checkPrevious_returns hcheck

/-- The state of a publication: the row it follows, and the row it published already. -/
theorem publicationState_returns {request : InventoryMutation} {next : InventoryCandidate}
    {existing : Option InventoryGeneration}
    (h : (publicationState request next).Returns ledger (row, existing) ledger) :
    Precedes row request ∧
      match existing with
      | none => ledger.ofOperation request.runtime request.operation = none ∧
          ledger.head request.runtime = some row
      | some published => published.proofDigest.any sha = true ∧
          ledger.generation request.runtime request.sourceGeneration = some row := by
  rw [publicationState, returns_bind] at h
  obtain ⟨found, ledger₁, hfound, h⟩ := h
  obtain ⟨rfl, rfl⟩ := returns_read.mp hfound
  split at h
  next hnone =>
    rw [returns_bind] at h
    obtain ⟨before, ledger₂, hprevious, h⟩ := h
    obtain ⟨hpair, _⟩ := returns_pure.mp h
    obtain ⟨rfl, rfl⟩ := Prod.mk.inj hpair
    obtain ⟨hhead, hprecedes⟩ := previous_returns hprevious
    exact ⟨hprecedes, hnone, hhead⟩
  next published hsome =>
    simp only [returns_bind, returns_require, returns_read, returns_pure] at h
    obtain ⟨current, ledger₂, hhead, _, _, ⟨hchecks, hsame⟩, _, _, ⟨rfl, _⟩, before, _, hprevious,
      hpair, _⟩ := h
    obtain rfl : ledger₂ = ledger₁ := Leaves.of_returns (p := id) hhead
    obtain rfl := hsame
    obtain ⟨rfl, rfl⟩ := Prod.mk.inj hpair
    obtain ⟨hsource, hprecedes⟩ := checkPrevious_returns hprevious
    obtain ⟨_, _, _, _, _, _, _, hproof, _⟩ := hchecks
    exact ⟨hprecedes, hproof, hsource⟩

theorem ofOperation_eq_none {runtime operation : String}
    (h : ledger.ofOperation runtime operation = none) {stored : Stored}
    (hmem : stored ∈ rowsOf ledger runtime) : stored.row.operation ≠ some operation := by
  intro hoperation
  rw [Ledger.ofOperation, Option.map_eq_none_iff, List.find?_eq_none] at h
  obtain ⟨hmem, hruntime⟩ := mem_rowsOf.mp hmem
  exact h stored hmem (by simp [hruntime, hoperation])

/-- What a capability was checked for: its request and candidate, and the coverage of
the row it is to follow. -/
structure Backed (json : Json) (ledger : Ledger) (request : InventoryMutation)
    (next : InventoryCandidate) : Prop where
  mutation : mutation request = .ok ()
  candidate : candidate json next = .ok ()
  coverage : ∃ stored ∈ rowsOf ledger request.runtime,
    stored.row.generation = request.sourceGeneration ∧ stored.row.coverage = next.coverage

/-- An append returns what its operation published, or adds the row after the head. -/
theorem extends_append {prepared : Option Prepared} {assert manifest : Bool} (h : Sound json ledger)
    (hprepared : ∀ capability ∈ prepared, Backed json ledger capability.request
      capability.candidate ∧ sha capability.proofDigest = true) :
    (appendInTransaction prepared assert manifest).Ensures ledger fun _ ledger' =>
      Extends json ledger ledger' := by
  unfold appendInTransaction
  apply ensures_check; intro capability hcapability
  obtain ⟨hbacked, hproof⟩ := hprepared capability (returns_found.mp hcapability).1
  rw [ensures_transaction]
  apply ensures_check; intro _ _
  apply ensures_check; intro _ _
  apply ensures_check; intro state hstate
  obtain ⟨before, existing⟩ := state
  cases existing with
  | some published =>
    apply ensures_check; intro _ _
    rw [ensures_pure]
    exact .refl h
  | none =>
    apply ensures_check; intro _ _
    simp only [ensures_bind, ensures_attempt, ensures_pure]
    intro inserted hinsert ledger' hmoved
    obtain ⟨hprecedes, hfresh, hhead⟩ := publicationState_returns hstate
    rw [head_eq h, Option.map_eq_some_iff] at hhead
    obtain ⟨last, hlast, rfl⟩ := hhead
    have hmem : last ∈ rowsOf ledger capability.request.runtime := List.mem_of_getLast? hlast
    obtain ⟨hoperation, hepoch, hheld⟩ := mutation_ok hbacked.mutation
    obtain ⟨source, hsource, hgeneration, hcoverage⟩ := hbacked.coverage
    obtain rfl : source = last :=
      eq_of_generation hsource hmem (hgeneration.trans hprecedes.generation.symm)
    refine extends_adds h (added hinsert (moveHead_ok hmoved)) (chained_next (h.chained _) hlast
      ?_ ⟨hepoch, rfl, hbacked.candidate⟩ ?_ ?_)
    · exact {
        previousDigest := congrArg some hprecedes.previousDigest.symm
        source := ⟨_, rfl, rfl, hprecedes.placementDigest.symm⟩
        epoch := by
          have hle := hprecedes.epoch
          change source.row.epoch < capability.request.heldEpoch
          omega
        environment := hprecedes.environment.symm
        installation := hprecedes.installation.symm
        coverage := hcoverage.symm
        operation := ⟨_, rfl, hoperation⟩
        proofDigest := ⟨_, rfl, hproof⟩ }
    · change capability.request.sourceGeneration + 1 = _
      rw [← hprecedes.generation]
      exact last_generation h hlast
    · intro stored hstored
      exact ofOperation_eq_none hfresh hstored

end

end Sbarbase.Inventory.Proofs.Chain
