import Sbarbase.Inventory.Proofs.Chain
/-!
# The reader accepts what the writer chains

The two check the links of a history each in its own way. A chain passes the
reader's loop, whatever its rows are.
-/

namespace Sbarbase.Inventory.Proofs.Reader

open Lib Chain

/-- What stays or grows along a chain. -/
structure Grows (a b : Stored) : Prop where
  epoch : a.row.epoch < b.row.epoch
  environment : b.row.environment = a.row.environment
  installation : b.row.installation = a.row.installation
  coverage : b.row.coverage = a.row.coverage

theorem Grows.trans {a b c : Stored} (hab : Grows a b) (hbc : Grows b c) : Grows a c where
  epoch := hab.epoch.trans hbc.epoch
  environment := hbc.environment.trans hab.environment
  installation := hbc.installation.trans hab.installation
  coverage := hbc.coverage.trans hab.coverage

instance : IsTrans Stored Grows := ⟨fun _ _ _ => Grows.trans⟩

variable {json : Json} {rows : List Stored}

theorem pairwise_grows (h : Chained json rows) : rows.Pairwise Grows := by
  rw [← List.isChain_iff_pairwise]
  exact h.linked.imp fun a b hab =>
    ⟨hab.epoch, hab.environment, hab.installation, hab.coverage⟩

theorem binding_first {first stored : Stored} {rest : List Stored}
    (h : Chained json (first :: rest)) (hmem : stored ∈ first :: rest) :
    stored.row.environment = first.row.environment ∧
      stored.row.installation = first.row.installation := by
  rcases List.mem_cons.mp hmem with rfl | hrest
  · exact ⟨rfl, rfl⟩
  · have hgrows := (List.pairwise_cons.mp (pairwise_grows h)).1 stored hrest
    exact ⟨hgrows.environment, hgrows.installation⟩

/-- Two rows of a chain are of one environment and installation. -/
theorem binding_eq (h : Chained json rows) {a b : Stored} (ha : a ∈ rows) (hb : b ∈ rows) :
    a.row.environment = b.row.environment ∧ a.row.installation = b.row.installation := by
  cases rows with
  | nil => nomatch ha
  | cons first rest =>
    have hfirst := binding_first h ha
    have hsecond := binding_first h hb
    exact ⟨hfirst.1.trans hsecond.1.symm, hfirst.2.trans hsecond.2.symm⟩

theorem linked_at (h : Chained json rows) {index : ℕ} (hindex : index + 1 < rows.length) :
    Follows rows[index] rows[index + 1] :=
  List.isChain_iff_getElem.mp h.linked index hindex

theorem candidate_ok {value : InventoryCandidate} (h : candidate json value = .ok ()) :
    value.inventory.utf8ByteSize ≤ 128 * 1024 ∧ sha value.inventoryDigest = true ∧
      sha value.placementDigest = true ∧ coverageKind value.coverage = true ∧
      json.digest value.inventory = value.inventoryDigest ∧
      isManifest json value.inventory = true := by
  unfold candidate at h
  split at h
  · nomatch h
  split at h
  · nomatch h
  next hchecks hmanifest =>
    simp only [not_or, Bool.not_eq_true', Bool.not_eq_false, ne_eq, not_not, not_lt] at hchecks
    obtain ⟨hbytes, hdigest, hplacement, hcoverage, hsha⟩ := hchecks
    exact ⟨hbytes, hdigest, hplacement, hcoverage, hsha, by simpa using hmanifest⟩

/-- The reader finds every row of a chain where it looks for the row before it. -/
theorem follows_of_chained (h : Chained json rows) {index : ℕ} (hindex : index < rows.length) :
    follows rows[index].row
      (if index = 0 then none else (rows.map Stored.row)[index - 1]?) = true := by
  cases index with
  | zero =>
    have hfirst := h.first rows[0] (List.head?_eq_getElem? ▸ List.getElem?_eq_getElem hindex)
    obtain ⟨hoperation, hprevious, hproof⟩ := hfirst
    simp [follows, hoperation, hprevious, hproof]
  | succ index =>
    have hlink := linked_at h hindex
    obtain ⟨operation, hoperation, huuid⟩ := hlink.operation
    obtain ⟨digest, hdigest, hsha⟩ := hlink.proofDigest
    rw [if_neg (Nat.succ_ne_zero _), Nat.add_sub_cancel, List.getElem?_map,
      List.getElem?_eq_getElem (by omega), Option.map_some]
    simp [follows, hoperation, huuid, hdigest, hsha, hlink.previousDigest, hlink.epoch.le]

section

variable {query : TransferHistoryQuery}

theorem rowAccepted_of_chained (h : Chained json rows)
    (hruntime : ∀ stored ∈ rows, stored.row.runtime = query.runtime)
    (hbinding : ∀ stored ∈ rows, stored.row.environment = query.environment ∧
      stored.row.installation = query.installation)
    {index : ℕ} (hindex : index < rows.length) :
    rowAccepted json query (rows.map Stored.row) index rows[index].row = true := by
  have hmem : rows[index] ∈ rows := List.getElem_mem hindex
  have hvalid := h.valid _ hmem
  obtain ⟨hbytes, hdigest, hplacement, hcoverage, hsha, hmanifest⟩ := candidate_ok hvalid.candidate
  obtain ⟨henvironment, hinstallation⟩ := hbinding _ hmem
  have hnumber := h.numbered index hindex
  have hfollows := follows_of_chained h hindex
  simp only [rowAccepted, Bool.and_eq_true, decide_eq_true_eq]
  exact ⟨⟨⟨⟨⟨⟨⟨⟨⟨⟨⟨⟨hnumber, hruntime _ hmem⟩, henvironment⟩, hinstallation⟩, hvalid.epoch⟩,
    hvalid.digestVersion⟩, hdigest⟩, hplacement⟩, hbytes⟩, hcoverage⟩, hsha⟩, hmanifest⟩, hfollows⟩

theorem isSome_parse {inventory : String} (h : isManifest json inventory = true) :
    (json.parse inventory).isNone = false := by
  unfold isManifest at h
  split at h
  · nomatch h
  next parsed hparsed => rw [hparsed]; rfl

theorem no_rowError (h : Chained json rows)
    (hruntime : ∀ stored ∈ rows, stored.row.runtime = query.runtime)
    (hbinding : ∀ stored ∈ rows, stored.row.environment = query.environment ∧
      stored.row.installation = query.installation) :
    (rows.map Stored.row).zipIdx.findSome? (rowError json query (rows.map Stored.row)) = none := by
  rw [List.findSome?_eq_none_iff]
  rintro ⟨row, index⟩ hmem
  obtain ⟨hindex, hrow⟩ := List.mem_zipIdx' hmem
  rw [List.getElem_map] at hrow
  rw [List.length_map] at hindex
  have haccepted := rowAccepted_of_chained h hruntime hbinding hindex
  have hvalid := h.valid _ (List.getElem_mem hindex)
  obtain ⟨_, _, _, _, _, hmanifest⟩ := candidate_ok hvalid.candidate
  rw [rowError, hrow, haccepted, isSome_parse hmanifest]
  rfl

/-- Every history within the limits is accepted, for a query and a lifecycle that are
about its head and its source. -/
theorem readHistory_ok {ledger : Ledger} {live : Live} {head source : InventoryGeneration}
    (h : Sound json ledger)
    (hrows : (ledger.history query.runtime).length ≤ 128)
    (hbytes : ((ledger.history query.runtime).map fun row => row.inventory.utf8ByteSize).sum ≤
      2 * 1024 * 1024)
    (hhead : ledger.head query.runtime = some head)
    (hbinding : head.environment = query.environment ∧ head.installation = query.installation)
    (hlive : head.epoch ≤ live.epoch ∧ head.inventory = live.inventory ∧
      head.coverage = live.coverage)
    (hsource : ledger.generation query.runtime query.sourceGeneration = some source)
    (hclaim : source.epoch = query.sourceEpoch ∧
      source.inventoryDigest = query.sourceInventoryDigest ∧
      source.placementDigest = query.sourcePlacementDigest) :
    readHistory json ledger query live = .ok (head, source, ledger.history query.runtime) := by
  have hchained := h.chained query.runtime
  have hhistory : ledger.history query.runtime =
      (rowsOf ledger query.runtime).map Stored.row := by
    rw [Ledger.history, stored_eq h]
  have hlast := hhead
  rw [head_eq h, Option.map_eq_some_iff] at hlast
  obtain ⟨last, hlast, rfl⟩ := hlast
  have hmem := List.mem_of_getLast? hlast
  have hgeneration := last_generation h hlast
  have hsome := generation_eq_some.mp hsource
  obtain ⟨stored, hstored, hnumber, rfl⟩ := hsome
  obtain ⟨index, hindex, rfl⟩ := List.getElem_of_mem hstored
  have hsourceIndex := hchained.numbered index hindex
  have haccepted := no_rowError hchained (fun stored hmem => (mem_rowsOf.mp hmem).2)
    fun stored hstored =>
      ⟨(binding_eq hchained hstored hmem).1.trans hbinding.1,
        (binding_eq hchained hstored hmem).2.trans hbinding.2⟩
  have hposition : query.sourceGeneration.toNat = index := by omega
  rw [hhistory] at hrows hbytes ⊢
  simp only [List.length_map] at hrows
  have hlength := List.length_pos_of_mem hmem
  have hsize : ¬ ((historySize ((rowsOf ledger query.runtime).map Stored.row)).1 < 1 ∨
      128 < (historySize ((rowsOf ledger query.runtime).map Stored.row)).1 ∨
      2 * 1024 * 1024 < (historySize ((rowsOf ledger query.runtime).map Stored.row)).2) := by
    simp only [historySize, List.length_map]
    omega
  have hmatches : ¬ (last.row.generation ≠
        ((rowsOf ledger query.runtime).map Stored.row).length - 1 ∨
      last.row.generation < query.sourceGeneration ∨ live.epoch < last.row.epoch ∨
      last.row.inventory ≠ live.inventory ∨ last.row.coverage ≠ live.coverage) := by
    obtain ⟨hepoch, hinventory, hcoverage⟩ := hlive
    rw [List.length_map]
    simp only [hinventory, hcoverage, ne_eq, not_true_eq_false, or_false]
    omega
  have hfound : ((rowsOf ledger query.runtime).map Stored.row)[query.sourceGeneration.toNat]? =
      some (rowsOf ledger query.runtime)[index].row := by
    rw [hposition, List.getElem?_map, List.getElem?_eq_getElem hindex, Option.map_some]
  simp only [readHistory, hhistory, hhead, haccepted, hfound]
  rw [if_neg hsize, if_neg hmatches]
  simp [hclaim]

end

end Sbarbase.Inventory.Proofs.Reader
