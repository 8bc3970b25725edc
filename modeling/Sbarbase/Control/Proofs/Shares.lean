import Sbarbase.Control.Proofs.Capacity
import Sbarbase.Control.Proofs.ReadyJobs
import Mathlib.Algebra.BigOperators.Group.Finset.Basic
import Mathlib.Algebra.Order.BigOperators.Group.Finset
/-!
# What the shares add up to

The sum runs over the ready environments, each with its runtime. An operation that
lets no job succeed cannot raise it, and a job that succeeds adds its own share.
-/

namespace Sbarbase.Control.Proofs.Shares

open Lib Lib.Call Control Control.Sharing
open Control.Proofs.Frames Control.Proofs.Jobs Control.Proofs.Lifecycles Control.Proofs.Capacity
open Control.Proofs.ReadyJobs

/-! ## The ready environments -/

def place (job : ProvisionJob) : String × String := (job.environment, job.runtime)

/-- The ready environments with their runtimes. -/
def places (c : Catalog) : List (String × String) := (c.jobs.rows.filter (counts c)).map place

theorem mem_places {c : Catalog} {p : String × String} :
    p ∈ places c ↔ ∃ job ∈ c.jobs.rows, job.state = .succeeded ∧ c.purged job.runtime = false ∧
      place job = p := by
  simp [places, counts, and_assoc]

theorem nodup_places (c : Catalog) : (places c).Nodup := by
  have hkeys : ((places c).map Prod.fst).Nodup := by
    rw [places, List.map_map]
    exact c.jobs.distinct.sublist (List.filter_sublist.map _)
  exact hkeys.of_map _

/-- The shares of the ready environments. -/
theorem allocatedShares_eq (s : Sharing) :
    s.allocatedShares = ∑ p ∈ (places s.catalog).toFinset, s.shareOf p.2 := by
  rw [List.sum_toFinset _ (nodup_places s.catalog), allocatedShares, places, List.map_map]
  rfl

/-- Every share is positive. -/
def Positive (s : Sharing) : Prop := ∀ row ∈ s.shares.rows, 0 < row.share

theorem shareOf_congr {s s' : Sharing} (h : s'.shares = s.shares) (runtime : String) :
    s'.shareOf runtime = s.shareOf runtime := by
  rw [shareOf, gatewayShare, h]
  rfl

theorem shareOf_nonneg {s : Sharing} (hs : Positive s) (runtime : String) :
    0 ≤ s.shareOf runtime := by
  unfold shareOf gatewayShare
  cases hrow : s.shares.get runtime with
  | none => decide
  | some row => exact (hs row (Table.get_eq_some.mp hrow).1).le

/-! ## One call -/

/-- What is purged stays purged. -/
def PurgedStays (c c' : Catalog) : Prop :=
  ∀ runtime, c.purged runtime = true → c'.purged runtime = true

theorem places_subset {c c' : Catalog} (hspared : Spared c c') (hpurged : PurgedStays c c') :
    places c' ⊆ places c := by
  intro p hp
  obtain ⟨job', hjob', hstate, hkept, rfl⟩ := mem_places.mp hp
  obtain ⟨job, hjob, henvironment, hruntime, hready⟩ := hspared job' hjob' hstate
  refine mem_places.mpr ⟨job, hjob, hready, ?_, Prod.ext henvironment hruntime⟩
  cases hgone : c.purged job.runtime with
  | false => rfl
  | true =>
      rw [← hruntime] at hkept
      rw [hpurged _ hgone] at hkept
      cases hkept

theorem allocated_le_of_subset {s s' : Sharing} (hs : Positive s) (hshares : s'.shares = s.shares)
    (hsub : places s'.catalog ⊆ places s.catalog) : s'.allocatedShares ≤ s.allocatedShares := by
  simp only [allocatedShares_eq, shareOf_congr hshares]
  refine Finset.sum_le_sum_of_subset_of_nonneg ?_ fun p _ _ => shareOf_nonneg hs p.2
  intro p hp
  exact List.mem_toFinset.mpr (hsub (List.mem_toFinset.mp hp))

/-- The ready environments after one more job succeeded. -/
theorem places_readies {c c' : Catalog} {job : ProvisionJob} (h : Readies c c' job)
    (hkept : c.purged job.runtime = false) :
    place job ∉ places c ∧ ∀ p, p ∈ places c' ↔ p = place job ∨ p ∈ places c := by
  obtain ⟨failure, hjobs⟩ := h.jobs
  have hpurged : ∀ runtime, c'.purged runtime = c.purged runtime := by
    intro runtime
    rw [Catalog.purged, Catalog.purged, h.lifecycle]
  have honly : ∀ other ∈ c.jobs.rows, other.environment = job.environment → other = job :=
    fun other hother hsame => c.jobs.eq_of_key hother h.mem hsame
  have hfresh : place job ∉ places c := by
    intro hmem
    obtain ⟨other, hother, hstate, -, heq⟩ := mem_places.mp hmem
    rw [honly other hother (congrArg Prod.fst heq), h.running] at hstate
    cases hstate
  refine ⟨hfresh, fun p => ?_⟩
  simp only [mem_places, hpurged, show c'.jobs.rows = _ from hjobs, changed, List.mem_map]
  constructor
  · rintro ⟨_, ⟨other, hother, rfl⟩, hstate, hunpurged, rfl⟩
    by_cases hsame : other.environment = job.environment
    · left
      rw [honly other hother hsame]
      simp [place, settled]
    · right
      simp only [hsame, decide_false, Bool.false_eq_true, if_false] at hstate hunpurged ⊢
      exact ⟨other, hother, hstate, hunpurged, rfl⟩
  · rintro (rfl | ⟨other, hother, hstate, hunpurged, rfl⟩)
    · exact ⟨settled true failure job, ⟨job, h.mem, by simp⟩, rfl, hkept, rfl⟩
    · have hne : other.environment ≠ job.environment := by
        intro hsame
        rw [honly other hother hsame, h.running] at hstate
        cases hstate
      exact ⟨other, ⟨other, hother, by simp [hne]⟩, hstate, hunpurged, rfl⟩

theorem allocated_readies {s s' : Sharing} {job : ProvisionJob} (hshares : s'.shares = s.shares)
    (h : Readies s.catalog s'.catalog job) (hkept : s.catalog.purged job.runtime = false) :
    s'.allocatedShares = s.allocatedShares + s.shareOf job.runtime := by
  obtain ⟨hfresh, hplaces⟩ := places_readies h hkept
  have hset : (places s'.catalog).toFinset = insert (place job) (places s.catalog).toFinset := by
    ext p
    rw [List.mem_toFinset, hplaces, Finset.mem_insert, List.mem_toFinset]
  rw [allocatedShares_eq, allocatedShares_eq, hset, Finset.sum_insert (by simpa using hfresh)]
  simp only [shareOf_congr hshares]
  exact add_comm _ _

/-- A purged runtime adds nothing when its job succeeds. -/
theorem allocated_readies_purged {s s' : Sharing} {job : ProvisionJob} (hs : Positive s)
    (hshares : s'.shares = s.shares) (h : Readies s.catalog s'.catalog job)
    (hgone : s.catalog.purged job.runtime = true) : s'.allocatedShares ≤ s.allocatedShares := by
  obtain ⟨failure, hjobs⟩ := h.jobs
  have hpurged : ∀ runtime, s'.catalog.purged runtime = s.catalog.purged runtime := by
    intro runtime
    rw [Catalog.purged, Catalog.purged, h.lifecycle]
  refine allocated_le_of_subset hs hshares ?_
  intro p hp
  obtain ⟨_, hmem, hstate, hunpurged, rfl⟩ := mem_places.mp hp
  rw [show s'.catalog.jobs.rows = _ from hjobs, changed] at hmem
  obtain ⟨other, hother, rfl⟩ := List.mem_map.mp hmem
  rw [hpurged] at hunpurged
  by_cases hsame : other.environment = job.environment
  · rw [s.catalog.jobs.eq_of_key hother h.mem hsame] at hunpurged
    simp [settled, hgone] at hunpurged
  · simp only [hsame, decide_false, Bool.false_eq_true, if_false] at hstate hunpurged ⊢
    exact mem_places.mpr ⟨other, hother, hstate, hunpurged, rfl⟩

/-! ### Another share -/

/-- A runtime's share after it was set. -/
theorem shareOf_put {s s' : Sharing} {row : GatewayShare} (hshares : s'.shares = s.shares.put row)
    (runtime : String) :
    s'.shareOf runtime = if row.runtime = runtime then row.share else s.shareOf runtime := by
  rw [shareOf, gatewayShare, hshares, Table.get_put]
  split_ifs <;> rfl

/-- The call set the share of a ready environment that had room for it. -/
structure Sets (s s' : Sharing) (job : ProvisionJob) (row : GatewayShare) : Prop where
  mem : job ∈ s.catalog.jobs.rows
  counted : counts s.catalog job = true
  own : row.runtime = job.runtime
  positive : 0 < row.share
  room : s.shareOf job.runtime < row.share →
    s.allocatedShares - s.shareOf job.runtime + row.share ≤ Gateway.total
  jobs : s'.catalog.jobs = s.catalog.jobs
  lifecycle : s'.catalog.lifecycle = s.catalog.lifecycle
  shares : s'.shares = s.shares.put row

/-- Setting a share exchanges it for the one before. -/
theorem allocated_sets {s s' : Sharing} {job : ProvisionJob} {row : GatewayShare}
    (hruntimes : (s.catalog.jobs.rows.map ProvisionJob.runtime).Nodup) (h : Sets s s' job row) :
    s'.allocatedShares = s.allocatedShares - s.shareOf job.runtime + row.share := by
  have hplaces : places s'.catalog = places s.catalog := by
    have hcounts : counts s'.catalog = counts s.catalog := by
      funext other
      rw [counts, counts, Catalog.purged, Catalog.purged, h.lifecycle]
    rw [places, places, h.jobs, hcounts]
  have hmem : place job ∈ (places s.catalog).toFinset := by
    rw [List.mem_toFinset, places]
    exact List.mem_map_of_mem (List.mem_filter.mpr ⟨h.mem, h.counted⟩)
  have hrest : ∀ p ∈ (places s.catalog).toFinset.erase (place job),
      s'.shareOf p.2 = s.shareOf p.2 := by
    intro p hp
    obtain ⟨hne, hp⟩ := Finset.mem_erase.mp hp
    obtain ⟨other, hother, -, -, rfl⟩ := mem_places.mp (List.mem_toFinset.mp hp)
    rw [shareOf_put h.shares, if_neg]
    intro hsame
    apply hne
    rw [List.inj_on_of_nodup_map hruntimes h.mem hother (h.own.symm.trans hsame)]
  have hown : s'.shareOf job.runtime = row.share := by
    rw [shareOf_put h.shares, if_pos h.own]
  have hbefore := Finset.add_sum_erase _ (fun p => s.shareOf p.2) hmem
  have hafter := Finset.add_sum_erase _ (fun p => s'.shareOf p.2) hmem
  rw [Finset.sum_congr rfl hrest] at hafter
  rw [allocatedShares_eq, allocatedShares_eq, hplaces, ← hbefore, ← hafter]
  simp only [place, hown]
  omega

/-! ### The call -/

section

variable {α : Type} {call : CatalogCall α}

theorem ensures_onCatalog {s : Sharing} {Q : α → Sharing → Prop}
    (h : call.Ensures s.catalog fun a c' => Q a { s with catalog := c' }) :
    (onCatalog call).Ensures s Q := by
  intro a s' hr
  cases hcall : call s.catalog with
  | mk outcome c' =>
      rw [Returns, onCatalog, hcall] at hr
      obtain ⟨rfl, rfl⟩ := Prod.mk.inj hr
      exact h a c' hcall

instance [h : Leaves id call] : Leaves id (onCatalog call) where
  after_eq s := by
    have hcatalog : call.after s.catalog = s.catalog := h.after_eq s.catalog
    show { s with catalog := call.after s.catalog } = s
    rw [hcatalog]

instance [h : Atomic call] : Atomic (onCatalog call) where
  unchanged s e s' hs := by
    cases hcall : call s.catalog with
    | mk outcome c' =>
        rw [onCatalog, hcall] at hs
        obtain ⟨rfl, rfl⟩ := Prod.mk.inj hs
        rw [h.unchanged s.catalog e c' hcall]

end

section

variable (ctx : Context)

instance (environment : String) : Leaves id (readyJob environment) := by
  unfold readyJob
  infer_instance

instance (actor environment : String) : Leaves id (gatewayShareState ctx actor environment) := by
  unfold gatewayShareState
  infer_instance

theorem unpurged_of_not_deleted {c : Catalog} {runtime : String}
    (h : c.runtimeDeleted runtime = false) : c.purged runtime = false := by
  rw [Catalog.runtimeDeleted, Bool.or_eq_false_iff] at h
  have hactive := List.any_eq_false.mp h.2
  refine List.any_eq_false.mpr fun row hrow hgone => hactive row hrow ?_
  simp only [Bool.and_eq_true, decide_eq_true_eq] at hgone ⊢
  refine ⟨hgone.1, ?_⟩
  rw [hgone.2]
  simp

theorem setGatewayShare_sets (actor environment : String) (share : ℤ) (s : Sharing) :
    (setGatewayShare ctx actor environment share).Ensures s fun _ s' =>
      ∃ job row, Sets s s' job row ∧ row.share = share ∧ job.environment = environment := by
  unfold setGatewayShare
  rw [ensures_transaction]
  apply ensures_check
  intro operator _
  apply ensures_check
  intro _ _
  rw [ensures_bind, ensures_require]
  rintro ⟨-, hpositive, -⟩
  apply ensures_check
  intro job hjob
  have hfound : ((s.catalog.job environment).filter fun job =>
      job.state = .succeeded && !s.catalog.runtimeDeleted job.runtime) = some job := by
    unfold readyJob at hjob
    simp only [returns_bind, returns_read, returns_found] at hjob
    obtain ⟨_, _, ⟨rfl, rfl⟩, hfound, -⟩ := hjob
    exact hfound
  obtain ⟨hget, hready⟩ := Option.filter_eq_some_iff.mp hfound
  obtain ⟨hmem, henvironment⟩ := Table.get_eq_some.mp hget
  rw [Bool.and_eq_true, decide_eq_true_eq, Bool.not_eq_true'] at hready
  rw [ensures_bind, ensures_read, ensures_bind, ensures_require]
  intro hroom
  rw [ensures_bind, ensures_write, ensures_bind]
  apply ensures_onCatalog
  rw [Access.record, ensures_write]
  apply ensures_of_leaves
  intro _ _
  refine ⟨job, ⟨job.runtime, share, actor, ctx.now⟩, ⟨hmem, ?_, rfl, ?_, ?_, rfl, rfl, rfl⟩, rfl,
    henvironment⟩
  · rw [counts, hready.1, unpurged_of_not_deleted hready.2]
    rfl
  · exact hpositive
  · intro hraised
    exact not_lt.mp fun hover => hroom ⟨hraised, hover⟩

end

end Sbarbase.Control.Proofs.Shares
