import Sbarbase.Control.Proofs.Shares
/-!
# The guarantees of the gateway

A raise is refused where the shares would exceed the gateway. An environment that
becomes ready later is not refused, so the sum stays within the gateway as long as
each of them finds its share free.
-/

namespace Sbarbase.Control.Proofs.ShareLaw

open Lib Lib.Call Control Control.Sharing
open Control.Proofs.Jobs Control.Proofs.Members Control.Proofs.Capacity Control.Proofs.ReadyJobs
open Control.Proofs.Shares

/-! ## What an event does to the sum -/

/-- Shares are positive and no two jobs have one runtime. -/
structure Sound (s : Sharing) : Prop where
  positive : Positive s
  linked : Linked s.catalog

/-- The share of an environment was raised, to a sum within the gateway. -/
structure Raises (s s' : Sharing) (event : Context × SharingOperation) : Prop where
  event : ∃ actor environment share, event.2 = .setGatewayShare actor environment share
  room : s'.allocatedShares ≤ Gateway.total

/-- An environment became ready and took its share. -/
structure Opens (s s' : Sharing) (event : Context × SharingOperation) (job : ProvisionJob) :
    Prop where
  event : ∃ op, event.2 = .catalog op ∧ succeeding s.catalog op = some job
  adds : s'.allocatedShares = s.allocatedShares + s.shareOf job.runtime

theorem step_catalog (ctx : Context) (op : Operation) (s : Sharing) :
    sharingMachine.step s (ctx, .catalog op) =
      { s with catalog := (perform ctx op).after s.catalog } := rfl

theorem opened {s : Sharing} (hs : Sound s) (ctx : Context) (op : Operation) :
    (sharingMachine.step s (ctx, .catalog op)).allocatedShares ≤ s.allocatedShares ∨
      ∃ job, Opens s (sharingMachine.step s (ctx, .catalog op)) (ctx, .catalog op) job := by
  rw [step_catalog]
  rcases (atomic_perform ctx op).after_cases s.catalog with hsame | ⟨u, hr⟩
  · left
    rw [hsame]
  · have hmoved := Lifecycles.perform_moves ctx op s.catalog u _ hr
    have hpurged : PurgedStays s.catalog ((perform ctx op).after s.catalog) :=
      fun _ h => moved_purged hmoved h
    rcases perform_ready ctx op s.catalog u _ hr with hspared | ⟨job, hjob, hreadies⟩
    · exact .inl (allocated_le_of_subset hs.positive rfl (places_subset hspared hpurged))
    · cases hgone : s.catalog.purged job.runtime with
      | true => exact .inl (allocated_readies_purged hs.positive rfl hreadies hgone)
      | false => exact .inr ⟨job, ⟨op, rfl, hjob⟩, allocated_readies rfl hreadies hgone⟩

instance (ctx : Context) (operation : SharingOperation) : Atomic (performSharing ctx operation) := by
  cases operation with
  | catalog operation =>
      have := atomic_perform ctx operation
      unfold performSharing
      infer_instance
  | setGatewayShare actor environment share =>
      unfold performSharing setGatewayShare
      infer_instance

/-- Setting a share left everything alone, or it set it. -/
theorem step_set (ctx : Context) (actor environment : String) (share : ℤ) (s : Sharing) :
    sharingMachine.step s (ctx, .setGatewayShare actor environment share) = s ∨
      ∃ job row, Sets s (sharingMachine.step s (ctx, .setGatewayShare actor environment share))
        job row := by
  have hatomic : Atomic (performSharing ctx (.setGatewayShare actor environment share)) :=
    inferInstance
  rcases hatomic.after_cases s with hsame | ⟨u, hr⟩
  · exact .inl hsame
  · right
    simp only [performSharing, Call.discard, returns_bind, returns_pure] at hr
    obtain ⟨state, s', hset, -, hafter⟩ := hr
    obtain ⟨job, row, hsets, -, -⟩ :=
      setGatewayShare_sets ctx actor environment share s state s' hset
    rw [← hafter] at hsets
    exact ⟨job, row, hsets⟩

theorem step_shares {s : Sharing} (hs : Sound s) (event : Context × SharingOperation) :
    (sharingMachine.step s event).allocatedShares ≤ s.allocatedShares ∨
      Raises s (sharingMachine.step s event) event ∨
      ∃ job, Opens s (sharingMachine.step s event) event job := by
  obtain ⟨ctx, operation⟩ := event
  cases operation with
  | catalog op => exact (opened hs ctx op).imp_right .inr
  | setGatewayShare actor environment share =>
      rcases step_set ctx actor environment share s with hsame | ⟨job, row, hsets⟩
      · left
        rw [hsame]
      · have hsum := allocated_sets hs.linked.runtimes hsets
        by_cases hraised : s.shareOf job.runtime < row.share
        · have hroom := hsets.room hraised
          exact .inr (.inl ⟨⟨actor, environment, share, rfl⟩, by omega⟩)
        · left
          omega

theorem sound_step (s : Sharing) (event : Context × SharingOperation) (hs : Sound s) :
    Sound (sharingMachine.step s event) := by
  obtain ⟨ctx, operation⟩ := event
  cases operation with
  | catalog op =>
      rw [step_catalog]
      exact ⟨hs.positive, (perform_linked ctx op).after (atomic_perform ctx op) hs.linked⟩
  | setGatewayShare actor environment share =>
      rcases step_set ctx actor environment share s with hsame | ⟨job, row, hsets⟩
      · rwa [hsame]
      · refine ⟨?_, ⟨?_, ?_⟩⟩
        · intro other hother
          rw [hsets.shares] at hother
          rcases Table.mem_put.mp hother with rfl | ⟨hold, -⟩
          · exact hsets.positive
          · exact hs.positive other hold
        · rw [hsets.jobs]
          exact hs.linked.runtimes
        · rw [hsets.jobs, hsets.lifecycle]
          exact hs.linked.rows

theorem sound_run (events : List (Context × SharingOperation)) :
    Sound (sharingMachine.run events) := by
  refine sharingMachine.run_invariant ?_ sound_step events
  exact ⟨fun row hrow => absurd hrow List.not_mem_nil, List.nodup_nil,
    fun row hrow => absurd hrow List.not_mem_nil⟩

/-! ## The law -/

/-- An environment that becomes ready finds its share free. -/
def Fits (s : Sharing) (event : Context × SharingOperation) : Prop :=
  ∀ op job, event.2 = .catalog op → succeeding s.catalog op = some job →
    s.allocatedShares + s.shareOf job.runtime ≤ Gateway.total

theorem fits_le {s : Sharing} (hs : Sound s) {event : Context × SharingOperation}
    (hfits : Fits s event) (hle : s.allocatedShares ≤ Gateway.total) :
    (sharingMachine.step s event).allocatedShares ≤ Gateway.total := by
  rcases step_shares hs event with hless | hraises | ⟨job, hopens⟩
  · exact hless.trans hle
  · exact hraises.room
  · obtain ⟨op, hop, hjob⟩ := hopens.event
    rw [hopens.adds]
    exact hfits op job hop hjob

/-- Only a raise with room and an environment that becomes ready make the sum
larger, the second by its own share. Without the second beyond the gateway, every
guarantee holds at once in every state of a run. -/
theorem shares_law : (∀ events event, let s := sharingMachine.run events
      let s' := sharingMachine.step s event
      s'.allocatedShares ≤ s.allocatedShares ∨ Raises s s' event ∨ ∃ job, Opens s s' event job) ∧
    (∀ events, sharingMachine.Along Fits sharingMachine.initial events →
      (sharingMachine.run events).allocatedShares ≤ Gateway.total) := by
  refine ⟨fun events event => step_shares (sound_run events) event, ?_⟩
  intro events halong
  have hboth : Sound (sharingMachine.run events) ∧
      (sharingMachine.run events).allocatedShares ≤ Gateway.total := by
    apply sharingMachine.run_invariant_along (P := Fits)
      (I := fun s => Sound s ∧ s.allocatedShares ≤ Gateway.total) ?_ ?_ events halong
    · exact ⟨sound_run [], by decide⟩
    intro s event hfits hs
    exact ⟨sound_step s event hs.1, fits_le hs.1 hfits hs.2⟩
  exact hboth.2

/-! ### A raise before the next environment -/

def sharesContext : Context where
  now := 0
  current := fun _ => true
  event := "n"
  channels := []
  authorizationStore := false
  authority := none
  lifecycleAdmission := none
  parseUrl := fun _ => none
  toLowerCase := id
  digest := id
  placementDigest := fun _ => ""

/-- An environment is created and provisioned. -/
def provisioned (id runtime : String) : List (Context × SharingOperation) :=
  [.catalog (.createEnvironment "alice" "p" id id runtime), .catalog (.claimProvision id),
    .catalog (.finishProvision id id true .runtimeFailed none)].map (Prod.mk sharesContext)

def raised (id : String) (share : ℤ) : Context × SharingOperation :=
  (sharesContext, .setGatewayShare "alice" id share)

/-- Three environments take the whole gateway, then a fourth becomes ready. -/
def overcommitted : List (Context × SharingOperation) :=
  [(sharesContext, .catalog (.initializeInstallation "i" "alice" "acme" "o")),
    (sharesContext, .catalog (.createProject "alice" "o" "shop" "p"))] ++
  provisioned "a" "e_00000000000000000000000a" ++ provisioned "b" "e_00000000000000000000000b" ++
  provisioned "c" "e_00000000000000000000000c" ++
  [raised "a" 24, raised "b" 24, raised "c" 16] ++ provisioned "d" "e_00000000000000000000000d"

theorem overcommitted_exceeds :
    ¬ ∀ events, (sharingMachine.run events).allocatedShares ≤ Gateway.total := by
  intro h
  have hsum : (sharingMachine.run overcommitted).allocatedShares = 72 := by decide +kernel
  have hle := h overcommitted
  rw [hsum] at hle
  exact absurd hle (by decide)

end Sbarbase.Control.Proofs.ShareLaw
