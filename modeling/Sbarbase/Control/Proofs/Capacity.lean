import Sbarbase.Control.Proofs.Jobs
import Sbarbase.Control.Proofs.Lifecycles
import Sbarbase.Control.Proofs.Members
/-!
# The limit on environments

Slots are counted by runtime, the way the catalog counts them. A calm operation
frees slots or leaves them, the others take one after they counted. Jobs and
lifecycle rows name their runtimes alike, so the count by environment is no larger.
-/

set_option synthInstance.maxSize 5000

namespace Sbarbase.Control.Proofs.Capacity

open Lib Lib.Call Control Control.Proofs.Frames
open Control.Proofs.Jobs Control.Proofs.Lifecycles Control.Proofs.Members

/-! ## Purged stays purged -/

theorem move_keys {ctx : Context} {c : Catalog} {op : Operation} {row row' : LifecycleRow}
    (h : Move ctx c op row row') :
    row'.environment = row.environment ∧ row'.runtime = row.runtime := by
  cases h <;> exact ⟨rfl, rfl⟩

theorem move_purged {ctx : Context} {c : Catalog} {op : Operation} {row row' : LifecycleRow}
    (h : Move ctx c op row row') (hpurged : row.state = .purged) : row'.state = .purged := by
  cases h with
  | stays => exact hpurged
  | enrolls inventory coverage hop hsame => exact hpurged
  | deletes actor operation hop hstate =>
      rw [hpurged] at hstate
      cases hstate
  | requests request actor operation receipt hop hstate hunused hdue =>
      rw [hpurged] at hstate
      cases hstate
  | blocks failure => exact hpurged
  | finishes worker failure hop hsame hdone =>
      show row.state.next = .purged
      rw [hpurged]
      rfl

theorem purged_iff {c : Catalog} {runtime : String} : c.purged runtime = true ↔
      ∃ row ∈ c.lifecycle.rows, row.runtime = runtime ∧ row.state = .purged := by
  simp [Catalog.purged]

theorem moved_purged {ctx : Context} {op : Operation} {c c' : Catalog} (h : Moved ctx op c c')
    {runtime : String} (hpurged : c.purged runtime = true) : c'.purged runtime = true := by
  obtain ⟨row, hrow, hruntime, hstate⟩ := purged_iff.mp hpurged
  obtain ⟨row', hrow', _, hmove⟩ := h.persists hrow
  apply purged_iff.mpr
  exact ⟨row', hrow', (move_keys hmove).2.trans hruntime, move_purged hmove hstate⟩

/-! ## Counting -/

theorem held_of_calm {ctx : Context} {op : Operation} {c c' : Catalog}
    (hcalm : Calmly c.jobs c') (hmoved : Moved ctx op c c') : c'.held ≤ c.held := by
  obtain ⟨f, new, hrows, hf, hnew⟩ := hcalm
  have hnil : new = [] := List.eq_nil_iff_forall_not_mem.mpr hnew
  rw [hnil, List.append_nil] at hrows
  rw [Catalog.held, Catalog.held, hrows, List.countP_map]
  apply List.countP_mono_left
  intro job hjob hcounts
  obtain ⟨_, hstep⟩ := hf job hjob
  simp only [Function.comp_apply, Bool.and_eq_true, Bool.not_eq_true', hstep.runtime] at hcounts ⊢
  refine ⟨hstep.holds hcounts.1, ?_⟩
  by_contra hpurged
  have h := moved_purged hmoved (eq_true_of_ne_false hpurged)
  rw [hcounts.2] at h
  cases h

/-- A list in which one element is changed counts at most one more. -/
theorem countP_change {α β : Type} [DecidableEq β] {key : α → β} {l : List α} {p : α → Bool}
    (hdistinct : (l.map key).Nodup) (k : β) (f : α → α) :
    (l.map fun a => if decide (key a = k) = true then f a else a).countP p ≤ l.countP p + 1 := by
  induction l with
  | nil => simp
  | cons a l ih =>
      obtain ⟨hfresh, hrest⟩ := List.nodup_cons.mp hdistinct
      by_cases hkey : key a = k
      · have hsame : (l.map fun b => if decide (key b = k) = true then f b else b) = l := by
          conv_rhs => rw [← List.map_id l]
          apply List.map_congr_left
          intro b hb
          have hne : key b ≠ k := fun heq =>
            hfresh (List.mem_map.mpr ⟨b, hb, heq.trans hkey.symm⟩)
          simp [hne]
        simp only [List.map_cons, hsame, List.countP_cons]
        split_ifs <;> omega
      · have h := ih hrest
        simp only [List.map_cons, hkey, decide_false, List.countP_cons]
        simp only [Bool.false_eq_true, if_false]
        omega

theorem held_of_admits {c c' : Catalog} (h : Admits c c') (hlifecycle : c'.lifecycle = c.lifecycle) :
    c'.held ≤ environmentLimit := by
  have hroom := h.room
  have hpurged : ∀ runtime, c'.purged runtime = c.purged runtime := by
    intro runtime
    rw [Catalog.purged, Catalog.purged, hlifecycle]
  have hone : c'.held ≤ c.held + 1 := by
    simp only [Catalog.held, hpurged]
    rcases h.jobs with ⟨job, _, hrows, _⟩ | ⟨environment, f, hrows, _⟩
    · rw [hrows, List.countP_append, List.countP_singleton]
      split_ifs <;> omega
    · rw [show c'.jobs.rows = _ from hrows]
      exact countP_change c.jobs.distinct environment f
  omega

section

variable (ctx : Context) (op : Operation)

/-- Operations that take a slot leave the lifecycle alone. -/
theorem perform_slots (c : Catalog) : (perform ctx op).Ensures c fun _ c' =>
    Calmly c.jobs c' ∨ (Admits c c' ∧ c'.lifecycle = c.lifecycle) := by
  have hjobs : ∀ call : CatalogCall Unit, Leaves Catalog.jobs call → call.Ensures c fun _ c' =>
      Calmly c.jobs c' ∨ (Admits c c' ∧ c'.lifecycle = c.lifecycle) :=
    fun call _ => .of_keeps (calmly_of_leaves c.jobs call) (calmly_refl c) fun _ _ h => .inl h
  have hlifecycle : Leaves Catalog.lifecycle (perform ctx op) → (perform ctx op).Ensures c
      fun _ c' => Calmly c.jobs c' ∨ (Admits c c' ∧ c'.lifecycle = c.lifecycle) := by
    intro _ _ c' hr
    exact (perform_jobs ctx op c _ c' hr).imp_right fun h =>
      ⟨h, Leaves.of_returns (p := Catalog.lifecycle) hr⟩
  cases op with
  | registerDurableInventory | registerLifecycleResources | deleteEnvironment
  | requestLifecycle | blockLifecycle | finishLifecycle =>
      apply hjobs
      unfold perform
      infer_instance
  | _ =>
      apply hlifecycle
      unfold perform
      infer_instance

theorem perform_held : Keeps (fun c => c.held ≤ environmentLimit) (perform ctx op) := by
  intro c hc a c' hr
  have hmoved := perform_moves ctx op c a c' hr
  rcases perform_slots ctx op c a c' hr with hcalm | ⟨hadmits, hlifecycle⟩
  · exact (held_of_calm hcalm hmoved).trans hc
  · exact held_of_admits hadmits hlifecycle

/-! ## Jobs and lifecycle rows name their runtimes alike -/

structure Linked (c : Catalog) : Prop where
  runtimes : (c.jobs.rows.map ProvisionJob.runtime).Nodup
  rows : ∀ row ∈ c.lifecycle.rows, ∃ job ∈ c.jobs.rows,
    job.environment = row.environment ∧ job.runtime = row.runtime

/-- The runtimes stay, and a new one is another. -/
theorem runtimes_step {c c' : Catalog} (h : Calmly c.jobs c' ∨ Admits c c') :
    c'.jobs.rows.map ProvisionJob.runtime = c.jobs.rows.map ProvisionJob.runtime ∨
      ∃ job, c'.jobs.rows = c.jobs.rows ++ [job] ∧
        ∀ old ∈ c.jobs.rows, old.runtime ≠ job.runtime := by
  rcases h with ⟨f, new, hrows, hf, hnew⟩ | ⟨_, ⟨job, _, hrows, hfresh⟩ | ⟨environment, f, hrows, hf⟩⟩
  · left
    have hnil : new = [] := List.eq_nil_iff_forall_not_mem.mpr hnew
    rw [hrows, hnil, List.append_nil, List.map_map]
    exact List.map_congr_left fun job hjob => (hf job hjob).2.runtime
  · exact .inr ⟨job, hrows, hfresh⟩
  · left
    rw [show c'.jobs.rows = _ from hrows, changed, List.map_map]
    apply List.map_congr_left
    intro job _
    simp only [Function.comp_apply]
    split_ifs
    · exact (hf job).1.runtime
    · rfl

theorem perform_linked : Keeps Linked (perform ctx op) := by
  intro c hc a c' hr
  have hjobs := perform_jobs ctx op c a c' hr
  have hmoved := perform_moves ctx op c a c' hr
  refine ⟨?_, ?_⟩
  · rcases runtimes_step hjobs with hsame | ⟨job, hrows, hfresh⟩
    · rw [hsame]
      exact hc.runtimes
    · rw [hrows, List.map_append, List.map_cons, List.map_nil, ← List.concat_eq_append]
      apply hc.runtimes.concat
      intro hmem
      obtain ⟨old, hold, heq⟩ := List.mem_map.mp hmem
      exact hfresh old hold heq
  · intro row' hrow'
    rcases hmoved.mem hrow' with ⟨row, hrow, _, hmove⟩ | henrolled
    · obtain ⟨job, hjob, henvironment, hruntime⟩ := hc.rows row hrow
      obtain ⟨job', hjob', hkey, hlater⟩ := job_persists hjobs hjob
      obtain ⟨hrowEnvironment, hrowRuntime⟩ := move_keys hmove
      refine ⟨job', hjob', ?_, ?_⟩
      · rw [hkey, henvironment, hrowEnvironment]
      · rw [hlater.runtime, hruntime, hrowRuntime]
    · obtain ⟨job, hjob, henvironment, hruntime⟩ := henrolled.job
      obtain ⟨job', hjob', hkey, hlater⟩ := job_persists hjobs hjob
      exact ⟨job', hjob', hkey.trans henvironment, hlater.runtime.trans hruntime⟩

end

/-! ## Every reachable state -/

/-- The environment has a job that is queued, running or succeeded and is not purged. -/
def Occupies (c : Catalog) (environment : String) : Prop :=
  (∃ job ∈ c.jobs.rows, job.environment = environment ∧ job.state.holds = true) ∧
    ¬ ∃ row ∈ c.lifecycle.rows, row.environment = environment ∧ row.state = .purged

instance (c : Catalog) (environment : String) : Decidable (Occupies c environment) := by
  unfold Occupies
  infer_instance

/-- How many environments hold a slot. -/
def occupied (c : Catalog) : ℕ :=
  c.environments.rows.countP fun row => Occupies c row.id

theorem occupied_le_held {c : Catalog} (hc : Linked c) : occupied c ≤ c.held := by
  rw [occupied, Catalog.held, List.countP_eq_length_filter, List.countP_eq_length_filter]
  set environments := c.environments.rows.filter fun row => Occupies c row.id
  set jobs := c.jobs.rows.filter fun job => job.state.holds && !c.purged job.runtime
  have hdistinct : (environments.map Environment.id).Nodup :=
    c.environments.distinct.sublist (List.filter_sublist.map _)
  have hsub : environments.map Environment.id ⊆ jobs.map ProvisionJob.environment := by
    intro environment hmem
    obtain ⟨row, hrow, rfl⟩ := List.mem_map.mp hmem
    obtain ⟨_, hoccupies⟩ := List.mem_filter.mp hrow
    obtain ⟨⟨job, hjob, henvironment, hholds⟩, hpurged⟩ := of_decide_eq_true hoccupies
    refine List.mem_map.mpr ⟨job, List.mem_filter.mpr ⟨hjob, ?_⟩, henvironment⟩
    rw [Bool.and_eq_true, Bool.not_eq_true']
    refine ⟨hholds, ?_⟩
    by_contra hgone
    -- The purged row of the runtime belongs to the environment of the job.
    obtain ⟨gone, hgoneMem, hruntime, hstate⟩ := purged_iff.mp (eq_true_of_ne_false hgone)
    obtain ⟨other, hother, hotherEnvironment, hotherRuntime⟩ := hc.rows gone hgoneMem
    have hsame : other = job :=
      List.inj_on_of_nodup_map hc.runtimes hother hjob (hotherRuntime.trans hruntime)
    apply hpurged
    exact ⟨gone, hgoneMem, by rw [← hotherEnvironment, hsame, henvironment], hstate⟩
  calc environments.length = (environments.map Environment.id).length := (List.length_map _).symm
    _ ≤ (jobs.map ProvisionJob.environment).length := (hdistinct.subperm hsub).length_le
    _ = jobs.length := List.length_map _

/-- At every moment of every run the limit holds, counted by environment. -/
theorem occupied_le (events : List (Context × Operation)) :
    occupied (catalogMachine.run events) ≤ environmentLimit := by
  have hheld : (catalogMachine.run events).held ≤ environmentLimit := by
    apply catalogMachine.run_invariant (I := fun c => c.held ≤ environmentLimit)
    · decide
    · intro c event hc
      exact (perform_held event.1 event.2).after (atomic_perform event.1 event.2) hc
  have hlinked : Linked (catalogMachine.run events) := by
    apply catalogMachine.run_invariant
    · exact ⟨List.nodup_nil, fun row hrow => absurd hrow (List.not_mem_nil)⟩
    · intro c event hc
      exact (perform_linked event.1 event.2).after (atomic_perform event.1 event.2) hc
  exact (occupied_le_held hlinked).trans hheld

end Sbarbase.Control.Proofs.Capacity
