import Sbarbase.Control.Proofs.Jobs
/-!
# Where a ready environment comes from

Only the outcome of a running attempt makes a job succeed. Every other operation
spares the jobs: what is ready after it was ready before, on the same runtime.
-/

set_option synthInstance.maxSize 5000

namespace Sbarbase.Control.Proofs.ReadyJobs

open Lib Lib.Call Control Control.Proofs.Frames Control.Proofs.Jobs

/-- What is ready was ready. -/
def Spared (c c' : Catalog) : Prop :=
  ∀ job' ∈ c'.jobs.rows, job'.state = .succeeded →
    ∃ job ∈ c.jobs.rows, job.environment = job'.environment ∧ job.runtime = job'.runtime ∧
      job.state = .succeeded

theorem Spared.refl {c : Catalog} : Spared c c :=
  fun job hjob hstate => ⟨job, hjob, rfl, rfl, hstate⟩

theorem Spared.of_jobs {c c₁ c' : Catalog} (h : Spared c c₁) (hjobs : c'.jobs.rows = c₁.jobs.rows) :
    Spared c c' := by
  intro job' hjob'
  rw [hjobs] at hjob'
  exact h job' hjob'

/-- The call makes no job succeed. -/
class Spares {α : Type} (call : CatalogCall α) : Prop where
  keeps : ∀ c, Keeps (Spared c) call

section

variable {α β : Type}

instance (priority := low) {call : CatalogCall α} [Leaves Catalog.jobs call] : Spares call where
  keeps _ := keeps_of_leaves (p := Catalog.jobs) call fun _ _ hsame h =>
    h.of_jobs (congrArg Table.rows hsame)

theorem Spares.bind {call : CatalogCall α} {f : α → CatalogCall β} (hc : Spares call)
    (hf : ∀ a, Spares (f a)) : Spares (call >>= f) where
  keeps c := (hc.keeps c).bind fun a => (hf a).keeps c

instance {call : CatalogCall α} {f : α → CatalogCall β} [hc : Spares call]
    [hf : ∀ a, Spares (f a)] : Spares (call >>= f) := hc.bind hf

theorem Spares.transaction {call : CatalogCall α} (h : Spares call) : Spares call.transaction where
  keeps c := (h.keeps c).transaction

instance {call : CatalogCall α} [h : Spares call] : Spares call.transaction := h.transaction

instance {call : CatalogCall α} [h : Spares call] : Spares call.discard where
  keeps c := (h.keeps c).discard

instance {q : Prop} [Decidable q] {call other : CatalogCall α} [h : Spares call]
    [h' : Spares other] : Spares (if q then call else other) := by
  by_cases hq : q
  · rwa [if_pos hq]
  · rwa [if_neg hq]

instance {items : List β} {body : β → CatalogCall Unit} [h : ∀ item, Spares (body item)] :
    Spares (Call.forEach items body) := by
  induction items with
  | nil => exact inferInstanceAs (Spares (pure ()))
  | cons item items ih => exact inferInstanceAs (Spares (body item >>= fun _ => _))

end

/-- A change of jobs that lets none succeed. -/
theorem spares_updateJob {p : ProvisionJob → Bool} {f : ProvisionJob → ProvisionJob}
    {hf : ∀ job, (f job).environment = job.environment}
    (h : ∀ job, (f job).runtime = job.runtime ∧ ((f job).state = .succeeded →
      job.state = .succeeded)) : Spares (updateJob p f hf) where
  keeps c c₁ hc₁ := by
    rw [updateJob, ensures_write]
    intro job' hjob' hstate
    change job' ∈ (c₁.jobs.modify p f hf).rows at hjob'
    obtain ⟨job, hjob, rfl⟩ := Table.mem_modify.mp hjob'
    by_cases hp : p job = true
    · rw [if_pos hp] at hstate ⊢
      obtain ⟨old, hold, henvironment, hruntime, hready⟩ := hc₁ job hjob ((h job).2 hstate)
      exact ⟨old, hold, henvironment.trans (hf job).symm, hruntime.trans (h job).1.symm, hready⟩
    · rw [if_neg hp] at hstate ⊢
      exact hc₁ job hjob hstate

/-- A change of jobs to a state other than success. -/
theorem spares_stop {p : ProvisionJob → Bool} {f : ProvisionJob → ProvisionJob}
    {hf : ∀ job, (f job).environment = job.environment}
    (h : ∀ job, (f job).runtime = job.runtime ∧ (f job).state ≠ .succeeded) :
    Spares (updateJob p f hf) :=
  spares_updateJob fun job => ⟨(h job).1, fun hstate => absurd hstate (h job).2⟩

section

variable (ctx : Context)

instance (environment runtime actor organization : String) :
    Spares (insertJob environment runtime actor organization) where
  keeps c c₁ hc₁ := by
    refine (insertJob_ensures environment runtime actor organization c₁).mono ?_
    rintro _ c₂ ⟨new, hnew, hrows, -⟩ job' hjob' hstate
    rw [hrows, List.mem_append, List.mem_singleton] at hjob'
    rcases hjob' with hold | rfl
    · exact hc₁ job' hold hstate
    · rw [hnew.state] at hstate
      cases hstate

instance (actor project name id runtime : String) :
    Spares (createEnvironment ctx actor project name id runtime) := by
  unfold createEnvironment
  infer_instance

instance (actor organization name projectId environmentId runtime : String) :
    Spares (createProjectWithProduction ctx actor organization name projectId environmentId
      runtime) := by
  unfold createProjectWithProduction
  infer_instance

instance : Spares recoverProvisioning := by
  unfold recoverProvisioning
  exact spares_stop fun _ => ⟨rfl, by simp⟩

instance (claim : String) (jobs : List ProvisionJob) : Spares (claimFirst ctx claim jobs) := by
  induction jobs with
  | nil =>
      unfold claimFirst
      infer_instance
  | cons job jobs ih =>
      unfold claimFirst
      have hclaim : Spares (updateJob (fun row => row.environment = job.environment)
          (fun row => { row with
            state := .running, attempt := row.attempt + 1, claim := some claim }) fun _ => rfl) :=
        spares_stop fun _ => ⟨rfl, by simp⟩
      have hcancel : Spares (updateJob (fun row => row.environment = job.environment)
          (fun row => { row with state := .cancelled }) fun _ => rfl) :=
        spares_stop fun _ => ⟨rfl, by simp⟩
      infer_instance

instance (claim : String) : Spares (claimProvision ctx claim) := by
  unfold claimProvision
  infer_instance

instance (job : ProvisionJob) : Spares (cancelQueued ctx job) := by
  have hcancel : Spares (updateJob (fun row => row.environment = job.environment)
      (fun row => { row with state := .cancelled, claim := none }) fun _ => rfl) :=
    spares_stop fun _ => ⟨rfl, by simp⟩
  unfold cancelQueued
  infer_instance

instance (p : ProvisionJob → Bool) (destination : String) :
    Spares (updateJob p (fun job => { job with organization := destination }) fun _ => rfl) :=
  spares_updateJob fun _ => ⟨rfl, id⟩

instance (actor project destination : String) (revokeRuntime : String → Except String Unit) :
    Spares (transferProject ctx actor project destination revokeRuntime) := by
  unfold transferProject
  apply Spares.transaction
  apply Spares.bind inferInstance
  intro source
  apply Spares.bind inferInstance
  intro _
  apply Spares.bind inferInstance
  intro c
  apply Spares.bind inferInstance
  intro _
  split
  · infer_instance
  · apply Spares.bind inferInstance
    intro _
    infer_instance

instance (actor environment : String) : Spares (retryProvision ctx actor environment) := by
  unfold retryProvision
  apply Spares.transaction
  apply Spares.bind inferInstance
  intro parent
  apply Spares.bind inferInstance
  intro _
  apply Spares.bind inferInstance
  intro c
  apply Spares.bind inferInstance
  intro _
  refine Spares.bind (spares_stop ?_) ?_
  · exact fun _ => ⟨rfl, by simp⟩
  intro _
  apply Spares.bind inferInstance
  intro _
  apply Spares.bind inferInstance
  intro c'
  split <;> infer_instance

instance (actor : String) (ownership : Ownership) (runtime : String) :
    Spares (relinkEnvironment ctx actor ownership runtime) := by
  unfold relinkEnvironment
  apply Spares.bind inferInstance
  intro _
  apply Spares.bind inferInstance
  intro _
  apply Spares.bind inferInstance
  intro organizationName
  apply Spares.bind inferInstance
  intro projectName
  apply Spares.bind inferInstance
  intro environmentName
  apply Spares.transaction
  apply Spares.bind inferInstance
  intro operator
  apply Spares.bind inferInstance
  intro _
  apply Spares.bind inferInstance
  intro c
  apply Spares.bind inferInstance
  intro _
  apply Spares.bind inferInstance
  intro newOrganization
  apply Spares.bind inferInstance
  intro newProject
  apply Spares.bind inferInstance
  intro c'
  split <;> infer_instance

end

/-! ## The outcome of an attempt -/

/-- The job that the operation lets succeed. -/
def succeeding (c : Catalog) : Operation → Option ProvisionJob
  | .finishProvision environment claim true _ _ =>
    (c.job environment).filter fun job => job.state = .running && job.claim = some claim
  | .applyProvisionReceipt environment runtime claim attempt 0 _ =>
    (c.job environment).filter fun job => job.runtime = runtime && job.attempt = attempt &&
      job.state = .running && job.claim = some claim
  | _ => none

/-- The running job became ready, and nothing else changed that counts. -/
structure Readies (c c' : Catalog) (job : ProvisionJob) : Prop where
  mem : job ∈ c.jobs.rows
  running : job.state = .running
  jobs : ∃ failure, HasJobs (changed c job.environment (settled true failure)) c'
  lifecycle : c'.lifecycle = c.lifecycle

theorem spared_changed {c c' : Catalog} {environment : String} {f : ProvisionJob → ProvisionJob}
    (hc' : HasJobs (changed c environment f) c')
    (hf : ∀ job, (f job).environment = job.environment ∧ (f job).runtime = job.runtime ∧
      (f job).state ≠ .succeeded) : Spared c c' := by
  intro job' hjob' hstate
  rw [show c'.jobs.rows = _ from hc', changed] at hjob'
  obtain ⟨job, hjob, rfl⟩ := List.mem_map.mp hjob'
  by_cases henvironment : decide (job.environment = environment) = true
  · rw [if_pos henvironment] at hstate
    exact absurd hstate (hf job).2.2
  · rw [if_neg henvironment] at hstate ⊢
    exact ⟨job, hjob, rfl, rfl, hstate⟩

theorem finishProvision_readies (ctx : Context) (environment claim : String) (success : Bool)
    (failure : ProvisionFailure) (refusalReason : Option String) (c : Catalog) :
    (finishProvision ctx environment claim success failure refusalReason).Ensures c fun _ c' =>
      Spared c c' ∨ ∃ job, succeeding c
        (.finishProvision environment claim success failure refusalReason) = some job ∧
          Readies c c' job := by
  intro u c' hr
  obtain ⟨hruns, hjobs⟩ :=
    finishProvision_ensures ctx environment claim success failure refusalReason c u c' hr
  have hdeletions : deletions c' = deletions c := Leaves.of_returns (p := deletions) hr
  cases success with
  | false => exact .inl (spared_changed hjobs fun _ => ⟨rfl, rfl, by simp [settled]⟩)
  | true =>
      right
      obtain ⟨job, hjob, hrunning, hclaim⟩ := runs_iff.mp hruns
      obtain ⟨hmem, rfl⟩ := Table.get_eq_some.mp hjob
      refine ⟨job, ?_, hmem, hrunning, ⟨failure, hjobs⟩, congrArg Prod.fst hdeletions⟩
      simp [succeeding, hjob, hrunning, hclaim]

theorem receives_readies {row : EffectResult} {c c' : Catalog} (refusalReason : Option String)
    (h : Receives row c c') (hlifecycle : c'.lifecycle = c.lifecycle) :
    Spared c c' ∨ ∃ job, succeeding c (.applyProvisionReceipt row.environment row.runtime row.claim
      row.attempt row.exitCode refusalReason) = some job ∧ Readies c c' job := by
  by_cases hexit : row.exitCode = 0
  · right
    have hjobs := h.jobs
    obtain ⟨job, hjob, hruntime, hattempt, hrunning, hclaim⟩ := h.runs
    obtain ⟨hmem, henvironment⟩ := Table.get_eq_some.mp hjob
    rw [← henvironment] at hjobs
    simp only [hexit, decide_true] at hjobs
    refine ⟨job, ?_, hmem, hrunning, ⟨_, hjobs⟩, hlifecycle⟩
    simp [succeeding, hexit, hjob, hruntime, hattempt, hrunning, hclaim]
  · left
    exact spared_changed h.jobs fun _ => ⟨rfl, rfl, by simp [settled, hexit]⟩

theorem applyProvisionReceipt_readies (ctx : Context) (environment runtime claim : String)
    (attempt exitCode : ℤ) (refusalReason : Option String) (c : Catalog) :
    (applyProvisionReceipt ctx environment runtime claim attempt exitCode refusalReason).Ensures c
      fun _ c' => Spared c c' ∨ ∃ job, succeeding c
        (.applyProvisionReceipt environment runtime claim attempt exitCode refusalReason) =
          some job ∧ Readies c c' job := by
  intro u c' hr
  have hdeletions : deletions c' = deletions c := Leaves.of_returns (p := deletions) hr
  rcases applyProvisionReceipt_ensures ctx ⟨environment, attempt, runtime, claim, exitCode⟩
    refusalReason c u c' hr with ⟨rfl, -⟩ | hreceives
  · exact .inl .refl
  · exact receives_readies refusalReason hreceives (congrArg Prod.fst hdeletions)

theorem recoverPreflightReceipt_spares (ctx : Context) (environment runtime claim : String)
    (attempt : ℤ) (token : String) (c : Catalog) :
    (recoverPreflightReceipt ctx environment runtime claim attempt token).Ensures c
      fun _ c' => Spared c c' := by
  refine (recoverPreflightReceipt_ensures ctx environment runtime claim attempt token c).mono ?_
  rintro _ c' (⟨rfl, -⟩ | ⟨choice, -, ⟨rfl, -⟩ | hdecides⟩)
  · exact .refl
  · exact .refl
  · refine spared_changed hdecides.jobs fun _ => ⟨rfl, rfl, ?_⟩
    cases choice <;> simp [recovered]

/-- What an operation may do to the ready jobs. -/
theorem perform_ready (ctx : Context) (op : Operation) (c : Catalog) :
    (perform ctx op).Ensures c fun _ c' =>
      Spared c c' ∨ ∃ job, succeeding c op = some job ∧ Readies c c' job := by
  have hspares : ∀ call : CatalogCall Unit, Spares call → call.Ensures c fun _ c' =>
      Spared c c' ∨ ∃ job, succeeding c op = some job ∧ Readies c c' job :=
    fun call h => .of_keeps (h.keeps c) .refl fun _ _ hspared => .inl hspared
  cases op with
  | finishProvision environment claim success failure refusalReason =>
      exact finishProvision_readies ctx environment claim success failure refusalReason c
  | applyProvisionReceipt environment runtime claim attempt exitCode refusalReason =>
      exact applyProvisionReceipt_readies ctx environment runtime claim attempt exitCode
        refusalReason c
  | recoverPreflightReceipt environment runtime claim attempt token =>
      exact ((recoverPreflightReceipt_spares ctx environment runtime claim attempt token c).mono
        fun _ _ h => .inl h).discard
  | _ =>
      apply hspares
      unfold perform
      infer_instance

end Sbarbase.Control.Proofs.ReadyJobs
