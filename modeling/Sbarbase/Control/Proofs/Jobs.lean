import Sbarbase.Control.Proofs.Frames
/-!
# What operations do to jobs

A job is never removed and keeps its runtime. Its attempt never falls, and at one
attempt it runs at most once. All operations but creation, relinking and retry are
calm: they add no job and give no slot to a job that held none.
-/

set_option synthInstance.maxSize 5000

namespace Sbarbase.Control.Proofs.Jobs

open Lib Lib.Call Control Control.Proofs.Frames

/-! ## The two relations -/

/-- The job has a claim exactly while it runs. -/
def LiveClaim (job : ProvisionJob) : Prop := job.claim.isSome = true ↔ job.state = .running

/-- What an operation may do to a job. -/
structure Later (job job' : ProvisionJob) : Prop where
  runtime : job'.runtime = job.runtime
  attempt : job.attempt ≤ job'.attempt
  live : LiveClaim job → LiveClaim job'
  running : job'.attempt = job.attempt → job'.state = .running →
    job.state = .running ∧ job'.claim = job.claim

/-- What an operation may do that gives no slots. -/
structure Calm (job job' : ProvisionJob) : Prop extends Later job job' where
  holds : job'.state.holds = true → job.state.holds = true

theorem Later.refl (job : ProvisionJob) : Later job job :=
  ⟨rfl, le_refl _, fun h => h, fun _ h => ⟨h, rfl⟩⟩

theorem Later.trans {a b c : ProvisionJob} (h : Later a b) (h' : Later b c) : Later a c where
  runtime := h'.runtime.trans h.runtime
  attempt := h.attempt.trans h'.attempt
  live ha := h'.live (h.live ha)
  running hattempt hrunning := by
    have hle := h.attempt
    have hle' := h'.attempt
    have hb := h'.running (by omega) hrunning
    have ha := h.running (by omega) hb.1
    exact ⟨ha.1, hb.2.trans ha.2⟩

theorem Calm.refl (job : ProvisionJob) : Calm job job := ⟨Later.refl job, fun h => h⟩

theorem Calm.trans {a b c : ProvisionJob} (h : Calm a b) (h' : Calm b c) : Calm a c :=
  ⟨h.toLater.trans h'.toLater, fun hc => h.holds (h'.holds hc)⟩

/-- The attempt is over: the job stopped at it or went on to the next. -/
def Past (attempt : ℤ) (job : ProvisionJob) : Prop :=
  attempt < job.attempt ∨ (job.attempt = attempt ∧ job.state ≠ .running)

theorem Past.later {attempt : ℤ} {job job' : ProvisionJob} (h : Past attempt job)
    (hlater : Later job job') : Past attempt job' := by
  have hle := hlater.attempt
  rcases h with hlt | ⟨heq, hstopped⟩
  · left
    omega
  · by_cases hsame : job'.attempt = job.attempt
    · right
      exact ⟨hsame.trans heq, fun hrunning => hstopped (hlater.running hsame hrunning).1⟩
    · left
      omega

/-! ## The changes of one job -/

section

variable {job : ProvisionJob}

/-- A queued job starts its next attempt. -/
theorem calm_claim (h : job.state = .queued) (claim : String) :
    Calm job { job with state := .running, attempt := job.attempt + 1, claim := some claim } where
  runtime := rfl
  attempt := by dsimp only; omega
  live _ := by simp [LiveClaim]
  running hattempt _ := by dsimp only at hattempt; omega
  holds _ := by rw [h]; rfl

/-- A running job stops: it settles or is queued again. -/
theorem calm_stop (h : job.state = .running) {state : JobState} (hstate : state ≠ .running)
    (failure : Option ProvisionFailure) :
    Calm job { job with state := state, claim := none, failure := failure } where
  runtime := rfl
  attempt := le_refl _
  live _ := by simp [LiveClaim, hstate]
  running _ hrunning := absurd hrunning hstate
  holds _ := by rw [h]; rfl

/-- A queued job is cancelled, with or without a write to the claim it does not have. -/
theorem calm_cancel (h : job.state = .queued) {claim : Option String}
    (hclaim : claim = none ∨ claim = job.claim) :
    Calm job { job with state := .cancelled, claim := claim } where
  runtime := rfl
  attempt := le_refl _
  live hlive := by
    have hnone : job.claim = none := by
      cases hjob : job.claim with
      | none => rfl
      | some text =>
          have hrunning : job.state = .running := hlive.mp (by rw [hjob]; rfl)
          rw [h] at hrunning
          cases hrunning
    rcases hclaim with rfl | rfl <;> simp [LiveClaim, hnone]
  running _ hrunning := by cases hrunning
  holds hholds := by cases hholds

theorem calm_organization (organization : String) :
    Calm job { job with organization := organization } where
  runtime := rfl
  attempt := le_refl _
  live h := h
  running _ h := ⟨h, rfl⟩
  holds h := h

/-- A job that failed or was cancelled is queued again: it takes a slot. -/
theorem later_retry (actor organization : String) : Later job { job with
      state := .queued, actor := actor, organization := organization, claim := none,
      failure := none } where
  runtime := rfl
  attempt := le_refl _
  live _ := by simp [LiveClaim]
  running _ hrunning := by cases hrunning

end

/-! ## Calm operations -/

section

variable (ctx : Context) (t : Table ProvisionJob.environment)

/-- The jobs are those of `t` after calm changes. -/
abbrev Calmly (c : Catalog) : Prop := Table.Evolves Calm (fun _ => False) t c.jobs

theorem calmly_refl (c : Catalog) : Calmly c.jobs c := Table.Evolves.refl Calm.refl c.jobs

theorem calmly_of_leaves {α : Type} (call : CatalogCall α) [Leaves Catalog.jobs call] :
    Keeps (Calmly t) call := by
  apply keeps_of_leaves (p := Catalog.jobs)
  intro c c' hsame hc
  show Table.Evolves Calm (fun _ => False) t c'.jobs
  rw [hsame]
  exact hc

theorem calmly_trans {t t' t'' : Table ProvisionJob.environment}
    (h : Table.Evolves Calm (fun _ => False) t t')
    (h' : Table.Evolves Calm (fun _ => False) t' t'') :
    Table.Evolves Calm (fun _ => False) t t'' :=
  h.trans (fun _ _ _ => Calm.trans) (fun _ _ h _ => h) h'

theorem calmly_modify {t : Table ProvisionJob.environment} {c : Catalog}
    {p : ProvisionJob → Bool} {f : ProvisionJob → ProvisionJob} (hc : Calmly t c)
    (h : ∀ job ∈ c.jobs.rows, p job = true → Calm job (f job))
    (hf : ∀ job, (f job).environment = job.environment) :
    Table.Evolves Calm (fun _ => False) t (c.jobs.modify p f hf) :=
  calmly_trans hc (Table.evolves_modify Calm.refl hf h)

theorem updateJob_calm {t : Table ProvisionJob.environment} {c : Catalog}
    {p : ProvisionJob → Bool} {f : ProvisionJob → ProvisionJob}
    {hf : ∀ job, (f job).environment = job.environment} (hc : Calmly t c)
    (h : ∀ job ∈ c.jobs.rows, p job = true → Calm job (f job)) :
    (updateJob p f hf).Ensures c fun _ c' => Calmly t c' := by
  rw [updateJob, ensures_write]
  exact calmly_modify hc h hf

theorem calmly_recoverProvisioning : Keeps (Calmly t) recoverProvisioning := by
  intro c hc
  apply updateJob_calm hc
  intro job _ hrunning
  exact calm_stop (of_decide_eq_true hrunning) (by simp) job.failure

/-! ### The worker -/

/-- A queued job as its claim leaves it. -/
def claimed (claim : String) (job : ProvisionJob) : ProvisionJob :=
  { job with state := .running, attempt := job.attempt + 1, claim := some claim }

/-- The rows of a list are in the table, queued, and of different environments. -/
structure Waiting (jobs : List ProvisionJob) (c : Catalog) : Prop where
  mem : ∀ job ∈ jobs, job ∈ c.jobs.rows
  queued : ∀ job ∈ jobs, job.state = .queued
  distinct : (jobs.map ProvisionJob.environment).Nodup

/-- A change of the first job leaves the others where they are. -/
theorem Waiting.tail {job : ProvisionJob} {jobs : List ProvisionJob} {c c' : Catalog}
    (h : Waiting (job :: jobs) c) {f : ProvisionJob → ProvisionJob}
    (hc' : c'.jobs.rows = c.jobs.rows.map fun row =>
      if decide (row.environment = job.environment) = true then f row else row) :
    Waiting jobs c' where
  mem other hother := by
    rw [hc', List.mem_map]
    refine ⟨other, h.mem other (List.mem_cons_of_mem _ hother), ?_⟩
    have hne : other.environment ≠ job.environment := by
      intro heq
      have hnot := (List.nodup_cons.mp h.distinct).1
      exact hnot (List.mem_map.mpr ⟨other, hother, heq⟩)
    simp [hne]
  queued other hother := h.queued other (List.mem_cons_of_mem _ hother)
  distinct := (List.nodup_cons.mp h.distinct).2

theorem waiting_filter (c : Catalog) (p : ProvisionJob → Bool)
    (hp : ∀ job, p job = true → job.state = .queued) : Waiting (c.jobs.rows.filter p) c where
  mem _ hjob := (List.mem_filter.mp hjob).1
  queued _ hjob := hp _ (List.mem_filter.mp hjob).2
  distinct := c.jobs.distinct.sublist (List.filter_sublist.map _)

theorem Waiting.perm {jobs jobs' : List ProvisionJob} {c : Catalog} (h : Waiting jobs c)
    (hperm : jobs'.Perm jobs) : Waiting jobs' c where
  mem job hjob := h.mem job (hperm.mem_iff.mp hjob)
  queued job hjob := h.queued job (hperm.mem_iff.mp hjob)
  distinct := (hperm.map _).nodup_iff.mpr h.distinct

/-- The only row of an environment that waits is its job. -/
theorem Waiting.eq_head {job row : ProvisionJob} {jobs : List ProvisionJob} {c : Catalog}
    (h : Waiting (job :: jobs) c) (hrow : row ∈ c.jobs.rows)
    (henvironment : row.environment = job.environment) : row = job :=
  c.jobs.eq_of_key hrow (h.mem job List.mem_cons_self) henvironment

/-- The loop cancels what it may not start and claims the first job it may. -/
theorem claimFirst_ensures (claim : String) (jobs : List ProvisionJob) {c : Catalog}
    (hc : Calmly t c) (hjobs : Waiting jobs c) :
    (claimFirst ctx claim jobs).Ensures c fun result c' => Calmly t c' ∧
      ∀ job', result = some job' → job' ∈ c'.jobs.rows ∧
        ∃ job ∈ jobs, job' = claimed claim job := by
  induction jobs generalizing c with
  | nil =>
      rw [claimFirst, ensures_pure]
      exact ⟨hc, fun _ h => by cases h⟩
  | cons job jobs ih =>
      have hqueued : job.state = .queued := hjobs.queued job List.mem_cons_self
      unfold claimFirst
      apply ensures_check
      intro allowed _
      rw [ensures_ite]
      constructor
      · intro _
        rw [ensures_bind, updateJob, ensures_write, ensures_bind, Access.record, ensures_write,
          ensures_pure]
        have hcalm : ∀ row ∈ c.jobs.rows, decide (row.environment = job.environment) = true →
            Calm row (claimed claim row) := by
          intro row hrow henvironment
          rw [hjobs.eq_head hrow (of_decide_eq_true henvironment)]
          exact calm_claim hqueued claim
        refine ⟨?_, ?_⟩
        · exact calmly_modify hc hcalm fun _ => rfl
        · intro job' hjob'
          obtain rfl := Option.some.inj hjob'
          refine ⟨?_, job, List.mem_cons_self, rfl⟩
          rw [Table.mem_modify]
          exact ⟨job, hjobs.mem job List.mem_cons_self, by simp⟩
      · intro _
        rw [ensures_bind]
        have hcalm : ∀ row ∈ c.jobs.rows, decide (row.environment = job.environment) = true →
            Calm row { row with state := .cancelled } := by
          intro row hrow henvironment
          rw [hjobs.eq_head hrow (of_decide_eq_true henvironment)]
          exact calm_cancel hqueued (.inr rfl)
        have hcancelled := calmly_modify hc hcalm fun _ => rfl
        rw [updateJob, ensures_write, ensures_bind, Access.record, ensures_write]
        refine (ih hcancelled (hjobs.tail rfl)).mono ?_
        rintro result c' ⟨hc', hresult⟩
        refine ⟨hc', fun job' hjob' => ?_⟩
        obtain ⟨hmem, old, hold, heq⟩ := hresult job' hjob'
        exact ⟨hmem, old, List.mem_cons_of_mem _ hold, heq⟩

theorem claimProvision_ensures (claim : String) {c : Catalog} (hc : Calmly t c) :
    (claimProvision ctx claim).Ensures c fun result c' => Calmly t c' ∧
      ∀ job', result = some job' → job' ∈ c'.jobs.rows ∧
        ∃ job ∈ c.jobs.rows, job.state = .queued ∧ job' = claimed claim job := by
  unfold claimProvision
  rw [ensures_transaction, ensures_bind, ensures_read]
  have hwaiting := waiting_filter c (fun job => job.state = .queued)
    fun _ h => of_decide_eq_true h
  have hsorted := hwaiting.perm
    (List.mergeSort_perm _ fun a b => decide (a.environment ≤ b.environment))
  refine (claimFirst_ensures ctx t claim _ hc hsorted).mono ?_
  rintro result c' ⟨hc', hresult⟩
  refine ⟨hc', fun job' hjob' => ?_⟩
  obtain ⟨hmem, job, hjob, heq⟩ := hresult job' hjob'
  exact ⟨hmem, job, hsorted.mem job hjob, hsorted.queued job hjob, heq⟩

/-- A running job as the answer of its worker leaves it. -/
def settled (success : Bool) (failure : ProvisionFailure) (job : ProvisionJob) : ProvisionJob :=
  { job with
    state := if success then .succeeded else .failed
    failure := if success then none else some failure
    claim := none }

/-- The jobs after one of an environment changed. -/
def changed (c : Catalog) (environment : String) (f : ProvisionJob → ProvisionJob) :
    List ProvisionJob :=
  c.jobs.rows.map fun job => if decide (job.environment = environment) = true then f job else job

/-- The jobs keep the rows while the rest of an operation runs. -/
abbrev HasJobs (rows : List ProvisionJob) (c : Catalog) : Prop := c.jobs.rows = rows

theorem hasJobs_of_leaves (rows : List ProvisionJob) {α : Type} (call : CatalogCall α)
    [Leaves Catalog.jobs call] : Keeps (HasJobs rows) call := by
  apply keeps_of_leaves (p := Catalog.jobs)
  intro c c' hsame hc
  show c'.jobs.rows = rows
  rw [hsame]
  exact hc

theorem finishProvision_ensures (environment claim : String) (success : Bool)
    (failure : ProvisionFailure) (refusalReason : Option String) (c : Catalog) :
    (finishProvision ctx environment claim success failure refusalReason).Ensures c fun _ c' =>
      c.runs environment claim = true ∧
        HasJobs (changed c environment (settled success failure)) c' := by
  unfold finishProvision
  apply ensures_check
  intro _ _
  rw [ensures_transaction, ensures_bind, ensures_read, ensures_bind, ensures_require]
  intro hruns
  rw [ensures_bind, updateJob, ensures_write]
  refine Ensures.of_keeps (I := HasJobs (changed c environment (settled success failure))) ?_ rfl
    fun _ c' hc' => ⟨hruns, hc'⟩
  apply (hasJobs_of_leaves _ _).bind
  intro _
  split
  · exact hasJobs_of_leaves _ _
  · apply (hasJobs_of_leaves _ _).bind
    intro c'
    split <;> exact hasJobs_of_leaves _ _

theorem calmly_changed {c c' : Catalog} {environment : String}
    {f : ProvisionJob → ProvisionJob} (hc : Calmly t c)
    (hc' : HasJobs (changed c environment f) c')
    (h : ∀ job ∈ c.jobs.rows, job.environment = environment → Calm job (f job))
    (hf : ∀ job, (f job).environment = job.environment) : Calmly t c' := by
  apply calmly_trans hc
  apply Table.evolves_of_rows hc'
  intro job hjob
  by_cases henvironment : job.environment = environment
  · simp only [henvironment, decide_true, if_true]
    exact ⟨(hf job).trans henvironment, h job hjob henvironment⟩
  · simp only [henvironment, decide_false]
    exact ⟨rfl, Calm.refl job⟩

/-- The job of an environment is the only row of the environment. -/
theorem eq_job {c : Catalog} {environment : String} {job row : ProvisionJob}
    (hjob : c.job environment = some job) (hrow : row ∈ c.jobs.rows)
    (henvironment : row.environment = environment) : row = job := by
  obtain ⟨hmem, hkey⟩ := Table.get_eq_some.mp hjob
  exact c.jobs.eq_of_key hrow hmem (henvironment.trans hkey.symm)

theorem runs_iff {c : Catalog} {environment claim : String} :
    c.runs environment claim = true ↔ ∃ job, c.job environment = some job ∧
      job.state = .running ∧ job.claim = some claim := by
  rw [Catalog.runs]
  cases c.job environment with
  | none => simp
  | some job => simp

theorem settled_calm {job : ProvisionJob} (h : job.state = .running) (success : Bool)
    (failure : ProvisionFailure) : Calm job (settled success failure job) := by
  apply calm_stop h
  cases success <;> simp

theorem calmly_finishProvision (environment claim : String) (success : Bool)
    (failure : ProvisionFailure) (refusalReason : Option String) :
    Keeps (Calmly t) (finishProvision ctx environment claim success failure refusalReason) := by
  intro c hc
  refine (finishProvision_ensures ctx environment claim success failure refusalReason c).mono ?_
  rintro _ c' ⟨hruns, hjobs⟩
  obtain ⟨job, hjob, hrunning, -⟩ := runs_iff.mp hruns
  refine calmly_changed t hc hjobs ?_ fun _ => rfl
  intro row hrow henvironment
  rw [eq_job hjob hrow henvironment]
  exact settled_calm hrunning success failure

/-! ### Receipts and recovery decisions -/

/-- The outcome is recorded and its attempt belongs to the job of the runtime. -/
def Receipted (row : EffectResult) (c : Catalog) : Prop :=
  row ∈ c.effectResults.rows ∧ ∃ job ∈ c.jobs.rows, job.environment = row.environment ∧
    job.runtime = row.runtime ∧ row.attempt ≤ job.attempt

/-- The job runs the attempt under the claim. -/
def Runs (c : Catalog) (environment runtime claim : String) (attempt : ℤ) : Prop :=
  ∃ job, c.job environment = some job ∧ job.runtime = runtime ∧ job.attempt = attempt ∧
    job.state = .running ∧ job.claim = some claim

/-- A receipt settles the attempt that runs. -/
structure Receives (row : EffectResult) (c c' : Catalog) : Prop where
  runs : Runs c row.environment row.runtime row.claim row.attempt
  jobs : HasJobs (changed c row.environment (settled (row.exitCode = 0) .capacityExceeded)) c'
  results : c'.effectResults.rows = c.effectResults.rows ++ [row]
  decisions : c'.recoveryDecisions = c.recoveryDecisions

theorem applyProvisionReceipt_ensures (row : EffectResult) (refusalReason : Option String)
    (c : Catalog) :
    (applyProvisionReceipt ctx row.environment row.runtime row.claim row.attempt row.exitCode
      refusalReason).Ensures c fun _ c' =>
        (c' = c ∧ (c.job row.environment = none ∨ Receipted row c)) ∨ Receives row c c' := by
  unfold applyProvisionReceipt
  apply ensures_check
  intro _ _
  rw [ensures_transaction, ensures_bind, ensures_read]
  simp only [id]
  cases hjob : c.job row.environment with
  | none =>
      simp only [ensures_require]
      intro _
      exact .inl ⟨trivial, .inl trivial⟩
  | some job =>
      simp only [ensures_bind, ensures_require]
      rintro ⟨hruntime, hattempt⟩
      obtain ⟨hmem, henvironment⟩ := Table.get_eq_some.mp hjob
      cases hprior : c.effectResults.get (row.environment, row.attempt) with
      | some prior =>
          simp only [ensures_require]
          rintro ⟨hsameRuntime, hsameClaim, hsameExit⟩
          obtain ⟨hold, hkey⟩ := Table.get_eq_some.mp hprior
          have hsame : prior = row := by
            have hkeyEnvironment : prior.environment = row.environment := congrArg Prod.fst hkey
            have hkeyAttempt : prior.attempt = row.attempt := congrArg Prod.snd hkey
            cases prior
            cases row
            simp_all
          rw [hsame] at hold
          exact .inl ⟨trivial, .inr ⟨hold, job, hmem, henvironment, hruntime, hattempt⟩⟩
      | none =>
          simp only [ensures_bind, ensures_require, ensures_read, ensures_found, ensures_write]
          rintro ⟨hsameAttempt, hrunning, hclaim⟩ _ c₁ hfinish results hinsert
          have hspec := finishProvision_ensures ctx row.environment row.claim _ _ _ c _ c₁ hfinish
          have hreceipts : receipts c₁ = receipts c := Leaves.of_returns (p := receipts) hfinish
          have hresults : c₁.effectResults = c.effectResults := congrArg Prod.fst hreceipts
          have hdecisions : c₁.recoveryDecisions = c.recoveryDecisions :=
            congrArg Prod.snd hreceipts
          right
          refine ⟨⟨job, hjob, hruntime, hsameAttempt, hrunning, hclaim⟩, hspec.2, ?_, hdecisions⟩
          rw [← hresults]
          exact (Table.insert_eq_some hinsert).1

/-- A job that stopped without an answer, after the decision on it. -/
def recovered (choice : RecoveryChoice) (job : ProvisionJob) : ProvisionJob :=
  { job with
    state := if choice = .retry then .queued else .failed
    claim := none
    failure := if choice = .retry then none else some .runtimeFailed }

/-- The decision is recorded and its attempt belongs to the job of the runtime. -/
def Decided (row : RecoveryDecision) (c : Catalog) : Prop :=
  row ∈ c.recoveryDecisions.rows ∧ ∃ job ∈ c.jobs.rows, job.environment = row.environment ∧
    job.runtime = row.runtime ∧ row.attempt ≤ job.attempt

/-- A decision ends the attempt that runs. -/
structure Decides (row : RecoveryDecision) (c c' : Catalog) : Prop where
  runs : Runs c row.environment row.runtime row.claim row.attempt
  jobs : HasJobs (changed c row.environment (recovered row.decision)) c'
  decisions : c'.recoveryDecisions.rows = c.recoveryDecisions.rows ++ [row]
  results : c'.effectResults = c.effectResults

theorem recoverPreflightReceipt_ensures (environment runtime claim : String) (attempt : ℤ)
    (token : String) (c : Catalog) :
    (recoverPreflightReceipt ctx environment runtime claim attempt token).Ensures c
      fun outcome c' => (c' = c ∧ c.job environment = none) ∨
        ∃ choice : RecoveryChoice, outcome = choice.outcome ∧
          ((c' = c ∧ Decided ⟨environment, attempt, runtime, claim, token, choice⟩ c) ∨
            Decides ⟨environment, attempt, runtime, claim, token, choice⟩ c c') := by
  unfold recoverPreflightReceipt
  rw [ensures_transaction, ensures_bind, ensures_read]
  simp only [id]
  cases hjob : c.job environment with
  | none =>
      simp only [ensures_bind, ensures_found, ensures_pure]
      intro _ _ _ _
      exact .inl ⟨trivial, trivial⟩
  | some job =>
      simp only [ensures_bind, ensures_require]
      rintro ⟨hruntime, hattempt⟩
      obtain ⟨hmem, henvironment⟩ := Table.get_eq_some.mp hjob
      cases hprior : c.recoveryDecisions.get (environment, attempt) with
      | some prior =>
          simp only [ensures_bind, ensures_require, ensures_pure]
          rintro ⟨hsameRuntime, hsameClaim, hsameToken⟩
          obtain ⟨hold, hkey⟩ := Table.get_eq_some.mp hprior
          have hsame : prior = ⟨environment, attempt, runtime, claim, token, prior.decision⟩ := by
            have hkeyEnvironment : prior.environment = environment := congrArg Prod.fst hkey
            have hkeyAttempt : prior.attempt = attempt := congrArg Prod.snd hkey
            cases prior
            simp_all
          refine .inr ⟨prior.decision, rfl, .inl ⟨trivial, ?_, job, hmem, henvironment,
            hruntime, hattempt⟩⟩
          rw [← hsame]
          exact hold
      | none =>
          simp only [ensures_bind, ensures_require, updateJob, ensures_read, ensures_found,
            ensures_write]
          rintro ⟨hrunning, hsameAttempt, hclaim⟩ decisions hinsert
          intro _ c₁ hrecord _ c₂ hnotify
          have hsame₁ : runtimes c₁ = _ := Leaves.of_returns (p := runtimes) hrecord
          have hsame₂ : runtimes c₂ = runtimes c₁ := Leaves.of_returns (p := runtimes) hnotify
          rw [hsame₁] at hsame₂
          rw [ensures_pure]
          refine .inr ⟨c.recoveryChoice environment, rfl, .inr ?_⟩
          refine ⟨⟨job, hjob, hruntime, hsameAttempt, hrunning, hclaim⟩, ?_, ?_, ?_⟩
          · exact congrArg (fun part => part.1.rows) hsame₂
          · rw [show c₂.recoveryDecisions = decisions from congrArg (fun part => part.2.2.2) hsame₂]
            exact (Table.insert_eq_some hinsert).1
          · exact congrArg (fun part => part.2.2.1) hsame₂

theorem calmly_receives {row : EffectResult} {c c' : Catalog} (hc : Calmly t c)
    (h : Receives row c c') : Calmly t c' := by
  obtain ⟨job, hjob, -, -, hrunning, -⟩ := h.runs
  refine calmly_changed t hc h.jobs ?_ fun _ => rfl
  intro other hother henvironment
  rw [eq_job hjob hother henvironment]
  exact settled_calm hrunning _ _

theorem recovered_calm {job : ProvisionJob} (h : job.state = .running) (choice : RecoveryChoice) :
    Calm job (recovered choice job) := by
  apply calm_stop h
  cases choice <;> simp

theorem calmly_decides {row : RecoveryDecision} {c c' : Catalog} (hc : Calmly t c)
    (h : Decides row c c') : Calmly t c' := by
  obtain ⟨job, hjob, -, -, hrunning, -⟩ := h.runs
  refine calmly_changed t hc h.jobs ?_ fun _ => rfl
  intro other hother henvironment
  rw [eq_job hjob hother henvironment]
  exact recovered_calm hrunning _

theorem calmly_applyProvisionReceipt (environment runtime claim : String) (attempt exitCode : ℤ)
    (refusalReason : Option String) :
    Keeps (Calmly t)
      (applyProvisionReceipt ctx environment runtime claim attempt exitCode refusalReason) := by
  intro c hc
  refine (applyProvisionReceipt_ensures ctx ⟨environment, attempt, runtime, claim, exitCode⟩
    refusalReason c).mono ?_
  rintro _ c' (⟨rfl, -⟩ | hreceives)
  · exact hc
  · exact calmly_receives t hc hreceives

theorem calmly_recoverPreflightReceipt (environment runtime claim : String) (attempt : ℤ)
    (token : String) :
    Keeps (Calmly t)
      (recoverPreflightReceipt ctx environment runtime claim attempt token) := by
  intro c hc
  refine (recoverPreflightReceipt_ensures ctx environment runtime claim attempt token c).mono ?_
  rintro _ c' (⟨rfl, -⟩ | ⟨choice, -, ⟨rfl, -⟩ | hdecides⟩)
  · exact hc
  · exact hc
  · exact calmly_decides t hc hdecides

/-! ### Transfer -/

/-- The loop over the queued jobs cancels them. -/
theorem calmly_cancelQueued (jobs : List ProvisionJob) {c : Catalog} (hc : Calmly t c)
    (hjobs : Waiting jobs c) :
    (Call.forEach jobs (cancelQueued ctx)).Ensures c fun _ c' => Calmly t c' := by
  induction jobs generalizing c with
  | nil =>
      rw [Call.forEach, ensures_pure]
      exact hc
  | cons job jobs ih =>
      have hqueued : job.state = .queued := hjobs.queued job List.mem_cons_self
      have hcalm : ∀ row ∈ c.jobs.rows, decide (row.environment = job.environment) = true →
          Calm row { row with state := .cancelled, claim := none } := by
        intro row hrow henvironment
        rw [hjobs.eq_head hrow (of_decide_eq_true henvironment)]
        exact calm_cancel hqueued (.inl rfl)
      rw [Call.forEach, ensures_bind, cancelQueued, ensures_bind, updateJob, ensures_write,
        Access.record, ensures_write]
      exact ih (calmly_modify hc hcalm fun _ => rfl) (hjobs.tail rfl)

theorem calmly_transferProject (actor project destination : String)
    (revokeRuntime : String → Except String Unit) :
    Keeps (Calmly t) (transferProject ctx actor project destination revokeRuntime) := by
  intro c hc
  unfold transferProject
  rw [ensures_transaction]
  apply ensures_check
  intro source _
  apply ensures_check
  intro _ _
  rw [ensures_bind, ensures_read, ensures_bind, ensures_require]
  intro _
  rw [ensures_ite]
  constructor
  · intro _
    rw [ensures_pure]
    exact hc
  · intro _
    apply ensures_check
    intro _ _
    apply ensures_check
    intro _ _
    rw [ensures_bind, ensures_write, ensures_bind, Access.record, ensures_write, ensures_bind]
    have hwaiting := waiting_filter c
      (fun job => c.inProject project job.environment && job.state = .queued)
      fun job h => by simpa using (Bool.and_eq_true_iff.mp h).2
    refine Ensures.mono (calmly_cancelQueued ctx t _ hc ?_) ?_
    · exact ⟨hwaiting.mem, hwaiting.queued, hwaiting.distinct⟩
    intro _ c₁ hc₁
    rw [ensures_bind]
    refine (updateJob_calm hc₁ fun job _ _ => calm_organization destination).mono ?_
    intro _ c₂ hc₂
    exact calmly_of_leaves t _ c₂ hc₂

/-! ### Slots -/

/-- The job of a new environment. -/
structure New (job : ProvisionJob) : Prop where
  state : job.state = .queued
  attempt : job.attempt = 0
  claim : job.claim = none

/-- A slot is taken where there is room: by a new job or by one that is tried again. -/
structure Admits (c c' : Catalog) : Prop where
  room : c.held < environmentLimit
  jobs : (∃ job, New job ∧ c'.jobs.rows = c.jobs.rows ++ [job] ∧
      ∀ old ∈ c.jobs.rows, old.runtime ≠ job.runtime) ∨
    ∃ environment f, HasJobs (changed c environment f) c' ∧
      ∀ job, Later job (f job) ∧ (f job).environment = job.environment

theorem insertJob_ensures (environment runtime actor organization : String) (c : Catalog) :
    (insertJob environment runtime actor organization).Ensures c fun _ c' =>
      ∃ job, New job ∧ c'.jobs.rows = c.jobs.rows ++ [job] ∧
        ∀ old ∈ c.jobs.rows, old.runtime ≠ job.runtime := by
  unfold insertJob
  simp only [ensures_bind, ensures_read, ensures_require, ensures_found, ensures_write, id]
  intro _ hruntime jobs hinsert
  refine ⟨⟨environment, runtime, actor, organization, .queued, 0, none, none⟩, ⟨rfl, rfl, rfl⟩,
    (Table.insert_eq_some hinsert).1, ?_⟩
  simpa using hruntime

/-- The catalog has the jobs of `c` and the lifecycle that decides which of them count. -/
abbrev SameSlots (c c' : Catalog) : Prop := c'.jobs = c.jobs ∧ c'.lifecycle = c.lifecycle

theorem sameSlots_of_leaves (c : Catalog) {α : Type} (call : CatalogCall α)
    [Leaves runtimes call] : Keeps (SameSlots c) call := by
  apply keeps_of_leaves (p := runtimes)
  intro c₁ c₂ hsame hc₁
  have hjobs : c₂.jobs = c₁.jobs := congrArg Prod.fst hsame
  have hlifecycle : c₂.lifecycle = c₁.lifecycle := congrArg (fun part => part.2.1.1) hsame
  exact ⟨hjobs.trans hc₁.1, hlifecycle.trans hc₁.2⟩

theorem held_congr {c c' : Catalog} (h : SameSlots c c') : c'.held = c.held := by
  simp only [Catalog.held, Catalog.purged, h.1, h.2]

theorem Admits.of_same {c c₁ c' : Catalog} (h : SameSlots c c₁) (hadmits : Admits c₁ c') :
    Admits c c' where
  room := by
    have hroom := hadmits.room
    rwa [held_congr h] at hroom
  jobs := by
    have hjobs := hadmits.jobs
    simpa only [h.1, HasJobs, changed] using hjobs

theorem createEnvironment_admits (actor project name id runtime : String) (c : Catalog) :
    (createEnvironment ctx actor project name id runtime).Ensures c fun _ c' => Admits c c' := by
  unfold createEnvironment
  apply ensures_check
  intro title _
  rw [ensures_transaction]
  apply ensures_check
  intro parent _
  apply ensures_check
  intro _ _
  apply ensures_check
  intro _ _
  apply ensures_check
  intro _ hcapacity
  have hroom : c.held < environmentLimit := by
    simp only [requireEnvironmentCapacity, returns_bind, returns_read, returns_require] at hcapacity
    obtain ⟨_, _, ⟨rfl, rfl⟩, hroom, -⟩ := hcapacity
    exact hroom
  rw [ensures_bind]
  refine Ensures.of_keeps (sameSlots_of_leaves c _) ⟨rfl, rfl⟩ fun _ c₁ hc₁ => ?_
  rw [ensures_bind]
  refine (insertJob_ensures id runtime actor parent.organization c₁).mono ?_
  rintro _ c₂ ⟨job, hnew, hrows, hfresh⟩
  refine Ensures.of_keeps (hasJobs_of_leaves _ _) hrows fun _ c' hc' => ?_
  refine ⟨hroom, .inl ⟨job, hnew, ?_, ?_⟩⟩
  · rw [← hc₁.1]
    exact hc'
  · rw [← hc₁.1]
    exact hfresh

theorem createProjectWithProduction_admits
    (actor organization name projectId environmentId runtime : String) (c : Catalog) :
    (createProjectWithProduction ctx actor organization name projectId environmentId
      runtime).Ensures c fun _ c' => Admits c c' := by
  unfold createProjectWithProduction
  rw [ensures_transaction, ensures_bind]
  refine Ensures.of_keeps (sameSlots_of_leaves c _) ⟨rfl, rfl⟩ fun id c₁ hc₁ => ?_
  rw [ensures_bind]
  refine (createEnvironment_admits ctx actor id "production" environmentId runtime c₁).mono ?_
  intro _ c' hadmits
  rw [ensures_pure]
  exact hadmits.of_same hc₁

theorem retryProvision_admits (actor environment : String) (c : Catalog) :
    (retryProvision ctx actor environment).Ensures c fun _ c' => Admits c c' := by
  unfold retryProvision
  rw [ensures_transaction]
  apply ensures_check
  intro parent _
  apply ensures_check
  intro _ hcapacity
  have hroom : c.held < environmentLimit := by
    simp only [requireEnvironmentCapacity, returns_bind, returns_read, returns_require] at hcapacity
    obtain ⟨_, _, ⟨rfl, rfl⟩, hroom, -⟩ := hcapacity
    exact hroom
  rw [ensures_bind, ensures_read, ensures_bind, ensures_require]
  intro _
  rw [ensures_bind, updateJob, ensures_write]
  refine Ensures.of_keeps (I := HasJobs (changed c environment fun job => { job with
      state := .queued, actor := actor, organization := parent.organization
      claim := none, failure := none })) ?_ rfl fun _ c' hc' => ⟨hroom, .inr ⟨_, _, hc', ?_⟩⟩
  · apply (hasJobs_of_leaves _ _).bind
    intro _
    apply (hasJobs_of_leaves _ _).bind
    intro c'
    split <;> exact hasJobs_of_leaves _ _
  · exact fun job => ⟨later_retry actor parent.organization, rfl⟩

theorem relinkEnvironment_admits (actor : String) (ownership : Ownership) (runtime : String)
    (c : Catalog) :
    (relinkEnvironment ctx actor ownership runtime).Ensures c fun _ c' =>
      SameSlots c c' ∨ Admits c c' := by
  unfold relinkEnvironment
  apply ensures_check
  intro _ _
  apply ensures_check
  intro _ _
  apply ensures_check
  intro organizationName _
  apply ensures_check
  intro projectName _
  apply ensures_check
  intro environmentName _
  rw [ensures_transaction]
  apply ensures_check
  intro operator _
  apply ensures_check
  intro _ _
  apply ensures_check
  intro _ _
  apply ensures_check
  intro _ _
  rw [ensures_bind]
  refine Ensures.of_keeps (sameSlots_of_leaves c _) ⟨rfl, rfl⟩ fun _ c₁ hc₁ => ?_
  rw [ensures_bind]
  refine Ensures.of_keeps (sameSlots_of_leaves c _) hc₁ fun _ c₂ hc₂ => ?_
  rw [ensures_bind, ensures_read]
  split
  · refine Ensures.of_keeps (sameSlots_of_leaves c _) hc₂ fun _ c' hc' => .inl hc'
  · apply ensures_check
    intro _ _
    apply ensures_check
    intro _ _
    apply ensures_check
    intro _ hcapacity
    have hroom : c₂.held < environmentLimit := by
      simp only [requireEnvironmentCapacity, returns_bind, returns_read, returns_require]
        at hcapacity
      obtain ⟨_, _, ⟨rfl, rfl⟩, hroom, -⟩ := hcapacity
      exact hroom
    rw [ensures_bind]
    refine Ensures.of_keeps (sameSlots_of_leaves c _) hc₂ fun _ c₃ hc₃ => ?_
    rw [ensures_bind]
    refine (insertJob_ensures _ runtime actor _ c₃).mono ?_
    rintro _ c₄ ⟨job, hnew, hrows, hfresh⟩
    refine Ensures.of_keeps (hasJobs_of_leaves _ _) hrows fun _ c' hc' => .inr ?_
    refine ⟨?_, .inl ⟨job, hnew, ?_, ?_⟩⟩
    · rwa [held_congr hc₂] at hroom
    · rw [← hc₃.1]
      exact hc'
    · rw [← hc₃.1]
      exact hfresh

/-- What an operation may do to the jobs. -/
theorem perform_jobs (op : Operation) (c : Catalog) :
    (perform ctx op).Ensures c fun _ c' => Calmly c.jobs c' ∨ Admits c c' := by
  have hcalm : ∀ call : CatalogCall Unit, Keeps (Calmly c.jobs) call →
      call.Ensures c fun _ c' => Calmly c.jobs c' ∨ Admits c c' :=
    fun call hkeeps => .of_keeps hkeeps (calmly_refl c) fun _ _ h => .inl h
  cases op with
  | createEnvironment actor project name id runtime =>
      exact ((createEnvironment_admits ctx actor project name id runtime c).mono
        fun _ _ h => .inr h).discard
  | createProjectWithProduction actor organization name projectId environmentId runtime =>
      exact ((createProjectWithProduction_admits ctx actor organization name projectId
        environmentId runtime c).mono fun _ _ h => .inr h).discard
  | retryProvision actor environment =>
      exact (retryProvision_admits ctx actor environment c).mono fun _ _ h => .inr h
  | relinkEnvironment actor ownership runtime =>
      refine ((relinkEnvironment_admits ctx actor ownership runtime c).mono ?_).discard
      rintro _ c' (hsame | hadmit)
      · left
        show Table.Evolves Calm (fun _ => False) c.jobs c'.jobs
        rw [hsame.1]
        exact calmly_refl c
      · exact .inr hadmit
  | transferProject actor project destination revokeRuntime =>
      exact hcalm _ (calmly_transferProject ctx c.jobs actor project destination
        revokeRuntime).discard
  | recoverProvisioning => exact hcalm _ (calmly_recoverProvisioning c.jobs)
  | claimProvision claim =>
      refine hcalm _ (Keeps.discard fun c₁ hc₁ => ?_)
      exact (claimProvision_ensures ctx c.jobs claim hc₁).mono fun _ _ h => h.1
  | finishProvision environment claim success failure refusalReason =>
      exact hcalm _ (calmly_finishProvision ctx c.jobs environment claim success failure
        refusalReason)
  | applyProvisionReceipt environment runtime claim attempt exitCode refusalReason =>
      exact hcalm _ (calmly_applyProvisionReceipt ctx c.jobs environment runtime claim attempt
        exitCode refusalReason)
  | recoverPreflightReceipt environment runtime claim attempt token =>
      exact hcalm _ (calmly_recoverPreflightReceipt ctx c.jobs environment runtime claim attempt
        token).discard
  | _ =>
      -- Every other operation leaves the jobs alone.
      unfold perform
      exact hcalm _ (calmly_of_leaves c.jobs _)

end

/-! ## What became of a job, and where it comes from -/

section

variable {c c' : Catalog} (h : Calmly c.jobs c' ∨ Admits c c')

include h

theorem job_persists {job : ProvisionJob} (hjob : job ∈ c.jobs.rows) : ∃ job' ∈ c'.jobs.rows,
    job'.environment = job.environment ∧ Later job job' := by
  rcases h with hcalm | ⟨_, ⟨new, _, hrows, _⟩ | ⟨environment, f, hrows, hf⟩⟩
  · obtain ⟨job', hjob', hkey, hstep⟩ := hcalm.persists hjob
    exact ⟨job', hjob', hkey, hstep.toLater⟩
  · refine ⟨job, ?_, rfl, Later.refl job⟩
    rw [hrows]
    exact List.mem_append_left _ hjob
  · refine ⟨if decide (job.environment = environment) = true then f job else job, ?_, ?_, ?_⟩
    · rw [show c'.jobs.rows = _ from hrows]
      exact List.mem_map_of_mem hjob
    · split_ifs
      · exact (hf job).2
      · rfl
    · split_ifs
      · exact (hf job).1
      · exact Later.refl job

theorem job_origin {job' : ProvisionJob} (hjob' : job' ∈ c'.jobs.rows) :
    (∃ job ∈ c.jobs.rows, job'.environment = job.environment ∧ Later job job') ∨ New job' := by
  rcases h with hcalm | ⟨_, ⟨new, hnew, hrows, _⟩ | ⟨environment, f, hrows, hf⟩⟩
  · rcases hcalm.mem hjob' with ⟨job, hjob, hkey, hstep⟩ | hnone
    · exact .inl ⟨job, hjob, hkey, hstep.toLater⟩
    · exact absurd hnone not_false
  · rw [hrows, List.mem_append, List.mem_singleton] at hjob'
    rcases hjob' with hold | rfl
    · exact .inl ⟨job', hold, rfl, Later.refl job'⟩
    · exact .inr hnew
  · rw [show c'.jobs.rows = _ from hrows] at hjob'
    obtain ⟨job, hjob, rfl⟩ := List.mem_map.mp hjob'
    left
    refine ⟨job, hjob, ?_⟩
    split_ifs
    · exact ⟨(hf job).2, (hf job).1⟩
    · exact ⟨rfl, Later.refl job⟩

end

end Sbarbase.Control.Proofs.Jobs
