import Sbarbase.Control.Proofs.Jobs
import Sbarbase.Control.Proofs.Members
/-!
# Provisioning attempts

A claim starts the next attempt of a job. An attempt that stopped stays past,
whatever messages arrive afterwards, so it has one outcome: the receipts and the
recovery decisions that are recorded are all of past attempts.
-/

set_option synthInstance.maxSize 5000

namespace Sbarbase.Control.Proofs.Attempts

open Lib Lib.Call Control Control.Proofs.Frames Control.Proofs.Jobs Control.Proofs.Members

/-! ## Every step -/

section

variable (c : Catalog) (event : Context × Operation)

/-- What a call that returned or threw did to the jobs. -/
theorem step_jobs : Calmly c.jobs (catalogMachine.step c event) ∨
    Admits c (catalogMachine.step c event) := by
  rcases (atomic_perform event.1 event.2).after_cases c with hsame | ⟨u, hr⟩
  · left
    show Table.Evolves Calm (fun _ => False) c.jobs (after _ c).jobs
    rw [hsame]
    exact calmly_refl c
  · exact perform_jobs event.1 event.2 c u _ hr

/-- Every job is still there, later or the same. -/
def JobsLater (c c' : Catalog) : Prop :=
  ∀ job ∈ c.jobs.rows, ∃ job' ∈ c'.jobs.rows, job'.environment = job.environment ∧ Later job job'

theorem run_jobsLater (events : List (Context × Operation)) :
    JobsLater c (catalogMachine.runFrom c events) := by
  apply catalogMachine.runFrom_rel (R := JobsLater)
  · exact fun s job hjob => ⟨job, hjob, rfl, Later.refl job⟩
  · intro s t u hst htu job hjob
    obtain ⟨job', hjob', hkey, hlater⟩ := hst job hjob
    obtain ⟨job'', hjob'', hkey', hlater'⟩ := htu job' hjob'
    exact ⟨job'', hjob'', hkey'.trans hkey, hlater.trans hlater'⟩
  · exact fun s e job hjob => job_persists (step_jobs s e) hjob

/-- The jobs of one environment across a run are one job. -/
theorem later_of_run {c : Catalog} {events : List (Context × Operation)} {job job' : ProvisionJob}
    (hjob : job ∈ c.jobs.rows) (hjob' : job' ∈ (catalogMachine.runFrom c events).jobs.rows)
    (henvironment : job'.environment = job.environment) : Later job job' := by
  obtain ⟨other, hother, hkey, hlater⟩ := run_jobsLater c events job hjob
  have hsame : job' = other :=
    (catalogMachine.runFrom c events).jobs.eq_of_key hjob' hother (henvironment.trans hkey.symm)
  rw [hsame]
  exact hlater

end

/-! ## Claims -/

theorem liveClaim_run (events : List (Context × Operation)) :
    ∀ job ∈ (catalogMachine.run events).jobs.rows, LiveClaim job := by
  apply catalogMachine.run_invariant (I := fun c => ∀ job ∈ c.jobs.rows, LiveClaim job)
  · exact fun job hjob => absurd hjob List.not_mem_nil
  · intro c event hc job' hjob'
    rcases job_origin (step_jobs c event) hjob' with ⟨job, hjob, _, hlater⟩ | hnew
    · exact hlater.live (hc job hjob)
    · simp [LiveClaim, hnew.claim, hnew.state]

/-- A claim starts the next attempt of a job, which is there afterwards. -/
theorem claim_attempt (ctx : Context) (claim : String) {c c' : Catalog} {job' : ProvisionJob}
    (h : (claimProvision ctx claim).Returns c (some job') c') :
    job' ∈ c'.jobs.rows ∧ ∃ job ∈ c.jobs.rows, job.environment = job'.environment ∧
      job'.attempt = job.attempt + 1 := by
  obtain ⟨_, hresult⟩ := claimProvision_ensures ctx c.jobs claim (calmly_refl c) _ _ h
  obtain ⟨hmem, job, hjob, _, rfl⟩ := hresult job' rfl
  exact ⟨hmem, job, hjob, rfl, rfl⟩

theorem step_claim {ctx : Context} {claim : String} {c c' : Catalog} {result : Option ProvisionJob}
    (h : (claimProvision ctx claim).Returns c result c') :
    catalogMachine.step c (ctx, .claimProvision claim) = c' := by
  show after (Call.discard (claimProvision ctx claim)) c = c'
  apply Returns.after_eq (a := ())
  exact returns_bind.mpr ⟨result, c', h, returns_pure.mpr ⟨rfl, rfl⟩⟩

/-- Of two claims of one environment the later has the higher attempt. -/
theorem claims_rise {ctx ctx' : Context} {claim claim' : String} {c c₁ c₂ : Catalog}
    {events : List (Context × Operation)} {job job' : ProvisionJob}
    (h : (claimProvision ctx claim).Returns c (some job) c₁)
    (h' : (claimProvision ctx' claim').Returns (catalogMachine.runFrom c₁ events) (some job') c₂)
    (henvironment : job'.environment = job.environment) : job.attempt < job'.attempt := by
  obtain ⟨hjob, _⟩ := claim_attempt ctx claim h
  obtain ⟨_, old, hold, hkey, hattempt⟩ := claim_attempt ctx' claim' h'
  have hlater := later_of_run hjob hold (hkey.trans henvironment)
  have hle := hlater.attempt
  omega

/-! ## Outcomes -/

/-- The job of the environment runs the attempt. -/
def Running (c : Catalog) (environment : String) (attempt : ℤ) : Prop :=
  ∃ job ∈ c.jobs.rows, job.environment = environment ∧ job.attempt = attempt ∧
    job.state = .running

/-- The attempt of the environment is over. -/
def Over (c : Catalog) (environment : String) (attempt : ℤ) : Prop :=
  ∃ job ∈ c.jobs.rows, job.environment = environment ∧ Past attempt job

theorem not_running_of_over {c : Catalog} {environment : String} {attempt : ℤ}
    (h : Over c environment attempt) : ¬ Running c environment attempt := by
  rintro ⟨job, hjob, henvironment, hattempt, hrunning⟩
  obtain ⟨other, hother, hkey, hpast⟩ := h
  rw [c.jobs.eq_of_key hother hjob (hkey.trans henvironment.symm)] at hpast
  rcases hpast with hlt | ⟨_, hstopped⟩
  · omega
  · exact hstopped hrunning

theorem over_of_later {c c' : Catalog} (h : JobsLater c c') {environment : String} {attempt : ℤ}
    (hover : Over c environment attempt) : Over c' environment attempt := by
  obtain ⟨job, hjob, henvironment, hpast⟩ := hover
  obtain ⟨job', hjob', hkey, hlater⟩ := h job hjob
  exact ⟨job', hjob', hkey.trans henvironment, hpast.later hlater⟩

/-- A running attempt that no longer runs is over. -/
theorem over_of_stopped {c c' : Catalog} (h : JobsLater c c') {environment : String}
    {attempt : ℤ} (hrunning : Running c environment attempt)
    (hstopped : ¬ Running c' environment attempt) : Over c' environment attempt := by
  obtain ⟨job, hjob, henvironment, hattempt, _⟩ := hrunning
  obtain ⟨job', hjob', hkey, hlater⟩ := h job hjob
  have hle := hlater.attempt
  refine ⟨job', hjob', hkey.trans henvironment, ?_⟩
  by_cases hsame : job'.attempt = attempt
  · right
    exact ⟨hsame, fun hruns => hstopped ⟨job', hjob', hkey.trans henvironment, hsame, hruns⟩⟩
  · left
    omega

/-- The step ends the attempt, whatever the outcome. -/
def Ends (c : Catalog) (event : Context × Operation) (environment : String) (attempt : ℤ) : Prop :=
  Running c environment attempt ∧ ¬ Running (catalogMachine.step c event) environment attempt

theorem ends_once {c : Catalog} {event event' : Context × Operation} {environment : String}
    {attempt : ℤ} (h : Ends c event environment attempt) (events : List (Context × Operation)) :
    ¬ Ends (catalogMachine.runFrom (catalogMachine.step c event) events) event' environment
      attempt := by
  rintro ⟨hrunning, _⟩
  have hstep : JobsLater c (catalogMachine.step c event) := run_jobsLater c [event]
  have hover := over_of_stopped hstep h.1 h.2
  exact not_running_of_over (over_of_later (run_jobsLater _ events) hover) hrunning

/-! ## Recorded outcomes -/

/-- What an operation may do to the recorded outcomes. -/
theorem perform_receipts (ctx : Context) (op : Operation) (c : Catalog) :
    (perform ctx op).Ensures c fun _ c' =>
      receipts c' = receipts c ∨ (∃ row, Receives row c c') ∨ ∃ row, Decides row c c' := by
  cases op with
  | applyProvisionReceipt environment runtime claim attempt exitCode refusalReason =>
      refine (applyProvisionReceipt_ensures ctx ⟨environment, attempt, runtime, claim, exitCode⟩
        refusalReason c).mono ?_
      intro _ c' h
      rcases h with ⟨hsame, _⟩ | hreceives
      · exact .inl (by rw [hsame])
      · exact .inr (.inl ⟨_, hreceives⟩)
  | recoverPreflightReceipt environment runtime claim attempt token =>
      refine Ensures.discard ((recoverPreflightReceipt_ensures ctx environment runtime claim
        attempt token c).mono ?_)
      intro _ c' h
      rcases h with ⟨hsame, _⟩ | ⟨choice, _, ⟨hsame, _⟩ | hdecides⟩
      · exact .inl (by rw [hsame])
      · exact .inl (by rw [hsame])
      · exact .inr (.inr ⟨_, hdecides⟩)
  | _ =>
      unfold perform
      exact fun _ c' hr => .inl (Leaves.of_returns (p := receipts) hr)

/-- Every recorded outcome is of an attempt that is over, and of another attempt
than every recorded decision. -/
structure Recorded (c : Catalog) : Prop where
  results : ∀ row ∈ c.effectResults.rows, Over c row.environment row.attempt
  decisions : ∀ row ∈ c.recoveryDecisions.rows, Over c row.environment row.attempt
  apart : ∀ row ∈ c.effectResults.rows, ∀ decision ∈ c.recoveryDecisions.rows,
    row.key ≠ decision.key

theorem running_of_runs {c : Catalog} {environment runtime claim : String} {attempt : ℤ}
    (h : Runs c environment runtime claim attempt) : Running c environment attempt := by
  obtain ⟨job, hjob, _, hattempt, hrunning, _⟩ := h
  obtain ⟨hmem, henvironment⟩ := Table.get_eq_some.mp hjob
  exact ⟨job, hmem, henvironment, hattempt, hrunning⟩

/-- The environment's job is not running after its row was changed to stop. -/
theorem over_changed {c c' : Catalog} {environment runtime claim : String} {attempt : ℤ}
    (h : Runs c environment runtime claim attempt) {f : ProvisionJob → ProvisionJob}
    (hc' : HasJobs (changed c environment f) c')
    (hf : ∀ job, (f job).environment = job.environment ∧ (f job).attempt = job.attempt ∧
      (f job).state ≠ .running) : Over c' environment attempt := by
  obtain ⟨job, hjob, _, hattempt, _, _⟩ := h
  obtain ⟨hmem, henvironment⟩ := Table.get_eq_some.mp hjob
  obtain ⟨hkey, hsame, hstopped⟩ := hf job
  refine ⟨f job, ?_, hkey.trans henvironment, .inr ⟨hsame.trans hattempt, hstopped⟩⟩
  rw [show c'.jobs.rows = _ from hc']
  exact List.mem_map.mpr ⟨job, hmem, by simp [henvironment]⟩

theorem over_receives {row : EffectResult} {c c' : Catalog} (h : Receives row c c') :
    Over c' row.environment row.attempt := by
  apply over_changed h.runs h.jobs
  intro job
  refine ⟨rfl, rfl, ?_⟩
  simp only [settled]
  split_ifs <;> simp

theorem over_decides {row : RecoveryDecision} {c c' : Catalog} (h : Decides row c c') :
    Over c' row.environment row.attempt := by
  apply over_changed h.runs h.jobs
  intro job
  refine ⟨rfl, rfl, ?_⟩
  simp only [recovered]
  split_ifs <;> simp

theorem recorded_step (c : Catalog) (event : Context × Operation) (hc : Recorded c) :
    Recorded (catalogMachine.step c event) := by
  have hlater : JobsLater c (catalogMachine.step c event) := run_jobsLater c [event]
  have hresults : ∀ row ∈ c.effectResults.rows,
      Over (catalogMachine.step c event) row.environment row.attempt :=
    fun row hrow => over_of_later hlater (hc.results row hrow)
  have hdecisions : ∀ row ∈ c.recoveryDecisions.rows,
      Over (catalogMachine.step c event) row.environment row.attempt :=
    fun row hrow => over_of_later hlater (hc.decisions row hrow)
  rcases (atomic_perform event.1 event.2).after_cases c with hsame | ⟨u, hr⟩
  · rw [show catalogMachine.step c event = c from hsame]
    exact hc
  rcases perform_receipts event.1 event.2 c u _ hr with hsame | ⟨new, hreceives⟩ | ⟨new, hdecides⟩
  · have heffects : (catalogMachine.step c event).effectResults = c.effectResults :=
      congrArg Prod.fst hsame
    have hrecovery : (catalogMachine.step c event).recoveryDecisions = c.recoveryDecisions :=
      congrArg Prod.snd hsame
    refine ⟨?_, ?_, ?_⟩
    · rwa [heffects]
    · rwa [hrecovery]
    · rw [heffects, hrecovery]
      exact hc.apart
  · have hrows : (catalogMachine.step c event).effectResults.rows = c.effectResults.rows ++ [new] :=
      hreceives.results
    have hrecovery : (catalogMachine.step c event).recoveryDecisions = c.recoveryDecisions :=
      hreceives.decisions
    refine ⟨?_, ?_, ?_⟩
    · intro row hrow
      rw [hrows, List.mem_append, List.mem_singleton] at hrow
      rcases hrow with hold | rfl
      · exact hresults row hold
      · exact over_receives hreceives
    · rwa [hrecovery]
    · intro row hrow decision hdecision
      rw [hrecovery] at hdecision
      rw [hrows, List.mem_append, List.mem_singleton] at hrow
      rcases hrow with hold | rfl
      · exact hc.apart row hold decision hdecision
      · intro heq
        -- A decision on the running attempt would have ended it.
        have hover := hc.decisions decision hdecision
        have hkey : decision.environment = row.environment ∧ decision.attempt = row.attempt :=
          ⟨(congrArg Prod.fst heq).symm, (congrArg Prod.snd heq).symm⟩
        rw [hkey.1, hkey.2] at hover
        exact not_running_of_over hover (running_of_runs hreceives.runs)
  · have hrows : (catalogMachine.step c event).recoveryDecisions.rows =
        c.recoveryDecisions.rows ++ [new] := hdecides.decisions
    have heffects : (catalogMachine.step c event).effectResults = c.effectResults :=
      hdecides.results
    refine ⟨?_, ?_, ?_⟩
    · rwa [heffects]
    · intro row hrow
      rw [hrows, List.mem_append, List.mem_singleton] at hrow
      rcases hrow with hold | rfl
      · exact hdecisions row hold
      · exact over_decides hdecides
    · intro row hrow decision hdecision
      rw [heffects] at hrow
      rw [hrows, List.mem_append, List.mem_singleton] at hdecision
      rcases hdecision with hold | rfl
      · exact hc.apart row hrow decision hold
      · intro heq
        have hover := hc.results row hrow
        have hkey : row.environment = decision.environment ∧ row.attempt = decision.attempt :=
          ⟨congrArg Prod.fst heq, congrArg Prod.snd heq⟩
        rw [hkey.1, hkey.2] at hover
        exact not_running_of_over hover (running_of_runs hdecides.runs)

theorem recorded_run (events : List (Context × Operation)) :
    Recorded (catalogMachine.run events) := by
  refine catalogMachine.run_invariant ?_ recorded_step events
  exact ⟨fun row hrow => absurd hrow List.not_mem_nil, fun row hrow => absurd hrow List.not_mem_nil,
    fun row hrow => absurd hrow List.not_mem_nil⟩

/-! ## Messages that come late -/

section

variable (ctx : Context) {c : Catalog}

/-- A call that returns only from `c` to `c` changes nothing. -/
theorem step_unchanged (op : Operation) (h : (perform ctx op).Ensures c fun _ c' => c' = c) :
    catalogMachine.step c (ctx, op) = c := by
  rcases (atomic_perform ctx op).after_cases c with hsame | ⟨u, hr⟩
  · exact hsame
  · exact h u _ hr

theorem finish_stale {environment claim : String} (h : c.runs environment claim = false)
    (success : Bool) (failure : ProvisionFailure) (refusalReason : Option String) :
    catalogMachine.step c
      (ctx, .finishProvision environment claim success failure refusalReason) = c := by
  apply step_unchanged
  refine (finishProvision_ensures ctx environment claim success failure refusalReason c).mono ?_
  intro _ c' hfinish
  rw [h] at hfinish
  cases hfinish.1

theorem receipt_stale {environment runtime claim : String} {attempt : ℤ}
    (h : ¬ Runs c environment runtime claim attempt) (exitCode : ℤ)
    (refusalReason : Option String) :
    catalogMachine.step c
      (ctx, .applyProvisionReceipt environment runtime claim attempt exitCode refusalReason) = c := by
  apply step_unchanged
  refine (applyProvisionReceipt_ensures ctx ⟨environment, attempt, runtime, claim, exitCode⟩
    refusalReason c).mono ?_
  intro _ c' hreceipt
  rcases hreceipt with ⟨hsame, _⟩ | hreceives
  · exact hsame
  · exact absurd hreceives.runs h

theorem recovery_stale {environment runtime claim : String} {attempt : ℤ}
    (h : ¬ Runs c environment runtime claim attempt) (token : String) :
    catalogMachine.step c
      (ctx, .recoverPreflightReceipt environment runtime claim attempt token) = c := by
  apply step_unchanged
  refine Ensures.discard ((recoverPreflightReceipt_ensures ctx environment runtime claim attempt
    token c).mono ?_)
  intro _ c' hrecovery
  rcases hrecovery with ⟨hsame, _⟩ | ⟨choice, _, ⟨hsame, _⟩ | hdecides⟩
  · exact hsame
  · exact hsame
  · exact absurd hdecides.runs h

/-- A receipt that changed something is recorded. -/
theorem receipt_recorded (row : EffectResult) (refusalReason : Option String) {c' : Catalog}
    (h : (applyProvisionReceipt ctx row.environment row.runtime row.claim row.attempt row.exitCode
      refusalReason).Returns c () c') : c' = c ∨ row ∈ c'.effectResults.rows := by
  rcases applyProvisionReceipt_ensures ctx row refusalReason c () c' h with ⟨hsame, _⟩ | hreceives
  · exact .inl hsame
  · right
    rw [hreceives.results]
    exact List.mem_append_right _ (List.mem_singleton_self row)

/-- A recovery that changed something has a recorded decision. -/
theorem recovery_recorded {environment runtime claim token outcome : String} {attempt : ℤ}
    {c' : Catalog}
    (h : (recoverPreflightReceipt ctx environment runtime claim attempt token).Returns c outcome
      c') : c' = c ∨ ∃ choice : RecoveryChoice, outcome = choice.outcome ∧
        ⟨environment, attempt, runtime, claim, token, choice⟩ ∈ c'.recoveryDecisions.rows := by
  rcases recoverPreflightReceipt_ensures ctx environment runtime claim attempt token c outcome c' h
    with ⟨hsame, _⟩ | ⟨choice, houtcome, ⟨hsame, _⟩ | hdecides⟩
  · exact .inl hsame
  · exact .inl hsame
  · refine .inr ⟨choice, houtcome, ?_⟩
    rw [hdecides.decisions]
    exact List.mem_append_right _ (List.mem_singleton_self _)

/-- What was over stays over, so no message about it runs into a live attempt. -/
theorem not_runs_of_over {before after : List (Context × Operation)} {environment : String}
    {attempt : ℤ} (h : Over (catalogMachine.run before) environment attempt)
    (runtime claim : String) :
    ¬ Runs (catalogMachine.run (before ++ after)) environment runtime claim attempt := by
  intro hruns
  rw [catalogMachine.run_append] at hruns
  have hover := over_of_later (run_jobsLater (catalogMachine.run before) after) h
  exact not_running_of_over hover (running_of_runs hruns)

end

/-! ## The law -/

/-- Across every run of the catalog: a claim is live exactly while its job runs,
attempts rise with every claim and end once, a message about an attempt whose
outcome is recorded changes nothing, and neither does one of a claim that is not
the running one. -/
theorem attempts_law : (∀ events, ∀ job ∈ (catalogMachine.run events).jobs.rows,
      job.claim.isSome = true ↔ job.state = .running) ∧
    (∀ before ctx claim between ctx' claim' job job' c c',
      (claimProvision ctx claim).Returns (catalogMachine.run before) (some job) c →
      (claimProvision ctx' claim').Returns
        (catalogMachine.run (before ++ (ctx, .claimProvision claim) :: between)) (some job') c' →
      job'.environment = job.environment → job.attempt < job'.attempt) ∧
    (∀ before event between event' environment attempt,
      Ends (catalogMachine.run before) event environment attempt →
      ¬ Ends (catalogMachine.run (before ++ event :: between)) event' environment attempt) ∧
    (∀ events, ∀ row ∈ (catalogMachine.run events).effectResults.rows,
      ∀ decision ∈ (catalogMachine.run events).recoveryDecisions.rows, row.key ≠ decision.key) ∧
    (∀ ctx c row refusalReason c', (applyProvisionReceipt ctx row.environment row.runtime row.claim
      row.attempt row.exitCode refusalReason).Returns c () c' →
      c' = c ∨ row ∈ c'.effectResults.rows) ∧
    (∀ ctx c environment runtime claim attempt token outcome c',
      (recoverPreflightReceipt ctx environment runtime claim attempt token).Returns c outcome c' →
      c' = c ∨ ∃ choice : RecoveryChoice, outcome = choice.outcome ∧
        ⟨environment, attempt, runtime, claim, token, choice⟩ ∈ c'.recoveryDecisions.rows) ∧
    (∀ before after ctx refusalReason, ∀ row ∈ (catalogMachine.run before).effectResults.rows,
      catalogMachine.step (catalogMachine.run (before ++ after))
        (ctx, .applyProvisionReceipt row.environment row.runtime row.claim row.attempt row.exitCode
          refusalReason) = catalogMachine.run (before ++ after)) ∧
    (∀ before after ctx, ∀ row ∈ (catalogMachine.run before).recoveryDecisions.rows,
      catalogMachine.step (catalogMachine.run (before ++ after))
        (ctx, .recoverPreflightReceipt row.environment row.runtime row.claim row.attempt
          row.receiptToken) = catalogMachine.run (before ++ after)) ∧
    (∀ ctx c environment claim success failure refusalReason,
      c.runs environment claim = false →
      catalogMachine.step c
        (ctx, .finishProvision environment claim success failure refusalReason) = c) ∧
    (∀ ctx c environment runtime claim attempt,
      ¬ Runs c environment runtime claim attempt →
      (∀ exitCode refusalReason, catalogMachine.step c
        (ctx, .applyProvisionReceipt environment runtime claim attempt exitCode refusalReason)
          = c) ∧
      ∀ token, catalogMachine.step c
        (ctx, .recoverPreflightReceipt environment runtime claim attempt token) = c) := by
  refine ⟨liveClaim_run, ?_, ?_, fun events => (recorded_run events).apart, ?_, ?_, ?_, ?_, ?_, ?_⟩
  · intro before ctx claim between ctx' claim' job job' c c' hclaim hclaim' henvironment
    rw [catalogMachine.run_append, Machine.runFrom_cons, step_claim hclaim] at hclaim'
    exact claims_rise hclaim hclaim' henvironment
  · intro before event between event' environment attempt hends
    rw [catalogMachine.run_append, Machine.runFrom_cons]
    exact ends_once hends between
  · intro ctx c row refusalReason c' h
    exact receipt_recorded ctx row refusalReason h
  · intro ctx c environment runtime claim attempt token outcome c' h
    exact recovery_recorded ctx h
  · intro before after ctx refusalReason row hrow
    apply receipt_stale
    exact not_runs_of_over ((recorded_run before).results row hrow) _ _
  · intro before after ctx row hrow
    apply recovery_stale
    exact not_runs_of_over ((recorded_run before).decisions row hrow) _ _
  · intro ctx c environment claim success failure refusalReason hstale
    exact finish_stale ctx hstale success failure refusalReason
  · intro ctx c environment runtime claim attempt hstale
    exact ⟨receipt_stale ctx hstale, recovery_stale ctx hstale⟩

end Sbarbase.Control.Proofs.Attempts
