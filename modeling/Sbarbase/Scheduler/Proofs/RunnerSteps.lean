import Mathlib.Logic.Relation
import Sbarbase.Scheduler.Proofs.RunnerRuns
/-!
# What a step is made of

Each event but a stop is a sequence of changes: a run acts, a run starts, the rows
are swept, or nothing changes that a run sees.
-/

namespace Sbarbase.Scheduler.Proofs.RunnerSteps

open Lib Runner RunnerViews RunnerRows RunnerRuns

inductive Change (s : State) : State → Prop
  | frame {s' : State} (hframe : Frame s s') (hstop : s'.stop = s.stop) : Change s s'
  | acts {s' : State} {v : View} (id : ℕ) (hmove : Move id s.stopping (view s id) v)
      (hid : id < s.count) (hacts : Acts id v s s') : Change s s'
  | sweep (hnone : s.runs = []) : Change s s.sweep
  | start (jobid : ℕ) (job : JobState) (hstop : s.stopping = false)
      (hroom : s.runs.length < MAX_RUNNING) (hjob : s.jobs jobid = some job)
      (hidle : job.running = false) : Change s (s.startRun jobid job)

abbrev Changes : State → State → Prop := Relation.ReflTransGen Change

section

variable {s s' : State}

theorem sound_change (h : Sound s) (hchange : Change s s') : Sound s' := by
  cases hchange with
  | frame hframe hstop => exact sound_frame h hframe
  | acts id hmove hid hacts =>
    exact sound_acts h (settled_move (h.settled id) hmove) hid (move_over (h.settled id) hmove) hacts
  | sweep hnone => exact sound_sweep h
  | start jobid job hstop hroom hjob hidle => exact sound_startRun h hroom hjob hidle

/-- An invariant that changes keep where the runs are sound. -/
theorem changes_invariant {I : State → Prop} (hkeep : ∀ s s', Sound s → I s → Change s s' → I s')
    (hsound : Sound s) (h : I s) (hchanges : Changes s s') : Sound s' ∧ I s' := by
  induction hchanges with
  | refl => exact ⟨hsound, h⟩
  | tail _ hchange ih => exact ⟨sound_change ih.1 hchange, hkeep _ _ ih.1 ih.2 hchange⟩

theorem sound_changes (h : Sound s) (hchanges : Changes s s') : Sound s' :=
  (changes_invariant (I := fun _ => True) (fun _ _ _ _ _ => trivial) h trivial hchanges).1

theorem changes_frame (hframe : Frame s s') (hstop : s'.stop = s.stop) : Changes s s' :=
  .single (.frame hframe hstop)

theorem changes_sweep (s : State) : Changes s s.sweep := by
  by_cases hnone : s.runs = []
  · exact .single (.sweep hnone)
  · have hsame : s.sweep = s := if_neg hnone
    rw [hsame]

/-! ## The tick -/

theorem frame_setJob {jobid : ℕ} {job : JobState}
    (h : ∀ old, s.jobs jobid = some old → old.running = true → job.running = true) :
    Frame s { s with jobs := Function.update s.jobs jobid (some job) } where
  views := fun _ => rfl
  count := rfl
  jobs := by
    intro other old hold hrunning
    by_cases hsame : other = jobid
    · subst hsame
      exact ⟨job, Function.update_self _ _ _, h old hold hrunning⟩
    · exact ⟨old, (Function.update_of_ne hsame _ _).trans hold, hrunning⟩

theorem changes_reload (s : State) (rows : List (ℕ × String)) : Changes s (s.reload rows) := by
  induction rows generalizing s with
  | nil => exact .refl
  | cons row rows ih =>
    obtain ⟨jobid, schedule⟩ := row
    unfold State.reload
    refine .trans (changes_frame (frame_setJob ?_) rfl) (ih _)
    intro old hold hrunning
    rw [hold]
    by_cases htext : old.text = schedule
    · simpa [htext] using hrunning
    · simpa [htext] using hrunning

theorem frame_forget (s : State) (seen : List ℕ) : Frame s (s.forget seen) where
  views := fun _ => rfl
  count := rfl
  jobs := by
    intro jobid job hjob hrunning
    refine ⟨job, ?_, hrunning⟩
    simp [State.forget, hjob, hrunning]

theorem frame_due (s : State) (isDue : ℕ → Bool) : Frame s (s.due isDue) where
  views := fun _ => rfl
  count := rfl
  jobs := by
    intro jobid job hjob hrunning
    exact ⟨{ job with pending := job.pending || isDue jobid }, by simp [State.due, hjob], hrunning⟩

theorem changes_startRuns (s : State) (rows : List (ℕ × String)) :
    Changes s (s.startRuns rows) := by
  induction rows generalizing s with
  | nil => exact .refl
  | cons row rows ih =>
    obtain ⟨jobid, schedule⟩ := row
    unfold State.startRuns
    by_cases hfull : s.stopping = true ∨ MAX_RUNNING ≤ s.runs.length
    · rw [if_pos hfull]
    · rw [if_neg hfull]
      rw [not_or, Nat.not_le, Bool.not_eq_true] at hfull
      cases hjob : s.jobs jobid with
      | none => exact ih s
      | some job =>
        simp only
        by_cases hdue : job.pending = true ∧ (!job.running) = true
        · rw [if_pos hdue]
          have hidle : job.running = false := by simpa using hdue.2
          exact .trans (.single (.start jobid job hfull.1 hfull.2 hjob hidle)) (ih _)
        · rw [if_neg hdue]
          exact ih s

theorem changes_sql (s : State) {statement : Statement} (h : about statement = none) :
    Changes s (s.sql statement) :=
  changes_frame (frame_sql h) rfl

theorem changes_pruneOrPause (s : State) (answer : Runner.Answer) : Changes s (s.pruneOrPause answer) := by
  unfold State.pruneOrPause
  split
  · exact changes_sql s rfl
  · exact changes_frame (frame_of_eq (fun _ => rfl) rfl rfl) rfl

theorem changes_tick (s : State) (answer : Runner.Answer) : Changes s (s.tick answer) := by
  have hread : Changes s (((s.reload answer.rows).forget (answer.rows.map Prod.fst)).due
      answer.isDue) :=
    ((changes_reload s answer.rows).trans (changes_frame (frame_forget _ _) rfl)).trans
      (changes_frame (frame_due _ _) rfl)
  have hstarted := hread.trans (changes_startRuns _ answer.rows)
  simp only [State.tick]
  split
  · exact hstarted.trans (changes_pruneOrPause _ answer)
  · exact hstarted.trans (changes_sql _ rfl)

theorem changes_tickFailed (s : State) : Changes s s.tickFailed :=
  changes_frame (frame_of_eq (fun _ => rfl) rfl rfl) rfl

/-- A statement of the loop or of a request is answered. -/
theorem changes_resume (s : State) (answer : Runner.Answer) {statement : Statement}
    (h : about statement = none) : Changes s (s.resume answer statement) := by
  cases statement with
  | jobs =>
    simp only [State.resume]
    split
    · exact changes_tick s answer
    · exact changes_tickFailed s
  | drain room =>
    simp only [State.resume]
    split
    · refine .trans ?_ (changes_pruneOrPause _ answer)
      exact changes_frame (frame_of_eq (fun _ => rfl) rfl rfl) rfl
    · exact changes_tickFailed s
  | prune more =>
    simp only [State.resume]
    split
    · exact changes_tickFailed s
    · split
      · exact changes_sql s rfl
      · exact changes_frame (frame_of_eq (fun _ => rfl) rfl rfl) rfl
  | response => exact changes_frame (frame_of_eq (fun _ => rfl) rfl rfl) rfl
  | select id => cases h
  | insert id => cases h
  | mark id => cases h
  | finish id status caller => cases h
  | kill id => cases h

theorem settle_of_about (s : State) (answer : Runner.Answer) {statement : Statement}
    (h : about statement = none) : s.settle answer statement = s.resume answer statement := by
  have happly : s.apply answer.ok statement = s := by cases statement <;> first | rfl | nomatch h
  have hspoil : s.spoil statement = s := by cases statement <;> first | rfl | nomatch h
  simp only [State.settle, happly, hspoil, ite_self]

/-! ## What one run does -/

/-- At most one run acts. -/
def Acted (s s' : State) : Prop :=
  s' = s ∨ ∃ id v, Move id s.stopping (view s id) v ∧ id < s.count ∧ Acts id v s s'

theorem Acted.changes (h : Acted s s') : Changes s s' := by
  rcases h with rfl | ⟨id, v, hmove, hid, hacts⟩
  · exact .refl
  · exact .single (.acts id hmove hid hacts)

theorem Acted.globals (h : Acted s s') : globals s' = globals s := by
  rcases h with rfl | ⟨id, v, hmove, hid, hacts⟩
  · rfl
  · exact hacts.globals

/-- A statement about a run is answered. -/
theorem acted_settle (h : Sound s) {statement : Statement} {queue : List Statement} (book : Bool)
    (hqueue : s.queue = statement :: queue) (answer : Runner.Answer) {id : ℕ}
    (habout : about statement = some id) :
    Acted s ({ s with queue := queue, book := book }.settle answer statement) := by
  obtain ⟨todo, htodo, hpop⟩ := acts_pop id book hqueue habout
  have hactive : isExecute statement = true → (s.run id).phase ≠ .over := by
    intro hexecute hover
    obtain ⟨hawaits, _⟩ := fit_executePop (h.settled id) habout htodo hexecute
    have hphase : (view s id).run.phase = .over := hover
    rw [hphase] at hawaits
    nomatch hawaits
  have hender : isExecute statement = false → (s.run id).ender ≠ .idle := by
    intro hexecute hidle
    have hend : isEnd statement = true := by
      rw [isEnd_eq_not habout, hexecute]
      rfl
    obtain ⟨hawaits, _⟩ := fit_endPop (h.settled id) habout htodo hend
    have hview : (view s id).run.ender = .idle := hidle
    rw [hview] at hawaits
    nomatch hawaits
  have hid : id < s.count := by
    apply h.lt_count
    intro hnone
    rw [hnone] at hactive hender
    cases hexecute : isExecute statement with
    | true => exact hactive hexecute rfl
    | false => exact hender hexecute rfl
  have hsettle := acts_settle (s := { s with queue := queue, book := book }) answer habout hactive
  rw [hpop.view] at hsettle
  have hacts := hpop.trans rfl (fun hover => hover) hsettle
  exact .inr ⟨id, _, .settle answer statement todo htodo, hid, hacts⟩

theorem acted_of_active (h : Sound s) {id : ℕ} {v : View} (hactive : (s.run id).phase ≠ .over)
    (hmove : Move id s.stopping (view s id) v) (hacts : Acts id v s s') : Acted s s' := by
  have hid : id < s.count := h.lt_count fun hnone => hactive (by rw [hnone]; rfl)
  exact .inr ⟨id, v, hmove, hid, hacts⟩

theorem acted_of_ender (h : Sound s) {id : ℕ} {v : View} (hender : (s.run id).ender ≠ .idle)
    (hmove : Move id s.stopping (view s id) v) (hacts : Acts id v s s') : Acted s s' := by
  have hid : id < s.count := h.lt_count fun hnone => hender (by rw [hnone]; rfl)
  exact .inr ⟨id, v, hmove, hid, hacts⟩

theorem acted_runOpened (h : Sound s) {id : ℕ} (ok : Bool) :
    Acted s (step s (.runOpened id ok)) := by
  have hset : Acts id _ s (s.setRun id { s.run id with pid := true }) := acts_setRun id s rfl
  simp only [step]
  split
  next => exact .inl rfl
  next hnot =>
    have hphase : (s.run id).phase = .opening := not_not.mp hnot
    have hactive : (s.run id).phase ≠ .over := by simp [hphase]
    split
    next => exact acted_of_active h hactive (.refused hphase) (acts_failRun hactive)
    next =>
      split
      next hended =>
        have hstill : ((s.setRun id { s.run id with pid := true }).run id).phase ≠ .over := by
          simpa [State.setRun] using hactive
        have hfail := acts_failRun hstill
        rw [hset.view] at hfail
        refine acted_of_active h hactive (.late hphase hended) ?_
        exact hset.trans rfl (fun hover => absurd hover hactive) hfail
      next hended =>
        have hmark : Acts id _ (s.setRun id { s.run id with pid := true })
            ((s.setRun id { s.run id with pid := true }).setRun id
              { (s.setRun id { s.run id with pid := true }).run id with phase := .marking }) :=
          acts_setRun id _ rfl
        rw [hset.view] at hmark
        have hboth := hset.trans rfl (fun hover => absurd hover hactive) hmark
        have hrun : (s.setRun id { s.run id with pid := true }).run id =
            { s.run id with pid := true } := by simp [State.setRun]
        rw [hrun] at hboth ⊢
        refine acted_of_active h hactive (.opened hphase (Bool.eq_false_iff.mpr hended)) ?_
        exact hboth.sql rfl

/-- The command of a run failed. -/
theorem acted_commandFailed (h : Sound s) {id : ℕ} : Acted s (step s (.commandEnded id false)) := by
  simp only [step]
  split
  next => exact .inl rfl
  next hnot =>
    have hphase : (s.run id).phase = .working := not_not.mp hnot
    have hactive : (s.run id).phase ≠ .over := by simp [hphase]
    exact acted_of_active h hactive (.threw hphase) (acts_failRun hactive)

/-- The command of a run returned. -/
theorem step_commandReturned (s : State) (id : ℕ) :
    step s (.commandEnded id true) = s ∨ (s.run id).phase = .working ∧
      step s (.commandEnded id true) = s.finishExecute id .succeeded := by
  simp only [step]
  split
  next => exact .inl rfl
  next hnot => exact .inr ⟨not_not.mp hnot, rfl⟩

theorem sound_commandReturned (h : Sound s) (id : ℕ) : Sound (step s (.commandEnded id true)) := by
  rcases step_commandReturned s id with hsame | ⟨hphase, hfinish⟩
  · rw [hsame]
    exact h
  · have hactive : (s.run id).phase ≠ .over := by simp [hphase]
    have hid : id < s.count := h.lt_count fun hnone => hactive (by rw [hnone]; rfl)
    have hview : (view s id).run.phase = .working := hphase
    have hsettled := settled_finishExecute ((h.settled id).free (by rw [hview]; rfl)) hactive
      (.inl rfl : Status.succeeded = .succeeded ∨ Status.succeeded = .failed)
    rw [hfinish]
    exact sound_acts h hsettled hid (fun hover => absurd hover hactive)
      (acts_finishExecute hactive .succeeded)

theorem acted_deadline (h : Sound s) {id : ℕ} : Acted s (step s (.deadline id)) := by
  have hend : (s.run id).phase ≠ .over →
      Acted s (if (s.run id).pid = true then s.endRun id else s) := by
    intro hactive
    split
    next hpid => exact acted_of_active h hactive (.ended hactive hpid) (acts_endRun id s)
    next => exact .inl rfl
  simp only [step]
  split
  next hphase => exact hend (by simp [hphase])
  next hphase => exact hend (by simp [hphase])
  next hphase => exact hend (by simp [hphase])
  next => exact .inl rfl

theorem acted_killed (h : Sound s) {id : ℕ} : Acted s (step s (.killed id)) := by
  have hend : (s.run id).ender = .killing ∨ (s.run id).ender = .lastResort →
      Acted s (s.finishEnd id) := by
    intro hender
    have hbusy : (s.run id).ender ≠ .idle := by
      rcases hender with hender | hender <;> simp [hender]
    exact acted_of_ender h hbusy (.killed hender) (acts_finishEnd id s)
  simp only [step]
  split
  next hender => exact hend (.inl hender)
  next hender => exact hend (.inr hender)
  next => exact .inl rfl

theorem acted_killFailed (h : Sound s) {id : ℕ} : Acted s (step s (.killFailed id)) := by
  simp only [step]
  split
  next hender =>
    have hset : Acts id _ s (s.setRun id { s.run id with ender := .asking }) := acts_setRun id s rfl
    exact acted_of_ender h (by simp [hender]) (.unkilled hender) (hset.sql rfl)
  next => exact .inl rfl

/-! ## The events -/

/-- The first statement of the queue is answered. -/
theorem changes_settle (h : Sound s) {statement : Statement} {queue : List Statement} (book : Bool)
    (hqueue : s.queue = statement :: queue) (answer : Runner.Answer) :
    Changes s ({ s with queue := queue, book := book }.settle answer statement) := by
  cases habout : about statement with
  | none =>
    rw [settle_of_about _ _ habout]
    refine .trans ?_ (changes_resume _ answer habout)
    exact changes_frame (frame_of_eq (fun id => by simp [view, hqueue, habout]) rfl rfl) rfl
  | some id => exact (acted_settle h book hqueue answer habout).changes

theorem changes_opened (h : Sound s) (ok swept : Bool) : Changes s (step s (.opened ok swept)) := by
  have hbook : Changes s { s.sweep with book := true } :=
    (changes_sweep s).trans (changes_frame (frame_of_eq (fun _ => rfl) rfl rfl) rfl)
  simp only [step]
  split
  next => exact .refl
  next statement queue hqueue =>
    split
    · exact .refl
    · split
      · exact hbook
      · cases swept with
        | false => exact changes_settle h s.book hqueue .unsent
        | true =>
          have hswept := sound_sweep h
          have hsame : s.sweep.queue = s.queue := by
            unfold State.sweep
            split <;> rfl
          exact (changes_sweep s).trans
            (changes_settle hswept s.sweep.book (hsame.trans hqueue) .unsent)

/-- Every event but those of `stop` and the return of a command. -/
theorem changes_step (h : Sound s) (e : Event) (hstop : e ≠ .stop) (hfinished : e ≠ .stopFinished)
    (hreturned : ∀ id, e ≠ .commandEnded id true) : Changes s (step s e) := by
  have hidle : ∀ {s' : State}, (∀ id, view s' id = view s id) → s'.count = s.count →
      s'.jobs = s.jobs → s'.stop = s.stop → Changes s s' := fun hviews hcount hjobs hstop =>
    changes_frame (frame_of_eq hviews hcount hjobs) hstop
  cases e with
  | start =>
    simp only [step]
    split_ifs
    · exact .refl
    · exact hidle (fun _ => rfl) rfl rfl rfl
    · refine .trans ?_ (changes_sql _ rfl)
      exact hidle (fun _ => rfl) rfl rfl rfl
  | wake =>
    simp only [step]
    split_ifs
    · exact .refl
    · exact hidle (fun _ => rfl) rfl rfl rfl
    · refine .trans ?_ (changes_sql _ rfl)
      exact hidle (fun _ => rfl) rfl rfl rfl
  | opened ok swept => exact changes_opened h ok swept
  | answered answer =>
    simp only [step]
    split
    next => exact .refl
    next statement queue hqueue =>
      split
      · exact .refl
      · exact changes_settle h _ hqueue answer
  | runOpened id ok => exact (acted_runOpened h ok).changes
  | commandEnded id ok =>
    cases ok with
    | false => exact (acted_commandFailed h).changes
    | true => exact absurd rfl (hreturned id)
  | deadline id => exact (acted_deadline h).changes
  | killed id => exact (acted_killed h).changes
  | killFailed id => exact (acted_killFailed h).changes
  | requestSent =>
    simp only [step]
    split
    · exact .refl
    · split
      · exact hidle (fun _ => rfl) rfl rfl rfl
      · refine .trans ?_ (changes_sql _ rfl)
        exact hidle (fun _ => rfl) rfl rfl rfl
  | stop => exact absurd rfl hstop
  | stopFinished => exact absurd rfl hfinished

end

end Sbarbase.Scheduler.Proofs.RunnerSteps
