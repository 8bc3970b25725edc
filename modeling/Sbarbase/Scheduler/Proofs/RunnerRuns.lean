import Sbarbase.Scheduler.Proofs.RunnerRows
/-!
# Runs and jobs

What an event does to one run, and that no more than two runs are in flight, each
of a job of its own that knows that it runs.
-/

namespace Sbarbase.Scheduler.Proofs.RunnerRuns

open Lib Runner RunnerViews RunnerRows

/-- What an event does to the view of a run, but for the return of its command. -/
inductive Move (id : ℕ) (stopping : Bool) (v : View) : View → Prop
  | settle (answer : Runner.Answer) (statement : Statement) (todo : List Statement)
      (htodo : v.todo = statement :: todo) :
      Move id stopping v (View.settle id { v with todo := todo } answer stopping statement)
  | refused (hphase : v.run.phase = .opening) : Move id stopping v (v.failRun id)
  | late (hphase : v.run.phase = .opening) (hended : v.run.ended = true) :
      Move id stopping v ((v.setRun { v.run with pid := true }).failRun id)
  | opened (hphase : v.run.phase = .opening) (hended : v.run.ended = false) :
      Move id stopping v ((v.setRun { v.run with pid := true, phase := .marking }).sql (.mark id))
  | threw (hphase : v.run.phase = .working) : Move id stopping v (v.failRun id)
  | ended (hphase : v.run.phase ≠ .over) (hpid : v.run.pid = true) : Move id stopping v (v.endRun id)
  | killed (hender : v.run.ender = .killing ∨ v.run.ender = .lastResort) :
      Move id stopping v (v.finishEnd id)
  | unkilled (hender : v.run.ender = .killing) :
      Move id stopping v ((v.setRun { v.run with ender := .asking }).sql (.kill id))

section

variable {id : ℕ} {stopping : Bool} {v w : View}

theorem ended_of_ender (h : Settled id v) (hender : v.run.ender ≠ .idle) : v.run.ended = true := by
  rw [← Bool.not_eq_false]
  exact fun hnot => hender (h.idle.mp hnot)

theorem settled_move (h : Settled id v) (hmove : Move id stopping v w) : Settled id w := by
  cases hmove with
  | settle answer statement todo htodo => exact settled_settle h htodo
  | refused hphase => exact settled_failRun (h.free (by rw [hphase]; rfl)) (by simp [hphase])
  | late hphase hended =>
    exact settled_failRun (v := v.setRun { v.run with pid := true }) (settled_pid (v := v) h hphase)
      (by simp [View.setRun, hphase])
  | opened hphase hended => exact settled_marking h hphase hended
  | threw hphase => exact settled_failRun (h.free (by rw [hphase]; rfl)) (by simp [hphase])
  | ended hphase hpid => exact settled_endRun h
  | killed hender =>
    have hended := ended_of_ender h (by rcases hender with hender | hender <;> simp [hender])
    have hfit : Fit id (executeAwaits id v.run.phase) [] v := by
      have hawaits : endAwaits id v.run.ender = [] := by
        rcases hender with hender | hender <;> rw [hender] <;> rfl
      rw [← hawaits]
      exact h
    exact settled_finishEnd hfit hended
  | unkilled hender => exact settled_asking h hender

@[simp] theorem finishEnd_phase : (v.finishEnd id).run.phase = v.run.phase := by
  unfold View.finishEnd
  split <;> rfl

@[simp] theorem endRun_phase : (v.endRun id).run.phase = v.run.phase := by
  unfold View.endRun
  split_ifs
  · rfl
  · rfl
  · rw [finishEnd_phase]
    rfl

/-- A run that is over stays over. -/
theorem move_over (h : Settled id v) (hmove : Move id stopping v w) (hover : v.run.phase = .over) :
    w.run.phase = .over := by
  cases hmove with
  | settle answer statement todo htodo =>
    have habout := h.about statement (htodo ▸ List.mem_cons_self)
    by_cases hexecute : isExecute statement
    · obtain ⟨hawaits, _⟩ := fit_executePop h habout htodo hexecute
      rw [hover] at hawaits
      cases hawaits
    · cases statement <;> cases habout
      case finish.refl status caller =>
        cases caller with
        | execute => exact absurd rfl hexecute
        | terminate => simp [View.settle, View.resume, View.setRun, hover]
      case kill.refl =>
        simp only [View.settle, View.resume]
        split <;> simp [View.setRun, hover]
      all_goals exact absurd rfl hexecute
  | refused hphase => rw [hover] at hphase; cases hphase
  | late hphase hended => rw [hover] at hphase; cases hphase
  | opened hphase hended => rw [hover] at hphase; cases hphase
  | threw hphase => rw [hover] at hphase; cases hphase
  | ended hphase hpid => exact absurd hover hphase
  | killed hender => rw [finishEnd_phase, hover]
  | unkilled hender => exact hover

end

/-! ## The invariant -/

structure Sound (s : State) : Prop where
  settled : ∀ id, Settled id (view s id)
  fresh : ∀ id, s.count ≤ id → s.run id = .none ∧ s.row id = none
  room : s.runs.length ≤ MAX_RUNNING
  /-- The job of a run in flight knows that it runs. -/
  busy : ∀ id, (s.run id).phase ≠ .over → ∃ job, s.jobs (s.run id).jobid = some job ∧
    job.running = true
  alone : ∀ a b, (s.run a).phase ≠ .over → (s.run b).phase ≠ .over →
    (s.run a).jobid = (s.run b).jobid → a = b

theorem sound_initial : Sound .initial where
  settled := fun id => {
    about := fun _ hmem => nomatch hmem
    execute := rfl
    terminate := rfl
    marked := fun hmem => nomatch hmem
    early := by simp [view, State.initial, Run.none]
    opening := by simp [view, State.initial, Run.none]
    idle := by simp [view, State.initial, Run.none]
    taken := fun _ => rfl
    once := fun hover => absurd hover not_finishing_over
    outcome := fun _ hover => nomatch hover
    rows := fun _ hmem => nomatch hmem }
  fresh := fun _ _ => ⟨rfl, rfl⟩
  room := Nat.zero_le _
  busy := fun _ hover => absurd rfl hover
  alone := fun _ _ hover => absurd rfl hover

section

variable {id : ℕ} {s s' : State} {v : View}

theorem Sound.lt_count (h : Sound s) (hrun : s.run id ≠ .none) : id < s.count := by
  by_contra hge
  exact hrun (h.fresh id (Nat.le_of_not_lt hge)).1

theorem runs_length_le (hcount : s'.count = s.count)
    (hover : ∀ id, (s.run id).phase = .over → (s'.run id).phase = .over) :
    s'.runs.length ≤ s.runs.length := by
  unfold State.runs
  rw [hcount]
  refine (List.monotone_filter_right _ fun id hid => ?_).length_le
  simp only [ne_eq, decide_not, Bool.not_eq_true', decide_eq_false_iff_not] at hid ⊢
  exact fun hphase => hid (hover id hphase)

/-- An event that acts on one run. -/
theorem sound_acts (h : Sound s) (hsettled : Settled id v) (hid : id < s.count)
    (hafter : (s.run id).phase = .over → v.run.phase = .over) (hacts : Acts id v s s') :
    Sound s' := by
  have hcount : s'.count = s.count := congrArg Globals.count hacts.globals
  have hrun : s'.run id = v.run := congrArg View.run hacts.view
  have hother : ∀ other ≠ id, s'.run other = s.run other := fun other hne =>
    congrArg View.run (hacts.others other hne)
  have hover : ∀ other, (s.run other).phase = .over → (s'.run other).phase = .over := by
    intro other hphase
    by_cases hsame : other = id
    · rw [hsame] at hphase ⊢
      rw [hrun]
      exact hafter hphase
    · rw [hother other hsame]
      exact hphase
  have hjobid : ∀ other, (s'.run other).jobid = (s.run other).jobid := by
    intro other
    by_cases hsame : other = id
    · rw [hsame, hrun, hacts.jobid]
    · rw [hother other hsame]
  exact {
    settled := by
      intro other
      by_cases hsame : other = id
      · rw [hsame, hacts.view]
        exact hsettled
      · rw [hacts.others other hsame]
        exact h.settled other
    fresh := by
      intro other hge
      rw [hcount] at hge
      have hne : other ≠ id := by omega
      have hview := hacts.others other hne
      have hrow : s'.row other = s.row other := congrArg View.row hview
      rw [hother other hne, hrow]
      exact h.fresh other hge
    room := (runs_length_le hcount hover).trans h.room
    busy := by
      intro other hactive
      have hbefore : (s.run other).phase ≠ .over := fun hphase => hactive (hover other hphase)
      obtain ⟨job, hjob, hrunning⟩ := h.busy other hbefore
      refine ⟨job, ?_, hrunning⟩
      rw [hjobid, ← hjob]
      apply hacts.jobs
      by_cases hsame : other = id
      · rw [hsame, hrun] at hactive
        exact .inr (.inl hactive)
      · by_cases hphase : (s.run id).phase = .over
        · exact .inr (.inr hphase)
        · -- two runs in flight are of two jobs
          exact .inl fun hjobs => hsame (h.alone other id hbefore hphase hjobs)
    alone := by
      intro a b ha hb hjobs
      rw [hjobid, hjobid] at hjobs
      exact h.alone a b (fun hphase => ha (hover a hphase)) (fun hphase => hb (hover b hphase)) hjobs }

/-- Every run sees what it saw, and every running job runs. -/
structure Frame (s s' : State) : Prop where
  views : ∀ id, view s' id = view s id
  count : s'.count = s.count
  jobs : ∀ jobid job, s.jobs jobid = some job → job.running = true →
    ∃ job', s'.jobs jobid = some job' ∧ job'.running = true

theorem frame_of_eq (hviews : ∀ id, view s' id = view s id) (hcount : s'.count = s.count)
    (hjobs : s'.jobs = s.jobs) : Frame s s' where
  views := hviews
  count := hcount
  jobs := by
    intro jobid job hjob hrunning
    rw [hjobs]
    exact ⟨job, hjob, hrunning⟩

theorem frame_sql {statement : Statement} (h : about statement = none) :
    Frame s (s.sql statement) :=
  frame_of_eq (fun id => by simp [view, State.sql, List.filter_append, h]) rfl rfl

theorem sound_frame (h : Sound s) (hframe : Frame s s') : Sound s' := by
  have hrun : ∀ id, s'.run id = s.run id := fun id => congrArg View.run (hframe.views id)
  have hrow : ∀ id, s'.row id = s.row id := fun id => congrArg View.row (hframe.views id)
  exact {
    settled := by
      intro id
      rw [hframe.views id]
      exact h.settled id
    fresh := by
      intro id hge
      rw [hrun, hrow]
      exact h.fresh id (hframe.count ▸ hge)
    room := (runs_length_le hframe.count fun id hover => by rw [hrun, hover]).trans h.room
    busy := by
      intro id hactive
      rw [hrun] at hactive ⊢
      obtain ⟨job, hjob, hrunning⟩ := h.busy id hactive
      exact hframe.jobs _ job hjob hrunning
    alone := by
      intro a b ha hb hjobs
      rw [hrun] at ha hb
      rw [hrun, hrun] at hjobs
      exact h.alone a b ha hb hjobs }

theorem sound_sweep (h : Sound s) : Sound s.sweep := by
  unfold State.sweep
  split
  next hnone =>
    have hover : ∀ id, (s.run id).phase = .over := by
      intro id
      by_contra hactive
      have hid : id < s.count := h.lt_count fun hrun => hactive (by rw [hrun]; rfl)
      have hmem : id ∈ s.runs := by simp [State.runs, hid, hactive]
      rw [hnone] at hmem
      nomatch hmem
    exact {
      settled := fun id => settled_sweep (h.settled id) (hover id)
      fresh := by
        intro id hge
        obtain ⟨hrun, hrow⟩ := h.fresh id hge
        exact ⟨hrun, by simp [hrow]⟩
      room := h.room
      busy := h.busy
      alone := h.alone }
  next => exact h

/-! ## Starts -/

theorem runs_startRun (jobid : ℕ) (job : JobState) :
    (s.startRun jobid job).runs = s.runs ++ [s.count] := by
  have hself : (s.startRun jobid job).run s.count = ⟨jobid, .selecting, false, false, false, .idle⟩ :=
    Function.update_self _ _ _
  have hcount : (s.startRun jobid job).count = s.count + 1 := rfl
  unfold State.runs
  rw [hcount, List.range_succ, List.filter_append]
  congr 1
  · apply List.filter_congr
    intro id hid
    have hother : (s.startRun jobid job).run id = s.run id :=
      Function.update_of_ne (List.mem_range.mp hid).ne _ _
    rw [hother]
  · simp [hself]

theorem sound_startRun {jobid : ℕ} {job : JobState} (h : Sound s)
    (hroom : s.runs.length < MAX_RUNNING) (hjob : s.jobs jobid = some job)
    (hidle : job.running = false) : Sound (s.startRun jobid job) := by
  have hself : (s.startRun jobid job).run s.count = ⟨jobid, .selecting, false, false, false, .idle⟩ :=
    Function.update_self _ _ _
  have hother : ∀ id ≠ s.count, (s.startRun jobid job).run id = s.run id :=
    fun id hne => Function.update_of_ne hne _ _
  obtain ⟨hrun, hrow⟩ := h.fresh s.count le_rfl
  have hfree : ∀ id, (s.run id).phase ≠ .over → (s.run id).jobid ≠ jobid := by
    intro id hactive hsame
    obtain ⟨found, hfound, hrunning⟩ := h.busy id hactive
    rw [hsame, hjob] at hfound
    obtain rfl := Option.some.inj hfound
    rw [hidle] at hrunning
    nomatch hrunning
  exact {
    settled := by
      intro id
      by_cases hsame : id = s.count
      · have hstart := settled_start (h.settled s.count) jobid hrun hrow
        rw [hsame]
        have hview : view (s.startRun jobid job) s.count = ((view s s.count).setRun
            ⟨jobid, .selecting, false, false, false, .idle⟩).sql (.select s.count) := by
          simp [view, State.startRun, View.setRun, View.sql, List.filter_append, about]
        rw [hview]
        exact hstart
      · have hview : view (s.startRun jobid job) id = view s id := by
          simp [view, State.startRun, List.filter_append, about, hsame, Ne.symm hsame]
        rw [hview]
        exact h.settled id
    fresh := by
      intro id hge
      change s.count + 1 ≤ id at hge
      rw [hother id (by omega)]
      exact h.fresh id (by omega)
    room := by
      rw [runs_startRun, List.length_append, List.length_singleton]
      exact hroom
    busy := by
      intro id hactive
      by_cases hsame : id = s.count
      · rw [hsame, hself]
        exact ⟨_, Function.update_self _ _ _, rfl⟩
      · rw [hother id hsame] at hactive ⊢
        obtain ⟨found, hfound, hrunning⟩ := h.busy id hactive
        refine ⟨found, ?_, hrunning⟩
        rw [← hfound]
        exact Function.update_of_ne (hfree id hactive) _ _
    alone := by
      intro a b ha hb hjobs
      by_cases hsameA : a = s.count
      · by_cases hsameB : b = s.count
        · rw [hsameA, hsameB]
        · rw [hother b hsameB] at hb hjobs
          rw [hsameA, hself] at hjobs
          exact absurd hjobs.symm (hfree b hb)
      · rw [hother a hsameA] at ha hjobs
        by_cases hsameB : b = s.count
        · rw [hsameB, hself] at hjobs
          exact absurd hjobs (hfree a ha)
        · rw [hother b hsameB] at hb hjobs
          exact h.alone a b ha hb hjobs }

end

end Sbarbase.Scheduler.Proofs.RunnerRuns
