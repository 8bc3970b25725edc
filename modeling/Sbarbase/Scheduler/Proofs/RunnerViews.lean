import Mathlib.Data.List.Basic
import Sbarbase.Scheduler.Runner
/-!
# What a run sees of the runner

Its record, its row, and the statements of the queue that are about it, in their
order. The functions of the runner act on the view of one run and leave the views
of the others alone.
-/

namespace Sbarbase.Scheduler.Proofs.RunnerViews

open Runner

/-- The run that a statement is about. -/
def about : Statement → Option ℕ
  | .select id | .insert id | .mark id | .finish id _ _ | .kill id => some id
  | _ => none

/-- The run's own statements, which `execute` waits for. -/
def isExecute : Statement → Bool
  | .select _ | .insert _ | .mark _ | .finish _ _ .execute => true
  | _ => false

/-- The statements that `end` waits for. -/
def isEnd : Statement → Bool
  | .kill _ | .finish _ _ .terminate => true
  | _ => false

structure View where
  run : Run
  row : Option Row
  todo : List Statement

def view (s : State) (id : ℕ) : View where
  run := s.run id
  row := s.row id
  todo := s.queue.filter fun statement => about statement = some id

namespace View

variable (id : ℕ) (v : View)

def setRun (run : Run) : View := { v with run := run }

def setRow (row : Option Row) : View := { v with row := row }

def sql (statement : Statement) : View := { v with todo := v.todo ++ [statement] }

def conclude : View := v.setRun { v.run with phase := .over }

def finishExecute (status : Status) : View :=
  if v.run.runid then
    (v.setRun { v.run with runid := false, phase := .finishing status }).sql
      (.finish id status .execute)
  else v.conclude

def failRun : View := if v.run.ended then v.conclude else v.finishExecute id .failed

def finishEnd : View :=
  if v.run.runid then
    (v.setRun { v.run with runid := false, ender := .recording }).sql
      (.finish id .failed .terminate)
  else v.setRun { v.run with ender := .done }

def endRun : View :=
  if v.run.ended then v
  else if v.run.pid then v.setRun { v.run with ended := true, ender := .killing }
  else (v.setRun { v.run with ended := true }).finishEnd id

/-- A statement about the run takes effect. -/
def apply (ok : Bool) : Statement → View
  | .insert _ => v.setRow (some ⟨.starting, [], !ok⟩)
  | .mark _ => v.setRow (v.row.map fun row => { row with status := .running })
  | .finish _ status _ => v.setRow (v.row.map fun row =>
      { row with status := status, terminals := row.terminals ++ [status] })
  | _ => v

def spoil : Statement → View
  | .finish _ _ _ => v.setRow (v.row.map fun row => { row with failed := true })
  | _ => v

/-- The run goes on after a statement about it. -/
def resume (answer : Runner.Answer) (stopping : Bool) : Statement → View
  | .select _ =>
    if !answer.ok then v.failRun id
    else if !answer.found then v.conclude
    else (v.setRun { v.run with phase := .inserting }).sql (.insert id)
  | .insert _ =>
    if !answer.ok then v.failRun id
    else
      let v := v.setRun { v.run with runid := true }
      if stopping ∨ !answer.developer then v.failRun id
      else v.setRun { v.run with phase := .opening }
  | .mark _ => if !answer.ok then v.failRun id else v.setRun { v.run with phase := .working }
  | .finish _ _ .execute => v.conclude
  | .finish _ _ .terminate => v.setRun { v.run with ender := .done }
  | .kill _ =>
    if answer.ok then v.finishEnd id else v.setRun { v.run with ender := .lastResort }
  | _ => v

/-- What a statement that was answered has done to the row. -/
def written (answer : Runner.Answer) (statement : Statement) : View :=
  let v := if answer.ok ∨ answer.effect then v.apply answer.ok statement else v
  if answer.ok then v else v.spoil statement

def settle (answer : Runner.Answer) (stopping : Bool) (statement : Statement) : View :=
  (v.written answer statement).resume id answer stopping statement

@[simp] theorem apply_run (ok : Bool) (statement : Statement) :
    (v.apply ok statement).run = v.run := by
  cases statement <;> rfl

@[simp] theorem apply_todo (ok : Bool) (statement : Statement) :
    (v.apply ok statement).todo = v.todo := by
  cases statement <;> rfl

@[simp] theorem spoil_run (statement : Statement) : (v.spoil statement).run = v.run := by
  cases statement <;> rfl

@[simp] theorem spoil_todo (statement : Statement) : (v.spoil statement).todo = v.todo := by
  cases statement <;> rfl

@[simp] theorem written_run (answer : Runner.Answer) (statement : Statement) :
    (v.written answer statement).run = v.run := by
  unfold written
  split_ifs <;> simp

@[simp] theorem written_todo (answer : Runner.Answer) (statement : Statement) :
    (v.written answer statement).todo = v.todo := by
  unfold written
  split_ifs <;> simp

end View

/-- What is about no run: the number of runs, what `stop` and the loop are at, the requests,
and the statements of the loop and of the requests. -/
structure Globals where
  count : ℕ
  stop : Stop
  loop : Loop
  requests : ℕ
  sending : ℕ
  todo : List Statement

def globals (s : State) : Globals where
  count := s.count
  stop := s.stop
  loop := s.loop
  requests := s.requests
  sending := s.sending
  todo := s.queue.filter fun statement => about statement = none

/-- `s'` differs from `s` in the view of one run, and in its job when the run got over. -/
structure Acts (id : ℕ) (v : View) (s s' : State) : Prop where
  view : view s' id = v
  others : ∀ other ≠ id, RunnerViews.view s' other = RunnerViews.view s other
  globals : globals s' = RunnerViews.globals s
  jobid : v.run.jobid = (s.run id).jobid
  jobs : ∀ jobid, jobid ≠ (s.run id).jobid ∨ v.run.phase ≠ .over ∨ (s.run id).phase = .over →
    s'.jobs jobid = s.jobs jobid

section

variable {id : ℕ} {s s₁ s' : State} {v w : View}

theorem Acts.trans (h : Acts id v s s₁) (hjobs : s₁.jobs = s.jobs)
    (hphase : (s.run id).phase = .over → v.run.phase = .over) (h' : Acts id w s₁ s') :
    Acts id w s s' where
  view := h'.view
  others := fun other hother => (h'.others other hother).trans (h.others other hother)
  globals := h'.globals.trans h.globals
  jobid := by
    have hrun : (s₁.run id).jobid = v.run.jobid := congrArg (fun v => v.run.jobid) h.view
    rw [h'.jobid, hrun, h.jobid]
  jobs := by
    have hrun : s₁.run id = v.run := congrArg View.run h.view
    intro jobid hjobid
    rw [← hjobs]
    apply h'.jobs
    rw [hrun, h.jobid]
    exact hjobid.imp_right fun hor => hor.imp_right hphase

theorem Acts.sql (h : Acts id v s s₁) {statement : Statement} (habout : about statement = some id) :
    Acts id (v.sql statement) s (s₁.sql statement) where
  view := by
    rw [← h.view]
    simp [RunnerViews.view, State.sql, View.sql, List.filter_append, habout]
  others := by
    intro other hother
    rw [← h.others other hother]
    simp [RunnerViews.view, State.sql, List.filter_append, habout, Ne.symm hother]
  globals := by
    rw [← h.globals]
    simp [RunnerViews.globals, State.sql, List.filter_append, habout]
  jobid := h.jobid
  jobs := h.jobs

theorem acts_refl (id : ℕ) (s : State) : Acts id (view s id) s s where
  view := rfl
  others := fun _ _ => rfl
  globals := rfl
  jobid := rfl
  jobs := fun _ _ => rfl

theorem acts_setRun (id : ℕ) (s : State) {run : Run} (h : run.jobid = (s.run id).jobid) :
    Acts id ((view s id).setRun run) s (s.setRun id run) where
  view := by simp [RunnerViews.view, State.setRun, View.setRun]
  others := fun other hother => by simp [RunnerViews.view, State.setRun, hother]
  globals := rfl
  jobid := h
  jobs := fun _ _ => rfl

theorem acts_setRow (id : ℕ) (s : State) (row : Option Row) :
    Acts id ((view s id).setRow row) s (s.setRow id row) where
  view := by simp [RunnerViews.view, State.setRow, View.setRow]
  others := fun other hother => by simp [RunnerViews.view, State.setRow, hother]
  globals := rfl
  jobid := rfl
  jobs := fun _ _ => rfl

theorem acts_conclude {id : ℕ} {s : State} (hactive : (s.run id).phase ≠ .over) :
    Acts id (view s id).conclude s (s.conclude id) := by
  have hset : Acts id _ s (s.setRun id { s.run id with phase := .over }) := acts_setRun id s rfl
  exact {
    view := hset.view
    others := hset.others
    globals := hset.globals
    jobid := rfl
    jobs := by
      rintro jobid (hother | hover | hover)
      · exact Function.update_of_ne hother _ _
      · exact absurd rfl hover
      · exact absurd hover hactive }

theorem acts_finishExecute {id : ℕ} {s : State} (hactive : (s.run id).phase ≠ .over)
    (status : Status) :
    Acts id ((view s id).finishExecute id status) s (s.finishExecute id status) := by
  simp only [State.finishExecute, View.finishExecute]
  by_cases hrunid : (s.run id).runid
  · have hview : (view s id).run.runid = true := hrunid
    rw [if_pos hrunid, if_pos hview]
    have hset : Acts id _ s (s.setRun id { s.run id with
      runid := false, phase := .finishing status }) := acts_setRun id s rfl
    exact hset.sql rfl
  · have hview : ¬ (view s id).run.runid = true := hrunid
    rw [if_neg hrunid, if_neg hview]
    exact acts_conclude hactive

theorem acts_failRun {id : ℕ} {s : State} (hactive : (s.run id).phase ≠ .over) :
    Acts id ((view s id).failRun id) s (s.failRun id) := by
  simp only [State.failRun, View.failRun]
  by_cases hended : (s.run id).ended
  · have hview : (view s id).run.ended = true := hended
    rw [if_pos hended, if_pos hview]
    exact acts_conclude hactive
  · have hview : ¬ (view s id).run.ended = true := hended
    rw [if_neg hended, if_neg hview]
    exact acts_finishExecute hactive .failed

theorem acts_finishEnd (id : ℕ) (s : State) :
    Acts id ((view s id).finishEnd id) s (s.finishEnd id) := by
  simp only [State.finishEnd, View.finishEnd]
  by_cases hrunid : (s.run id).runid
  · have hview : (view s id).run.runid = true := hrunid
    rw [if_pos hrunid, if_pos hview]
    have hset : Acts id _ s (s.setRun id { s.run id with
      runid := false, ender := .recording }) := acts_setRun id s rfl
    exact hset.sql rfl
  · have hview : ¬ (view s id).run.runid = true := hrunid
    rw [if_neg hrunid, if_neg hview]
    exact acts_setRun id s rfl

theorem acts_endRun (id : ℕ) (s : State) : Acts id ((view s id).endRun id) s (s.endRun id) := by
  simp only [State.endRun, View.endRun]
  by_cases hended : (s.run id).ended
  · have hview : (view s id).run.ended = true := hended
    rw [if_pos hended, if_pos hview]
    exact acts_refl id s
  · have hview : ¬ (view s id).run.ended = true := hended
    rw [if_neg hended, if_neg hview]
    by_cases hpid : (s.run id).pid
    · have hview : (view s id).run.pid = true := hpid
      rw [if_pos hpid, if_pos hview]
      exact acts_setRun id s rfl
    · have hview : ¬ (view s id).run.pid = true := hpid
      rw [if_neg hpid, if_neg hview]
      have hset : Acts id _ s (s.setRun id { s.run id with ended := true }) :=
        acts_setRun id s rfl
      have hend := acts_finishEnd id (s.setRun id { s.run id with ended := true })
      rw [hset.view] at hend
      exact hset.trans rfl (fun hover => hover) hend

/-- A statement leaves the queue. -/
theorem acts_pop (id : ℕ) {statement : Statement} {queue : List Statement} (book : Bool)
    (hqueue : s.queue = statement :: queue) (h : about statement = some id) :
    ∃ todo, (view s id).todo = statement :: todo ∧
      Acts id { view s id with todo := todo } s { s with queue := queue, book := book } := by
  refine ⟨queue.filter fun statement => about statement = some id, ?_, ?_⟩
  · simp [view, hqueue, h]
  · exact {
      view := rfl
      others := fun other hother => by simp [view, hqueue, h, Ne.symm hother]
      globals := by simp [globals, hqueue, h]
      jobid := rfl
      jobs := fun _ _ => rfl }

@[simp] theorem stopping_setRun (s : State) (id : ℕ) (run : Run) :
    (s.setRun id run).stopping = s.stopping := rfl

theorem acts_apply (id : ℕ) (s : State) (ok : Bool) {statement : Statement}
    (h : about statement = some id) :
    Acts id ((view s id).apply ok statement) s (s.apply ok statement) := by
  cases statement <;> cases h
  case insert.refl => exact acts_setRow id s _
  case mark.refl => exact acts_setRow id s _
  case finish.refl => exact acts_setRow id s _
  all_goals exact acts_refl id s

theorem acts_spoil (id : ℕ) (s : State) {statement : Statement} (h : about statement = some id) :
    Acts id ((view s id).spoil statement) s (s.spoil statement) := by
  cases statement <;> cases h
  case finish.refl => exact acts_setRow id s _
  all_goals exact acts_refl id s

theorem acts_resume {id : ℕ} {s : State} (answer : Runner.Answer) {statement : Statement}
    (h : about statement = some id)
    (hactive : isExecute statement = true → (s.run id).phase ≠ .over) :
    Acts id ((view s id).resume id answer s.stopping statement) s (s.resume answer statement) := by
  cases statement <;> cases h
  case select.refl =>
    simp only [State.resume, View.resume]
    split
    next => exact acts_failRun (hactive rfl)
    next =>
      split
      next => exact acts_conclude (hactive rfl)
      next =>
        have hset : Acts id _ s (s.setRun id { s.run id with phase := .inserting }) :=
          acts_setRun id s rfl
        exact hset.sql rfl
  case insert.refl =>
    have hset : Acts id _ s (s.setRun id { s.run id with runid := true }) := acts_setRun id s rfl
    simp only [State.resume, View.resume, stopping_setRun]
    split
    next => exact acts_failRun (hactive rfl)
    next =>
      by_cases hstop : s.stopping = true ∨ (!answer.developer) = true
      · simp only [hstop, if_true]
        have hphase : ((s.setRun id { s.run id with runid := true }).run id).phase ≠ .over := by
          simpa [State.setRun] using hactive rfl
        have hfail := acts_failRun hphase
        rw [hset.view] at hfail
        exact hset.trans rfl (fun hover => absurd hover (hactive rfl)) hfail
      · simp only [hstop, if_false]
        have hopen : Acts id _ (s.setRun id { s.run id with runid := true })
            ((s.setRun id { s.run id with runid := true }).setRun id
              { (s.setRun id { s.run id with runid := true }).run id with phase := .opening }) :=
          acts_setRun id _ rfl
        rw [hset.view] at hopen
        have hboth := hset.trans rfl (fun hover => absurd hover (hactive rfl)) hopen
        have hrun : (s.setRun id { s.run id with runid := true }).run id =
            { s.run id with runid := true } := by simp [State.setRun]
        rw [hrun] at hboth ⊢
        exact hboth
  case mark.refl =>
    simp only [State.resume, View.resume]
    split
    next => exact acts_failRun (hactive rfl)
    next => exact acts_setRun id s rfl
  case finish.refl status caller =>
    cases caller with
    | execute => exact acts_conclude (hactive rfl)
    | terminate => exact acts_setRun id s rfl
  case kill.refl =>
    simp only [State.resume, View.resume]
    split
    next => exact acts_finishEnd id s
    next => exact acts_setRun id s rfl

theorem stopping_apply (s : State) (ok : Bool) (statement : Statement) :
    (s.apply ok statement).stopping = s.stopping := by
  cases statement <;> rfl

theorem jobs_apply (s : State) (ok : Bool) (statement : Statement) :
    (s.apply ok statement).jobs = s.jobs := by
  cases statement <;> rfl

theorem jobs_spoil (s : State) (statement : Statement) : (s.spoil statement).jobs = s.jobs := by
  cases statement <;> rfl

theorem stopping_spoil (s : State) (statement : Statement) :
    (s.spoil statement).stopping = s.stopping := by
  cases statement <;> rfl

/-- A statement about a run, answered, acts on its view. -/
theorem acts_settle {id : ℕ} {s : State} (answer : Runner.Answer) {statement : Statement}
    (h : about statement = some id)
    (hactive : isExecute statement = true → (s.run id).phase ≠ .over) :
    Acts id ((view s id).settle id answer s.stopping statement) s (s.settle answer statement) := by
  have happly : Acts id (if answer.ok ∨ answer.effect then (view s id).apply answer.ok statement
      else view s id) s (if answer.ok ∨ answer.effect then s.apply answer.ok statement else s) := by
    split
    next => exact acts_apply id s answer.ok h
    next => exact acts_refl id s
  have hstopping : (if answer.ok ∨ answer.effect then s.apply answer.ok statement
      else s).stopping = s.stopping := by
    split
    next => exact stopping_apply s answer.ok statement
    next => rfl
  have hjobs : (if answer.ok ∨ answer.effect then s.apply answer.ok statement
      else s).jobs = s.jobs := by
    split
    next => exact jobs_apply s answer.ok statement
    next => rfl
  have hrun : (if answer.ok ∨ answer.effect then (view s id).apply answer.ok statement
      else view s id).run = s.run id := by
    split
    next => exact View.apply_run _ _ _
    next => rfl
  simp only [State.settle, View.settle, View.written]
  generalize (if answer.ok ∨ answer.effect then s.apply answer.ok statement else s) = s₁
    at happly hstopping hjobs ⊢
  have hrun₁ : s₁.run id = s.run id := (congrArg View.run happly.view).trans hrun
  have hspoil : Acts id (if answer.ok then view s₁ id else (view s₁ id).spoil statement) s₁
      (if answer.ok then s₁ else s₁.spoil statement) := by
    split
    next => exact acts_refl id s₁
    next => exact acts_spoil id s₁ h
  have hrun' : (if answer.ok then view s₁ id else (view s₁ id).spoil statement).run =
      s₁.run id := by
    split
    next => rfl
    next => exact View.spoil_run _ _
  have hstopping' : (if answer.ok then s₁ else s₁.spoil statement).stopping = s.stopping := by
    split
    next => exact hstopping
    next => exact (stopping_spoil s₁ statement).trans hstopping
  have hjobs' : (if answer.ok then s₁ else s₁.spoil statement).jobs = s₁.jobs := by
    split
    next => rfl
    next => exact jobs_spoil s₁ statement
  generalize (if answer.ok then s₁ else s₁.spoil statement) = s₂ at hspoil hstopping' hjobs' ⊢
  have hrun₂ : s₂.run id = s.run id :=
    ((congrArg View.run hspoil.view).trans hrun').trans hrun₁
  have hresume := acts_resume answer h (by rw [hrun₂]; exact hactive)
  have hwritten : Acts id (if answer.ok then view s₁ id else (view s₁ id).spoil statement) s s₂ :=
    happly.trans hjobs (fun hover => by rw [hrun]; exact hover) hspoil
  rw [hspoil.view, hstopping'] at hresume
  rw [happly.view] at hresume hwritten hrun'
  exact hwritten.trans (hjobs'.trans hjobs)
    (fun hover => by rw [hrun', hrun₁]; exact hover) hresume

end

end Sbarbase.Scheduler.Proofs.RunnerViews
