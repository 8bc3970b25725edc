import Sbarbase.Scheduler.Proofs.RunnerViews
/-!
# Rows and their runs

What a run waits for, and what its row can be meanwhile: a row that is being ended
has no terminal status yet, or was found by a session that was opened when its run
had gone.
-/

namespace Sbarbase.Scheduler.Proofs.RunnerRows

open Runner RunnerViews View

/-- The statement that `execute` waits for. -/
def executeAwaits (id : ℕ) : Phase → List Statement
  | .selecting => [.select id]
  | .inserting => [.insert id]
  | .marking => [.mark id]
  | .finishing status => [.finish id status .execute]
  | _ => []

/-- The statement that `end` waits for. -/
def endAwaits (id : ℕ) : Ender → List Statement
  | .asking => [.kill id]
  | .recording => [.finish id .failed .terminate]
  | _ => []

def Finishing (phase : Phase) : Prop := ∃ status, phase = .finishing status

structure RowFit (run : Run) (row : Row) : Prop where
  same : ∀ a ∈ row.terminals, ∀ b ∈ row.terminals, a = b
  final : ∀ status ∈ row.terminals, status = .succeeded ∨ status = .failed
  last : row.terminals = [] ∧ (row.status = .starting ∨ row.status = .running) ∨
    row.status ∈ row.terminals
  pending : run.runid = true ∨ Finishing run.phase ∨ run.ender = .recording →
    ∀ status ∈ row.terminals, status = .failed
  active : run.phase ≠ .over → run.runid = true ∨ Finishing run.phase → row.terminals = []
  marking : run.phase = .marking → row.terminals = []

/-- A run whose `execute` waits for `awaited`, and whose `end` for `ending`. -/
structure Fit (id : ℕ) (awaited ending : List Statement) (v : View) : Prop where
  about : ∀ statement ∈ v.todo, about statement = some id
  execute : v.todo.filter isExecute = awaited
  terminate : v.todo.filter isEnd = ending
  marked : .mark id ∈ awaited → v.todo.head? = some (.mark id)
  early : v.run.phase = .selecting ∨ v.run.phase = .inserting →
    v.run.runid = false ∧ v.run.pid = false ∧ v.row = none ∧
      (v.run.ender = .idle ∨ v.run.ender = .done)
  opening : v.run.phase = .opening → v.run.ended = false → v.run.runid = true
  idle : v.run.ended = false ↔ v.run.ender = .idle
  taken : Finishing v.run.phase ∨ v.run.ender = .recording → v.run.runid = false
  once : Finishing v.run.phase → v.run.ender ≠ .recording
  outcome : ∀ status, v.run.phase = .finishing status → status = .succeeded ∨ status = .failed
  rows : ∀ row ∈ v.row, RowFit v.run row

/-- The run waits for what its record says. -/
def Settled (id : ℕ) (v : View) : Prop :=
  Fit id (executeAwaits id v.run.phase) (endAwaits id v.run.ender) v

/-! ## A statement about the run is answered -/

section

variable {id : ℕ} {v : View} {statement : Statement} {todo : List Statement}

theorem executeAwaits_cons {phase : Phase} {rest : List Statement}
    (h : statement :: rest = executeAwaits id phase) : rest = [] := by
  cases phase <;> simp [executeAwaits] at h <;> exact h.2

theorem endAwaits_cons {ender : Ender} {rest : List Statement}
    (h : statement :: rest = endAwaits id ender) : rest = [] := by
  cases ender <;> simp [endAwaits] at h <;> exact h.2

theorem isEnd_eq_not (h : about statement = some id) : isEnd statement = !isExecute statement := by
  cases statement with
  | finish run status caller => cases caller <;> rfl
  | jobs => nomatch h
  | drain => nomatch h
  | prune => nomatch h
  | response => nomatch h
  | _ => rfl

/-- `execute` got its answer. -/
theorem fit_executePop (h : Settled id v) (habout : about statement = some id)
    (htodo : v.todo = statement :: todo) (hexecute : isExecute statement = true) :
    executeAwaits id v.run.phase = [statement] ∧
      Fit id [] (endAwaits id v.run.ender) { v with todo := todo } := by
  have hawaits := h.execute
  rw [htodo, List.filter_cons_of_pos hexecute] at hawaits
  have hrest := executeAwaits_cons hawaits
  have hend : isEnd statement = false := by rw [isEnd_eq_not habout, hexecute]; rfl
  have hterminate := h.terminate
  rw [htodo, List.filter_cons_of_neg (by simp [hend])] at hterminate
  refine ⟨by rw [← hawaits, hrest], ?_⟩
  exact {
    about := fun other hother => h.about other (htodo ▸ List.mem_cons_of_mem _ hother)
    execute := hrest
    terminate := hterminate
    marked := fun hmem => nomatch hmem
    early := h.early
    opening := h.opening
    idle := h.idle
    taken := h.taken
    once := h.once
    outcome := h.outcome
    rows := h.rows }

/-- `end` got its answer; the run is not waiting to be marked. -/
theorem fit_endPop (h : Settled id v) (habout : about statement = some id)
    (htodo : v.todo = statement :: todo) (hend : isEnd statement = true) :
    endAwaits id v.run.ender = [statement] ∧ v.run.phase ≠ .marking ∧
      Fit id (executeAwaits id v.run.phase) [] { v with todo := todo } := by
  have hawaits := h.terminate
  rw [htodo, List.filter_cons_of_pos hend] at hawaits
  have hrest := endAwaits_cons hawaits
  have hexecute : isExecute statement = false := by
    rwa [isEnd_eq_not habout, Bool.not_eq_true'] at hend
  have hrun := h.execute
  rw [htodo, List.filter_cons_of_neg (by simp [hexecute])] at hrun
  have hmarking : v.run.phase ≠ .marking := by
    intro hphase
    have hhead := h.marked (by rw [hphase]; exact List.mem_singleton.mpr rfl)
    rw [htodo, List.head?_cons, Option.some.injEq] at hhead
    rw [hhead] at hend
    cases hend
  refine ⟨by rw [← hawaits, hrest], hmarking, ?_⟩
  exact {
    about := fun other hother => h.about other (htodo ▸ List.mem_cons_of_mem _ hother)
    execute := hrun
    terminate := hrest
    marked := by
      intro hmem
      exfalso
      cases hphase : v.run.phase <;> rw [hphase] at hmem <;> simp [executeAwaits] at hmem
      exact hmarking hphase
    early := h.early
    opening := h.opening
    idle := h.idle
    taken := h.taken
    once := h.once
    outcome := h.outcome
    rows := h.rows }

end

/-! ## The functions of the runner -/

section

variable {id : ℕ} {v : View} {ending : List Statement}

/-- A record that is being ended only if it was before. -/
theorem RowFit.of_run {run run' : Run} {row : Row} (h : RowFit run row)
    (hpending : run'.runid = true ∨ Finishing run'.phase ∨ run'.ender = .recording →
      run.runid = true ∨ Finishing run.phase ∨ run.ender = .recording)
    (hactive : run'.phase ≠ .over → run'.runid = true ∨ Finishing run'.phase →
      run.phase ≠ .over ∧ (run.runid = true ∨ Finishing run.phase))
    (hmarking : run'.phase = .marking → row.terminals = []) : RowFit run' row where
  same := h.same
  final := h.final
  last := h.last
  pending := fun hbefore => h.pending (hpending hbefore)
  active := fun hover hbefore => h.active (hactive hover hbefore).1 (hactive hover hbefore).2
  marking := hmarking

theorem about_sql {statement : Statement} {todo : List Statement}
    (h : ∀ other ∈ todo, about other = some id) (habout : about statement = some id) :
    ∀ other ∈ todo ++ [statement], about other = some id := by
  intro other hother
  rcases List.mem_append.mp hother with hold | hnew
  · exact h other hold
  · rw [List.mem_singleton.mp hnew]
    exact habout

theorem todo_eq_nil (h : Fit id [] [] v) : v.todo = [] := by
  rw [List.eq_nil_iff_forall_not_mem]
  intro statement hmem
  have habout := h.about statement hmem
  have hexecute := List.filter_eq_nil_iff.mp h.execute statement hmem
  have hend := List.filter_eq_nil_iff.mp h.terminate statement hmem
  rw [isEnd_eq_not habout] at hend
  simp at hexecute hend
  rw [hexecute] at hend
  nomatch hend

theorem not_finishing_over : ¬ Finishing .over := fun ⟨_, h⟩ => nomatch h

/-- The `finally`. -/
theorem settled_conclude (h : Fit id [] (endAwaits id v.run.ender) v) : Settled id v.conclude where
  about := h.about
  execute := h.execute
  terminate := h.terminate
  marked := fun hmem => by cases hmem
  early := by simp [View.conclude, View.setRun]
  opening := by simp [View.conclude, View.setRun]
  idle := h.idle
  taken := by
    rintro (hfinishing | hrecording)
    · exact absurd hfinishing not_finishing_over
    · exact h.taken (.inr hrecording)
  once := fun hfinishing => absurd hfinishing not_finishing_over
  outcome := fun _ hphase => by cases hphase
  rows := by
    intro row hrow
    refine (h.rows row hrow).of_run ?_ (fun hover => absurd rfl hover) (fun hphase => by cases hphase)
    rintro (hrunid | hfinishing | hrecording)
    · exact .inl hrunid
    · exact absurd hfinishing not_finishing_over
    · exact .inr (.inr hrecording)

/-- An execution that ends with a status. -/
theorem settled_finishExecute {status : Status} (h : Fit id [] (endAwaits id v.run.ender) v)
    (hphase : v.run.phase ≠ .over) (hstatus : status = .succeeded ∨ status = .failed) :
    Settled id (v.finishExecute id status) := by
  unfold View.finishExecute
  split
  next hrunid =>
    exact {
      about := about_sql h.about rfl
      execute := by
        simp [View.sql, View.setRun, List.filter_append, h.execute, executeAwaits, isExecute]
      terminate := by
        simp [View.sql, View.setRun, List.filter_append, h.terminate, isEnd]
      marked := by simp [executeAwaits, View.sql, View.setRun]
      early := by simp [View.sql, View.setRun]
      opening := by simp [View.sql, View.setRun]
      idle := h.idle
      taken := fun _ => rfl
      once := by
        intro _ hrecording
        have hnot := h.taken (.inr hrecording)
        rw [hrunid] at hnot
        cases hnot
      outcome := by
        intro other hother
        obtain rfl := Phase.finishing.inj hother
        exact hstatus
      rows := by
        intro row hrow
        refine (h.rows row hrow).of_run (fun _ => .inl hrunid) (fun _ _ => ⟨hphase, .inl hrunid⟩) ?_
        intro hmarking
        cases hmarking }
  next => exact settled_conclude h

theorem settled_failRun (h : Fit id [] (endAwaits id v.run.ender) v) (hphase : v.run.phase ≠ .over) :
    Settled id (v.failRun id) := by
  unfold View.failRun
  split
  · exact settled_conclude h
  · exact settled_finishExecute h hphase (.inr rfl)

/-- The row was inserted, or may have been. -/
theorem fit_inserted {phase : Phase} {runid : Bool} {row : Option Row}
    (h : Fit id [] (endAwaits id v.run.ender) v) (hphase : v.run.phase = .inserting)
    (hnext : phase = .opening ∧ runid = true ∨ phase = .working)
    (hrow : ∀ new ∈ row, new.terminals = [] ∧ new.status = .starting) :
    Fit id [] (endAwaits id v.run.ender)
      ((v.setRow row).setRun { v.run with phase := phase, runid := runid }) := by
  obtain ⟨_, _, _, hender⟩ := h.early (.inr hphase)
  have hnotRecording : v.run.ender ≠ .recording := by
    rcases hender with hidle | hdone
    · rw [hidle]
      decide
    · rw [hdone]
      decide
  have hnotFinishing : ¬ Finishing phase := by
    rintro ⟨status, rfl⟩
    rcases hnext with ⟨hopening, _⟩ | hworking
    · cases hopening
    · cases hworking
  exact {
    about := h.about
    execute := h.execute
    terminate := h.terminate
    marked := fun hmem => by cases hmem
    early := by
      rintro (hselecting | hinserting)
      all_goals
        simp only [View.setRun] at *
        subst phase
        simp at hnext
    opening := by
      intro hopening _
      rcases hnext with ⟨_, hrunid⟩ | hworking
      · exact hrunid
      · change phase = .opening at hopening
        rw [hworking] at hopening
        cases hopening
    idle := h.idle
    taken := by
      rintro (hfinishing | hrecording)
      · exact absurd hfinishing hnotFinishing
      · exact absurd hrecording hnotRecording
    once := fun hfinishing => absurd hfinishing hnotFinishing
    outcome := fun status hfinishing => absurd ⟨status, hfinishing⟩ hnotFinishing
    rows := by
      intro new hnew
      obtain ⟨hterminals, hstatus⟩ := hrow new hnew
      exact {
        same := by simp [hterminals]
        final := by simp [hterminals]
        last := .inl ⟨hterminals, .inl hstatus⟩
        pending := by simp [hterminals]
        active := fun _ _ => hterminals
        marking := fun _ => hterminals } }

/-- The run fails at its row. -/
theorem settled_failInserted {runid : Bool} {row : Option Row}
    (h : Fit id [] (endAwaits id v.run.ender) v) (hphase : v.run.phase = .inserting)
    (hrow : ∀ new ∈ row, new.terminals = [] ∧ new.status = .starting) :
    Settled id (((v.setRow row).setRun { v.run with runid := runid }).failRun id) := by
  have hinserted : Fit id [] (endAwaits id v.run.ender)
      ((v.setRow row).setRun { v.run with phase := .working, runid := runid }) :=
    fit_inserted h hphase (.inr rfl) hrow
  exact settled_failRun (v := (v.setRow row).setRun
    { v.run with phase := .working, runid := runid }) hinserted (fun hover => nomatch hover)

/-- The backend of the run was ended. -/
theorem settled_endWithout (h : Fit id (executeAwaits id v.run.phase) [] v) :
    Settled id ((v.setRun { v.run with ended := true }).finishEnd id) := by
  unfold View.finishEnd
  split
  next hrunid =>
    have hnotFinishing : ¬ Finishing v.run.phase := by
      intro hfinishing
      change v.run.runid = true at hrunid
      rw [h.taken (.inl hfinishing)] at hrunid
      cases hrunid
    exact {
      about := about_sql h.about rfl
      execute := by
        simp [View.sql, View.setRun, List.filter_append, h.execute, isExecute]
      terminate := by
        simp [View.sql, View.setRun, List.filter_append, h.terminate, isEnd, endAwaits]
      marked := by
        intro hmem
        have hhead := h.marked hmem
        simp only [View.sql, View.setRun]
        rw [List.head?_append, hhead]
        rfl
      early := by
        intro hearly
        change v.run.runid = true at hrunid
        rw [(h.early hearly).1] at hrunid
        cases hrunid
      opening := fun _ hnot => by cases hnot
      idle := by simp [View.sql, View.setRun]
      taken := fun _ => rfl
      once := fun hfinishing => absurd hfinishing hnotFinishing
      outcome := h.outcome
      rows := by
        intro row hrow
        refine (h.rows row hrow).of_run (fun _ => .inl hrunid) ?_ (h.rows row hrow).marking
        rintro hover (hfalse | hfinishing)
        · cases hfalse
        · exact absurd hfinishing hnotFinishing }
  next hrunid =>
    exact {
      about := h.about
      execute := h.execute
      terminate := h.terminate
      marked := h.marked
      early := fun hearly => ⟨(h.early hearly).1, (h.early hearly).2.1, (h.early hearly).2.2.1, .inr rfl⟩
      opening := fun _ hnot => by cases hnot
      idle := by simp [View.setRun]
      taken := fun _ => (Bool.not_eq_true _).mp hrunid
      once := fun _ => by simp [View.setRun]
      outcome := h.outcome
      rows := by
        intro row hrow
        refine (h.rows row hrow).of_run ?_ (fun hover hbefore => ⟨hover, hbefore⟩)
          (h.rows row hrow).marking
        rintro (hrunid' | hfinishing | hrecording)
        · exact .inl hrunid'
        · exact .inr (.inl hfinishing)
        · cases hrecording }

theorem settled_finishEnd (h : Fit id (executeAwaits id v.run.phase) [] v)
    (hended : v.run.ended = true) : Settled id (v.finishEnd id) := by
  have hsame : v.setRun { v.run with ended := true } = v := by
    rw [← hended]
    rfl
  rw [← hsame]
  exact settled_endWithout h

/-- A change of the record that the row does not notice, outside of an ending. -/
theorem settled_ender {ender : Ender} (h : Fit id (executeAwaits id v.run.phase) [] v)
    (hender : ender = .killing ∨ ender = .lastResort)
    (hlate : v.run.phase ≠ .selecting ∧ v.run.phase ≠ .inserting) :
    Settled id (v.setRun { v.run with ended := true, ender := ender }) := by
  have hawaits : endAwaits id ender = [] := by
    rcases hender with rfl | rfl <;> rfl
  have hnotRecording : ender ≠ .recording := by
    rcases hender with rfl | rfl <;> decide
  have hnotIdle : ender ≠ .idle := by
    rcases hender with rfl | rfl <;> decide
  exact {
    about := h.about
    execute := h.execute
    terminate := h.terminate.trans hawaits.symm
    marked := h.marked
    early := by
      rintro (hselecting | hinserting)
      · exact absurd hselecting hlate.1
      · exact absurd hinserting hlate.2
    opening := fun _ hnot => nomatch hnot
    idle := by simp [View.setRun, hnotIdle]
    taken := by
      rintro (hfinishing | hrecording)
      · exact h.taken (.inl hfinishing)
      · exact absurd hrecording hnotRecording
    once := fun _ => hnotRecording
    outcome := h.outcome
    rows := by
      intro row hrow
      refine (h.rows row hrow).of_run ?_ (fun hover hbefore => ⟨hover, hbefore⟩)
        (h.rows row hrow).marking
      rintro (hrunid | hfinishing | hrecording)
      · exact .inl hrunid
      · exact .inr (.inl hfinishing)
      · exact absurd hrecording hnotRecording }

/-- A run is ended from outside. -/
theorem settled_endRun (h : Settled id v) : Settled id (v.endRun id) := by
  unfold View.endRun
  split
  next => exact h
  next hended =>
    have hidle : v.run.ender = .idle := h.idle.mp ((Bool.not_eq_true _).mp hended)
    have hfit : Fit id (executeAwaits id v.run.phase) [] v := by
      have hawaits : endAwaits id v.run.ender = [] := by rw [hidle]; rfl
      rw [← hawaits]
      exact h
    split
    next hpid =>
      refine settled_ender hfit (.inl rfl) ⟨?_, ?_⟩
      all_goals
        intro hearly
        rw [(h.early (by simp [hearly])).2.1] at hpid
        nomatch hpid
    next => exact settled_endWithout hfit

end

/-! ## Every answer -/

section

variable {id : ℕ} {v : View} {todo : List Statement} {answer : Runner.Answer} {stopping : Bool}

/-- Only the statuses of a row matter. -/
theorem RowFit.congr {run : Run} {old new : Row} (h : RowFit run old)
    (hterminals : new.terminals = old.terminals) (hstatus : new.status = old.status) :
    RowFit run new := by
  constructor
  all_goals simp only [hterminals, hstatus]
  · exact h.same
  · exact h.final
  · exact h.last
  · exact h.pending
  · exact h.active
  · exact h.marking

/-- The row of a finish. -/
theorem RowFit.finished {run run' : Run} {row : Row} {status : Status} (h : RowFit run row)
    (hstatus : status = .succeeded ∨ status = .failed)
    (hbefore : row.terminals = [] ∨ status = .failed ∧ ∀ other ∈ row.terminals, other = .failed)
    (hafter : run'.runid = false ∧ ¬ Finishing run'.phase ∧ run'.ender ≠ .recording)
    (hmarking : run'.phase ≠ .marking) {new : Row}
    (hnew : new.terminals = row.terminals ++ [status] ∧ new.status = status) :
    RowFit run' new where
  same := by
    have hall : ∀ other ∈ new.terminals, other = status := by
      intro other hother
      rw [hnew.1] at hother
      rcases List.mem_append.mp hother with hold | hnew
      · rcases hbefore with hnone | ⟨rfl, hsame⟩
        · rw [hnone] at hold
          nomatch hold
        · exact hsame other hold
      · exact List.mem_singleton.mp hnew
    intro a ha b hb
    rw [hall a ha, hall b hb]
  final := by
    intro other hother
    rw [hnew.1] at hother
    rcases List.mem_append.mp hother with hold | hlast
    · exact h.final other hold
    · rwa [List.mem_singleton.mp hlast]
  last := .inr (by simp [hnew])
  pending := by
    rintro (hrunid | hfinishing | hrecording)
    · rw [hafter.1] at hrunid
      nomatch hrunid
    · exact absurd hfinishing hafter.2.1
    · exact absurd hrecording hafter.2.2
  active := by
    rintro _ (hrunid | hfinishing)
    · rw [hafter.1] at hrunid
      nomatch hrunid
    · exact absurd hfinishing hafter.2.1
  marking := fun hphase => absurd hphase hmarking

/-- The `await` that a statement of `execute` belongs to. -/
theorem phase_of_awaits {phase phase' : Phase} {statement : Statement}
    (h : executeAwaits id phase = [statement]) (h' : executeAwaits id phase' = [statement]) :
    phase = phase' := by
  cases phase <;> cases phase' <;> grind [executeAwaits]

theorem ender_of_awaits {ender ender' : Ender} {statement : Statement}
    (h : endAwaits id ender = [statement]) (h' : endAwaits id ender' = [statement]) :
    ender = ender' := by
  cases ender <;> cases ender' <;> grind [endAwaits]

theorem settled_select (h : Settled id v) (htodo : v.todo = .select id :: todo) :
    Settled id (View.settle id { v with todo := todo } answer stopping (.select id)) := by
  obtain ⟨hawaits, hfit⟩ := fit_executePop h rfl htodo rfl
  have hphase : v.run.phase = .selecting := phase_of_awaits hawaits rfl
  have hactive : v.run.phase ≠ .over := by rw [hphase]; decide
  have hearly := h.early (.inl hphase)
  simp only [View.settle, View.written, View.apply, View.spoil, ite_self, View.resume]
  split
  next => exact settled_failRun hfit hactive
  next =>
    split
    next => exact settled_conclude hfit
    next =>
      exact {
        about := about_sql hfit.about rfl
        execute := by
          simp [View.sql, View.setRun, List.filter_append, hfit.execute, executeAwaits, isExecute]
        terminate := by
          simp [View.sql, View.setRun, List.filter_append, hfit.terminate, isEnd]
        marked := by simp [executeAwaits, View.sql, View.setRun]
        early := fun _ => hearly
        opening := fun hopening => by cases hopening
        idle := h.idle
        taken := fun _ => hearly.1
        once := by rintro ⟨_, ⟨⟩⟩
        outcome := fun _ hfinishing => by cases hfinishing
        rows := by
          intro row hrow
          change row ∈ v.row at hrow
          rw [hearly.2.2.1] at hrow
          cases hrow }

theorem settled_insert (h : Settled id v) (htodo : v.todo = .insert id :: todo) :
    Settled id (View.settle id { v with todo := todo } answer stopping (.insert id)) := by
  obtain ⟨hawaits, hfit⟩ := fit_executePop h rfl htodo rfl
  have hphase : v.run.phase = .inserting := phase_of_awaits hawaits rfl
  have hactive : v.run.phase ≠ .over := by rw [hphase]; decide
  have hrow : ∀ new ∈ some (⟨.starting, [], !answer.ok⟩ : Row),
      new.terminals = [] ∧ new.status = .starting := by
    rintro new ⟨⟩
    exact ⟨rfl, rfl⟩
  by_cases hok : answer.ok
  · rw [hok, Bool.not_true] at hrow
    have hinserted := fit_inserted (v := { v with todo := todo }) hfit hphase (.inl ⟨rfl, rfl⟩) hrow
    simp only [View.settle, View.written, View.apply, View.resume, hok, true_or, if_true, Bool.not_true,
      Bool.false_eq_true, if_false]
    by_cases hstop : stopping = true ∨ (!answer.developer) = true
    · simp only [hstop, if_true]
      exact settled_failInserted (v := { v with todo := todo }) hfit hphase hrow
    · simp only [hstop, if_false]
      exact hinserted
  · rw [Bool.not_eq_true] at hok
    rw [hok, Bool.not_false] at hrow
    simp only [View.settle, View.written, View.apply, View.spoil, View.resume, hok, Bool.false_eq_true, false_or,
      if_false, Bool.not_false, if_true]
    split
    next =>
      exact settled_failInserted (v := { v with todo := todo }) hfit hphase hrow
    next => exact settled_failRun hfit hactive

theorem settled_mark (h : Settled id v) (htodo : v.todo = .mark id :: todo) :
    Settled id (View.settle id { v with todo := todo } answer stopping (.mark id)) := by
  obtain ⟨hawaits, hfit⟩ := fit_executePop h rfl htodo rfl
  have hphase : v.run.phase = .marking := phase_of_awaits hawaits rfl
  have hactive : v.run.phase ≠ .over := by rw [hphase]; decide
  have hmarked : ∀ row', (∀ row ∈ row', RowFit v.run row) →
      Fit id [] (endAwaits id v.run.ender) { v with todo := todo, row := row' } := by
    intro row' hrows
    exact { hfit with
      early := by simp [hphase]
      rows := hrows }
  have hrows : ∀ row ∈ v.row.map fun row => { row with status := .running },
      RowFit v.run row := by
    intro row hrow
    obtain ⟨old, hold, rfl⟩ := Option.map_eq_some_iff.mp hrow
    have hfitRow := h.rows old hold
    have hterminals := hfitRow.marking hphase
    exact { hfitRow with last := .inl ⟨hterminals, .inr rfl⟩ }
  have happly : Fit id [] (endAwaits id v.run.ender)
      (if answer.ok ∨ answer.effect then
        { v with todo := todo, row := v.row.map fun row => { row with status := .running } }
      else { v with todo := todo }) := by
    split
    · exact hmarked _ hrows
    · exact hfit
  simp only [View.settle, View.written, View.apply, View.spoil, ite_self, View.resume, View.setRow]
  generalize hv : (if answer.ok ∨ answer.effect then
    { v with todo := todo, row := v.row.map fun row => { row with status := .running } }
    else { v with todo := todo } : View) = w at happly ⊢
  have hrun : w.run = v.run := by
    rw [← hv]
    split <;> rfl
  rw [← hrun] at happly hphase hactive
  split
  next => exact settled_failRun happly hactive
  next =>
    have hnotFinishing : ¬ Finishing .working := by rintro ⟨_, ⟨⟩⟩
    exact {
      about := happly.about
      execute := happly.execute
      terminate := happly.terminate
      marked := fun hmem => by cases hmem
      early := by simp [View.setRun]
      opening := fun hopening => by cases hopening
      idle := happly.idle
      taken := by
        rintro (hfinishing | hrecording)
        · exact absurd hfinishing hnotFinishing
        · exact happly.taken (.inr hrecording)
      once := fun hfinishing => absurd hfinishing hnotFinishing
      outcome := fun status hfinishing => by cases hfinishing
      rows := by
        intro row hrow
        refine (happly.rows row hrow).of_run ?_ ?_ (fun hmarking => by cases hmarking)
        · rintro (hrunid | hfinishing | hrecording)
          · exact .inl hrunid
          · exact absurd hfinishing hnotFinishing
          · exact .inr (.inr hrecording)
        · rintro _ (hrunid | hfinishing)
          · exact ⟨hactive, .inl hrunid⟩
          · exact absurd hfinishing hnotFinishing }

/-- The row that a finish leaves, whether it failed or not. -/
theorem written_finish {status : Status} {caller : Caller} {new : Row}
    (h : new ∈ (v.written answer (.finish id status caller)).row) :
    ∃ old ∈ v.row, new.terminals = old.terminals ∧ new.status = old.status ∨
      new.terminals = old.terminals ++ [status] ∧ new.status = status := by
  cases hrow : v.row with
  | none =>
    unfold View.written at h
    split_ifs at h <;> simp [View.apply, View.spoil, View.setRow, hrow] at h
  | some old =>
    refine ⟨old, rfl, ?_⟩
    unfold View.written at h
    split_ifs at h <;> simp [View.apply, View.spoil, View.setRow, hrow] at h <;> simp [← h]

theorem settled_finish_execute {status : Status} (h : Settled id v)
    (htodo : v.todo = .finish id status .execute :: todo) :
    Settled id (View.settle id { v with todo := todo } answer stopping
      (.finish id status .execute)) := by
  obtain ⟨hawaits, hfit⟩ := fit_executePop h rfl htodo rfl
  have hphase : v.run.phase = .finishing status := phase_of_awaits hawaits rfl
  have hfinishing : Finishing v.run.phase := ⟨status, hphase⟩
  have hrunid : v.run.runid = false := h.taken (.inl hfinishing)
  have hender : v.run.ender ≠ .recording := h.once hfinishing
  have hconclude : Settled id (View.conclude { v with todo := todo }) := settled_conclude hfit
  simp only [View.settle, View.resume, View.conclude, View.setRun, written_run]
  exact {
    about := by
      simp only [written_todo]
      exact hconclude.about
    execute := by
      simp only [written_todo]
      exact hconclude.execute
    terminate := by
      simp only [written_todo]
      exact hconclude.terminate
    marked := fun hmem => by cases hmem
    early := by simp
    opening := by simp
    idle := h.idle
    taken := fun _ => hrunid
    once := fun hover => absurd hover not_finishing_over
    outcome := fun _ hover => by cases hover
    rows := by
      intro new hnew
      obtain ⟨old, hold, ⟨hterminals, hstatus⟩ | hlast⟩ := written_finish hnew
      · exact (hconclude.rows old hold).congr hterminals hstatus
      · have hactive : v.run.phase ≠ .over := by simp [hphase]
        have hnone := (h.rows old hold).active hactive (.inr hfinishing)
        refine (h.rows old hold).finished (h.outcome status hphase) (.inl hnone) ?_ ?_ hlast
        · exact ⟨hrunid, not_finishing_over, hender⟩
        · exact fun hmarking => by cases hmarking }

theorem settled_finish_end {status : Status} (h : Settled id v)
    (htodo : v.todo = .finish id status .terminate :: todo) :
    Settled id (View.settle id { v with todo := todo } answer stopping
      (.finish id status .terminate)) := by
  obtain ⟨hawaits, hmarking, hfit⟩ := fit_endPop h rfl htodo rfl
  have hender : v.run.ender = .recording := by
    cases hender : v.run.ender <;> rw [hender] at hawaits <;> simp [endAwaits] at hawaits
  have hstatus : status = .failed := by
    rw [hender] at hawaits
    simp [endAwaits] at hawaits
    exact hawaits.symm
  have hrunid : v.run.runid = false := h.taken (.inr hender)
  have hnotFinishing : ¬ Finishing v.run.phase := fun hfinishing => h.once hfinishing hender
  have hended : v.run.ended = true := by
    rw [← Bool.not_eq_false]
    intro hnot
    rw [h.idle.mp hnot] at hender
    cases hender
  simp only [View.settle, View.resume, View.setRun, written_run]
  exact {
    about := by
      simp only [written_todo]
      exact hfit.about
    execute := by
      simp only [written_todo]
      exact hfit.execute
    terminate := by
      simp only [written_todo]
      exact hfit.terminate
    marked := by
      simp only [written_todo]
      exact hfit.marked
    early := by
      intro hearly
      rcases (h.early hearly).2.2.2 with hidle | hdone
      · rw [hidle] at hender
        cases hender
      · rw [hdone] at hender
        cases hender
    opening := by
      intro _ hnot
      rw [hended] at hnot
      cases hnot
    idle := by simp [hended]
    taken := fun _ => hrunid
    once := fun hfinishing => absurd hfinishing hnotFinishing
    outcome := h.outcome
    rows := by
      intro new hnew
      obtain ⟨old, hold, ⟨hterminals, hsame⟩ | hlast⟩ := written_finish hnew
      · refine RowFit.congr ((h.rows old hold).of_run ?_ ?_ ?_) hterminals hsame
        · exact fun _ => .inr (.inr hender)
        · exact fun hover hbefore => ⟨hover, hbefore⟩
        · exact fun hmark => absurd hmark hmarking
      · have hfailed := (h.rows old hold).pending (.inr (.inr hender))
        refine (h.rows old hold).finished (.inr hstatus) (.inr ⟨hstatus, hfailed⟩) ?_ ?_ hlast
        · exact ⟨hrunid, hnotFinishing, fun hrecording => by cases hrecording⟩
        · exact hmarking }

theorem settled_kill (h : Settled id v) (htodo : v.todo = .kill id :: todo) :
    Settled id (View.settle id { v with todo := todo } answer stopping (.kill id)) := by
  obtain ⟨hawaits, _, hfit⟩ := fit_endPop h rfl htodo rfl
  have hender : v.run.ender = .asking := ender_of_awaits hawaits rfl
  have hended : v.run.ended = true := by
    rw [← Bool.not_eq_false]
    intro hnot
    rw [h.idle.mp hnot] at hender
    cases hender
  simp only [View.settle, View.written, View.apply, View.spoil, ite_self, View.resume]
  split
  · exact settled_finishEnd hfit hended
  · have hlate : v.run.phase ≠ .selecting ∧ v.run.phase ≠ .inserting := by
      constructor
      all_goals
        intro hearly
        rcases (h.early (by simp [hearly])).2.2.2 with hidle | hdone
        · rw [hidle] at hender
          cases hender
        · rw [hdone] at hender
          cases hender
    have hlast := settled_ender (v := { v with todo := todo }) hfit (.inr rfl) hlate
    rw [← hended] at hlast
    exact hlast

/-- A run that settled settles again when a statement about it is answered. -/
theorem settled_settle {statement : Statement} (h : Settled id v)
    (htodo : v.todo = statement :: todo) :
    Settled id (View.settle id { v with todo := todo } answer stopping statement) := by
  have habout := h.about statement (htodo ▸ List.mem_cons_self)
  cases statement <;> cases habout
  case select.refl => exact settled_select h htodo
  case insert.refl => exact settled_insert h htodo
  case mark.refl => exact settled_mark h htodo
  case finish.refl status caller =>
    cases caller with
    | execute => exact settled_finish_execute h htodo
    | terminate => exact settled_finish_end h htodo
  case kill.refl => exact settled_kill h htodo

end

/-! ## Every other event of a run -/

section

variable {id : ℕ} {v : View}

/-- A run that waits for no statement. -/
theorem Settled.free (h : Settled id v) (hphase : executeAwaits id v.run.phase = []) :
    Fit id [] (endAwaits id v.run.ender) v := by
  rw [← hphase]
  exact h

theorem settled_pid (h : Settled id v) (hphase : v.run.phase = .opening) :
    Fit id [] (endAwaits id v.run.ender) (v.setRun { v.run with pid := true }) := by
  have hfree := h.free (by rw [hphase]; rfl)
  exact {
    about := hfree.about
    execute := hfree.execute
    terminate := hfree.terminate
    marked := hfree.marked
    early := by simp [View.setRun, hphase]
    opening := hfree.opening
    idle := hfree.idle
    taken := hfree.taken
    once := hfree.once
    outcome := hfree.outcome
    rows := fun row hrow => { hfree.rows row hrow with } }

/-- The connection of a run is there, and its row is to be marked. -/
theorem settled_marking (h : Settled id v) (hphase : v.run.phase = .opening)
    (hended : v.run.ended = false) :
    Settled id ((v.setRun { v.run with pid := true, phase := .marking }).sql (.mark id)) := by
  have hidle : v.run.ender = .idle := h.idle.mp hended
  have hrunid : v.run.runid = true := h.opening hphase hended
  have hfree : Fit id [] [] v := by
    have hfree := h.free (by rw [hphase]; rfl)
    rwa [hidle] at hfree
  have htodo := todo_eq_nil hfree
  have hnotFinishing : ¬ Finishing .marking := fun ⟨_, hfinishing⟩ => nomatch hfinishing
  exact {
    about := about_sql h.about rfl
    execute := by simp [View.sql, View.setRun, htodo, executeAwaits, isExecute]
    terminate := by simp [View.sql, View.setRun, htodo, hidle, endAwaits, isEnd]
    marked := fun _ => by simp [View.sql, View.setRun, htodo]
    early := by simp [View.sql, View.setRun]
    opening := fun hopening => nomatch hopening
    idle := h.idle
    taken := by
      rintro (hfinishing | hrecording)
      · exact absurd hfinishing hnotFinishing
      · exact h.taken (.inr hrecording)
    once := fun hfinishing => absurd hfinishing hnotFinishing
    outcome := fun _ hfinishing => nomatch hfinishing
    rows := by
      intro row hrow
      have hactive : v.run.phase ≠ .over := by simp [hphase]
      have hterminals := (h.rows row hrow).active hactive (.inl hrunid)
      refine (h.rows row hrow).of_run ?_ ?_ (fun _ => hterminals)
      · exact fun _ => .inl hrunid
      · exact fun _ _ => ⟨hactive, .inl hrunid⟩ }

/-- The bookkeeping session is to end the backend. -/
theorem settled_asking (h : Settled id v) (hender : v.run.ender = .killing) :
    Settled id ((v.setRun { v.run with ender := .asking }).sql (.kill id)) := by
  have hterminate := h.terminate
  rw [hender] at hterminate
  exact {
    about := about_sql h.about rfl
    execute := by simp [View.sql, View.setRun, List.filter_append, h.execute, isExecute]
    terminate := by
      simp [View.sql, View.setRun, List.filter_append, hterminate, endAwaits, isEnd]
    marked := by
      intro hmem
      have hhead := h.marked hmem
      simp only [View.sql, View.setRun]
      rw [List.head?_append, hhead]
      rfl
    early := by
      intro hearly
      rcases (h.early hearly).2.2.2 with hidle | hdone
      · rw [hidle] at hender
        cases hender
      · rw [hdone] at hender
        cases hender
    opening := h.opening
    idle := by
      have hidle := h.idle
      rw [hender] at hidle
      simpa [View.sql, View.setRun] using hidle
    taken := by
      rintro (hfinishing | hrecording)
      · exact h.taken (.inl hfinishing)
      · cases hrecording
    once := fun _ hrecording => by cases hrecording
    outcome := h.outcome
    rows := by
      intro row hrow
      refine (h.rows row hrow).of_run ?_ (fun hover hbefore => ⟨hover, hbefore⟩)
        (h.rows row hrow).marking
      rintro (hrunid | hfinishing | hrecording)
      · exact .inl hrunid
      · exact .inr (.inl hfinishing)
      · cases hrecording }

/-- A session that finds no run in flight marks the rows that are open. -/
theorem settled_sweep (h : Settled id v) (hover : v.run.phase = .over) :
    Settled id (v.setRow (v.row.map State.sweepRow)) := by
  have hswept : ∀ row, RowFit v.run row → RowFit v.run (State.sweepRow row) := by
    intro row hrow
    unfold State.sweepRow
    split
    case h_3 => exact hrow
    all_goals
      next hstatus =>
      have hterminals : row.terminals = [] := by
        rcases hrow.last with ⟨hterminals, _⟩ | hmem
        · exact hterminals
        · rw [hstatus] at hmem
          rcases hrow.final _ hmem with hfalse | hfalse <;> nomatch hfalse
      exact {
        same := by simp [hterminals]
        final := by simp [hterminals]
        last := .inr (by simp)
        pending := by simp [hterminals]
        active := fun hactive => absurd hover hactive
        marking := fun hmarking => by rw [hover] at hmarking; nomatch hmarking }
  exact { h with
    early := by simp [View.setRow, hover]
    rows := by
      intro row hrow
      obtain ⟨old, hold, rfl⟩ := Option.map_eq_some_iff.mp hrow
      exact hswept old (h.rows old hold) }

/-- A run that starts. -/
theorem settled_start (h : Settled id v) (jobid : ℕ) (hrun : v.run = .none) (hrow : v.row = none) :
    Settled id ((v.setRun ⟨jobid, .selecting, false, false, false, .idle⟩).sql (.select id)) := by
  have hfree : Fit id [] [] v := by
    have hsettled := h
    unfold Settled at hsettled
    rwa [hrun] at hsettled
  have htodo := todo_eq_nil hfree
  exact {
    about := about_sql h.about rfl
    execute := by simp [View.sql, View.setRun, htodo, executeAwaits, isExecute]
    terminate := by simp [View.sql, View.setRun, htodo, endAwaits, isEnd]
    marked := by simp [View.sql, View.setRun, executeAwaits]
    early := fun _ => ⟨rfl, rfl, hrow, .inl rfl⟩
    opening := fun hopening => by cases hopening
    idle := by simp [View.sql, View.setRun]
    taken := fun _ => rfl
    once := by rintro ⟨_, ⟨⟩⟩
    outcome := fun _ hfinishing => by cases hfinishing
    rows := by
      intro row hmem
      change row ∈ v.row at hmem
      rw [hrow] at hmem
      cases hmem }

end

end Sbarbase.Scheduler.Proofs.RunnerRows
