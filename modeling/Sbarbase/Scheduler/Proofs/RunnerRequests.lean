import Sbarbase.Scheduler.Proofs.RunnerSteps
/-!
# Requests

The requests in flight are those being sent and those whose response waits in the
queue. The loop has one statement in the queue at most, and one that drains leaves
room for what it may take.
-/

namespace Sbarbase.Scheduler.Proofs.RunnerRequests

open Lib Runner RunnerViews RunnerRuns RunnerSteps

/-- The statements of the loop. -/
def isTick : Statement → Bool
  | .jobs | .drain _ | .prune _ => true
  | _ => false

structure Orderly (g : Globals) : Prop where
  requests : g.requests = g.sending + g.todo.count .response
  room : g.requests ≤ MAX_REQUESTS
  ticks : (g.todo.filter isTick).length ≤ if g.loop = .ticking then 1 else 0
  drain : ∀ room, .drain room ∈ g.todo → g.requests + room ≤ MAX_REQUESTS

/-- The loop waits for no statement. -/
structure Quiet (g : Globals) : Prop where
  requests : g.requests = g.sending + g.todo.count .response
  room : g.requests ≤ MAX_REQUESTS
  ticks : ∀ statement ∈ g.todo, isTick statement = false

section

variable {s s' : State}

theorem Orderly.quiet (h : Orderly (globals s)) (hloop : s.loop ≠ .ticking) :
    Quiet (globals s) where
  requests := h.requests
  room := h.room
  ticks := by
    have hnot : (globals s).loop ≠ .ticking := hloop
    have hticks := h.ticks
    rw [if_neg hnot] at hticks
    have hnone := List.length_eq_zero_iff.mp (Nat.le_zero.mp hticks)
    intro statement hmem
    exact (Bool.not_eq_true _).mp (List.filter_eq_nil_iff.mp hnone statement hmem)

theorem Quiet.orderly (h : Quiet (globals s)) : Orderly (globals s) where
  requests := h.requests
  room := h.room
  ticks := by
    rw [List.filter_eq_nil_iff.mpr fun statement hmem => by simp [h.ticks statement hmem]]
    exact Nat.zero_le _
  drain := by
    intro room hmem
    nomatch h.ticks _ hmem

/-- The loop waits for its next statement. -/
theorem Quiet.sql (h : Quiet (globals s)) {statement : Statement} (hloop : s.loop = .ticking)
    (htick : isTick statement = true)
    (hdrain : ∀ room, statement = .drain room → s.requests + room ≤ MAX_REQUESTS) :
    Orderly (globals (s.sql statement)) := by
  have habout : about statement = none := by
    cases statement <;> first | rfl | cases htick
  have htodo : (globals (s.sql statement)).todo = (globals s).todo ++ [statement] := by
    simp [globals, State.sql, List.filter_append, habout]
  have hticks : (globals s).todo.filter isTick = [] :=
    List.filter_eq_nil_iff.mpr fun statement hmem => by simp [h.ticks statement hmem]
  have hresponse : statement ≠ .response := by
    rintro rfl
    cases htick
  exact {
    requests := by
      rw [htodo, List.count_append, List.count_singleton, if_neg (by simpa using hresponse)]
      exact h.requests
    room := h.room
    ticks := by
      rw [htodo, List.filter_append, hticks]
      change _ ≤ if s.loop = .ticking then 1 else 0
      simp [hloop, htick]
    drain := by
      intro room hmem
      rw [htodo] at hmem
      rcases List.mem_append.mp hmem with hold | hnew
      · cases h.ticks _ hold
      · exact hdrain room (List.mem_singleton.mp hnew).symm }

theorem Quiet.of_eq (h : Quiet (globals s)) (htodo : (globals s').todo = (globals s).todo)
    (hrequests : s'.requests = s.requests) (hsending : s'.sending = s.sending) :
    Quiet (globals s') where
  requests := by
    rw [htodo]
    change s'.requests = s'.sending + _
    rw [hrequests, hsending]
    exact h.requests
  room := by
    change s'.requests ≤ _
    rw [hrequests]
    exact h.room
  ticks := by
    rw [htodo]
    exact h.ticks

/-! ## The tick -/

theorem quiet_reload (h : Quiet (globals s)) (rows : List (ℕ × String)) :
    Quiet (globals (s.reload rows)) ∧ (s.reload rows).loop = s.loop := by
  induction rows generalizing s with
  | nil => exact ⟨h, rfl⟩
  | cons row rows ih =>
    obtain ⟨jobid, schedule⟩ := row
    unfold State.reload
    exact ih (h.of_eq rfl rfl rfl)

theorem quiet_startRuns (h : Quiet (globals s)) (rows : List (ℕ × String)) :
    Quiet (globals (s.startRuns rows)) ∧ (s.startRuns rows).loop = s.loop := by
  induction rows generalizing s with
  | nil => exact ⟨h, rfl⟩
  | cons row rows ih =>
    obtain ⟨jobid, schedule⟩ := row
    unfold State.startRuns
    split
    · exact ⟨h, rfl⟩
    · cases s.jobs jobid with
      | none => exact ih h
      | some job =>
        simp only
        split
        · have htodo : (globals (s.startRun jobid job)).todo = (globals s).todo := by
            simp [globals, State.startRun, List.filter_append, about]
          exact ih (s := s.startRun jobid job) (h.of_eq htodo rfl rfl)
        · exact ih h

theorem orderly_pruneOrPause (h : Quiet (globals s)) (hloop : s.loop = .ticking)
    (answer : Runner.Answer) : Orderly (globals (s.pruneOrPause answer)) := by
  unfold State.pruneOrPause
  split
  · exact h.sql hloop rfl (fun _ hdrain => nomatch hdrain)
  · exact Quiet.orderly (h.of_eq rfl rfl rfl)

theorem orderly_tick (h : Quiet (globals s)) (hloop : s.loop = .ticking) (answer : Runner.Answer) :
    Orderly (globals (s.tick answer)) := by
  obtain ⟨hread, hreadLoop⟩ := quiet_reload h answer.rows
  have hdue : Quiet (globals (((s.reload answer.rows).forget (answer.rows.map Prod.fst)).due
      answer.isDue)) := hread.of_eq rfl rfl rfl
  obtain ⟨hstarted, hstartedLoop⟩ := quiet_startRuns hdue answer.rows
  have hticking := hstartedLoop.trans (hreadLoop.trans hloop)
  have hroom := hstarted.room
  simp only [State.tick]
  split
  · exact orderly_pruneOrPause hstarted hticking answer
  · refine hstarted.sql hticking rfl fun room hdrain => ?_
    obtain rfl := Statement.drain.inj hdrain
    exact (Nat.add_sub_cancel' hroom).le

theorem orderly_tickFailed (h : Quiet (globals s)) : Orderly (globals s.tickFailed) :=
  Quiet.orderly (h.of_eq rfl rfl rfl)

/-- A statement of the loop is answered. -/
theorem orderly_resumeTick (h : Quiet (globals s)) (hloop : s.loop = .ticking) (answer : Runner.Answer)
    {statement : Statement} (htick : isTick statement = true)
    (hdrain : ∀ room, statement = .drain room → s.requests + room ≤ MAX_REQUESTS) :
    Orderly (globals (s.resume answer statement)) := by
  cases statement with
  | jobs =>
    simp only [State.resume]
    split
    · exact orderly_tick h hloop answer
    · exact orderly_tickFailed h
  | drain room =>
    have hroom := hdrain room rfl
    have hrequests := h.requests
    change s.requests = s.sending + _ at hrequests
    simp only [State.resume]
    split
    · refine orderly_pruneOrPause (s := { s with
        requests := s.requests + min answer.taken room
        sending := s.sending + min answer.taken room }) ?_ hloop answer
      constructor
      · change s.requests + _ = s.sending + _ + _
        rw [hrequests]
        simp only [globals]
        omega
      · change s.requests + min answer.taken room ≤ _
        omega
      · exact h.ticks
    · exact orderly_tickFailed h
  | prune more =>
    simp only [State.resume]
    split
    · exact orderly_tickFailed h
    · split
      · exact h.sql hloop rfl (fun _ hdrain => by cases hdrain)
      · exact Quiet.orderly (h.of_eq rfl rfl rfl)
  | response => cases htick
  | select id => cases htick
  | insert id => cases htick
  | mark id => cases htick
  | finish id status caller => cases htick
  | kill id => cases htick

/-- A statement that is about no run is answered. -/
theorem orderly_settle (h : Orderly (globals s)) {statement : Statement} {queue : List Statement}
    (book : Bool) (hqueue : s.queue = statement :: queue) (answer : Runner.Answer)
    (habout : about statement = none) :
    Orderly (globals ({ s with queue := queue, book := book }.settle answer statement)) := by
  have htodo : (globals s).todo = statement :: queue.filter fun other => about other = none := by
    simp [globals, hqueue, habout]
  have hrequests := h.requests
  have hticks := h.ticks
  have hdrain := h.drain
  rw [htodo] at hrequests hticks hdrain
  rw [settle_of_about _ _ habout]
  by_cases htick : isTick statement = true
  · have hloop : s.loop = .ticking := by
      by_contra hnot
      have hnone : (globals s).loop ≠ .ticking := hnot
      rw [List.filter_cons_of_pos htick, if_neg hnone] at hticks
      simp at hticks
    have hone : (globals s).loop = .ticking := hloop
    rw [List.filter_cons_of_pos htick, if_pos hone] at hticks
    have hrest : (queue.filter fun other => about other = none).filter isTick = [] := by
      rw [← List.length_eq_zero_iff]
      rw [List.length_cons] at hticks
      omega
    have hresponse : statement ≠ .response := by
      rintro rfl
      cases htick
    refine orderly_resumeTick (s := { s with queue := queue, book := book }) ?_ hloop answer htick
      fun room hsame => hdrain room (hsame ▸ List.mem_cons_self)
    constructor
    · rw [List.count_cons_of_ne hresponse] at hrequests
      exact hrequests
    · exact h.room
    · intro other hmem
      exact (Bool.not_eq_true _).mp (List.filter_eq_nil_iff.mp hrest other hmem)
  · cases statement with
    | response =>
      rw [List.count_cons_self] at hrequests
      have hroom := h.room
      change s.requests ≤ _ at hroom
      change s.requests = s.sending + _ at hrequests
      simp only [State.resume]
      constructor
      · change s.requests - 1 = s.sending + _
        simp only [globals]
        omega
      · change s.requests - 1 ≤ _
        omega
      · exact hticks
      · intro room hmem
        have hold := hdrain room (List.mem_cons_of_mem _ hmem)
        change s.requests + room ≤ _ at hold
        change s.requests - 1 + room ≤ _
        omega
    | jobs => exact absurd rfl htick
    | drain room => exact absurd rfl htick
    | prune more => exact absurd rfl htick
    | select id => cases habout
    | insert id => cases habout
    | mark id => cases habout
    | finish id status caller => cases habout
    | kill id => cases habout

/-! ## The events -/

theorem Orderly.of_eq (h : Orderly (globals s)) (htodo : (globals s').todo = (globals s).todo)
    (hloop : s'.loop = s.loop) (hrequests : s'.requests = s.requests)
    (hsending : s'.sending = s.sending) : Orderly (globals s') := by
  have hsame : globals s' = { globals s with
      count := s'.count, stop := s'.stop } := by
    simp only [globals] at htodo ⊢
    rw [htodo, hloop, hrequests, hsending]
  rw [hsame]
  exact ⟨h.requests, h.room, h.ticks, h.drain⟩

theorem Orderly.acted (h : Orderly (globals s)) (hacted : Acted s s') : Orderly (globals s') := by
  rw [hacted.globals]
  exact h

/-- The first statement of the queue is answered. -/
theorem orderly_answered (hsound : Sound s) (h : Orderly (globals s)) {statement : Statement}
    {queue : List Statement} (book : Bool) (hqueue : s.queue = statement :: queue)
    (answer : Runner.Answer) :
    Orderly (globals ({ s with queue := queue, book := book }.settle answer statement)) := by
  cases habout : about statement with
  | none => exact orderly_settle h book hqueue answer habout
  | some id => exact h.acted (acted_settle hsound book hqueue answer habout)

/-- The loop begins a tick, or ends. -/
theorem orderly_turn (h : Orderly (globals s)) (hloop : s.loop ≠ .ticking) :
    Orderly (globals (if s.stopping then { s with loop := .ended }
      else { s with loop := .ticking }.sql .jobs)) := by
  have hquiet := h.quiet hloop
  split
  · exact Quiet.orderly (hquiet.of_eq rfl rfl rfl)
  · have hticking : Quiet (globals { s with loop := .ticking }) := hquiet.of_eq rfl rfl rfl
    exact hticking.sql rfl rfl (fun _ hdrain => nomatch hdrain)

theorem orderly_requestSent (h : Orderly (globals s)) : Orderly (globals (step s .requestSent)) := by
  have hrequests := h.requests
  have hroom := h.room
  have hdrain := h.drain
  change s.requests = s.sending + _ at hrequests
  change s.requests ≤ _ at hroom
  change ∀ room, _ → s.requests + room ≤ _ at hdrain
  simp only [step]
  split
  · exact h
  next hsending =>
    split
    · constructor
      · change s.requests - 1 = s.sending - 1 + _
        simp only [globals] at hrequests ⊢
        omega
      · change s.requests - 1 ≤ _
        omega
      · exact h.ticks
      · intro room hmem
        have hold := hdrain room hmem
        change s.requests - 1 + room ≤ _
        omega
    · have htodo : (globals ({ s with sending := s.sending - 1 }.sql .response)).todo =
          (globals s).todo ++ [.response] := by
        simp [globals, State.sql, List.filter_append, about]
      constructor
      · rw [htodo, List.count_append, List.count_singleton_self]
        change s.requests = s.sending - 1 + _
        omega
      · exact hroom
      · have hticks := h.ticks
        change _ ≤ if s.loop = .ticking then 1 else 0 at hticks
        change _ ≤ if s.loop = .ticking then 1 else 0
        rw [htodo, List.filter_append]
        simpa [isTick] using hticks
      · intro room hmem
        rw [htodo] at hmem
        rcases List.mem_append.mp hmem with hold | hnew
        · exact hdrain room hold
        · cases List.mem_singleton.mp hnew

theorem globals_endRuns (s : State) (ids : List ℕ) :
    globals (ids.foldl State.endRun s) = globals s := by
  induction ids generalizing s with
  | nil => rfl
  | cons id ids ih => exact (ih _).trans (acts_endRun id s).globals

theorem globals_sweep (s : State) : globals s.sweep = globals s := by
  unfold State.sweep
  split <;> rfl

theorem orderly_opened (hsound : Sound s) (h : Orderly (globals s)) (ok swept : Bool) :
    Orderly (globals (step s (.opened ok swept))) := by
  have hswept : Orderly (globals s.sweep) := by
    rw [globals_sweep]
    exact h
  simp only [step]
  split
  · exact h
  next statement queue hqueue =>
    split
    · exact h
    · split
      · exact hswept
      · cases swept with
        | false => exact orderly_answered hsound h s.book hqueue .unsent
        | true =>
          have hsame : s.sweep.queue = s.queue := by
            unfold State.sweep
            split <;> rfl
          exact orderly_answered (sound_sweep hsound) hswept s.sweep.book (hsame.trans hqueue)
            .unsent

theorem orderly_step (hsound : Sound s) (h : Orderly (globals s)) (e : Event) :
    Orderly (globals (step s e)) := by
  cases e with
  | start =>
    simp only [step]
    split
    · exact h
    next hoff => exact orderly_turn h (by simp [not_not.mp hoff])
  | wake =>
    simp only [step]
    split
    · exact h
    next hpausing => exact orderly_turn h (by simp [not_not.mp hpausing])
  | opened ok swept => exact orderly_opened hsound h ok swept
  | answered answer =>
    simp only [step]
    split
    · exact h
    next statement queue hqueue =>
      split
      · exact h
      · exact orderly_answered hsound h _ hqueue answer
  | runOpened id ok => exact h.acted (acted_runOpened hsound ok)
  | commandEnded id ok =>
    cases ok with
    | false => exact h.acted (acted_commandFailed hsound)
    | true =>
      rcases step_commandReturned s id with hsame | ⟨hphase, hfinish⟩
      · rw [hsame]
        exact h
      · rw [hfinish, (acts_finishExecute (by simp [hphase]) .succeeded).globals]
        exact h
  | deadline id => exact h.acted (acted_deadline hsound)
  | killed id => exact h.acted (acted_killed hsound)
  | killFailed id => exact h.acted (acted_killFailed hsound)
  | requestSent => exact orderly_requestSent h
  | stop =>
    simp only [step]
    split
    · exact h
    · rw [globals_endRuns]
      exact h.of_eq rfl rfl rfl rfl
  | stopFinished =>
    simp only [step]
    split
    · split
      · exact h.of_eq rfl rfl rfl rfl
      · exact h
    · exact h

end

end Sbarbase.Scheduler.Proofs.RunnerRequests
