import Sbarbase.Scheduler.Proofs.RunnerRequests
/-!
# What a stop leaves

While the runner runs, a row without a terminal status has a run that is to record
one. A stop waits for the ends that it called, so it must find no run between two
awaits that its end does not reach, and no end that another began.
-/

namespace Sbarbase.Scheduler.Proofs.RunnerStops

open Lib Runner RunnerViews RunnerRows RunnerRuns RunnerSteps RunnerRequests

/-- `end` is about to terminate the backend. -/
def Ending (ender : Ender) : Prop := ender = .killing ∨ ender = .asking ∨ ender = .lastResort

instance (ender : Ender) : Decidable (Ending ender) := by
  unfold Ending
  infer_instance

/-- The ends that `stop` waits for. -/
def waiting : Stop → List ℕ
  | .waiting runs => runs
  | _ => []

structure Kept (id : ℕ) (stop : Stop) (v : View) : Prop where
  recorded : ∀ row ∈ v.row, row.failed = false → row.terminals = [] →
    v.run.runid = true ∨ Finishing v.run.phase ∨ v.run.ender = .recording
  held : v.run.runid = true → v.run.ended = false ∧ v.run.phase ≠ .over ∨ Ending v.run.ender
  early : v.run.phase = .selecting ∨ v.run.phase = .inserting → v.run.ended = false
  ended : stop ≠ .no → v.run.phase ≠ .over → v.run.ended = true
  finishing : stop ≠ .no → ¬ Finishing v.run.phase
  waited : stop ≠ .no → Ending v.run.ender ∨ v.run.ender = .recording → id ∈ waiting stop

theorem stopping_iff (s : State) : s.stopping = true ↔ s.stop ≠ .no := by
  unfold State.stopping
  cases s.stop <;> simp

section

variable {id : ℕ} {stop : Stop} {v : View}

theorem kept_conclude (h : Kept id stop v)
    (hrow : ∀ row ∈ v.row, row.failed = false → row.terminals = [] →
      v.run.runid = true ∨ v.run.ender = .recording)
    (hheld : v.run.runid = true → Ending v.run.ender) : Kept id stop v.conclude where
  recorded := fun row hmem hfailed hterminals =>
    (hrow row hmem hfailed hterminals).imp_right .inr
  held := fun hrunid => .inr (hheld hrunid)
  early := by simp [View.conclude, View.setRun]
  ended := fun _ hover => absurd rfl hover
  finishing := fun _ hfinishing => not_finishing_over hfinishing
  waited := h.waited

/-- `execute` is at an await of its own, and records the end or leaves it to `end`. -/
theorem kept_finishExecute (h : Kept id stop v) {status : Status} (hphase : ¬ Finishing v.run.phase)
    (hrunid : stop ≠ .no → v.run.runid = false) :
    Kept id stop (v.finishExecute id status) := by
  unfold View.finishExecute
  split
  next hset =>
    exact {
      recorded := fun _ _ _ _ => .inr (.inl ⟨status, rfl⟩)
      held := fun hrunid => by cases hrunid
      early := by simp [View.setRun, View.sql]
      ended := fun hstop _ => by
        rw [hrunid hstop] at hset
        cases hset
      finishing := fun hstop => by
        rw [hrunid hstop] at hset
        cases hset
      waited := h.waited }
  next hnot =>
    refine kept_conclude h ?_ (fun hset => absurd hset hnot)
    intro row hmem hfailed hterminals
    rcases h.recorded row hmem hfailed hterminals with hset | hfinishing | hrecording
    · exact .inl hset
    · exact absurd hfinishing hphase
    · exact .inr hrecording

theorem kept_failRun (h : Kept id stop v) (hactive : v.run.phase ≠ .over)
    (hphase : ¬ Finishing v.run.phase) : Kept id stop (v.failRun id) := by
  unfold View.failRun
  split
  next hended =>
    refine kept_conclude h ?_ ?_
    · intro row hmem hfailed hterminals
      rcases h.recorded row hmem hfailed hterminals with hset | hfinishing | hrecording
      · exact .inl hset
      · exact absurd hfinishing hphase
      · exact .inr hrecording
    · intro hset
      rcases h.held hset with ⟨hnot, _⟩ | hending
      · rw [hended] at hnot
        nomatch hnot
      · exact hending
  next hended =>
    refine kept_finishExecute h hphase fun hstop => ?_
    exact absurd (h.ended hstop hactive) hended

theorem kept_todo (h : Kept id stop v) (todo : List Statement) :
    Kept id stop { v with todo := todo } :=
  ⟨h.recorded, h.held, h.early, h.ended, h.finishing, h.waited⟩

theorem kept_sql (h : Kept id stop v) (statement : Statement) : Kept id stop (v.sql statement) :=
  kept_todo h _

/-- The backend was ended. -/
theorem kept_finishEnd (h : Kept id stop v) (hending : Ending v.run.ender) :
    Kept id stop (v.finishEnd id) := by
  unfold View.finishEnd
  split
  next hset =>
    exact {
      recorded := fun _ _ _ _ => .inr (.inr rfl)
      held := fun hrunid => nomatch hrunid
      early := h.early
      ended := h.ended
      finishing := h.finishing
      waited := fun hstop _ => h.waited hstop (.inl hending) }
  next hnot =>
    exact {
      recorded := by
        intro row hmem hfailed hterminals
        rcases h.recorded row hmem hfailed hterminals with hset | hfinishing | hrecording
        · exact absurd hset hnot
        · exact .inr (.inl hfinishing)
        · rw [hrecording] at hending
          rcases hending with hfalse | hfalse | hfalse <;> nomatch hfalse
      held := fun hset => absurd hset hnot
      early := h.early
      ended := h.ended
      finishing := h.finishing
      waited := by
        rintro _ ((hfalse | hfalse | hfalse) | hfalse) <;> nomatch hfalse }

/-- The timer of a run calls `end`. -/
theorem kept_endRun (hsettled : Settled id v) (h : Kept id stop v) (hactive : v.run.phase ≠ .over)
    (hpid : v.run.pid = true) : Kept id stop (v.endRun id) := by
  unfold View.endRun
  split
  next => exact h
  next hended =>
    have hnot : v.run.ended = false := (Bool.not_eq_true _).mp hended
    have hidle := hsettled.idle.mp hnot
    have hstop : ¬ stop ≠ .no := fun hstop => hended (h.ended hstop hactive)
    exact {
      recorded := by
        intro row hmem hfailed hterminals
        rcases h.recorded row hmem hfailed hterminals with hset | hfinishing | hrecording
        · exact .inl hset
        · exact .inr (.inl hfinishing)
        · rw [hidle] at hrecording
          nomatch hrecording
      held := fun _ => .inr (.inl rfl)
      early := by
        intro hearly
        obtain ⟨_, hnone, _⟩ := hsettled.early hearly
        rw [hpid] at hnone
        nomatch hnone
      ended := fun hstops => absurd hstops hstop
      finishing := fun hstops => absurd hstops hstop
      waited := fun hstops => absurd hstops hstop }

/-! ## A statement about the run is answered -/

section

variable {answer : Runner.Answer} {stopping : Bool} {todo : List Statement}

theorem kept_select (hsettled : Settled id v) (h : Kept id stop v)
    (htodo : v.todo = .select id :: todo) :
    Kept id stop (View.settle id { v with todo := todo } answer stopping (.select id)) := by
  obtain ⟨hawaits, _⟩ := fit_executePop hsettled rfl htodo rfl
  have hphase : v.run.phase = .selecting := phase_of_awaits hawaits rfl
  obtain ⟨hrunid, _, hrow, _⟩ := hsettled.early (.inl hphase)
  have hpopped := kept_todo h todo
  simp only [View.settle, View.written, View.apply, View.spoil, ite_self, View.resume]
  split
  · exact kept_failRun hpopped (by simp [hphase]) (by simp [hphase, Finishing])
  · split
    · refine kept_conclude hpopped ?_ ?_
      · intro row hmem
        change row ∈ v.row at hmem
        rw [hrow] at hmem
        cases hmem
      · intro hset
        change v.run.runid = true at hset
        rw [hrunid] at hset
        cases hset
    · refine kept_sql ?_ _
      exact {
        recorded := by
          intro row hmem
          change row ∈ v.row at hmem
          rw [hrow] at hmem
          cases hmem
        held := fun hset => by
          change v.run.runid = true at hset
          rw [hrunid] at hset
          cases hset
        early := fun _ => h.early (.inl hphase)
        ended := fun hstop _ => h.ended hstop (by simp [hphase])
        finishing := by rintro _ ⟨_, ⟨⟩⟩
        waited := h.waited }

/-- The row was inserted, or may have been. -/
theorem kept_inserted (h : Kept id stop v) (hphase : v.run.phase = .inserting) {runid : Bool}
    {row : Option Row} (hrow : ∀ new ∈ row, runid = true ∨ new.failed = true) :
    Kept id stop ((v.setRow row).setRun { v.run with runid := runid }) where
  recorded := fun new hmem hfailed _ => by
    rcases hrow new hmem with hset | hspoilt
    · exact .inl hset
    · rw [hspoilt] at hfailed
      nomatch hfailed
  held := fun _ => .inl ⟨h.early (.inr hphase), by simp [View.setRun, hphase]⟩
  early := h.early
  ended := h.ended
  finishing := h.finishing
  waited := h.waited

theorem kept_insert (hsettled : Settled id v) (h : Kept id stop v)
    (htodo : v.todo = .insert id :: todo) :
    Kept id stop (View.settle id { v with todo := todo } answer stopping (.insert id)) := by
  obtain ⟨hawaits, _⟩ := fit_executePop hsettled rfl htodo rfl
  have hphase : v.run.phase = .inserting := phase_of_awaits hawaits rfl
  obtain ⟨hrunid, _, hnone, _⟩ := hsettled.early (.inr hphase)
  have hrun : stop = .no := by
    by_contra hstop
    have hended := h.ended hstop (by simp [hphase])
    rw [h.early (.inr hphase)] at hended
    nomatch hended
  have hpopped := kept_todo h todo
  have hactive : v.run.phase ≠ .over := by simp [hphase]
  have hnot : ¬ Finishing v.run.phase := by simp [hphase, Finishing]
  cases hok : answer.ok with
  | true =>
    have hinserted : Kept id stop ((v.setRow (some ⟨.starting, [], false⟩)).setRun
        { v.run with runid := true }) := kept_inserted h hphase fun _ _ => .inl rfl
    have hgoes := kept_todo hinserted todo
    simp only [View.settle, View.written, View.apply, View.resume, hok, true_or, if_true,
      Bool.not_true, Bool.false_eq_true, if_false]
    split
    · exact kept_failRun hgoes hactive hnot
    · exact {
        recorded := fun _ _ _ _ => .inl rfl
        held := fun _ => .inl ⟨h.early (.inr hphase), by simp [View.setRun]⟩
        early := by simp [View.setRun]
        ended := fun hstop => absurd hrun hstop
        finishing := fun hstop => absurd hrun hstop
        waited := fun hstop => absurd hrun hstop }
  | false =>
    simp only [View.settle, View.written, View.apply, View.spoil, View.resume, hok,
      Bool.false_eq_true, false_or, if_false, Bool.not_false, if_true]
    split
    · have hfailed : Kept id stop ((v.setRow (some ⟨.starting, [], true⟩)).setRun
          { v.run with runid := v.run.runid }) := by
        refine kept_inserted h hphase fun new hmem => .inr ?_
        rw [← Option.mem_some_iff.mp hmem]
      exact kept_failRun (kept_todo hfailed todo) hactive hnot
    · exact kept_failRun hpopped hactive hnot

/-- The row changes, but neither its terminal statuses nor what failed. -/
theorem kept_row (h : Kept id stop v) {row' : Option Row}
    (hrow : ∀ new ∈ row', ∃ old ∈ v.row, new.failed = old.failed ∧ new.terminals = old.terminals) :
    Kept id stop (v.setRow row') where
  recorded := by
    intro new hmem hfailed hterminals
    obtain ⟨old, hold, hsameFailed, hsameTerminals⟩ := hrow new hmem
    exact h.recorded old hold (hsameFailed ▸ hfailed) (hsameTerminals ▸ hterminals)
  held := h.held
  early := h.early
  ended := h.ended
  finishing := h.finishing
  waited := h.waited

theorem kept_mark (hsettled : Settled id v) (h : Kept id stop v)
    (htodo : v.todo = .mark id :: todo) :
    Kept id stop (View.settle id { v with todo := todo } answer stopping (.mark id)) := by
  obtain ⟨hawaits, _⟩ := fit_executePop hsettled rfl htodo rfl
  have hphase : v.run.phase = .marking := phase_of_awaits hawaits rfl
  have hmarked : Kept id stop (v.setRow (v.row.map fun row => { row with status := .running })) := by
    refine kept_row h fun new hmem => ?_
    obtain ⟨old, hold, rfl⟩ := Option.map_eq_some_iff.mp hmem
    exact ⟨old, hold, rfl, rfl⟩
  have hwritten : Kept id stop (View.written { v with todo := todo } answer (.mark id)) := by
    simp only [View.written, View.apply, View.spoil, ite_self]
    split
    · exact kept_todo hmarked todo
    · exact kept_todo h todo
  have hrun : (View.written { v with todo := todo } answer (.mark id)).run = v.run :=
    View.written_run _ _ _
  simp only [View.settle, View.resume]
  generalize View.written { v with todo := todo } answer (.mark id) = w at hwritten hrun ⊢
  split
  · exact kept_failRun hwritten (by simp [hrun, hphase]) (by simp [hrun, hphase, Finishing])
  · have hactive : w.run.phase ≠ .over := by simp [hrun, hphase]
    exact {
      recorded := by
        intro row hmem hfailed hterminals
        rcases hwritten.recorded row hmem hfailed hterminals with hset | ⟨_, hfinishing⟩ | hrecording
        · exact .inl hset
        · rw [hrun, hphase] at hfinishing
          cases hfinishing
        · exact .inr (.inr hrecording)
      held := fun hset => (hwritten.held hset).imp_left fun hheld =>
        ⟨hheld.1, fun hover => by cases hover⟩
      early := by simp [View.setRun]
      ended := fun hstop _ => hwritten.ended hstop hactive
      finishing := by rintro _ ⟨_, ⟨⟩⟩
      waited := hwritten.waited }

/-- A row whose end was recorded has a terminal status, or what failed. -/
theorem written_recorded {status : Status} {caller : Caller} {row : Row}
    (hmem : row ∈ (v.written answer (.finish id status caller)).row)
    (hfailed : row.failed = false) : row.terminals ≠ [] := by
  unfold View.written at hmem
  cases hok : answer.ok with
  | true =>
    simp only [hok, true_or, if_true, View.apply, View.setRow] at hmem
    obtain ⟨old, _, rfl⟩ := Option.map_eq_some_iff.mp hmem
    simp
  | false =>
    simp only [hok, Bool.false_eq_true, if_false, View.spoil, View.setRow] at hmem
    obtain ⟨old, _, rfl⟩ := Option.map_eq_some_iff.mp hmem
    cases hfailed

theorem kept_finish_execute (hsettled : Settled id v) (h : Kept id stop v) {status : Status}
    (htodo : v.todo = .finish id status .execute :: todo) :
    Kept id stop (View.settle id { v with todo := todo } answer stopping
      (.finish id status .execute)) := by
  obtain ⟨hawaits, _⟩ := fit_executePop hsettled rfl htodo rfl
  have hphase : v.run.phase = .finishing status := phase_of_awaits hawaits rfl
  have hrunid := hsettled.taken (.inl ⟨status, hphase⟩)
  simp only [View.settle, View.resume]
  have hrun : (View.written { v with todo := todo } answer (.finish id status .execute)).run =
      v.run := View.written_run _ _ _
  exact {
    recorded := fun row hmem hfailed hterminals =>
      absurd hterminals (written_recorded hmem hfailed)
    held := fun hset => by
      simp only [View.conclude, View.setRun, hrun, hrunid] at hset
      cases hset
    early := by simp [View.conclude, View.setRun]
    ended := fun _ hover => absurd rfl hover
    finishing := fun _ hfinishing => not_finishing_over hfinishing
    waited := by
      simp only [View.conclude, View.setRun, hrun]
      exact h.waited }

theorem kept_finish_end (hsettled : Settled id v) (h : Kept id stop v) {status : Status}
    (htodo : v.todo = .finish id status .terminate :: todo) :
    Kept id stop (View.settle id { v with todo := todo } answer stopping
      (.finish id status .terminate)) := by
  obtain ⟨hawaits, _⟩ := fit_endPop hsettled rfl htodo rfl
  have hender : v.run.ender = .recording := by
    cases hender : v.run.ender <;> rw [hender] at hawaits <;> simp [endAwaits] at hawaits
  have hrunid := hsettled.taken (.inr hender)
  simp only [View.settle, View.resume]
  have hrun : (View.written { v with todo := todo } answer (.finish id status .terminate)).run =
      v.run := View.written_run _ _ _
  exact {
    recorded := fun row hmem hfailed hterminals =>
      absurd hterminals (written_recorded hmem hfailed)
    held := fun hset => by
      simp only [View.setRun, hrun, hrunid] at hset
      cases hset
    early := by
      simp only [View.setRun, hrun]
      exact h.early
    ended := by
      simp only [View.setRun, hrun]
      exact h.ended
    finishing := by
      simp only [View.setRun, hrun]
      exact h.finishing
    waited := by
      rintro _ ((hfalse | hfalse | hfalse) | hfalse) <;> cases hfalse }

/-- The ender changes while it has yet to end the backend. -/
theorem kept_ender (h : Kept id stop v) (hending : Ending v.run.ender) {ender : Ender}
    (hender : Ending ender) : Kept id stop (v.setRun { v.run with ender := ender }) where
  recorded := by
    intro row hmem hfailed hterminals
    rcases h.recorded row hmem hfailed hterminals with hset | hfinishing | hrecording
    · exact .inl hset
    · exact .inr (.inl hfinishing)
    · rw [hrecording] at hending
      rcases hending with hfalse | hfalse | hfalse <;> nomatch hfalse
  held := fun _ => .inr hender
  early := h.early
  ended := h.ended
  finishing := h.finishing
  waited := fun hstop _ => h.waited hstop (.inl hending)

theorem kept_kill (hsettled : Settled id v) (h : Kept id stop v)
    (htodo : v.todo = .kill id :: todo) :
    Kept id stop (View.settle id { v with todo := todo } answer stopping (.kill id)) := by
  obtain ⟨hawaits, _⟩ := fit_endPop hsettled rfl htodo rfl
  have hender : v.run.ender = .asking := ender_of_awaits hawaits rfl
  have hending : Ending v.run.ender := .inr (.inl hender)
  simp only [View.settle, View.written, View.apply, View.spoil, ite_self, View.resume]
  split
  · exact kept_finishEnd (kept_todo h todo) hending
  · exact kept_ender (kept_todo h todo) hending (.inr (.inr rfl))

theorem kept_settle {statement : Statement} (hsettled : Settled id v) (h : Kept id stop v)
    (htodo : v.todo = statement :: todo) :
    Kept id stop (View.settle id { v with todo := todo } answer stopping statement) := by
  have habout := hsettled.about statement (htodo ▸ List.mem_cons_self)
  cases statement <;> cases habout
  case select.refl => exact kept_select hsettled h htodo
  case insert.refl => exact kept_insert hsettled h htodo
  case mark.refl => exact kept_mark hsettled h htodo
  case finish.refl status caller =>
    cases caller with
    | execute => exact kept_finish_execute hsettled h htodo
    | terminate => exact kept_finish_end hsettled h htodo
  case kill.refl => exact kept_kill hsettled h htodo

theorem kept_move {w : View} (hsettled : Settled id v) (h : Kept id stop v)
    (hmove : Move id stopping v w) : Kept id stop w := by
  have hopened : v.run.phase = .opening → Kept id stop (v.setRun { v.run with pid := true }) :=
    fun _ => ⟨h.recorded, h.held, h.early, h.ended, h.finishing, h.waited⟩
  cases hmove with
  | settle answer statement todo htodo => exact kept_settle hsettled h htodo
  | refused hphase => exact kept_failRun h (by simp [hphase]) (by simp [hphase, Finishing])
  | late hphase hended =>
    exact kept_failRun (hopened hphase) (by simp [View.setRun, hphase])
      (by simp [View.setRun, hphase, Finishing])
  | opened hphase hended =>
    have hrun : ¬ stop ≠ .no := by
      intro hstop
      rw [h.ended hstop (by simp [hphase])] at hended
      cases hended
    have hidle := hsettled.idle.mp hended
    refine kept_sql ?_ _
    exact {
      recorded := by
        intro row hmem hfailed hterminals
        rcases h.recorded row hmem hfailed hterminals with hset | ⟨_, hfinishing⟩ | hrecording
        · exact .inl hset
        · rw [hphase] at hfinishing
          cases hfinishing
        · exact .inr (.inr hrecording)
      held := fun _ => .inl ⟨hended, fun hover => by cases hover⟩
      early := by simp [View.setRun]
      ended := fun hstop => absurd hstop hrun
      finishing := fun hstop => absurd hstop hrun
      waited := fun hstop => absurd hstop hrun }
  | threw hphase => exact kept_failRun h (by simp [hphase]) (by simp [hphase, Finishing])
  | ended hphase hpid => exact kept_endRun hsettled h hphase hpid
  | killed hender =>
    exact kept_finishEnd h (hender.elim .inl fun hlast => .inr (.inr hlast))
  | unkilled hender => exact kept_sql (kept_ender h (.inl hender) (.inr (.inl rfl))) _

end

end

/-! ## The events -/

def Held (s : State) : Prop := ∀ id, Kept id s.stop (view s id)

/-- No run is where the stop does not reach it, and no command returns after the stop to a run
whose backend `end` has yet to terminate. -/
def Prompt (s : State) : Event → Prop
  | .stop => s.stopping = true ∨ ∀ id,
      ((s.run id).phase = .opening ∨ (s.run id).phase = .marking ∨ (s.run id).phase = .working ∨
        (s.run id).phase = .over) ∧ ((s.run id).ender = .idle ∨ (s.run id).ender = .done)
  | .commandEnded id true => s.stopping = true → (s.run id).phase = .working →
      (s.run id).runid = false
  | _ => True

section

variable {s s' : State}

theorem held_acts (h : Held s) {id : ℕ} {v : View} (hkept : Kept id s.stop v)
    (hacts : Acts id v s s') : Held s' := by
  have hstop : s'.stop = s.stop := congrArg Globals.stop hacts.globals
  intro other
  rw [hstop]
  by_cases hsame : other = id
  · rw [hsame, hacts.view]
    exact hkept
  · rw [hacts.others other hsame]
    exact h other

theorem held_sweep (h : Held s) (hnone : s.runs = []) : Held s.sweep := by
  have hsweep : s.sweep = { s with row := fun id => (s.row id).map State.sweepRow } := by
    unfold State.sweep
    rw [if_pos hnone]
  rw [hsweep]
  intro id
  have hkept := h id
  exact {
    recorded := by
      intro row hmem hfailed hterminals
      obtain ⟨old, hold, rfl⟩ := Option.map_eq_some_iff.mp hmem
      have hsame : State.sweepRow old = old := by
        unfold State.sweepRow at hterminals ⊢
        split at hterminals
        · simp at hterminals
        · simp at hterminals
        · rfl
      rw [hsame] at hfailed hterminals
      exact hkept.recorded old hold hfailed hterminals
    held := hkept.held
    early := hkept.early
    ended := hkept.ended
    finishing := hkept.finishing
    waited := hkept.waited }

theorem held_startRun (hsound : Sound s) (h : Held s) {jobid : ℕ} {job : JobState}
    (hrunning : s.stopping = false) : Held (s.startRun jobid job) := by
  have hno : ¬ s.stop ≠ .no := by
    rw [← stopping_iff, hrunning]
    exact Bool.false_ne_true
  have hself : (s.startRun jobid job).run s.count = ⟨jobid, .selecting, false, false, false, .idle⟩ :=
    Function.update_self _ _ _
  intro id
  by_cases hsame : id = s.count
  · have hrow : (s.startRun jobid job).row s.count = none := (hsound.fresh s.count le_rfl).2
    rw [hsame]
    constructor
    · intro row hmem
      change row ∈ (s.startRun jobid job).row s.count at hmem
      rw [hrow] at hmem
      nomatch hmem
    · simp [view, hself]
    · simp [view, hself]
    · exact fun hstop => absurd hstop hno
    · exact fun hstop => absurd hstop hno
    · exact fun hstop => absurd hstop hno
  · have hrun : (s.startRun jobid job).run id = s.run id := Function.update_of_ne hsame _ _
    have hkept := h id
    constructor
    · simp only [view, hrun]
      exact hkept.recorded
    · simp only [view, hrun]
      exact hkept.held
    · simp only [view, hrun]
      exact hkept.early
    · exact fun hstop => absurd hstop hno
    · exact fun hstop => absurd hstop hno
    · exact fun hstop => absurd hstop hno

theorem held_change (s s' : State) (hsound : Sound s) (h : Held s) (hchange : Change s s') :
    Held s' := by
  cases hchange with
  | frame hframe hstop =>
    intro id
    rw [hframe.views id, hstop]
    exact h id
  | acts id hmove hid hacts => exact held_acts h (kept_move (hsound.settled id) (h id) hmove) hacts
  | sweep hnone => exact held_sweep h hnone
  | start jobid job hstop hroom hjob hidle => exact held_startRun hsound h hstop

theorem held_commandReturned (h : Held s) {id : ℕ}
    (hprompt : Prompt s (.commandEnded id true)) : Held (step s (.commandEnded id true)) := by
  rcases step_commandReturned s id with hsame | ⟨hphase, hfinish⟩
  · rw [hsame]
    exact h
  · have hview : (view s id).run.phase = .working := hphase
    rw [hfinish]
    refine held_acts h ?_ (acts_finishExecute (by simp [hphase]) .succeeded)
    refine kept_finishExecute (h id) (by simp [hview, Finishing]) fun hstop => ?_
    exact hprompt ((stopping_iff s).mpr hstop) hphase

/-! ## The stop -/

theorem views_endRuns (s : State) (ids : List ℕ) (hnodup : ids.Nodup) (id : ℕ) :
    view (ids.foldl State.endRun s) id =
      if id ∈ ids then (view s id).endRun id else view s id := by
  induction ids generalizing s with
  | nil => rfl
  | cons first ids ih =>
    obtain ⟨hfresh, hnodup⟩ := List.nodup_cons.mp hnodup
    have hacts := acts_endRun first s
    rw [List.foldl_cons, ih _ hnodup]
    by_cases hsame : id = first
    · rw [hsame, if_neg hfresh, if_pos List.mem_cons_self]
      exact hacts.view
    · rw [hacts.others id hsame]
      simp [hsame]

theorem sound_endRuns (h : Sound s) (ids : List ℕ) (hids : ∀ id ∈ ids, (s.run id).phase ≠ .over) :
    Sound (ids.foldl State.endRun s) := by
  induction ids generalizing s with
  | nil => exact h
  | cons id ids ih =>
    have hactive := hids id List.mem_cons_self
    have hid : id < s.count := h.lt_count fun hnone => hactive (by rw [hnone]; rfl)
    have hacts := acts_endRun id s
    refine ih (sound_acts h (settled_endRun (h.settled id)) hid
      (fun hover => absurd hover hactive) hacts) fun other hmem => ?_
    by_cases hsame : other = id
    · have hrun : (s.endRun id).run id = ((view s id).endRun id).run := congrArg View.run hacts.view
      rw [hsame, hrun, endRun_phase]
      exact hactive
    · have hrun : (s.endRun id).run other = s.run other :=
        congrArg View.run (hacts.others other hsame)
      rw [hrun]
      exact hids other (List.mem_cons_of_mem _ hmem)

theorem mem_runs (hsound : Sound s) {id : ℕ} : id ∈ s.runs ↔ (s.run id).phase ≠ .over := by
  constructor
  · intro hmem
    simpa using (List.mem_filter.mp hmem).2
  · intro hactive
    have hid : id < s.count := hsound.lt_count fun hnone => hactive (by rw [hnone]; rfl)
    simp [State.runs, hid, hactive]

theorem sound_stop (h : Sound s) : Sound (step s .stop) := by
  simp only [step]
  split
  · exact h
  · refine sound_endRuns (s := { s with
      stop := .waiting (s.runs.filter fun id => !(s.run id).ended) }) ?_ _ fun id hmem => ?_
    · exact sound_frame h (frame_of_eq (fun _ => rfl) rfl rfl)
    · exact (mem_runs h).mp (List.mem_filter.mp hmem).1

/-- A run that the stop ends. -/
theorem kept_stopped {id : ℕ} {v : View} {ids : List ℕ} (hsettled : Settled id v)
    (h : Kept id .no v) (hended : v.run.ended = false)
    (hphase : v.run.phase = .opening ∨ v.run.phase = .marking ∨ v.run.phase = .working)
    (hmem : id ∈ ids) : Kept id (.waiting ids) (v.endRun id) := by
  have hidle := hsettled.idle.mp hended
  have hopen : ∀ row ∈ v.row, row.failed = false → row.terminals = [] → v.run.runid = true := by
    intro row hrow hfailed hterminals
    rcases h.recorded row hrow hfailed hterminals with hset | ⟨_, hfinishing⟩ | hrecording
    · exact hset
    · rw [hfinishing] at hphase
      rcases hphase with hfalse | hfalse | hfalse <;> nomatch hfalse
    · rw [hidle] at hrecording
      nomatch hrecording
  have hearly : ¬ (v.run.phase = .selecting ∨ v.run.phase = .inserting) := by
    rintro (hfalse | hfalse) <;> simp [hfalse] at hphase
  have hfinishing : ¬ Finishing v.run.phase := by
    rintro ⟨status, hfalse⟩
    simp [hfalse] at hphase
  unfold View.endRun
  rw [if_neg (by simp [hended])]
  split
  · exact {
      recorded := fun row hrow hfailed hterminals => .inl (hopen row hrow hfailed hterminals)
      held := fun _ => .inr (.inl rfl)
      early := fun hfalse => absurd hfalse hearly
      ended := fun _ _ => rfl
      finishing := fun _ => hfinishing
      waited := fun _ _ => hmem }
  · unfold View.finishEnd
    split
    · exact {
        recorded := fun _ _ _ _ => .inr (.inr rfl)
        held := fun hset => nomatch hset
        early := fun hfalse => absurd hfalse hearly
        ended := fun _ _ => rfl
        finishing := fun _ => hfinishing
        waited := fun _ _ => hmem }
    next hnot =>
      exact {
        recorded := fun row hrow hfailed hterminals =>
          absurd (hopen row hrow hfailed hterminals) hnot
        held := fun hset => absurd hset hnot
        early := fun hfalse => absurd hfalse hearly
        ended := fun _ _ => rfl
        finishing := fun _ => hfinishing
        waited := by
          rintro _ ((hfalse | hfalse | hfalse) | hfalse) <;> nomatch hfalse }

theorem held_stop (hsound : Sound s) (h : Held s) (hprompt : Prompt s .stop) :
    Held (step s .stop) := by
  simp only [step]
  split
  next => exact h
  next hrunning =>
    have hno : s.stop = .no := by
      by_contra hstop
      exact hrunning ((stopping_iff s).mpr hstop)
    have hwhere := hprompt.resolve_left hrunning
    set ids := s.runs.filter fun id => !(s.run id).ended with hids
    have hnodup : ids.Nodup := (List.nodup_range.filter _).filter _
    have hstop : (ids.foldl State.endRun { s with stop := .waiting ids }).stop = .waiting ids :=
      congrArg Globals.stop (globals_endRuns { s with stop := .waiting ids } ids)
    intro id
    have hkept := h id
    rw [hno] at hkept
    rw [hstop, views_endRuns _ _ hnodup]
    obtain ⟨hphase, hender⟩ := hwhere id
    by_cases hmem : id ∈ ids
    · rw [if_pos hmem]
      obtain ⟨hrun, hended⟩ := List.mem_filter.mp hmem
      have hactive := (mem_runs hsound).mp hrun
      have hnot : (s.run id).ended = false := by simpa using hended
      refine kept_stopped (hsound.settled id) hkept hnot ?_ hmem
      rcases hphase with hphase | hphase | hphase | hover
      · exact .inl hphase
      · exact .inr (.inl hphase)
      · exact .inr (.inr hphase)
      · exact absurd hover hactive
    · rw [if_neg hmem]
      exact {
        recorded := hkept.recorded
        held := hkept.held
        early := hkept.early
        ended := by
          intro _ hactive
          by_contra hnot
          refine hmem (List.mem_filter.mpr ⟨(mem_runs hsound).mpr hactive, ?_⟩)
          have hended : (s.run id).ended = false := (Bool.not_eq_true _).mp hnot
          simp [hended]
        finishing := by
          rintro _ ⟨status, hfinishing⟩
          change (s.run id).phase = _ at hfinishing
          simp [hfinishing] at hphase
        waited := by
          intro _ hbusy
          change Ending (s.run id).ender ∨ (s.run id).ender = .recording at hbusy
          rcases hender with hender | hender <;> rw [hender] at hbusy <;>
            rcases hbusy with (hfalse | hfalse | hfalse) | hfalse <;> cases hfalse }

theorem held_stopFinished (h : Held s) : Held (step s .stopFinished) := by
  simp only [step]
  split
  next runs hstop =>
    split
    next hdone =>
      intro id
      have hkept := h id
      rw [hstop] at hkept
      have hwaiting : Stop.waiting runs ≠ .no := fun hfalse => by cases hfalse
      exact {
        recorded := hkept.recorded
        held := hkept.held
        early := hkept.early
        ended := fun _ => hkept.ended hwaiting
        finishing := fun _ => hkept.finishing hwaiting
        waited := by
          intro _ hbusy
          have hmem : id ∈ runs := hkept.waited hwaiting hbusy
          have hender := hdone.1 id hmem
          change Ending (s.run id).ender ∨ (s.run id).ender = .recording at hbusy
          rw [hender] at hbusy
          rcases hbusy with (hfalse | hfalse | hfalse) | hfalse <;> cases hfalse }
    next => exact h
  next => exact h

theorem sound_step (h : Sound s) (e : Event) : Sound (step s e) := by
  by_cases hstop : e = .stop
  · rw [hstop]
    exact sound_stop h
  · by_cases hfinished : e = .stopFinished
    · rw [hfinished]
      simp only [step]
      split
      · split
        · exact sound_frame h (frame_of_eq (fun _ => rfl) rfl rfl)
        · exact h
      · exact h
    · by_cases hreturned : ∃ id, e = .commandEnded id true
      · obtain ⟨id, rfl⟩ := hreturned
        exact sound_commandReturned h id
      · exact sound_changes h (changes_step h e hstop hfinished fun id he => hreturned ⟨id, he⟩)

theorem held_step (hsound : Sound s) (h : Held s) (e : Event) (hprompt : Prompt s e) :
    Held (step s e) := by
  by_cases hstop : e = .stop
  · subst hstop
    exact held_stop hsound h hprompt
  · by_cases hfinished : e = .stopFinished
    · rw [hfinished]
      exact held_stopFinished h
    · by_cases hreturned : ∃ id, e = .commandEnded id true
      · obtain ⟨id, rfl⟩ := hreturned
        exact held_commandReturned h hprompt
      · have hchanges := changes_step hsound e hstop hfinished fun id he => hreturned ⟨id, he⟩
        exact (changes_invariant held_change hsound h hchanges).2

end

end Sbarbase.Scheduler.Proofs.RunnerStops
