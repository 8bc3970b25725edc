import Sbarbase.Scheduler.Proofs.RunnerStops
/-!
# The law of the runner

In every run of the runner no more than two runs are in flight, each of a job of its
own, and eight requests. A row gets no two different terminal statuses, and gets one
when no stop comes between two awaits that it does not reach.
-/

namespace Sbarbase.Scheduler.Proofs.RunnerLaw

open Lib Runner RunnerViews RunnerRows RunnerRuns RunnerRequests RunnerStops

/-- Neither `execute` nor `end` of a run is at an await. -/
def Gone (run : Run) : Prop := run.phase = .over ∧ (run.ender = .idle ∨ run.ender = .done)

structure Capped (s : State) : Prop where
  running : s.runs.length ≤ MAX_RUNNING
  jobs : (s.runs.map fun id => (s.run id).jobid).Nodup
  requests : s.requests ≤ MAX_REQUESTS
  once : ∀ id row, s.row id = some row → ∀ a ∈ row.terminals, ∀ b ∈ row.terminals, a = b

/-- A row whose statements did not fail has its terminal status when its run is gone, and every
such row has when `stop` finished. -/
structure Law (s : State) : Prop extends Capped s where
  terminal : ∀ id row, s.row id = some row → row.failed = false → Gone (s.run id) →
    row.terminals ≠ [] ∧ row.status ∈ row.terminals
  stopped : s.stop = .finished → ∀ id row, s.row id = some row → row.failed = false →
    row.status = .succeeded ∨ row.status = .failed

structure Reached (s : State) : Prop where
  sound : Sound s
  orderly : Orderly (globals s)

theorem reached_run (events : List Event) : Reached (machine.run events) := by
  refine machine.run_invariant ?_ (fun s e h => ⟨sound_step h.sound e,
    orderly_step h.sound h.orderly e⟩) events
  refine ⟨sound_initial, rfl, Nat.zero_le _, Nat.zero_le _, ?_⟩
  intro room hmem
  nomatch hmem

theorem capped_run (events : List Event) : Capped (machine.run events) := by
  have hreached := reached_run events
  generalize machine.run events = s at hreached
  have hsound := hreached.sound
  refine ⟨hsound.room, ?_, hreached.orderly.room, ?_⟩
  · refine List.Nodup.map_on ?_ (List.nodup_range.filter _)
    intro a ha b hb hjobs
    exact hsound.alone a b ((mem_runs hsound).mp ha) ((mem_runs hsound).mp hb) hjobs
  · intro id row hrow
    exact ((hsound.settled id).rows row hrow).same

theorem status_of_terminals {run : Run} {row : Row} (h : RowFit run row)
    (hterminals : row.terminals ≠ []) : row.status ∈ row.terminals := by
  rcases h.last with ⟨hnone, _⟩ | hmem
  · exact absurd hnone hterminals
  · exact hmem

theorem law_of_held {s : State} (hcapped : Capped s) (hsound : Sound s) (h : Held s) : Law s where
  toCapped := hcapped
  terminal := by
    intro id row hrow hfailed ⟨hover, hender⟩
    have hkept := h id
    have hfit : RowFit (s.run id) row := (hsound.settled id).rows row hrow
    have hterminals : row.terminals ≠ [] := by
      intro hnone
      have hdone : ¬ (Ending (s.run id).ender ∨ (s.run id).ender = .recording) := by
        rintro hbusy
        rcases hender with hender | hender <;> rw [hender] at hbusy <;>
          rcases hbusy with (hfalse | hfalse | hfalse) | hfalse <;> nomatch hfalse
      rcases hkept.recorded row hrow hfailed hnone with hset | hfinishing | hrecording
      · rcases hkept.held hset with ⟨_, hactive⟩ | hending
        · exact hactive hover
        · exact hdone (.inl hending)
      · change Finishing (s.run id).phase at hfinishing
        rw [hover] at hfinishing
        exact not_finishing_over hfinishing
      · exact hdone (.inr hrecording)
    exact ⟨hterminals, status_of_terminals hfit hterminals⟩
  stopped := by
    intro hstop id row hrow hfailed
    have hkept := h id
    have hfit : RowFit (s.run id) row := (hsound.settled id).rows row hrow
    rw [hstop] at hkept
    have hstops : Stop.finished ≠ .no := fun hfalse => nomatch hfalse
    have hdone : ¬ (Ending (s.run id).ender ∨ (s.run id).ender = .recording) := fun hbusy =>
      nomatch hkept.waited hstops hbusy
    have hterminals : row.terminals ≠ [] := by
      intro hnone
      rcases hkept.recorded row hrow hfailed hnone with hset | hfinishing | hrecording
      · rcases hkept.held hset with ⟨hnot, hactive⟩ | hending
        · rw [hkept.ended hstops hactive] at hnot
          nomatch hnot
        · exact hdone (.inl hending)
      · exact hkept.finishing hstops hfinishing
      · exact hdone (.inr hrecording)
    exact hfit.final _ (status_of_terminals hfit hterminals)

/-- Every reachable state is capped, and keeps the law after a run whose stop finds each run where
it reaches it. -/
theorem runner_law (events : List Event) : Capped (machine.run events) ∧
    (machine.Along Prompt machine.initial events → Law (machine.run events)) := by
  refine ⟨capped_run events, fun hprompt => ?_⟩
  have hboth : Sound (machine.run events) ∧ Held (machine.run events) := by
    refine machine.run_invariant_along (I := fun s => Sound s ∧ Held s) ?_ ?_ events hprompt
    · refine ⟨sound_initial, fun id => ?_⟩
      constructor <;> simp [view, machine, State.initial, Run.none]
    · exact fun s e he h => ⟨sound_step h.1 e, held_step h.1 h.2 e he⟩
  exact law_of_held (capped_run events) hboth.1 hboth.2

/-! ## A stop before the row is inserted -/

def found : Runner.Answer := { Runner.Answer.unsent with ok := true, found := true, developer := true }

def dueJob : Runner.Answer :=
  { found with rows := [(1, "* * * * *")], isDue := fun _ => true, policy := true }

/-- A job starts and the tick drains; the runner is stopped while the `SELECT` of the run and the
statement that drains are on their way. -/
def stoppedEarly : List Event :=
  [.start, .opened true false, .answered dueJob, .stop, .answered found, .answered found,
    .answered found, .wake, .stopFinished]

/-- The row was inserted after `end` found no row to finish. -/
theorem stoppedEarly_left : ¬ Law (machine.run stoppedEarly) := by
  intro hlaw
  have hstop : (machine.run stoppedEarly).stop = .finished := rfl
  have hrow : (machine.run stoppedEarly).row 0 = some ⟨.starting, [], false⟩ := by decide
  rcases hlaw.stopped hstop 0 _ hrow rfl with hfalse | hfalse <;> nomatch hfalse

end Sbarbase.Scheduler.Proofs.RunnerLaw
