import Sbarbase.Starts.Proofs.Running
/-!
# Only what a planned exit left is adopted

The invariant over whole runs, and how a start ends.
-/

namespace Sbarbase.Starts.Proofs.KeptLaw

open Lib Starts.Proofs

theorem mainStep_keeps {w : World} {main : Main} (h : Invariant w) (hmain : w.main = some main)
    (event : Event) (hgoes : goesOn w event = true) : Invariant (mainStep main event w) := by
  have hprogress := h.progress main hmain
  unfold mainStep
  split
  · exact ask_keeps h hmain ‹_› _
  · exact decide_keeps h hmain ‹_› _ _
  · exact leftover_keeps h hmain ‹_› _ _
  · exact take_keeps h hmain ‹_› _
  · exact gate_keeps h hmain ‹_› _ hgoes
  · exact mainAct_keeps h hmain (Or.inl ‹_›) _
  · exact mainAct_keeps h hmain (Or.inr ‹_›) _
  · split_ifs
    · exact finish_keeps h hmain ‹_›
    · exact closing_keeps h hmain (Or.inr (Or.inl ‹_›)) _ hprogress.keep
  · refine closing_keeps h hmain (Or.inr (Or.inr ‹_›)) _ fun _ hup => ?_
    exact (nomatch (hprogress.up (Or.inr ‹_›)).symm.trans hup)
  · exact close_keeps h hmain ‹_› _ _ _
  · exact stop_keeps h hmain _ _
  · exact kill_keeps h hmain _
  · exact h

theorem childStep_keeps {w : World} {child : Child} (h : Invariant w) (hchild : w.child = some child)
    (event : Event) : Invariant (childStep child event w) := by
  unfold childStep
  split
  · exact check_keeps h hchild _ _
  · split_ifs
    · exact childAct_keeps h hchild _
    · exact h
  · exact h

theorem endChild_keeps {w : World} {child : Child} (h : Invariant w) (hchild : w.child = some child)
    (event : Event) : Invariant (endChild child event w) := by
  unfold endChild
  split
  · split_ifs
    · exact ended_keeps h ‹_› hchild _
    · exact h
  · exact reaped_keeps h _ (fun _ hother => hother) (Or.inr rfl)
  · exact h

theorem elim_keeps {α : Type*} {o : Option α} {w : World} {f : α → World} (h : Invariant w)
    (hsome : ∀ a, o = some a → Invariant (f a)) : Invariant (o.elim w f) := by
  cases o with
  | none => exact h
  | some a => exact hsome a rfl

theorem step_keeps {w : World} (h : Invariant w) (event : Event) (hgoes : goesOn w event = true) :
    Invariant (step w event) := by
  unfold step
  split
  · exact outside_keeps h _
  · exact begin_keeps h _ _ _
  · split_ifs
    · exact reaped_keeps h _ (fun _ hother => (List.mem_filter.mp hother).1) (Or.inl rfl)
    · exact h
  · exact elim_keeps h fun child hchild => childStep_keeps h hchild _
  · exact elim_keeps h fun child hchild => childStep_keeps h hchild _
  · exact elim_keeps h fun child hchild => endChild_keeps h hchild _
  · exact elim_keeps h fun child hchild => endChild_keeps h hchild _
  · exact elim_keeps h fun main hmain => mainStep_keeps h hmain _ hgoes

/-- The runtime start of a start is at work, or its runtime is up. -/
inductive AtWork (w : World) : ℕ → Option Judged → Option ℕ → Prop
  | start (child : Child) (hchild : w.child = some child) (hkind : child.kind = .up) :
      AtWork w child.start child.judged child.seen
  | runtime (main : Main) (hmain : w.main = some main)
      (hphase : main.phase = .finish ∨ main.phase = .run) :
      AtWork w main.start main.judged main.seen

/-- What runs under a start was brought up by it or left for it. -/
def AdoptsOnlyLeft (w : World) : Prop :=
  ∀ start judged seen, AtWork w start judged seen → ∀ c ∈ w.containers, c.running = true →
    c.start = some start ∨ Adoptable w.exit w.takers start judged seen c

theorem adoptsOnlyLeft {w : World} (h : Invariant w) : AdoptsOnlyLeft w := by
  intro start judged seen hwork
  cases hwork with
  | start child hchild hkind => exact h.child child hchild hkind
  | runtime main hmain hphase => exact h.main main hmain (Or.inr hphase)

/-! ## How a start ends -/

/-- No record stands, and nothing owned runs unless the stop failed. -/
def Stopped (w : World) (event : Event) : Prop :=
  w.file = .absent ∧ ((∀ c ∈ w.containers, c.running = false) ∨ ∃ ids, event = .stop ids false)

/-- A start that owns the runtime and ends before it is up, otherwise than by a kill. -/
def EndsBeforeUp (w : World) (main : Main) (event : Event) : Prop :=
  w.main = some main ∧ (main.started = true ∨ main.held = true) ∧ main.up = false ∧
    (step w event).main = none ∧ ∀ worker, event ≠ .kill worker

/-- Such a start stops what it had adopted, except a handover that its gates refused,
which leaves it for the planned restart that follows. -/
def StopsAdopted (w : World) : Prop :=
  ∀ main event, EndsBeforeUp w main event →
    Stopped (step w event) event ∨ (main.handover = true ∧ main.keep = true)

theorem main_ask (main : Main) (answers : Bool) (w : World) : (ask main answers w).main ≠ none := by
  unfold ask
  split <;> exact nofun

theorem main_decide (main : Main) (answers : Bool) (parent : ℕ) (w : World) :
    (decideStep main answers parent w).main ≠ none := by
  unfold decideStep
  split
  · exact nofun
  · split <;> exact nofun

theorem main_take (main : Main) (written : Bool) (w : World) : (take main written w).main ≠ none := by
  unfold take
  split_ifs <;> exact nofun

theorem main_gate {main : Main} {w : World} (hmain : w.main = some main) (gate : Gate) :
    (gateStep main gate w).main ≠ none := by
  have hsome : w.main ≠ none := by simp [hmain]
  unfold gateStep
  split
  · split_ifs
    · exact nofun
    · exact hsome
  · exact nofun
  · split_ifs
    · exact nofun
    · exact hsome

theorem main_act (start : ℕ) (a : Act) (w : World) : (act start a w).main = w.main := by
  rw [act_frame]

theorem main_check (child : Child) (parent : ℕ) (answers : Bool) (w : World) :
    (check child parent answers w).main = w.main := by
  unfold check
  by_cases hready : child.kind = .up ∧ child.checked = false ∧ child.refused = false ∧
      (w.table.contains child.parent → parent = child.parent.pid)
  · rw [if_pos hready]
    split
    · rfl
    · split_ifs <;> rfl
  · rw [if_neg hready]

theorem main_ended {main : Main} {w : World} (hmain : w.main = some main) (child : Child) (ok : Bool) :
    (ended main child ok w).main ≠ none := by
  unfold ended
  by_cases hwaits : (ok && !child.checked) = true
  · rw [if_pos hwaits, hmain]
    exact nofun
  · rw [if_neg hwaits]
    exact nofun

theorem main_outside (event : Outside) (w : World) : (outside event w).main = w.main := by
  cases event with
  | made item =>
      unfold outside
      split_ifs <;> rfl
  | _ => rfl

theorem main_childStep (child : Child) (event : Event) (w : World) :
    (childStep child event w).main = w.main := by
  unfold childStep
  split
  · exact main_check child _ _ w
  · split_ifs
    · exact main_act child.start _ w
    · rfl
  · rfl

theorem main_endChild {main : Main} {w : World} (hmain : w.main = some main) (child : Child)
    (event : Event) : (endChild child event w).main ≠ none := by
  have hsome : w.main ≠ none := by simp [hmain]
  unfold endChild
  split
  · rename_i other ok hother
    split_ifs
    · exact main_ended hother child ok
    · exact hsome
  · exact absurd ‹w.main = none› hsome
  · exact hsome

theorem main_elim {α : Type*} {o : Option α} {w : World} {f : α → World} (hsome : w.main ≠ none)
    (hf : ∀ a, (f a).main ≠ none) : (o.elim w f).main ≠ none := by
  cases o with
  | none => exact hsome
  | some a => exact hf a

/-- Apart from a kill, a start ends when its leftover stop fails, at `close_runtime` or at
the end of its stop stage. -/
theorem mainStep_ending {w : World} {main : Main} {event : Event} (hmain : w.main = some main)
    (hnone : (mainStep main event w).main = none) (hkill : ∀ worker, event ≠ .kill worker) :
    main.phase = .leftover ∨
    (∃ answers written plan, main.phase = .close ∧
      mainStep main event w = close main answers written plan w) ∨
    (∃ ids ok, event = .stop ids ok ∧ mainStep main event w = stop main ids ok w) := by
  have hsome : w.main ≠ none := by simp [hmain]
  have hact : ∀ a, (act main.start a w).main ≠ none := fun a => main_act main.start a w ▸ hsome
  unfold mainStep at hnone ⊢
  split at hnone
  · exact absurd hnone (main_ask main _ w)
  · exact absurd hnone (main_decide main _ _ w)
  · exact Or.inl ‹_›
  · exact absurd hnone (main_take main _ w)
  · exact absurd hnone (main_gate hmain _)
  · exact absurd hnone (hact _)
  · exact absurd hnone (hact _)
  · split_ifs at hnone
  · exact (nomatch hnone)
  · have hphase : main.phase = .close := ‹_›
    exact Or.inr (Or.inl ⟨_, _, _, hphase, rfl⟩)
  · exact Or.inr (Or.inr ⟨_, _, rfl, rfl⟩)
  · exact absurd rfl (hkill _)
  · exact absurd hnone hsome

theorem step_eq_mainStep {w : World} {main : Main} {event : Event} (hmain : w.main = some main)
    (hnone : (step w event).main = none) : step w event = mainStep main event w := by
  have hsome : w.main ≠ none := by simp [hmain]
  unfold step at hnone ⊢
  split at hnone
  · exact absurd ((main_outside _ w).symm.trans hnone) hsome
  · simp [begin_, hmain] at hnone
  · split_ifs at hnone
    · exact absurd hnone hsome
    · exact absurd hnone hsome
  · exact absurd hnone (main_elim hsome fun child => main_childStep child _ w ▸ hsome)
  · exact absurd hnone (main_elim hsome fun child => main_childStep child _ w ▸ hsome)
  · exact absurd hnone (main_elim hsome fun child => main_endChild hmain child _)
  · exact absurd hnone (main_elim hsome fun child => main_endChild hmain child _)
  · simp [hmain]

theorem stopsAdopted {w : World} (h : Invariant w) : StopsAdopted w := by
  rintro main event ⟨hmain, howned, hup, hnone, hkill⟩
  have hprogress := h.progress main hmain
  have hstep := step_eq_mainStep hmain hnone
  rw [hstep] at hnone ⊢
  rcases mainStep_ending hmain hnone hkill with
    hleftover | ⟨answers, written, plan, -, hclose⟩ | ⟨ids, ok, rfl, hstop⟩
  · -- the start has claimed nothing yet
    obtain ⟨hsettled, hstarted, -⟩ := hprogress.unsettled (Or.inr (Or.inr hleftover))
    simp [hsettled, hstarted, Main.held] at howned
  · -- only the record of a planned exit lets it end here
    rw [hclose] at hnone
    have hkeep : main.keep = true := by
      by_contra hno
      have howns : (main.started || main.held) = true := by simpa using howned
      simp only [Bool.not_eq_true] at hno
      unfold close at hnone
      split at hnone
      · simp [howns] at *
      · split at hnone <;> simp [hno] at hnone
    exact Or.inr ⟨hprogress.keep hkeep hup, hkeep⟩
  · rw [hstop]
    refine Or.inl ⟨rfl, ?_⟩
    cases ok with
    | true => exact Or.inl fun c hc => not_running_of_mem_stopAll hc
    | false => exact Or.inr ⟨ids, rfl⟩

/-- Every run whose starts go on past an undecided settle only beside what they brought up
themselves: what runs under a start was brought up by it, or is what a planned exit left
for it and no other start took, and a start that ends before its runtime is up stops it. -/
theorem kept_law (head : Option String) (events : List Event)
    (hgoes : (machine head).Along (fun w event => goesOn w event = true) (initial head) events) :
    AdoptsOnlyLeft ((machine head).run events) ∧ StopsAdopted ((machine head).run events) := by
  have h : Invariant ((machine head).run events) :=
    (machine head).run_invariant_along (invariant_initial head)
      (fun _ event hgo hinv => step_keeps hinv event hgo) events hgoes
  exact ⟨adoptsOnlyLeft h, stopsAdopted h⟩

/-! ## Runs -/

section

private def first : Process := ⟨100, 7⟩

private def second : Process := ⟨200, 9⟩

/-- A start that finds nothing running and brings up the database. -/
private def broughtUp : List Event :=
  [.begin first false true, .ask true, .take true, .gate (.pass ⟨101, 8⟩), .check 100 true,
    .childAct (.run ⟨"sha256:1", "sbarbase-durable-db"⟩)]

/-- Its runtime is up, an upgrade moves the checkout, and it exits as planned. -/
private def exited : List Event :=
  broughtUp ++ [.ended true, .finish true, .outside (.clock 5000000), .outside (.head (some "b")),
    .ends true, .close true true true]

/-- The next start adopts what it left. -/
private def adopted : List Event :=
  exited ++ [.killExec first, .begin second false true, .ask true, .decide true 1, .take true,
    .gate (.pass ⟨201, 10⟩), .check 200 true, .childAct (.start 0), .ended true, .finish true]

/-- The program that replaced itself adopts it, and a start gate refuses the handover. -/
private def refusedHandover : List Event :=
  exited ++ [.begin first true true, .ask true, .decide true 1, .take true, .gate (.refused false)]

/-- The first start is killed in its runtime start, a receipt makes the settle of the second
decline, and the settle stage settles the receipt. -/
private def declined : List Event :=
  broughtUp ++ [.kill none, .killChild, .outside (.waiting ["worker-effect.json"]),
    .begin second false true, .ask true, .decide true 1, .take true, .outside (.waiting []),
    .gate (.pass ⟨201, 10⟩)]

theorem kept_law_adopted : (AdoptsOnlyLeft ((machine (some "a")).run adopted) ∧
      StopsAdopted ((machine (some "a")).run adopted)) ∧
    ((machine (some "a")).run adopted).running = [(0, ⟨"sha256:1", "sbarbase-durable-db"⟩)] ∧
    ((machine (some "a")).run adopted).main.map Main.start = some 1 :=
  ⟨kept_law (some "a") adopted (by decide), by decide, by decide⟩

/-- Without the exception for a handover, and for starts that go on past any settle. -/
theorem kept_without_record :
    (∃ main event, EndsBeforeUp ((machine (some "a")).run refusedHandover) main event ∧
      ¬ Stopped (step ((machine (some "a")).run refusedHandover) event) event) ∧
    ¬ AdoptsOnlyLeft ((machine (some "a")).run declined) := by
  constructor
  · refine ⟨((machine (some "a")).run refusedHandover).main.get (by decide),
      .close true true false, ⟨by simp, by decide, by decide, by decide,
        fun _ => nofun⟩, ?_⟩
    rintro ⟨habsent, -⟩
    exact absurd habsent (by decide)
  · intro hadopts
    have hwork : AtWork ((machine (some "a")).run declined) 1 none none :=
      AtWork.start ⟨.up, 1, ⟨201, 10⟩, second, false, false, none, none⟩ (by decide) rfl
    rcases hadopts 1 none none hwork ⟨0, ⟨"sha256:1", "sbarbase-durable-db"⟩, true, some 0, false⟩
      (by decide) rfl with hown | ⟨_, _, _, hjudged, _⟩
    · exact (nomatch hown)
    · exact (nomatch hjudged)

end

end Sbarbase.Starts.Proofs.KeptLaw
