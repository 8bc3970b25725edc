import Sbarbase.OnDemand.Proofs.Rows
/-!
# One wake at a time

The chain gives one wake its turn after the other, but a turn that gave up
leaves its row pending, and a sweep knows only of the pending rows it has met so
far. So a second wake can be written beside a pending one, unless the turn that
asks finds no other wake of the system, and the sweep meets every pending
service before one it can wake.
-/

namespace Sbarbase.OnDemand.Proofs.Wakes

open Lib Lib.Call Control OnDemand.Proofs.Rows

/-- A wake that the gateway or the kill switch asked for and that is not applied yet. -/
def isSystemWake (row : ServiceSwitch) : Bool :=
  row.state = .pending && row.desired &&
    (row.actor = "system:wake" || row.actor = "system:kill-switch")

def SystemWake (c : Catalog) (key : Key) : Prop :=
  (settings c key.2 key.1).any isSystemWake = true

/-- At most one wake of the system is pending. -/
def OneWake (c : Catalog) : Prop :=
  ∀ key other, SystemWake c key → SystemWake c other → key = other

/-- A sweep that writes a wake leaves no toggle of another On demand service pending. -/
def NoOverlap (s : Installation) : Event → Prop
  | .sweep ctx running quiet =>
    let after := (sweep ctx s.policy s.catalog running quiet).1.catalog
    ∀ target ∈ onDemandTargets s.catalog,
      (written s.catalog after (key target)).any ServiceSwitch.desired = true →
        ∀ other ∈ onDemandTargets s.catalog, key other ≠ key target →
          (serviceRow after other.runtime other.service).state ≠ .pending
  | _ => True

/-- No wake of the system is pending where another is asked for: a turn that asks
finds none, a sweep of the kill switch that meets a service it can wake, with
nothing pending before it, finds nothing pending behind it either, and nobody
has the name of a system actor. -/
def Apart (options : Options) (s : Installation) : Event → Prop
  | .wake ctx running =>
    ∀ turn, s.policy.turn options ctx.now = some turn →
      asksNow options ctx s.catalog turn running → ∀ other, ¬ SystemWake s.catalog other
  | .sweep ctx _ _ =>
    killSwitch s.catalog = true → ∀ before target after,
      onDemandTargets s.catalog = before ++ target :: after → wakeable ctx s.catalog target →
      (∀ other ∈ before, (serviceRow s.catalog other.runtime other.service).state ≠ .pending) →
        (∀ other ∈ after, (serviceRow s.catalog other.runtime other.service).state ≠ .pending) ∧
          ∀ other, ¬ SystemWake s.catalog other
  | .request _ actor _ _ _ => actor ≠ "system:wake" ∧ actor ≠ "system:kill-switch"
  | .setServiceMode _ actor _ _ _ _ => actor ≠ "system:wake" ∧ actor ≠ "system:kill-switch"
  | _ => True

section

variable {c c' : Catalog}

/-- No wake was added. -/
def Fewer (c c' : Catalog) : Prop := ∀ key, SystemWake c' key → SystemWake c key

theorem OneWake.fewer (h : OneWake c) (hfewer : Fewer c c') : OneWake c' :=
  fun key other hkey hother => h key other (hfewer key hkey) (hfewer other hother)

theorem fewer_of_switches (h : c'.switches = c.switches) : Fewer c c' := by
  intro key hkey
  rw [SystemWake, settings_congr h] at hkey
  exact hkey

theorem fewer_of_asks {N : ServiceSwitch → Prop} (h : Asks N c c')
    (hN : ∀ row, N row → isSystemWake row = false) : Fewer c c' := by
  intro key hkey
  rcases h key with hsame | ⟨-, row, hrow, -, hNrow⟩
  · rw [SystemWake, hsame] at hkey
    exact hkey
  · rw [SystemWake, hrow, Option.any_some, hN row hNrow] at hkey
    cases hkey

/-- The only wake of the system is the one that was asked for. -/
theorem oneWake_asked {key : Key} {row : ServiceSwitch} (h : AskedAt key row c c')
    (hnone : ∀ other, ¬ SystemWake c other) : OneWake c' := by
  have honly : ∀ other, SystemWake c' other → other = key := by
    intro other hother
    rw [SystemWake, h.2.2 other] at hother
    by_contra hne
    rw [if_neg hne] at hother
    exact hnone other hother
  intro other another hother hanother
  rw [honly other hother, honly another hanother]

theorem not_systemWake_of_actor {row : ServiceSwitch} (hwake : row.actor ≠ "system:wake")
    (hkill : row.actor ≠ "system:kill-switch") : isSystemWake row = false := by
  simp [isSystemWake, hwake, hkill]

theorem not_systemWake_of_state {row : ServiceSwitch} (h : row.state ≠ .pending) :
    isSystemWake row = false := by
  simp [isSystemWake, h]

theorem not_systemWake_of_off {row : ServiceSwitch} (h : row.desired = false) :
    isSystemWake row = false := by
  simp [isSystemWake, h]

theorem fewer_callOff (ctx : Context) (c : Catalog) (key : Key) (running : Bool) :
    Fewer c (callOff ctx c key running) := by
  rcases callOff_cases ctx c key running with hsame | ⟨row, -, -, -, -, hsettings⟩
  · exact fewer_of_switches hsame
  · intro other hother
    rw [SystemWake, hsettings] at hother
    split_ifs at hother
    · rw [Option.any_some, not_systemWake_of_state (by simp)] at hother
      cases hother
    · exact hother

theorem outcome_state (key : Key) (want : Bool) (code : ℕ) :
    (outcome key want code).1 ≠ .pending := by
  unfold outcome
  split_ifs <;> simp

theorem fewer_recordOutcome (c : Catalog) (key : Key) {state : SwitchState}
    (failure : Option String) (now : ℤ) (hstate : state ≠ .pending) :
    Fewer c (recordOutcome c key state failure now) := by
  intro other hother
  rw [SystemWake, settings_recordOutcome] at hother
  split_ifs at hother
  · rw [Option.any_map, Option.any_eq_true] at hother
    obtain ⟨row, -, hrow⟩ := hother
    have hnot := @not_systemWake_of_state (withOutcome state failure now row) hstate
    rw [hnot] at hrow
    cases hrow
  · exact hother

end

/-! ## The sweep -/

section

variable (ctx : Context) (sleepDue : Bool) (running quiet : Target → Bool)

/-- Once a toggle is pending, the kill switch writes nothing more. -/
theorem killed_pending (targets : List Target) (s : Sweep) (hpending : s.pending = true) :
    (targets.foldl (sweepTarget ctx true sleepDue running quiet) s).catalog = s.catalog := by
  induction targets generalizing s with
  | nil => rfl
  | cons target targets ih =>
      rw [List.foldl_cons]
      rcases sweepTarget_cases ctx true sleepDue running quiet s target with
        ⟨hsame, hstill⟩ | ⟨-, hfree, -⟩ | ⟨hkilled, -⟩
      · rw [ih _ (by rw [hstill, hpending, Bool.true_or]), hsame]
      · rw [hpending] at hfree
        cases hfree
      · cases hkilled

/-- The kill switch writes nothing, or one wake: of the first service it can wake
with nothing pending before it. -/
theorem killed_targets (targets : List Target) (s : Sweep) :
    (targets.foldl (sweepTarget ctx true sleepDue running quiet) s).catalog = s.catalog ∨
      ∃ before target after, targets = before ++ target :: after ∧
        wakeable ctx s.catalog target ∧
        (∀ other ∈ before, (serviceRow s.catalog other.runtime other.service).state ≠ .pending) ∧
        AskedAt (key target) (requestRow ctx (key target) true "system:kill-switch") s.catalog
          (targets.foldl (sweepTarget ctx true sleepDue running quiet) s).catalog := by
  induction targets generalizing s with
  | nil => exact .inl rfl
  | cons target targets ih =>
      rw [List.foldl_cons]
      rcases sweepTarget_cases ctx true sleepDue running quiet s target with
        ⟨hsame, hstill⟩ | ⟨-, -, hwakeable, hpending, hasked⟩ | ⟨hkilled, -⟩
      · by_cases hrow : (serviceRow s.catalog target.runtime target.service).state = .pending
        · left
          rw [killed_pending ctx sleepDue running quiet targets _
            (by rw [hstill, decide_eq_true hrow, Bool.or_true]), hsame]
        · rcases ih (sweepTarget ctx true sleepDue running quiet s target) with
            hkept | ⟨before, other, after, htargets, hwakeable, hbefore, hasked⟩
          · exact .inl (hkept.trans hsame)
          · rw [hsame] at hwakeable hbefore hasked
            refine .inr ⟨target :: before, other, after, by rw [htargets, List.cons_append],
              hwakeable, ?_, hasked⟩
            intro earlier hearlier
            rcases List.mem_cons.mp hearlier with rfl | hmem
            · exact hrow
            · exact hbefore earlier hmem
      · right
        refine ⟨[], target, targets, rfl, hwakeable, by simp, ?_⟩
        rw [killed_pending ctx sleepDue running quiet targets _ hpending]
        exact hasked
      · cases hkilled

/-- Without the kill switch, a sweep asks for stops only. -/
theorem sleeping_targets (targets : List Target) (s : Sweep) :
    Asks (fun row => row.desired = false) s.catalog
      (targets.foldl (sweepTarget ctx false sleepDue running quiet) s).catalog := by
  induction targets generalizing s with
  | nil => exact asks_refl _
  | cons target targets ih =>
      rw [List.foldl_cons]
      refine Asks.trans ?_ (ih _)
      rcases sweepTarget_cases ctx false sleepDue running quiet s target with
        ⟨hsame, -⟩ | ⟨hkilled, -⟩ | ⟨-, hasked⟩
      · rw [hsame]
        exact asks_refl _
      · cases hkilled
      · exact hasked.asks rfl

/-- What a sweep writes. -/
theorem sweep_cases (p : Policy) (c : Catalog) : (killSwitch c = false ∧
        Asks (fun row => row.desired = false) c (sweep ctx p c running quiet).1.catalog) ∨
      (killSwitch c = true ∧ (sweep ctx p c running quiet).1.catalog = c) ∨
      (killSwitch c = true ∧ ∃ before target after,
        onDemandTargets c = before ++ target :: after ∧ wakeable ctx c target ∧
        (∀ other ∈ before, (serviceRow c other.runtime other.service).state ≠ .pending) ∧
        AskedAt (key target) (requestRow ctx (key target) true "system:kill-switch") c
          (sweep ctx p c running quiet).1.catalog) := by
  unfold sweep
  dsimp only
  cases hkilled : killSwitch c with
  | false => exact .inl ⟨rfl, sleeping_targets ctx _ running quiet _ _⟩
  | true =>
      rcases killed_targets ctx (decide (60000 ≤ ctx.now - p.lastSleepSweep)) running quiet
          (onDemandTargets c) ⟨c, false, 0, 0⟩ with hsame | hwake
      · exact .inr (.inl ⟨rfl, hsame⟩)
      · exact .inr (.inr ⟨rfl, hwake⟩)

end

/-! ## Every run -/

section

variable (options : Options) {s : Installation}

theorem noOverlap_of_apart (e : Event) (he : Apart options s e) : NoOverlap s e := by
  unfold NoOverlap
  split
  · rename_i ctx running quiet
    dsimp only
    intro target _ hwritten other hother hne
    rcases sweep_cases ctx running quiet s.policy s.catalog with
      ⟨-, hasks⟩ | ⟨-, hsame⟩ | ⟨hkilled, before, woken, after, htargets, hwakeable, hbefore, hasked⟩
    · rcases hasks (key target) with hrow | ⟨-, row, hrow, -, hoff⟩
      · rw [written_eq_none hrow] at hwritten
        cases hwritten
      · rw [Option.any_eq_true] at hwritten
        obtain ⟨row', hrow', hdesired⟩ := hwritten
        rw [written, Option.filter_eq_some_iff] at hrow'
        obtain rfl := Option.some.inj (hrow.symm.trans hrow'.1)
        rw [hoff] at hdesired
        cases hdesired
    · rw [hsame, written_eq_none rfl] at hwritten
      cases hwritten
    · obtain ⟨hafter, -⟩ := he hkilled before woken after htargets hwakeable hbefore
      have htarget : key target = key woken := by
        by_contra hother
        rw [written_eq_none ((hasked.2.2 (key target)).trans (if_neg hother))] at hwritten
        cases hwritten
      have hsame := hasked.2.2 (key other)
      rw [if_neg (by rw [← htarget]; exact hne)] at hsame
      change settings _ other.runtime other.service = settings _ other.runtime other.service at hsame
      rw [serviceRow_congr hsame]
      rw [htargets, List.mem_append, List.mem_cons] at hother
      rcases hother with hmem | rfl | hmem
      · exact hbefore other hmem
      · exact absurd htarget.symm hne
      · exact hafter other hmem
  · trivial

theorem oneWake_step (hs : OneWake s.catalog) (e : Event) (he : Apart options s e) :
    OneWake ((machine options).step s e).catalog := by
  cases e with
  | ensure ctx key running =>
      change OneWake (ensure options ctx s.policy s.catalog key running).2.2
      rcases ensure_catalog options ctx s.policy s.catalog key running with hsame | ⟨-, hoff⟩
      · rw [hsame]
        exact hs
      · rw [hoff]
        exact hs.fewer (fewer_callOff ctx s.catalog key running)
  | wake ctx running =>
      change OneWake (wakeNow options ctx s.policy s.catalog running).2
      rcases wakeNow_cases options ctx s.policy s.catalog running with
        hsame | ⟨turn, hturn, hasks, hasked⟩
      · rw [hsame]
        exact hs
      · exact oneWake_asked hasked (he turn hturn hasks)
  | expire key => exact hs
  | sweep ctx running quiet =>
      change OneWake (sweep ctx s.policy s.catalog running quiet).1.catalog
      rcases sweep_cases ctx running quiet s.policy s.catalog with
        ⟨-, hasks⟩ | ⟨-, hsame⟩ | ⟨hkilled, before, target, after, htargets, hwakeable, hbefore,
          hasked⟩
      · exact hs.fewer (fewer_of_asks hasks fun row => not_systemWake_of_off)
      · rw [hsame]
        exact hs
      · exact oneWake_asked hasked (he hkilled before target after htargets hwakeable hbefore).2
  | request ctx actor environment service on =>
      have hasks := asks_after (requestSettings_asks ctx s.catalog service actor environment on)
      refine hs.fewer (fewer_of_asks hasks fun row hactor => ?_)
      exact not_systemWake_of_actor (hactor ▸ he.1) (hactor ▸ he.2)
  | setServiceMode ctx actor environment service mode idle =>
      have hasks :=
        asks_after (setServiceMode_asks ctx s.catalog actor environment service mode idle)
      refine hs.fewer (fewer_of_asks hasks fun row hactor => ?_)
      exact not_systemWake_of_actor (hactor ▸ he.1) (hactor ▸ he.2)
  | elsewhere c => exact hs.fewer (fewer_of_switches rfl)
  | restart => exact hs
  | schedule key =>
      change OneWake (if s.operators.has key then s else _).catalog
      split_ifs <;> exact hs
  | operator key step =>
      change OneWake (s.operate key step).catalog
      rcases operate_catalog s key step with hswitches | ⟨want, code, now, hrecord⟩
      · exact hs.fewer (fewer_of_switches hswitches)
      · rw [hrecord]
        exact hs.fewer (fewer_recordOutcome _ _ _ _ (outcome_state key want code))

end

/-- In a run in which no wake is asked for beside another, at most one wake of
the system is pending at every moment, and no sweep writes a wake while the
toggle of another On demand service is pending. -/
theorem wakes_law (options : Options) (events : List Event)
    (h : (machine options).Along (Apart options) (machine options).initial events) :
    OneWake ((machine options).run events).catalog ∧
      (machine options).Along NoOverlap (machine options).initial events := by
  constructor
  · refine (machine options).run_invariant_along (I := fun s => OneWake s.catalog) ?_ ?_ events h
    · intro key other hkey
      cases hkey
    · intro s e he hs
      exact oneWake_step options hs e he
  · rw [Machine.along_iff] at h ⊢
    intro before e hprefix
    exact noOverlap_of_apart options e (h before e hprefix)

/-! ## Two runs with the kill switch on -/

/-- The two environments, with the kill switch on. -/
def killed : Catalog :=
  { installed with installationSettings := installed.installationSettings.put ⟨"kill_switch", "1"⟩ }

/-- The sweeper wakes Edge Functions of the first environment. -/
def swept : List Event :=
  [.elsewhere killed, .sweep (callAt 10) (fun _ => false) fun _ => false]

theorem wakes_law_swept : OneWake ((machine {}).run swept).catalog ∧
      (machine {}).Along NoOverlap (machine {}).initial swept := by
  refine wakes_law {} swept ⟨trivial, ?_, trivial⟩
  -- no settings row was written yet, so nothing is pending
  intro _ before target after _ _ _
  refine ⟨fun other _ hpending => ?_, fun other hwake => ?_⟩
  · cases hpending
  · cases hwake

/-- A request wakes Edge Functions of the second environment, and the sweep comes
to the first one before it. -/
def overlapping : List Event :=
  [.elsewhere killed, .ensure (callAt 10) (.functions, secondRuntime) false,
    .wake (callAt 10) false, .sweep (callAt 11) (fun _ => false) fun _ => false]

theorem wakes_overlap : ¬ OneWake ((machine {}).run overlapping).catalog := by
  intro h
  have hsame := h (.functions, firstRuntime) (.functions, secondRuntime)
    (by unfold SystemWake; decide +kernel) (by unfold SystemWake; decide +kernel)
  revert hsame
  decide

end Sbarbase.OnDemand.Proofs.Wakes
