import Sbarbase.Control.Proofs.Frames
import Sbarbase.OnDemand.Policy
/-!
# What each operation does to the settings rows

A request is written only where none is pending, and writes one row. The other
operations leave the rows alone, except the stop that is called off and the
outcome that an operator records.
-/

namespace Sbarbase.OnDemand.Proofs.Rows

open Lib Lib.Call Control Control.Proofs.Frames

/-- The row that asks for a change. -/
def requestRow (ctx : Context) (key : Key) (on : Bool) (actor : String) : ServiceSwitch :=
  ⟨settingsTable key.1, key.2, on, .pending, none, actor, ctx.now⟩

/-- The only row that changed is the one of `key`: no change was pending there,
and `row` asks for one. -/
def AskedAt (key : Key) (row : ServiceSwitch) (c c' : Catalog) : Prop :=
  (serviceRow c key.2 key.1).state ≠ .pending ∧ row.state = .pending ∧
    ∀ other : Key, settings c' other.2 other.1 =
      if other = key then some row else settings c other.2 other.1

/-- Every row is as it was, except rows that satisfy `N` and ask for a change
where none was pending. -/
def Asks (N : ServiceSwitch → Prop) (c c' : Catalog) : Prop :=
  ∀ key : Key, settings c' key.2 key.1 = settings c key.2 key.1 ∨
    ((serviceRow c key.2 key.1).state ≠ .pending ∧
      ∃ row, settings c' key.2 key.1 = some row ∧ row.state = .pending ∧ N row)

section

variable {N : ServiceSwitch → Prop} {c c' c'' : Catalog}

theorem settingsTable_injective : Function.Injective settingsTable := by
  intro a b h
  cases a <;> cases b <;> first | rfl | cases h

theorem settings_congr (h : c'.switches = c.switches) (runtime : String)
    (service : OnDemandService) : settings c' runtime service = settings c runtime service := by
  rw [settings, settings, h]

theorem serviceRow_congr {runtime : String} {service : OnDemandService}
    (h : settings c' runtime service = settings c runtime service) :
    serviceRow c' runtime service = serviceRow c runtime service := by
  rw [serviceRow, serviceRow, h]

theorem serviceRow_of_settings {key : Key} {row : ServiceSwitch}
    (h : settings c key.2 key.1 = some row) : (serviceRow c key.2 key.1).state = row.state := by
  rw [serviceRow, h]

theorem asks_refl (c : Catalog) : Asks N c c := fun _ => .inl rfl

theorem asks_of_switches (h : c'.switches = c.switches) : Asks N c c' :=
  fun key => .inl (settings_congr h key.2 key.1)

/-- A second request cannot meet a row that already asks for one. -/
theorem Asks.trans (h : Asks N c c') (h' : Asks N c' c'') : Asks N c c'' := by
  intro key
  rcases h key with hsame | ⟨hfree, row, hrow, hpending, hN⟩
  · rcases h' key with hsame' | ⟨hfree', row, hrow, hpending, hN⟩
    · exact .inl (hsame'.trans hsame)
    · refine .inr ⟨?_, row, hrow, hpending, hN⟩
      rw [serviceRow, hsame] at hfree'
      exact hfree'
  · rcases h' key with hsame' | ⟨hfree', -⟩
    · exact .inr ⟨hfree, row, hsame'.trans hrow, hpending, hN⟩
    · rw [serviceRow_of_settings hrow] at hfree'
      exact absurd hpending hfree'

theorem Asks.mono {N' : ServiceSwitch → Prop} (h : Asks N c c') (hN : ∀ row, N row → N' row) :
    Asks N' c c' := by
  intro key
  rcases h key with hsame | ⟨hfree, row, hrow, hpending, hrowN⟩
  · exact .inl hsame
  · exact .inr ⟨hfree, row, hrow, hpending, hN row hrowN⟩

theorem AskedAt.asks {key : Key} {row : ServiceSwitch} (h : AskedAt key row c c') (hN : N row) :
    Asks N c c' := by
  intro other
  have hother := h.2.2 other
  split_ifs at hother with heq
  · subst heq
    exact .inr ⟨h.1, row, hother, h.2.1, hN⟩
  · exact .inl hother

theorem AskedAt.congr {key : Key} {row : ServiceSwitch} (h : AskedAt key row c c')
    (hsame : c''.switches = c'.switches) : AskedAt key row c c'' :=
  ⟨h.1, h.2.1, fun other => (settings_congr hsame other.2 other.1).trans (h.2.2 other)⟩

/-- A pending row is kept. -/
theorem Asks.pending {key : Key} (h : Asks N c c')
    (hpending : (serviceRow c key.2 key.1).state = .pending) :
    settings c' key.2 key.1 = settings c key.2 key.1 := by
  rcases h key with hsame | ⟨hfree, -⟩
  · exact hsame
  · exact absurd hpending hfree

end

theorem written_eq_none {c c' : Catalog} {key : Key}
    (h : settings c' key.2 key.1 = settings c key.2 key.1) : written c c' key = none := by
  rw [written, Option.filter_eq_none_iff]
  intro row hrow
  rw [← h, hrow]
  simp

/-- One row is put. -/
theorem settings_put (c : Catalog) {key : Key} {row : ServiceSwitch}
    (hkey : row.key = (settingsTable key.1, key.2)) (other : Key) :
    settings { c with switches := c.switches.put row } other.2 other.1 =
      if other = key then some row else settings c other.2 other.1 := by
  have hiff : row.key = (settingsTable other.1, other.2) ↔ other = key := by
    rw [hkey, Prod.mk.injEq, Prod.ext_iff, settingsTable_injective.eq_iff]
    exact and_congr eq_comm eq_comm
  rw [settings, Table.get_put]
  by_cases heq : other = key
  · rw [if_pos heq, if_pos (hiff.mpr heq)]
  · rw [if_neg heq, if_neg fun h => heq (hiff.mp h)]
    rfl

/-! ## The requests -/

section

variable (ctx : Context)

theorem putRequest_asked (c : Catalog) (key : Key) (on : Bool) (actor : String)
    (hfree : (serviceRow c key.2 key.1).state ≠ .pending) :
    AskedAt key (requestRow ctx key on actor) c
      { c with switches := c.switches.put (requestRow ctx key on actor) } :=
  ⟨hfree, rfl, fun other => settings_put c rfl other⟩

theorem writeRequest_asked (c : Catalog) (key : Key) (on : Bool)
    (actor action environment : String) (detail : Detail)
    (hfree : (serviceRow c key.2 key.1).state ≠ .pending) :
    (writeRequest ctx key.2 key.1 on actor action environment detail).Ensures c fun _ c' =>
      AskedAt key (requestRow ctx key on actor) c c' := by
  unfold writeRequest putRequest Access.record
  rw [ensures_bind, ensures_write, ensures_write]
  exact (putRequest_asked ctx c key on actor hfree).congr rfl

instance {τ : Type} {p : Catalog → τ} (service : OnDemandService) (actor environment : String) :
    Leaves p (readSettings ctx service actor environment) := by
  unfold readSettings
  infer_instance

instance : Silent Catalog.switches := ⟨fun _ _ _ _ => rfl⟩

instance (runtime : String) (service : OnDemandService) (mode : Mode) (actor : String)
    (idle : Option ℤ) (reason : String) :
    Leaves Catalog.switches (saveMode ctx runtime service mode actor idle reason) := by
  unfold saveMode
  infer_instance

theorem requestSettings_asks (c : Catalog) (service : OnDemandService)
    (actor environment : String) (on : Bool) :
    (requestSettings ctx service actor environment on).Ensures c fun _ c' =>
      Asks (fun row => row.actor = actor) c c' := by
  unfold requestSettings
  rw [ensures_transaction]
  apply ensures_check
  intro current hcurrent
  have hrow : current.row = serviceRow c current.runtime service := by
    unfold readSettings at hcurrent
    simp only [returns_bind, returns_read, returns_pure] at hcurrent
    obtain ⟨_, s₁, hcheck, _, _, ⟨rfl, rfl⟩, _, _, hjob, _, s₃, hready, rfl, rfl⟩ := hcurrent
    obtain ⟨-, rfl⟩ := returns_found.mp hjob
    obtain ⟨-, hs⟩ := returns_require.mp hready
    rw [hs]
  apply ensures_check
  intro _ hfree
  rw [returns_require] at hfree
  obtain ⟨hfree, -⟩ := hfree
  rw [hrow] at hfree
  have hasked := putRequest_asked ctx c (service, current.runtime) on actor hfree
  unfold putRequest
  rw [ensures_bind, ensures_write]
  intro _ c' hrest
  exact (hasked.congr (Leaves.of_returns (p := Catalog.switches) hrest)).asks rfl

theorem setServiceMode_asks (c : Catalog) (actor environment : String)
    (service : OnDemandService) (mode : Mode) (idle : Option ℤ) :
    (setServiceMode ctx actor environment service mode idle).Ensures c fun _ c' =>
      Asks (fun row => row.actor = actor) c c' := by
  unfold setServiceMode
  rw [ensures_transaction]
  apply ensures_check
  intro _ _
  rw [ensures_bind, ensures_read]
  apply ensures_check
  intro job _
  apply ensures_check
  intro _ _
  apply ensures_check
  intro _ _
  apply ensures_check
  intro _ hfree
  rw [returns_require] at hfree
  obtain ⟨hfree, -⟩ := hfree
  rw [ensures_bind]
  intro _ c₁ hsave
  have hswitches : c₁.switches = c.switches := Leaves.of_returns (p := Catalog.switches) hsave
  have hfree₁ : (serviceRow c₁ job.runtime service).state ≠ .pending := by
    rw [serviceRow, settings_congr hswitches]
    exact hfree
  have hsame : Asks (fun row => row.actor = actor) c c₁ := asks_of_switches hswitches
  rw [ensures_bind, ensures_when]
  constructor
  · rintro ⟨hon, -⟩
    refine (writeRequest_asked ctx c₁ (service, job.runtime) _ _ _ _ _ hfree₁).mono ?_
    intro _ c₂ hasked
    rw [ensures_bind, ensures_when]
    refine ⟨fun hoff => ?_, fun _ => ?_⟩
    · rw [hon] at hoff
      cases hoff.1
    · rw [ensures_bind, ensures_read, ensures_pure]
      exact hsame.trans (hasked.asks rfl)
  · intro _
    rw [ensures_bind, ensures_when]
    refine ⟨fun _ => ?_, fun _ => ?_⟩
    · refine (writeRequest_asked ctx c₁ (service, job.runtime) _ _ _ _ _ hfree₁).mono ?_
      intro _ c₂ hasked
      rw [ensures_bind, ensures_read, ensures_pure]
      exact hsame.trans (hasked.asks rfl)
    · rw [ensures_bind, ensures_read, ensures_pure]
      exact hsame

/-- The request of the gateway or the sleeper is written, or nothing is. -/
theorem requestServiceChange_asked (c : Catalog) (key : Key) (on : Bool) (actor : String)
    (reason : ChangeReason) (force : Bool) :
    (requestServiceChange ctx key.2 key.1 on actor reason force).Ensures c fun result c' =>
      (result = .requested ∧ AskedAt key (requestRow ctx key on actor) c c' ∧
          c.runtimeReady key.2 = true ∧
          (on = true → force = false → (serviceRow c key.2 key.1).state ≠ .on)) ∨
        (result ≠ .requested ∧ c' = c) := by
  unfold requestServiceChange
  rw [ensures_transaction, ensures_bind, ensures_read]
  apply ensures_check
  intro job _
  apply ensures_check
  intro _ hready
  obtain ⟨hready, -⟩ := returns_require.mp hready
  rw [ensures_ite]
  refine ⟨fun _ => ensures_pure.mpr (.inr ⟨by decide, rfl⟩), fun hfree => ?_⟩
  rw [ensures_ite]
  refine ⟨fun _ => ensures_pure.mpr (.inr ⟨by decide, rfl⟩), fun hchange => ?_⟩
  rw [ensures_bind]
  refine (writeRequest_asked ctx c key on actor _ _ _ hfree).mono ?_
  intro _ c' hasked
  rw [ensures_pure]
  exact .inl ⟨rfl, hasked, hready, fun hon hforce hup => hchange (.inl ⟨hon, hup, hforce⟩)⟩

instance (service : OnDemandService) (actor environment : String) (on : Bool) :
    Atomic (requestSettings ctx service actor environment on) := by
  unfold requestSettings
  infer_instance

instance (actor environment : String) (service : OnDemandService) (mode : Mode)
    (idle : Option ℤ) : Atomic (setServiceMode ctx actor environment service mode idle) := by
  unfold setServiceMode
  infer_instance

/-- What an operation that throws or returns leaves, from what it returns with. -/
theorem asks_after {α : Type} {call : CatalogCall α} [hatomic : Atomic call]
    {N : ServiceSwitch → Prop} {c : Catalog} (h : call.Ensures c fun _ c' => Asks N c c') :
    Asks N c (call.after c) := by
  rcases hatomic.after_cases c with hsame | ⟨a, hreturns⟩
  · rw [hsame]
    exact asks_refl c
  · exact h a _ hreturns

/-- The request was written, or the call left the catalog alone. -/
theorem requestServiceChange_cases (c : Catalog) (key : Key) (on : Bool) (actor : String)
    (reason : ChangeReason) (force : Bool) :
    (∃ c', requestServiceChange ctx key.2 key.1 on actor reason force c = (.ok .requested, c') ∧
        AskedAt key (requestRow ctx key on actor) c c' ∧ c.runtimeReady key.2 = true ∧
        (on = true → force = false → (serviceRow c key.2 key.1).state ≠ .on)) ∨
      ∃ outcome, outcome ≠ .ok .requested ∧
        requestServiceChange ctx key.2 key.1 on actor reason force c = (outcome, c) := by
  have hatomic : Atomic (requestServiceChange ctx key.2 key.1 on actor reason force) := by
    unfold requestServiceChange
    infer_instance
  rcases hatomic.outcome c with ⟨e, hthrows⟩ | ⟨result, c', hreturns⟩
  · exact .inr ⟨.error e, by simp, hthrows⟩
  · rcases requestServiceChange_asked ctx c key on actor reason force result c' hreturns with
      ⟨rfl, hasked⟩ | ⟨hresult, rfl⟩
    · exact .inl ⟨c', hreturns, hasked⟩
    · exact .inr ⟨.ok result, by simpa using hresult, hreturns⟩

end

/-! ## The policy -/

section

variable (options : Options) (ctx : Context)

/-- A pass of a wake that has not asked yet and has nothing else to do asks now. -/
def asksNow (c : Catalog) (turn : Turn) (running : Bool) : Prop :=
  ctx.now < turn.deadline ∧
    ¬ ((serviceRow c turn.key.2 turn.key.1).state = .on ∧ running = true) ∧
    (serviceRow c turn.key.2 turn.key.1).state ≠ .pending ∧ turn.requested = false ∧
    wakesInWindow c turn.key.2 turn.key.1 ctx.now < options.wakesPerHour ∧
    c.runtimeReady turn.key.2 = true

instance (c : Catalog) (turn : Turn) (running : Bool) :
    Decidable (asksNow options ctx c turn running) :=
  inferInstanceAs (Decidable (_ ∧ _))

/-- A pass that writes is one that asks. -/
theorem wakePass_cases (c : Catalog) (turn : Turn) (running : Bool) :
    (wakePass options ctx c turn running).2.2 = c ∨
      (asksNow options ctx c turn running ∧
        AskedAt turn.key (requestRow ctx turn.key true "system:wake") c
          (wakePass options ctx c turn running).2.2) := by
  unfold wakePass
  dsimp only
  by_cases hdeadline : turn.deadline ≤ ctx.now
  · rw [if_pos hdeadline]
    exact .inl rfl
  rw [if_neg hdeadline]
  by_cases hup : (serviceRow c turn.key.2 turn.key.1).state = .on ∧ running = true
  · rw [if_pos hup]
    exact .inl rfl
  rw [if_neg hup]
  by_cases hpending : (serviceRow c turn.key.2 turn.key.1).state = .pending
  · rw [if_pos hpending]
    exact .inl rfl
  rw [if_neg hpending]
  by_cases hrequested : turn.requested = true
  · left
    split_ifs <;> rfl
  rw [if_neg fun h => hrequested h.1, if_neg fun h => hrequested h.1, if_neg hrequested]
  by_cases hused : options.wakesPerHour ≤ wakesInWindow c turn.key.2 turn.key.1 ctx.now
  · rw [if_pos hused]
    exact .inl rfl
  rw [if_neg hused]
  rcases requestServiceChange_cases ctx c turn.key true "system:wake" .wake
      (decide ((serviceRow c turn.key.2 turn.key.1).state = .on)) with
    ⟨c', hcall, hasked, hready, -⟩ | ⟨outcome, -, hcall⟩
  · rw [hcall]
    have hasks : asksNow options ctx c turn running :=
      ⟨by omega, hup, hpending, by simpa using hrequested, by omega, hready⟩
    exact .inr ⟨hasks, hasked⟩
  · rw [hcall]
    left
    cases outcome <;> rfl

theorem wakeNow_cases (p : Policy) (c : Catalog) (running : Bool) :
    (wakeNow options ctx p c running).2 = c ∨
      ∃ turn, p.turn options ctx.now = some turn ∧ asksNow options ctx c turn running ∧
        AskedAt turn.key (requestRow ctx turn.key true "system:wake") c
          (wakeNow options ctx p c running).2 := by
  unfold wakeNow
  cases hturn : p.turn options ctx.now with
  | none => exact .inl rfl
  | some turn =>
      have hpass := wakePass_cases options ctx c turn running
      dsimp only
      rcases hresult : wakePass options ctx c turn running with ⟨_ | outcome, turn', c'⟩
      all_goals
        rw [hresult] at hpass
        rcases hpass with hsame | hasked
        · exact .inl hsame
        · exact .inr ⟨turn, rfl, hasked⟩

theorem cancelSleep_cases (c : Catalog) (key : Key) :
    ((cancelSleep ctx key.2 key.1).after c).switches = c.switches ∨
      ∃ row, settings c key.2 key.1 = some row ∧ sleepRequested row = true ∧
        ∀ other : Key, settings ((cancelSleep ctx key.2 key.1).after c) other.2 other.1 =
          if other = key then
            some { row with desired := true, state := .on, failure := none, actor := "system:wake" }
          else settings c other.2 other.1 := by
  cases hrow : (settings c key.2 key.1).filter sleepRequested with
  | none =>
      left
      unfold cancelSleep
      rw [after, transaction_apply, bind_apply]
      simp only [Call.read, id_eq, hrow]
      rfl
  | some row =>
      right
      obtain ⟨hsettings, hrequested⟩ := Option.filter_eq_some_iff.mp hrow
      refine ⟨row, hsettings, hrequested, fun other => ?_⟩
      let awake : ServiceSwitch :=
        { row with desired := true, state := .on, failure := none, actor := "system:wake" }
      have hkey : awake.key = (settingsTable key.1, key.2) := (Table.get_eq_some.mp hsettings).2
      rw [← settings_put c hkey other]
      refine settings_congr ?_ other.2 other.1
      unfold cancelSleep
      rw [after, transaction_apply, bind_apply]
      simp only [Call.read, id_eq, hrow]
      cases c.jobOfRuntime key.2 <;> rfl

/-- What `ensure` does to the rows: nothing, or the sleeper's stop is called off. -/
theorem callOff_cases (c : Catalog) (key : Key) (running : Bool) :
    (callOff ctx c key running).switches = c.switches ∨
      ∃ row, settings c key.2 key.1 = some row ∧ sleepRequested row = true ∧
        key.1 = .functions ∧ running = true ∧
        ∀ other : Key, settings (callOff ctx c key running) other.2 other.1 =
          if other = key then
            some { row with desired := true, state := .on, failure := none, actor := "system:wake" }
          else settings c other.2 other.1 := by
  unfold callOff
  dsimp only
  split_ifs with h
  · obtain ⟨hfunctions, -, -, hrunning⟩ := h
    rcases cancelSleep_cases ctx c key with hsame | ⟨row, hrow, hrequested, hsettings⟩
    · exact .inl hsame
    · exact .inr ⟨row, hrow, hrequested, hfunctions, hrunning, hsettings⟩
  · exact .inl rfl

theorem ensure_catalog (p : Policy) (c : Catalog) (key : Key) (running : Bool) :
    (ensure options ctx p c key running).2.2 = c ∨
      ((c.serviceMode key.2 key.1).1 = .onDemand ∧
        (ensure options ctx p c key running).2.2 = callOff ctx c key running) := by
  unfold ensure
  dsimp only
  by_cases hup : (c.serviceMode key.2 key.1).1 = .on ∧
      (serviceRow c key.2 key.1).state = .on ∧ running = true
  · rw [if_pos hup]
    exact .inl rfl
  rw [if_neg hup]
  by_cases hmode : (c.serviceMode key.2 key.1).1 = .onDemand
  · rw [if_neg (not_not.mpr hmode)]
    right
    refine ⟨hmode, ?_⟩
    split_ifs <;> rfl
  · rw [if_pos hmode]
    exact .inl rfl

/-- The service of a target. -/
def key (target : Target) : Key := (target.service, target.runtime)

/-- The kill switch wakes what sleeps, and what failed long enough ago. -/
def wakeable (c : Catalog) (target : Target) : Prop :=
  (serviceRow c target.runtime target.service).state = .off ∨
    ((serviceRow c target.runtime target.service).state = .failed ∧
      failedLately ctx (serviceRow c target.runtime target.service) = false)

instance (c : Catalog) (target : Target) : Decidable (wakeable ctx c target) :=
  inferInstanceAs (Decidable (_ ∨ _))

/-- A target is left alone, woken with no toggle pending so far, or put to sleep. -/
theorem sweepTarget_cases (killed sleepDue : Bool) (running quiet : Target → Bool) (s : Sweep)
    (target : Target) :
    ((sweepTarget ctx killed sleepDue running quiet s target).catalog = s.catalog ∧
        (sweepTarget ctx killed sleepDue running quiet s target).pending = (s.pending ||
          decide ((serviceRow s.catalog target.runtime target.service).state = .pending))) ∨
      (killed = true ∧ s.pending = false ∧ wakeable ctx s.catalog target ∧
        (sweepTarget ctx killed sleepDue running quiet s target).pending = true ∧
        AskedAt (key target) (requestRow ctx (key target) true "system:kill-switch") s.catalog
          (sweepTarget ctx killed sleepDue running quiet s target).catalog) ∨
      (killed = false ∧
        AskedAt (key target) (requestRow ctx (key target) false "system:idle") s.catalog
          (sweepTarget ctx killed sleepDue running quiet s target).catalog) := by
  unfold sweepTarget
  dsimp only
  by_cases hpending : (serviceRow s.catalog target.runtime target.service).state = .pending
  · rw [if_pos hpending]
    exact .inl ⟨rfl, by simp [hpending]⟩
  rw [if_neg hpending]
  have hleft : s.pending = (s.pending ||
      decide ((serviceRow s.catalog target.runtime target.service).state = .pending)) := by
    simp [hpending]
  by_cases hlately : killed = true ∧
      failedLately ctx (serviceRow s.catalog target.runtime target.service) = true
  · rw [if_pos hlately]
    exact .inl ⟨rfl, hleft⟩
  rw [if_neg hlately]
  by_cases hkilled : killed = true
  · rw [if_pos hkilled]
    split_ifs with hwake
    · rcases requestServiceChange_cases ctx s.catalog (key target) true "system:kill-switch"
          .killSwitch false with ⟨c', hcall, hasked, -, hoff⟩ | ⟨outcome, houtcome, hcall⟩
      · have hstate : wakeable ctx s.catalog target := by
          have hup := hoff rfl rfl
          cases hrow : (serviceRow s.catalog target.runtime target.service).state with
          | off => exact .inl hrow
          | pending => exact absurd hrow hpending
          | on => exact absurd hrow hup
          | failed => exact .inr ⟨hrow, by simpa [hkilled] using hlately⟩
        change requestServiceChange ctx target.runtime target.service true _ _ _ _ = _ at hcall
        rw [hcall]
        exact .inr (.inl ⟨hkilled, hwake.2, hstate, rfl, hasked⟩)
      · change requestServiceChange ctx target.runtime target.service true _ _ _ _ = _ at hcall
        rw [hcall]
        left
        rcases outcome with e | _ | _ | _
        · exact ⟨rfl, hleft⟩
        · exact absurd rfl houtcome
        · exact ⟨rfl, hleft⟩
        · exact ⟨rfl, hleft⟩
    · exact .inl ⟨rfl, hleft⟩
  · rw [if_neg hkilled]
    split_ifs with hsleep
    · rcases requestServiceChange_cases ctx s.catalog (key target) false "system:idle" .idle
          false with ⟨c', hcall, hasked, -⟩ | ⟨outcome, houtcome, hcall⟩
      · change requestServiceChange ctx target.runtime target.service false _ _ _ _ = _ at hcall
        rw [hcall]
        exact .inr (.inr ⟨by simpa using hkilled, hasked⟩)
      · change requestServiceChange ctx target.runtime target.service false _ _ _ _ = _ at hcall
        rw [hcall]
        left
        rcases outcome with e | _ | _ | _
        · exact ⟨rfl, hleft⟩
        · exact absurd rfl houtcome
        · exact ⟨rfl, hleft⟩
        · exact ⟨rfl, hleft⟩
    · exact .inl ⟨rfl, hleft⟩

theorem sweepTargets_asks (killed sleepDue : Bool) (running quiet : Target → Bool)
    (targets : List Target) (s : Sweep) :
    Asks (fun row => row.actor = "system:kill-switch" ∨ row.actor = "system:idle") s.catalog
      (targets.foldl (sweepTarget ctx killed sleepDue running quiet) s).catalog := by
  induction targets generalizing s with
  | nil => exact asks_refl _
  | cons target targets ih =>
      rw [List.foldl_cons]
      refine Asks.trans ?_ (ih _)
      rcases sweepTarget_cases ctx killed sleepDue running quiet s target with
        ⟨hsame, -⟩ | ⟨-, -, -, -, hasked⟩ | ⟨-, hasked⟩
      · rw [hsame]
        exact asks_refl _
      · exact hasked.asks (.inl rfl)
      · exact hasked.asks (.inr rfl)

/-- The rows that a sweep writes are of the kill switch or of the sleeper. -/
theorem sweep_asks (p : Policy) (c : Catalog) (running quiet : Target → Bool) :
    Asks (fun row => row.actor = "system:kill-switch" ∨ row.actor = "system:idle") c
      (sweep ctx p c running quiet).1.catalog :=
  sweepTargets_asks ctx _ _ running quiet _ _

end

/-! ## The operator -/

theorem settings_recordOutcome (c : Catalog) (key : Key) (state : SwitchState)
    (failure : Option String) (now : ℤ) (other : Key) :
    settings (recordOutcome c key state failure now) other.2 other.1 =
      if other = key then (settings c other.2 other.1).map (withOutcome state failure now)
      else settings c other.2 other.1 := by
  have hget : settings (recordOutcome c key state failure now) other.2 other.1 =
      (settings c other.2 other.1).map fun row =>
        if decide (row.key = (settingsTable key.1, key.2)) then withOutcome state failure now row
        else row :=
    Table.get_modify c.switches _ (withOutcome state failure now) (fun _ => rfl) _
  have hkey : ∀ row, settings c other.2 other.1 = some row →
      (row.key = (settingsTable key.1, key.2) ↔ other = key) := by
    intro row hrow
    rw [(Table.get_eq_some.mp hrow).2, Prod.mk.injEq, Prod.ext_iff,
      settingsTable_injective.eq_iff]
  rw [hget]
  cases hrow : settings c other.2 other.1 with
  | none => rw [Option.map_none, Option.map_none, ite_self]
  | some row =>
      have hiff := hkey row hrow
      by_cases heq : other = key
      · simp [hiff, heq]
      · simp [hiff, heq]

/-- What an operator read and has not recorded yet. -/
def pendingWant : Operator → Option Bool
  | .wanted want => some want
  | .free want => some want
  | .running want _ _ => some want
  | .ended want _ _ => some want
  | .started => none
  | .recorded _ _ _ => none

theorem switches_superviseAudit (c : Catalog) (key : Key) (action : String) (detail : Detail)
    (now : ℤ) : (superviseAudit c key action detail now).switches = c.switches := by
  unfold superviseAudit
  cases c.jobOfRuntime key.2 <;> rfl

theorem switches_outcomeAudit (c : Catalog) (key : Key) (want : Bool) (reason : String)
    (code : ℕ) (seconds now : ℤ) :
    (outcomeAudit c key want reason code seconds now).switches = c.switches := by
  unfold outcomeAudit
  dsimp only
  split_ifs <;> exact switches_superviseAudit _ _ _ _ _

/-- A step of an operator writes at most its own row, and that only when it
records; it goes on with what it read. -/
theorem applyStep_cases (key : Key) (c : Catalog) (operator : Operator) (step : OperatorStep) :
    (∃ want reason code now, operator = .ended want reason code ∧ step = .record true now ∧
        applyStep key c operator step =
          (recordOutcome c key (outcome key want code).1 (outcome key want code).2 now,
            .inl (.recorded want reason code))) ∨
      ((applyStep key c operator step).1.switches = c.switches ∧
        ((operator = .started ∧ step = .desired ∧
            ∃ row, settings c key.2 key.1 = some row ∧
              (applyStep key c operator step).2 = .inl (.wanted row.desired)) ∨
          (∃ code, (applyStep key c operator step).2 = .inr code) ∨
          ∃ next, (applyStep key c operator step).2 = .inl next ∧
            (pendingWant next = none ∨ pendingWant next = pendingWant operator) ∧
            ¬ (operator = .started ∧ step = .desired))) := by
  -- what the cases below do not name leaves the operator where it stands
  have hstays : ∀ {catalog next}, applyStep key c operator step = (catalog, .inl next) →
      catalog.switches = c.switches → pendingWant next = none ∨
        pendingWant next = pendingWant operator → ¬ (operator = .started ∧ step = .desired) →
      (applyStep key c operator step).1.switches = c.switches ∧
        ∃ next, (applyStep key c operator step).2 = .inl next ∧
          (pendingWant next = none ∨ pendingWant next = pendingWant operator) ∧
          ¬ (operator = .started ∧ step = .desired) := by
    intro catalog next hstep hswitches hwant hread
    rw [hstep]
    exact ⟨hswitches, next, rfl, hwant, hread⟩
  cases operator with
  | started =>
      cases step with
      | desired =>
          cases hrow : settings c key.2 key.1 with
          | none =>
              refine .inr ⟨?_, .inr (.inl ⟨1, ?_⟩)⟩ <;> simp only [applyStep, hrow]
          | some row =>
              refine .inr ⟨?_, .inl ⟨rfl, rfl, row, rfl, ?_⟩⟩ <;> simp only [applyStep, hrow]
      | killed => exact .inr ⟨rfl, .inr (.inl ⟨1, rfl⟩)⟩
      | _ =>
          obtain ⟨hswitches, hnext⟩ := hstays rfl rfl (.inr rfl) (by simp)
          exact .inr ⟨hswitches, .inr (.inr hnext)⟩
  | wanted want =>
      cases step with
      | busy held =>
          cases held with
          | true => exact .inr ⟨rfl, .inr (.inl ⟨capacityCode, rfl⟩)⟩
          | false =>
              obtain ⟨hswitches, hnext⟩ := hstays rfl rfl (.inr rfl) (by simp)
              exact .inr ⟨hswitches, .inr (.inr hnext)⟩
      | killed => exact .inr ⟨rfl, .inr (.inl ⟨1, rfl⟩)⟩
      | _ =>
          obtain ⟨hswitches, hnext⟩ := hstays rfl rfl (.inr rfl) (by simp)
          exact .inr ⟨hswitches, .inr (.inr hnext)⟩
  | free want =>
      cases step with
      | killed => exact .inr ⟨rfl, .inr (.inl ⟨1, rfl⟩)⟩
      | _ =>
          obtain ⟨hswitches, hnext⟩ := hstays rfl rfl (.inr rfl) (by simp)
          exact .inr ⟨hswitches, .inr (.inr hnext)⟩
  | running want reason command =>
      cases step with
      | result code =>
          by_cases hbusy : code = busyCode
          · refine .inr ⟨rfl, .inr (.inl ⟨capacityCode, ?_⟩)⟩
            simp only [applyStep, if_pos hbusy]
          · have hended : applyStep key c (.running want reason command) (.result code) =
                (c, .inl (.ended want reason code)) := by simp only [applyStep, if_neg hbusy]
            obtain ⟨hswitches, hnext⟩ := hstays hended rfl (.inr rfl) (by simp)
            exact .inr ⟨hswitches, .inr (.inr hnext)⟩
      | killed => exact .inr ⟨rfl, .inr (.inl ⟨1, rfl⟩)⟩
      | _ =>
          obtain ⟨hswitches, hnext⟩ := hstays rfl rfl (.inr rfl) (by simp)
          exact .inr ⟨hswitches, .inr (.inr hnext)⟩
  | ended want reason code =>
      cases step with
      | record stored now =>
          cases stored with
          | true => exact .inl ⟨want, reason, code, now, rfl, rfl, rfl⟩
          | false =>
              obtain ⟨hswitches, hnext⟩ := hstays rfl rfl (.inl rfl) (by simp)
              exact .inr ⟨hswitches, .inr (.inr hnext)⟩
      | killed => exact .inr ⟨rfl, .inr (.inl ⟨1, rfl⟩)⟩
      | _ =>
          obtain ⟨hswitches, hnext⟩ := hstays rfl rfl (.inr rfl) (by simp)
          exact .inr ⟨hswitches, .inr (.inr hnext)⟩
  | recorded want reason code =>
      cases step with
      | audit stored seconds now =>
          refine .inr ⟨?_, .inr (.inl ⟨_, rfl⟩)⟩
          cases stored with
          | true => exact switches_outcomeAudit _ _ _ _ _ _ _
          | false => rfl
      | killed => exact .inr ⟨rfl, .inr (.inl ⟨1, rfl⟩)⟩
      | _ =>
          obtain ⟨hswitches, hnext⟩ := hstays rfl rfl (.inr rfl) (by simp)
          exact .inr ⟨hswitches, .inr (.inr hnext)⟩

/-- What a step of an operator leaves in the rows: all of them, or its outcome. -/
theorem operate_catalog (s : Installation) (key : Key) (step : OperatorStep) :
    (s.operate key step).catalog.switches = s.catalog.switches ∨
      ∃ want code now, (s.operate key step).catalog =
        recordOutcome s.catalog key (outcome key want code).1 (outcome key want code).2 now := by
  unfold Installation.operate
  cases s.operators.get key with
  | none => exact .inl rfl
  | some operator =>
      dsimp only
      rcases applyStep_cases key s.catalog operator step with
        ⟨want, reason, code, now, -, -, hstep⟩ | ⟨hswitches, -⟩
      · rw [hstep]
        exact .inr ⟨want, code, now, rfl⟩
      · left
        rcases hresult : applyStep key s.catalog operator step with ⟨c, next | exit⟩
        all_goals
          rw [hresult] at hswitches
          exact hswitches

/-! ## An installation -/

/-- A call at a time, without platform functions. -/
def callAt (now : ℤ) : Context where
  now := now
  current := fun _ => true
  event := "e"
  channels := []
  authorizationStore := false
  authority := none
  lifecycleAdmission := none
  parseUrl := fun _ => none
  toLowerCase := fun text => text
  digest := fun text => text
  placementDigest := fun _ => ""

def firstRuntime : String := "e_000000000000000000000000"

def secondRuntime : String := "e_111111111111111111111111"

/-- Two environments of one owner, with Edge Functions On demand, asleep. -/
def installed : Catalog :=
  catalogMachine.run
    [(callAt 0, .initializeInstallation "op" "a" "Home" "o"),
      (callAt 1, .createProjectWithProduction "a" "o" "Shop" "p" "v" firstRuntime),
      (callAt 2, .claimProvision "claim"),
      (callAt 3, .finishProvision "v" "claim" true .runtimeFailed none),
      (callAt 4, .createEnvironment "a" "p" "staging" "w" secondRuntime),
      (callAt 5, .claimProvision "again"),
      (callAt 6, .finishProvision "w" "again" true .runtimeFailed none)]

end Sbarbase.OnDemand.Proofs.Rows
