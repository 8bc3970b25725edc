import Sbarbase.OnDemand.Proofs.Rows
/-!
# The outcome that an operator records

The operator writes its outcome without looking at the row again. While a
request is pending no other is written, so the row it records is the one it
read, unless the sleeper's stop was called off in between: then a new request
can be written under the operator, and its outcome takes the request's place.
-/

namespace Sbarbase.OnDemand.Proofs.Records

open Lib Lib.Call Control OnDemand.Proofs.Rows

/-- What the operator of a service works on. -/
def working (s : Installation) (key : Key) : Option Bool := (s.operators.get key).bind pendingWant

/-- A record is for the request that was read, and a newer request is still
pending after it. -/
def RecordsItsRequest (options : Options) (s : Installation) : Event → Prop
  | .operator key (.record true now) =>
    ∀ want reason code, s.operators.get key = some (.ended want reason code) →
      let before := settings s.catalog key.2 key.1
      let after := settings
        ((machine options).step s (.operator key (.record true now))).catalog key.2 key.1
      match s.newer key with
      | some request => after = some request
      | none => (∃ row, before = some row ∧ row.state = .pending ∧ row.desired = want) ∧
          after = before.map (withOutcome (outcome key want code).1 (outcome key want code).2 now)
  | _ => True

/-- The operator reads a pending row, and no stop is called off between the read
of an operator and its record. -/
def Undisturbed (s : Installation) : Event → Prop
  | .operator key .desired =>
    s.operators.get key = some .started → (serviceRow s.catalog key.2 key.1).state = .pending
  | .ensure _ key running =>
    (s.catalog.serviceMode key.2 key.1).1 = .onDemand → key.1 = .functions → running = true →
      (settings s.catalog key.2 key.1).any sleepRequested → working s key = none
  | _ => True

/-- What an operator works on is the pending request of its row, and none is newer. -/
def Current (s : Installation) : Prop :=
  ∀ key want, working s key = some want →
    (∃ row, settings s.catalog key.2 key.1 = some row ∧ row.state = .pending ∧
      row.desired = want) ∧ s.newer key = none

section

variable {s : Installation}

/-- A step of the catalog that keeps the rows operators work on. -/
theorem current_withCatalog {c : Catalog} (hs : Current s)
    (hkeep : ∀ key want, working s key = some want →
      settings c key.2 key.1 = settings s.catalog key.2 key.1) : Current (s.withCatalog c) := by
  intro key want hwork
  have hsame := hkeep key want hwork
  obtain ⟨hrow, hnewer⟩ := hs key want hwork
  refine ⟨?_, ?_⟩
  · change ∃ row, settings c key.2 key.1 = some row ∧ _
    rw [hsame]
    exact hrow
  · change (written s.catalog c key).or (s.newer key) = none
    rw [written_eq_none hsame, hnewer]
    rfl

theorem current_of_asks {N : ServiceSwitch → Prop} {c : Catalog} (hs : Current s)
    (h : Asks N s.catalog c) : Current (s.withCatalog c) := by
  refine current_withCatalog hs fun key want hwork => h.pending ?_
  obtain ⟨⟨row, hrow, hpending, -⟩, -⟩ := hs key want hwork
  rw [serviceRow_of_settings hrow, hpending]

theorem current_congr {s' : Installation} (hs : Current s)
    (hswitches : s'.catalog.switches = s.catalog.switches) (hoperators : s'.operators = s.operators)
    (hnewer : s'.newer = s.newer) : Current s' := by
  intro key want hwork
  rw [working, hoperators] at hwork
  rw [settings_congr hswitches, hnewer]
  exact hs key want hwork

theorem working_set (operators : Dict Key Operator) (key other : Key) (operator : Operator) :
    ((operators.set key operator).get other).bind pendingWant =
      if other = key then pendingWant operator else (operators.get other).bind pendingWant := by
  rw [Dict.get_set]
  split_ifs <;> rfl

theorem working_delete (operators : Dict Key Operator) (key other : Key) :
    ((operators.delete key).get other).bind pendingWant =
      if other = key then none else (operators.get other).bind pendingWant := by
  rw [Dict.get_delete]
  split_ifs <;> rfl

/-! ## The steps of an operator -/

/-- An operator goes on with the request it read. -/
theorem current_operate (hs : Current s) (key : Key) (step : OperatorStep)
    (hread : step = .desired → s.operators.get key = some .started →
      (serviceRow s.catalog key.2 key.1).state = .pending) : Current (s.operate key step) := by
  unfold Installation.operate
  cases hoperator : s.operators.get key with
  | none => exact hs
  | some operator =>
      dsimp only
      have hwork : ∀ want, pendingWant operator = some want → working s key = some want := by
        intro want hwant
        rw [working, hoperator]
        exact hwant
      rcases applyStep_cases key s.catalog operator step with
        ⟨want, reason, code, now, rfl, rfl, hstep⟩ | ⟨hswitches, hnext⟩
      · rw [hstep]
        intro other wanted hother
        change ((s.operators.set key _).get other).bind pendingWant = _ at hother
        rw [working_set] at hother
        split_ifs at hother with heq
        · cases hother
        · obtain ⟨hrow, hnewer⟩ := hs other wanted hother
          refine ⟨?_, by simpa using hnewer⟩
          change ∃ row, settings (recordOutcome _ _ _ _ _) _ _ = some row ∧ _
          rw [settings_recordOutcome, if_neg heq]
          exact hrow
      rcases hresult : applyStep key s.catalog operator step with ⟨c, next | exit⟩
      · rw [hresult] at hswitches hnext
        dsimp only at hswitches hnext ⊢
        intro other wanted hother
        change ((s.operators.set key next).get other).bind pendingWant = _ at hother
        rw [working_set] at hother
        change (∃ row, settings c _ _ = some row ∧ _) ∧ _
        rw [settings_congr hswitches]
        dsimp only
        split_ifs at hother with heq
        · subst heq
          rcases hnext with ⟨rfl, rfl, row, hrow, hnext⟩ | ⟨_, hexit⟩ | ⟨_, hnext, hwant, hkept⟩
          · obtain rfl := Sum.inl.inj hnext
            obtain rfl := Option.some.inj hother
            have hpending := hread rfl hoperator
            rw [serviceRow_of_settings hrow] at hpending
            exact ⟨⟨row, hrow, hpending, rfl⟩, by simp⟩
          · cases hexit
          · obtain rfl := Sum.inl.inj hnext
            rcases hwant with hnone | hsame
            · rw [hnone] at hother
              cases hother
            · rw [hsame] at hother
              obtain ⟨hrow, hnewer⟩ := hs other wanted (hwork wanted hother)
              refine ⟨hrow, ?_⟩
              rw [if_neg fun h => hkept ⟨h.1, h.2.1⟩]
              exact hnewer
        · obtain ⟨hrow, hnewer⟩ := hs other wanted hother
          refine ⟨hrow, ?_⟩
          rw [if_neg fun h => heq h.2.2]
          exact hnewer
      · rw [hresult] at hswitches
        dsimp only at hswitches ⊢
        intro other wanted hother
        change ((s.operators.delete key).get other).bind pendingWant = _ at hother
        rw [working_delete] at hother
        change (∃ row, settings c _ _ = some row ∧ _) ∧ _
        rw [settings_congr hswitches]
        dsimp only
        split_ifs at hother with heq
        obtain ⟨hrow, hnewer⟩ := hs other wanted hother
        refine ⟨hrow, ?_⟩
        rw [if_neg fun h => heq h.2.2]
        exact hnewer

theorem current_step (options : Options) (hs : Current s) (e : Event) (he : Undisturbed s e) :
    Current ((machine options).step s e) := by
  cases e with
  | ensure ctx key running =>
      have hkeep : Current (s.withCatalog (ensure options ctx s.policy s.catalog key running).2.2) := by
        rcases ensure_catalog options ctx s.policy s.catalog key running with
          hsame | ⟨hmode, hoff⟩
        · rw [hsame]
          exact current_of_asks hs (asks_refl (N := fun _ => True) _)
        · rw [hoff]
          refine current_withCatalog hs fun other want hwork => ?_
          rcases callOff_cases ctx s.catalog key running with
            hswitches | ⟨row, hrow, hrequested, hfunctions, hrunning, hsettings⟩
          · exact settings_congr hswitches _ _
          · rw [hsettings, if_neg]
            rintro rfl
            rw [he hmode hfunctions hrunning (by rw [hrow]; exact hrequested)] at hwork
            cases hwork
      exact current_congr hkeep rfl rfl rfl
  | wake ctx running =>
      have hasks : Asks (fun _ => True) s.catalog
          (wakeNow options ctx s.policy s.catalog running).2 := by
        rcases wakeNow_cases options ctx s.policy s.catalog running with
          hsame | ⟨turn, -, -, hasked⟩
        · rw [hsame]
          exact asks_refl _
        · exact hasked.asks trivial
      exact current_congr (current_of_asks hs hasks) rfl rfl rfl
  | expire key => exact current_congr hs rfl rfl rfl
  | sweep ctx running quiet =>
      exact current_congr (current_of_asks hs (sweep_asks ctx s.policy s.catalog running quiet))
        rfl rfl rfl
  | request ctx actor environment service on =>
      exact current_of_asks hs (asks_after (requestSettings_asks ctx _ service actor environment on))
  | setServiceMode ctx actor environment service mode idle =>
      exact current_of_asks hs
        (asks_after (setServiceMode_asks ctx _ actor environment service mode idle))
  | elsewhere c => exact current_congr hs rfl rfl rfl
  | restart => exact current_congr hs rfl rfl rfl
  | schedule key =>
      change Current (if s.operators.has key then s else _)
      split_ifs with hhas
      · exact hs
      · intro other want hother
        change ((s.operators.set key .started).get other).bind pendingWant = _ at hother
        rw [working_set] at hother
        split_ifs at hother with heq
        · cases hother
        · exact hs other want hother
  | operator key step =>
      refine current_operate hs key step ?_
      rintro rfl
      exact he

end

/-- When the operator works on the pending request of its row, it records that
request's outcome. -/
theorem records_of_current (options : Options) {s : Installation} (hs : Current s) (e : Event) :
    RecordsItsRequest options s e := by
  unfold RecordsItsRequest
  split
  · rename_i key now
    intro want reason code hended
    obtain ⟨⟨row, hrow, hpending, hwant⟩, hnewer⟩ := hs key want (by rw [working, hended]; rfl)
    rw [hnewer]
    refine ⟨⟨row, hrow, hpending, hwant⟩, ?_⟩
    change settings (s.operate key (.record true now)).catalog _ _ = _
    unfold Installation.operate
    rw [hended]
    change settings (recordOutcome _ _ _ _ _) _ _ = _
    rw [settings_recordOutcome, if_pos rfl]
    rfl
  · trivial

/-- In a run in which every operator reads a pending row and no stop is called
off before it records, every record is for the request that was read, and no
newer request is overwritten. -/
theorem records_law (options : Options) (events : List Event)
    (h : (machine options).Along Undisturbed (machine options).initial events) :
    (machine options).Along (RecordsItsRequest options) (machine options).initial events := by
  rw [Machine.along_iff] at h ⊢
  intro before e hprefix
  apply records_of_current
  have hbefore : (machine options).Along Undisturbed (machine options).initial before := by
    rw [Machine.along_iff]
    intro first e' hfirst
    exact h first e' (hfirst.trans ((List.prefix_append _ _).trans hprefix))
  refine (machine options).run_invariant_along ?_ ?_ before hbefore
  · intro key want hwork
    cases hwork
  · intro s e he hs
    exact current_step options hs e he

/-! ## Two runs of an operator -/

def functionsKey : Key := (.functions, firstRuntime)

def operate (steps : List OperatorStep) : List Event := steps.map (.operator functionsKey)

/-- The owner turns Edge Functions on, and an operator starts them. -/
def turnedOn : List Event :=
  [.elsewhere installed, .request (callAt 10) "a" "v" .functions true, .schedule functionsKey] ++
    operate [.desired, .busy false, .requestedBy, .result 0, .record true 12]

theorem records_law_turnedOn :
    (machine {}).Along (RecordsItsRequest {}) (machine {}).initial turnedOn :=
  records_law {} turnedOn ⟨trivial, trivial, trivial, fun _ => by decide +kernel, trivial, trivial,
    trivial, trivial, trivial⟩

/-- A request woke Edge Functions, and when they were quiet the sleeper asked for
a stop. While the operator stops them a request calls the stop off and the owner
turns them on. -/
def calledOff : List Event :=
  [.elsewhere installed, .ensure (callAt 10) functionsKey false, .wake (callAt 10) false,
    .schedule functionsKey] ++
    operate [.desired, .busy false, .requestedBy, .result 0, .record true 12, .audit true 1 12] ++
    [.wake (callAt 13) true, .sweep (callAt 1000000) (fun _ => true) (fun _ => true),
      .schedule functionsKey] ++
    operate [.desired, .busy false, .requestedBy] ++
    [.ensure (callAt 1000001) functionsKey true,
      .request (callAt 1000002) "a" "v" .functions true] ++
    operate [.result 0]

/-- The record of the stop takes the place of the owner's request: the row asks
for Edge Functions on, and says they are off with nothing pending. -/
theorem records_overwritten : ¬ (machine {}).Along (RecordsItsRequest {}) (machine {}).initial
      (calledOff ++ [.operator functionsKey (.record true 1000003)]) := by
  intro h
  rw [Machine.along_iff] at h
  have hrecord := h calledOff _ (List.prefix_refl _) false "idle" 0 (by decide +kernel)
  have hnewer : ((machine {}).runFrom (machine {}).initial calledOff).newer functionsKey =
      some (requestRow (callAt 1000002) functionsKey true "a") := by decide +kernel
  simp only [hnewer] at hrecord
  revert hrecord
  decide +kernel

end Sbarbase.OnDemand.Proofs.Records
