import Sbarbase.OnDemand.Holding
import Sbarbase.OnDemand.Proofs.Rows
/-!
# Wakes in an hour, and the places of held requests

A wake is written only where fewer than `wakesPerHour` are recorded after the hour
that ends at the reading of the clock, so no hour has more. The count of held
requests tallies the requests that were not answered.
-/

namespace Sbarbase.OnDemand.Proofs.HoldingLaw

open Lib Lib.Call Control OnDemand.Holding

/-! ## The recorded wakes -/

/-- Wakes of a service of an environment within the hour after `start`. -/
def wakesWithin (c : Catalog) (service : OnDemandService) (environment : String) (start : ℤ) : ℕ :=
  c.audit.countP fun event => isWakeOf service event && event.subject = environment &&
    decide (start < event.time) && decide (event.time ≤ start + wakeWindowMs)

/-- No hour has more wakes than the limit. -/
def Spaced (limit : ℕ) (c : Catalog) : Prop :=
  ∀ service environment start, wakesWithin c service environment start ≤ limit

section

variable {limit : ℕ} {c c' : Catalog}

theorem sameWakes_of_audit (h : c'.audit = c.audit) : SameWakes c c' := by
  intro service
  rw [h]

/-- A recorded event that is not a wake. -/
theorem sameWakes_append {event : AuditEvent} (h : c'.audit = c.audit ++ [event])
    (hevent : ∀ service, isWakeOf service event = false) : SameWakes c c' := by
  intro service
  rw [h, List.filter_append, List.filter_singleton, hevent service]
  simp

theorem wakesWithin_congr (h : SameWakes c c') (service : OnDemandService) (environment : String)
    (start : ℤ) :
    wakesWithin c' service environment start = wakesWithin c service environment start := by
  have hfilter : ∀ log : List AuditEvent, log.countP (fun event => isWakeOf service event &&
      event.subject = environment && decide (start < event.time) &&
        decide (event.time ≤ start + wakeWindowMs)) =
      (log.filter (isWakeOf service)).countP fun event => decide (event.subject = environment) &&
        decide (start < event.time) && decide (event.time ≤ start + wakeWindowMs) := by
    intro log
    rw [List.countP_filter]
    apply List.countP_congr
    intro event _
    cases isWakeOf service event <;> simp [and_assoc]
  rw [wakesWithin, wakesWithin, hfilter, hfilter, h service]

theorem Spaced.congr (hs : Spaced limit c) (h : SameWakes c c') : Spaced limit c' := by
  intro service environment start
  rw [wakesWithin_congr h]
  exact hs service environment start

/-- The code counts the wakes after the hour that ends now. -/
theorem wakesInWindow_eq {runtime : String} {service : OnDemandService} {job : ProvisionJob}
    (hjob : c.jobOfRuntime runtime = some job) (now : ℤ) :
    wakesInWindow c runtime service now = c.audit.countP fun event =>
      isWakeOf service event && event.subject = job.environment &&
        decide (now - wakeWindowMs < event.time) := by
  unfold wakesInWindow
  rw [hjob]
  apply List.countP_congr
  intro event _
  simp only [isWakeOf, Bool.and_eq_true, decide_eq_true_eq]
  tauto

/-- A wake recorded where fewer than the limit were counted. -/
theorem spaced_recorded {job : ProvisionJob} {runtime : String} {service : OnDemandService}
    {now : ℤ} {event : AuditEvent} (hs : Spaced limit c)
    (hjob : c.jobOfRuntime runtime = some job)
    (hused : wakesInWindow c runtime service now < limit)
    (haudit : c'.audit = c.audit ++ [event]) (hsubject : event.subject = job.environment)
    (hother : ∀ other, other ≠ service → isWakeOf other event = false) (htime : now ≤ event.time) :
    Spaced limit c' := by
  intro service' environment start
  rw [wakesWithin, haudit, List.countP_append, List.countP_singleton]
  split_ifs with hcounted
  · simp only [Bool.and_eq_true, decide_eq_true_eq] at hcounted
    obtain ⟨⟨⟨hwake, henvironment⟩, hafter⟩, hbefore⟩ := hcounted
    have hservice : service' = service := by
      by_contra hne
      rw [hother service' hne] at hwake
      cases hwake
    subst hservice
    -- the hour after `start` has the event in it, so it began after `now` less an hour
    have hsub : wakesWithin c service' environment start ≤
        wakesInWindow c runtime service' now := by
      rw [wakesInWindow_eq hjob]
      apply List.countP_mono_left
      intro old _ hold
      simp only [Bool.and_eq_true, decide_eq_true_eq] at hold ⊢
      refine ⟨⟨hold.1.1.1, ?_⟩, by omega⟩
      rw [hold.1.1.2, ← henvironment, hsubject]
    have hcount : wakesWithin c service' environment start < limit := lt_of_le_of_lt hsub hused
    exact hcount
  · exact hs service' environment start

end

/-! ## What the calls record -/

section

variable (ctx : Context)

theorem text_ne (service other : OnDemandService) :
    service.text ++ ".sleep_cancelled" ≠ other.text ++ ".wake_requested" := by
  cases service <;> cases other <;> decide

theorem sameWakes_callOff (c : Catalog) (key : Key) (running : Bool) :
    SameWakes c (callOff ctx c key running) := by
  unfold callOff
  dsimp only
  split_ifs
  · unfold cancelSleep
    rw [after, transaction_apply, bind_apply]
    simp only [Call.read, id_eq]
    cases (settings c key.2 key.1).filter sleepRequested with
    | none => exact sameWakes_of_audit rfl
    | some row =>
        cases hjob : c.jobOfRuntime key.2 with
        | none =>
            simp only
            exact sameWakes_of_audit rfl
        | some job =>
            simp only
            refine sameWakes_append rfl fun service => ?_
            simp [isWakeOf, text_ne]
  · exact sameWakes_of_audit rfl

/-- A wake that was asked for is recorded for the environment of its runtime. -/
theorem requestServiceChange_records (c : Catalog) (key : Key) (force : Bool) :
    (requestServiceChange ctx key.2 key.1 true "system:wake" .wake force).Ensures c fun _ c' =>
      c' = c ∨ ∃ job event, c.jobOfRuntime key.2 = some job ∧ c'.audit = c.audit ++ [event] ∧
        event.subject = job.environment ∧ event.time = ctx.now ∧
        ∀ other, other ≠ key.1 → isWakeOf other event = false := by
  unfold requestServiceChange
  rw [ensures_transaction, ensures_bind, ensures_read]
  apply ensures_check
  intro job hjob
  apply ensures_check
  intro _ _
  rw [ensures_ite]
  refine ⟨fun _ => ensures_pure.mpr (.inl rfl), fun _ => ?_⟩
  rw [ensures_ite]
  refine ⟨fun _ => ensures_pure.mpr (.inl rfl), fun _ => ?_⟩
  rw [ensures_bind, writeRequest, ensures_bind, putRequest, ensures_write, Access.record,
    ensures_write, ensures_pure]
  refine .inr ⟨job, _, (returns_found.mp hjob).1, rfl, rfl, rfl, fun other hother => ?_⟩
  have hne : key.1.text ++ ".wake_requested" ≠ other.text ++ ".wake_requested" := by
    cases hkey : key.1 <;> cases other <;> simp_all <;> decide
  simp [isWakeOf, hne]

end

/-! ## The places -/

/-- The environment whose place a request holds until it is answered. -/
def place (request : Request) : Option String :=
  if request.answered.isNone then some request.key.2 else none

/-- The held requests of an environment that were not answered. -/
def waiting (g : Holding.Gate) (runtime : String) : ℕ := countKey place g.requests runtime

/-- The counts are those of the requests, and no environment has too many. -/
structure Counted (maxHeld : ℕ) (g : Holding.Gate) : Prop where
  tally : Tallies place g.requests g.held
  few : ∀ runtime, waiting g runtime ≤ maxHeld

section

variable {maxHeld : ℕ} {g : Holding.Gate}

theorem counted_initial : Counted maxHeld .initial := ⟨.nil, fun _ => Nat.zero_le _⟩

/-- A change that keeps the counts and the places of the requests. -/
theorem Counted.congr {g' : Holding.Gate} (hg : Counted maxHeld g) (hheld : g'.held = g.held)
    (hrequests : g'.requests = g.requests) : Counted maxHeld g' := by
  refine ⟨?_, fun runtime => ?_⟩
  · rw [hheld, hrequests]
    exact hg.tally
  · rw [waiting, hrequests]
    exact hg.few runtime

theorem hold_shape (g : Holding.Gate) (key : Key) : (g.hold key).held = g.held.raise key.2 ∧
      ∃ wake, (g.hold key).requests = g.requests ++ [⟨key, wake, none, none⟩] := by
  unfold Holding.Gate.hold
  cases g.waking.get key with
  | some wake => exact ⟨rfl, wake, rfl⟩
  | none => exact ⟨rfl, g.wakes.length, rfl⟩

theorem counted_hold (hg : Counted maxHeld g) (key : Key)
    (hroom : (g.held.get key.2).getD 0 + 1 ≤ maxHeld) : Counted maxHeld (g.hold key) := by
  obtain ⟨hheld, wake, hrequests⟩ := hold_shape g key
  refine ⟨?_, fun runtime => ?_⟩
  · rw [hheld, hrequests]
    exact hg.tally.push rfl
  · rw [waiting, hrequests, countKey, List.countP_append, List.countP_singleton]
    have hold := hg.few runtime
    have hcount := hg.tally.getD runtime
    rw [waiting] at hold
    rw [countKey] at hold hcount
    split_ifs with hkey
    · have hruntime : key.2 = runtime := by simpa [place] using hkey
      rw [← hruntime] at hcount ⊢
      omega
    · omega

/-- In `finally` the count is taken down as a tally is. -/
theorem giveBack_eq (hg : Counted maxHeld g) (runtime : String) :
    giveBack g.held runtime = g.held.lower runtime := by
  unfold giveBack Dict.lower
  dsimp only
  cases hget : g.held.get runtime with
  | none => simp
  | some n =>
      have hpos := hg.tally.one_le hget
      rw [Option.getD_some]
      by_cases hzero : n - 1 = 0
      · rw [if_neg (by omega), if_pos hzero]
      · rw [if_pos (by omega), if_neg hzero]

theorem counted_answer (hg : Counted maxHeld g) (i : ℕ) (touchThrows : Bool) :
    Counted maxHeld (g.answer i touchThrows) := by
  unfold Holding.Gate.answer
  split
  · rename_i key wake settled hrequest
    dsimp only
    rw [giveBack_eq hg]
    refine ⟨hg.tally.drop hrequest rfl rfl, fun runtime => ?_⟩
    have hcount := Tallies.countKey_set place hrequest ⟨key, wake, some settled,
      some (if settled = .ok .up ∧ touchThrows = true then .error () else settled)⟩ runtime
    have hold := hg.few runtime
    rw [waiting] at hold ⊢
    dsimp only
    simp only [place, Option.isNone_some, Bool.false_eq_true, if_false, reduceCtorEq] at hcount
    omega
  · exact hg

theorem counted_decide (hg : Counted maxHeld g) (i : ℕ) (settled : Option Settled) :
    Counted maxHeld (g.decide i settled) := by
  unfold Holding.Gate.decide
  split
  · rename_i request hrequest
    refine ⟨hg.tally.set_same hrequest rfl, fun runtime => ?_⟩
    have hcount := Tallies.countKey_set place hrequest
      { request with raced := request.raced.or settled } runtime
    have hold := hg.few runtime
    rw [waiting] at hold ⊢
    dsimp only
    have hplace : place { request with raced := request.raced.or settled } = place request := rfl
    rw [hplace] at hcount
    omega
  · exact hg

end

/-! ## Every run -/

section

variable (options : Options)

theorem ensure_cases (ctx : Context) (g : Gate) (c : Catalog) (key : Key) (running : Bool)
    (fault : Option EnsureFault) :
    SameWakes c (Holding.ensure options ctx g c key running fault).2.2 ∧
      ((Holding.ensure options ctx g c key running fault).2.1 = g ∨
        ((g.held.get key.2).getD 0 + 1 ≤ options.maxHeld ∧
          (Holding.ensure options ctx g c key running fault).2.1 = g.hold key)) := by
  have hsame : SameWakes c c := sameWakes_of_audit rfl
  have hoff := sameWakes_callOff ctx c key running
  unfold Holding.ensure
  dsimp only
  split_ifs with _ _ _ _ _ _ hfull
  · exact ⟨hsame, .inl rfl⟩
  · exact ⟨hsame, .inl rfl⟩
  · exact ⟨hsame, .inl rfl⟩
  · exact ⟨hsame, .inl rfl⟩
  · exact ⟨hoff, .inl rfl⟩
  · exact ⟨hoff, .inl rfl⟩
  · exact ⟨hoff, .inl rfl⟩
  · exact ⟨hoff, .inr ⟨by omega, rfl⟩⟩

/-- A pass that ends before it asks. -/
theorem spaced_ite {limit : ℕ} {q : Prop} [Decidable q] {r r' : Option Settled × Turn × Catalog}
    (h : Spaced limit r.2.2) (h' : ¬ q → Spaced limit r'.2.2) :
    Spaced limit (if q then r else r').2.2 := by
  by_cases hq : q
  · rwa [if_pos hq]
  · rw [if_neg hq]
    exact h' hq

/-- A pass records nothing, or one wake under the limit. -/
theorem spaced_wakePass {now : ℤ} {ctx : Context} (hnow : now ≤ ctx.now) {c : Catalog}
    (hc : Spaced options.wakesPerHour c) (turn : Turn) (running : Bool) (fault : Option PassFault) :
    Spaced options.wakesPerHour (Holding.wakePass options now ctx c turn running fault).2.2 := by
  unfold Holding.wakePass
  refine spaced_ite hc fun _ => spaced_ite hc fun _ => spaced_ite hc fun _ => spaced_ite hc fun _ =>
    spaced_ite hc fun _ => spaced_ite hc fun _ => spaced_ite hc fun _ => spaced_ite hc fun _ =>
    spaced_ite hc fun _ => spaced_ite hc fun hused => spaced_ite hc fun _ => ?_
  have hatomic : Atomic (requestServiceChange ctx turn.key.2 turn.key.1 true "system:wake" .wake
      (decide ((serviceRow c turn.key.2 turn.key.1).state = .on))) := by
    unfold requestServiceChange
    infer_instance
  rcases hatomic.outcome c with ⟨e, hthrows⟩ | ⟨result, c', hreturns⟩
  · rw [hthrows]
    exact hc
  · rw [hreturns]
    rcases requestServiceChange_records ctx c turn.key _ result c' hreturns with
      rfl | ⟨job, event, hjob, haudit, hsubject, htime, hother⟩
    · exact hc
    · exact spaced_recorded hc hjob (not_le.mp hused) haudit hsubject hother (htime ▸ hnow)

/-- What every run keeps. -/
def Sound (s : Holding.Console) : Prop :=
  Spaced options.wakesPerHour s.catalog ∧ Counted options.maxHeld s.gate

/-- The clock is read before the time that is recorded. -/
def Timely : Holding.Console → Holding.Event → Prop
  | _, .pass now ctx _ _ => now ≤ ctx.now
  | _, _ => True

theorem sound_initial : Sound options (Holding.machine options).initial :=
  ⟨fun _ _ _ => Nat.zero_le _, counted_initial⟩

theorem sound_step (s : Holding.Console) (e : Holding.Event) (he : Timely s e) (hs : Sound options s) :
    Sound options ((Holding.machine options).step s e) := by
  obtain ⟨hwakes, hcounted⟩ := hs
  cases e with
  | ensure ctx key running fault =>
      obtain ⟨hsame, hgate⟩ := ensure_cases options ctx s.gate s.catalog key running fault
      refine ⟨hwakes.congr hsame, ?_⟩
      change Counted options.maxHeld (Holding.ensure options ctx s.gate s.catalog key running fault).2.1
      rcases hgate with hgate | ⟨hroom, hgate⟩
      · rw [hgate]
        exact hcounted
      · rw [hgate]
        exact counted_hold hcounted key hroom
  | start now =>
      refine ⟨hwakes, ?_⟩
      change Counted options.maxHeld (s.gate.start options now)
      unfold Holding.Gate.start
      split
      · exact hcounted
      · exact hcounted.congr rfl rfl
  | pass now ctx running fault =>
      change Spaced _ (s.gate.pass options now ctx s.catalog running fault).2 ∧
        Counted _ (s.gate.pass options now ctx s.catalog running fault).1
      unfold Holding.Gate.pass
      split
      · exact ⟨spaced_wakePass options he hwakes _ running fault, hcounted.congr rfl rfl⟩
      · exact ⟨hwakes, hcounted⟩
  | forget wake =>
      refine ⟨hwakes, ?_⟩
      change Counted options.maxHeld (s.gate.forget wake)
      unfold Holding.Gate.forget
      split
      · split_ifs
        · exact hcounted.congr rfl rfl
        · exact hcounted
      · exact hcounted
  | timeout request => exact ⟨hwakes, counted_decide hcounted request _⟩
  | race request => exact ⟨hwakes, counted_decide hcounted request _⟩
  | answer request touchThrows => exact ⟨hwakes, counted_answer hcounted request touchThrows⟩
  | elsewhere c =>
      change Sound options (if SameWakes s.catalog c then { s with catalog := c } else s)
      split_ifs with hsame
      · exact ⟨hwakes.congr hsame, hcounted⟩
      · exact ⟨hwakes, hcounted⟩
  | restart => exact ⟨hwakes, counted_initial⟩

end

/-- In every run no hour has more wakes of a service of an environment than the limit,
and the held requests of an environment are counted: never more than `maxHeld`, and
none once each of them was answered. -/
theorem holding_law (options : Options) (events : List Holding.Event)
    (h : (Holding.machine options).Along Timely (Holding.machine options).initial events) :
    (∀ service environment start,
      wakesWithin ((Holding.machine options).run events).catalog service environment start ≤
        options.wakesPerHour) ∧
    ∀ runtime,
      (((Holding.machine options).run events).gate.held.get runtime).getD 0 =
          waiting ((Holding.machine options).run events).gate runtime ∧
        waiting ((Holding.machine options).run events).gate runtime ≤ options.maxHeld ∧
        ((∀ request ∈ ((Holding.machine options).run events).gate.requests,
            request.key.2 = runtime → request.answered.isSome = true) →
          ((Holding.machine options).run events).gate.held.get runtime = none) := by
  obtain ⟨hwakes, hcounted⟩ := (Holding.machine options).run_invariant_along (sound_initial options)
    (sound_step options) events h
  refine ⟨hwakes, fun runtime => ⟨hcounted.tally.getD runtime, hcounted.few runtime, ?_⟩⟩
  intro hanswered
  by_contra hheld
  obtain ⟨request, hmem, hplace⟩ := hcounted.tally.get_ne_none.mp hheld
  unfold place at hplace
  split_ifs at hplace with hnone
  have hsome := hanswered request hmem (Option.some.inj hplace)
  rw [Option.isSome_iff_ne_none] at hsome
  exact hsome (by simpa using hnone)

/-- A request wakes Edge Functions of the second environment and waits too long. -/
def woken : List Holding.Event :=
  [.elsewhere Rows.installed, .ensure (Rows.callAt 10) (.functions, Rows.secondRuntime) false none,
    .start 10, .pass 10 (Rows.callAt 11) false none, .timeout 0, .answer 0 false, .forget 0]

theorem holding_law_woken : (∀ service environment start,
      wakesWithin ((Holding.machine {}).run woken).catalog service environment start ≤ 6) ∧
    (((Holding.machine {}).run woken).gate.held.get Rows.secondRuntime).getD 0 =
      waiting ((Holding.machine {}).run woken).gate Rows.secondRuntime := by
  have htime : (10 : ℤ) ≤ 11 := by decide
  have hlaw := holding_law {} woken
    ⟨trivial, trivial, trivial, htime, trivial, trivial, trivial, trivial⟩
  exact ⟨hlaw.1, (hlaw.2 Rows.secondRuntime).1⟩

end Sbarbase.OnDemand.Proofs.HoldingLaw
