import Sbarbase.Gateway.Proofs.Steps
import Sbarbase.Lib.Pool
/-!
# Slots of the gate

The gate is a pool of slots, grouped by environment and parted by service. Every
event is a list of takes and frees of that pool, so the laws of the pool hold in
every reachable state. Progress is separate: the two timers of a call and its
continuation close it, in any interleaving.
-/

namespace Sbarbase.Gateway.Proofs.Slots

open Lib Gateway.Concurrency Gateway.Proofs.Steps

/-! ## The settings of a gate -/

theorem maximum_pos (c : Config) : 0 < c.maximum := by
  have h := c.checked
  unfold Settings.check at h
  split_ifs at h with hlimits
  simp [isPositive] at hlimits
  exact hlimits.2.1.2

theorem headroom_nonneg (c : Config) : 0 ≤ headroom c.toSettings := by
  have h := c.checked
  unfold Settings.check at h
  split_ifs at h with _ hborrow
  unfold headroom
  cases hpolicy : c.borrow with
  | none => simp
  | some policy =>
      simp [hpolicy, BorrowPolicy.valid] at hborrow
      simpa using hborrow.1.1.2

/-! ## The pool under the gate -/

def rules (c : Settings) : Pool.Rules (String × Option Budget) String String where
  group tag := tag.1
  part tag := tag.2.map Budget.service
  maximum := c.maximum
  partMaximum tag := (tag.2.map Budget.maximum).getD 0

def holder (call : Call) : Pool.Holder (String × Option Budget) :=
  ⟨(call.environment, call.budget), call.released⟩

def releasedCall : Effect → Option ℕ
  | .released call => some call
  | _ => none

/-- The gate as a pool. -/
def pool (g : Gate) : Pool.State (String × Option Budget) String String where
  holders := g.calls.map holder
  total := g.total
  groups := g.active
  parts := g.services
  freed := g.history.filterMap releasedCall

theorem filterMap_releasedCall {added history : List Effect}
    (h : ∀ effect ∈ added, releasedCall effect = none) :
    (added ++ history).filterMap releasedCall = history.filterMap releasedCall := by
  rw [List.filterMap_append, List.filterMap_eq_nil_iff.mpr h, List.nil_append]

theorem pool_sameCalls {g g' : Gate} (h : SameCalls g g') : pool g' = pool g := by
  obtain ⟨added, hadded, hdrain⟩ := h.history
  have hnone : ∀ effect ∈ added, releasedCall effect = none := by
    intro effect heffect
    have hd := hdrain effect heffect
    cases effect <;> first | rfl | cases hd
  unfold pool
  rw [h.calls, h.total, h.active, h.services, hadded, filterMap_releasedCall hnone]

theorem pool_mark {g : Gate} {id : ℕ} {call call' : Call} (hget : g.calls[id]? = some call)
    (hsame : holder call' = holder call) : pool (g.setCall id call') = pool g := by
  have hcalls : (g.calls.set id call').map holder = g.calls.map holder := by
    apply List.ext_getElem?
    intro i
    rw [List.getElem?_map, List.getElem?_map, List.getElem?_set]
    split_ifs with hi hlen
    · rw [← hi, hget, Option.map_some, Option.map_some, hsame]
    · rw [← hi, List.getElem?_eq_none (by omega)]
    · rfl
  simp only [pool, Gate.setCall, hcalls]

theorem pool_release (c : Settings) (g : Gate) (id : ℕ) :
    pool (release g id) = Pool.free (rules c) (pool g) id := by
  have hholder : (pool g).holders[id]? = g.calls[id]?.map holder := List.getElem?_map ..
  obtain ⟨hsame, hreleased⟩ | ⟨call, hget, hopen, hwaiters⟩ := release_cases g id
  · rw [hsame, Pool.free, hholder]
    cases hget : g.calls[id]? with
    | none => rfl
    | some call => exact (if_pos (hreleased call hget)).symm
  · rw [pool_sameCalls hwaiters.sameCalls, Pool.free, hholder, hget]
    simp only [Option.map_some, holder, hopen, Bool.false_eq_true, if_false, pool, uncount,
      List.map_set, List.filterMap_cons, releasedCall, Pool.Rules.partOf, rules]
    cases call.budget <;> rfl

/-- The gate's pool moves by events of the pool. -/
def Moves (c : Settings) (g g' : Gate) : Prop :=
  ∃ events, pool g' = (Pool.machine (rules c)).runFrom (pool g) events

theorem moves_callRun {c : Settings} {g g' : Gate} (h : CallRun g g') : Moves c g g' := by
  induction h with
  | refl g => exact ⟨[], rfl⟩
  | @mark g g' id call call' hget hmarks _ ih =>
      have hsame : holder call' = holder call := by
        rw [holder, hmarks.environment, hmarks.budget, hmarks.released, holder]
      rwa [Moves, pool_mark hget hsame] at ih
  | @note g g' effect hanswer _ ih =>
      have hnone : releasedCall effect = none := by
        cases effect <;> first | rfl | cases hanswer
      have hnote : pool (g.note effect) = pool g := by
        simp only [pool, Gate.note, List.filterMap_cons, hnone]
      rwa [Moves, hnote] at ih
  | @release g g' id _ ih =>
      obtain ⟨events, hevents⟩ := ih
      rw [pool_release c] at hevents
      exact ⟨.free id :: events, hevents⟩
  | @close g g' id call phase hget hclosed _ ih =>
      obtain ⟨events, hevents⟩ := ih
      rw [pool_release c, pool_mark hget (by rfl)] at hevents
      exact ⟨.free id :: events, hevents⟩

theorem pool_admitCall (c : Settings) (g : Gate) (environment : String) (budget : Option Budget)
    (hroom : g.total < c.maximum) (hservice : serviceFull g environment budget = false) :
    pool (admitCall c g environment budget) =
      Pool.take (rules c) (pool g) (environment, budget) := by
  have hadmits : (pool g).admits (rules c) (environment, budget) := by
    refine ⟨hroom, ?_⟩
    intro k hk
    cases budget with
    | none => cases hk
    | some budget =>
        obtain rfl : (environment, budget.service) = k := by simpa [Pool.Rules.partOf, rules] using hk
        have hlt : g.inFlight environment budget.service < budget.maximum := by
          simpa [serviceFull] using hservice
        exact hlt
  rw [Pool.take, if_pos hadmits]
  simp only [pool, admitCall, List.map_append, List.map_cons, List.map_nil, holder,
    List.filterMap_cons, releasedCall, Pool.Rules.partOf, rules]
  cases budget <;> rfl

theorem moves_arrives {c : Config} {g g' : Gate} {environment : String} {aborted : Bool}
    {budget : Option Budget} {now : ℤ}
    (h : Arrives c.toSettings g environment aborted budget now g') : Moves c.toSettings g g' := by
  cases h with
  | early hearly => exact ⟨[], rfl⟩
  | refused hearly hseen hfull => exact ⟨[], rfl⟩
  | within hearly hservice hshare hroom =>
      exact ⟨[.take (environment, budget)], pool_admitCall _ _ _ _ hroom hservice⟩
  | borrowed hearly hservice hborrow hshare hroom =>
      refine ⟨[.take (environment, budget)], pool_admitCall _ _ _ _ ?_ hservice⟩
      have hreserve : headroom c.toSettings ≤ reserve c.toSettings (ask g environment now)
          environment now := le_max_left _ _
      have hheadroom := headroom_nonneg c
      show g.total < c.maximum
      omega

theorem moves_step (c : Config) (g : Gate) (e : Event) :
    Moves c.toSettings g (step c.toSettings g e) := by
  cases step_outcome c.toSettings g e with
  | arrive harrives => exact moves_arrives harrives
  | call hrun => exact moves_callRun hrun
  | lease hsame => exact ⟨[], pool_sameCalls hsame⟩
  | useShares => exact ⟨[], rfl⟩
  | pressure => exact ⟨[], rfl⟩

/-- The gate refines the pool: every reachable gate is a sound pool. -/
theorem sound_pool (c : Config) (events : List Event) :
    Pool.Sound (rules c.toSettings) (pool ((machine c).run events)) := by
  obtain ⟨abstract, habstract⟩ := (machine c).run_refines (N := Pool.machine (rules c.toSettings))
    (I := fun _ => True) pool trivial (fun _ _ _ => trivial) rfl
    (fun g e _ => moves_step c g e) events
  rw [habstract]
  exact Pool.sound_run (maximum_pos c).le abstract

/-! ## Progress of one call -/

/-- A call later in a run. -/
structure Later (call call' : Call) : Prop where
  stage : stage call.phase ≤ stage call'.phase
  released : call.released → call'.released
  answered : (closed call.phase → call.released) → closed call'.phase → call'.released

theorem Later.refl (call : Call) : Later call call := ⟨le_refl _, id, id⟩

theorem Later.trans {call₁ call₂ call₃ : Call} (h : Later call₁ call₂) (h' : Later call₂ call₃) :
    Later call₁ call₃ :=
  ⟨h.stage.trans h'.stage, fun hr => h'.released (h.released hr),
    fun ha => h'.answered (h.answered ha)⟩

theorem release_getElem? (g : Gate) (id i : ℕ) : (release g id).calls[i]? =
      g.calls[i]?.map fun call => if i = id then { call with released := true } else call := by
  obtain ⟨hsame, hreleased⟩ | ⟨call, hget, hopen, hwaiters⟩ := release_cases g id
  · rw [hsame]
    cases hget : g.calls[i]? with
    | none => rfl
    | some call =>
        rw [Option.map_some]
        split_ifs with hi
        · have hr := hreleased call (hi ▸ hget)
          cases call
          simp_all
        · rfl
  · rw [hwaiters.calls, uncount, List.getElem?_set]
    obtain ⟨hlt, _⟩ := List.getElem?_eq_some_iff.mp hget
    by_cases hi : id = i
    · subst hi
      rw [if_pos rfl, if_pos hlt, hget, Option.map_some, if_pos rfl]
    · simp [hi, Ne.symm hi]

theorem setCall_self {g : Gate} {id : ℕ} {call : Call} (hget : g.calls[id]? = some call)
    (call' : Call) : (g.setCall id call').calls[id]? = some call' := by
  obtain ⟨hlt, _⟩ := List.getElem?_eq_some_iff.mp hget
  rw [Gate.setCall, List.getElem?_set_self hlt]

/-- Every call of `g` is still there in `g'`, later in its life, and a new call
that is closed is released. -/
structure Ages (g g' : Gate) : Prop where
  kept : ∀ (id : ℕ) (call : Call), g.calls[id]? = some call →
    ∃ call', g'.calls[id]? = some call' ∧ Later call call'
  fresh : ∀ (id : ℕ) (call : Call), g.calls[id]? = none → g'.calls[id]? = some call →
    closed call.phase → call.released

theorem Ages.of_calls {g g' : Gate} (h : g'.calls = g.calls) : Ages g g' := by
  refine ⟨fun _ call hget => ⟨call, h ▸ hget, .refl call⟩, ?_⟩
  intro id call hnone hget
  rw [h, hnone] at hget
  cases hget

theorem Ages.trans {g₁ g₂ g₃ : Gate} (h : Ages g₁ g₂) (h' : Ages g₂ g₃) : Ages g₁ g₃ := by
  constructor
  · intro id call hget
    obtain ⟨call', hget', hlater⟩ := h.kept id call hget
    obtain ⟨call'', hget'', hlater'⟩ := h'.kept id call' hget'
    exact ⟨call'', hget'', hlater.trans hlater'⟩
  · intro id call hnone hget
    cases hmiddle : g₂.calls[id]? with
    | none => exact h'.fresh id call hmiddle hget
    | some call' =>
        obtain ⟨call'', hget'', hlater⟩ := h'.kept id call' hmiddle
        obtain rfl : call = call'' := Option.some.inj (hget.symm.trans hget'')
        exact hlater.answered (h.fresh id call' hnone hmiddle)

/-- Changes that create no call. -/
theorem Ages.of_length {g g' : Gate} (hlength : g'.calls.length = g.calls.length)
    (kept : ∀ (id : ℕ) (call : Call), g.calls[id]? = some call →
      ∃ call', g'.calls[id]? = some call' ∧ Later call call') : Ages g g' := by
  refine ⟨kept, ?_⟩
  intro id call hnone hget
  obtain ⟨hlt, _⟩ := List.getElem?_eq_some_iff.mp hget
  have hge := List.getElem?_eq_none_iff.mp hnone
  omega

theorem release_ages (g : Gate) (id : ℕ) : Ages g (release g id) := by
  refine .of_length (CallFrame.release g id).length ?_
  intro i call hget
  rw [release_getElem?, hget, Option.map_some]
  refine ⟨_, rfl, ?_⟩
  split_ifs
  · exact ⟨le_refl _, fun _ => rfl, fun _ _ => rfl⟩
  · exact .refl call

theorem mark_ages {g : Gate} {id : ℕ} {call call' : Call} (hget : g.calls[id]? = some call)
    (hmarks : Marks call call') : Ages g (g.setCall id call') := by
  refine .of_length (List.length_set ..) ?_
  intro i other hother
  by_cases hi : id = i
  · subst hi
    rw [hget, Option.some.injEq] at hother
    subst hother
    refine ⟨call', setCall_self hget call', hmarks.stage, ?_, ?_⟩
    · rw [hmarks.released]
      exact fun h => h
    · rw [hmarks.released, hmarks.closed]
      exact fun h => h
  · exact ⟨other, by rw [Gate.setCall, List.getElem?_set_ne hi, hother], .refl other⟩

theorem stage_le_two (phase : Phase) : stage phase ≤ 2 := by
  unfold stage
  split <;> omega

theorem stage_of_closed {phase : Phase} (h : closed phase) : stage phase = 2 := by
  cases phase <;> first | rfl | cases h

/-- Closing a call releases it in the same step. -/
theorem close_ages {g : Gate} {id : ℕ} {call : Call} {phase : Phase}
    (hget : g.calls[id]? = some call) (hclosed : closed phase) :
    Ages g (release (g.setCall id { call with phase := phase }) id) := by
  refine .of_length ((CallFrame.release _ id).length.trans (List.length_set ..)) ?_
  intro i other hother
  rw [release_getElem?]
  by_cases hi : id = i
  · subst hi
    rw [hget, Option.some.injEq] at hother
    subst hother
    rw [setCall_self hget, Option.map_some, if_pos rfl]
    refine ⟨_, rfl, ?_, ?_, ?_⟩
    · rw [stage_of_closed hclosed]
      exact stage_le_two _
    · exact fun _ => rfl
    · exact fun _ _ => rfl
  · refine ⟨other, ?_, .refl other⟩
    rw [Gate.setCall, List.getElem?_set_ne hi, hother, Option.map_some, if_neg (Ne.symm hi)]

theorem callRun_ages {g g' : Gate} (h : CallRun g g') : Ages g g' := by
  induction h with
  | refl g => exact .of_calls rfl
  | mark hget hmarks _ ih => exact (mark_ages hget hmarks).trans ih
  | @note g g' effect _ _ ih =>
      have hnote : Ages g (g.note effect) := .of_calls rfl
      exact hnote.trans ih
  | @release g g' id _ ih => exact (release_ages g id).trans ih
  | close hget hclosed _ ih => exact (close_ages hget hclosed).trans ih

theorem admitCall_ages (c : Settings) (g : Gate) (environment : String) (budget : Option Budget) :
    Ages g (admitCall c g environment budget) := by
  constructor
  · intro id call hget
    obtain ⟨hlt, _⟩ := List.getElem?_eq_some_iff.mp hget
    exact ⟨call, (List.getElem?_append_left hlt).trans hget, .refl call⟩
  · intro id call hnone hget hclosed
    have hge := List.getElem?_eq_none_iff.mp hnone
    replace hget := (List.getElem?_append_right hge).symm.trans hget
    cases hindex : id - g.calls.length with
    | zero =>
        rw [hindex, List.getElem?_cons_zero, Option.some.injEq] at hget
        rw [← hget] at hclosed
        cases hclosed
    | succ n =>
        rw [hindex] at hget
        cases hget

theorem arrives_ages {c : Settings} {g g' : Gate} {environment : String} {aborted : Bool}
    {budget : Option Budget} {now : ℤ} (h : Arrives c g environment aborted budget now g') :
    Ages g g' := by
  cases h with
  | early => exact .of_calls rfl
  | refused => exact .of_calls rfl
  | within =>
      have hask : Ages g (ask g environment now) := .of_calls rfl
      exact hask.trans (admitCall_ages _ _ _ _)
  | borrowed =>
      have hask : Ages g { ask g environment now with
        seen := stillSeen c (ask g environment now) now } := .of_calls rfl
      exact hask.trans (admitCall_ages _ _ _ _)

theorem step_ages (c : Settings) (g : Gate) (e : Event) : Ages g (step c g e) := by
  cases step_outcome c g e with
  | arrive harrives => exact arrives_ages harrives
  | call hrun => exact callRun_ages hrun
  | lease hsame => exact .of_calls hsame.calls
  | useShares => exact .of_calls rfl
  | pressure => exact .of_calls rfl

/-- In every reachable state a closed call has been released. -/
theorem answered_run (c : Config) (events : List Event) (id : ℕ) (call : Call)
    (hget : ((machine c).run events).calls[id]? = some call) (hclosed : closed call.phase) :
    call.released := by
  have hinvariant : ∀ (id : ℕ) (call : Call), ((machine c).run events).calls[id]? = some call →
      closed call.phase → call.released := by
    apply (machine c).run_invariant (I := fun g => ∀ (id : ℕ) (call : Call),
      g.calls[id]? = some call → closed call.phase → call.released)
    · intro id call hget
      cases hget
    · intro g e hg id call hget
      have hages := step_ages c.toSettings g e
      cases hold : g.calls[id]? with
      | none => exact hages.fresh id call hold hget
      | some old =>
          obtain ⟨call', hget', hlater⟩ := hages.kept id old hold
          obtain rfl : call = call' := Option.some.inj (hget.symm.trans hget')
          exact hlater.answered (hg id old hold)
  exact hinvariant id call hget hclosed

/-! ## Admissions -/

def admittedCall : Effect → Option ℕ
  | .admitted call _ _ => some call
  | _ => none

/-- The history admits the calls of the gate, each once and in order. -/
def Listed (g : Gate) : Prop :=
  g.history.filterMap admittedCall = (List.range g.calls.length).reverse

theorem listed_append {g g' : Gate} (h : Listed g) (hlength : g'.calls.length = g.calls.length)
    {added : List Effect} (hhistory : g'.history = added ++ g.history)
    (hadded : ∀ effect ∈ added, admittedCall effect = none) : Listed g' := by
  rw [Listed, hhistory, List.filterMap_append, List.filterMap_eq_nil_iff.mpr hadded,
    List.nil_append, hlength]
  exact h

theorem listed_cons {g g' : Gate} (h : Listed g) (hlength : g'.calls.length = g.calls.length)
    {effect : Effect} (hhistory : g'.history = effect :: g.history)
    (heffect : admittedCall effect = none) : Listed g' := by
  rw [Listed, hhistory, List.filterMap_cons_none heffect, hlength]
  exact h

theorem listed_sameCalls {g g' : Gate} (hlisted : Listed g) (h : SameCalls g g') : Listed g' := by
  obtain ⟨added, hadded, hdrain⟩ := h.history
  refine listed_append hlisted (by rw [h.calls]) hadded ?_
  intro effect heffect
  have hd := hdrain effect heffect
  cases effect <;> first | rfl | cases hd

theorem listed_callRun {g g' : Gate} (hlisted : Listed g) (h : CallRun g g') : Listed g' := by
  obtain ⟨added, hadded, hcall⟩ := h.frame.history
  refine listed_append hlisted h.frame.length hadded ?_
  intro effect heffect
  have hc := hcall effect heffect
  cases effect <;> first | rfl | cases hc

theorem listed_admitCall {g : Gate} (h : Listed g) (c : Settings) (environment : String)
    (budget : Option Budget) : Listed (admitCall c g environment budget) := by
  simp only [Listed, admitCall, List.length_append, List.length_singleton, List.range_succ,
    List.reverse_append, List.filterMap_cons, admittedCall]
  rw [h]
  rfl

theorem listed_arrives {c : Settings} {g g' : Gate} {environment : String} {aborted : Bool}
    {budget : Option Budget} {now : ℤ} (hlisted : Listed g)
    (h : Arrives c g environment aborted budget now g') : Listed g' := by
  have hask : Listed (ask g environment now) := listed_cons hlisted rfl rfl rfl
  cases h with
  | early => exact listed_cons hlisted rfl rfl rfl
  | refused => exact listed_cons hask rfl rfl rfl
  | within => exact listed_admitCall hask c environment budget
  | borrowed =>
      have hkept : Listed { ask g environment now with
        seen := stillSeen c (ask g environment now) now } := hask
      exact listed_admitCall hkept c environment budget

theorem listed_run (c : Config) (events : List Event) : Listed ((machine c).run events) := by
  apply (machine c).run_invariant
  · rfl
  · intro g e h
    have houtcome := step_outcome c.toSettings g e
    change Listed (step c.toSettings g e)
    generalize step c.toSettings g e = g' at houtcome
    cases houtcome with
    | arrive harrives => exact listed_arrives h harrives
    | call hrun => exact listed_callRun h hrun
    | lease hsame => exact listed_sameCalls h hsame
    | useShares => exact h
    | pressure => exact h

theorem admitted_lt (c : Config) (events : List Event) {id : ℕ} {environment : String}
    {borrowed : Bool} (h : .admitted id environment borrowed ∈ ((machine c).run events).history) :
    id < ((machine c).run events).calls.length := by
  have hmem : id ∈ ((machine c).run events).history.filterMap admittedCall :=
    List.mem_filterMap.mpr ⟨_, h, rfl⟩
  rw [listed_run c events, List.mem_reverse, List.mem_range] at hmem
  exact hmem

/-! ## Every admitted call is released -/

/-- The call `id` exists and passed the first `k` of: its race is decided, it is
answered, it is released. -/
def Reached (id k : ℕ) (g : Gate) : Prop :=
  ∃ call, g.calls[id]? = some call ∧ (closed call.phase → call.released) ∧
    min k 2 ≤ stage call.phase ∧ (3 ≤ k → call.released)

theorem reached_step (c : Settings) (id k : ℕ) (g : Gate) (e : Event) (h : Reached id k g) :
    Reached id k (step c g e) := by
  obtain ⟨call, hget, hanswered, hstage, hreleased⟩ := h
  obtain ⟨call', hget', hlater⟩ := (step_ages c g e).kept id call hget
  exact ⟨call', hget', hlater.answered hanswered, hstage.trans hlater.stage,
    fun hk => hlater.released (hreleased hk)⟩

theorem reached_headerDeadline (c : Settings) (id : ℕ) (g : Gate) (h : Reached id 0 g) :
    Reached id 1 (step c g (.headerDeadline id)) := by
  obtain ⟨call, hget, hanswered, _⟩ := h
  obtain ⟨call', hget', hlater⟩ := (step_ages c g (.headerDeadline id)).kept id call hget
  refine ⟨call', hget', hlater.answered hanswered, ?_, by omega⟩
  cases hphase : call.phase with
  | forwarding race =>
      simp only [step, stop, hget, hphase] at hget'
      rw [setCall_self hget, Option.some.injEq] at hget'
      rw [← hget']
      cases race <;> simp [stage]
  | streaming finished draining =>
      have hstage := hlater.stage
      rw [hphase] at hstage
      exact le_trans (by simp [stage]) hstage
  | returned =>
      have hstage := hlater.stage
      rw [hphase] at hstage
      exact le_trans (by simp [stage]) hstage

/-- What runs after the phase of a call was set to an answered one leaves it
answered. -/
theorem stage_after_set {g g' : Gate} {id : ℕ} {call : Call} {phase : Phase}
    (hget : g.calls[id]? = some call) (hphase : stage phase = 2)
    (h : CallRun (g.setCall id { call with phase := phase }) g') :
    ∃ call', g'.calls[id]? = some call' ∧ 2 ≤ stage call'.phase := by
  obtain ⟨call', hget', hlater⟩ := (callRun_ages h).kept id _ (setCall_self hget _)
  exact ⟨call', hget', hphase ▸ hlater.stage⟩

theorem continueRun_stage {g : Gate} {id : ℕ} {call : Call} (hget : g.calls[id]? = some call)
    (hstage : 1 ≤ stage call.phase) :
    ∃ call', (continueRun g id).calls[id]? = some call' ∧ 2 ≤ stage call'.phase := by
  have hreturned : ∀ {g'}, CallRun (g.setCall id { call with phase := .returned }) g' →
      ∃ call', g'.calls[id]? = some call' ∧ 2 ≤ stage call'.phase :=
    stage_after_set hget rfl
  have hstreaming : ∀ {g'}, CallRun (g.setCall id { call with phase := .streaming false false }) g' →
      ∃ call', g'.calls[id]? = some call' ∧ 2 ≤ stage call'.phase :=
    stage_after_set hget rfl
  have hclient : CallRun (g.setCall id { call with phase := .streaming false false })
      (if call.aborted then
        finishBody (g.setCall id { call with phase := .streaming false false }) id
      else g.setCall id { call with phase := .streaming false false }) := by
    split
    · exact finishBody_callRun _ _
    · exact .refl _
  simp only [continueRun, hget]
  split
  · exact hreturned (.release (.note rfl (.refl _)))
  · exact hreturned (.release (.refl _))
  · exact hreturned (.release (.refl _))
  · exact hreturned (.release (.refl _))
  · exact hstreaming hclient
  · exact hstreaming (hclient.trans (.release (.refl _)))
  · rename_i hphase
    rw [hphase] at hstage
    cases hstage
  · rename_i hphase
    exact ⟨call, hget, by rw [hphase]; exact le_refl _⟩
  · rename_i hphase
    exact ⟨call, hget, by rw [hphase]; exact le_refl _⟩

theorem reached_continueRun (c : Settings) (id : ℕ) (g : Gate) (h : Reached id 1 g) :
    Reached id 2 (step c g (.continueRun id)) := by
  obtain ⟨call, hget, hanswered, hstage, _⟩ := h
  obtain ⟨call', hget', hlater⟩ := (step_ages c g (.continueRun id)).kept id call hget
  obtain ⟨call'', hget'', hstage''⟩ := continueRun_stage hget hstage
  obtain rfl : call' = call'' := Option.some.inj (hget'.symm.trans hget'')
  exact ⟨call', hget', hlater.answered hanswered, hstage'', by omega⟩

theorem reached_bodyDeadline (c : Settings) (id : ℕ) (g : Gate) (h : Reached id 2 g) :
    Reached id 3 (step c g (.bodyDeadline id)) := by
  obtain ⟨call, hget, hanswered, hstage, _⟩ := h
  obtain ⟨call', hget', hlater⟩ := (step_ages c g (.bodyDeadline id)).kept id call hget
  refine ⟨call', hget', hlater.answered hanswered, hstage.trans hlater.stage, fun _ => ?_⟩
  cases hphase : call.phase with
  | forwarding race =>
      rw [hphase] at hstage
      cases race <;> simp [stage] at hstage
  | streaming finished draining =>
      cases finished with
      | true => exact hlater.released (hanswered (by rw [hphase]; rfl))
      | false =>
          simp only [step, finishBody, hget, hphase] at hget'
          rw [release_getElem?, setCall_self hget, Option.map_some, if_pos rfl,
            Option.some.injEq] at hget'
          rw [← hget']
  | returned => exact hlater.released (hanswered (by rw [hphase]; rfl))

/-- In any interleaving that fires the two timers of an admitted call around its
continuation, the call ends up released. -/
theorem released_of_timers (c : Config) (events later : List Event) (id : ℕ)
    (hid : id < ((machine c).run events).calls.length)
    (hlater : List.Sublist [.headerDeadline id, .continueRun id, .bodyDeadline id] later) :
    ∃ call, ((machine c).run (events ++ later)).calls[id]? = some call ∧ call.released := by
  have hstart : Reached id 0 ((machine c).run events) := by
    refine ⟨_, List.getElem?_eq_getElem hid, ?_, Nat.zero_le _, by omega⟩
    exact answered_run c events id _ (List.getElem?_eq_getElem hid)
  have hend := (machine c).runFrom_stage (P := Reached id)
    (fun k g e => reached_step c.toSettings id k g e)
    [.headerDeadline id, .continueRun id, .bodyDeadline id] 0 _ later ?_ hlater hstart
  · rw [(machine c).run_append]
    obtain ⟨call, hget, _, _, hreleased⟩ := hend
    exact ⟨call, hget, hreleased (by simp)⟩
  · intro i hi g hg
    rcases i with _ | _ | _ | i
    · exact reached_headerDeadline c.toSettings id g hg
    · exact reached_continueRun c.toSettings id g hg
    · exact reached_bodyDeadline c.toSettings id g hg
    · simp only [List.length_cons, List.length_nil] at hi
      omega

/-! ## The law of slots -/

/-- What holds of the counters in one state of a gate. -/
structure SlotLaw (c : Settings) (g : Gate) : Prop where
  total_sum : g.total = g.active.sum
  total_open : g.total = g.calls.countP fun call => !call.released
  total_le : g.total ≤ c.maximum
  active_pos : ∀ environment n, g.active.get environment = some n → 1 ≤ n
  services_pos : ∀ key n, g.services.get key = some n → 1 ≤ n
  service_le : ∀ environment service n, g.services.get (environment, service) = some n →
    n ≤ g.activeOf environment
  services_le : ∀ environment,
    (g.services.filter fun key _ => key.1 = environment).sum ≤ g.activeOf environment
  /-- A service that was only admitted with the maximum `m` holds at most `m` calls. -/
  budget_le : ∀ environment service m,
    (∀ call ∈ g.calls, call.environment = environment →
      ∀ budget, call.budget = some budget → budget.service = service → budget.maximum = m) →
    ∀ n, g.services.get (environment, service) = some n → n ≤ m
  released_le : ∀ id, g.history.count (.released id) ≤ 1
  /-- A call whose answer is over has been released. -/
  answered : ∀ (id : ℕ) (call : Call), g.calls[id]? = some call → closed call.phase →
    g.history.count (.released id) = 1

theorem count_released (g : Gate) (id : ℕ) :
    g.history.count (.released id) = (pool g).freed.count id := by
  simp only [pool, List.count, List.countP_filterMap]
  apply List.countP_congr
  intro effect _
  cases effect <;> simp [releasedCall]

theorem count_of_released {c : Settings} {g : Gate} (h : Pool.Sound (rules c) (pool g)) {id : ℕ}
    {call : Call} (hget : g.calls[id]? = some call) (hreleased : call.released) :
    g.history.count (.released id) = 1 := by
  have hholder : (pool g).holders[id]? = some (holder call) := by
    rw [pool, List.getElem?_map, hget, Option.map_some]
  rw [count_released, h.freed id, Pool.State.timesFreed, hholder]
  simp [holder, hreleased]

theorem slotLaw (c : Config) (events : List Event) :
    SlotLaw c.toSettings ((machine c).run events) := by
  have h := sound_pool c events
  refine ⟨h.groups_sum.symm, ?_, h.total_le, fun _ _ => h.groups.one_le,
    fun _ _ => h.parts.one_le, fun environment service n => h.part_le_group environment service n,
    fun environment => h.parts_sum_le environment, ?_, ?_, ?_⟩
  · have htotal := h.total
    simp only [pool, List.countP_map] at htotal
    exact htotal
  · intro environment service m hall n hn
    apply h.part_le (environment, service) m ?_ n hn
    intro holder hholder hpart
    obtain ⟨call, hcall, rfl⟩ := List.mem_map.mp hholder
    cases hbudget : call.budget with
    | none => simp [Slots.holder, hbudget, Pool.Rules.partOf, rules] at hpart
    | some budget =>
        simp [Slots.holder, hbudget, Pool.Rules.partOf, rules] at hpart
        have hm := hall call hcall hpart.1 budget hbudget hpart.2
        simp [Slots.holder, hbudget, rules, hm]
  · intro id
    rw [count_released]
    exact h.freed_le_one id
  · intro id call hget hclosed
    exact count_of_released h hget (answered_run c events id call hget hclosed)

end Sbarbase.Gateway.Proofs.Slots
