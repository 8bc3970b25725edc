import Sbarbase.Gateway.Concurrency
/-!
# What the events of the gate do

One inversion lemma for each group of events. The invariants of the gate are
proved from these and never unfold an event.
-/

namespace Sbarbase.Gateway.Proofs.Steps

open Lib Gateway.Concurrency

/-! ## Drain signals -/

/-- Only waiters were settled. -/
structure OnlyWaiters (g g' : Gate) : Prop where
  total : g'.total = g.total
  paused : g'.paused = g.paused
  services : g'.services = g.services
  active : g'.active = g.active
  seen : g'.seen = g.seen
  shareOf : g'.shareOf = g.shareOf
  calls : g'.calls = g.calls
  leases : g'.leases = g.leases
  history : ∃ settled : List (ℕ × Bool),
    g'.history = settled.map (fun s => .settled s.1 s.2) ++ g.history

namespace OnlyWaiters

theorem refl (g : Gate) : OnlyWaiters g g :=
  ⟨rfl, rfl, rfl, rfl, rfl, rfl, rfl, rfl, [], rfl⟩

theorem trans {g₁ g₂ g₃ : Gate} (h : OnlyWaiters g₁ g₂) (h' : OnlyWaiters g₂ g₃) :
    OnlyWaiters g₁ g₃ := by
  obtain ⟨settled, hsettled⟩ := h.history
  obtain ⟨settled', hsettled'⟩ := h'.history
  refine ⟨h'.total.trans h.total, h'.paused.trans h.paused, h'.services.trans h.services,
    h'.active.trans h.active, h'.seen.trans h.seen, h'.shareOf.trans h.shareOf,
    h'.calls.trans h.calls, h'.leases.trans h.leases, settled' ++ settled, ?_⟩
  rw [hsettled', hsettled, List.map_append, List.append_assoc]

end OnlyWaiters

theorem finishWaiter_onlyWaiters (g : Gate) (id : ℕ) (drained : Bool) :
    OnlyWaiters g (finishWaiter g id drained) := by
  unfold finishWaiter
  split
  · exact .refl g
  · exact ⟨rfl, rfl, rfl, rfl, rfl, rfl, rfl, rfl, [(id, drained)], rfl⟩

theorem doneWaiter_onlyWaiters (g : Gate) (id : ℕ) : OnlyWaiters g (doneWaiter g id) := by
  unfold doneWaiter
  split
  · exact .refl g
  · exact finishWaiter_onlyWaiters _ _ _

theorem doneWaiters_onlyWaiters (ids : List ℕ) (g : Gate) :
    OnlyWaiters g (ids.foldl doneWaiter g) := by
  induction ids generalizing g with
  | nil => exact .refl g
  | cons id ids ih => exact (doneWaiter_onlyWaiters g id).trans (ih (doneWaiter g id))

theorem notifyDrain_onlyWaiters (g : Gate) (environment : String) :
    OnlyWaiters g (notifyDrain g environment) := by
  unfold notifyDrain
  split
  · exact .refl g
  · exact doneWaiters_onlyWaiters _ g

/-! ## Releases -/

theorem release_cases (g : Gate) (id : ℕ) :
    (release g id = g ∧ ∀ call, g.calls[id]? = some call → call.released = true) ∨
      ∃ call, g.calls[id]? = some call ∧ call.released = false ∧
        OnlyWaiters (uncount g id call) (release g id) := by
  unfold release
  split
  · rename_i hnone
    exact .inl ⟨rfl, fun call h => by rw [hnone] at h; cases h⟩
  · rename_i call hget
    by_cases hreleased : call.released = true
    · rw [if_pos hreleased]
      refine .inl ⟨rfl, fun call' h => ?_⟩
      rw [hget, Option.some.injEq] at h
      rw [← h, hreleased]
    · rw [if_neg hreleased]
      refine .inr ⟨call, hget, by simpa using hreleased, ?_⟩
      dsimp only
      split_ifs
      · exact notifyDrain_onlyWaiters _ _
      · exact .refl _

/-! ## Arrivals -/

/-- What `run` does with an arriving request. -/
inductive Arrives (c : Settings) (g : Gate) (environment : String) (aborted : Bool)
    (budget : Option Budget) (now : ℤ) : Gate → Prop
  | early {refusal : Refusal}
      (hearly : refusedEarly g environment aborted budget = some refusal) :
      Arrives c g environment aborted budget now (g.note (.refused environment refusal))
  | refused {refusal : Refusal} {seen refused squeezed : Dict String ℤ}
      (hearly : refusedEarly g environment aborted budget = none)
      (hseen : seen = (ask g environment now).seen ∨
        seen = stillSeen c (ask g environment now) now)
      (hfull : refusal.status = 503 → serviceFull g environment budget = false ∧
        g.activeOf environment < guarantee c g.shareOf environment ∧ c.maximum ≤ g.total) :
      Arrives c g environment aborted budget now
        ({ ask g environment now with
          seen := seen, refused := refused, squeezed := squeezed }.note
            (.refused environment refusal))
  | within (hearly : refusedEarly g environment aborted budget = none)
      (hservice : serviceFull g environment budget = false)
      (hshare : g.activeOf environment < guarantee c g.shareOf environment)
      (hroom : g.total < c.maximum) :
      Arrives c g environment aborted budget now (admitCall c (ask g environment now) environment budget)
  | borrowed {policy : BorrowPolicy}
      (hearly : refusedEarly g environment aborted budget = none)
      (hservice : serviceFull g environment budget = false)
      (hborrow : c.borrow = some policy)
      (hshare : guarantee c g.shareOf environment ≤ g.activeOf environment)
      (hroom : reserve c (ask g environment now) environment now < c.maximum - g.total) :
      Arrives c g environment aborted budget now
        (admitCall c
          { ask g environment now with seen := stillSeen c (ask g environment now) now }
          environment budget)

theorem run_arrives (c : Settings) (g : Gate) (environment : String) (aborted : Bool)
    (budget : Option Budget) (now : ℤ) :
    Arrives c g environment aborted budget now (run c g environment aborted budget now) := by
  unfold run
  cases hearly : refusedEarly g environment aborted budget with
  | some refusal => exact .early hearly
  | none =>
      cases hservice : serviceFull g environment budget with
      | true => exact .refused hearly (.inl rfl) (by simp [Refusal.status])
      | false =>
          have hcount : (ask g environment now).activeOf environment = g.activeOf environment := rfl
          simp only [admission, hcount, Bool.false_eq_true, if_false]
          by_cases hshare : g.activeOf environment < guarantee c g.shareOf environment
          · rw [if_pos (show _ < guarantee c (ask g environment now).shareOf environment from hshare)]
            by_cases hroom : c.maximum ≤ g.total
            · rw [if_pos (show (ask g environment now).total ≥ c.maximum from hroom)]
              exact .refused hearly (.inl rfl) fun _ => ⟨hservice, hshare, hroom⟩
            · rw [if_neg (show ¬ (ask g environment now).total ≥ c.maximum from hroom)]
              exact .within hearly hservice hshare (not_le.mp hroom)
          · rw [if_neg (show ¬ _ < guarantee c (ask g environment now).shareOf environment from hshare)]
            cases hborrow : c.borrow with
            | none => exact .refused hearly (.inl rfl) (by simp [Refusal.status])
            | some policy =>
                simp only
                split_ifs with hceiling hroom
                · exact .refused hearly (.inl rfl) (by simp [Refusal.status])
                · exact .borrowed hearly hservice hborrow (not_lt.mp hshare) hroom
                · exact .refused hearly (.inr rfl) (by simp [Refusal.status])

/-! ## Calls -/

/-- How far a call got: its race is open, its race is decided, it was answered. -/
def stage : Phase → ℕ
  | .forwarding none => 0
  | .forwarding (some _) => 1
  | .streaming .. | .returned => 2

/-- Nothing of the call is left to happen. -/
def closed : Phase → Bool
  | .streaming finished _ => finished
  | .returned => true
  | .forwarding _ => false

/-- A call is marked without being closed or released. -/
structure Marks (call call' : Call) : Prop where
  environment : call'.environment = call.environment
  budget : call'.budget = call.budget
  released : call'.released = call.released
  closed : closed call'.phase = closed call.phase
  stage : stage call.phase ≤ stage call'.phase

/-- Effects that say something about an answer only. -/
def isAnswer : Effect → Bool
  | .interrupted .. | .lateBodyCancelled _ => true
  | _ => false

/-- What the callbacks of admitted calls are made of. Closing a call is one
step with its release. -/
inductive CallRun : Gate → Gate → Prop
  | refl (g : Gate) : CallRun g g
  | mark {g g' : Gate} {id : ℕ} {call call' : Call} (hget : g.calls[id]? = some call)
      (hmarks : Marks call call') (rest : CallRun (g.setCall id call') g') : CallRun g g'
  | note {g g' : Gate} {effect : Effect} (hanswer : isAnswer effect)
      (rest : CallRun (g.note effect) g') : CallRun g g'
  | release {g g' : Gate} {id : ℕ} (rest : CallRun (release g id) g') : CallRun g g'
  | close {g g' : Gate} {id : ℕ} {call : Call} {phase : Phase} (hget : g.calls[id]? = some call)
      (hclosed : closed phase)
      (rest : CallRun (Concurrency.release (g.setCall id { call with phase := phase }) id) g') :
      CallRun g g'

namespace CallRun

theorem trans {g₁ g₂ g₃ : Gate} (h : CallRun g₁ g₂) (h' : CallRun g₂ g₃) : CallRun g₁ g₃ := by
  induction h with
  | refl g => exact h'
  | mark hget hmarks _ ih => exact .mark hget hmarks (ih h')
  | note hanswer _ ih => exact .note hanswer (ih h')
  | release _ ih => exact .release (ih h')
  | close hget hclosed _ ih => exact .close hget hclosed (ih h')

theorem of_mark {g : Gate} {id : ℕ} {call call' : Call} (hget : g.calls[id]? = some call)
    (hmarks : Marks call call') : CallRun g (g.setCall id call') :=
  .mark hget hmarks (.refl _)

end CallRun

/-- Effects of the events of admitted calls. -/
def isCall : Effect → Bool
  | .released _ | .interrupted .. | .lateBodyCancelled _ | .settled .. => true
  | .asked .. | .refused .. | .admitted .. | .leased .. | .waiting _ | .resumed _
  | .threw _ => false

/-- What the events of admitted calls leave alone. -/
structure CallFrame (g g' : Gate) : Prop where
  paused : g'.paused = g.paused
  seen : g'.seen = g.seen
  shareOf : g'.shareOf = g.shareOf
  leases : g'.leases = g.leases
  length : g'.calls.length = g.calls.length
  history : ∃ added, g'.history = added ++ g.history ∧ ∀ effect ∈ added, isCall effect

namespace CallFrame

theorem refl (g : Gate) : CallFrame g g :=
  ⟨rfl, rfl, rfl, rfl, rfl, [], rfl, by simp⟩

theorem trans {g₁ g₂ g₃ : Gate} (h : CallFrame g₁ g₂) (h' : CallFrame g₂ g₃) : CallFrame g₁ g₃ := by
  obtain ⟨added, hadded, hcall⟩ := h.history
  obtain ⟨added', hadded', hcall'⟩ := h'.history
  refine ⟨h'.paused.trans h.paused, h'.seen.trans h.seen, h'.shareOf.trans h.shareOf,
    h'.leases.trans h.leases, h'.length.trans h.length, added' ++ added, ?_, ?_⟩
  · rw [hadded', hadded, List.append_assoc]
  · intro effect heffect
    exact (List.mem_append.mp heffect).elim (hcall' effect) (hcall effect)

theorem setCall (g : Gate) (id : ℕ) (call : Call) : CallFrame g (g.setCall id call) :=
  ⟨rfl, rfl, rfl, rfl, List.length_set .., [], rfl, by simp⟩

theorem release (g : Gate) (id : ℕ) : CallFrame g (release g id) := by
  obtain ⟨hsame, _⟩ | ⟨call, _, _, hwaiters⟩ := release_cases g id
  · rw [hsame]
    exact .refl g
  · obtain ⟨settled, hsettled⟩ := hwaiters.history
    refine ⟨hwaiters.paused, hwaiters.seen, hwaiters.shareOf, hwaiters.leases, ?_,
      settled.map (fun s => .settled s.1 s.2) ++ [.released id], ?_, ?_⟩
    · rw [hwaiters.calls, uncount, List.length_set]
    · rw [hsettled, List.append_assoc]
      rfl
    · intro effect heffect
      obtain hmem | hmem := List.mem_append.mp heffect
      · obtain ⟨s, _, rfl⟩ := List.mem_map.mp hmem
        rfl
      · rw [List.mem_singleton.mp hmem]
        rfl

end CallFrame

theorem CallRun.frame {g g' : Gate} (h : CallRun g g') : CallFrame g g' := by
  induction h with
  | refl g => exact .refl g
  | @mark g g' id call call' _ _ _ ih => exact (CallFrame.setCall g id call').trans ih
  | @note g g' effect hanswer _ ih =>
      have hcall : isCall effect := by
        cases effect <;> first | rfl | cases hanswer
      have hnote : CallFrame g (g.note effect) :=
        ⟨rfl, rfl, rfl, rfl, rfl, [effect], rfl, by simpa using hcall⟩
      exact hnote.trans ih
  | @release g g' id _ ih => exact (CallFrame.release g id).trans ih
  | @close g g' id call phase _ _ _ ih =>
      exact ((CallFrame.setCall g id _).trans (CallFrame.release _ id)).trans ih

/-- Calls that run on make no counter. -/
theorem CallRun.idle {g g' : Gate} (h : CallRun g g') {environment : String}
    (hidle : g.active.get environment = none) : g'.active.get environment = none := by
  have hrelease : ∀ (g : Gate) (id : ℕ), g.active.get environment = none →
      (Concurrency.release g id).active.get environment = none := by
    intro g id hg
    obtain ⟨hsame, _⟩ | ⟨call, _, _, hwaiters⟩ := release_cases g id
    · rwa [hsame]
    · rw [hwaiters.active]
      exact Dict.get_lower_none hg call.environment
  induction h with
  | refl g => exact hidle
  | mark _ _ _ ih => exact ih hidle
  | note _ _ ih => exact ih hidle
  | release _ ih => exact ih (hrelease _ _ hidle)
  | close _ _ _ ih => exact ih (hrelease _ _ hidle)

theorem stop_callRun (g : Gate) (id : ℕ) (i : Interruption) : CallRun g (stop g id i) := by
  unfold stop
  split
  · exact .refl g
  · rename_i call hget
    split
    · rename_i race hphase
      apply CallRun.of_mark hget
      refine ⟨rfl, rfl, rfl, ?_, ?_⟩
      · rw [hphase]; rfl
      · rw [hphase]; cases race <;> simp [stage]
    all_goals exact .refl g

theorem finishBody_callRun (g : Gate) (id : ℕ) : CallRun g (finishBody g id) := by
  unfold finishBody
  split
  · exact .refl g
  · rename_i call hget
    split
    · exact .close hget rfl (.refl _)
    all_goals exact .refl g

theorem cancelLate_spec (g : Gate) (id : ℕ) (settled : Upstream) (abandoned : Bool) :
    CallRun g (cancelLate g id settled abandoned) ∧
      (cancelLate g id settled abandoned).calls = g.calls := by
  unfold cancelLate
  split
  · exact ⟨.note rfl (.refl _), rfl⟩
  all_goals exact ⟨.refl g, rfl⟩

theorem upstreamSettles_callRun (g : Gate) (id : ℕ) (settled : Upstream) :
    CallRun g (upstreamSettles g id settled) := by
  unfold upstreamSettles
  split
  · exact .refl g
  · rename_i call hget
    by_cases hdone : call.settled = true
    · rw [if_pos hdone]
      exact .refl g
    · rw [if_neg hdone]
      obtain ⟨hcancel, hcalls⟩ := cancelLate_spec g id settled call.abandoned
      rw [← hcalls] at hget
      refine hcancel.trans ?_
      split
      · rename_i race hphase
        apply CallRun.of_mark hget
        refine ⟨rfl, rfl, rfl, ?_, ?_⟩
        · rw [hphase]; rfl
        · rw [hphase]; cases race <;> simp [stage]
      all_goals
        apply CallRun.of_mark hget
        exact ⟨rfl, rfl, rfl, rfl, le_refl _⟩

/-- Handing the body to the client, which may be gone already. -/
theorem streaming_callRun {g : Gate} {id : ℕ} {call : Call} (hget : g.calls[id]? = some call)
    {race : Option RaceResult} (hphase : call.phase = .forwarding race) :
    CallRun g (if call.aborted then
        finishBody (g.setCall id { call with phase := .streaming false false }) id
      else g.setCall id { call with phase := .streaming false false }) := by
  have hmark : CallRun g (g.setCall id { call with phase := .streaming false false }) := by
    apply CallRun.of_mark hget
    refine ⟨rfl, rfl, rfl, ?_, ?_⟩
    · rw [hphase]; rfl
    · rw [hphase]; cases race <;> simp [stage]
  split
  · exact hmark.trans (finishBody_callRun _ _)
  · exact hmark

theorem continueRun_callRun (g : Gate) (id : ℕ) : CallRun g (continueRun g id) := by
  unfold continueRun
  split
  · exact .refl g
  · rename_i call hget
    have hclose : CallRun g (release (g.setCall id { call with phase := .returned }) id) :=
      .close hget rfl (.refl _)
    split
    · exact hclose.trans (.note rfl (.refl _))
    · exact hclose
    · exact hclose
    · exact hclose
    · exact streaming_callRun hget ‹_›
    · exact (streaming_callRun hget ‹_›).trans (.release (.refl _))
    all_goals exact .refl g

theorem clientAborts_callRun (g : Gate) (id : ℕ) : CallRun g (clientAborts g id) := by
  unfold clientAborts
  split
  · exact .refl g
  · rename_i call hget
    split
    · exact .refl g
    · refine CallRun.trans ?_ (finishBody_callRun _ _)
      refine CallRun.trans (CallRun.of_mark hget ?_) (stop_callRun _ _ _)
      exact ⟨rfl, rfl, rfl, rfl, le_refl _⟩

theorem pullSettles_callRun (g : Gate) (id : ℕ) (item : ReadItem) :
    CallRun g (pullSettles g id item) := by
  unfold pullSettles
  split
  · exact .refl g
  · split
    · exact finishBody_callRun g id
    · exact finishBody_callRun g id
    · exact .refl g

theorem drainSettles_callRun (g : Gate) (id : ℕ) (item : ReadItem) :
    CallRun g (drainSettles g id item) := by
  unfold drainSettles
  split
  · exact .refl g
  · split
    · exact finishBody_callRun g id
    · exact finishBody_callRun g id
    · exact .refl g

theorem consumerCancels_callRun (g : Gate) (id : ℕ) : CallRun g (consumerCancels g id) := by
  unfold consumerCancels
  split
  · exact .refl g
  · rename_i call hget
    split
    · rename_i finished draining hphase
      split
      · apply CallRun.of_mark hget
        refine ⟨rfl, rfl, rfl, ?_, ?_⟩
        · rw [hphase]; rfl
        · rw [hphase]; exact le_refl _
      · exact finishBody_callRun g id
    all_goals exact .refl g

/-! ## Leases and waiters -/

/-- Effects of leases and waiters. -/
def isDrain : Effect → Bool
  | .leased .. | .waiting _ | .settled .. | .resumed _ | .threw _ => true
  | _ => false

/-- No call was touched. -/
structure SameCalls (g g' : Gate) : Prop where
  total : g'.total = g.total
  services : g'.services = g.services
  active : g'.active = g.active
  seen : g'.seen = g.seen
  shareOf : g'.shareOf = g.shareOf
  calls : g'.calls = g.calls
  history : ∃ added, g'.history = added ++ g.history ∧ ∀ effect ∈ added, isDrain effect

theorem OnlyWaiters.sameCalls {g g' : Gate} (h : OnlyWaiters g g') : SameCalls g g' := by
  obtain ⟨settled, hsettled⟩ := h.history
  refine ⟨h.total, h.services, h.active, h.seen, h.shareOf, h.calls, _, hsettled, ?_⟩
  intro effect heffect
  obtain ⟨s, _, rfl⟩ := List.mem_map.mp heffect
  rfl

namespace SameCalls

theorem refl (g : Gate) : SameCalls g g := (OnlyWaiters.refl g).sameCalls

theorem note (g : Gate) {effect : Effect} (h : isDrain effect) : SameCalls g (g.note effect) :=
  ⟨rfl, rfl, rfl, rfl, rfl, rfl, [effect], rfl, by simpa using h⟩

theorem trans {g₁ g₂ g₃ : Gate} (h : SameCalls g₁ g₂) (h' : SameCalls g₂ g₃) : SameCalls g₁ g₃ := by
  obtain ⟨added, hadded, hdrain⟩ := h.history
  obtain ⟨added', hadded', hdrain'⟩ := h'.history
  refine ⟨h'.total.trans h.total, h'.services.trans h.services, h'.active.trans h.active,
    h'.seen.trans h.seen, h'.shareOf.trans h.shareOf, h'.calls.trans h.calls,
    added' ++ added, ?_, ?_⟩
  · rw [hadded', hadded, List.append_assoc]
  · intro effect heffect
    exact (List.mem_append.mp heffect).elim (hdrain' effect) (hdrain effect)

end SameCalls

theorem pause_sameCalls (g : Gate) (environment : String) : SameCalls g (pause g environment) := by
  unfold pause
  split_ifs
  · exact .note g rfl
  · exact ⟨rfl, rfl, rfl, rfl, rfl, rfl, [_], rfl, by simp [isDrain]⟩

theorem waitForDrain_sameCalls (g : Gate) (lease : ℕ) (timeoutMs : ℤ) :
    SameCalls g (waitForDrain g lease timeoutMs) := by
  unfold waitForDrain
  split
  · exact .refl g
  · split_ifs
    · exact .note g rfl
    · exact .note g rfl
    · exact ⟨rfl, rfl, rfl, rfl, rfl, rfl, [_, _], rfl, by simp [isDrain]⟩
    · split
      all_goals exact ⟨rfl, rfl, rfl, rfl, rfl, rfl, [_], rfl, by simp [isDrain]⟩

theorem drainDeadline_sameCalls (g : Gate) (waiter : ℕ) : SameCalls g (drainDeadline g waiter) := by
  unfold drainDeadline
  split
  · exact .refl g
  · split_ifs
    · exact (finishWaiter_onlyWaiters _ _ _).sameCalls
    · exact .refl g

theorem resume_sameCalls (g : Gate) (lease : ℕ) : SameCalls g (resume g lease) := by
  unfold resume
  split
  · exact .refl g
  · rename_i environment _
    split_ifs
    · exact .note g rfl
    · refine SameCalls.trans ?_ (notifyDrain_onlyWaiters _ environment).sameCalls
      exact ⟨rfl, rfl, rfl, rfl, rfl, rfl, [_], rfl, by simp [isDrain]⟩

/-! ## All events -/

/-- What an event does to the gate. -/
inductive Outcome (c : Settings) (g : Gate) : Event → Gate → Prop
  | arrive {environment : String} {aborted : Bool} {budget : Option Budget} {now : ℤ} {g' : Gate}
      (harrives : Arrives c g environment aborted budget now g') :
      Outcome c g (.arrive environment aborted budget now) g'
  | call {e : Event} {g' : Gate} (hrun : CallRun g g') : Outcome c g e g'
  | lease {e : Event} {g' : Gate} (hsame : SameCalls g g') : Outcome c g e g'
  | useShares {shareOf : Option (String → ShareAnswer)} :
      Outcome c g (.useShares shareOf) { g with shareOf := shareOf }
  | pressure : Outcome c g .pressure (pressure g)

theorem step_outcome (c : Settings) (g : Gate) (e : Event) : Outcome c g e (step c g e) := by
  cases e with
  | arrive environment aborted budget now => exact .arrive (run_arrives c g _ _ _ _)
  | useShares shareOf => exact .useShares
  | upstreamSettles call settled => exact .call (upstreamSettles_callRun g call settled)
  | headerDeadline call => exact .call (stop_callRun g call .deadline)
  | clientAborts call => exact .call (clientAborts_callRun g call)
  | continueRun call => exact .call (continueRun_callRun g call)
  | pullSettles call item => exact .call (pullSettles_callRun g call item)
  | consumerCancels call => exact .call (consumerCancels_callRun g call)
  | drainSettles call item => exact .call (drainSettles_callRun g call item)
  | bodyDeadline call => exact .call (finishBody_callRun g call)
  | pause environment => exact .lease (pause_sameCalls g environment)
  | waitForDrain lease timeoutMs => exact .lease (waitForDrain_sameCalls g lease timeoutMs)
  | drainDeadline waiter => exact .lease (drainDeadline_sameCalls g waiter)
  | resume lease => exact .lease (resume_sameCalls g lease)
  | pressure => exact .pressure

end Sbarbase.Gateway.Proofs.Steps
