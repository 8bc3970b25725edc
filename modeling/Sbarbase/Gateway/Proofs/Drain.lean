import Sbarbase.Gateway.Proofs.Slots
/-!
# Pausing and draining

A waiter belongs to the lease it was made under. The invariant `Waiting` says
that every waiter without an answer belongs to the lease that is current, and
that its set is the one the map holds; a signal settles the waiters of one set
one after another, so the invariant carries the list `todo` of those whose turn
is still to come.
-/

namespace Sbarbase.Gateway.Proofs.Drain

open Lib Gateway.Concurrency Gateway.Proofs.Steps Gateway.Proofs.Slots

/-! ## The invariant of the waiters -/

/-- The waiter `id` has no answer yet. -/
def Pending (g : Gate) (id : ℕ) (waiter : Waiter) : Prop :=
  g.waiters[id]? = some waiter ∧ waiter.result = none

structure Waiting (todo : List ℕ) (g : Gate) : Prop where
  active_pos : g.active.Positive
  paused_lease : ∀ environment lease, g.paused.get environment = some lease →
    g.leases[lease]? = some environment
  waiter_lease : ∀ (id : ℕ) (waiter : Waiter), g.waiters[id]? = some waiter →
    g.leases[waiter.lease]? = some waiter.environment
  settled : ∀ id drained, g.history.count (.settled id drained) =
    if g.waiters[id]?.any (fun waiter => waiter.result = some drained) then 1 else 0
  current : ∀ id waiter, Pending g id waiter → id ∉ todo →
    g.paused.get waiter.environment = some waiter.lease
  listed : ∀ id waiter, Pending g id waiter →
    g.drainWaiters.get waiter.environment = some waiter.set ∧
      ∃ members, g.sets[waiter.set]? = some members ∧ id ∈ members
  members : ∀ (set : ℕ) (members : List ℕ), g.sets[set]? = some members → members.Nodup ∧
    ∀ id ∈ members, ∃ waiter, Pending g id waiter ∧ waiter.set = set
  known_set : ∀ environment set, g.drainWaiters.get environment = some set → set < g.sets.length
  retired : ∀ lease, .resumed lease ∈ g.history →
    lease < g.leases.length ∧ ∀ environment, g.paused.get environment ≠ some lease

theorem Waiting.weaken {todo todo' : List ℕ} {g : Gate} (h : Waiting todo g)
    (hsub : ∀ id ∈ todo, id ∈ todo') : Waiting todo' g :=
  { h with current := fun id waiter hpending hid =>
      h.current id waiter hpending fun hmem => hid (hsub id hmem) }

theorem waiting_empty : Waiting [] Gate.empty where
  active_pos := fun _ _ h => by cases h
  paused_lease := fun _ _ h => by cases h
  waiter_lease := fun _ _ h => by cases h
  settled := fun _ _ => rfl
  current := fun _ _ h => by cases h.1
  listed := fun _ _ h => by cases h.1
  members := fun _ _ h => by cases h
  known_set := fun _ _ h => by cases h
  retired := fun _ h => by cases h

/-! ## What leaves leases and waiters alone -/

/-- Effects the waiters and the retired leases depend on. -/
def isSettling : Effect → Bool
  | .settled .. | .resumed _ => true
  | _ => false

structure SameDrain (g g' : Gate) : Prop where
  paused : g'.paused = g.paused
  drainWaiters : g'.drainWaiters = g.drainWaiters
  leases : g'.leases = g.leases
  waiters : g'.waiters = g.waiters
  sets : g'.sets = g.sets
  history : ∃ added, g'.history = added ++ g.history ∧ ∀ effect ∈ added, isSettling effect = false

theorem SameDrain.mem_history {g g' : Gate} (h : SameDrain g g') {effect : Effect}
    (heffect : isSettling effect) : effect ∈ g'.history ↔ effect ∈ g.history := by
  obtain ⟨added, hadded, hnot⟩ := h.history
  rw [hadded, List.mem_append]
  refine or_iff_right ?_
  intro hmem
  rw [hnot effect hmem] at heffect
  cases heffect

theorem waiting_sameDrain {todo : List ℕ} {g g' : Gate} (hsame : SameDrain g g')
    (hactive : g'.active.Positive) (h : Waiting todo g) : Waiting todo g' := by
  have hcount : ∀ id drained, g'.history.count (.settled id drained) =
      g.history.count (.settled id drained) := by
    intro id drained
    obtain ⟨added, hadded, hnot⟩ := hsame.history
    rw [hadded, List.count_append, List.count_eq_zero.mpr, Nat.zero_add]
    intro hmem
    have hdrain := hnot _ hmem
    cases hdrain
  refine ⟨hactive, ?_, ?_, ?_, ?_, ?_, ?_, ?_, ?_⟩
  · rw [hsame.paused, hsame.leases]
    exact h.paused_lease
  · rw [hsame.waiters, hsame.leases]
    exact h.waiter_lease
  · intro id drained
    rw [hcount, hsame.waiters]
    exact h.settled id drained
  · unfold Pending
    rw [hsame.waiters, hsame.paused]
    exact h.current
  · unfold Pending
    rw [hsame.waiters, hsame.drainWaiters, hsame.sets]
    exact h.listed
  · unfold Pending
    rw [hsame.waiters, hsame.sets]
    exact h.members
  · rw [hsame.drainWaiters, hsame.sets]
    exact h.known_set
  · intro lease hresumed
    rw [hsame.mem_history rfl] at hresumed
    rw [hsame.leases, hsame.paused]
    exact h.retired lease hresumed

/-! ## Settling one waiter -/

section

variable {todo : List ℕ} {g : Gate} {id : ℕ} {waiter : Waiter} {drained : Bool}

theorem finishWaiter_eq (hget : g.waiters[id]? = some waiter) (drained : Bool) :
    finishWaiter g id drained =
      { g with
        waiters := g.waiters.set id { waiter with result := some drained }
        sets := g.sets.set waiter.set ((g.sets[waiter.set]?.getD []).erase id)
        drainWaiters := if (g.sets[waiter.set]?.getD []).erase id = [] then
          g.drainWaiters.delete waiter.environment else g.drainWaiters
        history := .settled id drained :: g.history } := by
  rw [finishWaiter, hget]

/-- The waiters of the settled gate. -/
theorem finishWaiter_waiters (hget : g.waiters[id]? = some waiter) (other : ℕ) :
    (finishWaiter g id drained).waiters[other]? =
      if other = id then some { waiter with result := some drained } else g.waiters[other]? := by
  obtain ⟨hlt, _⟩ := List.getElem?_eq_some_iff.mp hget
  rw [finishWaiter_eq hget drained]
  simp only
  rw [List.getElem?_set]
  by_cases hid : id = other
  · rw [if_pos hid, if_pos hid.symm, if_pos hlt]
  · rw [if_neg hid, if_neg (Ne.symm hid)]

theorem pending_finishWaiter (hget : g.waiters[id]? = some waiter) {other : ℕ} {w : Waiter} :
    Pending (finishWaiter g id drained) other w ↔ other ≠ id ∧ Pending g other w := by
  rw [Pending, finishWaiter_waiters hget, Pending]
  by_cases hid : other = id
  · rw [if_pos hid]
    constructor
    · rintro ⟨hw, hnone⟩
      rw [Option.some.injEq] at hw
      rw [← hw] at hnone
      cases hnone
    · rintro ⟨hne, _⟩
      exact absurd hid hne
  · rw [if_neg hid]
    exact ⟨fun h => ⟨hid, h⟩, fun h => h.2⟩

theorem waiting_finishWaiter (h : Waiting (id :: todo) g) (hpending : Pending g id waiter) :
    Waiting todo (finishWaiter g id drained) := by
  obtain ⟨hget, hnone⟩ := hpending
  obtain ⟨hmap, members, hmembers, hmem⟩ := h.listed id waiter ⟨hget, hnone⟩
  obtain ⟨hnodup, hof⟩ := h.members waiter.set members hmembers
  obtain ⟨hset, _⟩ := List.getElem?_eq_some_iff.mp hmembers
  have heq := finishWaiter_eq hget drained
  rw [hmembers, Option.getD_some] at heq
  have hsets : ∀ set, (finishWaiter g id drained).sets[set]? =
      if set = waiter.set then some (members.erase id) else g.sets[set]? := by
    intro set
    rw [heq]
    simp only
    rw [List.getElem?_set]
    by_cases hs : waiter.set = set
    · rw [if_pos hs, if_pos hs.symm, if_pos hset]
    · rw [if_neg hs, if_neg (Ne.symm hs)]
  constructor
  · rw [heq]
    exact h.active_pos
  · rw [heq]
    exact h.paused_lease
  · intro other w hw
    rw [finishWaiter_waiters hget] at hw
    rw [heq]
    split_ifs at hw with hother
    · rw [Option.some.injEq] at hw
      rw [← hw]
      exact h.waiter_lease id waiter hget
    · exact h.waiter_lease other w hw
  · intro other d
    rw [finishWaiter_waiters hget]
    have hold := h.settled other d
    have hhistory : (finishWaiter g id drained).history = .settled id drained :: g.history := by
      rw [heq]
    rw [hhistory, List.count_cons, hold]
    by_cases hother : other = id
    · subst hother
      simp [hget, hnone]
    · simp [hother, Ne.symm hother]
  · intro other w hw hnot
    obtain ⟨hne, hold⟩ := (pending_finishWaiter hget).mp hw
    rw [heq]
    exact h.current other w hold (by simp [hne, hnot])
  · intro other w hw
    obtain ⟨hne, hold⟩ := (pending_finishWaiter hget).mp hw
    obtain ⟨hmap', members', hmembers', hmem'⟩ := h.listed other w hold
    by_cases hs : w.set = waiter.set
    · have hstays : other ∈ members.erase id := by
        rw [hs, hmembers, Option.some.injEq] at hmembers'
        rw [hnodup.mem_erase_iff, hmembers']
        exact ⟨hne, hmem'⟩
      have hkept : members.erase id ≠ [] := List.ne_nil_of_mem hstays
      refine ⟨?_, members.erase id, by rw [hsets, if_pos hs], hstays⟩
      rw [heq]
      simp only [if_neg hkept]
      exact hmap'
    · refine ⟨?_, members', by rw [hsets, if_neg hs, hmembers'], hmem'⟩
      have henvironment : w.environment ≠ waiter.environment := by
        intro he
        rw [he, hmap, Option.some.injEq] at hmap'
        exact hs hmap'.symm
      rw [heq]
      simp only
      split_ifs
      · rw [Dict.get_delete, if_neg henvironment]
        exact hmap'
      · exact hmap'
  · intro set members' hmembers'
    rw [hsets] at hmembers'
    split_ifs at hmembers' with hs
    · rw [Option.some.injEq] at hmembers'
      rw [← hmembers']
      refine ⟨hnodup.erase id, ?_⟩
      intro other hother
      obtain ⟨hne, hold⟩ := hnodup.mem_erase_iff.mp hother
      obtain ⟨w, hw, hwset⟩ := hof other hold
      exact ⟨w, (pending_finishWaiter hget).mpr ⟨hne, hw⟩, hs ▸ hwset⟩
    · obtain ⟨hnodup', hof'⟩ := h.members set members' hmembers'
      refine ⟨hnodup', ?_⟩
      intro other hother
      obtain ⟨w, hw, hwset⟩ := hof' other hother
      refine ⟨w, (pending_finishWaiter hget).mpr ⟨?_, hw⟩, hwset⟩
      rintro rfl
      rw [hw.1, Option.some.injEq] at hget
      exact hs (by rw [← hwset, hget])
  · intro environment set hmap'
    rw [heq] at hmap' ⊢
    simp only [List.length_set] at hmap' ⊢
    split_ifs at hmap'
    · rw [Dict.get_delete] at hmap'
      split_ifs at hmap'
      exact h.known_set environment set hmap'
    · exact h.known_set environment set hmap'
  · intro lease hresumed
    rw [heq] at hresumed ⊢
    simp only [List.mem_cons, reduceCtorEq, false_or] at hresumed
    exact h.retired lease hresumed

end

/-! ## What a run keeps -/

/-- Answers are kept, and so are the waiters with what they belong to. -/
structure Evolves (g g' : Gate) : Prop where
  history : ∀ effect ∈ g.history, effect ∈ g'.history
  kept : ∀ (id : ℕ) (waiter : Waiter), g.waiters[id]? = some waiter →
    ∃ waiter', g'.waiters[id]? = some waiter' ∧ waiter'.environment = waiter.environment ∧
      waiter'.lease = waiter.lease ∧ (waiter.result.isSome → waiter'.result.isSome)

theorem Evolves.of_waiters {g g' : Gate} (hwaiters : g'.waiters = g.waiters)
    (added : List Effect) (hhistory : g'.history = added ++ g.history) : Evolves g g' := by
  constructor
  · intro effect heffect
    rw [hhistory]
    exact List.mem_append_right added heffect
  · intro id waiter hget
    exact ⟨waiter, by rw [hwaiters, hget], rfl, rfl, fun h => h⟩

theorem Evolves.refl (g : Gate) : Evolves g g := .of_waiters rfl [] rfl

theorem Evolves.trans {g₁ g₂ g₃ : Gate} (h : Evolves g₁ g₂) (h' : Evolves g₂ g₃) :
    Evolves g₁ g₃ := by
  refine ⟨fun effect heffect => h'.history effect (h.history effect heffect), ?_⟩
  intro id waiter hget
  obtain ⟨waiter', hget', henvironment, hlease, hresult⟩ := h.kept id waiter hget
  obtain ⟨waiter'', hget'', henvironment', hlease', hresult'⟩ := h'.kept id waiter' hget'
  exact ⟨waiter'', hget'', henvironment'.trans henvironment, hlease'.trans hlease,
    fun hsome => hresult' (hresult hsome)⟩

theorem evolves_push {g g' : Gate} {waiter : Waiter} (hwaiters : g'.waiters = g.waiters ++ [waiter])
    (added : List Effect) (hhistory : g'.history = added ++ g.history) : Evolves g g' := by
  constructor
  · intro effect heffect
    rw [hhistory]
    exact List.mem_append_right added heffect
  · intro id old hget
    obtain ⟨hlt, _⟩ := List.getElem?_eq_some_iff.mp hget
    exact ⟨old, by rw [hwaiters, List.getElem?_append_left hlt, hget], rfl, rfl, fun h => h⟩

/-- A drain was certified now: nothing of the environment is in flight and the
lease of the waiter is current. -/
def Holds (g : Gate) (waiter : Waiter) : Prop :=
  g.active.get waiter.environment = none ∧
    g.paused.get waiter.environment = some waiter.lease

/-- Every `true` that `before` had not given is certified in `g`. -/
def Certified (before g : Gate) : Prop :=
  ∀ id, .settled id true ∈ g.history → .settled id true ∈ before.history ∨
    ∃ waiter, g.waiters[id]? = some waiter ∧ Holds g waiter

theorem Certified.refl (g : Gate) : Certified g g := fun _ h => .inl h

theorem certified_of_same {before g g' : Gate} (hwaiters : g'.waiters = g.waiters)
    (hsettled : ∀ id, .settled id true ∈ g'.history → .settled id true ∈ g.history)
    (hholds : ∀ waiter, Holds g waiter → Holds g' waiter) (h : Certified before g) :
    Certified before g' := by
  intro id hid
  obtain hold | ⟨waiter, hget, hw⟩ := h id (hsettled id hid)
  · exact .inl hold
  · exact .inr ⟨waiter, by rw [hwaiters, hget], hholds waiter hw⟩

/-- The three facts about an event or a part of it. -/
structure Keeps (todo todo' : List ℕ) (g g' : Gate) : Prop where
  waiting : Waiting todo g → Waiting todo' g'
  evolves : Evolves g g'
  certified : ∀ before, Certified before g → Certified before g'

theorem Keeps.refl (todo : List ℕ) (g : Gate) : Keeps todo todo g g :=
  ⟨id, .refl g, fun _ => id⟩

theorem Keeps.trans {todo₁ todo₂ todo₃ : List ℕ} {g₁ g₂ g₃ : Gate}
    (h : Keeps todo₁ todo₂ g₁ g₂) (h' : Keeps todo₂ todo₃ g₂ g₃) : Keeps todo₁ todo₃ g₁ g₃ :=
  ⟨fun hw => h'.waiting (h.waiting hw), h.evolves.trans h'.evolves,
    fun before hc => h'.certified before (h.certified before hc)⟩

theorem keeps_finishWaiter {todo : List ℕ} {g : Gate} {id : ℕ} {waiter : Waiter} {drained : Bool}
    (hpending : Pending g id waiter) (hdrained : drained = true → Holds g waiter) :
    Keeps (id :: todo) todo g (finishWaiter g id drained) := by
  have hget := hpending.1
  refine ⟨fun h => waiting_finishWaiter h hpending, ⟨?_, ?_⟩, ?_⟩
  · intro effect heffect
    rw [finishWaiter_eq hget drained]
    exact List.mem_cons_of_mem _ heffect
  · intro other w hw
    rw [finishWaiter_waiters hget]
    split_ifs with hother
    · subst hother
      obtain rfl : w = waiter := Option.some.inj (hw.symm.trans hget)
      exact ⟨_, rfl, rfl, rfl, fun _ => rfl⟩
    · exact ⟨w, hw, rfl, rfl, fun h => h⟩
  · intro before hcertified other hother
    have hactive : (finishWaiter g id drained).active = g.active := by rw [finishWaiter_eq hget drained]
    have hpaused : (finishWaiter g id drained).paused = g.paused := by rw [finishWaiter_eq hget drained]
    have hhistory : (finishWaiter g id drained).history = .settled id drained :: g.history := by
      rw [finishWaiter_eq hget drained]
    simp only [Holds, hactive, hpaused, finishWaiter_waiters hget]
    rw [hhistory, List.mem_cons, Effect.settled.injEq] at hother
    obtain ⟨rfl, hd⟩ | hold := hother
    · exact .inr ⟨_, if_pos rfl, hdrained hd.symm⟩
    · obtain hbefore | ⟨w, hw, hholds⟩ := hcertified other hold
      · exact .inl hbefore
      · split_ifs with hid
        · subst hid
          obtain rfl : w = waiter := Option.some.inj (hw.symm.trans hget)
          exact .inr ⟨_, rfl, hholds⟩
        · exact .inr ⟨w, hw, hholds⟩

theorem activeOf_eq_zero {g : Gate} (hactive : g.active.Positive) {environment : String}
    (h : g.activeOf environment = 0) : g.active.get environment = none := by
  cases hget : g.active.get environment with
  | none => rfl
  | some n =>
      have hn := hactive environment n hget
      rw [Gate.activeOf, hget, Option.getD_some] at h
      omega

theorem keeps_doneWaiter {todo : List ℕ} {g : Gate} {id : ℕ} {waiter : Waiter}
    (hactive : g.active.Positive) (hpending : Pending g id waiter) :
    Keeps (id :: todo) todo g (doneWaiter g id) := by
  rw [doneWaiter, hpending.1]
  refine keeps_finishWaiter hpending ?_
  intro hd
  rw [Bool.and_eq_true, decide_eq_true_eq, decide_eq_true_eq] at hd
  exact ⟨activeOf_eq_zero hactive hd.1, hd.2⟩

/-- A signal settles the waiters of one set one after another. -/
theorem keeps_doneWaiters (ids : List ℕ) {g : Gate} (hactive : g.active.Positive)
    (hnodup : ids.Nodup) (hpending : ∀ id ∈ ids, ∃ waiter, Pending g id waiter) :
    Keeps ids [] g (ids.foldl doneWaiter g) := by
  induction ids generalizing g with
  | nil => exact .refl [] g
  | cons id ids ih =>
      obtain ⟨hid, hnodup⟩ := List.nodup_cons.mp hnodup
      obtain ⟨waiter, hwaiter⟩ := hpending id List.mem_cons_self
      have hactive' : (doneWaiter g id).active.Positive := by
        rw [(doneWaiter_onlyWaiters g id).active]
        exact hactive
      refine (keeps_doneWaiter hactive hwaiter).trans (ih hactive' hnodup ?_)
      intro other hother
      obtain ⟨w, hw⟩ := hpending other (List.mem_cons_of_mem _ hother)
      refine ⟨w, ?_⟩
      rw [doneWaiter, hwaiter.1]
      exact (pending_finishWaiter hwaiter.1).mpr ⟨fun h => hid (h ▸ hother), hw⟩

/-- The waiters a signal to `environment` settles. -/
def signalled (g : Gate) (environment : String) : List ℕ :=
  match g.drainWaiters.get environment with
  | none => []
  | some set => g.sets[set]?.getD []

theorem notifyDrain_eq (g : Gate) (environment : String) :
    notifyDrain g environment = (signalled g environment).foldl doneWaiter g := by
  simp only [notifyDrain, signalled]
  cases g.drainWaiters.get environment <;> rfl

theorem signalled_spec {todo : List ℕ} {g : Gate} (h : Waiting todo g) (environment : String) :
    (signalled g environment).Nodup ∧
      ∀ id ∈ signalled g environment, ∃ waiter, Pending g id waiter := by
  unfold signalled
  split
  · simp
  · rename_i set _
    cases hmembers : g.sets[set]? with
    | none => simp
    | some members =>
        obtain ⟨hnodup, hof⟩ := h.members set members hmembers
        refine ⟨hnodup, fun id hid => ?_⟩
        obtain ⟨waiter, hwaiter, _⟩ := hof id hid
        exact ⟨waiter, hwaiter⟩

theorem keeps_notifyDrain {todo : List ℕ} {g : Gate} (h : Waiting todo g) (environment : String) :
    Keeps (signalled g environment) [] g (notifyDrain g environment) := by
  obtain ⟨hnodup, hpending⟩ := signalled_spec h environment
  rw [notifyDrain_eq]
  exact keeps_doneWaiters _ h.active_pos hnodup hpending

/-! ## The events of admitted calls -/

theorem keeps_sameDrain {g g' : Gate} (hsame : SameDrain g g')
    (hactive : g.active.Positive → g'.active.Positive)
    (hnone : ∀ environment, g.active.get environment = none →
      g'.active.get environment = none) : Keeps [] [] g g' := by
  refine ⟨fun h => waiting_sameDrain hsame (hactive h.active_pos) h, ?_, ?_⟩
  · obtain ⟨added, hadded, _⟩ := hsame.history
    exact .of_waiters hsame.waiters added hadded
  · intro before hcertified
    refine certified_of_same hsame.waiters (fun id => (hsame.mem_history rfl).mp) ?_ hcertified
    intro waiter hholds
    exact ⟨hnone _ hholds.1, by rw [hsame.paused]; exact hholds.2⟩

theorem keeps_uncount {g : Gate} (id : ℕ) (call : Call) : Keeps [] [] g (uncount g id call) := by
  refine keeps_sameDrain ⟨rfl, rfl, rfl, rfl, rfl, [.released id], rfl, by simp [isSettling]⟩ ?_ ?_
  · exact fun h => h.lower call.environment
  · exact fun environment h => Dict.get_lower_none h call.environment

theorem keeps_release (g : Gate) (id : ℕ) (h : Waiting [] g) : Keeps [] [] g (release g id) := by
  unfold release
  split
  · exact .refl [] g
  · rename_i call hget
    by_cases hreleased : call.released = true
    · rw [if_pos hreleased]
      exact .refl [] g
    · rw [if_neg hreleased]
      have huncount := keeps_uncount (g := g) id call
      have hwaiting := huncount.waiting h
      dsimp only
      split_ifs
      · have hnotify := keeps_notifyDrain hwaiting call.environment
        refine huncount.trans ⟨?_, hnotify.evolves, hnotify.certified⟩
        exact fun hw => hnotify.waiting (hw.weaken (by simp))
      · exact huncount

theorem keeps_setCall (g : Gate) (id : ℕ) (call : Call) : Keeps [] [] g (g.setCall id call) :=
  keeps_sameDrain ⟨rfl, rfl, rfl, rfl, rfl, [], rfl, by simp⟩ (fun h => h) (fun _ h => h)

theorem keeps_callRun {g g' : Gate} (hrun : CallRun g g') (h : Waiting [] g) :
    Keeps [] [] g g' := by
  induction hrun with
  | refl g => exact .refl [] g
  | @mark g g' id call call' _ _ _ ih =>
      have hset := keeps_setCall g id call'
      exact hset.trans (ih (hset.waiting h))
  | @note g g' effect hanswer _ ih =>
      have hnot : isSettling effect = false := by
        cases effect <;> first | rfl | cases hanswer
      have hnote : Keeps [] [] g (g.note effect) :=
        keeps_sameDrain ⟨rfl, rfl, rfl, rfl, rfl, [effect], rfl, by simpa using hnot⟩
          (fun h => h) (fun _ h => h)
      exact hnote.trans (ih (hnote.waiting h))
  | @release g g' id _ ih =>
      have hrelease := keeps_release g id h
      exact hrelease.trans (ih (hrelease.waiting h))
  | @close g g' id call phase _ _ _ ih =>
      have hset := keeps_setCall g id { call with phase := phase }
      have hrelease := hset.trans (keeps_release _ id (hset.waiting h))
      exact hrelease.trans (ih (hrelease.waiting h))

/-! ## Arrivals -/

/-- An arrival settles nothing, so it certifies nothing. -/
theorem certified_of_history {g g' : Gate} (hsame : SameDrain g g') : Certified g g' :=
  fun _ h => .inl ((hsame.mem_history rfl).mp h)

theorem arrives_sameDrain {c : Settings} {g g' : Gate} {environment : String} {aborted : Bool}
    {budget : Option Budget} {now : ℤ} (h : Arrives c g environment aborted budget now g') :
    SameDrain g g' := by
  cases h with
  | early => exact ⟨rfl, rfl, rfl, rfl, rfl, [_], rfl, by simp [isSettling]⟩
  | refused => exact ⟨rfl, rfl, rfl, rfl, rfl, [_, _], rfl, by simp [isSettling]⟩
  | within => exact ⟨rfl, rfl, rfl, rfl, rfl, [_, _], rfl, by simp [isSettling]⟩
  | borrowed => exact ⟨rfl, rfl, rfl, rfl, rfl, [_, _], rfl, by simp [isSettling]⟩

theorem arrives_positive {c : Settings} {g g' : Gate} {environment : String} {aborted : Bool}
    {budget : Option Budget} {now : ℤ} (h : Arrives c g environment aborted budget now g')
    (hactive : g.active.Positive) : g'.active.Positive := by
  cases h with
  | early => exact hactive
  | refused => exact hactive
  | within => exact hactive.raise environment
  | borrowed => exact hactive.raise environment

/-! ## Leases -/

theorem getElem?_snoc {α : Type*} (l : List α) (a : α) (i : ℕ) :
    (l ++ [a])[i]? = if i = l.length then some a else l[i]? := by
  split_ifs with hi
  · rw [hi, List.getElem?_concat_length]
  · rcases Nat.lt_or_ge i l.length with hlt | hge
    · rw [List.getElem?_append_left hlt]
    · rw [List.getElem?_eq_none, List.getElem?_eq_none hge]
      rw [List.length_append, List.length_singleton]
      omega

/-- What an event does to a gate whose waiters are in order. -/
structure Step (g g' : Gate) : Prop where
  waiting : Waiting [] g'
  evolves : Evolves g g'
  certified : Certified g g'

theorem Keeps.step {g g' : Gate} (h : Keeps [] [] g g') (hwaiting : Waiting [] g) : Step g g' :=
  ⟨h.waiting hwaiting, h.evolves, h.certified g (.refl g)⟩

theorem step_of_sameDrain {g g' : Gate} (hsame : SameDrain g g') (hactive : g'.active.Positive)
    (h : Waiting [] g) : Step g g' := by
  refine ⟨waiting_sameDrain hsame hactive h, ?_, certified_of_history hsame⟩
  obtain ⟨added, hadded, _⟩ := hsame.history
  exact .of_waiters hsame.waiters added hadded

theorem threw_sameDrain (g : Gate) (message : String) : SameDrain g (g.note (.threw message)) :=
  ⟨rfl, rfl, rfl, rfl, rfl, [_], rfl, by simp [isSettling]⟩

theorem step_pause (g : Gate) (environment : String) (h : Waiting [] g) :
    Step g (pause g environment) := by
  unfold pause
  split_ifs with hinvalid
  · exact step_of_sameDrain (threw_sameDrain g _) h.active_pos h
  · have hfree : g.paused.get environment = none := by
      simp only [Bool.or_eq_true, not_or, Dict.has, Bool.not_eq_true,
        Option.isSome_eq_false_iff, Option.isNone_iff_eq_none] at hinvalid
      exact hinvalid.2
    have hpaused : ∀ {other lease}, g.paused.get other = some lease →
        (g.paused.set environment g.leases.length).get other = some lease := by
      intro other lease hother
      rw [Dict.get_set, if_neg, hother]
      rintro rfl
      rw [hfree] at hother
      cases hother
    have hlease : ∀ {lease : ℕ} {other : String}, g.leases[lease]? = some other →
        (g.leases ++ [environment])[lease]? = some other := by
      intro lease other hget
      obtain ⟨hlt, _⟩ := List.getElem?_eq_some_iff.mp hget
      rw [List.getElem?_append_left hlt, hget]
    refine ⟨⟨h.active_pos, ?_, ?_, ?_, ?_, h.listed, h.members, h.known_set, ?_⟩, ?_, ?_⟩
    · intro other lease hother
      rw [Dict.get_set] at hother
      split_ifs at hother with heq
      · rw [Option.some.injEq] at hother
        rw [← hother, heq, List.getElem?_concat_length]
      · exact hlease (h.paused_lease other lease hother)
    · exact fun id waiter hget => hlease (h.waiter_lease id waiter hget)
    · intro id drained
      rw [← h.settled id drained]
      simp
    · exact fun id waiter hpending hid => hpaused (h.current id waiter hpending hid)
    · intro lease hresumed
      simp only [List.mem_cons, reduceCtorEq, false_or] at hresumed
      obtain ⟨hlt, hretired⟩ := h.retired lease hresumed
      refine ⟨by rw [List.length_append]; omega, ?_⟩
      intro other hother
      rw [Dict.get_set] at hother
      split_ifs at hother
      · rw [Option.some.injEq] at hother
        omega
      · exact hretired other hother
    · exact .of_waiters rfl [_] rfl
    · intro id hid
      simp only [List.mem_cons, reduceCtorEq, false_or] at hid
      exact .inl hid

/-- The waiters after a new one was made. -/
theorem pending_push {g g' : Gate} {waiter : Waiter}
    (hwaiters : g'.waiters = g.waiters ++ [waiter]) {id : ℕ} {w : Waiter} :
    Pending g' id w ↔
      if id = g.waiters.length then w = waiter ∧ waiter.result = none else Pending g id w := by
  rw [Pending, hwaiters, getElem?_snoc]
  split_ifs
  · constructor
    · rintro ⟨hw, hnone⟩
      rw [Option.some.injEq] at hw
      exact ⟨hw.symm, hw ▸ hnone⟩
    · rintro ⟨rfl, hnone⟩
      exact ⟨rfl, hnone⟩
  · exact Iff.rfl

theorem settled_push {g : Gate} (h : Waiting [] g) {waiters : List Waiter} {waiter : Waiter}
    (hwaiters : waiters = g.waiters ++ [waiter]) {history : List Effect}
    (hhistory : ∀ id drained, history.count (.settled id drained) =
      g.history.count (.settled id drained) +
        if id = g.waiters.length ∧ waiter.result = some drained then 1 else 0)
    (id : ℕ) (drained : Bool) : history.count (.settled id drained) =
      if waiters[id]?.any (fun waiter => waiter.result = some drained) then 1 else 0 := by
  rw [hhistory, h.settled, hwaiters, getElem?_snoc]
  by_cases hid : id = g.waiters.length
  · rw [hid, List.getElem?_eq_none le_rfl]
    simp
  · simp [hid]

theorem waiter_lease_push {g : Gate} (h : Waiting [] g) {waiters : List Waiter} {waiter : Waiter}
    (hwaiters : waiters = g.waiters ++ [waiter])
    (hlease : g.leases[waiter.lease]? = some waiter.environment) (id : ℕ) (w : Waiter)
    (hw : waiters[id]? = some w) : g.leases[w.lease]? = some w.environment := by
  rw [hwaiters, getElem?_snoc] at hw
  split_ifs at hw
  · rw [Option.some.injEq] at hw
    rw [← hw]
    exact hlease
  · exact h.waiter_lease id w hw

/-- A waiter that is made pending and put into the set the map holds. -/
theorem waiting_listed {g g' : Gate} (h : Waiting [] g) (waiter : Waiter) {members : List ℕ}
    (hnone : waiter.result = none) (hlease : g.leases[waiter.lease]? = some waiter.environment)
    (hcurrent : g.paused.get waiter.environment = some waiter.lease)
    (hwaiters : g'.waiters = g.waiters ++ [waiter])
    (hsets : ∀ set : ℕ, g'.sets[set]? =
      if set = waiter.set then some (members ++ [g.waiters.length]) else g.sets[set]?)
    (hmembers : g.sets[waiter.set]?.getD [] = members)
    (hmap : ∀ environment, g'.drainWaiters.get environment =
      if environment = waiter.environment then some waiter.set
      else g.drainWaiters.get environment)
    (hold : ∀ set, g.drainWaiters.get waiter.environment = some set → set = waiter.set)
    (hactive : g'.active = g.active) (hpaused : g'.paused = g.paused)
    (hleases : g'.leases = g.leases)
    (hhistory : g'.history = .waiting g.waiters.length :: g.history) : Waiting [] g' := by
  have hfresh : ∀ {set : ℕ} {ids : List ℕ}, g.sets[set]? = some ids →
      g.waiters.length ∉ ids := by
    intro set ids hids hmem
    obtain ⟨w, hw, _⟩ := (h.members set ids hids).2 _ hmem
    rw [Pending, List.getElem?_eq_none le_rfl] at hw
    cases hw.1
  have hin : ∀ id ∈ members, g.sets[waiter.set]? = some members := by
    intro id hid
    cases hget : g.sets[waiter.set]? with
    | none =>
        rw [hget, Option.getD_none] at hmembers
        rw [← hmembers] at hid
        cases hid
    | some ids => rw [← hmembers, hget, Option.getD_some]
  have hnodup : members.Nodup := by
    cases hmem : members with
    | nil => exact List.nodup_nil
    | cons id ids =>
        rw [← hmem]
        exact (h.members _ members (hin id (hmem ▸ List.mem_cons_self))).1
  refine ⟨hactive ▸ h.active_pos, ?_, ?_, ?_, ?_, ?_, ?_, ?_, ?_⟩
  · rw [hpaused, hleases]
    exact h.paused_lease
  · rw [hleases]
    exact waiter_lease_push h hwaiters hlease
  · refine settled_push h hwaiters ?_
    intro id drained
    rw [hhistory, hnone]
    simp
  · intro id w hw _
    rw [pending_push hwaiters] at hw
    rw [hpaused]
    split_ifs at hw
    · rw [hw.1]
      exact hcurrent
    · exact h.current id w hw List.not_mem_nil
  · intro id w hw
    rw [pending_push hwaiters] at hw
    split_ifs at hw with hid
    · rw [hw.1, hmap, if_pos rfl, hsets, if_pos rfl]
      exact ⟨rfl, _, rfl, by simp [hid]⟩
    · obtain ⟨hmap', ids, hids, hmem⟩ := h.listed id w hw
      rw [hmap, hsets]
      constructor
      · split_ifs with henvironment
        · rw [henvironment] at hmap'
          rw [hold w.set hmap']
        · exact hmap'
      · split_ifs with hset
        · refine ⟨_, rfl, List.mem_append_left _ ?_⟩
          rw [← hmembers, ← hset, hids, Option.getD_some]
          exact hmem
        · exact ⟨ids, hids, hmem⟩
  · intro set ids hids
    rw [hsets] at hids
    split_ifs at hids with hset
    · rw [Option.some.injEq] at hids
      rw [← hids]
      have hnew : g.waiters.length ∉ members := fun hmem => hfresh (hin _ hmem) hmem
      refine ⟨List.concat_eq_append ▸ hnodup.concat hnew, ?_⟩
      intro id hid
      obtain hmem | hmem := List.mem_append.mp hid
      · obtain ⟨w, hw, hwset⟩ := (h.members _ members (hin id hmem)).2 id hmem
        refine ⟨w, (pending_push hwaiters).mpr ?_, hwset.trans hset.symm⟩
        rw [if_neg]
        · exact hw
        · rintro rfl
          exact hnew hmem
      · refine ⟨waiter, (pending_push hwaiters).mpr ?_, hset.symm⟩
        rw [List.mem_singleton.mp hmem, if_pos rfl]
        exact ⟨rfl, hnone⟩
    · obtain ⟨hnodup', hof⟩ := h.members set ids hids
      refine ⟨hnodup', ?_⟩
      intro id hid
      obtain ⟨w, hw, hwset⟩ := hof id hid
      refine ⟨w, (pending_push hwaiters).mpr ?_, hwset⟩
      rw [if_neg]
      · exact hw
      · rintro rfl
        exact hfresh hids hid
  · intro environment set hget
    rw [hmap] at hget
    have hlt : ∀ set ids, g'.sets[set]? = some ids → set < g'.sets.length :=
      fun set ids hids => (List.getElem?_eq_some_iff.mp hids).1
    split_ifs at hget
    · rw [Option.some.injEq] at hget
      rw [← hget]
      exact hlt waiter.set _ (by rw [hsets, if_pos rfl])
    · have hids := List.getElem?_eq_getElem (h.known_set environment set hget)
      by_cases hset : set = waiter.set
      · exact hlt set _ (by rw [hsets, if_pos hset])
      · exact hlt set _ (by rw [hsets, if_neg hset, hids])
  · intro lease hresumed
    rw [hhistory] at hresumed
    simp only [List.mem_cons, reduceCtorEq, false_or] at hresumed
    rw [hleases, hpaused]
    exact h.retired lease hresumed

theorem step_waitForDrain (g : Gate) (lease : ℕ) (timeoutMs : ℤ) (h : Waiting [] g) :
    Step g (waitForDrain g lease timeoutMs) := by
  unfold waitForDrain
  split
  · exact Keeps.step (.refl [] g) h
  · rename_i environment hlease
    split_ifs with htimeout hcurrent hidle
    · exact step_of_sameDrain (threw_sameDrain g _) h.active_pos h
    · exact step_of_sameDrain (threw_sameDrain g _) h.active_pos h
    · -- nothing is in flight: the promise is settled when it is made
      rw [not_not] at hcurrent
      have hnone := activeOf_eq_zero h.active_pos hidle
      have hpending : ∀ {id : ℕ} {w : Waiter},
          (g.waiters ++ [⟨environment, lease, g.sets.length, some true⟩])[id]? = some w →
          w.result = none → Pending g id w := by
        intro id w hw hresult
        rw [getElem?_snoc] at hw
        split_ifs at hw
        · rw [Option.some.injEq] at hw
          rw [← hw] at hresult
          cases hresult
        · exact ⟨hw, hresult⟩
      refine ⟨⟨h.active_pos, h.paused_lease, waiter_lease_push h rfl hlease,
        settled_push h rfl ?_, ?_, ?_, ?_, h.known_set, ?_⟩, evolves_push rfl [_, _] rfl, ?_⟩
      · intro id drained
        simp only [List.count_cons]
        by_cases hid : id = g.waiters.length
        · cases drained <;> simp [hid]
        · simp [hid, Ne.symm hid]
      · exact fun id w hw hnot => h.current id w (hpending hw.1 hw.2) hnot
      · exact fun id w hw => h.listed id w (hpending hw.1 hw.2)
      · intro set members hmembers
        obtain ⟨hnodup, hof⟩ := h.members set members hmembers
        refine ⟨hnodup, fun id hid => ?_⟩
        obtain ⟨w, hw, hwset⟩ := hof id hid
        refine ⟨w, ⟨?_, hw.2⟩, hwset⟩
        obtain ⟨hlt, _⟩ := List.getElem?_eq_some_iff.mp hw.1
        exact (List.getElem?_append_left hlt).trans hw.1
      · intro lease' hresumed
        simp only [List.mem_cons, reduceCtorEq, false_or] at hresumed
        exact h.retired lease' hresumed
      · intro id hid
        simp only [List.mem_cons, reduceCtorEq, false_or, Effect.settled.injEq, and_true] at hid
        obtain rfl | hold := hid
        · exact .inr ⟨_, List.getElem?_concat_length, hnone, hcurrent⟩
        · exact .inl hold
    · rw [not_not] at hcurrent
      have hcertified : ∀ history : List Effect, history = .waiting g.waiters.length :: g.history →
          ∀ id, .settled id true ∈ history → .settled id true ∈ g.history := by
        rintro _ rfl id hid
        simpa using hid
      split
      · rename_i set hmap
        have hset := h.known_set environment set hmap
        refine ⟨waiting_listed h ⟨environment, lease, set, none⟩ rfl hlease hcurrent
          rfl ?_ rfl ?_ ?_ rfl rfl rfl rfl, evolves_push rfl [_] rfl,
          fun id hid => .inl (hcertified _ rfl id hid)⟩
        · intro other
          simp only
          rw [List.getElem?_set]
          by_cases hother : set = other
          · rw [if_pos hother, if_pos hother.symm, if_pos hset]
          · rw [if_neg hother, if_neg (Ne.symm hother)]
        · intro other
          simp only
          split_ifs with hother
          · rw [hother, hmap]
          · rfl
        · intro other hother
          rw [hmap, Option.some.injEq] at hother
          exact hother.symm
      · rename_i hmap
        refine ⟨waiting_listed h ⟨environment, lease, g.sets.length, none⟩ rfl hlease
          hcurrent rfl ?_ rfl ?_ ?_ rfl rfl rfl rfl, evolves_push rfl [_] rfl,
          fun id hid => .inl (hcertified _ rfl id hid)⟩
        · intro other
          simp only
          rw [getElem?_snoc, List.getElem?_eq_none le_rfl]
          rfl
        · intro other
          exact Dict.get_set _ _ _ _
        · intro other hother
          rw [hmap] at hother
          cases hother

theorem step_drainDeadline (g : Gate) (id : ℕ) (h : Waiting [] g) :
    Step g (drainDeadline g id) := by
  unfold drainDeadline
  split
  · exact Keeps.step (.refl [] g) h
  · rename_i waiter hget
    split_ifs with hnone
    · have hkeeps : Keeps [id] [] g (finishWaiter g id false) :=
        keeps_finishWaiter ⟨hget, hnone⟩ (by simp)
      exact ⟨hkeeps.waiting (h.weaken (by simp)), hkeeps.evolves, hkeeps.certified g (.refl g)⟩
    · exact Keeps.step (.refl [] g) h

theorem step_resume (g : Gate) (lease : ℕ) (h : Waiting [] g) : Step g (resume g lease) := by
  unfold resume
  split
  · exact Keeps.step (.refl [] g) h
  · rename_i environment hlease
    split_ifs with hcurrent
    · exact step_of_sameDrain (threw_sameDrain g _) h.active_pos h
    · rw [not_not] at hcurrent
      have hother : ∀ {other lease'}, other ≠ environment → g.paused.get other = some lease' →
          (g.paused.delete environment).get other = some lease' := by
        intro other lease' hne hget
        rw [Dict.get_delete, if_neg hne, hget]
      have hkept : ∀ {other lease'}, (g.paused.delete environment).get other = some lease' →
          other ≠ environment ∧ g.paused.get other = some lease' := by
        intro other lease' hget
        rw [Dict.get_delete] at hget
        split_ifs at hget with hne
        exact ⟨hne, hget⟩
      generalize hfreed : { g with
          paused := g.paused.delete environment
          history := .resumed lease :: g.history } = freed
      have hwaiting : Waiting (signalled freed environment) freed := by
        subst hfreed
        refine ⟨h.active_pos, ?_, h.waiter_lease, ?_, ?_, h.listed, h.members, h.known_set, ?_⟩
        · exact fun other lease' hget => h.paused_lease other lease' (hkept hget).2
        · intro id drained
          rw [← h.settled id drained]
          simp
        · intro id waiter hpending hnot
          refine hother ?_ (h.current id waiter hpending List.not_mem_nil)
          -- a waiter of the resumed environment is in the set that is signalled
          intro henvironment
          obtain ⟨hmap, members, hmembers, hmem⟩ := h.listed id waiter hpending
          rw [henvironment] at hmap
          apply hnot
          simp only [signalled, hmap, hmembers, Option.getD_some]
          exact hmem
        · intro lease' hresumed
          simp only [List.mem_cons, Effect.resumed.injEq] at hresumed
          obtain rfl | hold := hresumed
          · obtain ⟨hlt, _⟩ := List.getElem?_eq_some_iff.mp hlease
            refine ⟨hlt, fun other hget => ?_⟩
            obtain ⟨hne, hget'⟩ := hkept hget
            have hsame := (h.paused_lease other lease' hget').symm.trans hlease
            exact hne (Option.some.inj hsame)
          · obtain ⟨hlt, hretired⟩ := h.retired lease' hold
            exact ⟨hlt, fun other hget => hretired other (hkept hget).2⟩
      have hevolves : Evolves g freed := by
        subst hfreed
        exact .of_waiters rfl [_] rfl
      have hcertified : Certified g freed := by
        subst hfreed
        intro id hid
        simp only [List.mem_cons, reduceCtorEq, false_or] at hid
        exact .inl hid
      have hnotify := keeps_notifyDrain hwaiting environment
      exact ⟨hnotify.waiting hwaiting, hevolves.trans hnotify.evolves,
        hnotify.certified g hcertified⟩

/-! ## Runs -/

theorem step_drain (c : Settings) (g : Gate) (e : Event) (h : Waiting [] g) :
    Step g (step c g e) := by
  have hcall : ∀ {g'}, CallRun g g' → Step g g' := fun hrun => (keeps_callRun hrun h).step h
  cases e with
  | arrive environment aborted budget now =>
      have harrives := run_arrives c g environment aborted budget now
      exact step_of_sameDrain (arrives_sameDrain harrives)
        (arrives_positive harrives h.active_pos) h
  | useShares shareOf =>
      exact step_of_sameDrain ⟨rfl, rfl, rfl, rfl, rfl, [], rfl, by simp⟩ h.active_pos h
  | upstreamSettles call settled => exact hcall (upstreamSettles_callRun g call settled)
  | headerDeadline call => exact hcall (stop_callRun g call .deadline)
  | clientAborts call => exact hcall (clientAborts_callRun g call)
  | continueRun call => exact hcall (continueRun_callRun g call)
  | pullSettles call item => exact hcall (pullSettles_callRun g call item)
  | consumerCancels call => exact hcall (consumerCancels_callRun g call)
  | drainSettles call item => exact hcall (drainSettles_callRun g call item)
  | bodyDeadline call => exact hcall (finishBody_callRun g call)
  | pause environment => exact step_pause g environment h
  | waitForDrain lease timeoutMs => exact step_waitForDrain g lease timeoutMs h
  | drainDeadline waiter => exact step_drainDeadline g waiter h
  | resume lease => exact step_resume g lease h
  | pressure => exact step_of_sameDrain ⟨rfl, rfl, rfl, rfl, rfl, [], rfl, by simp⟩ h.active_pos h

theorem waiting_run (c : Config) (events : List Event) : Waiting [] ((machine c).run events) :=
  (machine c).run_invariant waiting_empty
    (fun g e h => (step_drain c.toSettings g e h).waiting) events

theorem evolves_run (c : Config) (events later : List Event) :
    Evolves ((machine c).run events) ((machine c).run (events ++ later)) := by
  induction later using List.reverseRecOn with
  | nil =>
      rw [List.append_nil]
      exact .refl _
  | append_singleton later e ih =>
      rw [← List.append_assoc, (machine c).run_snoc]
      exact ih.trans (step_drain c.toSettings _ e (waiting_run c _)).evolves

/-! ## Exactly one answer -/

theorem settles_count {g : Gate} (h : Waiting [] g) (id : ℕ) :
    g.history.count (.settled id true) + g.history.count (.settled id false) =
      if g.waiters[id]?.any fun waiter => waiter.result.isSome then 1 else 0 := by
  rw [h.settled, h.settled]
  cases hget : g.waiters[id]? with
  | none => rfl
  | some waiter =>
      cases hresult : waiter.result with
      | none => simp [hresult]
      | some drained => cases drained <;> simp [hresult]

theorem settled_after_deadline (c : Settings) (g : Gate) (id : ℕ) (waiter : Waiter)
    (hget : g.waiters[id]? = some waiter) :
    ∃ waiter', (step c g (.drainDeadline id)).waiters[id]? = some waiter' ∧
      waiter'.result.isSome := by
  simp only [step, drainDeadline, hget]
  split_ifs with hnone
  · exact ⟨_, by rw [finishWaiter_waiters hget, if_pos rfl], rfl⟩
  · exact ⟨waiter, hget, Option.isSome_iff_ne_none.mpr hnone⟩

theorem settled_of_deadline (c : Config) (events later : List Event) (id : ℕ)
    (hid : id < ((machine c).run events).waiters.length) (hlater : .drainDeadline id ∈ later) :
    ∃ waiter, ((machine c).run (events ++ later)).waiters[id]? = some waiter ∧
      waiter.result.isSome := by
  obtain ⟨before, after, rfl⟩ := List.append_of_mem hlater
  obtain ⟨waiter, hget, -⟩ := (evolves_run c events before).kept id _ (List.getElem?_eq_getElem hid)
  obtain ⟨waiter', hget', hsome⟩ := settled_after_deadline c.toSettings _ id waiter hget
  have hafter := evolves_run c (events ++ before ++ [.drainDeadline id]) after
  rw [(machine c).run_snoc] at hafter
  obtain ⟨waiter'', hget'', -, -, hkept⟩ := hafter.kept id waiter' hget'
  refine ⟨waiter'', ?_, hkept hsome⟩
  rw [← hget'', List.append_assoc, List.append_assoc]
  rfl

/-! ## A certified drain lasts until its lease is resumed -/

/-- The environment is paused under `lease`, idle, and admitted nothing since
`base`. -/
structure Held (base : Gate) (environment : String) (lease : ℕ) (g : Gate) : Prop where
  paused : g.paused.get environment = some lease
  idle : g.active.get environment = none
  admitted : ∀ call borrowed, .admitted call environment borrowed ∈ g.history →
    .admitted call environment borrowed ∈ base.history

theorem admitted_of_append {g g' : Gate} {added : List Effect}
    (hhistory : g'.history = added ++ g.history)
    (hadded : ∀ effect ∈ added, admittedCall effect = none) {call : ℕ} {environment : String}
    {borrowed : Bool} (h : .admitted call environment borrowed ∈ g'.history) :
    .admitted call environment borrowed ∈ g.history := by
  rw [hhistory, List.mem_append] at h
  refine h.resolve_left fun hmem => ?_
  have hnone := hadded _ hmem
  cases hnone

section

variable {base g g' : Gate} {environment : String} {lease : ℕ}

theorem Held.has (h : Held base environment lease g) : g.paused.has environment := by
  rw [Dict.has, h.paused]
  rfl

theorem held_callRun (h : Held base environment lease g) (hrun : CallRun g g') :
    Held base environment lease g' := by
  obtain ⟨added, hadded, hcall⟩ := hrun.frame.history
  refine ⟨by rw [hrun.frame.paused, h.paused], hrun.idle h.idle, ?_⟩
  intro call borrowed hmem
  refine h.admitted call borrowed (admitted_of_append hadded ?_ hmem)
  intro effect heffect
  have hc := hcall effect heffect
  cases effect <;> first | rfl | cases hc

theorem held_sameCalls (h : Held base environment lease g) (hsame : SameCalls g g')
    (hpaused : g'.paused.get environment = some lease) : Held base environment lease g' := by
  obtain ⟨added, hadded, hdrain⟩ := hsame.history
  refine ⟨hpaused, by rw [hsame.active, h.idle], ?_⟩
  intro call borrowed hmem
  refine h.admitted call borrowed (admitted_of_append hadded ?_ hmem)
  intro effect heffect
  have hd := hdrain effect heffect
  cases effect <;> first | rfl | cases hd

/-- A paused environment is answered before anything is counted. -/
theorem not_paused_of_early {other : String} {aborted : Bool} {budget : Option Budget}
    (h : refusedEarly g other aborted budget = none) : g.paused.has other = false := by
  unfold refusedEarly at h
  split_ifs at h with hpaused
  all_goals simpa using hpaused

theorem held_admitCall (h : Held base environment lease g) (c : Settings) {other : String}
    (hother : environment ≠ other) (g₁ : Gate) (hpaused : g₁.paused = g.paused)
    (hactive : g₁.active = g.active) (now : ℤ)
    (hhistory : g₁.history = .asked other now :: g.history) (budget : Option Budget) :
    Held base environment lease (admitCall c g₁ other budget) := by
  refine ⟨?_, ?_, ?_⟩
  · show g₁.paused.get environment = some lease
    rw [hpaused, h.paused]
  · show (g₁.active.set other _).get environment = none
    rw [Dict.get_set, if_neg hother, hactive, h.idle]
  · intro call borrowed hmem
    simp only [admitCall, hhistory, List.mem_cons, Effect.admitted.injEq, reduceCtorEq,
      false_or] at hmem
    obtain ⟨-, henvironment, -⟩ | hmem := hmem
    · exact absurd henvironment hother
    · exact h.admitted call borrowed hmem

theorem held_arrives {c : Settings} {other : String} {aborted : Bool} {budget : Option Budget}
    {now : ℤ} (h : Held base environment lease g)
    (harrives : Arrives c g other aborted budget now g') : Held base environment lease g' := by
  have hne : refusedEarly g other aborted budget = none → environment ≠ other := by
    rintro hearly rfl
    have hhas := not_paused_of_early hearly
    rw [h.has] at hhas
    cases hhas
  cases harrives with
  | early =>
      refine ⟨h.paused, h.idle, fun call borrowed hmem => h.admitted call borrowed ?_⟩
      exact admitted_of_append (List.singleton_append).symm (by simp [admittedCall]) hmem
  | refused =>
      refine ⟨h.paused, h.idle, fun call borrowed hmem => h.admitted call borrowed ?_⟩
      simpa [Gate.note, ask] using hmem
  | within hearly => exact held_admitCall h c (hne hearly) (ask g other now) rfl rfl now rfl budget
  | borrowed hearly =>
      exact held_admitCall h c (hne hearly)
        { ask g other now with seen := stillSeen c (ask g other now) now } rfl rfl now rfl budget

theorem held_resume (h : Held base environment lease g) (other : ℕ) :
    Held base environment lease (resume g other) ∨ .resumed lease ∈ (resume g other).history := by
  have hsame := resume_sameCalls g other
  unfold resume at hsame ⊢
  split
  · exact .inl h
  · rename_i environment' hlease
    split_ifs with hcurrent
    · simp only [hlease, if_pos hcurrent] at hsame
      exact .inl (held_sameCalls h hsame h.paused)
    · simp only [hlease, if_neg hcurrent] at hsame
      rw [not_not] at hcurrent
      have hnotify := notifyDrain_onlyWaiters
        { g with paused := g.paused.delete environment', history := .resumed other :: g.history }
        environment'
      by_cases henvironment : environment = environment'
      · right
        rw [← henvironment, h.paused, Option.some.injEq] at hcurrent
        obtain ⟨settled, hsettled⟩ := hnotify.history
        rw [hsettled, hcurrent]
        exact List.mem_append_right _ List.mem_cons_self
      · left
        refine held_sameCalls h hsame ?_
        rw [hnotify.paused]
        simp only
        rw [Dict.get_delete, if_neg henvironment, h.paused]

theorem held_step (c : Settings) (e : Event) (h : Held base environment lease g) :
    Held base environment lease (step c g e) ∨ .resumed lease ∈ (step c g e).history := by
  have hcall : ∀ {g'}, CallRun g g' → Held base environment lease g' ∨ .resumed lease ∈ g'.history :=
    fun hrun => .inl (held_callRun h hrun)
  cases e with
  | arrive other aborted budget now =>
      exact .inl (held_arrives h (run_arrives c g other aborted budget now))
  | useShares shareOf => exact .inl ⟨h.paused, h.idle, h.admitted⟩
  | upstreamSettles call settled => exact hcall (upstreamSettles_callRun g call settled)
  | headerDeadline call => exact hcall (stop_callRun g call .deadline)
  | clientAborts call => exact hcall (clientAborts_callRun g call)
  | continueRun call => exact hcall (continueRun_callRun g call)
  | pullSettles call item => exact hcall (pullSettles_callRun g call item)
  | consumerCancels call => exact hcall (consumerCancels_callRun g call)
  | drainSettles call item => exact hcall (drainSettles_callRun g call item)
  | bodyDeadline call => exact hcall (finishBody_callRun g call)
  | pause other =>
      refine .inl (held_sameCalls h (pause_sameCalls g other) ?_)
      simp only [step, pause]
      split_ifs with hinvalid
      · exact h.paused
      · simp only
        rw [Dict.get_set, if_neg, h.paused]
        rintro rfl
        simp [h.has] at hinvalid
  | waitForDrain other timeoutMs =>
      refine .inl (held_sameCalls h (waitForDrain_sameCalls g other timeoutMs) ?_)
      simp only [step, waitForDrain]
      split
      · exact h.paused
      · split_ifs
        · exact h.paused
        · exact h.paused
        · exact h.paused
        · split <;> exact h.paused
  | drainDeadline waiter =>
      refine .inl (held_sameCalls h (drainDeadline_sameCalls g waiter) ?_)
      simp only [step, drainDeadline]
      split
      · exact h.paused
      · split_ifs
        · rw [(finishWaiter_onlyWaiters _ _ _).paused, h.paused]
        · exact h.paused
  | resume other => exact held_resume h other
  | pressure => exact .inl ⟨h.paused, h.idle, h.admitted⟩

end

theorem held_run (c : Config) {base : Gate} {environment : String} {lease : ℕ}
    (events later : List Event)
    (h : Held base environment lease ((machine c).run events))
    (hresumed : .resumed lease ∉ ((machine c).run (events ++ later)).history) :
    Held base environment lease ((machine c).run (events ++ later)) := by
  induction later using List.reverseRecOn with
  | nil => rwa [List.append_nil]
  | append_singleton later e ih =>
      rw [← List.append_assoc, (machine c).run_snoc] at hresumed ⊢
      have hbefore : .resumed lease ∉ ((machine c).run (events ++ later)).history :=
        fun hmem => hresumed
          ((step_drain c.toSettings _ e (waiting_run c _)).evolves.history _ hmem)
      exact (held_step c.toSettings e (ih hbefore)).resolve_right hresumed

/-- Without a counter the environment has no call in flight. -/
theorem released_of_idle (c : Config) (events : List Event) {environment : String}
    (hidle : ((machine c).run events).active.get environment = none) :
    ∀ call ∈ ((machine c).run events).calls, call.environment = environment → call.released := by
  intro call hcall henvironment
  by_contra hopen
  have hgroups := (sound_pool c events).groups
  have hkept := (hgroups.get_ne_none (k := environment)).mpr
    ⟨holder call, List.mem_map_of_mem hcall, by
      simp [Pool.Rules.groupOf, rules, holder, hopen, henvironment]⟩
  exact hkept hidle

/-! ## The law of drains -/

/-- What a drain tells, in the state reached by `events` and after it. -/
structure DrainLaw (c : Config) (events : List Event) : Prop where
  settles_le : ∀ id, ((machine c).run events).history.count (.settled id true) +
    ((machine c).run events).history.count (.settled id false) ≤ 1
  /-- The timer of a waiter settles it, unless something else has. -/
  settles_one : ∀ id < ((machine c).run events).waiters.length, ∀ later,
    .drainDeadline id ∈ later →
      ((machine c).run (events ++ later)).history.count (.settled id true) +
        ((machine c).run (events ++ later)).history.count (.settled id false) = 1
  /-- A `true` says that nothing is in flight, and nothing is admitted until the
  lease of the waiter is resumed. -/
  drained : ∀ e id, .settled id true ∈ ((machine c).run (events ++ [e])).history →
    .settled id true ∉ ((machine c).run events).history →
    ∃ waiter, ((machine c).run (events ++ [e])).waiters[id]? = some waiter ∧
      ((machine c).run (events ++ [e])).paused.get waiter.environment = some waiter.lease ∧
      (∀ call ∈ ((machine c).run (events ++ [e])).calls,
        call.environment = waiter.environment → call.released) ∧
      ∀ later, .resumed waiter.lease ∉ ((machine c).run (events ++ [e] ++ later)).history →
        ∀ call borrowed, .admitted call waiter.environment borrowed ∈
            ((machine c).run (events ++ [e] ++ later)).history →
          .admitted call waiter.environment borrowed ∈
            ((machine c).run (events ++ [e])).history
  /-- A waiter whose lease was resumed is not told `true` afterwards. -/
  resumed : ∀ later id waiter,
    .settled id true ∈ ((machine c).run (events ++ later)).history →
    ((machine c).run (events ++ later)).waiters[id]? = some waiter →
    .resumed waiter.lease ∈ ((machine c).run events).history →
    .settled id true ∈ ((machine c).run events).history
  /-- A waiter without an answer belongs to the current lease, so what is left of
  an expired lease touches no waiter of a newer one. -/
  current : ∀ id waiter, Pending ((machine c).run events) id waiter →
    ((machine c).run events).paused.get waiter.environment = some waiter.lease
  expired : ∀ (lease : ℕ) (environment : String),
    ((machine c).run events).leases[lease]? = some environment →
    ((machine c).run events).paused.get environment ≠ some lease →
    (∀ timeoutMs, ∃ message, (machine c).run (events ++ [.waitForDrain lease timeoutMs]) =
      ((machine c).run events).note (.threw message)) ∧
    (machine c).run (events ++ [.resume lease]) =
      ((machine c).run events).note (.threw "Pause lease expired")

theorem drained_once (c : Config) (events : List Event) (e : Event) (id : ℕ)
    (hafter : .settled id true ∈ ((machine c).run (events ++ [e])).history)
    (hbefore : .settled id true ∉ ((machine c).run events).history) :
    ∃ waiter, ((machine c).run (events ++ [e])).waiters[id]? = some waiter ∧
      Holds ((machine c).run (events ++ [e])) waiter := by
  rw [(machine c).run_snoc] at hafter ⊢
  have hstep := step_drain c.toSettings _ e (waiting_run c events)
  exact (hstep.certified id hafter).resolve_left hbefore

theorem not_drained_after_resume (c : Config) (events later : List Event) (id : ℕ)
    (waiter : Waiter) (hsettled : .settled id true ∈ ((machine c).run (events ++ later)).history)
    (hget : ((machine c).run (events ++ later)).waiters[id]? = some waiter)
    (hresumed : .resumed waiter.lease ∈ ((machine c).run events).history) :
    .settled id true ∈ ((machine c).run events).history := by
  induction later using List.reverseRecOn generalizing waiter with
  | nil => rwa [List.append_nil] at hsettled
  | append_singleton later e ih =>
      rw [← List.append_assoc] at hsettled hget
      have hevolves := evolves_run c (events ++ later) [e]
      by_cases hold : .settled id true ∈ ((machine c).run (events ++ later)).history
      · have hcount := (waiting_run c (events ++ later)).settled id true
        have hpos := List.count_pos_iff.mpr hold
        cases hwaiter : ((machine c).run (events ++ later)).waiters[id]? with
        | none =>
            rw [hwaiter] at hcount
            simp only [Option.any_none, Bool.false_eq_true, if_false] at hcount
            omega
        | some old =>
            obtain ⟨waiter', hget', -, hlease, -⟩ := hevolves.kept id old hwaiter
            obtain rfl : waiter = waiter' := Option.some.inj (hget.symm.trans hget')
            exact ih old hold hwaiter (hlease ▸ hresumed)
      · obtain ⟨waiter', hget', hholds⟩ := drained_once c (events ++ later) e id hsettled hold
        obtain rfl : waiter = waiter' := Option.some.inj (hget.symm.trans hget')
        have hlater := (evolves_run c events (later ++ [e])).history _ hresumed
        rw [← List.append_assoc] at hlater
        exact absurd hholds.2 (((waiting_run c _).retired _ hlater).2 _)

theorem expired_throws (c : Settings) (g : Gate) (lease : ℕ) (environment : String)
    (hlease : g.leases[lease]? = some environment)
    (hexpired : g.paused.get environment ≠ some lease) :
    (∀ timeoutMs, ∃ message, step c g (.waitForDrain lease timeoutMs) = g.note (.threw message)) ∧
      step c g (.resume lease) = g.note (.threw "Pause lease expired") := by
  constructor
  · intro timeoutMs
    simp only [step, waitForDrain, hlease, if_pos hexpired]
    split_ifs
    · exact ⟨_, rfl⟩
    · exact ⟨_, rfl⟩
  · simp only [step, resume, hlease, if_pos hexpired]

theorem drain_law (c : Config) (events : List Event) : DrainLaw c events where
  settles_le := by
    intro id
    rw [settles_count (waiting_run c events)]
    split_ifs <;> omega
  settles_one := by
    intro id hid later hlater
    obtain ⟨waiter, hget, hsome⟩ := settled_of_deadline c events later id hid hlater
    rw [settles_count (waiting_run c (events ++ later)), hget]
    simp [hsome]
  drained := by
    intro e id hafter hbefore
    obtain ⟨waiter, hget, hidle, hpaused⟩ := drained_once c events e id hafter hbefore
    refine ⟨waiter, hget, hpaused, released_of_idle c _ hidle, ?_⟩
    intro later hresumed
    exact (held_run c _ later ⟨hpaused, hidle, fun _ _ h => h⟩ hresumed).admitted
  resumed := not_drained_after_resume c events
  current := fun id waiter hpending =>
    (waiting_run c events).current id waiter hpending List.not_mem_nil
  expired := by
    intro lease environment hlease hexpired
    have hthrows := expired_throws c.toSettings _ lease environment hlease hexpired
    simp only [(machine c).run_snoc]
    exact hthrows

/-- A drain that ends while a request is still in flight. -/
theorem drain_law_defaults :
    let events := [.arrive "environment" false none 0, .pause "environment",
      .waitForDrain 0 1000, .headerDeadline 0]
    ∃ waiter, ((machine .defaults).run (events ++ [.continueRun 0])).waiters[0]? = some waiter ∧
      ((machine .defaults).run (events ++ [.continueRun 0])).paused.get waiter.environment =
        some waiter.lease := by
  obtain ⟨waiter, hget, hpaused, -⟩ := (drain_law .defaults [.arrive "environment" false none 0,
    .pause "environment", .waitForDrain 0 1000, .headerDeadline 0]).drained (.continueRun 0) 0
      (by decide) (by decide)
  exact ⟨waiter, hget, hpaused⟩

end Sbarbase.Gateway.Proofs.Drain
