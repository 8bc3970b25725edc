import Mathlib.Algebra.Order.BigOperators.Group.Finset
import Mathlib.Algebra.Order.Ring.Int
import Sbarbase.Gateway.Proofs.Slots
/-!
# Borrowing and guaranteed shares

A borrow leaves free the unused share of every other environment that asked
recently. The environments a borrow kept room for can be read off the history;
for these the free slots cover all unused shares until an environment from
outside is admitted. An environment waking from idle is admitted on free slots
alone, so it may take what a borrow had left.
-/

namespace Sbarbase.Gateway.Proofs.Borrowing

open Lib Gateway.Concurrency Gateway.Proofs.Steps Gateway.Proofs.Slots

/-! ## What the history says -/

/-- The clock at the last ask of an environment, unless a reading since was more
than `recentMs` later. -/
def lastAsk (c : Settings) : List Effect → String → Option ℤ
  | [], _ => none
  | .asked other now :: earlier, environment =>
    if other = environment then some now
    else (lastAsk c earlier environment).filter fun asked => now - recentMs c ≤ asked
  | _ :: earlier, environment => lastAsk c earlier environment

/-- The environments a borrow keeps room for: the borrower and those that asked
recently. -/
def keptFor (c : Settings) (known : Finset String) (borrower : String) (history : List Effect) :
    Finset String :=
  known.filter fun environment =>
    environment = borrower ∨ (lastAsk c history environment).isSome

def isBorrow : Effect → Bool
  | .admitted _ _ borrowed => borrowed
  | _ => false

/-- How many calls were admitted above their share. -/
def borrows (g : Gate) : ℕ := g.history.countP isBorrow

/-- The effects these readings depend on. -/
def isArrival : Effect → Bool
  | .asked .. | .admitted .. => true
  | _ => false

theorem lastAsk_append (c : Settings) {added : List Effect}
    (h : ∀ effect ∈ added, isArrival effect = false) (history : List Effect)
    (environment : String) :
    lastAsk c (added ++ history) environment = lastAsk c history environment := by
  induction added with
  | nil => rfl
  | cons effect added ih =>
      have hrest := ih fun e he => h e (List.mem_cons_of_mem _ he)
      have heffect := h effect List.mem_cons_self
      cases effect with
      | asked other now => cases heffect
      | _ => exact hrest

theorem borrows_append {g g' : Gate} {added : List Effect}
    (hhistory : g'.history = added ++ g.history)
    (h : ∀ effect ∈ added, isArrival effect = false) : borrows g' = borrows g := by
  rw [borrows, hhistory, List.countP_append, List.countP_eq_zero.mpr, Nat.zero_add, borrows]
  intro effect heffect
  have hplain := h effect heffect
  cases effect <;> first | exact Bool.false_ne_true | cases hplain

/-! ## Shares -/

theorem guarantee_pos (c : Config) (shareOf : Option (String → ShareAnswer))
    (environment : String) : 0 < guarantee c.toSettings shareOf environment := by
  have h := c.checked
  unfold Settings.check at h
  split_ifs at h with hlimits
  simp [isPositive] at hlimits
  have hdefault : 0 < c.perEnvironment := hlimits.1.2
  unfold guarantee
  split
  · exact hdefault
  · split
    · split_ifs with hshare
      · simp at hshare
        omega
      · exact hdefault
    · exact hdefault
    · exact hdefault

theorem recentMs_pos (c : Config) : 0 < recentMs c.toSettings := by
  have h := c.checked
  unfold Settings.check at h
  split_ifs at h with _ hborrow
  unfold recentMs
  cases hpolicy : c.borrow with
  | none => simp
  | some policy =>
      cases hrecent : policy.recentMs with
      | none => simp [hrecent]
      | some ms =>
          simp [hpolicy, BorrowPolicy.valid, hrecent, isPositive] at hborrow
          simpa [hrecent] using hborrow.2.2

theorem unused_nonneg (c : Settings) (g : Gate) (environment : String) :
    0 ≤ unused c g environment := le_max_left _ _

theorem unused_congr {c : Settings} {g g' : Gate} (hshares : g'.shareOf = g.shareOf)
    {environment : String} (hactive : g'.activeOf environment = g.activeOf environment) :
    unused c g' environment = unused c g environment := by
  rw [unused, hshares, hactive, unused]

/-- An admitted call uses one slot of its environment. -/
theorem activeOf_admitCall (c : Settings) (g : Gate) (environment : String)
    (budget : Option Budget) (other : String) :
    (admitCall c g environment budget).activeOf other =
      g.activeOf other + if other = environment then 1 else 0 := by
  show ((g.active.set environment _).get other).getD 0 = _
  rw [Dict.get_set]
  split_ifs with h
  · rw [h, Option.getD_some]
  · rw [add_zero]
    rfl

/-- The slots some environments hold. -/
def heldBy (g : Gate) (environments : Finset String) : ℤ :=
  ∑ environment ∈ environments, g.activeOf environment

/-- The slots some environments hold or may still claim within their shares. -/
def claimedBy (c : Settings) (g : Gate) (environments : Finset String) : ℤ :=
  ∑ environment ∈ environments,
    max (g.activeOf environment) (guarantee c g.shareOf environment)

theorem claimedBy_eq (c : Settings) (g : Gate) (environments : Finset String) :
    claimedBy c g environments =
      heldBy g environments + ∑ environment ∈ environments, unused c g environment := by
  rw [claimedBy, heldBy, ← Finset.sum_add_distrib]
  refine Finset.sum_congr rfl fun e _ => ?_
  rw [unused]
  omega

theorem claimedBy_le {c : Settings} {g g' : Gate} (hshares : g'.shareOf = g.shareOf)
    (environments : Finset String)
    (hactive : ∀ e ∈ environments, g'.activeOf e ≤ g.activeOf e ∨
      g'.activeOf e ≤ guarantee c g.shareOf e) :
    claimedBy c g' environments ≤ claimedBy c g environments := by
  apply Finset.sum_le_sum
  intro e he
  have hle := hactive e he
  rw [hshares]
  omega

/-- Below its share an environment of `environments` leaves a slot unclaimed. -/
theorem heldBy_lt {c : Settings} {g : Gate} {environments : Finset String} {environment : String}
    (hmem : environment ∈ environments)
    (hshare : g.activeOf environment < guarantee c g.shareOf environment) :
    heldBy g environments < claimedBy c g environments := by
  apply Finset.sum_lt_sum
  · intro e _
    exact le_max_left _ _
  · exact ⟨environment, hmem, lt_max_of_lt_right hshare⟩

/-- A borrower has no unused share, before and after. -/
theorem unused_borrower {c : Settings} {g g' : Gate} {environment : String}
    (hshares : g'.shareOf = g.shareOf)
    (hactive : g'.activeOf environment = g.activeOf environment + 1)
    (hshare : guarantee c g.shareOf environment ≤ g.activeOf environment) :
    unused c g' environment = 0 := by
  rw [unused, hshares, hactive]
  omega

/-! ## The clock readings -/

/-- `seen` still holds every ask the history counts as recent. -/
def SeenLaw (c : Settings) (g : Gate) : Prop :=
  ∀ environment now, lastAsk c g.history environment = some now →
    g.seen.get environment = some now

theorem seenLaw_append {c : Settings} {g g' : Gate} (h : SeenLaw c g) (added : List Effect)
    (hhistory : g'.history = added ++ g.history)
    (hadded : ∀ effect ∈ added, isArrival effect = false) (hseen : g'.seen = g.seen) :
    SeenLaw c g' := by
  intro environment now hlast
  rw [hhistory, lastAsk_append c hadded] at hlast
  rw [hseen]
  exact h environment now hlast

theorem seenLaw_ask {c : Config} {g : Gate} (h : SeenLaw c.toSettings g) (environment : String)
    (now : ℤ) : SeenLaw c.toSettings (ask g environment now) ∧
      SeenLaw c.toSettings { ask g environment now with
        seen := stillSeen c.toSettings (ask g environment now) now } := by
  have hms := recentMs_pos c
  have hlast : ∀ other asked,
      lastAsk c.toSettings (.asked environment now :: g.history) other = some asked →
      (ask g environment now).seen.get other = some asked ∧ now - recentMs c.toSettings ≤ asked := by
    intro other asked hother
    simp only [lastAsk] at hother
    simp only [ask]
    rw [Dict.get_set]
    split_ifs at hother with heq
    · rw [Option.some.injEq] at hother
      rw [if_pos heq.symm, hother]
      exact ⟨rfl, by omega⟩
    · rw [Option.filter_eq_some_iff] at hother
      rw [if_neg (Ne.symm heq), h other asked hother.1]
      exact ⟨rfl, by simpa using hother.2⟩
  refine ⟨fun other asked hother => (hlast other asked hother).1, ?_⟩
  intro other asked hother
  obtain ⟨hseen, hrecent⟩ := hlast other asked hother
  show (stillSeen c.toSettings (ask g environment now) now).get other = some asked
  rw [stillSeen, Dict.get_filter, hseen, Option.filter_some, if_pos]
  simpa using hrecent

/-- The reserve covers the unused shares of all environments that asked
recently. -/
theorem unused_le_reserve {c : Settings} {g : Gate} {environment : String} {now : ℤ}
    (hseen : SeenLaw c { g with seen := stillSeen c g now }) {environments : Finset String}
    (hrecent : ∀ e ∈ environments, e ≠ environment ∧ (lastAsk c g.history e).isSome) :
    ∑ e ∈ environments, unused c g e ≤ reserve c g environment now := by
  refine le_trans ?_ (le_max_right _ _)
  rw [Dict.sum_entries (stillSeen c g now)
    (fun e => if e ≠ environment then unused c g e else 0)]
  have hsub : environments ⊆ (stillSeen c g now).keySet := by
    intro e he
    obtain ⟨asked, hasked⟩ := Option.isSome_iff_exists.mp (hrecent e he).2
    exact Dict.mem_keySet.mpr ⟨asked, hseen e asked hasked⟩
  calc ∑ e ∈ environments, unused c g e
      = ∑ e ∈ environments, (if e ≠ environment then unused c g e else 0) :=
        Finset.sum_congr rfl fun e he => (if_pos (hrecent e he).1).symm
    _ ≤ ∑ e ∈ (stillSeen c g now).keySet, (if e ≠ environment then unused c g e else 0) := by
        apply Finset.sum_le_sum_of_subset_of_nonneg hsub
        intro e _ _
        split_ifs
        · exact unused_nonneg c g e
        · exact le_rfl

/-! ## Steps -/

structure Lawful (c : Settings) (known : Finset String) (g : Gate) : Prop where
  seen : SeenLaw c g
  active : ∀ e ∉ known, g.active.get e = none

/-- As long as nothing is borrowed, no step raises what environments hold or may
claim, whoever else is admitted. -/
def Keeps (c : Settings) (g g' : Gate) : Prop :=
  borrows g ≤ borrows g' ∧ g'.shareOf = g.shareOf ∧
    (borrows g' = borrows g → ∀ environments,
      claimedBy c g' environments ≤ claimedBy c g environments)

theorem Keeps.trans {c : Settings} {g₁ g₂ g₃ : Gate} (h : Keeps c g₁ g₂) (h' : Keeps c g₂ g₃) :
    Keeps c g₁ g₃ := by
  obtain ⟨hle, hshares, hclaimed⟩ := h
  obtain ⟨hle', hshares', hclaimed'⟩ := h'
  refine ⟨hle.trans hle', hshares'.trans hshares, fun hsame environments => ?_⟩
  exact (hclaimed' (by omega) environments).trans (hclaimed (by omega) environments)

theorem keeps_of_active {c : Settings} {g g' : Gate} (hborrows : borrows g' = borrows g)
    (hshares : g'.shareOf = g.shareOf) (hactive : ∀ e, g'.activeOf e ≤ g.activeOf e) :
    Keeps c g g' :=
  ⟨hborrows.ge, hshares, fun _ environments =>
    claimedBy_le hshares environments fun e _ => .inl (hactive e)⟩

section

variable {c : Config} {known : Finset String} {g g' : Gate}

theorem lawful_same (h : Lawful c.toSettings known g) (added : List Effect)
    (hhistory : g'.history = added ++ g.history)
    (hadded : ∀ effect ∈ added, isArrival effect = false) (hseen : g'.seen = g.seen)
    (hactive : ∀ e, g.active.get e = none → g'.active.get e = none) :
    Lawful c.toSettings known g' :=
  ⟨seenLaw_append h.seen added hhistory hadded hseen, fun e he => hactive e (h.active e he)⟩

theorem lawful_sameCalls (h : Lawful c.toSettings known g) (hsame : SameCalls g g') :
    Lawful c.toSettings known g' ∧ Keeps c.toSettings g g' := by
  obtain ⟨added, hadded, hdrain⟩ := hsame.history
  have hplain : ∀ effect ∈ added, isArrival effect = false := by
    intro effect heffect
    have hd := hdrain effect heffect
    cases effect <;> first | rfl | cases hd
  refine ⟨lawful_same h added hadded hplain hsame.seen ?_,
    keeps_of_active (borrows_append hadded hplain) hsame.shareOf ?_⟩
  · intro e he
    rw [hsame.active, he]
  · intro e
    rw [Gate.activeOf, hsame.active, Gate.activeOf]

theorem release_activeOf (g : Gate) (id : ℕ) (environment : String) :
    (release g id).activeOf environment ≤ g.activeOf environment := by
  obtain ⟨hsame, _⟩ | ⟨call, _, _, hwaiters⟩ := release_cases g id
  · rw [hsame]
  · rw [Gate.activeOf, hwaiters.active, Gate.activeOf]
    exact Dict.getD_lower_le g.active environment call.environment

theorem callRun_activeOf (hrun : CallRun g g') (environment : String) :
    g'.activeOf environment ≤ g.activeOf environment := by
  induction hrun with
  | refl g => exact le_rfl
  | mark _ _ _ ih => exact ih
  | note _ _ ih => exact ih
  | release _ ih => exact ih.trans (release_activeOf _ _ _)
  | close _ _ _ ih => exact ih.trans (release_activeOf _ _ _)

theorem lawful_callRun (h : Lawful c.toSettings known g) (hrun : CallRun g g') :
    Lawful c.toSettings known g' ∧ Keeps c.toSettings g g' := by
  obtain ⟨added, hadded, hcall⟩ := hrun.frame.history
  have hplain : ∀ effect ∈ added, isArrival effect = false := by
    intro effect heffect
    have hc := hcall effect heffect
    cases effect <;> first | rfl | cases hc
  exact ⟨lawful_same h added hadded hplain hrun.frame.seen fun e he => hrun.idle he,
    keeps_of_active (borrows_append hadded hplain) hrun.frame.shareOf (callRun_activeOf hrun)⟩

theorem lawful_ask (h : Lawful c.toSettings known g) (environment : String) (now : ℤ) :
    Lawful c.toSettings known (ask g environment now) ∧
      Lawful c.toSettings known { ask g environment now with
        seen := stillSeen c.toSettings (ask g environment now) now } := by
  obtain ⟨hask, hkept⟩ := seenLaw_ask h.seen environment now
  exact ⟨⟨hask, h.active⟩, ⟨hkept, h.active⟩⟩

theorem borrows_ask (g : Gate) (environment : String) (now : ℤ) :
    borrows (ask g environment now) = borrows g :=
  List.countP_cons_of_neg Bool.false_ne_true

theorem history_admitCall (c : Settings) (g : Gate) (environment : String)
    (budget : Option Budget) : (admitCall c g environment budget).history =
      .admitted g.calls.length environment
        (!(g.activeOf environment < guarantee c g.shareOf environment)) :: g.history := rfl

theorem lawful_admitCall (h : Lawful c.toSettings known g) {environment : String}
    (hknown : environment ∈ known) (budget : Option Budget) :
    Lawful c.toSettings known (admitCall c.toSettings g environment budget) := by
  refine ⟨fun other now hlast => h.seen other now hlast, ?_⟩
  intro e he
  show (g.active.set environment _).get e = none
  have hne : e ≠ environment := by
    rintro rfl
    exact he hknown
  rw [Dict.get_set, if_neg hne, h.active e he]

theorem keeps_admitCall (c : Settings) (g : Gate) (environment : String)
    (budget : Option Budget) : Keeps c g (admitCall c g environment budget) := by
  have hborrows : borrows (admitCall c g environment budget) =
      borrows g + if g.activeOf environment < guarantee c g.shareOf environment then 0 else 1 := by
    rw [borrows, history_admitCall, List.countP_cons, borrows]
    by_cases hshare : g.activeOf environment < guarantee c g.shareOf environment <;>
      simp [isBorrow, hshare]
  have hshares : (admitCall c g environment budget).shareOf = g.shareOf := rfl
  refine ⟨by omega, hshares, fun hsame environments => claimedBy_le hshares environments ?_⟩
  intro e _
  have hactive := activeOf_admitCall c g environment budget e
  split_ifs at hborrows with hshare
  · split_ifs at hactive with he
    · subst he
      exact .inr (by omega)
    · exact .inl (by omega)
  · omega

theorem lawful_arrives (h : Lawful c.toSettings known g) {environment : String} {aborted : Bool}
    {budget : Option Budget} {now : ℤ} (hknown : environment ∈ known)
    (harrives : Arrives c.toSettings g environment aborted budget now g') :
    Lawful c.toSettings known g' ∧ Keeps c.toSettings g g' := by
  have hask := lawful_ask h environment now
  have hsame : ∀ seen refused squeezed, Keeps c.toSettings g
      { ask g environment now with seen := seen, refused := refused, squeezed := squeezed } :=
    fun _ _ _ => keeps_of_active (borrows_ask g environment now) rfl fun _ => le_rfl
  cases harrives with
  | early =>
      exact ⟨lawful_same h [_] rfl (by simp [isArrival]) rfl fun _ he => he,
        keeps_of_active (borrows_append (List.singleton_append).symm (by simp [isArrival])) rfl
          fun _ => le_rfl⟩
  | refused hearly hseen =>
      refine ⟨?_, keeps_of_active ?_ rfl fun _ => le_rfl⟩
      · rcases hseen with rfl | rfl
        · exact ⟨hask.1.seen, hask.1.active⟩
        · exact ⟨hask.2.seen, hask.2.active⟩
      · exact (List.countP_cons_of_neg Bool.false_ne_true).trans (borrows_ask g environment now)
  | within =>
      exact ⟨lawful_admitCall hask.1 hknown budget,
        (hsame _ _ _).trans (keeps_admitCall c.toSettings _ environment budget)⟩
  | borrowed =>
      exact ⟨lawful_admitCall hask.2 hknown budget,
        (hsame _ _ _).trans (keeps_admitCall c.toSettings _ environment budget)⟩

/-- Arrivals are from `known` and the shares stay as they are. -/
def allowed (known : Finset String) : Event → Prop
  | .arrive environment _ _ _ => environment ∈ known
  | .useShares _ => False
  | _ => True

theorem lawful_step (h : Lawful c.toSettings known g) (e : Event) (he : allowed known e) :
    Lawful c.toSettings known (step c.toSettings g e) ∧
      Keeps c.toSettings g (step c.toSettings g e) := by
  have houtcome := step_outcome c.toSettings g e
  generalize step c.toSettings g e = g' at houtcome
  cases houtcome with
  | arrive harrives => exact lawful_arrives h he harrives
  | call hrun => exact lawful_callRun h hrun
  | lease hsame => exact lawful_sameCalls h hsame
  | useShares => cases he
  | pressure =>
      exact ⟨⟨h.seen, h.active⟩, keeps_of_active rfl rfl fun _ => le_rfl⟩

end

/-! ## Runs -/

/-- The gate after `events`, with the share source `shareOf` in use from the start. -/
def runWith (c : Config) (shareOf : Option (String → ShareAnswer)) (events : List Event) : Gate :=
  (machine c).run (.useShares shareOf :: events)

section

variable (c : Config) (shareOf : Option (String → ShareAnswer)) {known : Finset String}

theorem runWith_append (events later : List Event) :
    runWith c shareOf (events ++ later) = (machine c).runFrom (runWith c shareOf events) later := by
  rw [runWith, ← List.cons_append, (machine c).run_append, runWith]

theorem runWith_snoc (events : List Event) (e : Event) :
    runWith c shareOf (events ++ [e]) = step c.toSettings (runWith c shareOf events) e :=
  runWith_append c shareOf events [e]

theorem lawful_run (events : List Event) (hallowed : ∀ e ∈ events, allowed known e) :
    Lawful c.toSettings known (runWith c shareOf events) := by
  refine (machine c).runFrom_invariant_of (I := Lawful c.toSettings known) (A := allowed known)
    (fun g e he h => (lawful_step h e he).1) ?_ events hallowed
  exact ⟨fun _ _ h => (by cases h), fun _ _ => rfl⟩

theorem keeps_run (events later : List Event) (hallowed : ∀ e ∈ events, allowed known e)
    (hlater : ∀ e ∈ later, allowed known e) :
    Keeps c.toSettings (runWith c shareOf events) (runWith c shareOf (events ++ later)) := by
  induction later using List.reverseRecOn with
  | nil =>
      rw [List.append_nil]
      exact keeps_of_active rfl rfl fun _ => le_rfl
  | append_singleton later e ih =>
      simp only [List.mem_append, List.mem_singleton] at hlater
      have hbefore := ih fun e' he' => hlater e' (.inl he')
      have hlawful : Lawful c.toSettings known (runWith c shareOf (events ++ later)) := by
        apply lawful_run c shareOf
        intro e' he'
        exact (List.mem_append.mp he').elim (hallowed e') fun hmem => hlater e' (.inl hmem)
      rw [← List.append_assoc, runWith_snoc]
      exact hbefore.trans (lawful_step hlawful e (hlater e (.inr rfl))).2

/-- The total is held by the known environments. -/
theorem total_eq (events : List Event) (hallowed : ∀ e ∈ events, allowed known e)
    {kept : Finset String} (hkept : kept ⊆ known) :
    (runWith c shareOf events).total = heldBy (runWith c shareOf events) kept +
      heldBy (runWith c shareOf events) (known \ kept) := by
  have hlawful := lawful_run c shareOf events hallowed
  have hsum := (sound_pool c (.useShares shareOf :: events)).groups_sum
  have htotal : (runWith c shareOf events).total = heldBy (runWith c shareOf events) known :=
    hsum.symm.trans (Dict.sum_eq_of_subset _ hlawful.active)
  rw [htotal, heldBy, heldBy, heldBy, add_comm]
  exact (Finset.sum_sdiff hkept).symm

variable {c shareOf}

/-! ## The law of shares -/

/-- The request got the answer `refusal`. -/
def Answers (g : Gate) (environment : String) (refusal : Refusal) : Prop :=
  g.history.head? = some (.refused environment refusal)

instance (g : Gate) (environment : String) (refusal : Refusal) :
    Decidable (Answers g environment refusal) :=
  inferInstanceAs (Decidable (_ = _))

/-- A request that passes the first checks is turned away with 503. -/
def TurnedAway (c : Settings) (g : Gate) (environment : String) : Prop :=
  ∃ aborted budget now refusal, refusedEarly g environment aborted budget = none ∧
    Answers (step c g (.arrive environment aborted budget now)) environment refusal ∧
    refusal.status = 503

/-- Only a request below its share is turned away, and only by a full gate. -/
theorem turnedAway_spec {c : Settings} {g : Gate} {environment : String}
    (h : TurnedAway c g environment) :
    g.activeOf environment < guarantee c g.shareOf environment ∧ c.maximum ≤ g.total := by
  obtain ⟨aborted, budget, now, refusal, hearly, hanswer, hstatus⟩ := h
  have harrives := run_arrives c g environment aborted budget now
  simp only [step] at hanswer
  generalize run c g environment aborted budget now = g' at harrives hanswer
  cases harrives with
  | early hearly' =>
      rw [hearly] at hearly'
      cases hearly'
  | refused _ _ hfull =>
      simp only [Answers, Gate.note, List.head?_cons, Option.some.injEq,
        Effect.refused.injEq, true_and] at hanswer
      exact (hfull (hanswer ▸ hstatus)).2
  | within => cases hanswer
  | borrowed => cases hanswer

/-- While what some environments hold or may claim fits beside what the others
held, one of them is turned away only if the others hold more by now. -/
theorem outsiders_of_turnedAway {events : List Event} (hallowed : ∀ e ∈ events, allowed known e)
    {kept : Finset String} (hkept : kept ⊆ known) (outside : ℤ)
    (hfits : claimedBy c.toSettings (runWith c shareOf events) kept + outside ≤ c.maximum)
    {environment : String} (hmem : environment ∈ kept)
    (hturned : TurnedAway c.toSettings (runWith c shareOf events) environment) :
    outside < heldBy (runWith c shareOf events) (known \ kept) := by
  obtain ⟨hshare, hfull⟩ := turnedAway_spec hturned
  have htotal := total_eq c shareOf events hallowed hkept
  have hlt := heldBy_lt hmem hshare
  omega

theorem claimedBy_start (environments : Finset String) :
    claimedBy c.toSettings (runWith c shareOf []) environments =
      ∑ e ∈ environments, guarantee c.toSettings shareOf e := by
  refine Finset.sum_congr rfl fun e _ => ?_
  have hpos := guarantee_pos c shareOf e
  show max 0 (guarantee c.toSettings shareOf e) = _
  omega

/-- A borrow leaves the headroom free and the unused shares of the environments
it keeps room for. -/
theorem borrow_leaves {events : List Event} (hallowed : ∀ e ∈ events, allowed known e)
    {borrower : String} {aborted : Bool} {budget : Option Budget} {now : ℤ} {call : ℕ}
    (hborrow : (runWith c shareOf
      (events ++ [.arrive borrower aborted budget now])).history.head? =
        some (.admitted call borrower true)) :
    let g := runWith c shareOf (events ++ [.arrive borrower aborted budget now])
    headroom c.toSettings ≤ c.maximum - g.total ∧ ∀ environments : Finset String,
      (∀ e ∈ environments, e = borrower ∨ (lastAsk c.toSettings g.history e).isSome) →
        ∑ e ∈ environments, unused c.toSettings g e ≤ c.maximum - g.total := by
  have hseen := (lawful_run c shareOf events hallowed).seen
  rw [runWith_snoc] at hborrow ⊢
  generalize runWith c shareOf events = g at hseen hborrow
  have harrives := run_arrives c.toSettings g borrower aborted budget now
  simp only [step] at hborrow ⊢
  generalize run c.toSettings g borrower aborted budget now = g' at harrives hborrow
  cases harrives with
  | early => cases hborrow
  | refused => cases hborrow
  | within _ _ hshare =>
      simp only [history_admitCall, List.head?_cons, Option.some.injEq, Effect.admitted.injEq] at hborrow
      have hwithin : decide ((ask g borrower now).activeOf borrower <
          guarantee c.toSettings (ask g borrower now).shareOf borrower) = true :=
        decide_eq_true hshare
      rw [hwithin] at hborrow
      cases hborrow.2.2
  | borrowed _ _ _ hshare hroom =>
      generalize hasked : { ask g borrower now with
        seen := stillSeen c.toSettings (ask g borrower now) now } = asked
      have hactive := activeOf_admitCall c.toSettings asked borrower budget
      have hsame : ∀ e, asked.activeOf e = (ask g borrower now).activeOf e := by
        intro e
        rw [← hasked]
        rfl
      have hshares : asked.shareOf = g.shareOf := by
        rw [← hasked]
        rfl
      have htotal : (admitCall c.toSettings asked borrower budget).total = g.total + 1 := by
        rw [← hasked]
        rfl
      have hheadroom : headroom c.toSettings ≤
          reserve c.toSettings (ask g borrower now) borrower now := le_max_left _ _
      refine ⟨by omega, fun environments hrecent => ?_⟩
      have hothers : ∀ e ∈ environments.erase borrower, e ≠ borrower ∧
          (lastAsk c.toSettings (ask g borrower now).history e).isSome := by
        intro e he
        obtain ⟨hne, hmem⟩ := Finset.mem_erase.mp he
        have hlast := (hrecent e hmem).resolve_left hne
        rw [history_admitCall, ← hasked] at hlast
        exact ⟨hne, hlast⟩
      have hcovered := unused_le_reserve (seenLaw_ask hseen borrower now).2 hothers
      have hborrower : unused c.toSettings (admitCall c.toSettings asked borrower budget) borrower = 0 :=
        unused_borrower (g := asked) rfl (by rw [hactive, if_pos rfl])
          (by rw [hshares, hsame]; exact hshare)
      have hresult : (admitCall c.toSettings asked borrower budget).shareOf =
          (ask g borrower now).shareOf := hshares
      rw [← Finset.sum_erase environments hborrower]
      have hrest : ∀ e ∈ environments.erase borrower,
          unused c.toSettings (admitCall c.toSettings asked borrower budget) e =
            unused c.toSettings (ask g borrower now) e := by
        intro e he
        refine unused_congr hresult ?_
        rw [hactive, if_neg (Finset.mem_erase.mp he).1, add_zero, hsame]
      have hsum : ∑ e ∈ environments.erase borrower,
          unused c.toSettings (admitCall c.toSettings asked borrower budget) e =
            ∑ e ∈ environments.erase borrower, unused c.toSettings (ask g borrower now) e :=
        Finset.sum_congr rfl hrest
      omega

/-- The shares of the environments a borrow keeps room for, right after it. -/
theorem fits_after_borrow {events : List Event} (hallowed : ∀ e ∈ events, allowed known e)
    {borrower : String} (hknown : borrower ∈ known) {aborted : Bool} {budget : Option Budget}
    {now : ℤ} {call : ℕ}
    (hborrow : (runWith c shareOf
      (events ++ [.arrive borrower aborted budget now])).history.head? =
        some (.admitted call borrower true)) :
    let g := runWith c shareOf (events ++ [.arrive borrower aborted budget now])
    let kept := keptFor c.toSettings known borrower g.history
    claimedBy c.toSettings g kept + heldBy g (known \ kept) ≤ c.maximum := by
  intro g kept
  have hall : ∀ e ∈ events ++ [.arrive borrower aborted budget now], allowed known e := by
    intro e he
    rcases List.mem_append.mp he with hmem | hmem
    · exact hallowed e hmem
    · rw [List.mem_singleton.mp hmem]
      exact hknown
  have htotal := total_eq c shareOf _ hall
    (Finset.filter_subset (fun e => e = borrower ∨ (lastAsk c.toSettings g.history e).isSome) known)
  have hunused := (borrow_leaves hallowed hborrow).2 kept fun e he => (Finset.mem_filter.mp he).2
  rw [claimedBy_eq]
  change g.total = heldBy g kept + heldBy g (known \ kept) at htotal
  change ∑ e ∈ kept, unused c.toSettings g e ≤ c.maximum - g.total at hunused
  omega

end

/-- Until the first borrow no environment is turned away below its share. A borrow
leaves free the headroom and the unused shares of all other environments that
asked recently; until the next borrow one of these, or the borrower, is turned
away only while environments from outside hold more slots than they did at that
borrow. -/
theorem kept_shares (c : Config) (shareOf : Option (String → ShareAnswer))
    (known : Finset String) (hsum : ∑ e ∈ known, guarantee c.toSettings shareOf e ≤ c.maximum)
    (events : List Event) (hallowed : ∀ e ∈ events, allowed known e) :
    (borrows (runWith c shareOf events) = 0 →
      ∀ environment ∈ known, ¬ TurnedAway c.toSettings (runWith c shareOf events) environment) ∧
    ∀ borrower ∈ known, ∀ aborted budget now call,
      let borrowed := events ++ [.arrive borrower aborted budget now]
      let g := runWith c shareOf borrowed
      let kept := keptFor c.toSettings known borrower g.history
      g.history.head? = some (.admitted call borrower true) →
        headroom c.toSettings ≤ c.maximum - g.total ∧
        ∑ e ∈ kept, unused c.toSettings g e ≤ c.maximum - g.total ∧
        ∀ later, (∀ e ∈ later, allowed known e) →
          borrows (runWith c shareOf (borrowed ++ later)) = borrows g →
          ∀ environment ∈ kept,
            TurnedAway c.toSettings (runWith c shareOf (borrowed ++ later)) environment →
            heldBy g (known \ kept) < heldBy (runWith c shareOf (borrowed ++ later)) (known \ kept) := by
  constructor
  · intro hborrows environment hmem hturned
    have hkeeps := keeps_run c shareOf [] events (by simp) hallowed
    have hclaimed := hkeeps.2.2 hborrows known
    rw [claimedBy_start, List.nil_append] at hclaimed
    have houtside := outsiders_of_turnedAway hallowed (Finset.Subset.refl known) 0
      (by omega) hmem hturned
    rw [Finset.sdiff_self, heldBy, Finset.sum_empty] at houtside
    omega
  · intro borrower hknown aborted budget now call borrowed g kept hborrow
    have hall : ∀ e ∈ borrowed, allowed known e := by
      intro e he
      rcases List.mem_append.mp he with hmem | hmem
      · exact hallowed e hmem
      · rw [List.mem_singleton.mp hmem]
        exact hknown
    have hleaves := borrow_leaves hallowed hborrow
    refine ⟨hleaves.1, hleaves.2 kept fun e he => (Finset.mem_filter.mp he).2, ?_⟩
    intro later hlater hborrows environment hmem hturned
    have hfits := fits_after_borrow hallowed hknown hborrow
    have hclaimed := (keeps_run c shareOf borrowed later hall hlater).2.2
      hborrows kept
    refine outsiders_of_turnedAway ?_ (Finset.filter_subset _ _) _ (le_trans ?_ hfits) hmem hturned
    · intro e he
      exact (List.mem_append.mp he).elim (hall e) (hlater e)
    · exact Int.add_le_add_right hclaimed _

/-- A gate with room for three and one slot of headroom. -/
def smallConfig : Config where
  perEnvironment := 1
  maximum := 3
  responseTimeoutMs := 30000
  forwardTimeoutMs := 30000
  borrow := some ⟨2, 1, none⟩
  checked := by decide

theorem kept_shares_small : ¬ TurnedAway smallConfig.toSettings
      (runWith smallConfig none [.arrive "a" false none 0]) "b" :=
  (kept_shares smallConfig none {"a", "b"} (by decide) [.arrive "a" false none 0]
    (by simp [allowed])).1 (by decide) "b" (by decide)

/-- The promise without regard to environments that wake: whoever asked within
`recentMs` and is below its share is not turned away for want of room. -/
def KeepsWholeShare (c : Config) : Prop :=
  ∀ (shareOf : Option (String → ShareAnswer)) (known : Finset String),
    ∑ e ∈ known, guarantee c.toSettings shareOf e ≤ c.maximum →
    ∀ events : List Event, (∀ e ∈ events, allowed known e) →
    ∀ environment ∈ known, ∀ (aborted : Bool) (budget : Option Budget) (now : ℤ),
      let g := runWith c shareOf events
      (∃ asked, .asked environment asked ∈ g.history ∧ now - recentMs c.toSettings ≤ asked) →
      g.activeOf environment < guarantee c.toSettings shareOf environment →
      refusedEarly g environment aborted budget = none →
      serviceFull g environment budget = false →
      ∀ refusal, Answers (step c.toSettings g (.arrive environment aborted budget now))
        environment refusal → refusal.status ≠ 503

/-- `b` asked and its call ended. `a` borrows: the two free slots exceed both the
headroom and the unused share of `b`, which are not added. `c` wakes and takes
the slot that was left for `b`. -/
theorem not_keepsWholeShare : ¬ ∀ c : Config, c.borrow ≠ none → KeepsWholeShare c := by
  intro h
  have hb := h smallConfig (by decide) none {"a", "b", "c"} (by decide)
    [.arrive "b" false none 0, .headerDeadline 0, .continueRun 0, .arrive "a" false none 1,
      .arrive "a" false none 2, .arrive "c" false none 3] (by simp [allowed]) "b" (by decide)
    false none 4 ⟨0, by decide, by decide⟩ (by decide) rfl rfl .full (by decide)
  exact hb rfl

end Sbarbase.Gateway.Proofs.Borrowing
