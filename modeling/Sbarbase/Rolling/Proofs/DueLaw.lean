import Mathlib.Tactic.SplitIfs
import Mathlib.Tactic.Tauto
import Sbarbase.Rolling.Due
/-!
# The check against the roll

What a roll goes on to replace is an environment that waits, is free and is not
fenced. `due` looks at the same entries but not at the fence, and a roll takes
back a skipped entry whatever holds its environment: the two agree exactly where
neither of these decides.
-/

namespace Sbarbase.Rolling.Proofs.DueLaw

open Rolling

variable {swap : String → Service → Swapped} {s : Situation} {plan : Plan}

/-! ## Entries -/

theorem entries_change (e : String) (service : Service) (f : Entry → Entry) :
    (plan.change e service f).entries = plan.entries.map fun found =>
      if found.1 = e ∧ found.2.service = service then (found.1, f found.2) else found := by
  simp only [Plan.entries, Plan.change, List.flatMap_map, List.map_flatMap, List.map_map]
  congr 1
  funext environment
  apply List.map_congr_left
  intro entry _
  simp only [Function.comp_apply]
  split_ifs <;> rfl

/-- Taking an entry back makes it wait and no other. -/
theorem waits_takeBack {e e' : String} {service service' : Service}
    (hmem : ∃ found ∈ plan.entries, found.1 = e' ∧ found.2.service = service') :
    (plan.change e' service' fun entry => { entry with state := .old, reason := none }).waits e service =
      true ↔ plan.waits e service = true ∨ (e, service) = (e', service') := by
  simp only [Plan.waits, entries_change, List.any_map, List.any_eq_true, Function.comp_apply,
    Bool.and_eq_true, decide_eq_true_eq, Prod.mk.injEq]
  constructor
  · rintro ⟨found, hfound, h⟩
    split_ifs at h with hkey
    · exact .inr ⟨h.1.1.symm.trans hkey.1, h.1.2.symm.trans hkey.2⟩
    · exact .inl ⟨found, hfound, h⟩
  · rintro (⟨found, hfound, hkey, hold⟩ | ⟨rfl, rfl⟩)
    · refine ⟨found, hfound, ?_⟩
      split_ifs
      · exact ⟨hkey, rfl⟩
      · exact ⟨hkey, hold⟩
    · obtain ⟨found, hfound, hkey⟩ := hmem
      refine ⟨found, hfound, ?_⟩
      rw [if_pos hkey]
      exact ⟨hkey, rfl⟩

/-- What waits once the skipped entries were taken back. -/
theorem waits_revive {found : List (String × Service)} {e : String} {service : Service}
    (hmem : ∀ pair ∈ found, ∃ entry ∈ plan.entries, entry.1 = pair.1 ∧ entry.2.service = pair.2) :
    (plan.revive found).waits e service = true ↔
      plan.waits e service = true ∨ (e, service) ∈ found := by
  unfold Plan.revive
  induction found generalizing plan with
  | nil => simp
  | cons pair found ih =>
      rw [List.foldl_cons, ih, waits_takeBack (hmem pair List.mem_cons_self), List.mem_cons, or_assoc]
      intro other hother
      obtain ⟨entry, hentry, hkey⟩ := hmem other (List.mem_cons_of_mem _ hother)
      rw [entries_change]
      refine ⟨_, List.mem_map_of_mem hentry, ?_⟩
      split_ifs <;> exact hkey

theorem mem_revivable {running : String → Service → Bool} {limit : ℕ} {pair : String × Service}
    (h : pair ∈ revivable running plan limit) :
    ∃ entry ∈ plan.entries, entry.1 = pair.1 ∧ entry.2.service = pair.2 := by
  obtain ⟨htaken, _⟩ := List.mem_filter.mp h
  obtain ⟨entry, hentry, rfl⟩ := List.mem_map.mp htaken
  exact ⟨entry, (List.mem_filter.mp (List.mem_of_mem_take hentry)).1, rfl, rfl⟩

theorem waiting_ne_nil {e : String} :
    plan.waiting e ≠ [] ↔ ∃ service, plan.waits e service = true := by
  rw [Plan.waiting, Ne, List.filter_eq_nil_iff]
  push Not
  constructor
  · rintro ⟨service, _, h⟩
    exact ⟨service, h⟩
  · rintro ⟨service, h⟩
    exact ⟨service, by cases service <;> simp, h⟩

/-- The environments are asked in an order, the canary first, and none is left out. -/
theorem mem_order {wanted e : String} :
    e ∈ (order plan wanted).2 ↔ e ∈ plan.environments.map Prod.fst := by
  have hnames : e ∈ (plan.environments.map Prod.fst).mergeSort (fun a b => decide (a ≤ b)) ↔
      e ∈ plan.environments.map Prod.fst :=
    (List.mergeSort_perm _ _).mem_iff
  have hfirst : ∀ canary (names : List String), canary ∈ names →
      (e ∈ canary :: names.filter (fun e => e ≠ canary) ↔ e ∈ names) := by
    intro canary names hcanary
    rw [List.mem_cons, List.mem_filter, decide_eq_true_eq]
    constructor
    · rintro (rfl | ⟨h, _⟩)
      · exact hcanary
      · exact h
    · intro h
      by_cases heq : e = canary
      · exact .inl heq
      · exact .inr ⟨h, heq⟩
  rw [← hnames]
  unfold order
  generalize (plan.environments.map Prod.fst).mergeSort (fun a b => decide (a ≤ b)) = names
  have hchosen : ∀ canary, (if names.contains wanted then some wanted else names.head?) = some canary →
      canary ∈ names := by
    intro canary h
    split_ifs at h with hwanted
    · exact Option.some.inj h ▸ List.contains_iff_mem.mp hwanted
    · exact List.mem_of_head? h
  dsimp only
  split
  next canary hcanary =>
    apply hfirst
    split at hcanary
    · split_ifs at hcanary with hkept hwanted
      · exact Option.some.inj hcanary ▸ List.contains_iff_mem.mp hkept
      · exact hchosen canary (by rw [if_pos hwanted]; exact hcanary)
      · exact hchosen canary (by rw [if_neg hwanted]; exact hcanary)
    · exact hchosen canary hcanary
  next => exact Iff.rfl

theorem mem_environments {e : String} {service : Service} (h : plan.waits e service = true) :
    e ∈ plan.environments.map Prod.fst := by
  simp only [Plan.waits, Plan.entries, List.any_eq_true, List.mem_flatMap, List.mem_map] at h
  obtain ⟨found, ⟨environment, henvironment, entry, _, rfl⟩, hkey⟩ := h
  simp only [Bool.and_eq_true, decide_eq_true_eq] at hkey
  exact List.mem_map.mpr ⟨environment, henvironment, hkey.1.1⟩

/-! ## The condition -/

/-- The environment has an entry on its previous pin, or one that is taken back. -/
def Waits (s : Situation) (plan : Plan) (e : String) : Prop :=
  ∃ service, plan.waits e service = true ∨ (e, service) ∈ revivable s.running plan SKIP_RECHECK_MAX

/-- Paused, held, unpublished or fenced. -/
def Blocked (s : Situation) (e : String) : Prop :=
  s.paused e = true ∨ e ∈ s.held ∨ s.published e = false ∨ s.fenced e = true

/-- The check says what the roll does, and an environment that is blocked never
makes it say so. -/
def Agrees (swap : String → Service → Swapped) (s : Situation) : Prop :=
  (due s true = true ↔ (rollOnce swap s).Acts) ∧
    (s.record = none → (∀ plan ∈ s.plan, ∀ e, Waits s plan e → Blocked s e) → due s true = false)

/-- Of the environments that wait and are free one is not fenced, if there are
any, and without any no skipped entry is taken back. -/
def FreeToRoll (s : Situation) : Prop :=
  s.record = none → ∀ plan ∈ s.plan, plan.stopped = none →
    ((∃ e, Waits s plan e ∧ s.free e = true) →
      ∃ e, Waits s plan e ∧ s.free e = true ∧ s.fenced e = false) ∧
    ((∃ e, Waits s plan e ∧ s.free e = true) ∨ revivable s.running plan SKIP_RECHECK_MAX = [])

/-- Without a record the check asks for a free environment that waits. -/
theorem due_iff (hrecord : s.record = none) (hplan : s.plan = some plan) (hstopped : plan.stopped = none) :
    due s true = true ↔ ∃ e, Waits s plan e ∧ s.free e = true := by
  rw [due, hrecord, hplan]
  dsimp only
  rw [hstopped, if_neg (by simp), if_neg (by simp), if_pos rfl]
  constructor
  · intro h
    split_ifs at h with hold
    · obtain ⟨found, hfound, hkey⟩ := List.any_eq_true.mp hold
      rw [Bool.and_eq_true, decide_eq_true_eq] at hkey
      refine ⟨found.1, ⟨found.2.service, .inl ?_⟩, hkey.2⟩
      simp only [Plan.waits, List.any_eq_true, Bool.and_eq_true, decide_eq_true_eq]
      exact ⟨found, hfound, ⟨rfl, rfl⟩, hkey.1⟩
    · obtain ⟨found, hfound, hfree⟩ := List.any_eq_true.mp h
      exact ⟨found.1, ⟨found.2, .inr hfound⟩, hfree⟩
  · rintro ⟨e, ⟨service, hold | hskipped⟩, hfree⟩
    · rw [if_pos]
      simp only [Plan.waits, List.any_eq_true, Bool.and_eq_true, decide_eq_true_eq] at hold ⊢
      obtain ⟨found, hfound, hkey, hstate⟩ := hold
      exact ⟨found, hfound, hstate, hkey.1 ▸ hfree⟩
    · split_ifs
      · rfl
      · exact List.any_eq_true.mpr ⟨_, hskipped, hfree⟩

/-- A roll goes on with a free environment that waits and is not fenced. -/
theorem tried_iff (hrecord : s.record = none) (hplan : s.plan = some plan) (hstopped : plan.stopped = none) :
    (rollOnce swap s).tried.isSome = true ↔
      ∃ e, Waits s plan e ∧ s.free e = true ∧ s.fenced e = false := by
  have hheld : s.heldAfter = s.held := by rw [Situation.heldAfter, hrecord]
  have hwaits : ∀ e, Waits s plan e ↔
      (plan.revive (revivable s.running plan SKIP_RECHECK_MAX)).waiting e ≠ [] := by
    intro e
    rw [waiting_ne_nil, Waits]
    exact exists_congr fun service => (waits_revive fun pair h => mem_revivable h).symm
  have hmem : ∀ e, Waits s plan e → e ∈ (order
      (plan.revive (revivable s.running plan SKIP_RECHECK_MAX)) s.wantedCanary).2 := by
    intro e h
    obtain ⟨service, hservice⟩ := waiting_ne_nil.mp ((hwaits e).mp h)
    exact mem_order.mpr (mem_environments hservice)
  have hfind : (rollOnce swap s).tried.isSome = true ↔
      ∃ e ∈ (order (plan.revive (revivable s.running plan SKIP_RECHECK_MAX)) s.wantedCanary).2,
        Waits s plan e ∧ s.free e = true ∧ s.fenced e = false := by
    have hone : ∀ e, (decide ((plan.revive (revivable s.running plan SKIP_RECHECK_MAX)).waiting e ≠ []) &&
        !(s.held.contains e || !s.published e || s.paused e) && !s.fenced e) = true ↔
        Waits s plan e ∧ s.free e = true ∧ s.fenced e = false := by
      intro e
      rw [hwaits e, Situation.free]
      simp only [Bool.and_eq_true, decide_eq_true_eq, Bool.not_eq_true', Bool.or_eq_false_iff]
      cases s.published e
      · simp
      · simp
        tauto
    simp only [← hone, ← List.find?_isSome]
    rw [rollOnce, hplan]
    dsimp only
    rw [hstopped, if_neg (by simp), hheld]
    split
    next hnone =>
      have hfound := congrArg Option.isSome hnone
      exact ⟨(fun h => nomatch h), fun h => absurd (hfound.symm.trans h) Bool.false_ne_true⟩
    next e hsome =>
      have hfound := congrArg Option.isSome hsome
      exact ⟨fun _ => hfound, fun _ => by split_ifs <;> rfl⟩
  rw [hfind]
  constructor
  · rintro ⟨e, _, h⟩
    exact ⟨e, h⟩
  · rintro ⟨e, h⟩
    exact ⟨e, hmem e h.1, h⟩

theorem revived_eq (hplan : s.plan = some plan) (hstopped : plan.stopped = none) :
    (rollOnce swap s).revived = revivable s.running plan SKIP_RECHECK_MAX := by
  rw [rollOnce, hplan]
  dsimp only
  rw [hstopped, if_neg (by simp)]
  split
  · rfl
  · split_ifs <;> rfl

theorem settled_eq : (rollOnce swap s).settled = s.record.isSome := by
  rw [rollOnce]
  dsimp only
  split
  · rfl
  · split_ifs
    · rfl
    · split
      · rfl
      · split_ifs <;> rfl

/-- An environment that waits and is not blocked is free and not fenced. -/
theorem not_blocked_iff {e : String} : ¬ Blocked s e ↔ s.free e = true ∧ s.fenced e = false := by
  simp only [Blocked, Situation.free, not_or, Bool.and_eq_true, Bool.not_eq_true', Bool.not_eq_true,
    Bool.not_eq_false, List.contains_eq_mem, decide_eq_false_iff_not]
  tauto

/-- What waits is free (`waits`), some of it not fenced (`rolls`), and entries may be
taken back besides. -/
theorem agrees_iff {waits rolls : Prop} {revived : List (String × Service)} (h : rolls → waits) :
    ((waits ↔ revived ≠ [] ∨ rolls) ∧ (¬ rolls → ¬ waits)) ↔
      (waits → rolls) ∧ (waits ∨ revived = []) := by
  by_cases hrolls : rolls
  · simp [h hrolls, hrolls]
  · by_cases hwaits : waits
    · simp [hwaits, hrolls]
    · simp [hwaits, hrolls]

/-- The check and the roll agree exactly where no fence alone keeps the roll from
an environment the check finds free, and no entry is taken back for one that is
not free alone. -/
theorem due_law (swap : String → Service → Swapped) (s : Situation) :
    Agrees swap s ↔ FreeToRoll s := by
  unfold Agrees FreeToRoll Roll.Acts
  rw [settled_eq]
  cases hrecord : s.record with
  | some recorded =>
      have hdue : due s true = true := by rw [due, hrecord]; rfl
      simp [hdue]
  | none =>
      cases hplan : s.plan with
      | none =>
          have hdue : due s true = false := by rw [due, hrecord, hplan]; rfl
          simp [hdue, rollOnce, hplan]
      | some plan =>
          cases hstopped : plan.stopped with
          | some text =>
              have hdue : due s true = false := by
                rw [due, hrecord, hplan]
                dsimp only
                rw [hstopped]
                rfl
              simp [hdue, rollOnce, hplan, hstopped]
          | none =>
              have hdue := due_iff hrecord hplan hstopped
              rw [hdue, tried_iff hrecord hplan hstopped, revived_eq hplan hstopped,
                ← Bool.not_eq_true, hdue]
              have hblocked : (∀ e, Waits s plan e → Blocked s e) ↔
                  ¬ ∃ e, Waits s plan e ∧ s.free e = true ∧ s.fenced e = false := by
                simp only [← not_blocked_iff]
                push Not
                exact Iff.rfl
              have hunfenced : (∃ e, Waits s plan e ∧ s.free e = true ∧ s.fenced e = false) →
                  ∃ e, Waits s plan e ∧ s.free e = true := fun ⟨e, hwaits, hfree, _⟩ => ⟨e, hwaits, hfree⟩
              simp only [Option.mem_some_iff, forall_eq', forall_const, Option.isSome_none,
                Bool.false_eq_true, false_or, hblocked, hstopped]
              exact agrees_iff hunfenced

/-- An environment on its previous pin, moved or restored meanwhile. -/
def fencedEnvironment : Situation where
  record := none
  held := []
  plan := some
    { environments := [("e_000000000000000000000001", [⟨.rest, .old, "sha256:a", "sha256:b", none⟩])]
      stopped := none
      canary := none }
  published _ := true
  paused _ := false
  fenced _ := true
  running _ _ := true
  locked _ := false
  wantedCanary := ""

/-- The check asks for a roll that finds nothing to do. -/
theorem fenced_is_due : due fencedEnvironment true = true ∧
      (rollOnce (fun _ _ => .replaced) fencedEnvironment).code = .idle ∧
      ¬ Agrees (fun _ _ => .replaced) fencedEnvironment := by
  refine ⟨by decide +kernel, by decide +kernel, fun h => ?_⟩
  exact absurd (h.1.mp (by decide +kernel)) (by decide +kernel)

end Sbarbase.Rolling.Proofs.DueLaw
