import Mathlib.Algebra.Order.Group.Int
import Mathlib.Data.List.MinMax
import Sbarbase.Database.ExternalGuard
/-!
# What the guard promises

The attempts, the failed passwords and the open sessions are three invariants, for
no call changes the maps of two of them.
-/

namespace Sbarbase.Database.Proofs.GuardLaw

open Lib ExternalGuard

variable {Close : Type*}

/-! ## What the calls say -/

section

variable {runtime remote : String} {past : List (Entry Close)} {entry : Entry Close}

theorem snoc_eq_split {α : Type*} {past before after : List α} {last entry : α}
    (h : past ++ [last] = before ++ entry :: after) :
    (before = past ∧ entry = last) ∨ ∃ rest, past = before ++ entry :: rest := by
  rcases List.eq_nil_or_concat after with rfl | ⟨rest, final, rfl⟩
  · left
    obtain ⟨hbefore, hlast⟩ := List.append_inj' h rfl
    exact ⟨hbefore.symm, (List.cons.inj hlast).1.symm⟩
  · right
    rw [List.concat_eq_append, ← List.cons_append, ← List.append_assoc] at h
    exact ⟨rest, (List.append_inj' h rfl).1⟩

theorem accepted_snoc :
    accepted (past ++ [entry]) = accepted past ++ (entry.accepted.map Prod.snd).toList := by
  rw [accepted, List.filterMap_append]
  rfl

theorem acceptedOf_snoc : acceptedOf remote (past ++ [entry]) =
    acceptedOf remote past ++ ((entry.accepted.filter (·.1 = remote)).map Prod.snd).toList := by
  rw [acceptedOf, List.filterMap_append]
  rfl

theorem mem_accepted_le {latest : ℤ} (h : ∀ entry ∈ past, (entry.now : ℤ) ≤ latest) :
    ∀ time ∈ accepted past, time ≤ latest := by
  intro time htime
  obtain ⟨entry, hentry, hsome⟩ := List.mem_filterMap.mp htime
  have hnow : (entry.now : ℤ) = time := by
    unfold Entry.accepted at hsome
    split at hsome
    · exact Option.some.inj hsome
    · exact (nomatch hsome)
  exact hnow ▸ h entry hentry

theorem badPasswords_snoc : badPasswords runtime (past ++ [entry]) =
    badPasswords runtime past ++ badPasswords runtime [entry] :=
  List.filterMap_append

theorem failures_snoc_bad {limits : GuardLimits} {other : String}
    (hcall : entry.call = .outcome other remote .badPassword) :
    failures limits runtime (past ++ [entry]) =
      if other = runtime then (failures limits runtime past).add limits entry.now
      else failures limits runtime past := by
  have hone : badPasswords runtime [entry] = if other = runtime then [(entry.now : ℤ)] else [] := by
    by_cases hother : other = runtime
    · simp [badPasswords, hcall, hother]
    · simp [badPasswords, hcall, hother]
  rw [failures, badPasswords_snoc, hone, List.foldl_append]
  by_cases hother : other = runtime
  · rw [if_pos hother, if_pos hother]
    rfl
  · rw [if_neg hother, if_neg hother]
    rfl

theorem failures_snoc {limits : GuardLimits}
    (hcall : ∀ other remote, entry.call ≠ .outcome other remote .badPassword) :
    failures limits runtime (past ++ [entry]) = failures limits runtime past := by
  have hnone : badPasswords runtime [entry] = [] := by
    unfold badPasswords
    rw [List.filterMap_cons]
    split
    · rfl
    · rename_i hsome
      split at hsome
      · exact absurd ‹_› (hcall _ _)
      · exact (nomatch hsome)
  rw [failures, badPasswords_snoc, hnone, List.append_nil]
  rfl

theorem acceptedOf_subset : acceptedOf remote past ⊆ accepted past := by
  intro time htime
  obtain ⟨entry, hentry, hsome⟩ := List.mem_filterMap.mp htime
  refine List.mem_filterMap.mpr ⟨entry, hentry, ?_⟩
  obtain ⟨pair, hpair, rfl⟩ := Option.map_eq_some_iff.mp hsome
  rw [(Option.filter_eq_some_iff.mp hpair).1]
  rfl

end

/-! ## What a call leaves alone -/

theorem accept_eq (limits : GuardLimits) (guard : ExternalGuard Close) (remote : String) (now : ℤ) :
    ∃ address total,
      (guard.accept limits remote now).2 = { guard with address := address, total := total } := by
  unfold ExternalGuard.accept
  dsimp only
  split_ifs <;> exact ⟨_, _, rfl⟩

theorem admitRuntime_eq (guard : ExternalGuard Close) (runtime : String) (now : ℤ)
    (enabled : Option Bool) :
    ∃ locked, (guard.admitRuntime runtime now enabled).2 = { guard with locked := locked } := by
  unfold ExternalGuard.admitRuntime
  dsimp only
  split_ifs
  · exact ⟨_, rfl⟩
  all_goals
    rcases enabled with _ | on
    · exact ⟨_, rfl⟩
    · cases on <;> exact ⟨_, rfl⟩

theorem outcome_eq (limits : GuardLimits) (guard : ExternalGuard Close) (runtime : String)
    (result : Outcome) (now : ℤ) :
    ∃ failed locked, guard.outcome limits runtime result now =
      { guard with failed := failed, locked := locked } := by
  cases result with
  | ok => exact ⟨_, _, rfl⟩
  | badPassword =>
      unfold ExternalGuard.outcome
      dsimp only
      split_ifs <;> exact ⟨_, _, rfl⟩

/-- A lock that still holds stays when `admit` looks at it. -/
theorem lock_kept (guard : ExternalGuard Close) (runtime other : String) (now lock : ℤ)
    (enabled : Option Bool) (hlate : now < lock)
    (hlock : lock ≤ (guard.locked.get other).getD 0) :
    lock ≤ ((guard.admitRuntime runtime now enabled).2.locked.get other).getD 0 := by
  unfold ExternalGuard.admitRuntime
  by_cases hheld : (guard.locked.get runtime).getD 0 ≠ 0 ∧ (guard.locked.get runtime).getD 0 > now
  · simp only [if_pos hheld]
    exact hlock
  · have hother : (guard.locked.get runtime).getD 0 ≠ 0 → other ≠ runtime := by
      rintro hsome rfl
      exact hheld ⟨hsome, hlate.trans_le hlock⟩
    have hkept : lock ≤ (((if (guard.locked.get runtime).getD 0 ≠ 0 then
          { guard with locked := guard.locked.delete runtime }
        else guard).locked.get other).getD 0) := by
      by_cases hsome : (guard.locked.get runtime).getD 0 ≠ 0
      · rw [if_pos hsome, Dict.get_delete, if_neg (hother hsome)]
        exact hlock
      · rw [if_neg hsome]
        exact hlock
    simp only [if_neg hheld]
    cases enabled with
    | none => exact hkept
    | some on => cases on <;> exact hkept

/-! ## The sessions -/

/-- The sessions that end while the calls of a list run. -/
def endedBy (during : String → Close → List (String × Close)) (calls : List (String × Close)) :
    List (String × Close) :=
  calls.flatMap fun call => during call.1 call.2

theorem mem_endedBy {during : String → Close → List (String × Close)}
    {calls : List (String × Close)} {pair : String × Close} :
    pair ∈ endedBy during calls ↔ ∃ call ∈ calls, pair ∈ during call.1 call.2 :=
  List.mem_flatMap

/-- The runtime of an open session is an entry of the map. -/
theorem mem_runtimes {guard : ExternalGuard Close} {runtime : String} {close : Close}
    (h : close ∈ guard.closesOf runtime) :
    runtime ∈ guard.sessions.rows.map (·.runtime) := by
  unfold closesOf at h
  cases hget : guard.sessions.get runtime with
  | none => simp [hget] at h
  | some set =>
      obtain ⟨hmem, rfl⟩ := Table.get_eq_some.mp hget
      exact List.mem_map_of_mem hmem

variable [DecidableEq Close]

section

variable {guard : ExternalGuard Close} {runtime other : String} {close : Close}

theorem closesOf_session : (guard.session runtime close).closesOf other =
      if runtime = other then
        if close ∈ guard.closesOf runtime then guard.closesOf runtime
        else guard.closesOf runtime ++ [close]
      else guard.closesOf other := by
  rw [closesOf, session, Table.get_put]
  by_cases hother : runtime = other
  · rw [if_pos hother, if_pos hother]
    rfl
  · rw [if_neg hother, if_neg hother]
    rfl

theorem closesOf_release : (guard.release runtime close).closesOf other =
      if runtime = other then (guard.closesOf runtime).filter (· ≠ close)
      else guard.closesOf other := by
  have hset : guard.closesOf runtime = ((guard.sessions.get runtime).map (·.closes)).getD [] := rfl
  rw [closesOf, release, hset]
  cases hget : guard.sessions.get runtime with
  | none =>
      by_cases hother : runtime = other
      · subst hother
        rw [if_pos rfl]
        simp [hget]
      · rw [if_neg hother]
        rfl
  | some set =>
      simp only [Option.map_some, Option.getD_some]
      by_cases hempty : (set.closes.filter (· ≠ close)).length = 0
      · rw [if_pos hempty, List.length_eq_zero_iff.mp hempty]
        have hkeep := guard.sessions.get_keep_key (fun key => decide (key ≠ runtime)) other
        rw [hkeep]
        by_cases hother : runtime = other
        · subst hother
          simp
        · rw [if_neg hother, if_pos (decide_eq_true (Ne.symm hother))]
          rfl
      · rw [if_neg hempty, Table.get_put]
        by_cases hother : runtime = other
        · rw [if_pos hother, if_pos hother]
          rfl
        · rw [if_neg hother, if_neg hother]
          rfl

/-- The sessions of a list end, one after the other. -/
def releases (guard : ExternalGuard Close) (pairs : List (String × Close)) : ExternalGuard Close :=
  pairs.foldl (fun guard ended => guard.release ended.1 ended.2) guard

theorem mem_closesOf_releases {pairs : List (String × Close)} :
    close ∈ (releases guard pairs).closesOf runtime ↔
      close ∈ guard.closesOf runtime ∧ (runtime, close) ∉ pairs := by
  induction pairs generalizing guard with
  | nil => simp [releases]
  | cons pair pairs ih =>
      obtain ⟨ended, last⟩ := pair
      have hstep : releases guard ((ended, last) :: pairs) =
        releases (guard.release ended last) pairs := rfl
      rw [hstep, ih, closesOf_release]
      by_cases hother : ended = runtime
      · subst hother
        simp only [if_pos, List.mem_filter, decide_eq_true_eq, List.mem_cons, Prod.mk.injEq,
          true_and, not_or, and_assoc]
      · have hne : ¬ ((runtime, close) = (ended, last)) := by
          rintro ⟨⟩
          exact hother rfl
        rw [if_neg hother, List.mem_cons, not_or]
        simp only [hne, not_false_eq_true, true_and]

/-- Ending sessions changes the map of sessions and the interval only. -/
theorem releases_eq (guard : ExternalGuard Close) (pairs : List (String × Close)) :
    ∃ sessions sweeper,
      releases guard pairs = { guard with sessions := sessions, sweeper := sweeper } := by
  induction pairs generalizing guard with
  | nil => exact ⟨_, _, rfl⟩
  | cons pair pairs ih =>
      obtain ⟨sessions, sweeper, h⟩ := ih (guard.release pair.1 pair.2)
      exact ⟨sessions, sweeper, h⟩

end

/-! ## The sweep -/

section

variable {guard : ExternalGuard Close} {enabled : String → Option Bool}
  {during : String → Close → List (String × Close)}

/-- What holds while the loop runs: the guard is the one before with the sessions ended
that the calls so far end, and each call is of a session that was open and whose
runtime is off. -/
structure Sweeping (guard : ExternalGuard Close) (enabled : String → Option Bool)
    (during : String → Close → List (String × Close)) (pass : Sweep Close) : Prop where
  guard_eq : pass.guard = releases guard (endedBy during pass.closed)
  called : ∀ call ∈ pass.closed, call.2 ∈ guard.closesOf call.1 ∧ enabled call.1 ≠ some true

theorem foldl_callClose (runtime : String) (closes : List Close) (pass : Sweep Close) :
    closes.foldl (callClose during runtime) pass =
      ⟨releases pass.guard (endedBy during (closes.map (Prod.mk runtime))),
        pass.closed ++ closes.map (Prod.mk runtime)⟩ := by
  induction closes generalizing pass with
  | nil => simp [releases, endedBy]
  | cons close closes ih =>
      rw [List.foldl_cons, ih]
      simp [callClose, releases, endedBy, List.foldl_append]

/-- The calls that one entry adds. -/
theorem sweepEntry_eq (runtime : String) (pass : Sweep Close) :
    sweepEntry enabled during pass runtime =
      if enabled runtime = some true then pass
      else ⟨releases pass.guard
          (endedBy during ((pass.guard.closesOf runtime).map (Prod.mk runtime))),
        pass.closed ++ (pass.guard.closesOf runtime).map (Prod.mk runtime)⟩ := by
  unfold sweepEntry
  cases henabled : enabled runtime with
  | none => exact foldl_callClose runtime _ pass
  | some on =>
      cases on with
      | true => rfl
      | false => exact foldl_callClose runtime _ pass

theorem sweeping_entry {pass : Sweep Close} (h : Sweeping guard enabled during pass)
    (runtime : String) :
    Sweeping guard enabled during (sweepEntry enabled during pass runtime) := by
  rw [sweepEntry_eq]
  by_cases hon : enabled runtime = some true
  · rw [if_pos hon]
    exact h
  · rw [if_neg hon]
    refine ⟨?_, fun call hcall => ?_⟩
    · rw [h.guard_eq]
      simp only [releases, endedBy, List.flatMap_append, List.foldl_append]
    · rcases List.mem_append.mp hcall with hbefore | hnew
      · exact h.called call hbefore
      · obtain ⟨close, hclose, rfl⟩ := List.mem_map.mp hnew
        rw [h.guard_eq, mem_closesOf_releases] at hclose
        exact ⟨hclose.1, hon⟩

/-- After the turn of its runtime, a session that was open was called or has ended. -/
theorem called_or_ended {pass : Sweep Close} (h : Sweeping guard enabled during pass)
    {runtime : String} {close : Close} (hopen : close ∈ guard.closesOf runtime)
    (hoff : enabled runtime ≠ some true) :
    (runtime, close) ∈ (sweepEntry enabled during pass runtime).closed ∨
      (runtime, close) ∈ endedBy during (sweepEntry enabled during pass runtime).closed := by
  rw [sweepEntry_eq, if_neg hoff]
  by_cases hended : (runtime, close) ∈ endedBy during pass.closed
  · right
    obtain ⟨call, hcall, hpair⟩ := mem_endedBy.mp hended
    exact mem_endedBy.mpr ⟨call, List.mem_append_left _ hcall, hpair⟩
  · left
    apply List.mem_append_right
    apply List.mem_map_of_mem
    rw [h.guard_eq, mem_closesOf_releases]
    exact ⟨hopen, hended⟩

theorem closed_subset_entry (pass : Sweep Close) (runtime : String) :
    pass.closed ⊆ (sweepEntry enabled during pass runtime).closed := by
  rw [sweepEntry_eq]
  by_cases hon : enabled runtime = some true
  · rw [if_pos hon]
    exact List.Subset.refl _
  · rw [if_neg hon]
    exact List.subset_append_left _ _

theorem sweeping_foldl (runtimes : List String) {pass : Sweep Close}
    (h : Sweeping guard enabled during pass) :
    Sweeping guard enabled during (runtimes.foldl (sweepEntry enabled during) pass) ∧
      pass.closed ⊆ (runtimes.foldl (sweepEntry enabled during) pass).closed ∧
      ∀ runtime ∈ runtimes, enabled runtime ≠ some true → ∀ close ∈ guard.closesOf runtime,
        (runtime, close) ∈ (runtimes.foldl (sweepEntry enabled during) pass).closed ∨
          (runtime, close) ∈
            endedBy during (runtimes.foldl (sweepEntry enabled during) pass).closed := by
  induction runtimes generalizing pass with
  | nil => exact ⟨h, List.Subset.refl _, fun _ hmem => absurd hmem List.not_mem_nil⟩
  | cons first runtimes ih =>
      obtain ⟨hlast, hsubset, hturns⟩ := ih (sweeping_entry h first)
      refine ⟨hlast, fun call hcall => hsubset (closed_subset_entry pass first hcall), ?_⟩
      intro runtime hmem hoff close hopen
      rcases List.mem_cons.mp hmem with rfl | hrest
      · rcases called_or_ended h hopen hoff with hcalled | hended
        · exact .inl (hsubset hcalled)
        · obtain ⟨call, hcall, hpair⟩ := mem_endedBy.mp hended
          exact .inr (mem_endedBy.mpr ⟨call, hsubset hcall, hpair⟩)
      · exact hturns runtime hrest hoff close hopen

/-- What a sweep does. -/
theorem sweep_spec (guard : ExternalGuard Close) (enabled : String → Option Bool)
    (during : String → Close → List (String × Close)) :
    Sweeping guard enabled during (guard.sweep enabled during) ∧
      ∀ runtime close, close ∈ guard.closesOf runtime → enabled runtime ≠ some true →
        (runtime, close) ∈ (guard.sweep enabled during).closed ∨
          (runtime, close) ∈ endedBy during (guard.sweep enabled during).closed := by
  have hstart : Sweeping guard enabled during ⟨guard, []⟩ :=
    ⟨rfl, fun call hcall => absurd hcall List.not_mem_nil⟩
  obtain ⟨hsweep, -, hturns⟩ :=
    sweeping_foldl (guard.sessions.rows.map (·.runtime)) hstart
  exact ⟨hsweep, fun runtime close hopen hoff =>
    hturns runtime (mem_runtimes hopen) hoff close hopen⟩

end

/-! ## One call more -/

section

variable {limits : GuardLimits} {s : Guarded Close} {e : Event Close} {remote : String}

/-- The guard after a call. -/
def after (limits : GuardLimits) (guard : ExternalGuard Close) (e : Event Close) :
    ExternalGuard Close :=
  (answer limits guard e).2

/-- The entry that a call adds. -/
def added (limits : GuardLimits) (guard : ExternalGuard Close) (e : Event Close) : Entry Close :=
  ⟨e, (answer limits guard e).1⟩

theorem step_eq : (calls limits).step s e =
    ⟨after limits s.guard e, s.past ++ [added limits s.guard e]⟩ := rfl

/-! ## The attempts -/

/-- What is known of the attempts up to a time. -/
structure Attempts (limits : GuardLimits) (latest : ℤ) (s : Guarded Close) : Prop where
  times : ∀ entry ∈ s.past, (entry.now : ℤ) ≤ latest
  address : ∀ remote, recent limits.windowMs latest ((s.guard.address.get remote).getD []) =
    recent limits.windowMs latest (acceptedOf remote s.past)
  total : recent limits.windowMs latest s.guard.total =
    recent limits.windowMs latest (accepted s.past)
  spacedOf : ∀ remote, Spaced limits.windowMs limits.perAddress (acceptedOf remote s.past)
  spaced : Spaced limits.windowMs limits.total (accepted s.past)

omit [DecidableEq Close] in
theorem attempts_later {earlier later : ℤ} (hle : earlier ≤ later) (h : Attempts limits earlier s) :
    Attempts limits later s where
  times entry hentry := (h.times entry hentry).trans hle
  address remote := recent_congr hle (h.address remote)
  total := recent_congr hle h.total
  spacedOf := h.spacedOf
  spaced := h.spaced

theorem times_step (h : ∀ entry ∈ s.past, (entry.now : ℤ) ≤ e.now) :
    ∀ entry ∈ ((calls limits).step s e).past, (entry.now : ℤ) ≤ e.now := by
  intro entry hentry
  rw [step_eq, List.mem_append, List.mem_singleton] at hentry
  rcases hentry with hbefore | rfl
  · exact h entry hbefore
  · exact le_refl _

/-- A call that changes none of the lists and adds no accepted attempt. -/
theorem attempts_frame (h : Attempts limits e.now s)
    (hguard : ∀ remote, recent limits.windowMs e.now
        (((after limits s.guard e).address.get remote).getD []) =
      recent limits.windowMs e.now ((s.guard.address.get remote).getD []))
    (htotal : recent limits.windowMs e.now (after limits s.guard e).total =
      recent limits.windowMs e.now s.guard.total)
    (hnone : (added limits s.guard e).accepted = none) :
    Attempts limits e.now ((calls limits).step s e) := by
  have hsame : accepted (s.past ++ [added limits s.guard e]) = accepted s.past := by
    rw [accepted_snoc, hnone]
    exact List.append_nil _
  have hsameOf : ∀ remote,
      acceptedOf remote (s.past ++ [added limits s.guard e]) = acceptedOf remote s.past := by
    intro remote
    rw [acceptedOf_snoc, hnone]
    exact List.append_nil _
  refine ⟨times_step h.times, fun remote => ?_, ?_, fun remote => ?_, ?_⟩
  · exact (hguard remote).trans (by rw [step_eq, hsameOf]; exact h.address remote)
  · exact htotal.trans (by rw [step_eq, hsame]; exact h.total)
  · rw [step_eq, hsameOf]
    exact h.spacedOf remote
  · rw [step_eq, hsame]
    exact h.spaced

/-- The lists of an accepted attempt, before and after the old addresses are dropped. -/
theorem recent_dropped (address : Dict String (List ℤ)) (now : ℤ) : recent limits.windowMs now
        (((if address.keys.length > 1024 then
            address.filter fun _ list => (recent limits.windowMs now list).length ≠ 0
          else address).get remote).getD []) =
      recent limits.windowMs now ((address.get remote).getD []) := by
  by_cases hlarge : address.keys.length > 1024
  · rw [if_pos hlarge, Dict.get_filter]
    cases hget : address.get remote with
    | none => rfl
    | some list =>
        by_cases hempty : (recent limits.windowMs now list).length = 0
        · -- only a list without a recent attempt is dropped
          rw [Option.filter_some, if_neg (by simpa using hempty), Option.getD_none,
            Option.getD_some, List.length_eq_zero_iff.mp hempty]
          rfl
        · rw [Option.filter_some, if_pos (by simpa using hempty)]
  · rw [if_neg hlarge]

theorem attempts_accept (h : Attempts limits e.now s) (hcall : e.call = .accept remote) :
    Attempts limits e.now ((calls limits).step s e) := by
  by_cases hfull :
      (recent limits.windowMs (e.now : ℤ) ((s.guard.address.get remote).getD [])).length ≥
        limits.perAddress ∨
      (recent limits.windowMs (e.now : ℤ) s.guard.total).length ≥ limits.total
  · have hanswer : answer limits s.guard e =
        (.accept (some "Too many connection attempts; try again shortly"),
          { s.guard with total := recent limits.windowMs e.now s.guard.total }) := by
      simp only [answer, hcall, ExternalGuard.accept, if_pos hfull]
    apply attempts_frame h
    · intro other
      rw [after, hanswer]
    · rw [after, hanswer]
      exact recent_recent (le_refl _)
    · simp only [added, Entry.accepted, hanswer, hcall]
  · have hanswer : answer limits s.guard e =
        (.accept none, (s.guard.accept limits remote e.now).2) := by
      simp only [answer, hcall, ExternalGuard.accept, if_neg hfull]
    have haccepted : (added limits s.guard e).accepted = some (remote, (e.now : ℤ)) := by
      simp only [added, Entry.accepted, hanswer, hcall]
    have hsame :
        accepted (s.past ++ [added limits s.guard e]) = accepted s.past ++ [(e.now : ℤ)] := by
      rw [accepted_snoc, haccepted]
      rfl
    have hsameOf : ∀ other, acceptedOf other (s.past ++ [added limits s.guard e]) =
        acceptedOf other s.past ++ if remote = other then [(e.now : ℤ)] else [] := by
      intro other
      rw [acceptedOf_snoc, haccepted, Option.filter_some]
      by_cases hother : remote = other
      · rw [if_pos (decide_eq_true hother), if_pos hother]
        rfl
      · rw [if_neg (by simpa using hother), if_neg hother]
        rfl
    rw [not_or, not_le, not_le, h.address, h.total] at hfull
    obtain ⟨hmine, hall⟩ := hfull
    have hfree := not_or.mpr ⟨not_le.mpr hmine, not_le.mpr hall⟩
    have hlast := mem_accepted_le h.times
    refine ⟨times_step h.times, fun other => ?_, ?_, fun other => ?_, ?_⟩
    · rw [step_eq, hsameOf, after, hanswer]
      simp only [ExternalGuard.accept, h.address, h.total, if_neg hfree]
      rw [recent_dropped, Dict.get_set]
      by_cases hother : other = remote
      · subst hother
        rw [if_pos rfl, if_pos rfl, Option.getD_some, recent_append, recent_append,
          recent_recent (le_refl _)]
      · rw [if_neg hother, if_neg (Ne.symm hother), List.append_nil]
        exact h.address other
    · rw [step_eq, hsame, after, hanswer]
      simp only [ExternalGuard.accept, h.address, h.total, if_neg hfree]
      rw [recent_append, recent_append, recent_recent (le_refl _)]
    · rw [step_eq, hsameOf]
      by_cases hother : remote = other
      · subst hother
        rw [if_pos rfl]
        exact (h.spacedOf remote).snoc
          (fun time htime => hlast time (acceptedOf_subset htime)) hmine
      · rw [if_neg hother, List.append_nil]
        exact h.spacedOf other
    · rw [step_eq, hsame]
      exact h.spaced.snoc hlast hall

/-! ## The passwords -/

/-- What is known of the failed passwords and the locks up to a time. -/
structure Logins (limits : GuardLimits) (latest : ℤ) (s : Guarded Close) : Prop where
  failed : ∀ runtime, recent limits.lockMs latest ((s.guard.failed.get runtime).getD []) =
    recent limits.lockMs latest (failures limits runtime s.past).since
  times : ∀ runtime, ∀ time ∈ (failures limits runtime s.past).locks, time ≤ latest
  locked : ∀ runtime, ∀ time ∈ (failures limits runtime s.past).locks,
    latest < time + limits.lockMs → time + limits.lockMs ≤ (s.guard.locked.get runtime).getD 0

omit [DecidableEq Close] in
theorem logins_later {earlier later : ℤ} (hle : earlier ≤ later) (h : Logins limits earlier s) :
    Logins limits later s where
  failed runtime := recent_congr hle (h.failed runtime)
  times runtime time htime := (h.times runtime time htime).trans hle
  locked runtime time htime hlate := h.locked runtime time htime (hle.trans_lt hlate)

/-- A call that is no bad password and drops no lock that still holds. -/
theorem logins_frame (h : Logins limits e.now s)
    (hfailed : (after limits s.guard e).failed = s.guard.failed)
    (hlocked : ∀ runtime (lock : ℤ), e.now < lock → lock ≤ (s.guard.locked.get runtime).getD 0 →
      lock ≤ ((after limits s.guard e).locked.get runtime).getD 0)
    (hcall : ∀ runtime remote, e.call ≠ .outcome runtime remote .badPassword) :
    Logins limits e.now ((calls limits).step s e) := by
  have hsame : ∀ runtime, failures limits runtime (s.past ++ [added limits s.guard e]) =
      failures limits runtime s.past := fun runtime => failures_snoc hcall
  refine ⟨fun runtime => ?_, fun runtime => ?_, fun runtime => ?_⟩
  · rw [step_eq, hsame, hfailed]
    exact h.failed runtime
  · rw [step_eq, hsame]
    exact h.times runtime
  · rw [step_eq, hsame]
    exact fun time htime hlate => hlocked runtime _ hlate (h.locked runtime time htime hlate)

theorem logins_bad (h : Logins limits e.now s) {runtime : String}
    (hcall : e.call = .outcome runtime remote .badPassword) :
    Logins limits e.now ((calls limits).step s e) := by
  have hguard : after limits s.guard e = s.guard.outcome limits runtime .badPassword e.now := by
    rw [after, answer, hcall]
  have hsame : ∀ other, failures limits other (s.past ++ [added limits s.guard e]) =
      if runtime = other then (failures limits other s.past).add limits e.now
      else failures limits other s.past := fun other => failures_snoc_bad hcall
  have hcount : (recent limits.lockMs (e.now : ℤ) ((s.guard.failed.get runtime).getD []) ++
      [(e.now : ℤ)]).length =
      (recent limits.lockMs (e.now : ℤ) (failures limits runtime s.past).since).length + 1 := by
    rw [h.failed, List.length_append, List.length_singleton]
  by_cases hreached : limits.failures ≤
      (recent limits.lockMs (e.now : ℤ) (failures limits runtime s.past).since).length + 1
  · have hafter : after limits s.guard e = { s.guard with
        locked := s.guard.locked.set runtime (e.now + limits.lockMs)
        failed := (s.guard.failed.set runtime (recent limits.lockMs (e.now : ℤ)
          ((s.guard.failed.get runtime).getD []) ++ [(e.now : ℤ)])).delete runtime } := by
      rw [hguard]
      simp only [ExternalGuard.outcome, hcount, ge_iff_le, if_pos hreached]
    have hadd : (failures limits runtime s.past).add limits e.now =
        ⟨[], (failures limits runtime s.past).locks ++ [(e.now : ℤ)]⟩ := if_pos hreached
    refine ⟨fun other => ?_, fun other => ?_, fun other => ?_⟩
    · rw [step_eq, hsame, hafter, Dict.get_delete]
      by_cases hother : runtime = other
      · subst hother
        rw [if_pos rfl, if_pos rfl, hadd]
        rfl
      · rw [if_neg hother, if_neg (Ne.symm hother), Dict.get_set, if_neg (Ne.symm hother)]
        exact h.failed other
    · rw [step_eq, hsame]
      by_cases hother : runtime = other
      · subst hother
        rw [if_pos rfl, hadd]
        intro time htime
        rcases List.mem_append.mp htime with hbefore | hnow
        · exact h.times runtime time hbefore
        · exact (List.mem_singleton.mp hnow).le
      · rw [if_neg hother]
        exact h.times other
    · rw [step_eq, hsame, hafter, Dict.get_set]
      by_cases hother : runtime = other
      · subst hother
        rw [if_pos rfl, if_pos rfl, hadd, Option.getD_some]
        intro time htime _
        rcases List.mem_append.mp htime with hbefore | hnow
        · exact add_le_add_left (h.times runtime time hbefore) _
        · rw [List.mem_singleton.mp hnow]
      · rw [if_neg hother, if_neg (Ne.symm hother)]
        exact h.locked other
  · have hafter : after limits s.guard e = { s.guard with
        failed := s.guard.failed.set runtime (recent limits.lockMs (e.now : ℤ)
          ((s.guard.failed.get runtime).getD []) ++ [(e.now : ℤ)]) } := by
      rw [hguard]
      simp only [ExternalGuard.outcome, hcount, ge_iff_le, if_neg hreached]
    have hadd : (failures limits runtime s.past).add limits e.now =
        ⟨(failures limits runtime s.past).since ++ [(e.now : ℤ)],
          (failures limits runtime s.past).locks⟩ := if_neg hreached
    refine ⟨fun other => ?_, fun other => ?_, fun other => ?_⟩
    · rw [step_eq, hsame, hafter, Dict.get_set]
      by_cases hother : runtime = other
      · subst hother
        rw [if_pos rfl, if_pos rfl, hadd, Option.getD_some, recent_append, recent_append,
          recent_recent (le_refl _), h.failed]
      · rw [if_neg hother, if_neg (Ne.symm hother)]
        exact h.failed other
    · rw [step_eq, hsame]
      by_cases hother : runtime = other
      · subst hother
        rw [if_pos rfl, hadd]
        exact h.times runtime
      · rw [if_neg hother]
        exact h.times other
    · rw [step_eq, hsame, hafter]
      by_cases hother : runtime = other
      · subst hother
        rw [if_pos rfl, hadd]
        exact h.locked runtime
      · rw [if_neg hother]
        exact h.locked other

/-! ## The open sessions -/

/-- The map has the sessions that are open, and the interval runs while there are any. -/
structure Tracked (s : Guarded Close) : Prop where
  sessions : ∀ runtime close,
    (runtime, close) ∈ openSessions s.past ↔ close ∈ s.guard.closesOf runtime
  sweeper : s.guard.sessions.rows ≠ [] → s.guard.sweeper = true

theorem openSessions_snoc {past : List (Entry Close)} {entry : Entry Close} :
    openSessions (past ++ [entry]) = openStep (openSessions past) entry :=
  List.foldl_append

/-- A call that leaves the sessions alone. -/
theorem tracked_frame (h : Tracked s)
    (hsessions : (after limits s.guard e).sessions = s.guard.sessions)
    (hsweeper : (after limits s.guard e).sweeper = s.guard.sweeper)
    (hopen : openStep (openSessions s.past) (added limits s.guard e) = openSessions s.past) :
    Tracked ((calls limits).step s e) := by
  refine ⟨fun runtime close => ?_, fun hrows => ?_⟩
  · rw [step_eq, openSessions_snoc, hopen, ExternalGuard.closesOf, hsessions]
    exact h.sessions runtime close
  · rw [step_eq, hsweeper]
    rw [step_eq, hsessions] at hrows
    exact h.sweeper hrows

theorem sweeper_release {guard : ExternalGuard Close} (runtime : String) (close : Close)
    (h : guard.sessions.rows ≠ [] → guard.sweeper = true)
    (hrows : (guard.release runtime close).sessions.rows ≠ []) :
    (guard.release runtime close).sweeper = true := by
  have hlength : (guard.release runtime close).sessions.rows.length ≠ 0 :=
    fun hzero => hrows (List.length_eq_zero_iff.mp hzero)
  have hsome : guard.sessions.rows ≠ [] := by
    intro hnil
    have hnone : guard.sessions.get runtime = none :=
      Table.get_eq_none.mpr fun row hrow => absurd (hnil ▸ hrow) List.not_mem_nil
    apply hrows
    simp only [ExternalGuard.release, hnone]
    exact hnil
  have hsweeper : (guard.release runtime close).sweeper =
      if (guard.release runtime close).sessions.rows.length = 0 then false else guard.sweeper := rfl
  rw [hsweeper, if_neg hlength]
  exact h hsome

theorem sweeper_releases {guard : ExternalGuard Close} (pairs : List (String × Close))
    (h : guard.sessions.rows ≠ [] → guard.sweeper = true) :
    (releases guard pairs).sessions.rows ≠ [] → (releases guard pairs).sweeper = true := by
  induction pairs generalizing guard with
  | nil => exact h
  | cons pair pairs ih => exact ih (sweeper_release pair.1 pair.2 h)

theorem tracked_session (h : Tracked s) {runtime : String} {close : Close}
    (hcall : e.call = .session runtime close) : Tracked ((calls limits).step s e) := by
  have hguard : after limits s.guard e = s.guard.session runtime close := by
    rw [after, answer, hcall]
  have hopen : openStep (openSessions s.past) (added limits s.guard e) =
      openSessions s.past ++ [(runtime, close)] := by
    simp only [openStep, added, hcall]
  refine ⟨fun other last => ?_, fun _ => ?_⟩
  · rw [step_eq, openSessions_snoc, hopen, hguard, closesOf_session, List.mem_append,
      List.mem_singleton, h.sessions]
    by_cases hother : runtime = other
    · subst hother
      rw [if_pos rfl, Prod.mk.injEq]
      by_cases hknown : close ∈ s.guard.closesOf runtime
      · rw [if_pos hknown]
        constructor
        · rintro (hlast | ⟨-, rfl⟩)
          · exact hlast
          · exact hknown
        · exact .inl
      · rw [if_neg hknown, List.mem_append, List.mem_singleton]
        simp only [true_and]
    · rw [if_neg hother, Prod.mk.injEq]
      constructor
      · rintro (hlast | ⟨rfl, -⟩)
        · exact hlast
        · exact absurd rfl hother
      · exact .inl
  · rw [step_eq, hguard]
    rfl

theorem tracked_release (h : Tracked s) {runtime : String} {close : Close}
    (hcall : e.call = .release runtime close) : Tracked ((calls limits).step s e) := by
  have hguard : after limits s.guard e = s.guard.release runtime close := by
    rw [after, answer, hcall]
  have hopen : openStep (openSessions s.past) (added limits s.guard e) =
      (openSessions s.past).filter (· ≠ (runtime, close)) := by
    simp only [openStep, added, hcall]
  refine ⟨fun other last => ?_, ?_⟩
  · have hreleased : last ∈ (s.guard.release runtime close).closesOf other ↔
        last ∈ s.guard.closesOf other ∧ (other, last) ∉ [(runtime, close)] := by
      rw [← mem_closesOf_releases]
      rfl
    rw [List.mem_singleton] at hreleased
    rw [step_eq, openSessions_snoc, hopen, hguard, List.mem_filter, decide_eq_true_iff, h.sessions]
    exact hreleased.symm
  · rw [step_eq, hguard]
    exact sweeper_release runtime close h.sweeper

theorem tracked_sweep (h : Tracked s) {enabled : String → Option Bool}
    {during : String → Close → List (String × Close)} (hcall : e.call = .sweep enabled during) :
    Tracked ((calls limits).step s e) := by
  obtain ⟨hsweep, -⟩ := sweep_spec s.guard enabled during
  have hguard : after limits s.guard e =
      releases s.guard (endedBy during (s.guard.sweep enabled during).closed) := by
    rw [after, answer, hcall]
    exact hsweep.guard_eq
  have hopen : openStep (openSessions s.past) (added limits s.guard e) =
      (openSessions s.past).filter fun pair =>
        ¬ ∃ call ∈ (s.guard.sweep enabled during).closed, pair ∈ during call.1 call.2 := by
    simp only [openStep, added, answer, hcall]
  refine ⟨fun runtime close => ?_, ?_⟩
  · rw [step_eq, openSessions_snoc, hopen, hguard, mem_closesOf_releases, List.mem_filter,
      decide_eq_true_iff, h.sessions, mem_endedBy]
  · rw [step_eq, hguard]
    exact sweeper_releases _ h.sweeper

/-! ## The whole run -/

/-- What is promised of an answer, by the calls before it. -/
structure Lawful (limits : GuardLimits) (before : List (Entry Close)) (entry : Entry Close) :
    Prop where
  /-- For `lockMs` after a lock the runtime is refused. -/
  refused : ∀ runtime remote enabled, entry.call = .admission runtime remote enabled →
    ∀ time ∈ (failures limits runtime before).locks, entry.now < time + limits.lockMs →
      entry.answer = .admission (.refused "Too many failed logins; try again in a minute")
  /-- A sweep calls open sessions of runtimes that are off or unreadable only, and each
  of these unless it ended while another was called. -/
  swept : ∀ enabled during, entry.call = .sweep enabled during →
    ∃ calls, entry.answer = .closed calls ∧
      (∀ call ∈ calls, call ∈ openSessions before ∧ enabled call.1 ≠ some true) ∧
      ∀ pair ∈ openSessions before, enabled pair.1 ≠ some true →
        pair ∈ calls ∨ ∃ call ∈ calls, pair ∈ during call.1 call.2

/-- What holds of a guard and its calls up to a time. -/
structure Inv (limits : GuardLimits) (latest : ℤ) (s : Guarded Close) : Prop where
  attempts : Attempts limits latest s
  logins : Logins limits latest s
  tracked : Tracked s
  lawful : ∀ before entry rest, s.past = before ++ entry :: rest → Lawful limits before entry

theorem lawful_added (hlogins : Logins limits e.now s) (htracked : Tracked s) :
    Lawful limits s.past (added limits s.guard e) where
  refused := by
    intro runtime remote enabled hcall time htime hlate
    have hlock := hlogins.locked runtime time htime hlate
    have hheld : (s.guard.locked.get runtime).getD 0 ≠ 0 ∧
        (s.guard.locked.get runtime).getD 0 > (e.now : ℤ) := by
      have hnow : (0 : ℤ) ≤ e.now := Int.natCast_nonneg _
      have hlater : (e.now : ℤ) < time + limits.lockMs := hlate
      omega
    have hcall' : e.call = .admission runtime remote enabled := hcall
    simp only [added, answer, hcall', ExternalGuard.admitRuntime, if_pos hheld]
  swept := by
    intro enabled during hcall
    obtain ⟨hsweep, hturns⟩ := sweep_spec s.guard enabled during
    have hcall' : e.call = .sweep enabled during := hcall
    refine ⟨(s.guard.sweep enabled during).closed, ?_, fun call hin => ?_,
      fun pair hopen hoff => ?_⟩
    · simp only [added, answer, hcall']
    · obtain ⟨hopen, hoff⟩ := hsweep.called call hin
      exact ⟨(htracked.sessions call.1 call.2).mpr hopen, hoff⟩
    · rw [← mem_endedBy]
      exact hturns pair.1 pair.2 ((htracked.sessions pair.1 pair.2).mp hopen) hoff

/-- A call that changes the sessions only. -/
theorem sessions_frame (h : Inv limits e.now s) (hafter : ∃ sessions sweeper,
      after limits s.guard e = { s.guard with sessions := sessions, sweeper := sweeper })
    (hnone : (added limits s.guard e).accepted = none)
    (hcall : ∀ runtime remote, e.call ≠ .outcome runtime remote .badPassword) :
    Attempts limits e.now ((calls limits).step s e) ∧
      Logins limits e.now ((calls limits).step s e) := by
  obtain ⟨sessions, sweeper, hafter⟩ := hafter
  constructor
  · apply attempts_frame h.attempts _ _ hnone
    · rw [hafter]
      exact fun _ => rfl
    · rw [hafter]
  · apply logins_frame h.logins _ _ hcall
    · rw [hafter]
    · rw [hafter]
      exact fun _ _ _ hlock => hlock

/-- A call changes the lists of the attempts, the failed passwords and the locks, or the
sessions. -/
theorem inv_step (h : Inv limits e.now s) : Inv limits e.now ((calls limits).step s e) := by
  have hlawful : ∀ before entry rest, ((calls limits).step s e).past = before ++ entry :: rest →
      Lawful limits before entry := by
    intro before entry rest hpast
    rw [step_eq] at hpast
    rcases snoc_eq_split hpast with ⟨rfl, rfl⟩ | ⟨rest, hbefore⟩
    · exact lawful_added h.logins h.tracked
    · exact h.lawful before entry rest hbefore
  cases hcall : e.call with
  | accept remote =>
      obtain ⟨address, total, hguard⟩ := accept_eq limits s.guard remote e.now
      have hafter :
          after limits s.guard e = { s.guard with address := address, total := total } := by
        rw [← hguard, after, answer, hcall]
      refine ⟨attempts_accept h.attempts hcall, ?_, ?_, hlawful⟩
      · apply logins_frame h.logins
        · rw [hafter]
        · rw [hafter]
          exact fun _ _ _ hlock => hlock
        · simp [hcall]
      · apply tracked_frame h.tracked
        · rw [hafter]
        · rw [hafter]
        · simp only [openStep, added, hcall]
  | admission runtime remote enabled =>
      have hguard : after limits s.guard e = (s.guard.admitRuntime runtime e.now enabled).2 := by
        rw [after, answer, hcall]
      obtain ⟨locked, hlocked⟩ := admitRuntime_eq s.guard runtime e.now enabled
      have hafter : after limits s.guard e = { s.guard with locked := locked } := by
        rw [hguard, hlocked]
      refine ⟨?_, ?_, ?_, hlawful⟩
      · apply attempts_frame h.attempts
        · rw [hafter]
          exact fun _ => rfl
        · rw [hafter]
        · simp only [added, Entry.accepted, hcall]
      · apply logins_frame h.logins
        · rw [hafter]
        · rw [hguard]
          exact fun other lock hlate hlock =>
            lock_kept s.guard runtime other e.now lock enabled hlate hlock
        · simp [hcall]
      · apply tracked_frame h.tracked
        · rw [hafter]
        · rw [hafter]
        · simp only [openStep, added, hcall]
  | outcome runtime remote result =>
      have hguard : after limits s.guard e = s.guard.outcome limits runtime result e.now := by
        rw [after, answer, hcall]
      obtain ⟨failed, locked, houtcome⟩ := outcome_eq limits s.guard runtime result e.now
      have hafter :
          after limits s.guard e = { s.guard with failed := failed, locked := locked } := by
        rw [hguard, houtcome]
      refine ⟨?_, ?_, ?_, hlawful⟩
      · apply attempts_frame h.attempts
        · rw [hafter]
          exact fun _ => rfl
        · rw [hafter]
        · simp only [added, Entry.accepted, hcall]
      · cases result with
        | ok =>
            apply logins_frame h.logins
            · rw [hguard]
              rfl
            · rw [hguard]
              exact fun _ _ _ hlock => hlock
            · simp [hcall]
        | badPassword => exact logins_bad h.logins hcall
      · apply tracked_frame h.tracked
        · rw [hafter]
        · rw [hafter]
        · simp only [openStep, added, hcall]
  | session runtime close =>
      obtain ⟨hattempts, hlogins⟩ := sessions_frame h
        ⟨_, _, by rw [after, answer, hcall]; rfl⟩ (by simp only [added, Entry.accepted, hcall])
        (by simp [hcall])
      exact ⟨hattempts, hlogins, tracked_session h.tracked hcall, hlawful⟩
  | release runtime close =>
      obtain ⟨hattempts, hlogins⟩ := sessions_frame h
        ⟨_, _, by rw [after, answer, hcall]; rfl⟩ (by simp only [added, Entry.accepted, hcall])
        (by simp [hcall])
      exact ⟨hattempts, hlogins, tracked_release h.tracked hcall, hlawful⟩
  | sweep enabled during =>
      obtain ⟨hsweep, -⟩ := sweep_spec s.guard enabled during
      have hguard : after limits s.guard e =
          releases s.guard (endedBy during (s.guard.sweep enabled during).closed) := by
        rw [after, answer, hcall]
        exact hsweep.guard_eq
      obtain ⟨hattempts, hlogins⟩ := sessions_frame h
        (hguard ▸ releases_eq s.guard _) (by simp only [added, Entry.accepted, hcall])
        (by simp [hcall])
      exact ⟨hattempts, hlogins, tracked_sweep h.tracked hcall, hlawful⟩

theorem inv_later {earlier later : ℤ} (hle : earlier ≤ later) (h : Inv limits earlier s) :
    Inv limits later s where
  attempts := attempts_later hle h.attempts
  logins := logins_later hle h.logins
  tracked := h.tracked
  lawful := h.lawful

theorem inv_initial (limits : GuardLimits) (latest : ℤ) :
    Inv limits latest (calls limits : Machine (Guarded Close) (Event Close)).initial where
  attempts := ⟨fun _ hentry => absurd hentry List.not_mem_nil, fun _ => rfl, rfl,
    fun _ => .nil, .nil⟩
  logins := ⟨fun _ => rfl, fun _ _ htime => absurd htime List.not_mem_nil,
    fun _ _ htime => absurd htime List.not_mem_nil⟩
  tracked := ⟨fun _ _ => ⟨fun hmem => absurd hmem List.not_mem_nil,
    fun hmem => absurd hmem List.not_mem_nil⟩, fun hrows => absurd rfl hrows⟩
  lawful := by
    intro before entry rest hpast
    exact absurd hpast.symm (List.append_ne_nil_of_right_ne_nil _ (List.cons_ne_nil _ _))

theorem inv_run {events : List (Event Close)} (hsorted : events.Pairwise fun a b => a.now ≤ b.now)
    {latest : ℤ} (hlatest : ∀ e ∈ events, (e.now : ℤ) ≤ latest) :
    Inv limits latest ((calls limits).run events) := by
  induction events using List.reverseRecOn generalizing latest with
  | nil => exact inv_initial limits latest
  | append_singleton events e ih =>
      obtain ⟨hbefore, -, hlast⟩ := List.pairwise_append.mp hsorted
      have hnow : ∀ before ∈ events, (before.now : ℤ) ≤ e.now :=
        fun before hmem => Int.ofNat_le.mpr (hlast before hmem e (List.mem_singleton.mpr rfl))
      have hle : (e.now : ℤ) ≤ latest :=
        hlatest e (List.mem_append_right _ (List.mem_singleton.mpr rfl))
      rw [Machine.run_snoc]
      exact inv_later hle (inv_step (ih hbefore hnow))

/-- The past of a run is its calls. -/
theorem past_run (events : List (Event Close)) :
    ((calls limits).run events).past.map (·.toEvent) = events := by
  induction events using List.reverseRecOn with
  | nil => rfl
  | append_singleton events e ih =>
      rw [Machine.run_snoc, step_eq, List.map_append, ih]
      rfl

end

/-! ## The promises -/

/-- What is promised of a guard and the calls it answered. -/
structure Meets (limits : GuardLimits) (s : Guarded Close) : Prop where
  perAddress : ∀ remote start,
    ((acceptedOf remote s.past).filter fun time =>
      start ≤ time ∧ time < start + limits.windowMs).length ≤ limits.perAddress
  total : ∀ start,
    ((accepted s.past).filter fun time =>
      start ≤ time ∧ time < start + limits.windowMs).length ≤ limits.total
  /-- No attempt that is still in its window is forgotten. -/
  remembered : ∀ remote (now : ℤ), (∀ entry ∈ s.past, entry.now ≤ now) →
    recent limits.windowMs now ((s.guard.address.get remote).getD []) =
      recent limits.windowMs now (acceptedOf remote s.past)
  answers : ∀ before entry rest, s.past = before ++ entry :: rest → Lawful limits before entry
  /-- The interval of the sweep is set while a session is open. -/
  sweeper : openSessions s.past ≠ [] → s.guard.sweeper = true

theorem sweeper_of_open {s : Guarded Close} (h : Tracked s) (hopen : openSessions s.past ≠ []) :
    s.guard.sweeper = true := by
  obtain ⟨⟨runtime, close⟩, hmem⟩ := List.exists_mem_of_ne_nil _ hopen
  have hentry := mem_runtimes ((h.sessions runtime close).mp hmem)
  apply h.sweeper
  rintro hnil
  rw [hnil] at hentry
  exact absurd hentry List.not_mem_nil

/-- Whatever the order of the calls, at readings of the clock that do not go back. -/
theorem guard_law (limits : GuardLimits) (events : List (Event Close))
    (h : events.Pairwise fun a b => a.now ≤ b.now) : Meets limits ((calls limits).run events) := by
  have hinv : ∀ latest : ℤ, (∀ entry ∈ ((calls limits).run events).past, entry.now ≤ latest) →
      Inv limits latest ((calls limits).run events) := by
    intro latest hlatest
    apply inv_run h
    intro e he
    have hpast : ((calls limits).run events).past.map (·.toEvent) = events := past_run events
    rw [← hpast] at he
    obtain ⟨entry, hentry, rfl⟩ := List.mem_map.mp he
    exact hlatest entry hentry
  have hlast : Inv limits ((events.map (·.now)).foldr max 0 : ℕ) ((calls limits).run events) := by
    apply inv_run h
    intro e he
    exact Int.ofNat_le.mpr (List.le_max_of_le' 0 (List.mem_map_of_mem he) (le_refl _))
  exact {
    perAddress := fun remote start => (hlast.attempts.spacedOf remote).length_le start
    total := fun start => hlast.attempts.spaced.length_le start
    remembered := fun remote now hnow => (hinv now hnow).attempts.address remote
    answers := hlast.lawful
    sweeper := sweeper_of_open hlast.tracked }

def fixtureLimits : GuardLimits where
  perAddress := 1
  total := 2
  windowMs := 5
  failures := 2
  lockMs := 10

def fixtureEvents : List (Event ℕ) :=
  [⟨0, .accept "198.51.100.1"⟩, ⟨4, .accept "198.51.100.1"⟩, ⟨5, .accept "198.51.100.1"⟩,
   ⟨6, .session "e_a" 1⟩, ⟨6, .outcome "e_a" "198.51.100.1" .badPassword⟩,
   ⟨15, .outcome "e_a" "198.51.100.1" .badPassword⟩,
   ⟨24, .admission "e_a" "198.51.100.1" (some true)⟩,
   ⟨25, .admission "e_a" "198.51.100.1" (some true)⟩,
   ⟨26, .sweep (fun _ => none) fun runtime close => [(runtime, close)]⟩]

theorem guard_law_locked : Meets fixtureLimits ((calls fixtureLimits).run fixtureEvents) ∧
      ((calls fixtureLimits).run fixtureEvents).past.map (·.answer) =
        [.accept none, .accept (some "Too many connection attempts; try again shortly"),
         .accept none, .nothing, .nothing, .nothing,
         .admission (.refused "Too many failed logins; try again in a minute"),
         .admission .admitted, .closed [("e_a", 1)]] :=
  ⟨guard_law fixtureLimits fixtureEvents (by decide), by decide⟩

end Sbarbase.Database.Proofs.GuardLaw
