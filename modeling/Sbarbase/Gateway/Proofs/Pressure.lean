import Sbarbase.Gateway.Pressure
import Sbarbase.Gateway.Proofs.Borrowing
/-!
# What the pressure monitor reports

For one environment the pass over a sample is one step: it starts, continues,
ends or reports its run. By induction over the samples, the run that is kept
adds up the samples since the last report, and a report adds up as many as the
window has minutes. On the side of the gate a counter is raised only by the
events it counts, and emptied only by a sample.
-/

namespace Sbarbase.Gateway.Proofs.Pressure

open Lib Gateway.Concurrency Gateway.Pressure Gateway.Proofs.Borrowing

/-! ## One pass -/

section

variable {w : Window} {runtime : String}

/-- What a pass keeps and reports about one environment. -/
def view (runtime : String) (pass : Pass) : Option Saturation × Bool × List Saturation :=
  (pass.runs.get runtime, pass.seen.contains runtime,
    pass.reported.filterMap fun report => if report.1 = runtime then some report.2 else none)

/-- The passes of other environments leave an environment alone. -/
theorem view_samplePass_ne (pass : Pass) {other : String} (hne : runtime ≠ other)
    (pressure : EnvironmentPressure) :
    view runtime (samplePass w pass other pressure) = view runtime pass := by
  unfold samplePass
  by_cases hsaturated : saturated pressure = true
  · rw [hsaturated, Bool.not_true, if_neg Bool.false_ne_true]
    dsimp only
    by_cases hfull : (((pass.runs.get other).getD (.start pressure)).add pressure).minutes ≥ w.minutes
    · rw [if_pos hfull]
      simp only [view, Dict.get_delete, if_neg hne, List.filterMap_append]
      simp [hne, hne.symm]
    · rw [if_neg hfull]
      simp only [view, Dict.get_set, if_neg hne]
      simp [hne]
  · rw [Bool.eq_false_iff.mpr hsaturated]
    rfl

/-- The pass of a saturated environment. -/
theorem view_samplePass_self (pass : Pass) {pressure : EnvironmentPressure}
    (hsaturated : saturated pressure = true) {run : Saturation}
    (hrun : run = ((pass.runs.get runtime).getD (.start pressure)).add pressure) :
    view runtime (samplePass w pass runtime pressure) =
      (if run.minutes ≥ w.minutes then none else some run, true,
        (view runtime pass).2.2 ++ if run.minutes ≥ w.minutes then [run] else []) := by
  rw [samplePass, hsaturated, Bool.not_true, if_neg Bool.false_ne_true]
  dsimp only
  rw [← hrun]
  by_cases hfull : run.minutes ≥ w.minutes
  · simp [if_pos hfull, view]
  · simp [if_neg hfull, view]

/-- The passes of other environments, one after another. -/
theorem view_passes_ne (entries : List ((_ : String) × EnvironmentPressure)) (pass : Pass)
    (hne : ∀ entry ∈ entries, runtime ≠ entry.1) :
    view runtime (entries.foldl (fun pass entry => samplePass w pass entry.1 entry.2) pass) =
      view runtime pass := by
  induction entries generalizing pass with
  | nil => rfl
  | cons entry entries ih =>
      rw [List.foldl_cons, ih _ fun e he => hne e (List.mem_cons_of_mem entry he),
        view_samplePass_ne pass (hne entry List.mem_cons_self)]

/-- The loop over a sample is the pass of the one entry of an environment. -/
theorem view_passes_mem {pressures : Sample} {pressure : EnvironmentPressure}
    (hget : pressures.get runtime = some pressure) (pass : Pass) :
    ∃ before, view runtime before = view runtime pass ∧
      view runtime (pressures.entries.foldl
        (fun pass entry => samplePass w pass entry.1 entry.2) pass) =
        view runtime (samplePass w before runtime pressure) := by
  obtain ⟨first, last, hentries⟩ := List.append_of_mem (Dict.get_eq_some.mp hget)
  have hnodup := pressures.nodupKeys
  rw [hentries, List.NodupKeys, List.keys, List.map_append, List.map_cons, List.nodup_append] at hnodup
  obtain ⟨_, hlast, hfirst⟩ := hnodup
  have hne : ∀ entry ∈ first, runtime ≠ entry.1 := by
    intro entry hmem heq
    exact hfirst entry.1 (List.mem_map_of_mem hmem) runtime List.mem_cons_self heq.symm
  have hne' : ∀ entry ∈ last, runtime ≠ entry.1 := by
    intro entry hmem heq
    exact (List.nodup_cons.mp hlast).1 (List.mem_map.mpr ⟨entry, hmem, heq.symm⟩)
  refine ⟨_, view_passes_ne (w := w) first pass hne, ?_⟩
  rw [hentries, List.foldl_append, List.foldl_cons, view_passes_ne last _ hne']

end

/-! ## One sample -/

section

variable (w : Window) (m : Monitor) (pressures : Sample) (runtime : String)

theorem reportsOn_append (reports : List (List (String × Saturation)))
    (reported : List (String × Saturation)) :
    reportsOn runtime (reports ++ [reported]) =
      reported.filterMap fun report => if report.1 = runtime then some report.2 else none := by
  simp [reportsOn]

/-- An environment that is not saturated in a sample has no run and no report. -/
theorem sample_calm (hcalm : saturatedIn runtime pressures = false) :
    (sample w m pressures).runs.get runtime = none ∧
      reportsOn runtime (sample w m pressures).reports = [] := by
  have hview : view runtime (pressures.entries.foldl
      (fun pass entry => samplePass w pass entry.1 entry.2) ⟨m.runs, [], []⟩) =
      view runtime ⟨m.runs, [], []⟩ := by
    cases hget : pressures.get runtime with
    | none =>
        apply view_passes_ne
        rintro ⟨key, value⟩ hmem rfl
        rw [Dict.get_eq_some.mpr hmem] at hget
        cases hget
    | some pressure =>
        obtain ⟨before, hbefore, hpass⟩ := view_passes_mem (w := w) hget ⟨m.runs, [], []⟩
        rw [saturatedIn, hget, Option.any_some] at hcalm
        rw [hpass, ← hbefore, samplePass, hcalm]
        rfl
  simp only [view, Prod.mk.injEq] at hview
  obtain ⟨hruns, hseen, hreported⟩ := hview
  refine ⟨?_, ?_⟩
  · rw [sample, Dict.get_filter, hseen]
    simp
  · rw [sample, reportsOn_append, hreported]
    rfl

/-- A saturated minute lengthens the run of an environment, and a run as long as
the window is reported and dropped. -/
theorem sample_saturated {pressure : EnvironmentPressure} (hget : pressures.get runtime = some pressure)
    (hsaturated : saturated pressure = true) {run : Saturation}
    (hrun : run = ((m.runs.get runtime).getD (.start pressure)).add pressure) :
    (sample w m pressures).runs.get runtime = (if run.minutes ≥ w.minutes then none else some run) ∧
      reportsOn runtime (sample w m pressures).reports =
        if run.minutes ≥ w.minutes then [run] else [] := by
  obtain ⟨before, hbefore, hpass⟩ := view_passes_mem (w := w) hget ⟨m.runs, [], []⟩
  have hruns : before.runs.get runtime = m.runs.get runtime := congrArg Prod.fst hbefore
  rw [view_samplePass_self before hsaturated (hruns ▸ hrun), hbefore] at hpass
  simp only [view, Prod.mk.injEq] at hpass
  obtain ⟨hkept, hseen, hreports⟩ := hpass
  refine ⟨?_, ?_⟩
  · rw [sample, Dict.get_filter, hkept, hseen]
    split_ifs <;> rfl
  · rw [sample, reportsOn_append, hreports]
    rfl

end

/-! ## All samples -/

section

variable (w : Window) {runtime : String}

theorem streak_saturated {samples : List Sample} {pressures : Sample}
    (h : saturatedIn runtime pressures = true) :
    streak runtime (samples ++ [pressures]) = streak runtime samples + 1 := by
  rw [streak, List.rtakeWhile_concat_pos _ _ _ h, List.length_append, List.length_singleton, streak]

theorem streak_calm {samples : List Sample} {pressures : Sample}
    (h : saturatedIn runtime pressures = false) :
    streak runtime (samples ++ [pressures]) = 0 := by
  rw [streak, List.rtakeWhile_concat_neg _ _ _ (Bool.eq_false_iff.mp h), List.length_nil]

theorem streak_le (samples : List Sample) : streak runtime samples ≤ samples.length :=
  (List.rtakeWhile_suffix _ _).length_le

/-- One more sample with an entry of the environment. -/
theorem addUp_concat {samples : List Sample} {pressures : Sample} {pressure : EnvironmentPressure}
    (hget : pressures.get runtime = some pressure) :
    addUp runtime (samples ++ [pressures]) =
      (if samples = [] then Saturation.start pressure else addUp runtime samples).add pressure := by
  cases samples with
  | nil => simp [addUp, Saturation.add, Saturation.start, chargesIn, hget]
  | cons first samples =>
      simp [addUp, Saturation.add, chargesIn, hget, List.foldl_append, add_assoc]

/-- The minutes of the window as a length. -/
theorem window_pos : 1 ≤ w.minutes := by
  have h := w.checked
  unfold checkWindow at h
  split_ifs at h with hbad
  simp at hbad
  exact hbad.2

/-- The run of an environment adds up its streak since the last report. -/
def Kept (runtime : String) (samples : List Sample) (m : Monitor) : Prop :=
  m.runs.get runtime =
    if streak runtime samples % w.minutes.toNat = 0 then none
    else some (addUp runtime (samples.rtake (streak runtime samples % w.minutes.toNat)))

/-- One sample keeps the run, and reports exactly when the streak fills a window. -/
theorem kept_sample {samples : List Sample} {m : Monitor} (h : Kept w runtime samples m)
    (pressures : Sample) :
    Kept w runtime (samples ++ [pressures]) (sample w m pressures) ∧
      reportsOn runtime (sample w m pressures).reports =
        if 0 < streak runtime (samples ++ [pressures]) ∧
            w.minutes ∣ streak runtime (samples ++ [pressures]) then
          [addUp runtime ((samples ++ [pressures]).rtake w.minutes.toNat)]
        else [] := by
  have hpos := window_pos w
  obtain ⟨window, hwindow⟩ := Int.eq_ofNat_of_zero_le (le_trans zero_le_one hpos)
  rw [Kept] at h ⊢
  rw [hwindow, Int.toNat_natCast] at h ⊢
  rw [hwindow] at hpos
  cases hsaturated : saturatedIn runtime pressures with
  | false =>
      obtain ⟨hnone, hreports⟩ := sample_calm w m pressures runtime hsaturated
      rw [hnone, hreports, streak_calm hsaturated]
      simp
  | true =>
      obtain ⟨pressure, hget, hpressure⟩ := Option.any_eq_true _ _ |>.mp hsaturated
      obtain ⟨hruns, hreports⟩ := sample_saturated w m pressures runtime hget hpressure rfl
      have hlength : streak runtime samples % window ≤ samples.length :=
        (Nat.mod_le _ _).trans (streak_le samples)
      have hlt : streak runtime samples % window < window := Nat.mod_lt _ (by omega)
      -- the run after this minute adds up one sample more than the run before
      have hrun : ((m.runs.get runtime).getD (.start pressure)).add pressure =
          addUp runtime ((samples ++ [pressures]).rtake (streak runtime samples % window + 1)) := by
        rw [h, List.rtake_concat_succ, addUp_concat hget]
        by_cases hzero : streak runtime samples % window = 0
        · simp [hzero]
        · have hne : samples.rtake (streak runtime samples % window) ≠ [] := by
            intro hnil
            have hlen := congrArg List.length hnil
            rw [List.rtake, List.length_drop, List.length_nil] at hlen
            omega
          rw [if_neg hzero, if_neg hne, Option.getD_some]
      have hminutes : (addUp runtime
          ((samples ++ [pressures]).rtake (streak runtime samples % window + 1))).minutes =
          (streak runtime samples % window : ℕ) + 1 := by
        simp only [addUp, List.rtake, List.length_drop, List.length_append, List.length_singleton]
        omega
      rw [hruns, hreports, hrun, hminutes, hwindow, streak_saturated hsaturated]
      have hnext : (streak runtime samples + 1) % window =
          (streak runtime samples % window + 1) % window := by
        rw [Nat.mod_add_mod]
      have hdvd : ((window : ℤ) ∣ ((streak runtime samples + 1 : ℕ) : ℤ)) ↔
          (streak runtime samples % window + 1) % window = 0 := by
        rw [Int.natCast_dvd_natCast, Nat.dvd_iff_mod_eq_zero, hnext]
      simp only [hdvd, hnext, Nat.succ_pos, true_and]
      by_cases hfull : streak runtime samples % window + 1 = window
      · have hge : ((streak runtime samples % window : ℕ) : ℤ) + 1 ≥ window := by omega
        rw [if_pos hge, if_pos hge, hfull, Nat.mod_self]
        exact ⟨rfl, rfl⟩
      · have hless : ¬ ((streak runtime samples % window : ℕ) : ℤ) + 1 ≥ window := by omega
        have hmod : (streak runtime samples % window + 1) % window = streak runtime samples % window + 1 :=
          Nat.mod_eq_of_lt (by omega)
        rw [if_neg hless, if_neg hless, hmod]
        exact ⟨rfl, rfl⟩

theorem kept_run (samples : List Sample) : Kept w runtime samples ((monitor w).run samples) := by
  induction samples using List.reverseRecOn with
  | nil => rfl
  | append_singleton samples pressures ih =>
      rw [(monitor w).run_snoc]
      exact (kept_sample w ih pressures).1

end

/-! ## The counters of the gate -/

/-- The two counters a sample reads and empties. -/
def charges (g : Gate) : Dict String ℤ × Dict String ℤ := (g.refused, g.squeezed)

theorem charges_finishWaiter (g : Gate) (id : ℕ) (drained : Bool) :
    charges (finishWaiter g id drained) = charges g := by
  unfold finishWaiter
  split <;> rfl

theorem charges_notifyDrain (g : Gate) (environment : String) :
    charges (notifyDrain g environment) = charges g := by
  have hdone : ∀ g id, charges (doneWaiter g id) = charges g := by
    intro g id
    unfold doneWaiter
    split
    · rfl
    · exact charges_finishWaiter _ _ _
  have hall : ∀ (ids : List ℕ) g, charges (ids.foldl doneWaiter g) = charges g := by
    intro ids
    induction ids with
    | nil => exact fun _ => rfl
    | cons id ids ih => exact fun g => (ih _).trans (hdone g id)
  unfold notifyDrain
  split
  · rfl
  · exact hall _ g

theorem charges_release (g : Gate) (id : ℕ) : charges (release g id) = charges g := by
  unfold release
  split
  · rfl
  · split_ifs
    · rfl
    · dsimp only
      split_ifs
      · exact charges_notifyDrain _ _
      · rfl

theorem charges_callRun {g g' : Gate} (h : Steps.CallRun g g') : charges g' = charges g := by
  induction h with
  | refl g => rfl
  | mark _ _ _ ih => exact ih
  | note _ _ ih => exact ih
  | release _ ih => exact ih.trans (charges_release _ _)
  | close _ _ _ ih => exact ih.trans (charges_release _ _)

theorem charges_waitForDrain (g : Gate) (lease : ℕ) (timeoutMs : ℤ) :
    charges (waitForDrain g lease timeoutMs) = charges g := by
  unfold waitForDrain
  split
  · rfl
  · split_ifs
    · rfl
    · rfl
    · rfl
    · split <;> rfl

theorem charges_resume (g : Gate) (lease : ℕ) : charges (resume g lease) = charges g := by
  unfold resume
  split
  · rfl
  · split_ifs
    · rfl
    · exact charges_notifyDrain _ _

/-- What an arriving request charges, by the answer it gets. -/
inductive Charged (c : Settings) (g : Gate) (environment : String) (g' : Gate) :
    Option (String × Refusal) → Prop
  | nothing {answer : Option (String × Refusal)}
      (hshare : answer.map Prod.snd ≠ some .atShare) (hfull : answer.map Prod.snd ≠ some .full)
      (hsame : charges g' = charges g) : Charged c g environment g' answer
  | atShare (hraised : charges g' = (g.refused.raise environment, g.squeezed)) :
      Charged c g environment g' (some (environment, .atShare))
  | full (hsqueezed : charges g' = (g.refused, (squeeze c g).squeezed)) :
      Charged c g environment g' (some (environment, .full))

theorem refusedEarly_ne {g : Gate} {environment : String} {aborted : Bool} {budget : Option Budget}
    {refusal : Refusal} (h : refusedEarly g environment aborted budget = some refusal) :
    refusal ≠ .atShare ∧ refusal ≠ .full := by
  unfold refusedEarly at h
  split_ifs at h
  · cases h
    decide
  · cases h
    decide
  · cases budget with
    | none => cases h
    | some budget =>
        dsimp only at h
        split_ifs at h <;> cases h <;> decide

/-- `admission` changes no counter, and refuses below the share with 503 only. -/
theorem admission_same (c : Settings) (g : Gate) (environment : String) (count : ℤ) (full : Bool)
    (now : ℤ) : ∃ seen, (admission c g environment count full now).2 = { g with seen := seen } := by
  unfold admission
  by_cases hfull : full = true
  · rw [if_pos hfull]
    exact ⟨_, rfl⟩
  · rw [if_neg hfull]
    dsimp only
    by_cases hshare : count < guarantee c g.shareOf environment
    · rw [if_pos hshare]
      exact ⟨_, rfl⟩
    · rw [if_neg hshare]
      split
      · exact ⟨_, rfl⟩
      · split_ifs
        · exact ⟨_, rfl⟩
        · exact ⟨_, rfl⟩
        · exact ⟨_, rfl⟩

theorem run_charged (c : Settings) (g : Gate) (environment : String) (aborted : Bool)
    (budget : Option Budget) (now : ℤ) :
    Charged c g environment (run c g environment aborted budget now)
      (answer c g (.arrive environment aborted budget now)) := by
  rw [answer]
  unfold run
  cases hearly : refusedEarly g environment aborted budget with
  | some refusal =>
      obtain ⟨hshare, hfull⟩ := refusedEarly_ne hearly
      exact .nothing (by simpa [Gate.note] using hshare) (by simpa [Gate.note] using hfull) rfl
  | none =>
      obtain ⟨seen, hsame⟩ := admission_same c (ask g environment now) environment
        ((ask g environment now).activeOf environment) (serviceFull g environment budget) now
      dsimp only
      rcases hadmission : admission c (ask g environment now) environment
        ((ask g environment now).activeOf environment) (serviceFull g environment budget) now with ⟨verdict, g'⟩
      rw [hadmission] at hsame
      dsimp only at hsame
      subst hsame
      cases verdict with
      | granted => exact .nothing (by simp [admitCall]) (by simp [admitCall]) rfl
      | tooMany =>
          by_cases hfull : serviceFull g environment budget = true
          · simp only [if_pos hfull]
            exact .nothing (by simp [Gate.note]) (by simp [Gate.note]) rfl
          · simp only [if_neg hfull]
            exact .atShare rfl
      | unavailable => exact .full rfl

theorem getD_raise (counts : Dict String ℤ) (k k' : String) :
    ((counts.raise k).get k').getD 0 = (counts.get k').getD 0 + if k = k' then 1 else 0 := by
  rw [Dict.raise, Dict.get_set]
  by_cases heq : k' = k
  · subst heq
    simp
  · simp [heq, Ne.symm heq]

/-- Each environment above its share is charged once for a refused neighbour. -/
theorem getD_squeeze (c : Config) (g : Gate) (environment : String) :
    ((squeeze c.toSettings g).squeezed.get environment).getD 0 =
      (g.squeezed.get environment).getD 0 +
        if g.activeOf environment > guarantee c.toSettings g.shareOf environment then 1 else 0 := by
  have hother : ∀ (m : Dict String ℤ) (entry : (_ : String) × ℤ) (k : String), k ≠ entry.1 →
      (if entry.2 > guarantee c.toSettings g.shareOf entry.1 then m.raise entry.1 else m).get k =
        m.get k := by
    intro m entry k hne
    split_ifs
    · rw [Dict.raise, Dict.get_set, if_neg hne]
    · rfl
  rw [squeeze]
  cases hactive : g.active.get environment with
  | none =>
      have hpos := guarantee_pos c g.shareOf environment
      have hzero : g.activeOf environment = 0 := by rw [Gate.activeOf, hactive, Option.getD_none]
      rw [if_neg (by omega), add_zero, Dict.get_foldl_of_ne hother]
      rintro ⟨k, n⟩ hmem rfl
      rw [Dict.get_eq_some.mpr hmem] at hactive
      cases hactive
  | some count =>
      have hcount : g.activeOf environment = count := by rw [Gate.activeOf, hactive, Option.getD_some]
      have hself := Dict.get_foldl_of_mem hother (g.active.nodupKeys) g.squeezed
        (Dict.get_eq_some.mp hactive) (by
          intro m m' hsame
          dsimp only at hsame ⊢
          split_ifs
          · rw [Dict.raise, Dict.raise, Dict.get_set, Dict.get_set, hsame]
          · exact hsame)
      dsimp only at hself ⊢
      rw [hself, hcount]
      split_ifs
      · rw [getD_raise, if_pos rfl]
      · rw [add_zero]

/-! ## What a sample reads -/

theorem get_sampleOf (c : Settings) (g : Gate) (environment : String) :
    (sampleOf c g).get environment =
      if environment ∈ pressed g then some (pressureOf c g environment) else none := by
  have hother : ∀ (m : Sample) (a k : String), k ≠ id a →
      (m.set a (pressureOf c g a)).get k = m.get k := by
    intro m a k hne
    exact (Dict.get_set ..).trans (if_neg hne)
  rw [sampleOf]
  split_ifs with hmem
  · have hnodup : ((pressed g).map id).Nodup := by
      rw [List.map_id]
      exact List.nodup_dedup _
    have hself := Dict.get_foldl_of_mem hother hnodup ∅ hmem fun m m' _ => by
      rw [id, Dict.get_set, Dict.get_set, if_pos rfl, if_pos rfl]
    exact hself.trans (by rw [id, Dict.get_set, if_pos rfl])
  · have hne : ∀ a ∈ pressed g, environment ≠ id a := by
      rintro a ha rfl
      exact hmem ha
    rw [Dict.get_foldl_of_ne hother _ _ hne]
    rfl

theorem not_pressed {g : Gate} {environment : String} (h : environment ∉ pressed g) :
    g.refused.get environment = none ∧ g.squeezed.get environment = none := by
  simp only [pressed, List.mem_dedup, List.mem_append, not_or] at h
  exact ⟨AList.lookup_eq_none.mpr h.1.1.1, AList.lookup_eq_none.mpr h.1.1.2⟩

theorem refusedIn_sampleOf (c : Settings) (g : Gate) (environment : String) :
    refusedIn environment (sampleOf c g) = (g.refused.get environment).getD 0 := by
  rw [refusedIn, get_sampleOf]
  split_ifs with hmem
  · rfl
  · rw [(not_pressed hmem).1]
    rfl

theorem squeezedIn_sampleOf (c : Settings) (g : Gate) (environment : String) :
    squeezedIn environment (sampleOf c g) = (g.squeezed.get environment).getD 0 := by
  rw [squeezedIn, get_sampleOf]
  split_ifs with hmem
  · rfl
  · rw [(not_pressed hmem).2]
    rfl

/-! ## What is counted -/

/-- Every event but a sample charges what it counts. -/
theorem step_charges (c : Config) (g : Gate) {e : Event} (he : e ≠ .pressure) (environment : String) :
    ((step c.toSettings g e).refused.get environment).getD 0 = (g.refused.get environment).getD 0 +
        (if RefusedAtShare c.toSettings g environment e then 1 else 0) ∧
      ((step c.toSettings g e).squeezed.get environment).getD 0 =
        (g.squeezed.get environment).getD 0 +
          if SqueezesNeighbour c.toSettings g environment e then 1 else 0 := by
  -- only an arriving request is answered
  have hsame : charges (step c.toSettings g e) = charges g → answer c.toSettings g e = none →
      ((step c.toSettings g e).refused.get environment).getD 0 = (g.refused.get environment).getD 0 +
        (if RefusedAtShare c.toSettings g environment e then 1 else 0) ∧
      ((step c.toSettings g e).squeezed.get environment).getD 0 =
        (g.squeezed.get environment).getD 0 +
          if SqueezesNeighbour c.toSettings g environment e then 1 else 0 := by
    intro hcharges hanswer
    obtain ⟨hrefused, hsqueezed⟩ := Prod.mk.inj hcharges
    rw [hrefused, hsqueezed]
    simp [RefusedAtShare, SqueezesNeighbour, hanswer]
  cases e with
  | arrive other aborted budget now =>
      have hrun := run_charged c.toSettings g other aborted budget now
      obtain ⟨given, hanswer⟩ : ∃ given,
          answer c.toSettings g (.arrive other aborted budget now) = given := ⟨_, rfl⟩
      have hshare : RefusedAtShare c.toSettings g environment (.arrive other aborted budget now) ↔
          given = some (environment, .atShare) := by
        rw [RefusedAtShare, hanswer]
      have hfull : SqueezesNeighbour c.toSettings g environment (.arrive other aborted budget now) ↔
          g.activeOf environment > guarantee c.toSettings g.shareOf environment ∧
            given.map Prod.snd = some .full := by
        rw [SqueezesNeighbour, hanswer]
      rw [hanswer] at hrun
      simp only [step, hshare, hfull]
      cases hrun with
      | nothing hnoShare hnoFull hcharges =>
          obtain ⟨hrefused, hsqueezed⟩ := Prod.mk.inj hcharges
          have hnot : given ≠ some (environment, .atShare) := by
            rintro rfl
            exact hnoShare rfl
          rw [hrefused, hsqueezed, if_neg hnot, if_neg fun h => hnoFull h.2]
          simp
      | atShare hraised =>
          obtain ⟨hrefused, hsqueezed⟩ := Prod.mk.inj hraised
          rw [hrefused, hsqueezed, getD_raise]
          simp
      | full hcharged =>
          obtain ⟨hrefused, hsqueezed⟩ := Prod.mk.inj hcharged
          rw [hrefused, hsqueezed, getD_squeeze]
          simp
  | useShares shareOf => exact hsame rfl rfl
  | upstreamSettles call settled => exact hsame (charges_callRun (Steps.upstreamSettles_callRun g call settled)) rfl
  | headerDeadline call => exact hsame (charges_callRun (Steps.stop_callRun g call .deadline)) rfl
  | clientAborts call => exact hsame (charges_callRun (Steps.clientAborts_callRun g call)) rfl
  | continueRun call => exact hsame (charges_callRun (Steps.continueRun_callRun g call)) rfl
  | pullSettles call item => exact hsame (charges_callRun (Steps.pullSettles_callRun g call item)) rfl
  | consumerCancels call => exact hsame (charges_callRun (Steps.consumerCancels_callRun g call)) rfl
  | drainSettles call item => exact hsame (charges_callRun (Steps.drainSettles_callRun g call item)) rfl
  | bodyDeadline call => exact hsame (charges_callRun (Steps.finishBody_callRun g call)) rfl
  | pause other => exact hsame (by simp only [step, pause]; split_ifs <;> rfl) rfl
  | waitForDrain lease timeoutMs => exact hsame (charges_waitForDrain g lease timeoutMs) rfl
  | drainDeadline waiter =>
      refine hsame ?_ rfl
      simp only [step, drainDeadline]
      split
      · rfl
      · split_ifs
        · exact charges_finishWaiter _ _ _
        · rfl
  | resume lease => exact hsame (charges_resume g lease) rfl
  | pressure => exact absurd rfl he

section

variable {c : Config} {w : Window}

/-- Every event but a sample is an event of the gate alone. -/
theorem watched_step (s : Watched) {e : Event} (he : e ≠ .pressure) :
    (watched c w).step s e = { s with gate := step c.toSettings s.gate e } := by
  cases e <;> first | rfl | exact absurd rfl he

/-- What was counted in each sample, and in the one to come. -/
theorem counted_run (counts : Gate → Event → Prop) [∀ g e, Decidable (counts g e)]
    (counter : Gate → ℤ) (reads : Sample → ℤ) (hempty : counter Gate.empty = 0)
    (hstep : ∀ g e, e ≠ .pressure → counter (step c.toSettings g e) =
      counter g + if counts g e then 1 else 0)
    (hreads : ∀ g, reads (sampleOf c.toSettings g) = counter g)
    (hclear : ∀ g, counter (pressure g) = 0) (hnever : ∀ g, ¬ counts g .pressure)
    (events : List Event) (k : ℕ) :
    ((watched c w).total (countedIn counts k) (watched c w).initial events : ℤ) =
      if k = ((watched c w).run events).samples.length then counter ((watched c w).run events).gate
      else (((watched c w).run events).samples[k]?.map reads).getD 0 := by
  induction events using List.reverseRecOn with
  | nil =>
      rw [Machine.total, Machine.run_nil, Nat.cast_zero]
      split_ifs
      · exact hempty.symm
      · rfl
  | append_singleton events e ih =>
      rw [Machine.total_append, Machine.total, Machine.total, Nat.add_zero, Nat.cast_add, ih,
        (watched c w).run_snoc]
      change _ + ((countedIn counts k ((watched c w).run events) e : ℕ) : ℤ) = _
      generalize (watched c w).run events = s
      by_cases he : e = .pressure
      · subst he
        have hsamples : ((watched c w).step s .pressure).samples =
            s.samples ++ [sampleOf c.toSettings s.gate] := rfl
        have hzero : countedIn counts k s .pressure = 0 := if_neg fun h => hnever _ h.1
        rw [hsamples, hzero, List.length_append, List.length_singleton]
        rcases lt_trichotomy k s.samples.length with hlt | rfl | hgt
        · rw [if_neg (by omega), if_neg (by omega), List.getElem?_append_left hlt]
          simp
        · rw [if_pos rfl, if_neg (by omega), List.getElem?_append_right le_rfl, Nat.sub_self,
            List.getElem?_cons_zero, Option.map_some, Option.getD_some, hreads]
          simp
        · rw [if_neg (by omega), List.getElem?_eq_none (by omega)]
          split_ifs with hnext
          · exact (hclear s.gate).symm
          · rw [List.getElem?_eq_none (by rw [List.length_append, List.length_singleton]; omega)]
            rfl
      · rw [watched_step s he, countedIn]
        dsimp only
        by_cases hk : k = s.samples.length
        · rw [if_pos hk, if_pos hk, hstep s.gate e he]
          simp [hk]
        · rw [if_neg hk, if_neg hk, if_neg fun h => hk h.2.symm]
          simp

/-- The counts of the samples, one for each. -/
theorem counted_samples (counts : Gate → Event → Prop) [∀ g e, Decidable (counts g e)]
    (counter : Gate → ℤ) (reads : Sample → ℤ) (events : List Event)
    (hrun : ∀ k, ((watched c w).total (countedIn counts k) (watched c w).initial events : ℤ) =
      if k = ((watched c w).run events).samples.length then counter ((watched c w).run events).gate
      else (((watched c w).run events).samples[k]?.map reads).getD 0) :
    ((watched c w).run events).samples.map reads ++ [counter ((watched c w).run events).gate] =
      (List.range (((watched c w).run events).samples.length + 1)).map fun k =>
        ((watched c w).total (countedIn counts k) (watched c w).initial events : ℤ) := by
  apply List.ext_getElem
  · simp
  · intro k hk hk'
    rw [List.length_append, List.length_map, List.length_singleton] at hk
    rw [List.getElem_map, List.getElem_range, hrun k]
    split_ifs with hlast
    · rw [List.getElem_append_right (by rw [List.length_map]; omega)]
      simp
    · have hlt : k < ((watched c w).run events).samples.length := by omega
      rw [List.getElem_append_left (by rw [List.length_map]; exact hlt), List.getElem_map,
        List.getElem?_eq_getElem hlt]
      rfl

end

/-! ## The law -/

/-- The monitor of a watched gate has read the samples of the gate. -/
theorem watched_monitor (c : Config) (w : Window) (events : List Event) :
    ((watched c w).run events).monitor = (monitor w).run ((watched c w).run events).samples := by
  apply (watched c w).run_invariant (I := fun s => s.monitor = (monitor w).run s.samples)
  · rfl
  · intro s e hs
    by_cases he : e = .pressure
    · subst he
      change sample w s.monitor _ = (monitor w).run (s.samples ++ [_])
      rw [(monitor w).run_snoc, ← hs]
      rfl
    · rw [watched_step s he]
      exact hs

/-- Over any samples a runtime is reported exactly when the saturated samples in
a row that end with the last one are a positive multiple of the window, and the
report adds up the last window. Of a watched gate the samples are those of its
counters: the refusals at a share and the squeezed neighbours of each sample,
and last of the one to come, are the events of one stretch between two samples. -/
theorem pressure_law (c : Config) (w : Window) : (∀ samples pressures runtime,
      reportsOn runtime ((monitor w).run (samples ++ [pressures])).reports =
        if 0 < streak runtime (samples ++ [pressures]) ∧
            w.minutes ∣ streak runtime (samples ++ [pressures]) then
          [addUp runtime ((samples ++ [pressures]).rtake w.minutes.toNat)]
        else []) ∧
    ∀ events,
      ((watched c w).run events).monitor =
        (monitor w).run ((watched c w).run events).samples ∧
      ∀ environment,
        (((watched c w).run events).samples.map (refusedIn environment) ++
            [refusedIn environment (sampleOf c.toSettings ((watched c w).run events).gate)] =
          (List.range (((watched c w).run events).samples.length + 1)).map fun k =>
            ((watched c w).total (countedIn (RefusedAtShare c.toSettings · environment) k)
              (watched c w).initial events : ℤ)) ∧
        ((watched c w).run events).samples.map (squeezedIn environment) ++
            [squeezedIn environment (sampleOf c.toSettings ((watched c w).run events).gate)] =
          (List.range (((watched c w).run events).samples.length + 1)).map fun k =>
            ((watched c w).total (countedIn (SqueezesNeighbour c.toSettings · environment) k)
              (watched c w).initial events : ℤ) := by
  refine ⟨fun samples pressures runtime => ?_, fun events => ⟨watched_monitor c w events, ?_⟩⟩
  · rw [(monitor w).run_snoc]
    exact (kept_sample w (kept_run w samples) pressures).2
  · intro environment
    rw [refusedIn_sampleOf, squeezedIn_sampleOf]
    refine ⟨?_, ?_⟩
    · apply counted_samples _ fun g => (g.refused.get environment).getD 0
      exact counted_run _ _ _ rfl (fun g e he => (step_charges c g he environment).1)
        (refusedIn_sampleOf _ · environment) (fun _ => rfl) (fun _ h => nomatch h) events
    · apply counted_samples _ fun g => (g.squeezed.get environment).getD 0
      exact counted_run _ _ _ rfl (fun g e he => (step_charges c g he environment).2)
        (squeezedIn_sampleOf _ · environment) (fun _ => rfl) (fun _ h => nomatch h.2) events

end Sbarbase.Gateway.Proofs.Pressure
