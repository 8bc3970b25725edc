import Mathlib.Tactic.Ring
import Sbarbase.Starts.Proofs.Adoption
/-!
# Each step keeps the invariant
-/

namespace Sbarbase.Starts.Proofs

open Lib

variable {w : World} {main : Main}

/-! ## Outside the starts -/

/-- Containers that stop. -/
theorem quieter (h : Invariant w) {containers : List Container}
    (hids : ∀ c ∈ containers, ∃ before ∈ w.containers, before.id = c.id)
    (hrunning : ∀ c ∈ containers, c.running = true → c ∈ w.containers) :
    Invariant { w with containers := containers } where
  ids c hc := by
    obtain ⟨before, hbefore, hid⟩ := hids c hc
    exact hid ▸ h.ids before hbefore
  exits := h.exits
  written := h.written
  fresh record hwritten hnone := by
    obtain ⟨htakers, hchild, hearly, hleft⟩ := h.fresh record hwritten hnone
    exact ⟨htakers, hchild, hearly, fun c hc hrun => hleft c (hrunning c hc hrun) hrun⟩
  claimed := h.claimed
  progress := h.progress
  main main hmain howns := (h.main main hmain howns).mono rfl rfl fun c hc hrun =>
    Or.inl (hrunning c hc hrun)
  child child hchild hkind := (h.child child hchild hkind).mono rfl rfl fun c hc hrun =>
    Or.inl (hrunning c hc hrun)
  pair := h.pair
  toProcesses := ⟨h.table, h.execs, h.alive⟩

theorem stopOnly_keeps (h : Invariant w) (ids : List ℕ) :
    Invariant { w with containers := stopOnly ids w.containers } :=
  quieter h (fun _ => id_mem_stopOnly) fun _ => mem_of_mem_stopOnly

theorem stopAll_keeps (h : Invariant w) : Invariant { w with containers := stopAll w.containers } :=
  quieter h (fun _ => id_mem_stopAll) fun c hc hrun =>
    absurd hrun (by simp [not_running_of_mem_stopAll hc])

theorem outside_made (h : Invariant w) (item : Item) : Invariant (outside (.made item) w) := by
  by_cases hlocked : (w.main.isSome || w.child.isSome) = true
  · simp only [outside, if_pos hlocked]
    exact h
  simp only [Bool.or_eq_true, not_or, Bool.not_eq_true, Option.isSome_eq_false_iff,
    Option.isNone_iff_eq_none] at hlocked
  obtain ⟨hmain, hchild⟩ := hlocked
  have hstep : outside (.made item) w = { w with
      containers := w.containers ++ [⟨w.made, item, true, none, false⟩], made := w.made + 1 } := by
    simp [outside, hmain, hchild]
  rw [hstep]
  refine ⟨⟨?_, ?_, h.written, ?_, h.claimed⟩, ⟨h.progress, ?_, ?_, h.pair⟩,
    ⟨h.table, h.execs, h.alive⟩⟩
  · intro c hc
    rcases List.mem_append.mp hc with hbefore | hnew
    · exact (h.ids c hbefore).trans (Nat.lt_succ_self _)
    · obtain rfl := List.mem_singleton.mp hnew
      exact Nat.lt_succ_self _
  · intro exit hexit id kept hget
    exact (h.exits exit hexit id kept hget).trans (Nat.lt_succ_self _)
  · intro record hwritten hnone
    obtain ⟨htakers, hno, hearly, hleft⟩ := h.fresh record hwritten hnone
    refine ⟨htakers, hno, hearly, fun c hc hrun kept hget => ?_⟩
    rcases List.mem_append.mp hc with hbefore | hnew
    · exact hleft c hbefore hrun kept hget
    · -- the id of the new container is above those of the record
      obtain rfl := List.mem_singleton.mp hnew
      obtain ⟨exit, hexit, -, -, hcontainers⟩ := h.written record hwritten
      rw [hcontainers] at hget
      exact absurd (h.exits exit hexit _ _ hget) (lt_irrefl _)
  · intro main hsome
    exact (nomatch hmain.symm.trans hsome)
  · intro child hsome
    exact (nomatch hchild.symm.trans hsome)

theorem outside_file (h : Invariant w) {file : File} (hfile : ∀ record, file ≠ .written record) :
    Invariant { w with file := file } where
  toRecords := h.toRecords.no_file hfile rfl h.ids le_rfl
  toProcesses := ⟨h.table, h.execs, h.alive⟩
  progress := h.progress
  main := h.main
  child := h.child
  pair := h.pair

theorem outside_keeps (h : Invariant w) (event : Outside) : Invariant (outside event w) := by
  cases event with
  | exited ids => exact stopOnly_keeps h ids
  | made item => exact outside_made h item
  | spoiled => exact outside_file h fun _ => nofun
  | discarded => exact outside_file h fun _ => nofun
  | clock | head | supported | waiting | cutover | effect =>
      exact ⟨⟨h.ids, h.exits, h.written, h.fresh, h.claimed⟩,
        ⟨h.progress, h.main, h.child, h.pair⟩, ⟨h.table, h.execs, h.alive⟩⟩

/-! ## Processes -/

/-- A process that has gone. -/
theorem mem_reap {process other : Process} :
    other ∈ (w.reap process).table ↔ other ∈ w.table ∧ other ≠ process := by
  simp [World.reap]

theorem not_used_of_free {process : Process} (h : w.free process = true) : process ∉ w.used := by
  simp only [World.free, Bool.and_eq_true, Bool.not_eq_true', List.contains_eq_mem,
    decide_eq_false_iff_not] at h
  exact h.1

theorem mem_used_of_mem_spawn (h : Processes w) {process other : Process}
    (hmem : other ∈ (w.spawn process).table) : other ∈ (w.spawn process).used := by
  rcases List.mem_cons.mp hmem with rfl | hbefore
  · exact List.mem_cons_self
  · exact List.mem_cons_of_mem _ (h.table other hbefore)

/-- A claim is never on the process that the kernel makes. -/
theorem not_mem_spawn {process other : Process} (hfree : w.free process = true)
    (hused : other ∈ w.used) (hgone : other ∉ w.table) : other ∉ (w.spawn process).table := by
  intro hmem
  rcases List.mem_cons.mp hmem with rfl | hbefore
  · exact not_used_of_free hfree hused
  · exact hgone hbefore

/-- `main` begins, when no other start and no child of one holds its lock. -/
theorem begun (h : Invariant w) (hmain : w.main = none) (hchild : w.child = none)
    {process : Process} {handover guarded : Bool} {w' : World}
    (hw : w' = { w' with
      file := w.file, containers := w.containers, made := w.made, exit := w.exit
      takers := w.takers, child := w.child
      main := some (newMain w.starts process handover guarded) })
    (htable : ∀ other ∈ w'.table, other ∈ w'.used) (hused : ∀ other ∈ w.used, other ∈ w'.used)
    (hexecs : ∀ other ∈ w'.execs, other ∈ w.execs) (hprocess : process ∈ w'.used)
    (hgone : ∀ other ∈ w.used, other ∉ w.table → other ∉ w'.table) : Invariant w' := by
  rw [hw]
  refine ⟨⟨h.ids, h.exits, h.written, ?_, ?_⟩, ⟨?_, ?_, ?_, ?_⟩,
    ⟨htable, fun other hmem => hused other (h.execs other (hexecs other hmem)), ?_⟩⟩
  · intro record hwritten hnone
    obtain ⟨htakers, hno, -, hleft⟩ := h.fresh record hwritten hnone
    refine ⟨htakers, hno, fun other hother => ?_, hleft⟩
    obtain rfl := Option.some.inj hother
    exact Or.inl rfl
  · intro record other hwritten hclaimed
    have hbefore := (h.claimed record other hwritten hclaimed).1
    refine ⟨hused other hbefore, fun hmem => absurd hmem ?_⟩
    exact hgone other hbefore (h.gone_of_none hmain record other hwritten hclaimed)
  · intro other hother
    obtain rfl := Option.some.inj hother
    exact ⟨fun _ => ⟨rfl, rfl, rfl⟩, by simp [newMain], by simp [newMain]⟩
  · intro other hother howns
    obtain rfl := Option.some.inj hother
    simp [Owns, newMain] at howns
  · intro child hsome
    exact (nomatch hchild.symm.trans hsome)
  · intro _ child _ hsome
    exact (nomatch hchild.symm.trans hsome)
  · intro other hother
    obtain rfl := Option.some.inj hother
    exact hprocess

theorem begin_keeps (h : Invariant w) (process : Process) (handover guarded : Bool) :
    Invariant (begin_ process handover guarded w) := by
  unfold begin_
  by_cases hlocked : (w.main.isSome || w.child.isSome) = true
  · rw [if_pos hlocked]
    exact h
  rw [if_neg hlocked]
  simp only [Bool.or_eq_true, not_or, Bool.not_eq_true, Option.isSome_eq_false_iff,
    Option.isNone_iff_eq_none] at hlocked
  obtain ⟨hmain, hchild⟩ := hlocked
  split_ifs with hhandover hexec hfree
  · have hmem : process ∈ w.execs := by simpa using hexec
    exact begun h hmain hchild rfl h.table (fun _ hused => hused)
      (fun _ hother => (List.mem_filter.mp hother).1) (h.execs process hmem) fun _ _ hgone => hgone
  · exact h
  · exact begun h hmain hchild rfl (fun _ => mem_used_of_mem_spawn h.toProcesses)
      (fun _ hused => List.mem_cons_of_mem _ hused) (fun _ hother => hother) List.mem_cons_self
      fun _ hused hgone => not_mem_spawn hfree hused hgone
  · exact h

/-! ## The settle -/

theorem Owned.no_child (h : Owned w) (hmain : w.main = some main) (hphase : main.phase ≠ .up) :
    w.child = none := by
  rcases Option.eq_none_or_eq_some w.child with hchild | ⟨child, hchild⟩
  · exact hchild
  · exact absurd (h.pair main child hmain hchild).1 hphase

/-- `main` goes on to another phase, with the record as it is or gone. -/
theorem moved (h : Invariant w) (hmain : w.main = some main) (hphase : main.phase ≠ .up)
    {main' : Main} {file : File} (hfile : ∀ record, file = .written record → w.file = file)
    (hprocess : main'.process = main.process)
    (hearly : ∀ record, file = .written record → Early main → Early main')
    (hlate : ∀ record, file = .written record → Late main →
      main'.settled = main.settled ∧ Late main')
    (hprogress : Progress main') (howns : Owns main' → Sound w main'.start main'.judged main'.seen) :
    Invariant { w with file := file, main := some main' } := by
  have hchild := h.toOwned.no_child hmain hphase
  refine ⟨⟨h.ids, h.exits, ?_, ?_, ?_⟩, ⟨?_, ?_, ?_, ?_⟩, ⟨h.table, h.execs, ?_⟩⟩
  · intro record hwritten
    exact h.written record ((hfile record hwritten).trans hwritten)
  · intro record hwritten hnone
    obtain ⟨htakers, hno, hbefore, hleft⟩ :=
      h.fresh record ((hfile record hwritten).trans hwritten) hnone
    refine ⟨htakers, hno, fun other hother => ?_, hleft⟩
    obtain rfl := Option.some.inj hother
    exact hearly record hwritten (hbefore main hmain)
  · intro record process hwritten hclaimed
    obtain ⟨hused, hmem⟩ :=
      h.claimed record process ((hfile record hwritten).trans hwritten) hclaimed
    refine ⟨hused, fun htable => ?_⟩
    obtain ⟨other, hother, hclaims, hheld, hphase⟩ := hmem htable
    obtain rfl : main = other := Option.some.inj (hmain.symm.trans hother)
    obtain ⟨hsettled, hstill⟩ := hlate record hwritten hphase
    refine ⟨main', rfl, hprocess.trans hclaims, ?_, hstill⟩
    rw [Main.held, hsettled]
    exact hheld
  · intro other hother
    obtain rfl := Option.some.inj hother
    exact hprogress
  · intro other hother
    obtain rfl := Option.some.inj hother
    exact howns
  · intro child hsome
    exact (nomatch hchild.symm.trans hsome)
  · intro _ child _ hsome
    exact (nomatch hchild.symm.trans hsome)
  · intro other hother
    obtain rfl := Option.some.inj hother
    exact hprocess ▸ h.alive main hmain

/-- The record is gone, so only `main` has to be answered for. -/
theorem moved_without (h : Invariant w) (hmain : w.main = some main) (hphase : main.phase ≠ .up)
    {main' : Main} (hprocess : main'.process = main.process) (hprogress : Progress main')
    (howns : Owns main' → Sound w main'.start main'.judged main'.seen) :
    Invariant { w with file := .absent, main := some main' } :=
  moved h hmain hphase (fun _ => nofun) hprocess (fun _ => nofun) (fun _ => nofun) hprogress howns

theorem not_running_of_nil (h : w.running = []) : ∀ c ∈ w.containers, c.running = false := by
  intro c hc
  by_contra hrun
  have hmem : (c.id, c.item) ∈ w.running :=
    mem_running.mpr ⟨c, hc, Bool.not_eq_false _ ▸ hrun, rfl⟩
  rw [h] at hmem
  exact (nomatch hmem)

theorem ask_keeps (h : Invariant w) (hmain : w.main = some main) (hphase : main.phase = .settle)
    (answers : Bool) : Invariant (ask main answers w) := by
  have hnot : main.phase ≠ .up := by simp [hphase]
  have hlate : ¬ Late main := by simp [Late, hphase]
  obtain ⟨hsettled, hstarted, hseen⟩ := (h.progress main hmain).unsettled (Or.inl hphase)
  have hkeep := (h.progress main hmain).keep
  unfold ask
  split
  · refine moved h hmain hnot (fun _ _ => rfl) rfl (fun _ _ _ => Or.inr (Or.inr (Or.inl rfl)))
      (fun _ _ hl => absurd hl hlate) ⟨by simp, by simp, hkeep⟩ ?_
    simp [Owns, Main.decided, Main.held]
  · rename_i hempty
    refine moved_without h hmain hnot rfl ⟨by simp, by simp, hkeep⟩ fun _ => sound_of_none ?_
    cases answers with
    | false => exact (nomatch hempty)
    | true => exact not_running_of_nil (Option.some.inj hempty)
  · exact moved h hmain hnot (fun _ _ => rfl) rfl (fun _ _ _ => Or.inr (Or.inl rfl))
      (fun _ _ hl => absurd hl hlate) ⟨fun _ => ⟨hsettled, hstarted, hseen⟩, by simp, hkeep⟩ (by simp [Owns])

/-- The record has the moment of its exit in whole seconds. -/
theorem age_le {now moment grace : ℕ}
    (h : now ≤ (moment / microseconds + maxAge + grace) * microseconds) :
    now ≤ moment + (maxAge + grace) * microseconds := by
  calc now ≤ (moment / microseconds + maxAge + grace) * microseconds := h
    _ = moment / microseconds * microseconds + (maxAge + grace) * microseconds := by ring
    _ ≤ moment + (maxAge + grace) * microseconds :=
      Nat.add_le_add_right (Nat.div_mul_le_self _ _) _

/-- A record that holds for the settle of a start was left for that start. -/
theorem adoptable_of_holds (h : Records w) (hmain : w.main = some main) (hlate : ¬ Late main)
    {record : Record} (hwritten : w.file = .written record)
    (hholds : Holds record w.running w.head w.waiting w.clock 0 w.table) :
    Sound w main.start (some ⟨w.clock, w.head, w.running⟩) none := by
  have hnone : record.claimed = none := by
    rcases Option.eq_none_or_eq_some record.claimed with hnone | ⟨process, hclaimed⟩
    · exact hnone
    · exact absurd (hholds.claimed process hclaimed)
        (h.gone hmain hlate record process hwritten hclaimed)
  obtain ⟨exit, hexit, htarget, hmoment, hcontainers⟩ := h.written record hwritten
  obtain ⟨htakers, -, -, hleft⟩ := h.fresh record hwritten hnone
  intro c hc hrun
  have hfound : (c.id, c.item) ∈ w.running := mem_running.mpr ⟨c, hc, hrun, rfl⟩
  have hage : w.clock ≤ exit.clock + maxAge * microseconds := by
    have hbefore := hholds.age
    rw [hmoment] at hbefore
    have hage := age_le hbefore
    rwa [Nat.add_zero] at hage
  refine Or.inr ⟨exit, ⟨w.clock, w.head, w.running⟩, hexit, rfl, htarget ▸ hholds.target, hage,
    fun _ => nofun, fun entry hentry => hcontainers ▸ hholds.running entry hentry, hfound, ?_, ?_⟩
  · exact hleft c hc hrun c.item (hholds.running _ hfound)
  · intro taker htaker
    rw [htakers] at htaker
    exact (nomatch htaker)

theorem decide_keeps (h : Invariant w) (hmain : w.main = some main) (hphase : main.phase = .decide)
    (answers : Bool) (parent : ℕ) : Invariant (decideStep main answers parent w) := by
  have hnot : main.phase ≠ .up := by simp [hphase]
  have hlate : ¬ Late main := by simp [Late, hphase]
  obtain ⟨hsettled, hstarted, hseen⟩ := (h.progress main hmain).unsettled (Or.inr (Or.inl hphase))
  have hkeep := (h.progress main hmain).keep
  unfold decideStep
  split
  · refine moved h hmain hnot (fun _ _ => rfl) rfl (fun _ _ _ => Or.inr (Or.inr (Or.inl rfl)))
      (fun _ _ hl => absurd hl hlate) ⟨by simp, by simp, hkeep⟩ ?_
    simp [Owns, Main.decided, Main.held]
  split
  · rename_i record hcurrent
    obtain ⟨hwritten, found, hfound, hholds⟩ := holds_of_current hcurrent
    obtain rfl : w.running = found := by
      cases answers with
      | false => exact (nomatch hfound)
      | true => exact Option.some.inj hfound
    refine moved h hmain hnot (fun _ _ => rfl) rfl (fun _ _ _ => Or.inr (Or.inr (Or.inl rfl)))
      (fun _ _ hl => absurd hl hlate) ⟨by simp, by simp, hkeep⟩ fun _ => ?_
    simp only [hseen]
    exact adoptable_of_holds h.toRecords hmain hlate hwritten hholds
  · exact moved_without h hmain hnot rfl ⟨fun _ => ⟨hsettled, hstarted, hseen⟩, by simp, hkeep⟩ (by simp [Owns])

end Sbarbase.Starts.Proofs
