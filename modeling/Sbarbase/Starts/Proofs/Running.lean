import Sbarbase.Starts.Proofs.Keeping
/-!
# From the claim to the end of a start
-/

namespace Sbarbase.Starts.Proofs

open Lib

variable {w : World} {main : Main} {child : Child}

/-- The process of `main` ends, by a kill or at the end of its work. -/
theorem killed_keeps (h : Invariant w) (hmain : w.main = some main) :
    Invariant (w.endMain main) := by
  refine ⟨⟨h.ids, h.exits, h.written, ?_, ?_⟩, ⟨?_, ?_, h.child, ?_⟩, ⟨?_, h.execs, ?_⟩⟩
  · intro record hwritten hnone
    obtain ⟨htakers, hchild, -, hleft⟩ := h.fresh record hwritten hnone
    exact ⟨htakers, hchild, fun _ hsome => (nomatch hsome), hleft⟩
  · intro record process hwritten hclaimed
    obtain ⟨hused, hmem⟩ := h.claimed record process hwritten hclaimed
    refine ⟨hused, fun htable => ?_⟩
    -- the process of the claim is the one that ends
    obtain ⟨hbefore, hother⟩ := mem_reap.mp htable
    obtain ⟨other, hsome, hprocess, -⟩ := hmem hbefore
    obtain rfl : main = other := Option.some.inj (hmain.symm.trans hsome)
    exact absurd hprocess.symm hother
  · exact fun _ hsome => (nomatch hsome)
  · exact fun _ hsome => (nomatch hsome)
  · exact fun _ _ hsome => (nomatch hsome)
  · exact fun process hmem => h.table process (mem_reap.mp hmem).1
  · exact fun _ hsome => (nomatch hsome)

theorem stopped_keeps (h : Invariant w) (hmain : w.main = some main)
    (hphase : main.phase = .leftover) : Invariant { w with
      containers := stopAll w.containers
      main := some { main with phase := .take, settled := some .stopped } } := by
  have hstopped := stopAll_keeps h
  refine moved hstopped hmain (by simp [hphase]) (fun _ _ => rfl) rfl
    (fun _ _ _ => Or.inr (Or.inr (Or.inl rfl))) (fun _ _ hl => absurd hl (by simp [Late, hphase]))
    ⟨by simp, by simp, (h.progress main hmain).keep⟩ fun _ => sound_of_none ?_
  exact fun c hc => not_running_of_mem_stopAll hc

theorem leftover_keeps (h : Invariant w) (hmain : w.main = some main)
    (hphase : main.phase = .leftover) (ids : List ℕ) (ok : Bool) :
    Invariant (leftoverStep main ids ok w) := by
  cases ok with
  | true => exact stopped_keeps h hmain hphase
  | false => exact stopOnly_keeps (killed_keeps h hmain) ids

/-! ## The claim -/

theorem claim_cases (file : File) (process : Process) : (∃ record, file = .written record ∧
      claim file process = .written { record with claimed := some process }) ∨
    ((∀ record, file ≠ .written record) ∧ claim file process = file) := by
  cases file with
  | absent => exact Or.inr ⟨fun _ => nofun, rfl⟩
  | damaged => exact Or.inr ⟨fun _ => nofun, rfl⟩
  | written record => exact Or.inl ⟨record, rfl, rfl⟩

/-- The record that a claim leaves is the one of the last exit, claimed by this process. -/
theorem of_claim {file : File} {process : Process} {record : Record}
    (h : claim file process = .written record) : ∃ before, file = .written before ∧
      record = { before with claimed := some process } := by
  rcases claim_cases file process with ⟨before, hfile, hclaim⟩ | ⟨hno, hsame⟩
  · rw [hclaim] at h
    exact ⟨before, hfile, (File.written.inj h).symm⟩
  · exact absurd (hsame.symm.trans h) (hno record)

/-- No other start has taken the record of the last exit when `main` is about to. -/
theorem claimed_keeps (h : Invariant w) (hmain : w.main = some main) (hphase : main.phase = .take)
    (hheld : main.held = true) : Invariant { w with
      file := claim w.file main.process, takers := main.start :: w.takers
      main := some { main with phase := .gates, origin := w.head } } := by
  have hchild := h.toOwned.no_child hmain (by simp [hphase])
  have hprogress := h.progress main hmain
  refine ⟨⟨h.ids, h.exits, ?_, ?_, ?_⟩, ⟨?_, ?_, ?_, ?_⟩, ⟨h.table, h.execs, ?_⟩⟩
  · intro record hwritten
    obtain ⟨before, hfile, rfl⟩ := of_claim hwritten
    exact h.written before hfile
  · intro record hwritten hnone
    obtain ⟨before, -, rfl⟩ := of_claim hwritten
    cases hnone
  · intro record process hwritten hclaimed
    obtain ⟨before, -, rfl⟩ := of_claim hwritten
    obtain rfl := Option.some.inj hclaimed
    exact ⟨h.alive main hmain, fun _ => ⟨_, rfl, rfl, hheld, Or.inl rfl⟩⟩
  · intro other hother
    obtain rfl := Option.some.inj hother
    exact ⟨by simp, by simp, hprogress.keep⟩
  · intro other hother _
    obtain rfl := Option.some.inj hother
    have howns : Owns main := Or.inl ⟨Or.inl hphase, by simp [Main.decided, hheld]⟩
    intro c hc hrun
    refine (h.main main hmain howns c hc hrun).imp_right ?_
    rintro ⟨exit, judgement, hexit, hjudged, htarget, hage, hseen, hfound, hmem, hleft, htakers⟩
    refine ⟨exit, judgement, hexit, hjudged, htarget, hage, hseen, hfound, hmem, hleft, ?_⟩
    intro taker htaker
    rcases List.mem_cons.mp htaker with rfl | hbefore
    · rfl
    · exact htakers taker hbefore
  · intro child hsome
    cases hchild.symm.trans hsome
  · intro _ child _ hsome
    cases hchild.symm.trans hsome
  · intro other hother
    obtain rfl := Option.some.inj hother
    exact h.alive main hmain

theorem take_keeps (h : Invariant w) (hmain : w.main = some main) (hphase : main.phase = .take)
    (written : Bool) : Invariant (take main written w) := by
  have hnot : main.phase ≠ .up := by simp [hphase]
  have hprogress := h.progress main hmain
  unfold take
  by_cases hwritten : (!written) = true
  · rw [if_pos hwritten]
    exact moved h hmain hnot (fun _ _ => rfl) rfl (fun _ _ _ => Or.inr (Or.inr (Or.inr rfl)))
      (fun _ _ hl => absurd hl (by simp [Late, hphase])) ⟨by simp, by simp, hprogress.keep⟩
      (by simp [Owns])
  rw [if_neg hwritten]
  by_cases hheld : main.held = true
  · rw [if_pos hheld]
    exact claimed_keeps h hmain hphase hheld
  · rw [if_neg hheld]
    refine moved_without h hmain hnot rfl ⟨by simp, by simp, hprogress.keep⟩ fun howns => ?_
    have hdecided : main.decided = true := by simpa [Owns, Main.decided, Main.held] using howns
    exact h.main main hmain (Or.inl ⟨Or.inl hphase, hdecided⟩)

/-! ## Commands to Docker -/

theorem act_frame (start : ℕ) (a : Act) (w : World) : act start a w = { w with
      containers := (act start a w).containers, made := (act start a w).made } := by
  cases a <;> rfl

/-- Commands of the start of `main`, or of a child that outlived its start. -/
theorem act_keeps (h : Invariant w) {start : ℕ} (a : Act)
    (hfresh : ∀ record, w.file = .written record → record.claimed ≠ none)
    (hmain : ∀ main, w.main = some main → main.start = start)
    (hchild : ∀ child, w.child = some child → child.start = start) :
    Invariant (act start a w) := by
  have hids : ∀ c ∈ (act start a w).containers, c.id < (act start a w).made :=
    fun c hc => id_lt_of_act h.ids hc
  have hrunning : ∀ c ∈ (act start a w).containers, c.running = true →
      c ∈ w.containers ∨ c.start = some start := fun c hc hrun => running_of_act hc hrun
  have hmade := made_le_act start a w
  rw [act_frame]
  refine ⟨h.toRecords.change rfl hfresh rfl hids hmade h.claimed,
    ⟨h.progress, ?_, ?_, h.pair⟩, ⟨h.table, h.execs, h.alive⟩⟩
  · intro main hsome howns
    refine (h.main main hsome howns).mono rfl rfl fun c hc hrun => ?_
    rw [hmain main hsome]
    exact hrunning c hc hrun
  · intro child hsome hkind
    refine (h.child child hsome hkind).mono rfl rfl fun c hc hrun => ?_
    rw [hchild child hsome]
    exact hrunning c hc hrun

theorem mainAct_keeps (h : Invariant w) (hmain : w.main = some main)
    (hphase : main.phase = .gates ∨ main.phase = .run) (a : Act) :
    Invariant (act main.start a w) := by
  have hnot : main.phase ≠ .up := by rcases hphase with hp | hp <;> simp [hp]
  have hchild := h.toOwned.no_child hmain hnot
  refine act_keeps h a (h.toRecords.not_fresh hmain ?_) ?_ ?_
  · rcases hphase with hp | hp <;> simp [Early, hp]
  · intro other hother
    rw [Option.some.inj (hmain.symm.trans hother)]
  · intro child hsome
    exact (nomatch hchild.symm.trans hsome)

theorem childAct_keeps (h : Invariant w) (hchild : w.child = some child) (a : Act) :
    Invariant (act child.start a w) := by
  refine act_keeps h a (h.toRecords.not_fresh_of_child hchild) ?_ ?_
  · intro main hmain
    exact (h.pair main child hmain hchild).2.2.1.symm
  · intro other hother
    rw [Option.some.inj (hchild.symm.trans hother)]

/-! ## The runtime start -/

/-- A start whose settle did not decide goes on only beside what it brought up itself. -/
def goesOn (w : World) (event : Event) : Bool :=
  match w.main, event with
  | some main, .gate (.pass _) =>
    main.decided || w.containers.all fun c => !c.running || c.start == some main.start
  | _, _ => true

theorem sound_of_goesOn (h : Invariant w) (hmain : w.main = some main)
    (hphase : main.phase = .gates) {process : Process}
    (hgoes : goesOn w (.gate (.pass process)) = true) :
    Sound w main.start main.judged main.seen := by
  simp only [goesOn, hmain, Bool.or_eq_true] at hgoes
  rcases hgoes with hdecided | hall
  · exact h.main main hmain (Or.inl ⟨Or.inr hphase, hdecided⟩)
  · intro c hc hrun
    have hown := List.all_eq_true.mp hall c hc
    rw [hrun] at hown
    exact Or.inl (by simpa using hown)

/-- No start has read the record of its own runtime start yet. -/
theorem Sound.forget {start : ℕ} {judged : Option Judged} {seen : Option ℕ}
    (h : Sound w start judged seen) : Sound w start judged none := by
  intro c hc hrun
  refine (h c hc hrun).imp_right ?_
  rintro ⟨exit, judgement, hexit, hjudged, htarget, hage, -, hrest⟩
  exact ⟨exit, judgement, hexit, hjudged, htarget, hage, fun _ => nofun, hrest⟩

theorem pass_keeps (h : Invariant w) (hmain : w.main = some main) (hphase : main.phase = .gates)
    {process : Process} (hfree : w.free process = true)
    (hsound : Sound w main.start main.judged main.seen) : Invariant { w.spawn process with
      main := some { main with phase := .up, started := true }
      child := some ⟨.up, main.start, process, main.process, false, false, main.judged, none⟩ } := by
  refine ⟨h.toRecords.change rfl (h.toRecords.not_fresh hmain (by simp [Early, hphase])) rfl h.ids
    le_rfl ?_, ⟨?_, ?_, ?_, ?_⟩, ⟨fun _ => mem_used_of_mem_spawn h.toProcesses, ?_, ?_⟩⟩
  · intro record other hwritten hclaimed
    obtain ⟨hused, hmem⟩ := h.claimed record other hwritten hclaimed
    refine ⟨List.mem_cons_of_mem _ hused, fun htable => ?_⟩
    rcases List.mem_cons.mp htable with rfl | hbefore
    · exact absurd hused (not_used_of_free hfree)
    · obtain ⟨before, hsome, hprocess, hheld, -⟩ := hmem hbefore
      obtain rfl : main = before := Option.some.inj (hmain.symm.trans hsome)
      exact ⟨_, rfl, hprocess, hheld, Or.inr (Or.inl rfl)⟩
  · intro other hother
    obtain rfl := Option.some.inj hother
    exact ⟨by simp, by simp, (h.progress main hmain).keep⟩
  · intro other hother howns
    obtain rfl := Option.some.inj hother
    simp [Owns] at howns
  · intro other hother _
    obtain rfl := Option.some.inj hother
    exact hsound.forget.mono rfl rfl fun _ hc _ => Or.inl hc
  · intro main' child' hmain' hchild'
    obtain rfl := Option.some.inj hmain'
    obtain rfl := Option.some.inj hchild'
    exact ⟨rfl, rfl, rfl, rfl⟩
  · exact fun other hother => List.mem_cons_of_mem _ (h.execs other hother)
  · intro other hother
    obtain rfl := Option.some.inj hother
    exact List.mem_cons_of_mem _ (h.alive main hmain)

/-- `main` turns to `close_runtime`. -/
theorem closing_keeps (h : Invariant w) (hmain : w.main = some main)
    (hphase : main.phase = .gates ∨ main.phase = .finish ∨ main.phase = .run) (keep : Bool)
    (hkeep : keep = true → main.up = false → main.handover = true) :
    Invariant { w with main := some { main with phase := .close, keep := keep } } := by
  have hnot : main.phase ≠ .up := by rcases hphase with hp | hp | hp <;> simp [hp]
  refine moved h hmain hnot (fun _ _ => rfl) rfl (fun _ _ hearly => absurd hearly ?_)
    (fun _ _ _ => ⟨rfl, Or.inr (Or.inr (Or.inr rfl))⟩) ⟨by simp, by simp, hkeep⟩ (by simp [Owns])
  rcases hphase with hp | hp | hp <;> simp [Early, hp]

theorem gate_keeps (h : Invariant w) (hmain : w.main = some main) (hphase : main.phase = .gates)
    (gate : Gate) (hgoes : goesOn w (.gate gate) = true) : Invariant (gateStep main gate w) := by
  cases gate with
  | pass process =>
      simp only [gateStep]
      by_cases hfree : w.free process = true
      · rw [if_pos hfree]
        exact pass_keeps h hmain hphase hfree (sound_of_goesOn h hmain hphase hgoes)
      · rw [if_neg hfree]
        exact h
  | fails => exact closing_keeps h hmain (Or.inl hphase) main.keep (h.progress main hmain).keep
  | refused asked =>
      simp only [gateStep]
      by_cases hhandover : main.handover = true
      · rw [if_pos hhandover]
        exact closing_keeps h hmain (Or.inl hphase) _ fun _ _ => hhandover
      · rw [if_neg hhandover]
        exact h

/-- The child of a start goes on. -/
theorem child_keeps (h : Invariant w) (hchild : w.child = some child) {child' : Child}
    (hkind : child'.kind = child.kind) (hstart : child'.start = child.start)
    (hjudged : child'.judged = child.judged)
    (hsound : child'.kind = .up → Sound w child'.start child'.judged child'.seen) :
    Invariant { w with child := some child' } := by
  refine ⟨h.toRecords.change rfl (h.toRecords.not_fresh_of_child hchild) rfl h.ids le_rfl h.claimed,
    ⟨h.progress, h.main, ?_, ?_⟩, ⟨h.table, h.execs, h.alive⟩⟩
  · intro other hother hup
    obtain rfl := Option.some.inj hother
    exact hsound hup
  · intro main other hmain hother
    obtain rfl := Option.some.inj hother
    obtain ⟨hphase, hup, hsame, hjudge⟩ := h.pair main child hmain hchild
    exact ⟨hphase, hkind.trans hup, hstart.trans hsame, hjudged.trans hjudge⟩

theorem check_keeps (h : Invariant w) (hchild : w.child = some child) (parent : ℕ)
    (answers : Bool) : Invariant (check child parent answers w) := by
  unfold check
  by_cases hready : child.kind = .up ∧ child.checked = false ∧ child.refused = false ∧
      (w.table.contains child.parent → parent = child.parent.pid)
  swap
  · rw [if_neg hready]
    exact h
  rw [if_pos hready]
  have hsound := h.child child hchild hready.1
  split
  · -- the runtime start reads the record of the last exit
    rename_i record hcurrent
    refine child_keeps h hchild rfl rfl rfl fun _ => ?_
    obtain ⟨hwritten, found, -, hholds⟩ := holds_of_current hcurrent
    obtain ⟨exit, hexit, -, hmoment, -⟩ := h.written record hwritten
    have hage := hholds.age
    rw [hmoment] at hage
    intro c hc hrun
    refine (hsound c hc hrun).imp_right ?_
    rintro ⟨left, judgement, hleft, hjudged, htarget, hbefore, -, hrest⟩
    obtain rfl : exit = left := Option.some.inj (hexit.symm.trans hleft)
    refine ⟨exit, judgement, hexit, hjudged, htarget, hbefore, ?_, hrest⟩
    intro clock hclock
    obtain rfl := Option.some.inj hclock
    exact age_le hage
  · split_ifs
    · exact child_keeps h hchild rfl rfl rfl fun _ => hsound
    · exact child_keeps h hchild rfl rfl rfl fun _ => hsound

theorem ended_keeps (h : Invariant w) (hmain : w.main = some main)
    (hchild : w.child = some child) (ok : Bool) : Invariant (ended main child ok w) := by
  have hprogress := h.progress main hmain
  obtain ⟨-, hup, hstart, hjudged⟩ := h.pair main child hmain hchild
  have hsound := h.child child hchild hup
  rw [hstart, hjudged] at hsound
  unfold ended
  by_cases hwaits : (ok && !child.checked) = true
  · rw [if_pos hwaits]
    exact h
  rw [if_neg hwaits]
  refine ⟨h.toRecords.change rfl (h.toRecords.not_fresh_of_child hchild) rfl h.ids le_rfl ?_,
    ⟨?_, ?_, ?_, ?_⟩, ⟨?_, h.execs, ?_⟩⟩
  · intro record process hwritten hclaimed
    obtain ⟨hused, hmem⟩ := h.claimed record process hwritten hclaimed
    refine ⟨hused, fun htable => ?_⟩
    obtain ⟨other, hother, hprocess, hheld, -⟩ := hmem (mem_reap.mp htable).1
    obtain rfl : main = other := Option.some.inj (hmain.symm.trans hother)
    cases ok with
    | true => exact ⟨_, rfl, hprocess, hheld, Or.inr (Or.inr (Or.inl rfl))⟩
    | false => exact ⟨_, rfl, hprocess, hheld, Or.inr (Or.inr (Or.inr rfl))⟩
  · intro other hother
    obtain rfl := Option.some.inj hother
    cases ok with
    | true => exact ⟨by simp, fun _ => rfl, fun _ hno => by cases hno⟩
    | false => exact ⟨by simp, by simp, hprogress.keep⟩
  · intro other hother howns
    obtain rfl := Option.some.inj hother
    cases ok with
    | true => exact hsound.mono rfl rfl fun _ hc _ => Or.inl hc
    | false => simp [Owns] at howns
  · exact fun _ hsome => (by cases hsome)
  · exact fun _ _ _ hsome => (by cases hsome)
  · exact fun process hmem => h.table process (mem_reap.mp hmem).1
  · intro other hother
    obtain rfl := Option.some.inj hother
    cases ok <;> exact h.alive main hmain

theorem finish_keeps (h : Invariant w) (hmain : w.main = some main) (hphase : main.phase = .finish) :
    Invariant { w with file := .absent, main := some { main with phase := .run } } := by
  have hup := (h.progress main hmain).up (Or.inl hphase)
  refine moved_without h hmain (by simp [hphase]) rfl ⟨by simp, fun _ => hup, ?_⟩ fun _ => ?_
  · exact (h.progress main hmain).keep
  · exact h.main main hmain (Or.inr (Or.inl hphase))

/-! ## The end of a start -/

theorem stop_keeps (h : Invariant w) (hmain : w.main = some main) (ids : List ℕ) (ok : Bool) :
    Invariant (stop main ids ok w) := by
  have hended : Invariant { w.endMain main with file := .absent } :=
    outside_file (killed_keeps h hmain) fun _ => nofun
  cases ok with
  | true => exact stopAll_keeps hended
  | false => exact stopOnly_keeps hended ids

theorem leave_keeps (h : Invariant w) (hmain : w.main = some main) (hphase : main.phase = .close)
    (target : String) (plan : Bool) : Invariant (leaveStep main target plan w) := by
  have hchild := h.toOwned.no_child hmain (by simp [hphase])
  have hchild' : (leaveStep main target plan w).child = none := by
    cases plan <;> exact hchild
  have hids : ∀ c ∈ (leaveStep main target plan w).containers,
      c.id < (leaveStep main target plan w).made := by
    intro c hc
    obtain ⟨before, hbefore, rfl⟩ := List.mem_map.mp hc
    cases plan <;> exact h.ids before hbefore
  refine ⟨⟨hids, ?_, ?_, ?_, ?_⟩, ⟨?_, ?_, ?_, ?_⟩, ⟨?_, ?_, ?_⟩⟩
  · intro exit hexit id item hget
    obtain rfl := Option.some.inj hexit
    obtain ⟨c, hc, -, hentry⟩ := mem_running.mp (get_kept hget |>.resolve_right nofun)
    obtain rfl := congrArg Prod.fst hentry
    cases plan <;> exact h.ids c hc
  · intro record hwritten
    obtain rfl := File.written.inj hwritten
    exact ⟨_, rfl, rfl, rfl, rfl⟩
  · intro record hwritten _
    refine ⟨rfl, hchild', fun _ hsome => (nomatch hsome), fun c hc hrun _ _ => ?_⟩
    obtain ⟨before, -, rfl⟩ := List.mem_map.mp hc
    exact hrun
  · intro record process hwritten hclaimed
    obtain rfl := File.written.inj hwritten
    exact (nomatch hclaimed)
  · exact fun _ hsome => (nomatch hsome)
  · exact fun _ hsome => (nomatch hsome)
  · exact fun _ hsome => (nomatch hchild'.symm.trans hsome)
  · exact fun _ _ hsome => (nomatch hsome)
  · cases plan with
    | true => exact h.table
    | false => exact fun process hmem => h.table process (mem_reap.mp hmem).1
  · cases plan with
    | true =>
        intro process hmem
        rcases List.mem_cons.mp hmem with rfl | hbefore
        · exact h.alive main hmain
        · exact h.execs process hbefore
    | false => exact h.execs
  · exact fun _ hsome => (nomatch hsome)

theorem close_keeps (h : Invariant w) (hmain : w.main = some main) (hphase : main.phase = .close)
    (answers written plan : Bool) : Invariant (close main answers written plan w) := by
  have hstops : Invariant { w with file := .absent, main := some { main with phase := .stop } } :=
    moved_without h hmain (by simp [hphase]) rfl
      ⟨by simp, by simp, (h.progress main hmain).keep⟩ (by simp [Owns])
  unfold close
  by_cases howned : (!(main.started || main.held)) = true
  · rw [if_pos howned]
    exact killed_keeps h hmain
  rw [if_neg howned]
  split
  · split_ifs
    · exact leave_keeps h hmain hphase _ plan
    · exact hstops
  · exact hstops

/-- A worker that outlives its start holds the lock of the next one. -/
theorem worker_keeps (h : Invariant w) (hmain : w.main = some main)
    (hphase : main.phase = .gates ∨ main.phase = .run) {process : Process}
    (hfree : w.free process = true) : Invariant { (w.spawn process).endMain main with
      child := some ⟨.worker, main.start, process, main.process, false, false, none, none⟩ } := by
  have hended := killed_keeps h hmain
  have hfresh : ∀ record, w.file = .written record → record.claimed ≠ none :=
    h.toRecords.not_fresh hmain (by rcases hphase with hp | hp <;> simp [Early, hp])
  refine ⟨hended.toRecords.change rfl hfresh rfl h.ids le_rfl ?_, ⟨?_, ?_, ?_, ?_⟩, ⟨?_, ?_, ?_⟩⟩
  · intro record other hwritten hclaimed
    have hused := (h.claimed record other hwritten hclaimed).1
    refine ⟨List.mem_cons_of_mem _ hused, fun htable => ?_⟩
    obtain ⟨hspawned, hother⟩ := mem_reap.mp htable
    rcases List.mem_cons.mp hspawned with rfl | hbefore
    · exact absurd hused (not_used_of_free hfree)
    · exact absurd (mem_reap.mpr ⟨hbefore, hother⟩)
        (hended.toRecords.gone_of_none rfl record other hwritten hclaimed)
  · exact fun _ hsome => (nomatch hsome)
  · exact fun _ hsome => (nomatch hsome)
  · intro other hother hkind
    obtain rfl := Option.some.inj hother
    exact (nomatch hkind)
  · exact fun _ _ hsome => (nomatch hsome)
  · intro other hmem
    exact mem_used_of_mem_spawn h.toProcesses (mem_reap.mp hmem).1
  · exact fun other hother => List.mem_cons_of_mem _ (h.execs other hother)
  · exact fun _ hsome => (nomatch hsome)

theorem kill_keeps (h : Invariant w) (hmain : w.main = some main) (worker : Option Process) :
    Invariant (kill main worker w) := by
  cases worker with
  | none => exact killed_keeps h hmain
  | some process =>
      simp only [kill]
      by_cases hleaves : (main.phase = .gates ∨ main.phase = .run) ∧ w.free process = true
      · rw [if_pos hleaves]
        exact worker_keeps h hmain hleaves.1 hleaves.2
      · rw [if_neg hleaves]
        exact killed_keeps h hmain

/-- A process without a start ends. -/
theorem reaped_keeps (h : Invariant w) (process : Process)
    {execs : List Process} (hexecs : ∀ other ∈ execs, other ∈ w.execs) {child : Option Child}
    (hchild : child = w.child ∨ child = none) :
    Invariant { w.reap process with execs := execs, child := child } := by
  refine ⟨⟨h.ids, h.exits, h.written, ?_, ?_⟩, ⟨h.progress, h.main, ?_, ?_⟩, ⟨?_, ?_, h.alive⟩⟩
  · intro record hwritten hnone
    obtain ⟨htakers, hno, hearly, hleft⟩ := h.fresh record hwritten hnone
    exact ⟨htakers, hchild.elim (fun hsame => hsame.trans hno) id, hearly, hleft⟩
  · intro record other hwritten hclaimed
    obtain ⟨hused, hmem⟩ := h.claimed record other hwritten hclaimed
    exact ⟨hused, fun htable => hmem (mem_reap.mp htable).1⟩
  · intro other hother
    rcases hchild with hsame | hnone
    · exact h.child other (hsame ▸ hother)
    · exact (nomatch hnone.symm.trans hother)
  · intro main other hmain hother
    rcases hchild with hsame | hnone
    · exact h.pair main other hmain (hsame ▸ hother)
    · exact (nomatch hnone.symm.trans hother)
  · exact fun other hmem => h.table other (mem_reap.mp hmem).1
  · exact fun other hother => h.execs other (hexecs other hother)

end Sbarbase.Starts.Proofs
