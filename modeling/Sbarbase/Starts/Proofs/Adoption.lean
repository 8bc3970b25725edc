import Sbarbase.Starts.System
/-!
# What the steps do to the containers
-/

namespace Sbarbase.Starts.Proofs

open Lib

section

variable {c : Container} {containers : List Container} {ids : List ℕ}

theorem mem_of_mem_stopOnly (h : c ∈ stopOnly ids containers) (hrunning : c.running = true) :
    c ∈ containers := by
  obtain ⟨before, hbefore, rfl⟩ := List.mem_map.mp h
  by_cases hid : ids.contains before.id = true
  · rw [if_pos hid] at hrunning
    exact (nomatch hrunning)
  · rwa [if_neg hid]

theorem not_running_of_mem_stopAll (h : c ∈ stopAll containers) : c.running = false := by
  obtain ⟨before, -, rfl⟩ := List.mem_map.mp h
  rfl

theorem id_mem_stopOnly (h : c ∈ stopOnly ids containers) :
    ∃ before ∈ containers, before.id = c.id := by
  obtain ⟨before, hbefore, rfl⟩ := List.mem_map.mp h
  refine ⟨before, hbefore, ?_⟩
  split_ifs <;> rfl

theorem id_mem_stopAll (h : c ∈ stopAll containers) : ∃ before ∈ containers, before.id = c.id := by
  obtain ⟨before, hbefore, rfl⟩ := List.mem_map.mp h
  exact ⟨before, hbefore, rfl⟩

@[simp] theorem bringUp_id (start : ℕ) (c : Container) : (c.bringUp start).id = c.id := by
  unfold Container.bringUp
  split_ifs <;> rfl

theorem bringUp_cases (start : ℕ) (c : Container) :
    c.bringUp start = c ∨ (c.bringUp start).start = some start := by
  unfold Container.bringUp
  split_ifs
  · exact Or.inl rfl
  · exact Or.inr rfl

/-- A container that runs after a command of a start ran before it, or that start brought
it up. -/
theorem running_of_act {start : ℕ} {a : Act} {w : World} (h : c ∈ (act start a w).containers)
    (hrunning : c.running = true) : c ∈ w.containers ∨ c.start = some start := by
  cases a with
  | start id =>
      obtain ⟨before, hbefore, rfl⟩ := List.mem_map.mp h
      by_cases hid : before.id = id
      · rw [if_pos hid]
        rcases bringUp_cases start before with hsame | hstart
        · exact Or.inl (hsame.symm ▸ hbefore)
        · exact Or.inr hstart
      · exact Or.inl (by rwa [if_neg hid])
  | run item =>
      rcases List.mem_append.mp h with hbefore | hnew
      · exact Or.inl hbefore
      · obtain rfl := List.mem_singleton.mp hnew
        exact Or.inr rfl
  | stop id => exact Or.inl (mem_of_mem_stopOnly h hrunning)
  | remove id => exact Or.inl (List.mem_filter.mp h).1

theorem made_le_act (start : ℕ) (a : Act) (w : World) : w.made ≤ (act start a w).made := by
  cases a with
  | run item => exact Nat.le_succ _
  | start _ => exact le_rfl
  | stop _ => exact le_rfl
  | remove _ => exact le_rfl

/-- The ids stay below the next one. -/
theorem id_lt_of_act {start : ℕ} {a : Act} {w : World} (hids : ∀ c ∈ w.containers, c.id < w.made)
    (h : c ∈ (act start a w).containers) : c.id < (act start a w).made := by
  cases a with
  | start id =>
      obtain ⟨before, hbefore, rfl⟩ := List.mem_map.mp h
      have hlt := hids before hbefore
      by_cases hid : before.id = id
      · rw [if_pos hid, bringUp_id]
        exact hlt
      · rwa [if_neg hid]
  | run item =>
      rcases List.mem_append.mp h with hbefore | hnew
      · exact (hids c hbefore).trans (Nat.lt_succ_self _)
      · obtain rfl := List.mem_singleton.mp hnew
        exact Nat.lt_succ_self _
  | stop id =>
      obtain ⟨before, hbefore, hid⟩ := id_mem_stopOnly h
      exact hid ▸ hids before hbefore
  | remove id => exact hids c (List.mem_filter.mp h).1

end

/-- The containers that run, with what a record holds of them. -/
theorem mem_running {w : World} {entry : ℕ × Item} :
    entry ∈ w.running ↔ ∃ c ∈ w.containers, c.running = true ∧ (c.id, c.item) = entry := by
  simp only [World.running, List.mem_map, List.mem_filter, and_assoc]

/-- A record of a planned exit holds containers that ran then. -/
theorem get_kept {running : List (ℕ × Item)} {id : ℕ} {item : Item} {kept : Dict ℕ Item}
    (h : (running.foldl (fun kept entry => kept.set entry.1 entry.2) kept).get id = some item) :
    (id, item) ∈ running ∨ kept.get id = some item := by
  induction running generalizing kept with
  | nil => exact Or.inr h
  | cons entry running ih =>
      rcases ih h with hmem | hget
      · exact Or.inl (List.mem_cons_of_mem _ hmem)
      · rw [Dict.get_set] at hget
        by_cases hid : id = entry.1
        · rw [if_pos hid] at hget
          have hitem : entry.2 = item := Option.some.inj hget
          exact Or.inl (List.mem_cons.mpr (Or.inl (Prod.ext hid hitem.symm)))
        · rw [if_neg hid] at hget
          exact Or.inr hget

/-!
## What a start may find running

The invariant of the runs: what the record says about the last planned exit and about
the process that claimed it, and what runs under a start besides what that start
brought up.
-/

/-- A container that a planned exit left for the start of this number: the exit was to the
commit of that start and not longer ago than allowed, every container that the start
found running is one the exit recorded as it is, this one has run ever since, and no
other start took the record. -/
def Adoptable (exit : Option Exit) (takers : List ℕ) (start : ℕ) (judged : Option Judged)
    (seen : Option ℕ) (c : Container) : Prop :=
  ∃ left judgement, exit = some left ∧ judged = some judgement ∧
    judgement.head = some left.target ∧
    judgement.clock ≤ left.clock + maxAge * microseconds ∧
    (∀ clock, seen = some clock → clock ≤ left.clock + (maxAge + laterGrace) * microseconds) ∧
    (∀ entry ∈ judgement.found, left.containers.get entry.1 = some entry.2) ∧
    (c.id, c.item) ∈ judgement.found ∧ c.left = true ∧ ∀ taker ∈ takers, taker = start

/-- What runs was brought up by the start or left for it. -/
def Sound (w : World) (start : ℕ) (judged : Option Judged) (seen : Option ℕ) : Prop :=
  ∀ c ∈ w.containers, c.running = true →
    c.start = some start ∨ Adoptable w.exit w.takers start judged seen c

/-- The phases in which `main` may hold a claimed record. -/
def Late (main : Main) : Prop :=
  main.phase = .gates ∨ main.phase = .up ∨ main.phase = .finish ∨ main.phase = .close

/-- The phases in which a record of an exit may be unclaimed. -/
def Early (main : Main) : Prop :=
  main.phase = .settle ∨ main.phase = .decide ∨ main.phase = .take ∨ main.phase = .close

/-- What the file says. -/
structure Records (w : World) : Prop where
  ids : ∀ c ∈ w.containers, c.id < w.made
  exits : ∀ exit, w.exit = some exit → ∀ id item, exit.containers.get id = some item → id < w.made
  written : ∀ record, w.file = .written record → ∃ exit, w.exit = some exit ∧
    record.target = exit.target ∧ record.moment = exit.clock / microseconds ∧
    record.containers = exit.containers
  fresh : ∀ record, w.file = .written record → record.claimed = none →
    w.takers = [] ∧ w.child = none ∧ (∀ main, w.main = some main → Early main) ∧
      ∀ c ∈ w.containers, c.running = true →
        ∀ item, record.containers.get c.id = some item → c.left = true
  claimed : ∀ record process, w.file = .written record → record.claimed = some process →
    process ∈ w.used ∧ (process ∈ w.table →
      ∃ main, w.main = some main ∧ main.process = process ∧ main.held = true ∧ Late main)

/-- How far a start is, and what it may keep. -/
structure Progress (main : Main) : Prop where
  unsettled : main.phase = .settle ∨ main.phase = .decide ∨ main.phase = .leftover →
    main.settled = none ∧ main.started = false ∧ main.seen = none
  up : main.phase = .finish ∨ main.phase = .run → main.up = true
  keep : main.keep = true → main.up = false → main.handover = true

/-- `main` answers for what runs. -/
def Owns (main : Main) : Prop :=
  ((main.phase = .take ∨ main.phase = .gates) ∧ main.decided = true) ∨
    main.phase = .finish ∨ main.phase = .run

/-- What runs under `main` and under the runtime start. -/
structure Owned (w : World) : Prop where
  progress : ∀ main, w.main = some main → Progress main
  main : ∀ main, w.main = some main → Owns main → Sound w main.start main.judged main.seen
  child : ∀ child, w.child = some child → child.kind = .up →
    Sound w child.start child.judged child.seen
  pair : ∀ main child, w.main = some main → w.child = some child →
    main.phase = .up ∧ child.kind = .up ∧ child.start = main.start ∧ child.judged = main.judged

/-- The identities in use are known. -/
structure Processes (w : World) : Prop where
  table : ∀ process ∈ w.table, process ∈ w.used
  execs : ∀ process ∈ w.execs, process ∈ w.used
  alive : ∀ main, w.main = some main → main.process ∈ w.used

structure Invariant (w : World) : Prop extends Records w, Owned w, Processes w

theorem invariant_initial (head : Option String) : Invariant (initial head) where
  ids _ h := (nomatch h)
  exits _ h := (nomatch h)
  written _ h := (nomatch h)
  fresh _ h := (nomatch h)
  claimed _ _ h := (nomatch h)
  progress _ h := (nomatch h)
  main _ h := (nomatch h)
  child _ h := (nomatch h)
  pair _ _ h := (nomatch h)
  table _ h := (nomatch h)
  execs _ h := (nomatch h)
  alive _ h := (nomatch h)

/-! ## Frames -/

section

variable {w w' : World} {main : Main}

/-- Without a record, only the ids and the exits remain to be said. -/
theorem Records.no_file (h : Records w) (hfile : ∀ record, w'.file ≠ .written record)
    (hexit : w'.exit = w.exit) (hids : ∀ c ∈ w'.containers, c.id < w'.made)
    (hmade : w.made ≤ w'.made) : Records w' where
  ids := hids
  exits exit hsome id item hget :=
    (h.exits exit (hexit ▸ hsome) id item hget).trans_le hmade
  written record hwritten := absurd hwritten (hfile record)
  fresh record hwritten := absurd hwritten (hfile record)
  claimed record _ hwritten := absurd hwritten (hfile record)

/-- While no record is unclaimed, the containers may change. -/
theorem Records.change (h : Records w) (hfile : w'.file = w.file)
    (hfresh : ∀ record, w.file = .written record → record.claimed ≠ none)
    (hexit : w'.exit = w.exit) (hids : ∀ c ∈ w'.containers, c.id < w'.made)
    (hmade : w.made ≤ w'.made)
    (hclaimed : ∀ record process, w.file = .written record → record.claimed = some process →
      process ∈ w'.used ∧ (process ∈ w'.table →
        ∃ main, w'.main = some main ∧ main.process = process ∧ main.held = true ∧ Late main)) :
    Records w' where
  ids := hids
  exits exit hsome id item hget :=
    (h.exits exit (hexit ▸ hsome) id item hget).trans_le hmade
  written record hwritten := by
    rw [hexit]
    exact h.written record (hfile ▸ hwritten)
  fresh record hwritten hnone := absurd hnone (hfresh record (hfile ▸ hwritten))
  claimed record process hwritten := hclaimed record process (hfile ▸ hwritten)

theorem Sound.mono {start : ℕ} {judged : Option Judged} {seen : Option ℕ}
    (h : Sound w start judged seen) (hexit : w'.exit = w.exit) (htakers : w'.takers = w.takers)
    (hrunning : ∀ c ∈ w'.containers, c.running = true →
      c ∈ w.containers ∨ c.start = some start) :
    Sound w' start judged seen := by
  intro c hc hrun
  rcases hrunning c hc hrun with hbefore | hstart
  · rw [hexit, htakers]
    exact h c hbefore hrun
  · exact Or.inl hstart

/-- A start with nothing running. -/
theorem sound_of_none {start : ℕ} {judged : Option Judged} {seen : Option ℕ}
    (h : ∀ c ∈ w.containers, c.running = false) : Sound w start judged seen := by
  intro c hc hrun
  rw [h c hc] at hrun
  exact (nomatch hrun)

/-- A record is unclaimed only in the early phases. -/
theorem Records.not_fresh (h : Records w) (hmain : w.main = some main) (hlate : ¬ Early main) :
    ∀ record, w.file = .written record → record.claimed ≠ none := by
  intro record hwritten hnone
  exact hlate ((h.fresh record hwritten hnone).2.2.1 main hmain)

theorem Records.not_fresh_of_child {child : Child} (h : Records w) (hchild : w.child = some child) :
    ∀ record, w.file = .written record → record.claimed ≠ none := by
  intro record hwritten hnone
  have hno := (h.fresh record hwritten hnone).2.1
  rw [hchild] at hno
  exact (nomatch hno)

/-- In the other phases the process of a claim is gone. -/
theorem Records.gone (h : Records w) (hmain : w.main = some main) (hlate : ¬ Late main) :
    ∀ record process, w.file = .written record → record.claimed = some process →
      process ∉ w.table := by
  intro record process hwritten hclaimed hmem
  obtain ⟨other, hother, -, -, hphase⟩ := (h.claimed record process hwritten hclaimed).2 hmem
  obtain rfl : main = other := Option.some.inj (hmain.symm.trans hother)
  exact hlate hphase

theorem Records.gone_of_none (h : Records w) (hmain : w.main = none) :
    ∀ record process, w.file = .written record → record.claimed = some process →
      process ∉ w.table := by
  intro record process hwritten hclaimed hmem
  obtain ⟨other, hother, -⟩ := (h.claimed record process hwritten hclaimed).2 hmem
  rw [hmain] at hother
  exact (nomatch hother)

end

end Sbarbase.Starts.Proofs
