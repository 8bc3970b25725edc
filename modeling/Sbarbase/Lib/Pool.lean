import Sbarbase.Lib.Machine
import Sbarbase.Lib.Tally
/-!
# Pools of slots

A pool hands out a bounded number of slots. Every holder belongs to a group and
may belong to a part of its group; groups and parts have counters of their own,
and a part is bounded by what its holder was admitted with. A slot is freed once:
freeing it again does nothing.

This is what a counting semaphore with per-tenant counters is for. A component
that maps each of its steps to a list of takes and frees inherits the laws at
the end of this module.
-/

namespace Sbarbase.Lib.Pool

variable {α κ ι : Type*}

/-- How holders are grouped and bounded. -/
structure Rules (α κ ι : Type*) where
  group : α → κ
  part : α → Option ι
  maximum : ℤ
  /-- The bound a holder brings for its part. -/
  partMaximum : α → ℤ

structure Holder (α : Type*) where
  tag : α
  freed : Bool

structure State (α κ ι : Type*) where
  holders : List (Holder α)
  total : ℤ
  groups : Dict κ ℤ
  parts : Dict (κ × ι) ℤ
  /-- The holders in the order in which they were freed, newest first. -/
  freed : List ℕ

inductive Event (α : Type*)
  | take (tag : α)
  | free (holder : ℕ)

variable (R : Rules α κ ι)

/-- The group a holder counts for. -/
def Rules.groupOf (holder : Holder α) : Option κ :=
  if holder.freed then none else some (R.group holder.tag)

/-- The part of its group a tag belongs to. -/
def Rules.partOf (tag : α) : Option (κ × ι) := (R.part tag).map fun part => (R.group tag, part)

/-- The part a holder counts for. -/
def Rules.partKey (holder : Holder α) : Option (κ × ι) :=
  if holder.freed then none else R.partOf holder.tag

variable [DecidableEq κ] [DecidableEq ι]

/-- Whether a holder may enter. -/
def State.admits (s : State α κ ι) (tag : α) : Prop :=
  s.total < R.maximum ∧ ∀ k ∈ R.partOf tag, (s.parts.get k).getD 0 < R.partMaximum tag

instance (s : State α κ ι) (tag : α) : Decidable (s.admits R tag) := by
  unfold State.admits
  infer_instance

def take (s : State α κ ι) (tag : α) : State α κ ι :=
  if s.admits R tag then
    { holders := s.holders ++ [⟨tag, false⟩]
      total := s.total + 1
      groups := s.groups.raise (R.group tag)
      parts := match R.partOf tag with
        | none => s.parts
        | some k => s.parts.raise k
      freed := s.freed }
  else s

def free (s : State α κ ι) (i : ℕ) : State α κ ι :=
  match s.holders[i]? with
  | none => s
  | some holder =>
    if holder.freed then s
    else
      { holders := s.holders.set i ⟨holder.tag, true⟩
        total := s.total - 1
        groups := s.groups.lower (R.group holder.tag)
        parts := match R.partOf holder.tag with
          | none => s.parts
          | some k => s.parts.lower k
        freed := i :: s.freed }

def step (s : State α κ ι) : Event α → State α κ ι
  | .take tag => take R s tag
  | .free i => free R s i

def machine : Machine (State α κ ι) (Event α) where
  initial := ⟨[], 0, ∅, ∅, []⟩
  step := step R

/-! ## The invariant -/

/-- How often a holder has been freed. -/
def State.timesFreed (s : State α κ ι) (i : ℕ) : ℕ :=
  if s.holders[i]?.any Holder.freed then 1 else 0

structure Sound (s : State α κ ι) : Prop where
  total : s.total = s.holders.countP fun holder => !holder.freed
  total_le : s.total ≤ R.maximum
  groups : Tallies R.groupOf s.holders s.groups
  parts : Tallies R.partKey s.holders s.parts
  freed : ∀ i, s.freed.count i = s.timesFreed i
  /-- A part stays within any bound on what its holders brought. -/
  part_le : ∀ k m, (∀ holder ∈ s.holders, R.partOf holder.tag = some k →
    R.partMaximum holder.tag ≤ m) → ∀ n, s.parts.get k = some n → n ≤ m

variable {R} {s : State α κ ι}

theorem sound_initial (hmaximum : 0 ≤ R.maximum) : Sound R (machine R).initial where
  total := rfl
  total_le := hmaximum
  groups := Tallies.nil
  parts := Tallies.nil
  freed := fun _ => rfl
  part_le := fun _ _ _ _ h => by cases h

theorem sound_take (h : Sound R s) (tag : α) : Sound R (take R s tag) := by
  by_cases hadmits : s.admits R tag
  · obtain ⟨hroom, hpart⟩ := hadmits
    have hparts : Tallies R.partKey (s.holders ++ [⟨tag, false⟩])
        (match R.partOf tag with
          | none => s.parts
          | some k => s.parts.raise k) := by
      cases hk : R.partOf tag with
      | none => exact h.parts.push_none hk
      | some k => exact h.parts.push hk
    have hrun : take R s tag =
        { holders := s.holders ++ [⟨tag, false⟩]
          total := s.total + 1
          groups := s.groups.raise (R.group tag)
          parts := match R.partOf tag with
            | none => s.parts
            | some k => s.parts.raise k
          freed := s.freed } := if_pos ⟨hroom, hpart⟩
    rw [hrun]
    refine ⟨?_, ?_, h.groups.push rfl, hparts, ?_, ?_⟩
    · simp [h.total]
    · exact hroom
    · intro i
      rw [h.freed i]
      simp only [State.timesFreed]
      rcases Nat.lt_trichotomy i s.holders.length with hi | hi | hi
      · rw [List.getElem?_append_left hi]
      · subst hi
        simp
      · have hlong : (s.holders ++ [(⟨tag, false⟩ : Holder α)]).length ≤ i := by
          rw [List.length_append, List.length_singleton]
          omega
        rw [List.getElem?_eq_none hlong, List.getElem?_eq_none hi.le]
    · intro k m hall n hn
      have hold : ∀ holder ∈ s.holders, R.partOf holder.tag = some k →
          R.partMaximum holder.tag ≤ m :=
        fun holder hmem => hall holder (List.mem_append_left _ hmem)
      have hnew := hall ⟨tag, false⟩ (by simp)
      cases hk : R.partOf tag with
      | none =>
          rw [hk] at hn
          exact h.part_le k m hold n hn
      | some k' =>
          simp only [hk] at hn hnew
          rw [Dict.raise, Dict.get_set] at hn
          split_ifs at hn with heq
          · subst heq
            have hlt := hpart k hk
            have hm := hnew rfl
            simp only [Option.some.injEq] at hn
            omega
          · exact h.part_le k m hold n hn
  · rw [take, if_neg hadmits]
    exact h

theorem sound_free (h : Sound R s) (i : ℕ) : Sound R (free R s i) := by
  unfold free
  split
  · exact h
  · rename_i holder hget
    by_cases hfreed : holder.freed = true
    · rw [if_pos hfreed]
      exact h
    · rw [if_neg hfreed]
      obtain ⟨hi, hval⟩ := List.getElem?_eq_some_iff.mp hget
      have hgroup : R.groupOf holder = some (R.group holder.tag) := if_neg hfreed
      have hpart : R.partKey holder = R.partOf holder.tag := if_neg hfreed
      have hpos : 0 < s.holders.countP fun holder => !holder.freed :=
        List.countP_pos_iff.mpr ⟨holder, hval ▸ List.getElem_mem hi, by simpa using hfreed⟩
      have htotal := h.total
      refine ⟨?_, ?_, h.groups.drop hget hgroup rfl, ?_, ?_, ?_⟩
      · rw [List.countP_set hi, hval]
        simp only [hfreed, Bool.not_false, Bool.not_true, if_true, Bool.false_eq_true, if_false]
        omega
      · have hle := h.total_le
        simp only
        omega
      · cases hk : R.partOf holder.tag with
        | none => exact h.parts.set_same hget (by rw [hpart, hk]; rfl)
        | some k => exact h.parts.drop hget (by rw [hpart, hk]) rfl
      · intro j
        simp only [State.timesFreed, List.count_cons, h.freed j]
        by_cases hij : i = j
        · subst hij
          simp [hval, hi, hfreed]
        · simp [List.getElem?_set_ne hij, hij]
      · intro k m hall n hn
        have hold : ∀ other ∈ s.holders, R.partOf other.tag = some k →
            R.partMaximum other.tag ≤ m := by
          intro other hmem
          obtain ⟨j, hj, hother⟩ := List.mem_iff_getElem.mp hmem
          by_cases hij : i = j
          · subst hij
            have htag : other = holder := hother.symm.trans hval
            rw [htag]
            exact hall ⟨holder.tag, true⟩ (List.mem_set hi _)
          · refine hall other ?_
            rw [List.mem_iff_getElem]
            exact ⟨j, by simpa using hj, by rw [List.getElem_set_ne hij]; exact hother⟩
        cases hk : R.partOf holder.tag with
        | none =>
            rw [hk] at hn
            exact h.part_le k m hold n hn
        | some k' =>
            rw [hk] at hn
            have hkept : s.parts.get k' ≠ none := by
              rw [h.parts.get_ne_none]
              exact ⟨holder, hval ▸ List.getElem_mem hi, by rw [hpart, hk]⟩
            obtain ⟨v, hv, hle⟩ := Dict.get_lower_le hn hkept
            exact hle.trans (h.part_le k m hold v hv)

theorem sound_run (hmaximum : 0 ≤ R.maximum) (events : List (Event α)) :
    Sound R ((machine R).run events) := by
  apply (machine R).run_invariant (sound_initial hmaximum)
  intro s e h
  cases e with
  | take tag => exact sound_take h tag
  | free i => exact sound_free h i

/-! ## Laws of a sound pool -/

theorem Sound.groups_sum (h : Sound R s) : s.groups.sum = s.total := by
  rw [h.groups.sum_eq, h.total]
  congr 1
  apply List.countP_congr
  intro holder _
  cases hf : holder.freed <;> simp [Rules.groupOf, hf]

/-- The parts of one group together never exceed the group. -/
theorem Sound.parts_sum_le (h : Sound R s) (k : κ) :
    (s.parts.filter fun key _ => key.1 = k).sum ≤ (s.groups.get k).getD 0 := by
  rw [(h.parts.filter fun key => key.1 = k).sum_eq, h.groups.getD, Int.ofNat_le]
  apply List.countP_mono_left
  intro holder _ hpart
  cases hf : holder.freed with
  | true => simp [Rules.partKey, hf] at hpart
  | false =>
      simp only [Rules.partKey, hf, Rules.partOf] at hpart
      cases hp : R.part holder.tag with
      | none => simp [hp] at hpart
      | some part =>
          simp [hp, Option.filter] at hpart
          simp [Rules.groupOf, hf, hpart]

theorem Sound.part_le_group (h : Sound R s) (k : κ) (i : ι) (n : ℤ)
    (hn : s.parts.get (k, i) = some n) : n ≤ (s.groups.get k).getD 0 := by
  have hcount := h.parts.getD (k, i)
  rw [hn, Option.getD_some] at hcount
  rw [hcount, h.groups.getD, Int.ofNat_le]
  apply List.countP_mono_left
  intro holder _ hpart
  cases hf : holder.freed with
  | true => simp [Rules.partKey, hf] at hpart
  | false =>
      cases hp : R.part holder.tag with
      | none => simp [Rules.partKey, Rules.partOf, hf, hp] at hpart
      | some part =>
          simp [Rules.partKey, Rules.partOf, hf, hp] at hpart
          simp [Rules.groupOf, hf, hpart.1]

theorem Sound.freed_le_one (h : Sound R s) (i : ℕ) : s.freed.count i ≤ 1 := by
  rw [h.freed i, State.timesFreed]
  split_ifs <;> omega

end Sbarbase.Lib.Pool
