import Mathlib.Data.Nat.Notation
/-!
# Sources that are read in parts

A read returns at most what was asked for, possibly less, and nothing only at
the end. How much less is up to the source, which may also answer with more than
was asked for.
-/

namespace Sbarbase.Lib

/-- What a source answers to one read. -/
inductive Answer
  | upTo (offer : ℕ)
  | tooMuch
  deriving DecidableEq

/-- What is still to be read, and the answers to the reads to come. -/
structure Source (α : Type) where
  rest : List α
  answers : ℕ → Answer

namespace Source

variable {α : Type}

/-- No answer is more than was asked for. -/
def Legal (source : Source α) : Prop := ∀ i, source.answers i ≠ .tooMuch

/-- `source.read(limit)`; none where the answer is longer. -/
def read (source : Source α) (limit : ℕ) : Option (List α × Source α) :=
  match source.answers 0 with
  | .tooMuch => none
  | .upTo offer =>
    let count := min limit (max 1 offer)
    some (source.rest.take count, ⟨source.rest.drop count, fun i => source.answers (i + 1)⟩)

/-- A read takes a part off what is to be read, and an empty one at the end only. -/
theorem read_eq_some {source next : Source α} {limit : ℕ} {part : List α}
    (h : source.read limit = some (part, next)) :
    source.rest = part ++ next.rest ∧ part.length ≤ limit ∧
      (part = [] → limit = 0 ∨ source.rest = []) := by
  unfold read at h
  split at h
  · nomatch h
  next offer _ =>
    cases h
    refine ⟨(List.take_append_drop _ _).symm, ?_, ?_⟩
    · rw [List.length_take]
      omega
    · rw [List.take_eq_nil_iff]
      exact fun hempty => hempty.imp_left fun hcount => by omega

theorem Legal.next {source next : Source α} {limit : ℕ} {part : List α} (h : source.Legal)
    (hread : source.read limit = some (part, next)) : next.Legal := by
  unfold read at hread
  split at hread
  · nomatch hread
  next =>
    cases hread
    exact fun i => h (i + 1)

theorem Legal.read_isSome {source : Source α} (h : source.Legal) (limit : ℕ) :
    ∃ part next, source.read limit = some (part, next) := by
  cases hanswer : source.answers 0 with
  | tooMuch => exact absurd hanswer (h 0)
  | upTo offer => exact ⟨_, _, by rw [read, hanswer]⟩

/-- Reads until `limit` items are there or a read returns nothing. -/
def readBlock (source : Source α) (limit : ℕ) : Option (List α × Source α) :=
  if limit = 0 then some ([], source)
  else
    match source.read limit with
    | none => none
    | some (part, next) =>
      if part = [] then some ([], next)
      else
        match readBlock next (limit - part.length) with
        | none => none
        | some (more, last) => some (part ++ more, last)
termination_by limit
decreasing_by
  have := List.length_pos_iff.mpr ‹¬ part = []›
  omega

/-- A block is what comes next, however the source splits it. -/
theorem readBlock_eq_some {source last : Source α} {limit : ℕ} {block : List α}
    (h : source.readBlock limit = some (block, last)) :
    block = source.rest.take limit ∧ last.rest = source.rest.drop limit := by
  induction source, limit using readBlock.induct generalizing block last with
  | case1 source =>
    rw [readBlock, if_pos rfl] at h
    cases h
    exact ⟨rfl, rfl⟩
  | case2 source limit hlimit hread =>
    rw [readBlock, if_neg hlimit, hread] at h
    nomatch h
  | case3 source limit hlimit next hread =>
    rw [readBlock, if_neg hlimit, hread] at h
    cases h
    obtain ⟨hrest, _, hend⟩ := read_eq_some hread
    have hempty : source.rest = [] := (hend rfl).resolve_left hlimit
    rw [hempty, List.nil_append] at hrest
    simp [hempty, ← hrest]
  | case4 source limit hlimit part next hread hpart hmore ih =>
    rw [readBlock, if_neg hlimit, hread] at h
    simp only [if_neg hpart, hmore] at h
    nomatch h
  | case5 source limit hlimit part next hread hpart more last' hmore ih =>
    rw [readBlock, if_neg hlimit, hread] at h
    simp only [if_neg hpart, hmore] at h
    cases h
    obtain ⟨hrest, hlength, _⟩ := read_eq_some hread
    obtain ⟨rfl, hlast⟩ := ih hmore
    rw [hrest, List.take_append, List.drop_append, List.take_of_length_le hlength,
      List.drop_of_length_le hlength]
    exact ⟨rfl, hlast⟩

theorem Legal.readBlock {source : Source α} (h : source.Legal) (limit : ℕ) :
    ∃ last, source.readBlock limit = some (source.rest.take limit, last) ∧
      last.rest = source.rest.drop limit ∧ last.Legal := by
  have hsome : ∃ block last, source.readBlock limit = some (block, last) ∧ last.Legal := by
    induction source, limit using readBlock.induct with
    | case1 source =>
      rw [Source.readBlock, if_pos rfl]
      exact ⟨_, _, rfl, h⟩
    | case2 source limit hlimit hread =>
      obtain ⟨_, _, hsome⟩ := h.read_isSome limit
      rw [hread] at hsome
      nomatch hsome
    | case3 source limit hlimit next hread =>
      rw [Source.readBlock, if_neg hlimit, hread]
      exact ⟨_, _, rfl, h.next hread⟩
    | case4 source limit hlimit part next hread hpart hmore ih =>
      obtain ⟨_, _, hsome, _⟩ := ih (h.next hread)
      rw [hmore] at hsome
      nomatch hsome
    | case5 source limit hlimit part next hread hpart more last hmore ih =>
      obtain ⟨_, _, hsome, hlegal⟩ := ih (h.next hread)
      rw [hmore] at hsome
      cases hsome
      rw [Source.readBlock, if_neg hlimit, hread]
      simp only [if_neg hpart, hmore]
      exact ⟨_, _, rfl, hlegal⟩
  obtain ⟨block, last, hblock, hlegal⟩ := hsome
  obtain ⟨rfl, hrest⟩ := readBlock_eq_some hblock
  exact ⟨last, hblock, hrest, hlegal⟩

end Source

end Sbarbase.Lib
