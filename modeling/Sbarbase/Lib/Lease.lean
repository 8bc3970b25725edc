import Mathlib.Data.Nat.Notation
import Mathlib.Logic.Relation
/-!
# Leased jobs

A job is handed out with a token. Whoever holds it settles it, gives it back to
be tried again below a limit, or loses it to the next one when the lease runs
out. The tokens of all its hand-outs are kept, the latest first.

`Move` is what can become of one job. A queue of jobs is a family of them, each
making moves of its own.
-/

namespace Sbarbase.Lib

inductive LeaseState (τ : Type*)
  | absent
  | waiting
  | held (token : τ)
  | closed
  | gone

/-- A job and the tokens it was handed out with. -/
structure Lease (τ : Type*) where
  state : LeaseState τ
  tokens : List τ

namespace Lease

variable {τ : Type*} {limit : ℕ} {l l' : Lease τ}

/-- What one step makes of a job. With `strict`, an exhausted job is not taken again. -/
inductive Move (limit : ℕ) (strict : Prop) : Lease τ → Lease τ → Prop
  | open (tokens) : Move limit strict ⟨.absent, tokens⟩ ⟨.waiting, tokens⟩
  | skip (tokens) : Move limit strict ⟨.absent, tokens⟩ ⟨.gone, tokens⟩
  | hand (t : τ) (tokens) : Move limit strict ⟨.waiting, tokens⟩ ⟨.held t, t :: tokens⟩
  | reclaim (u t : τ) (tokens) (h : strict → tokens.length < limit) :
      Move limit strict ⟨.held u, tokens⟩ ⟨.held t, t :: tokens⟩
  | retry (u : τ) (tokens) (h : tokens.length < limit) :
      Move limit strict ⟨.held u, tokens⟩ ⟨.waiting, tokens⟩
  | settle (u : τ) (tokens) : Move limit strict ⟨.held u, tokens⟩ ⟨.closed, tokens⟩
  | discard (tokens) : Move limit strict ⟨.waiting, tokens⟩ ⟨.closed, tokens⟩
  | remove (tokens) : Move limit strict ⟨.closed, tokens⟩ ⟨.gone, tokens⟩

/-- A held job is held with the latest token, and a waiting one may be handed out. -/
def Valid (limit : ℕ) (l : Lease τ) : Prop :=
  match l.state with
  | .absent => l.tokens = []
  | .waiting => l.tokens.length < limit
  | .held t => l.tokens.head? = some t
  | .closed | .gone => True

theorem Move.valid {strict : Prop} (hlimit : 0 < limit) (h : Move limit strict l l')
    (hl : l.Valid limit) : l'.Valid limit := by
  cases h with
  | «open» tokens =>
      have hnil : tokens = [] := hl
      rw [hnil]
      exact hlimit
  | hand t tokens => exact rfl
  | reclaim u t tokens _ => exact rfl
  | retry u tokens hlt => exact hlt
  | skip _ | settle _ _ | discard _ | remove _ => trivial

theorem Move.tokens_le (h : Move limit True l l') (hl : l.Valid limit)
    (hle : l.tokens.length ≤ limit) : l'.tokens.length ≤ limit := by
  cases h with
  | hand t tokens =>
      have hlt : tokens.length < limit := hl
      rw [List.length_cons]
      omega
  | reclaim u t tokens hstrict =>
      have hlt := hstrict trivial
      rw [List.length_cons]
      omega
  | «open» _ | skip _ | retry _ _ _ | settle _ _ | discard _ | remove _ => exact hle

/-- What holds of a job before its moves and is kept by each holds after them. -/
theorem moves_invariant {I : Lease τ → Prop} {strict : Prop}
    (hstep : ∀ l l', Move limit strict l l' → I l → I l')
    (h : Relation.ReflTransGen (Move limit strict) l l') (hl : I l) : I l' := by
  induction h with
  | refl => exact hl
  | tail _ hmove ih => exact hstep _ _ hmove ih

/-- From a job that is not there yet, every job is valid. -/
theorem moves_valid {strict : Prop} (hlimit : 0 < limit)
    (h : Relation.ReflTransGen (Move limit strict) l l') (hl : l.Valid limit) :
    l'.Valid limit :=
  moves_invariant (fun _ _ hmove => hmove.valid hlimit) h hl

/-- As long as no exhausted job is taken again, none is handed out above the limit. -/
theorem moves_tokens_le (hlimit : 0 < limit)
    (h : Relation.ReflTransGen (Move limit True) l l') (hl : l.Valid limit)
    (hle : l.tokens.length ≤ limit) : l'.tokens.length ≤ limit := by
  have hboth : l'.Valid limit ∧ l'.tokens.length ≤ limit :=
    moves_invariant (I := fun l => l.Valid limit ∧ l.tokens.length ≤ limit)
      (fun _ _ hmove hl => ⟨hmove.valid hlimit hl.1, hmove.tokens_le hl.1 hl.2⟩) h ⟨hl, hle⟩
  exact hboth.2

end Lease

end Sbarbase.Lib
