/-!
# Programs between whose steps others write

A program is its steps: each writes to the state that the others have left and
goes on as that state says. `alone` runs a program with nothing between its
steps.
-/

namespace Sbarbase.Lib

/-- A program on states `σ` that fails with `ε` or returns `α`. -/
inductive Steps (σ ε α : Type) where
  | done (outcome : Except ε α)
  | step (write : σ → σ) (next : σ → Steps σ ε α)

namespace Steps

variable {σ ε α β : Type}

def bind : Steps σ ε α → (α → Steps σ ε β) → Steps σ ε β
  | .done (.ok a), f => f a
  | .done (.error e), _ => .done (.error e)
  | .step write next, f => .step write fun s => (next s).bind f

instance : Monad (Steps σ ε) where
  pure a := .done (.ok a)
  bind := Steps.bind

def throw (e : ε) : Steps σ ε α := .done (.error e)

/-- One step that only looks. -/
def read (f : σ → α) : Steps σ ε α := .step id fun s => .done (.ok (f s))

/-- One step that writes. -/
def write (f : σ → σ) : Steps σ ε Unit := .step f fun _ => .done (.ok ())

def found (value : Option α) (e : ε) : Steps σ ε α :=
  match value with
  | some a => .done (.ok a)
  | none => .done (.error e)

def require (p : Prop) [Decidable p] (e : ε) : Steps σ ε Unit :=
  if p then .done (.ok ()) else .done (.error e)

/-- `if p: c` -/
def whenever (p : Prop) [Decidable p] (c : Steps σ ε Unit) : Steps σ ε Unit :=
  if p then c else pure ()

/-- `try: c except: handle` -/
def orElse : Steps σ ε α → (ε → Steps σ ε α) → Steps σ ε α
  | .done (.ok a), _ => .done (.ok a)
  | .done (.error e), handle => handle e
  | .step write next, handle => .step write fun s => (next s).orElse handle

/-- The program with nothing between its steps: its outcome and the state it leaves. -/
def alone : Steps σ ε α → σ → Except ε α × σ
  | .done outcome, s => (outcome, s)
  | .step write next, s => (next s).alone (write s)

section

variable {s : σ}

@[simp] theorem alone_pure {a : α} : (pure a : Steps σ ε α).alone s = (.ok a, s) := rfl

@[simp] theorem alone_throw {e : ε} : (throw e : Steps σ ε α).alone s = (.error e, s) := rfl

@[simp] theorem alone_read {f : σ → α} : (read f : Steps σ ε α).alone s = (.ok (f s), s) := rfl

@[simp] theorem alone_write {f : σ → σ} : (write f : Steps σ ε Unit).alone s = (.ok (), f s) := rfl

theorem alone_bind (c : Steps σ ε α) (f : α → Steps σ ε β) :
    (c >>= f).alone s = match c.alone s with
      | (.ok a, s') => (f a).alone s'
      | (.error e, s') => (.error e, s') := by
  induction c generalizing s with
  | done outcome =>
      cases outcome with
      | ok a => rfl
      | error e => rfl
  | step write next ih => exact ih s

theorem alone_orElse (c : Steps σ ε α) (handle : ε → Steps σ ε α) :
    (c.orElse handle).alone s = match c.alone s with
      | (.ok a, s') => (.ok a, s')
      | (.error e, s') => (handle e).alone s' := by
  induction c generalizing s with
  | done outcome =>
      cases outcome with
      | ok a => rfl
      | error e => rfl
  | step write next ih => exact ih s

/-- What follows a program that returned. -/
theorem alone_bind_ok {c : Steps σ ε α} {f : α → Steps σ ε β} {a : α} {s' : σ}
    (h : c.alone s = (.ok a, s')) : (c >>= f).alone s = (f a).alone s' := by
  rw [alone_bind, h]

/-- Nothing follows a program that failed. -/
theorem alone_bind_error {c : Steps σ ε α} {f : α → Steps σ ε β} {e : ε} {s' : σ}
    (h : c.alone s = (.error e, s')) : (c >>= f).alone s = (.error e, s') := by
  rw [alone_bind, h]

end

end Steps

end Sbarbase.Lib
