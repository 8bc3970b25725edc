/-!
# Calls of a store

A call runs on the state of a store, returns or throws, and leaves a state
behind in both cases. A transaction that throws leaves the state it began with.

The inversion rules `returns_…` take a successful call apart without unfolding
it. `Leaves` says that a part of the state is not written, `Atomic` that a call
that throws changes nothing.
-/

namespace Sbarbase.Lib

/-- A call on states `σ` that throws `ε` or returns `α`. -/
def Call (σ ε α : Type) := σ → Except ε α × σ

namespace Call

variable {σ ε α β τ : Type}

instance : Monad (Call σ ε) where
  pure a := fun s => (.ok a, s)
  bind c f := fun s =>
    match c s with
    | (.ok a, s') => f a s'
    | (.error e, s') => (.error e, s')

def throw (e : ε) : Call σ ε α := fun s => (.error e, s)

def read (f : σ → α) : Call σ ε α := fun s => (.ok (f s), s)

def write (f : σ → σ) : Call σ ε Unit := fun s => (.ok (), f s)

/-- `if(!p)throw e`. -/
def require (p : Prop) [Decidable p] (e : ε) : Call σ ε Unit := fun s =>
  if p then (.ok (), s) else (.error e, s)

/-- `if(!value)throw e`, with the value. -/
def found (value : Option α) (e : ε) : Call σ ε α := fun s =>
  match value with
  | some a => (.ok a, s)
  | none => (.error e, s)

/-- A statement that a constraint of the store may refuse. -/
def attempt (f : σ → Except ε σ) : Call σ ε Unit := fun s =>
  match f s with
  | .ok s' => (.ok (), s')
  | .error e => (.error e, s)

/-- The outcome of a function that throws without touching the store. -/
def lift (outcome : Except ε α) : Call σ ε α := fun s => (outcome, s)

/-- `db.transaction(c)`: a throw rolls back. -/
def transaction (c : Call σ ε α) : Call σ ε α := fun s =>
  match c s with
  | (.ok a, s') => (.ok a, s')
  | (.error e, _) => (.error e, s)

theorem bind_apply (c : Call σ ε α) (f : α → Call σ ε β) (s : σ) : (c >>= f) s = match c s with
      | (.ok a, s') => f a s'
      | (.error e, s') => (.error e, s') := rfl

theorem require_apply (p : Prop) [Decidable p] (e : ε) (s : σ) :
    (require p e : Call σ ε Unit) s = if p then (.ok (), s) else (.error e, s) := rfl

theorem attempt_apply (f : σ → Except ε σ) (s : σ) : attempt f s = match f s with
      | .ok s' => (.ok (), s')
      | .error e => (.error e, s) := rfl

theorem transaction_apply (c : Call σ ε α) (s : σ) : c.transaction s = match c s with
      | (.ok a, s') => (.ok a, s')
      | (.error e, _) => (.error e, s) := rfl

/-- The call without its result. -/
def discard (c : Call σ ε α) : Call σ ε Unit := do
  let _ ← c

/-- `if(p)c`. -/
def when (p : Prop) [Decidable p] (c : Call σ ε Unit) : Call σ ε Unit := if p then c else pure ()

/-- `try{c}catch(e){handle(e)}`, without a transaction around `c`. -/
def orElse (c : Call σ ε α) (handle : ε → Call σ ε α) : Call σ ε α := fun s =>
  match c s with
  | (.ok a, s') => (.ok a, s')
  | (.error e, s') => handle e s'

/-- `for(const item of items)body(item)` -/
def forEach : List β → (β → Call σ ε Unit) → Call σ ε Unit
  | [], _ => pure ()
  | item :: items, body => do
    body item
    forEach items body

theorem orElse_apply (c : Call σ ε α) (handle : ε → Call σ ε α) (s : σ) :
    c.orElse handle s = match c s with
      | (.ok a, s') => (.ok a, s')
      | (.error e, s') => handle e s' := rfl

/-- The state a call leaves. -/
def after (c : Call σ ε α) (s : σ) : σ := (c s).2

/-- The call returns `a` from `s` and leaves `s'`. -/
def Returns (c : Call σ ε α) (s : σ) (a : α) (s' : σ) : Prop := c s = (.ok a, s')

/-! ## What a successful call did -/

section

variable {s s' : σ} {a : α} {b : β}

theorem Returns.after_eq {c : Call σ ε α} (h : c.Returns s a s') : c.after s = s' := by
  rw [after, h]

@[simp] theorem returns_pure {a' : α} :
    (pure a : Call σ ε α).Returns s a' s' ↔ a' = a ∧ s' = s := by
  constructor
  · intro h
    cases h
    exact ⟨rfl, rfl⟩
  · rintro ⟨rfl, rfl⟩
    rfl

@[simp] theorem returns_bind {c : Call σ ε α} {f : α → Call σ ε β} :
    (c >>= f).Returns s b s' ↔ ∃ a s₁, c.Returns s a s₁ ∧ (f a).Returns s₁ b s' := by
  rw [Returns, bind_apply]
  constructor
  · intro h
    split at h
    · rename_i a s₁ hc
      exact ⟨a, s₁, hc, h⟩
    · cases h
  · rintro ⟨a, s₁, hc, hf⟩
    rw [hc]
    exact hf

@[simp] theorem returns_throw {e : ε} : ¬ (throw e : Call σ ε α).Returns s a s' := by
  intro h
  cases h

@[simp] theorem returns_read {f : σ → α} :
    (read f : Call σ ε α).Returns s a s' ↔ a = f s ∧ s' = s := by
  constructor
  · intro h
    cases h
    exact ⟨rfl, rfl⟩
  · rintro ⟨rfl, rfl⟩
    rfl

@[simp] theorem returns_write {f : σ → σ} {u : Unit} :
    (write f : Call σ ε Unit).Returns s u s' ↔ s' = f s := by
  constructor
  · intro h
    cases h
    rfl
  · rintro rfl
    rfl

@[simp] theorem returns_require {p : Prop} [Decidable p] {e : ε} {u : Unit} :
    (require p e : Call σ ε Unit).Returns s u s' ↔ p ∧ s' = s := by
  rw [Returns, require_apply]
  split
  · rename_i hp
    constructor
    · intro h
      cases h
      exact ⟨hp, rfl⟩
    · rintro ⟨_, rfl⟩
      rfl
  · rename_i hp
    constructor
    · intro h
      cases h
    · rintro ⟨h, _⟩
      exact absurd h hp

@[simp] theorem returns_found {value : Option α} {e : ε} :
    (found value e : Call σ ε α).Returns s a s' ↔ value = some a ∧ s' = s := by
  cases value with
  | none =>
      constructor
      · intro h
        cases h
      · rintro ⟨h, _⟩
        cases h
  | some v =>
      constructor
      · intro h
        cases h
        exact ⟨rfl, rfl⟩
      · rintro ⟨h, rfl⟩
        cases h
        rfl

@[simp] theorem returns_attempt {f : σ → Except ε σ} {u : Unit} :
    (attempt f).Returns s u s' ↔ f s = .ok s' := by
  rw [Returns, attempt_apply]
  cases f s with
  | error e => constructor <;> intro h <;> cases h
  | ok t =>
      constructor
      · intro h
        cases h
        rfl
      · intro h
        cases h
        rfl

@[simp] theorem returns_lift {outcome : Except ε α} :
    (lift outcome : Call σ ε α).Returns s a s' ↔ outcome = .ok a ∧ s' = s := by
  constructor
  · intro h
    cases h
    exact ⟨rfl, rfl⟩
  · rintro ⟨rfl, rfl⟩
    rfl

@[simp] theorem returns_transaction {c : Call σ ε α} :
    c.transaction.Returns s a s' ↔ c.Returns s a s' := by
  rw [Returns, Returns, transaction_apply]
  split
  · rename_i b s₁ hc
    rw [hc]
  · rename_i e s₁ hc
    rw [hc]
    constructor <;> intro h <;> cases h

end

/-! ## What every successful call ends with -/

/-- If the call returns from `s`, then with a result and a state that satisfy `Q`. -/
def Ensures (c : Call σ ε α) (s : σ) (Q : α → σ → Prop) : Prop :=
  ∀ a s', c.Returns s a s' → Q a s'

section

variable {s : σ} {Q : α → σ → Prop} {R : β → σ → Prop}

theorem Ensures.mono {c : Call σ ε α} {Q' : α → σ → Prop} (h : c.Ensures s Q)
    (hQ : ∀ a s', Q a s' → Q' a s') : c.Ensures s Q' :=
  fun a s' hr => hQ a s' (h a s' hr)

@[simp] theorem ensures_pure {a : α} : (pure a : Call σ ε α).Ensures s Q ↔ Q a s := by
  simp [Ensures]

@[simp] theorem ensures_bind {c : Call σ ε α} {f : α → Call σ ε β} :
    (c >>= f).Ensures s R ↔ c.Ensures s fun a s₁ => (f a).Ensures s₁ R := by
  simp only [Ensures, returns_bind]
  constructor
  · intro h a s₁ hc b s' hf
    exact h b s' ⟨a, s₁, hc, hf⟩
  · rintro h b s' ⟨a, s₁, hc, hf⟩
    exact h a s₁ hc b s' hf

@[simp] theorem ensures_throw {e : ε} : (throw e : Call σ ε α).Ensures s Q := by
  simp [Ensures]

@[simp] theorem ensures_read {f : σ → α} : (read f : Call σ ε α).Ensures s Q ↔ Q (f s) s := by
  simp [Ensures]

@[simp] theorem ensures_write {f : σ → σ} {Q : Unit → σ → Prop} :
    (write f : Call σ ε Unit).Ensures s Q ↔ Q () (f s) := by
  simp only [Ensures, returns_write]
  exact ⟨fun h => h () (f s) rfl, fun h _ _ hs => hs ▸ h⟩

@[simp] theorem ensures_require {p : Prop} [Decidable p] {e : ε} {Q : Unit → σ → Prop} :
    (require p e : Call σ ε Unit).Ensures s Q ↔ (p → Q () s) := by
  simp only [Ensures, returns_require]
  constructor
  · exact fun h hp => h () s ⟨hp, rfl⟩
  · rintro h _ _ ⟨hp, rfl⟩
    exact h hp

@[simp] theorem ensures_found {value : Option α} {e : ε} :
    (found value e : Call σ ε α).Ensures s Q ↔ ∀ a, value = some a → Q a s := by
  simp only [Ensures, returns_found]
  constructor
  · exact fun h a ha => h a s ⟨ha, rfl⟩
  · rintro h a _ ⟨ha, rfl⟩
    exact h a ha

@[simp] theorem ensures_attempt {f : σ → Except ε σ} {Q : Unit → σ → Prop} :
    (attempt f).Ensures s Q ↔ ∀ s', f s = .ok s' → Q () s' := by
  simp only [Ensures, returns_attempt]
  exact ⟨fun h s' hs => h () s' hs, fun h _ s' hs => h s' hs⟩

@[simp] theorem ensures_lift {outcome : Except ε α} :
    (lift outcome : Call σ ε α).Ensures s Q ↔ ∀ a, outcome = .ok a → Q a s := by
  simp only [Ensures, returns_lift]
  constructor
  · exact fun h a ha => h a s ⟨ha, rfl⟩
  · rintro h a _ ⟨ha, rfl⟩
    exact h a ha

@[simp] theorem ensures_transaction {c : Call σ ε α} :
    c.transaction.Ensures s Q ↔ c.Ensures s Q := by
  simp [Ensures]

@[simp] theorem ensures_ite {p : Prop} [Decidable p] {c d : Call σ ε α} :
    (if p then c else d).Ensures s Q ↔ (p → c.Ensures s Q) ∧ (¬ p → d.Ensures s Q) := by
  by_cases hp : p <;> simp [hp]

@[simp] theorem ensures_when {p : Prop} [Decidable p] {c : Call σ ε Unit} {Q : Unit → σ → Prop} :
    (when p c).Ensures s Q ↔ (p → c.Ensures s Q) ∧ (¬ p → Q () s) := by
  rw [when, ensures_ite, ensures_pure]

/-- A loop keeps what its body keeps. -/
theorem ensures_forEach {I : σ → Prop} {body : β → Call σ ε Unit} (items : List β)
    (hbody : ∀ item ∈ items, ∀ s, I s → (body item).Ensures s fun _ s' => I s') (hs : I s) :
    (forEach items body).Ensures s fun _ s' => I s' := by
  induction items generalizing s with
  | nil => exact ensures_pure.mpr hs
  | cons item items ih =>
      refine ensures_bind.mpr ((hbody item List.mem_cons_self s hs).mono ?_)
      intro _ s₁ hs₁
      exact ih (fun other hother => hbody other (List.mem_cons_of_mem _ hother)) hs₁

end

/-! ## Parts of the state that are not written -/

/-- Terms that are equal by definition. -/
class Agrees {α : Type} (a b : α) : Prop where
  eq : a = b

instance {α : Type} (a : α) : Agrees a a := ⟨rfl⟩

/-- The part `p` of the state is not written. The instances follow the call, so a
call whose writes keep `p` by definition leaves it alone by instance search. -/
class Leaves (p : σ → τ) (c : Call σ ε α) : Prop where
  after_eq : ∀ s, p (c.after s) = p s

section

variable {p : σ → τ}

instance (a : α) : Leaves p (pure a : Call σ ε α) := ⟨fun _ => rfl⟩

instance (e : ε) : Leaves p (throw e : Call σ ε α) := ⟨fun _ => rfl⟩

instance (f : σ → α) : Leaves p (read f : Call σ ε α) := ⟨fun _ => rfl⟩

instance (outcome : Except ε α) : Leaves p (lift outcome : Call σ ε α) := ⟨fun _ => rfl⟩

instance {f : σ → σ} [h : Agrees (fun s => p (f s)) p] : Leaves p (write f : Call σ ε Unit) :=
  ⟨fun s => congrFun h.eq s⟩

instance (q : Prop) [Decidable q] (e : ε) : Leaves p (require q e : Call σ ε Unit) where
  after_eq s := by
    rw [after, require_apply]
    split <;> rfl

instance (value : Option α) (e : ε) : Leaves p (found value e : Call σ ε α) where
  after_eq s := by
    cases value <;> rfl

theorem Leaves.bind {c : Call σ ε α} {f : α → Call σ ε β} (hc : Leaves p c)
    (hf : ∀ a, Leaves p (f a)) : Leaves p (c >>= f) where
  after_eq s := by
    have hfirst := hc.after_eq s
    rw [after] at hfirst ⊢
    rw [bind_apply]
    split
    · rename_i a s₁ hcs
      rw [hcs] at hfirst
      exact ((hf a).after_eq s₁).trans hfirst
    · rename_i e s₁ hcs
      rw [hcs] at hfirst
      exact hfirst

instance {c : Call σ ε α} {f : α → Call σ ε β} [hc : Leaves p c] [hf : ∀ a, Leaves p (f a)] :
    Leaves p (c >>= f) := hc.bind hf

theorem Leaves.transaction {c : Call σ ε α} (h : Leaves p c) : Leaves p c.transaction where
  after_eq s := by
    have hc := h.after_eq s
    rw [after] at hc ⊢
    rw [transaction_apply]
    split
    · rename_i a s₁ hcs
      rw [hcs] at hc
      exact hc
    · rfl

instance {c : Call σ ε α} [h : Leaves p c] : Leaves p c.transaction := h.transaction

instance {q : Prop} [Decidable q] {c d : Call σ ε α} [hc : Leaves p c] [hd : Leaves p d] :
    Leaves p (if q then c else d) := by
  by_cases hq : q
  · rwa [if_pos hq]
  · rwa [if_neg hq]

instance {q : Prop} [Decidable q] {c : Call σ ε Unit} [Leaves p c] : Leaves p (when q c) := by
  unfold when
  infer_instance

instance {c : Call σ ε α} [Leaves p c] : Leaves p c.discard := by
  unfold discard
  infer_instance

instance {c : Call σ ε α} {handle : ε → Call σ ε α} [hc : Leaves p c]
    [hhandle : ∀ e, Leaves p (handle e)] : Leaves p (c.orElse handle) where
  after_eq s := by
    have hfirst := hc.after_eq s
    rw [after] at hfirst ⊢
    rw [orElse_apply]
    split
    · rename_i a s₁ hcs
      rw [hcs] at hfirst
      exact hfirst
    · rename_i e s₁ hcs
      rw [hcs] at hfirst
      exact ((hhandle e).after_eq s₁).trans hfirst

instance {items : List β} {body : β → Call σ ε Unit} [hbody : ∀ item, Leaves p (body item)] :
    Leaves p (forEach items body) := by
  induction items with
  | nil => exact inferInstanceAs (Leaves p (pure ()))
  | cons item items ih => exact inferInstanceAs (Leaves p (body item >>= fun _ => _))

theorem Leaves.comp {c : Call σ ε α} (h : Leaves p c) {ρ : Type} (g : τ → ρ) :
    Leaves (fun s => g (p s)) c where
  after_eq s := congrArg g (h.after_eq s)

/-- A successful call left the part as it was. -/
theorem Leaves.of_returns {c : Call σ ε α} [h : Leaves p c] {s s' : σ} {a : α}
    (hr : c.Returns s a s') : p s' = p s := by
  rw [← hr.after_eq]
  exact h.after_eq s

/-- A call that writes nothing. -/
theorem ensures_of_leaves {c : Call σ ε α} [Leaves id c] {s : σ} {Q : α → σ → Prop}
    (h : ∀ a, c.Returns s a s → Q a s) : c.Ensures s Q := by
  intro a s' hr
  have hs : s' = s := Leaves.of_returns (p := id) hr
  subst hs
  exact h a hr

/-- A call that writes nothing in front of others. -/
theorem ensures_check {c : Call σ ε α} {f : α → Call σ ε β} [Leaves id c] {s : σ}
    {Q : β → σ → Prop} (h : ∀ a, c.Returns s a s → (f a).Ensures s Q) : (c >>= f).Ensures s Q :=
  ensures_bind.mpr (ensures_of_leaves h)

end

/-! ## Calls that throw -/

/-- A call that returns from every state. -/
class Total (c : Call σ ε α) : Prop where
  returns : ∀ s, ∃ a s', c.Returns s a s'

section

instance (a : α) : Total (pure a : Call σ ε α) := ⟨fun s => ⟨a, s, rfl⟩⟩

instance (f : σ → α) : Total (read f : Call σ ε α) := ⟨fun s => ⟨f s, s, rfl⟩⟩

instance (f : σ → σ) : Total (write f : Call σ ε Unit) := ⟨fun s => ⟨(), f s, rfl⟩⟩

instance {c : Call σ ε α} {f : α → Call σ ε β} [hc : Total c] [hf : ∀ a, Total (f a)] :
    Total (c >>= f) where
  returns s := by
    obtain ⟨a, s₁, hfirst⟩ := hc.returns s
    obtain ⟨b, s', hrest⟩ := (hf a).returns s₁
    exact ⟨b, s', returns_bind.mpr ⟨a, s₁, hfirst, hrest⟩⟩

instance {q : Prop} [Decidable q] {c d : Call σ ε α} [hc : Total c] [hd : Total d] :
    Total (if q then c else d) := by
  by_cases hq : q
  · rwa [if_pos hq]
  · rwa [if_neg hq]

instance {q : Prop} [Decidable q] {c : Call σ ε Unit} [Total c] : Total (when q c) := by
  unfold when
  infer_instance

end

/-- A call that throws changes nothing. -/
class Atomic (c : Call σ ε α) : Prop where
  unchanged : ∀ s e s', c s = (.error e, s') → s' = s

section

/-- Checks write nothing at all. -/
instance {c : Call σ ε α} [h : Leaves id c] : Atomic c where
  unchanged s e s' hs := by
    have hid := h.after_eq s
    rw [after, hs] at hid
    exact hid

instance (f : σ → Except ε σ) : Atomic (attempt f) where
  unchanged s e s' hs := by
    rw [attempt_apply] at hs
    split at hs
    · cases hs
    · injection hs with _ h
      exact h.symm

instance {c : Call σ ε α} [h : Total c] : Atomic c where
  unchanged s e s' hs := by
    obtain ⟨a, s₁, hr⟩ := h.returns s
    rw [hr] at hs
    cases hs

instance {c : Call σ ε α} : Atomic c.transaction where
  unchanged s e s' hs := by
    rw [transaction_apply] at hs
    split at hs
    · cases hs
    · injection hs with _ h
      exact h.symm

/-- Checks in front of an atomic call. -/
instance {c : Call σ ε α} {f : α → Call σ ε β} [hc : Leaves id c] [hf : ∀ a, Atomic (f a)] :
    Atomic (c >>= f) where
  unchanged s e s' hs := by
    have hid := hc.after_eq s
    rw [after] at hid
    rw [bind_apply] at hs
    split at hs
    · rename_i a s₁ hcs
      have hsame : s₁ = s := by simpa [hcs] using hid
      rw [(hf a).unchanged s₁ e s' hs]
      exact hsame
    · rename_i e' s₁ hcs
      injection hs with _ h
      rw [← h]
      simpa [hcs] using hid

/-- An atomic call in front of steps that never throw. -/
instance {c : Call σ ε α} {f : α → Call σ ε β} [hc : Atomic c] [hf : ∀ a, Total (f a)] :
    Atomic (c >>= f) where
  unchanged s e s' hs := by
    rw [bind_apply] at hs
    split at hs
    · rename_i a s₁ hcs
      obtain ⟨b, s₂, hr⟩ := (hf a).returns s₁
      rw [hr] at hs
      cases hs
    · rename_i e' s₁ hcs
      injection hs with _ h
      rw [← h]
      exact hc.unchanged s e' s₁ hcs

instance {q : Prop} [Decidable q] {c d : Call σ ε α} [hc : Atomic c] [hd : Atomic d] :
    Atomic (if q then c else d) := by
  by_cases hq : q
  · rwa [if_pos hq]
  · rwa [if_neg hq]

instance {c : Call σ ε α} [Atomic c] : Atomic c.discard := by
  unfold discard
  infer_instance

theorem after_bind_of_returns {c : Call σ ε α} {f : α → Call σ ε β} {s s' : σ} {a : α}
    (h : c.Returns s a s') : (c >>= f).after s = (f a).after s' := by
  rw [after, after, bind_apply, h]

theorem after_bind_of_throws {c : Call σ ε α} {f : α → Call σ ε β} {s s' : σ} {e : ε}
    (h : c s = (.error e, s')) : (c >>= f).after s = s' := by
  rw [after, bind_apply, h]

/-- An atomic call throws and changes nothing, or it returns. -/
theorem Atomic.outcome {c : Call σ ε α} (h : c.Atomic) (s : σ) :
    (∃ e, c s = (.error e, s)) ∨ ∃ a s', c.Returns s a s' := by
  cases hc : c s with
  | mk outcome s' =>
      cases outcome with
      | ok a => exact .inr ⟨a, s', hc⟩
      | error e =>
          obtain rfl := h.unchanged s e s' hc
          exact .inl ⟨e, rfl⟩

/-- An atomic call returned, or the state is what it was. -/
theorem Atomic.after_cases {c : Call σ ε α} (h : c.Atomic) (s : σ) :
    c.after s = s ∨ ∃ a, c.Returns s a (c.after s) := by
  cases hc : c s with
  | mk outcome s' =>
      cases outcome with
      | ok a =>
          right
          refine ⟨a, ?_⟩
          rw [after, hc]
          exact hc
      | error e =>
          left
          rw [after, hc]
          exact h.unchanged s e s' hc

end

/-! ## Invariants of calls -/

/-- The call keeps `I` when it returns. -/
def Keeps (I : σ → Prop) (c : Call σ ε α) : Prop := ∀ s, I s → c.Ensures s fun _ s' => I s'

section

variable {I : σ → Prop}

/-- A call that leaves alone what the invariant reads. -/
theorem keeps_of_leaves {p : σ → τ} (c : Call σ ε α) [Leaves p c]
    (hI : ∀ s s', p s' = p s → I s → I s') : Keeps I c :=
  fun s hs _ s' hr => hI s s' (Leaves.of_returns hr) hs

theorem Keeps.bind {c : Call σ ε α} {f : α → Call σ ε β} (hc : Keeps I c)
    (hf : ∀ a, Keeps I (f a)) : Keeps I (c >>= f) := by
  intro s hs
  rw [ensures_bind]
  exact (hc s hs).mono fun a s' hs' => hf a s' hs'

theorem Keeps.transaction {c : Call σ ε α} (h : Keeps I c) : Keeps I c.transaction := by
  intro s hs
  rw [ensures_transaction]
  exact h s hs

theorem Ensures.discard {c : Call σ ε α} {s : σ} (h : c.Ensures s fun _ s' => I s') :
    c.discard.Ensures s fun _ s' => I s' := by
  rw [Call.discard, ensures_bind]
  refine h.mono fun _ s' hs' => ?_
  rw [ensures_pure]
  exact hs'

theorem Keeps.discard {c : Call σ ε α} (h : Keeps I c) : Keeps I c.discard :=
  fun s hs => (h s hs).discard

theorem Keeps.when {q : Prop} [Decidable q] {c : Call σ ε Unit} (h : Keeps I c) :
    Keeps I (when q c) := by
  intro s hs
  rw [ensures_when]
  exact ⟨fun _ => h s hs, fun _ => hs⟩

/-- What a call keeps holds after it. -/
theorem Ensures.of_keeps {c : Call σ ε α} {s : σ} {Q : α → σ → Prop} (h : Keeps I c) (hs : I s)
    (hQ : ∀ a s', I s' → Q a s') : c.Ensures s Q :=
  (h s hs).mono hQ

/-- If the call changes nothing when it throws, it keeps the invariant in any case. -/
theorem Keeps.after {c : Call σ ε α} (h : Keeps I c) (hatomic : c.Atomic) {s : σ} (hs : I s) :
    I (c.after s) := by
  rcases hatomic.after_cases s with hsame | ⟨a, hr⟩
  · rw [hsame]
    exact hs
  · exact h s hs a _ hr

end

end Call

end Sbarbase.Lib
