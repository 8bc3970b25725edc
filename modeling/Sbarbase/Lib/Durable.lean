import Mathlib.Data.List.Chain
/-!
# Programs that can be cut short

A program works on a disk, which outlives it, and on a memory, which does not.
Every durable write is one step: a program that is cut short leaves the disk it
began with or one of the disks it passed through. `Meets` says what holds of
every disk it passes and of its outcome, and its rules follow the program.
-/

namespace Sbarbase.Lib

/-- What a run left: the disks after each durable write, the outcome, and the
disk and the memory at its end. -/
structure Ran (δ τ ε α : Type) where
  passed : List δ
  outcome : Except ε α
  disk : δ
  memory : τ

/-- A program on disks `δ` and memories `τ` that fails with `ε` or returns `α`. -/
def Durable (δ τ ε α : Type) := δ → τ → Ran δ τ ε α

namespace Durable

variable {δ τ ε α β : Type}

instance : Monad (Durable δ τ ε) where
  pure a := fun d t => ⟨[], .ok a, d, t⟩
  bind c f := fun d t =>
    match c d t with
    | ⟨passed, .ok a, d', t'⟩ =>
      { f a d' t' with passed := passed ++ (f a d' t').passed }
    | ⟨passed, .error e, d', t'⟩ => ⟨passed, .error e, d', t'⟩

def throw (e : ε) : Durable δ τ ε α := fun d t => ⟨[], .error e, d, t⟩

def disk : Durable δ τ ε δ := fun d t => ⟨[], .ok d, d, t⟩

def memory : Durable δ τ ε τ := fun d t => ⟨[], .ok t, d, t⟩

/-- Change the memory. -/
def remember (f : τ → τ) : Durable δ τ ε Unit := fun d t => ⟨[], .ok (), d, f t⟩

/-- One durable write. -/
def store (f : δ → δ) : Durable δ τ ε Unit := fun d t => ⟨[f d], .ok (), f d, t⟩

def require (p : Prop) [Decidable p] (e : ε) : Durable δ τ ε Unit := fun d t =>
  ⟨[], if p then .ok () else .error e, d, t⟩

/-- `if p: c` -/
def whenever (p : Prop) [Decidable p] (c : Durable δ τ ε Unit) : Durable δ τ ε Unit :=
  if p then c else pure ()

/-- The outcome of a function that touches neither the disk nor the memory. -/
def lift (outcome : Except ε α) : Durable δ τ ε α := fun d t => ⟨[], outcome, d, t⟩

/-- `try … except`: the error is replaced and the memory changed. -/
def onError (c : Durable δ τ ε α) (f : τ → τ) (g : ε → ε) : Durable δ τ ε α := fun d t =>
  match c d t with
  | ⟨passed, .ok a, d', t'⟩ => ⟨passed, .ok a, d', t'⟩
  | ⟨passed, .error e, d', t'⟩ => ⟨passed, .error (g e), d', f t'⟩

/-- `try … except`: `handle` goes on from where the program failed. -/
def orElse (c : Durable δ τ ε α) (handle : ε → Durable δ τ ε α) : Durable δ τ ε α := fun d t =>
  match c d t with
  | ⟨passed, .ok a, d', t'⟩ => ⟨passed, .ok a, d', t'⟩
  | ⟨passed, .error e, d', t'⟩ =>
    { handle e d' t' with passed := passed ++ (handle e d' t').passed }

/-- `for item in items: body(item)` -/
def forEach : List β → (β → Durable δ τ ε Unit) → Durable δ τ ε Unit
  | [], _ => pure ()
  | item :: items, body => do
    body item
    forEach items body

theorem bind_apply (c : Durable δ τ ε α) (f : α → Durable δ τ ε β) (d : δ) (t : τ) :
    (c >>= f) d t = match c d t with
      | ⟨passed, .ok a, d', t'⟩ => { f a d' t' with passed := passed ++ (f a d' t').passed }
      | ⟨passed, .error e, d', t'⟩ => ⟨passed, .error e, d', t'⟩ := rfl

/-- The disks that a program cut short can leave. -/
def crashes (c : Durable δ τ ε α) (d : δ) (t : τ) : List δ := d :: (c d t).passed

/-- The disk after the first `n` durable writes, or after all of them. -/
def cut (c : Durable δ τ ε α) (n : Nat) (d : δ) (t : τ) : δ := ((c d t).passed.take n).getLastD d

theorem cut_mem (c : Durable δ τ ε α) (n : Nat) (d : δ) (t : τ) : c.cut n d t ∈ c.crashes d t := by
  rw [cut, crashes]
  cases htake : (c d t).passed.take n with
  | nil => exact List.mem_cons_self
  | cons first rest =>
      rw [List.getLastD_eq_getLast?, List.getLast?_eq_some_getLast (List.cons_ne_nil first rest)]
      apply List.mem_cons_of_mem
      have hlast : (first :: rest).getLast (List.cons_ne_nil first rest) ∈
          (c d t).passed.take n := by
        rw [htake]
        exact List.getLast_mem _
      exact List.mem_of_mem_take hlast

/-! ## What a program meets -/

/-- Every durable write is related by `R` to the disk before it, and the program
ends as `Q` says. -/
def Meets (c : Durable δ τ ε α) (d : δ) (t : τ) (R : δ → δ → Prop)
    (Q : Except ε α → δ → τ → Prop) : Prop :=
  (d :: (c d t).passed).IsChain R ∧ (c d t).disk = (c d t).passed.getLastD d ∧
    Q (c d t).outcome (c d t).disk (c d t).memory

section

variable {d : δ} {t : τ} {R : δ → δ → Prop} {Q : Except ε α → δ → τ → Prop}
  {P : Except ε β → δ → τ → Prop}

theorem Meets.mono {c : Durable δ τ ε α} {R' : δ → δ → Prop} {Q' : Except ε α → δ → τ → Prop}
    (h : c.Meets d t R Q) (hR : ∀ d' d'', R d' d'' → R' d' d'')
    (hQ : ∀ r d' t', Q r d' t' → Q' r d' t') : c.Meets d t R' Q' :=
  ⟨h.1.imp hR, h.2.1, hQ _ _ _ h.2.2⟩

theorem forall_of_isChain {C : δ → Prop} {passed : List δ}
    (h : (d :: passed).IsChain fun _ d' => C d') : ∀ d' ∈ passed, C d' := by
  induction passed generalizing d with
  | nil => simp
  | cons next passed ih =>
      rw [List.isChain_cons_cons] at h
      intro d' hd'
      rcases List.mem_cons.mp hd' with rfl | hpassed
      · exact h.1
      · exact ih h.2 d' hpassed

/-- What holds after every write holds of the disks a crash leaves, if it held before. -/
theorem Meets.crashes {c : Durable δ τ ε α} {C : δ → Prop} (h : c.Meets d t (fun _ => C) Q)
    (hd : C d) : ∀ d' ∈ c.crashes d t, C d' := by
  intro d' hd'
  rcases List.mem_cons.mp hd' with rfl | hpassed
  · exact hd
  · exact forall_of_isChain h.1 d' hpassed

theorem getLastD_mem (passed : List δ) (d : δ) : passed.getLastD d ∈ d :: passed := by
  cases passed with
  | nil => exact List.mem_cons_self
  | cons next passed =>
      rw [List.getLastD_eq_getLast?, List.getLast?_eq_some_getLast (List.cons_ne_nil next passed)]
      exact List.mem_cons_of_mem d (List.getLast_mem _)

/-- The disk at the end is one that a crash can leave. -/
theorem Meets.disk_mem {c : Durable δ τ ε α} (h : c.Meets d t R Q) :
    (c d t).disk ∈ c.crashes d t := by
  rw [h.2.1]
  exact getLastD_mem _ _

theorem meets_pure {a : α} : (pure a : Durable δ τ ε α).Meets d t R Q ↔ Q (.ok a) d t := by
  simp [Meets, pure]

theorem meets_throw {e : ε} : (throw e : Durable δ τ ε α).Meets d t R Q ↔ Q (.error e) d t := by
  simp [Meets, throw]

theorem meets_remember {f : τ → τ} {Q : Except ε Unit → δ → τ → Prop} :
    (remember f : Durable δ τ ε Unit).Meets d t R Q ↔ Q (.ok ()) d (f t) := by
  simp [Meets, remember]

theorem meets_store {f : δ → δ} {Q : Except ε Unit → δ → τ → Prop} :
    (store f : Durable δ τ ε Unit).Meets d t R Q ↔ R d (f d) ∧ Q (.ok ()) (f d) t := by
  simp [Meets, store]

theorem isChain_append {passed passed' : List δ} (h : (d :: passed).IsChain R)
    (h' : (passed.getLastD d :: passed').IsChain R) : (d :: (passed ++ passed')).IsChain R := by
  induction passed generalizing d with
  | nil => exact h'
  | cons next passed ih =>
      rw [List.isChain_cons_cons] at h
      rw [List.cons_append, List.isChain_cons_cons]
      refine ⟨h.1, ih h.2 ?_⟩
      rwa [List.getLastD_cons] at h'

theorem getLastD_append (passed passed' : List δ) (d : δ) :
    (passed ++ passed').getLastD d = passed'.getLastD (passed.getLastD d) := by
  induction passed generalizing d with
  | nil => rfl
  | cons next passed ih => rw [List.cons_append, List.getLastD_cons, List.getLastD_cons, ih]

/-- Along a chain everything is related to the last. -/
theorem rel_getLastD (hrefl : ∀ d, R d d) (htrans : ∀ a b c, R a b → R b c → R a c)
    {passed : List δ} (h : (d :: passed).IsChain R) :
    ∀ d' ∈ d :: passed, R d' (passed.getLastD d) := by
  induction passed generalizing d with
  | nil =>
      intro d' hd'
      rw [List.mem_singleton.mp hd']
      exact hrefl d
  | cons next passed ih =>
      rw [List.isChain_cons_cons] at h
      rw [List.getLastD_cons]
      intro d' hd'
      rcases List.mem_cons.mp hd' with rfl | hlater
      · exact htrans _ _ _ h.1 (ih h.2 next List.mem_cons_self)
      · exact ih h.2 d' hlater

theorem meets_bind {c : Durable δ τ ε α} {f : α → Durable δ τ ε β} (h : c.Meets d t R fun r d' t' =>
      match r with
      | .ok a => (f a).Meets d' t' R P
      | .error e => P (.error e) d' t') : (c >>= f).Meets d t R P := by
  rw [Meets] at h ⊢
  rw [bind_apply]
  generalize c d t = ran at h ⊢
  rcases ran with ⟨passed, e | a, d', t'⟩
  · exact h
  · obtain ⟨hfirst, hdisk, hrest, hdisk', hend⟩ := h
    dsimp only at hdisk
    subst hdisk
    refine ⟨isChain_append hfirst hrest, ?_, hend⟩
    rw [getLastD_append]
    exact hdisk'

theorem meets_store_bind {f : δ → δ} {g : Unit → Durable δ τ ε β} (hR : R d (f d))
    (hg : (g ()).Meets (f d) t R P) : (store f >>= g).Meets d t R P :=
  meets_bind (meets_store.mpr ⟨hR, hg⟩)

theorem meets_whenever_bind {p : Prop} [Decidable p] {c : Durable δ τ ε Unit}
    {g : Unit → Durable δ τ ε β} (hp : p → (c >>= g).Meets d t R P)
    (hnot : ¬ p → (g ()).Meets d t R P) : (whenever p c >>= g).Meets d t R P := by
  unfold whenever
  by_cases h : p
  · rw [if_pos h]
    exact hp h
  · rw [if_neg h]
    exact meets_bind (meets_pure.mpr (hnot h))

theorem meets_remember_bind {f : τ → τ} {g : Unit → Durable δ τ ε β}
    (hg : (g ()).Meets d (f t) R P) : (remember f >>= g).Meets d t R P :=
  meets_bind (meets_remember.mpr hg)

theorem meets_onError {c : Durable δ τ ε α} {f : τ → τ} {g : ε → ε} :
    (c.onError f g).Meets d t R Q ↔ c.Meets d t R fun r d' t' =>
      match r with
      | .ok a => Q (.ok a) d' t'
      | .error e => Q (.error (g e)) d' (f t') := by
  rw [Meets, Meets, onError]
  rcases c d t with ⟨passed, e | a, d', t'⟩ <;> exact Iff.rfl

theorem meets_orElse {c : Durable δ τ ε α} {handle : ε → Durable δ τ ε α}
    (h : c.Meets d t R fun r d' t' =>
      match r with
      | .ok a => Q (.ok a) d' t'
      | .error e => (handle e).Meets d' t' R Q) : (c.orElse handle).Meets d t R Q := by
  rw [Meets] at h ⊢
  rw [orElse]
  generalize c d t = ran at h ⊢
  rcases ran with ⟨passed, e | a, d', t'⟩
  · obtain ⟨hfirst, hdisk, hrest, hdisk', hend⟩ := h
    dsimp only at hdisk
    subst hdisk
    refine ⟨isChain_append hfirst hrest, ?_, hend⟩
    rw [getLastD_append]
    exact hdisk'
  · exact h

/-- A loop whose every pass leaves `I` and returns leaves `I` and returns. -/
theorem meets_forEach {I : δ → τ → Prop} {body : β → Durable δ τ ε Unit} (items : List β)
    (hbody : ∀ item ∈ items, ∀ d t, I d t → (body item).Meets d t R fun r d' t' =>
      r = .ok () ∧ I d' t') (hI : I d t) :
    (forEach items body).Meets d t R fun r d' t' => r = .ok () ∧ I d' t' := by
  induction items generalizing d t with
  | nil => exact meets_pure.mpr ⟨rfl, hI⟩
  | cons item items ih =>
      refine meets_bind ((hbody item List.mem_cons_self d t hI).mono (fun _ _ h => h) ?_)
      rintro r d' t' ⟨rfl, hI'⟩
      exact ih (fun item' hmem => hbody item' (List.mem_cons_of_mem item hmem)) hI'

end

/-! ## Programs that only look -/

/-- The program writes nothing and keeps the memory. -/
class Looks (c : Durable δ τ ε α) : Prop where
  eq : ∀ d t, c d t = ⟨[], (c d t).outcome, d, t⟩

/-- The program returns `a`. -/
def Returns (c : Durable δ τ ε α) (d : δ) (t : τ) (a : α) : Prop := (c d t).outcome = .ok a

section

instance (a : α) : Looks (pure a : Durable δ τ ε α) := ⟨fun _ _ => rfl⟩

instance (e : ε) : Looks (throw e : Durable δ τ ε α) := ⟨fun _ _ => rfl⟩

instance : Looks (disk : Durable δ τ ε δ) := ⟨fun _ _ => rfl⟩

instance : Looks (memory : Durable δ τ ε τ) := ⟨fun _ _ => rfl⟩

instance (p : Prop) [Decidable p] (e : ε) : Looks (require p e : Durable δ τ ε Unit) :=
  ⟨fun _ _ => rfl⟩

instance (outcome : Except ε α) : Looks (lift outcome : Durable δ τ ε α) := ⟨fun _ _ => rfl⟩

theorem Looks.bind {c : Durable δ τ ε α} {f : α → Durable δ τ ε β} (hc : Looks c)
    (hf : ∀ a, Looks (f a)) : Looks (c >>= f) where
  eq d t := by
    rw [bind_apply, hc.eq d t]
    cases (c d t).outcome with
    | error e => rfl
    | ok a =>
        dsimp only
        rw [(hf a).eq d t]
        rfl

instance {c : Durable δ τ ε α} {f : α → Durable δ τ ε β} [hc : Looks c] [hf : ∀ a, Looks (f a)] :
    Looks (c >>= f) := hc.bind hf

instance {p : Prop} [Decidable p] {c c' : Durable δ τ ε α} [hc : Looks c] [hc' : Looks c'] :
    Looks (if p then c else c') := by
  by_cases hp : p
  · rwa [if_pos hp]
  · rwa [if_neg hp]

variable {d : δ} {t : τ} {R : δ → δ → Prop} {P : Except ε β → δ → τ → Prop}

/-- A program that only looks, in front of another: it fails and nothing
happened, or it returns and the rest runs. -/
theorem meets_look {c : Durable δ τ ε α} {f : α → Durable δ τ ε β} [h : Looks c]
    (hfails : ∀ e, P (.error e) d t) (hreturns : ∀ a, c.Returns d t a → (f a).Meets d t R P) :
    (c >>= f).Meets d t R P := by
  apply meets_bind
  rw [Meets, h.eq d t]
  refine ⟨.singleton d, rfl, ?_⟩
  cases hc : (c d t).outcome with
  | error e => exact hfails e
  | ok a => exact hreturns a hc

/-- A program that looks and is known to return. -/
theorem meets_returned {c : Durable δ τ ε α} {f : α → Durable δ τ ε β} {a : α} [h : Looks c]
    (hc : c.Returns d t a) (hf : (f a).Meets d t R P) : (c >>= f).Meets d t R P := by
  apply meets_bind
  rw [Meets, h.eq d t, hc]
  exact ⟨.singleton d, rfl, hf⟩

/-- A program that only looks, at the end. -/
theorem meets_looked {c : Durable δ τ ε β} [h : Looks c] (hfails : ∀ e, P (.error e) d t)
    (hreturns : ∀ b, c.Returns d t b → P (.ok b) d t) : c.Meets d t R P := by
  rw [Meets, h.eq d t]
  refine ⟨.singleton d, rfl, ?_⟩
  cases hc : (c d t).outcome with
  | error e => exact hfails e
  | ok b => exact hreturns b hc

theorem Returns.meets {c : Durable δ τ ε β} {b : β} [h : Looks c] (hc : c.Returns d t b)
    (hP : P (.ok b) d t) : c.Meets d t R P := by
  rw [Meets, h.eq d t, hc]
  exact ⟨.singleton d, rfl, hP⟩

theorem passed_returned {c : Durable δ τ ε α} {f : α → Durable δ τ ε β} {a : α} [h : Looks c]
    (hc : c.Returns d t a) : ((c >>= f) d t).passed = (f a d t).passed := by
  rw [bind_apply, h.eq d t, hc]
  rfl

theorem passed_store_bind {g : δ → δ} {f : Unit → Durable δ τ ε β} :
    ((store g >>= f) d t).passed = g d :: (f () (g d) t).passed := rfl

theorem passed_onError {c : Durable δ τ ε α} {f : τ → τ} {g : ε → ε} :
    (c.onError f g d t).passed = (c d t).passed := by
  rw [onError]
  rcases c d t with ⟨passed, e | a, d', t'⟩ <;> rfl

theorem returns_pure {a b : α} : (pure a : Durable δ τ ε α).Returns d t b ↔ b = a := by
  simp [Returns, pure, eq_comm]

theorem returns_disk {d' : δ} : (disk : Durable δ τ ε δ).Returns d t d' ↔ d' = d := by
  simp [Returns, disk, eq_comm]

theorem returns_memory {t' : τ} : (memory : Durable δ τ ε τ).Returns d t t' ↔ t' = t := by
  simp [Returns, memory, eq_comm]

theorem not_returns_throw {e : ε} {a : α} : ¬ (throw e : Durable δ τ ε α).Returns d t a := by
  simp [Returns, throw]

theorem returns_require {p : Prop} [Decidable p] {e : ε} {u : Unit} :
    (require p e : Durable δ τ ε Unit).Returns d t u ↔ p := by
  by_cases hp : p <;> simp [Returns, require, hp]

theorem returns_lift {outcome : Except ε α} {a : α} :
    (lift outcome : Durable δ τ ε α).Returns d t a ↔ outcome = .ok a := Iff.rfl

theorem returns_bind {c : Durable δ τ ε α} {f : α → Durable δ τ ε β} [h : Looks c] {b : β} :
    (c >>= f).Returns d t b ↔ ∃ a, c.Returns d t a ∧ (f a).Returns d t b := by
  rw [Returns, bind_apply, h.eq d t]
  cases hc : (c d t).outcome with
  | error e => simp [Returns, hc]
  | ok a => simp [Returns, hc]

end

end Durable

end Sbarbase.Lib
