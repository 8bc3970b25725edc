import Mathlib.Data.Int.Order.Basic
import Sbarbase.Control.Keys
/-!
# Validity of API keys

A row that is not revoked is the row some issue inserted, and nothing that
covers it ran since. A key resolves exactly if its row is not revoked and its
runtime is still at the epoch of the issue.
-/

namespace Sbarbase.Control.Proofs.Keys

open Lib Control.Keys

/-- The event revokes the key `id` of `environment`, issued at `epoch`. -/
def Covers (environment id : String) (epoch : ℤ) : Event → Prop
  | .revoke environment' id' _ => id = id' ∧ environment = environment'
  | .revokeAll environment' _ => environment = environment'
  | .revokeBeforeEpoch environment' limit _ =>
    isEpoch limit ∧ environment = environment' ∧ epoch < limit
  | .issue .. | .epochRises .. => False

/-- A row that is not revoked. -/
def Live (s : State) (row : KeyRow) : Prop :=
  row ∈ s.store.keys.rows ∧ row.revokedAt = none

section

variable (digest : String → String)

/-! ## What one event does to the rows -/

theorem mem_revokeWhere {store : KeyStore} {p : KeyRow → Bool} {now : ℤ} {row : KeyRow} :
    row ∈ (store.revokeWhere p now).keys.rows ↔
      ∃ old ∈ store.keys.rows, (if old.unrevoked p then old.revoked now else old) = row :=
  List.mem_map

theorem live_revokeWhere {store : KeyStore} {p : KeyRow → Bool} {now : ℤ} {row : KeyRow} :
    row ∈ (store.revokeWhere p now).keys.rows ∧ row.revokedAt = none ↔
      (row ∈ store.keys.rows ∧ row.revokedAt = none) ∧ p row = false := by
  rw [mem_revokeWhere]
  constructor
  · rintro ⟨⟨old, hold, hrow⟩, hnone⟩
    split_ifs at hrow with hp
    · rw [← hrow] at hnone
      cases hnone
    · subst hrow
      refine ⟨⟨hold, hnone⟩, ?_⟩
      simpa [KeyRow.unrevoked, hnone] using hp
  · rintro ⟨⟨hmem, hnone⟩, hp⟩
    exact ⟨⟨row, hmem, by simp [KeyRow.unrevoked, hp]⟩, hnone⟩

theorem revokeRows_after (p : KeyRow → Bool) (now : ℤ) (store : KeyStore) :
    (revokeRows p now).after store = store.revokeWhere p now := rfl

theorem revoke_after (environment id : String) (now : ℤ) (store : KeyStore) :
    (revoke environment id now).after store =
      store.revokeWhere (fun row => row.id = id && row.environment = environment) now := rfl

theorem revokeBeforeEpoch_after (environment : String) (epoch now : ℤ) (store : KeyStore) :
    (revokeBeforeEpoch environment epoch now).after store =
      if isEpoch epoch then
        store.revokeWhere
          (fun row => row.environment = environment && row.runtimeEpoch < epoch) now
      else store := by
  rw [Call.after, revokeBeforeEpoch, Call.bind_apply, Call.require_apply]
  split_ifs <;> rfl

theorem insert_ok {store store' : KeyStore} {row : KeyRow} (h : store.insert row = .ok store') :
    store'.keys.rows = store.keys.rows ++ [row] := by
  unfold KeyStore.insert at h
  split at h
  · cases h
  · rename_i keys hinsert
    split_ifs at h
    injection h with h
    rw [← h]
    exact (Table.insert_eq_some hinsert).1

/-- What an issue that returns did. -/
theorem issue_returns {store store' : KeyStore} {epoch : String → ℤ} {environment : String}
    {kind : KeyKind} {name : String} {draw : Draw} {id : String} {now : ℤ}
    {result : String × String}
    (h : (issue digest epoch environment kind name draw id now).Returns store result store') :
    store'.keys.rows = store.keys.rows ++
        [issuedRow digest environment kind name draw id (epoch environment) now] ∧
      result = (id, tokenText kind draw) := by
  simp only [issue, Call.returns_bind, Call.returns_require, Call.returns_attempt,
    Call.returns_pure] at h
  obtain ⟨_, _, ⟨_, rfl⟩, _, _, ⟨_, rfl⟩, _, _, ⟨_, rfl⟩, _, _, hinsert, rfl, rfl⟩ := h
  exact ⟨insert_ok hinsert, rfl⟩

/-- An issue that throws inserts nothing. -/
theorem atomic_issue (epoch : String → ℤ) (environment : String) (kind : KeyKind)
    (name : String) (draw : Draw) (id : String) (now : ℤ) :
    (issue digest epoch environment kind name draw id now).Atomic := by
  unfold issue
  infer_instance

/-- The call issues the key of `row`. -/
def Issues (s : State) (e : Event) (row : KeyRow) : Prop :=
  ∃ environment kind name draw id now result store,
    e = .issue environment kind name draw id now ∧
      (issue digest s.epoch environment kind name draw id now).Returns s.store result store ∧
      row = issuedRow digest environment kind name draw id (s.epoch environment) now

theorem not_issues {s : State} {e : Event} {row : KeyRow}
    (h : ∀ environment kind name draw id now, e ≠ .issue environment kind name draw id now) :
    ¬ Issues digest s e row := by
  rintro ⟨environment, kind, name, draw, id, now, _, _, he, _⟩
  exact h environment kind name draw id now he

/-- The rows after an issue: what was there, and the row if it was issued. -/
theorem mem_issue (s : State) (environment : String) (kind : KeyKind) (name : String)
    (draw : Draw) (id : String) (now : ℤ) (row : KeyRow) :
    row ∈ (step digest s (.issue environment kind name draw id now)).store.keys.rows ↔
      row ∈ s.store.keys.rows ∨
        Issues digest s (.issue environment kind name draw id now) row := by
  have hcases := (atomic_issue digest s.epoch environment kind name draw id now).after_cases
    s.store
  simp only [step]
  generalize hstore : (issue digest s.epoch environment kind name draw id now).after s.store =
    store at hcases
  rcases hcases with hsame | ⟨result, hreturns⟩
  · rw [hsame]
    refine ⟨.inl, fun h => h.resolve_right ?_⟩
    rintro ⟨_, _, _, _, _, _, result, store', he, hreturns, _⟩
    cases he
    have hrows := (issue_returns digest hreturns).1
    rw [← hreturns.after_eq, hstore, hsame] at hrows
    simp at hrows
  · rw [(issue_returns digest hreturns).1, List.mem_append, List.mem_singleton]
    refine or_congr Iff.rfl ⟨fun hrow => ?_, ?_⟩
    · exact ⟨_, _, _, _, _, _, result, store, rfl, hreturns, hrow⟩
    · rintro ⟨_, _, _, _, _, _, _, _, he, _, hrow⟩
      cases he
      exact hrow

/-! ## Live rows -/

theorem live_step (s : State) (e : Event) (row : KeyRow) : Live (step digest s e) row ↔
      (Live s row ∧ ¬ Covers row.environment row.id row.runtimeEpoch e) ∨
        Issues digest s e row := by
  cases e with
  | issue environment kind name draw id now =>
      rw [Live, mem_issue, or_and_right]
      refine or_congr (by simp [Live, Covers]) (and_iff_left_of_imp ?_)
      rintro ⟨_, _, _, _, _, _, _, _, _, _, hrow⟩
      rw [hrow]
      rfl
  | revoke environment id now =>
      rw [or_iff_left (not_issues digest (by simp)), Live]
      simp only [step, revoke_after]
      refine live_revokeWhere.trans (and_congr Iff.rfl ?_)
      simp [Covers]
  | revokeAll environment now =>
      rw [or_iff_left (not_issues digest (by simp)), Live]
      simp only [step, revokeAll, revokeRows_after]
      refine live_revokeWhere.trans (and_congr Iff.rfl ?_)
      simp [Covers]
  | revokeBeforeEpoch environment limit now =>
      rw [or_iff_left (not_issues digest (by simp)), Live]
      simp only [step, revokeBeforeEpoch_after]
      split_ifs with hlimit
      · refine live_revokeWhere.trans (and_congr Iff.rfl ?_)
        simp [Covers, hlimit]
      · simp [Live, Covers, hlimit]
  | epochRises environment epoch =>
      rw [or_iff_left (not_issues digest (by simp))]
      have hstore : (step digest s (.epochRises environment epoch)).store = s.store := by
        simp only [step]
        split_ifs <;> rfl
      simp [Live, hstore, Covers]

/-! ## Runs -/

/-- A row is live exactly if an issue made it and nothing covered it since. -/
theorem live_run (events : List Event) (row : KeyRow) : Live ((machine digest).run events) row ↔
      ∃ before e after, events = before ++ e :: after ∧
        Issues digest ((machine digest).run before) e row ∧
        ∀ later ∈ after, ¬ Covers row.environment row.id row.runtimeEpoch later := by
  constructor
  · intro hlive
    refine (machine digest).run_since (I := fun s => Live s row)
      (B := fun s e => Issues digest s e row)
      (E := Covers row.environment row.id row.runtimeEpoch) ?_ ?_ events hlive
    · rintro ⟨hmem, _⟩
      cases hmem
    · exact fun before e h => (live_step digest _ e row).mp h
  · rintro ⟨before, e, after, rfl, hissues, hafter⟩
    refine (machine digest).run_kept (I := fun s => Live s row)
      (B := fun s e => Issues digest s e row)
      (E := Covers row.environment row.id row.runtimeEpoch) ?_ ?_ hissues hafter
    · exact fun s e h => (live_step digest s e row).mpr (.inr h)
    · exact fun s e hs he => (live_step digest s e row).mpr (.inl ⟨hs, he⟩)

/-! ## What later events keep -/

/-- Revoked or not, a key keeps its environment, digest and epoch. -/
def SameKey (old row : KeyRow) : Prop :=
  row.environment = old.environment ∧ row.digest = old.digest ∧
    row.runtimeEpoch = old.runtimeEpoch

/-- No key is lost and no epoch falls. -/
def Extends (s t : State) : Prop :=
  (∀ old ∈ s.store.keys.rows, ∃ row ∈ t.store.keys.rows, SameKey old row) ∧
    ∀ environment, s.epoch environment ≤ t.epoch environment

theorem extends_refl (s : State) : Extends s s :=
  ⟨fun row hrow => ⟨row, hrow, rfl, rfl, rfl⟩, fun _ => le_rfl⟩

theorem extends_trans (s t u : State) (hst : Extends s t) (htu : Extends t u) : Extends s u := by
  refine ⟨fun old hold => ?_, fun environment => ?_⟩
  · obtain ⟨mid, hmid, henv, hdigest, hepoch⟩ := hst.1 old hold
    obtain ⟨row, hrow, henv', hdigest', hepoch'⟩ := htu.1 mid hmid
    exact ⟨row, hrow, henv'.trans henv, hdigest'.trans hdigest, hepoch'.trans hepoch⟩
  · exact (hst.2 environment).trans (htu.2 environment)

theorem extends_revokeWhere (s : State) (p : KeyRow → Bool) (now : ℤ) :
    Extends s { s with store := s.store.revokeWhere p now } := by
  refine ⟨fun old hold => ?_, fun _ => le_rfl⟩
  refine ⟨_, mem_revokeWhere.mpr ⟨old, hold, rfl⟩, ?_⟩
  split_ifs <;> exact ⟨rfl, rfl, rfl⟩

theorem extends_step (s : State) (e : Event) : Extends s (step digest s e) := by
  cases e with
  | issue environment kind name draw id now =>
      refine ⟨fun old hold => ⟨old, ?_, rfl, rfl, rfl⟩, fun _ => le_rfl⟩
      exact (mem_issue digest s environment kind name draw id now old).mpr (.inl hold)
  | revoke environment id now => exact extends_revokeWhere s _ now
  | revokeAll environment now => exact extends_revokeWhere s _ now
  | revokeBeforeEpoch environment limit now =>
      simp only [step, revokeBeforeEpoch_after]
      split_ifs
      · exact extends_revokeWhere s _ now
      · exact extends_refl s
  | epochRises environment epoch =>
      simp only [step]
      split_ifs with hlt
      · refine ⟨(extends_refl s).1, fun other => ?_⟩
        show s.epoch other ≤ Function.update s.epoch environment epoch other
        by_cases hsame : other = environment
        · rw [hsame, Function.update_self]
          exact hlt.le
        · rw [Function.update_of_ne hsame]
      · exact extends_refl s

theorem extends_run (before after : List Event) :
    Extends ((machine digest).run before) ((machine digest).run (before ++ after)) := by
  rw [(machine digest).run_append]
  exact (machine digest).runFrom_rel extends_refl extends_trans (extends_step digest) _ _

/-- A token text is stored in live rows only. -/
theorem token_live (events : List Event) : ∀ row ∈ ((machine digest).run events).store.keys.rows,
      row.token ≠ none → row.revokedAt = none := by
  have hrevoke : ∀ (store : KeyStore) (p : KeyRow → Bool) (now : ℤ),
      (∀ row ∈ store.keys.rows, row.token ≠ none → row.revokedAt = none) →
        ∀ row ∈ (store.revokeWhere p now).keys.rows, row.token ≠ none → row.revokedAt = none := by
    intro store p now hs row hrow htoken
    obtain ⟨old, hold, rfl⟩ := mem_revokeWhere.mp hrow
    split_ifs at htoken ⊢
    · exact absurd rfl htoken
    · exact hs old hold htoken
  apply (machine digest).run_invariant
    (I := fun s => ∀ row ∈ s.store.keys.rows, row.token ≠ none → row.revokedAt = none)
  · intro row hrow
    cases hrow
  · intro s e hs
    cases e with
    | issue environment kind name draw id now =>
        intro row hrow htoken
        rcases (mem_issue digest s environment kind name draw id now row).mp hrow with hold | hnew
        · exact hs row hold htoken
        · obtain ⟨_, _, _, _, _, _, _, _, _, _, rfl⟩ := hnew
          rfl
    | revoke environment id now => exact hrevoke _ _ _ hs
    | revokeAll environment now => exact hrevoke _ _ _ hs
    | revokeBeforeEpoch environment limit now =>
        simp only [step, revokeBeforeEpoch_after, machine]
        split_ifs
        · exact hrevoke _ _ _ hs
        · exact hs
    | epochRises environment epoch =>
        simp only [step, machine]
        split_ifs <;> exact hs

/-! ## Resolving -/

theorem eq_of_digest (store : KeyStore) {a b : KeyRow} (ha : a ∈ store.keys.rows)
    (hb : b ∈ store.keys.rows) (h : a.digest = b.digest) : a = b :=
  List.inj_on_of_nodup_map store.digests ha hb h

theorem resolve_eq_some {s : State} {environment token : String} {kind : KeyKind} :
    resolve digest s.store s.epoch environment token = some kind ↔
      utf16Length token ≤ 8192 ∧ ∃ row, Live s row ∧ row.environment = environment ∧
        row.digest = digest token ∧ row.runtimeEpoch = s.epoch environment ∧ row.kind = kind := by
  unfold resolve
  split_ifs with hlong
  · constructor
    · intro h
      cases h
    · rintro ⟨hshort, _⟩
      omega
  · rw [Option.map_eq_some_iff]
    constructor
    · rintro ⟨row, hfind, hkind⟩
      have hmem := List.mem_of_find?_eq_some hfind
      have hrow := List.find?_some hfind
      simp only [Bool.and_eq_true, decide_eq_true_eq] at hrow
      obtain ⟨⟨⟨henv, hdigest⟩, hnone⟩, hepoch⟩ := hrow
      exact ⟨by omega, row, ⟨hmem, hnone⟩, henv, hdigest, hepoch, hkind⟩
    · rintro ⟨_, row, ⟨hmem, hnone⟩, henv, hdigest, hepoch, hkind⟩
      refine ⟨row, ?_, hkind⟩
      apply find?_eq_some_of_unique hmem (by simp [henv, hdigest, hnone, hepoch])
      intro other hother hp
      simp only [Bool.and_eq_true, decide_eq_true_eq] at hp
      exact eq_of_digest s.store hother hmem (hp.1.1.2.trans hdigest.symm)

/-! ## Validity -/

/-- The event, after `before`, issues `token` under `id` at `epoch`. -/
def Issued (before : List Event) (e : Event) (environment : String) (kind : KeyKind)
    (id token : String) (epoch : ℤ) : Prop :=
  ∃ name draw now store, e = .issue environment kind name draw id now ∧
    (issue digest ((machine digest).run before).epoch environment kind name draw id now).Returns
      ((machine digest).run before).store (id, token) store ∧
    ((machine digest).run before).epoch environment = epoch

/-- `token` was issued for `environment` with `kind` at `epoch`, and nothing
that covers it ran since. -/
def Valid (events : List Event) (environment : String) (kind : KeyKind) (token : String)
    (epoch : ℤ) : Prop :=
  ∃ before e after id, events = before ++ e :: after ∧
    Issued digest before e environment kind id token epoch ∧
    ∀ later ∈ after, ¬ Covers environment id epoch later

/-- What an issue put into the table. -/
theorem Issued.row {before : List Event} {e : Event} {environment : String} {kind : KeyKind}
    {id token : String} {epoch : ℤ} (h : Issued digest before e environment kind id token epoch) :
    ∃ row, Issues digest ((machine digest).run before) e row ∧ row.environment = environment ∧
      row.id = id ∧ row.digest = digest token ∧ row.runtimeEpoch = epoch ∧ row.kind = kind ∧
      row.token = storedToken kind token := by
  obtain ⟨name, draw, now, store, he, hreturns, hepoch⟩ := h
  have htoken : token = tokenText kind draw :=
    (Prod.mk.inj (issue_returns digest hreturns).2).2
  refine ⟨_, ⟨_, _, _, _, _, _, _, _, he, hreturns, rfl⟩, rfl, rfl, ?_, hepoch, rfl, ?_⟩
  · rw [htoken]
    rfl
  · rw [htoken]
    rfl

theorem Issues.issued {before : List Event} {e : Event} {row : KeyRow}
    (h : Issues digest ((machine digest).run before) e row) :
    ∃ draw, row.digest = digest (tokenText row.kind draw) ∧
      row.token = storedToken row.kind (tokenText row.kind draw) ∧
      Issued digest before e row.environment row.kind row.id (tokenText row.kind draw)
        row.runtimeEpoch := by
  obtain ⟨environment, kind, name, draw, id, now, result, store, he, hreturns, rfl⟩ := h
  obtain rfl := (issue_returns digest hreturns).2
  exact ⟨draw, rfl, rfl, name, draw, now, store, he, hreturns, rfl⟩

/-- A live row is a valid key with the token of its draw. -/
theorem live_iff_valid (hdigest : Function.Injective digest) (events : List Event)
    (environment : String) (kind : KeyKind) (token : String) (epoch : ℤ) :
    (∃ row, Live ((machine digest).run events) row ∧ row.environment = environment ∧
      row.digest = digest token ∧ row.runtimeEpoch = epoch ∧ row.kind = kind) ↔
      Valid digest events environment kind token epoch := by
  constructor
  · rintro ⟨row, hlive, rfl, hrow, rfl, rfl⟩
    obtain ⟨before, e, after, heq, hissues, hafter⟩ := (live_run digest events row).mp hlive
    obtain ⟨draw, htoken, _, hissued⟩ := hissues.issued
    rw [hrow] at htoken
    rw [hdigest htoken]
    exact ⟨before, e, after, row.id, heq, hissued, hafter⟩
  · rintro ⟨before, e, after, id, heq, hissued, hafter⟩
    obtain ⟨row, hissues, rfl, rfl, hrow, rfl, rfl, _⟩ := hissued.row
    exact ⟨row, (live_run digest events row).mpr ⟨before, e, after, heq, hissues, hafter⟩,
      rfl, hrow, rfl, rfl⟩

theorem utf16Length_tokenText (kind : KeyKind) (draw : Draw) :
    utf16Length (tokenText kind draw) ≤ 8192 := by
  have hdraw := draw.length
  have hsb : utf16Length "sb_" = 3 := by decide
  have hbar : utf16Length "_" = 1 := by decide
  have hkind : utf16Length kind.text ≤ 11 := by cases kind <;> decide
  rw [tokenText, utf16Length_append, utf16Length_append, utf16Length_append]
  omega

theorem Valid.short {events : List Event} {environment : String} {kind : KeyKind}
    {token : String} {epoch : ℤ} (h : Valid digest events environment kind token epoch) :
    utf16Length token ≤ 8192 := by
  obtain ⟨before, e, after, id, _, ⟨name, draw, now, store, _, hreturns, _⟩, _⟩ := h
  rw [(Prod.mk.inj (issue_returns digest hreturns).2).2]
  exact utf16Length_tokenText kind draw

theorem resolve_iff_valid (hdigest : Function.Injective digest) (events : List Event)
    (environment token : String) (kind : KeyKind) :
    let s := (machine digest).run events
    resolve digest s.store s.epoch environment token = some kind ↔
      Valid digest events environment kind token (s.epoch environment) := by
  intro s
  rw [resolve_eq_some, live_iff_valid digest hdigest]
  exact and_iff_right_of_imp (Valid.short digest)

/-- A key of an epoch that was left does not resolve. -/
theorem not_resolve_of_left (events later : List Event) {before : List Event} {e : Event}
    {after : List Event} {environment : String} {kind : KeyKind} {id token : String} {epoch : ℤ}
    (heq : events = before ++ e :: after)
    (hissued : Issued digest before e environment kind id token epoch)
    (hleft : epoch < ((machine digest).run events).epoch environment) :
    let t := (machine digest).run (events ++ later)
    resolve digest t.store t.epoch environment token = none := by
  intro t
  -- the row of the key, as it is in `t`
  obtain ⟨first, hissues, -, -, hfirst, hepoch, -, -⟩ := hissued.row
  have hmem : Live ((machine digest).run (before ++ [e])) first :=
    (live_run digest _ first).mpr ⟨before, e, [], rfl, hissues, by simp⟩
  have hext : Extends ((machine digest).run (before ++ [e])) t := by
    have h := extends_run digest (before ++ [e]) (after ++ later)
    rwa [show before ++ [e] ++ (after ++ later) = events ++ later by simp [heq]] at h
  obtain ⟨row, hrow, -, hdigest, hold⟩ := hext.1 first hmem.1
  have hmono := (extends_run digest events later).2 environment
  cases hresolve : resolve digest t.store t.epoch environment token with
  | none => rfl
  | some other =>
      obtain ⟨-, found, hlive, -, hfound, hcurrent, -⟩ := (resolve_eq_some digest).mp hresolve
      have hsame : found = row :=
        eq_of_digest t.store hlive.1 hrow (hfound.trans (hdigest.trans hfirst).symm)
      have hle : ((machine digest).run events).epoch environment ≤ t.epoch environment := hmono
      rw [hsame, hold, hepoch] at hcurrent
      omega

theorem stored_iff_valid (events : List Event) (environment text : String) :
    (∃ row ∈ ((machine digest).run events).store.keys.rows,
      row.environment = environment ∧ row.token = some text) ↔
      ∃ epoch, Valid digest events environment .publishable text epoch := by
  constructor
  · rintro ⟨row, hmem, rfl, htoken⟩
    have hnone := token_live digest events row hmem (by simp [htoken])
    obtain ⟨before, e, after, heq, hissues, hafter⟩ :=
      (live_run digest events row).mp ⟨hmem, hnone⟩
    obtain ⟨draw, -, hstored, hissued⟩ := hissues.issued
    rw [htoken, storedToken] at hstored
    split_ifs at hstored with hkind
    rw [← Option.some.inj hstored, hkind] at hissued
    exact ⟨row.runtimeEpoch, before, e, after, row.id, heq, hissued, hafter⟩
  · rintro ⟨epoch, before, e, after, id, heq, hissued, hafter⟩
    obtain ⟨row, hissues, rfl, rfl, -, rfl, -, htoken⟩ := hissued.row
    have hlive := (live_run digest events row).mpr ⟨before, e, after, heq, hissues, hafter⟩
    exact ⟨row, hlive.1, rfl, htoken⟩

/-- What resolves, what never resolves again, and which token texts are kept. -/
theorem key_validity (hdigest : Function.Injective digest) (events : List Event) :
    let s := (machine digest).run events
    (∀ environment token kind, resolve digest s.store s.epoch environment token = some kind ↔
      Valid digest events environment kind token (s.epoch environment)) ∧
    (∀ before e after environment kind id token epoch, events = before ++ e :: after →
      Issued digest before e environment kind id token epoch → epoch < s.epoch environment →
      ∀ later, resolve digest ((machine digest).run (events ++ later)).store
        ((machine digest).run (events ++ later)).epoch environment token = none) ∧
    ∀ environment text,
      (∃ row ∈ s.store.keys.rows, row.environment = environment ∧ row.token = some text) ↔
        ∃ epoch, Valid digest events environment .publishable text epoch := by
  refine ⟨?_, ?_, ?_⟩
  · exact fun environment token kind => resolve_iff_valid digest hdigest events environment token kind
  · intro before e after environment kind id token epoch heq hissued hleft later
    exact not_resolve_of_left digest events later heq hissued hleft
  · exact stored_iff_valid digest events

end

/-! A publishable key of one environment, after the catalog moved it and back. -/

def zeroDraw : Draw := ⟨"AAAAAAAAAAAAAAAAAAAAAAAAAAAAAAAAAAAAAAAAAAA", by decide⟩

/-- The hash of the token of `zeroDraw`, and other texts for other tokens. -/
def zeroDigest (token : String) : String :=
  if token = "sb_publishable_AAAAAAAAAAAAAAAAAAAAAAAAAAAAAAAAAAAAAAAAAAA" then
    "43a23bed507118cda7f4fccb23c4f12c5ea41114b8260f07c4e9ba2cf707b08f"
  else "-" ++ token

theorem zeroDigest_injective : Function.Injective zeroDigest := by
  have hhead : ∀ token, "43a23bed507118cda7f4fccb23c4f12c5ea41114b8260f07c4e9ba2cf707b08f" ≠ "-" ++ token := by
    intro token h
    have hlist := congrArg String.toList h
    rw [String.toList_append] at hlist
    cases hlist
  intro a b h
  unfold zeroDigest at h
  split_ifs at h with ha hb
  · rw [ha, hb]
  · exact absurd h (hhead b)
  · exact absurd h.symm (hhead a)
  · exact String.append_right_inj _ |>.mp h

theorem key_validity_zeroDraw :
    Valid zeroDigest [.issue "e_0123456789abcdef01234567" .publishable "default" zeroDraw "1" 0]
      "e_0123456789abcdef01234567" .publishable (tokenText .publishable zeroDraw) 0 :=
  ((key_validity zeroDigest zeroDigest_injective _).1 _ _ _).mp (by decide)

end Sbarbase.Control.Proofs.Keys
