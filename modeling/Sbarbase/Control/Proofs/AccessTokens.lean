import Mathlib.Data.Int.Order.Basic
import Std.Data.String.ToInt
import Sbarbase.Control.AccessTokens
import Sbarbase.Control.Proofs.ManagementSecurity
import Sbarbase.Lib.Decimal
/-!
# Validity of access tokens

A row that is not revoked is the row some issue inserted, and no revocation
covers it since. It holds exactly if it has not expired and both epochs are
where the reading of the issue found them; since epochs and the clock only
rise, a row that stopped holding does not hold again.
-/

namespace Sbarbase.Control.Proofs.AccessTokens

open Lib Control.AccessTokens

/-! ## Epoch texts -/

theorem dot_not_mem_repr (n : ℕ) : '.' ∉ n.repr.toList := by
  rw [← Nat.toString_eq_repr, toList_toString]
  intro h
  have hdigit := List.all_eq_true.mp (all_isDigit_toDigits n) _ h
  exact absurd hdigit (by decide)

theorem dot_not_mem_intRepr (n : ℤ) : '.' ∉ n.repr.toList := by
  cases n with
  | ofNat n => exact dot_not_mem_repr n
  | negSucc n =>
      rw [show (Int.negSucc n).repr = "-" ++ (n + 1).repr from rfl, String.toList_append]
      intro h
      rcases List.mem_append.mp h with hsign | hdigits
      · exact absurd hsign (by decide)
      · exact dot_not_mem_repr (n + 1) hdigits

/-- The joined text tells both epochs. -/
theorem epochText_inj {token token' policy policy' : ℤ}
    (h : epochText token policy = epochText token' policy') :
    token = token' ∧ policy = policy' := by
  have hlist := congrArg String.toList h
  simp only [epochText, String.toList_append, show ".".toList = ['.'] from rfl,
    List.append_assoc, List.singleton_append] at hlist
  obtain ⟨hfirst, -, hsecond⟩ := (List.append_cons_inj_of_notMem (dot_not_mem_intRepr token)
    (dot_not_mem_intRepr policy)).mp hlist
  exact ⟨Int.repr_injective (String.toList_injective hfirst),
    Int.repr_injective (String.toList_injective hsecond)⟩

/-! ## The rows -/

/-- The row as its issue inserted it. -/
def issued (row : TokenRow) : TokenRow := { row with lastUsedAt := none, revokedAt := none }

/-- A row that is not revoked, as it was issued. -/
def Live (store : AccessTokenStore) (row : TokenRow) : Prop :=
  ∃ current ∈ store.tokens.rows, current.revokedAt = none ∧ issued current = row

/-- The event revokes the token `id` of `actor`. -/
def Covers (actor id : String) : Event → Prop
  | .revoke actor' id' => actor = actor' ∧ id = id'
  | .revokeAll actor' => actor = actor'
  | .security .. | .tick .. | .read .. | .issue .. | .resolve .. => False

theorem mem_use {store : AccessTokenStore} {id : String} {now : ℤ} {row : TokenRow} :
    row ∈ (store.use id now).tokens.rows ↔
      ∃ old ∈ store.tokens.rows, (if old.id = id then old.used now else old) = row := by
  refine List.mem_map.trans ?_
  simp

theorem mem_revokeWhere {store : AccessTokenStore} {p : TokenRow → Bool} {now : ℤ}
    {row : TokenRow} :
    row ∈ (store.revokeWhere p now).tokens.rows ↔
      ∃ old ∈ store.tokens.rows,
        (if p old && old.revokedAt = none then old.revoked now else old) = row :=
  List.mem_map

theorem live_use {store : AccessTokenStore} {id : String} {now : ℤ} {row : TokenRow} :
    Live (store.use id now) row ↔ Live store row := by
  have hkeep : ∀ old : TokenRow, (if old.id = id then old.used now else old).revokedAt =
      old.revokedAt ∧ issued (if old.id = id then old.used now else old) = issued old := by
    intro old
    split_ifs
    · exact ⟨rfl, rfl⟩
    · exact ⟨rfl, rfl⟩
  constructor
  · rintro ⟨current, hmem, hnone, hrow⟩
    obtain ⟨old, hold, rfl⟩ := mem_use.mp hmem
    rw [(hkeep old).1] at hnone
    rw [(hkeep old).2] at hrow
    exact ⟨old, hold, hnone, hrow⟩
  · rintro ⟨old, hold, hnone, hrow⟩
    refine ⟨_, mem_use.mpr ⟨old, hold, rfl⟩, ?_, ?_⟩
    · rw [(hkeep old).1, hnone]
    · rw [(hkeep old).2, hrow]

theorem live_revokeWhere {store : AccessTokenStore} {p : TokenRow → Bool} {now : ℤ}
    (hp : ∀ row, p (issued row) = p row) {row : TokenRow} :
    Live (store.revokeWhere p now) row ↔ Live store row ∧ p row = false := by
  constructor
  · rintro ⟨current, hmem, hnone, rfl⟩
    obtain ⟨old, hold, hcurrent⟩ := mem_revokeWhere.mp hmem
    split_ifs at hcurrent with hrevoked
    · rw [← hcurrent] at hnone
      cases hnone
    · subst hcurrent
      refine ⟨⟨old, hold, hnone, rfl⟩, ?_⟩
      rw [hp]
      simpa [hnone] using hrevoked
  · rintro ⟨⟨old, hold, hnone, rfl⟩, hrow⟩
    rw [hp] at hrow
    exact ⟨old, mem_revokeWhere.mpr ⟨old, hold, by simp [hrow]⟩, hnone, rfl⟩

theorem insert_ok {store store' : AccessTokenStore} {row : TokenRow}
    (h : store.insert row = .ok store') :
    store.tokens.insert row = some store'.tokens := by
  unfold AccessTokenStore.insert at h
  split at h
  · cases h
  · rename_i tokens hinsert
    split_ifs at h
    injection h with h
    rw [← h]
    exact hinsert

theorem eq_of_digest (store : AccessTokenStore) {a b : TokenRow} (ha : a ∈ store.tokens.rows)
    (hb : b ∈ store.tokens.rows) (h : a.digest = b.digest) : a = b :=
  List.inj_on_of_nodup_map store.digests ha hb h

section

variable (letter : Char → Bool) (digest : String → String)

/-! ## What an issue did -/

/-- What an issue that returns did. -/
theorem issue_returns {store store' : AccessTokenStore} {actor epoch : String} {input : Input}
    {draw : Draw} {id : String} {now : ℤ} {result : String × Option AccessToken}
    (h : (issue letter digest actor epoch input draw id now).Returns store result store') :
    store.tokens.insert (issuedRow digest actor epoch input draw id now) = some store'.tokens ∧
      store.liveCount actor now < maxLive ∧
      result = (draw.token, some (issuedRow digest actor epoch input draw id now).record) := by
  simp only [issue, Call.returns_bind, Call.returns_require, Call.returns_read,
    Call.returns_attempt, Call.returns_pure] at h
  obtain ⟨_, _, ⟨_, rfl⟩, _, _, ⟨_, rfl⟩, _, _, ⟨_, rfl⟩, _, _, ⟨_, rfl⟩, live, _, ⟨rfl, rfl⟩,
    _, _, ⟨hroom, rfl⟩, _, _, hinsert, data, _, ⟨rfl, rfl⟩, rfl, rfl⟩ := h
  have htable := insert_ok hinsert
  refine ⟨htable, hroom, ?_⟩
  obtain ⟨hrows, hfresh⟩ := Table.insert_eq_some htable
  -- the id is new, so the row is the one that is read back
  have hfind : store'.tokens.rows.find? (fun row => row.actor = actor && row.id = id) =
      some (issuedRow digest actor epoch input draw id now) := by
    apply find?_eq_some_of_unique
    · rw [hrows]
      exact List.mem_append_right _ (List.mem_singleton.mpr rfl)
    · simp [issuedRow]
    · intro other hother hkey
      rw [hrows, List.mem_append, List.mem_singleton] at hother
      refine hother.resolve_left fun hold => hfresh other hold ?_
      simp only [Bool.and_eq_true, decide_eq_true_eq] at hkey
      exact hkey.2
  rw [AccessTokenStore.get, hfind]
  rfl

/-- An issue that throws inserts nothing. -/
theorem atomic_issue (actor epoch : String) (input : Input) (draw : Draw) (id : String)
    (now : ℤ) : (issue letter digest actor epoch input draw id now).Atomic := by
  have hlast : ∀ row : TokenRow, (do
      Call.attempt (AccessTokenStore.insert row)
      let data ← Call.read fun store => store.get actor id
      pure (draw.token, data) : Call AccessTokenStore String _).Atomic := fun _ => inferInstance
  unfold issue
  infer_instance

/-- The call inserts the row. -/
def Issues (s : State) (e : Event) (row : TokenRow) : Prop :=
  ∃ n reading input draw id result store,
    e = .issue n input draw id ∧ s.readings[n]? = some reading ∧
      (s.issue letter digest reading input draw id).Returns s.store result store ∧
      row = issuedRow digest reading.actor reading.text input draw id s.clock

theorem not_issues {s : State} {e : Event} {row : TokenRow}
    (h : ∀ n input draw id, e ≠ .issue n input draw id) : ¬ Issues letter digest s e row := by
  rintro ⟨n, _, input, draw, id, _, _, he, _⟩
  exact h n input draw id he

/-- The tables an issue can leave. -/
theorem issue_after (s : State) (reading : Reading) (input : Input) (draw : Draw) (id : String) :
    (s.issue letter digest reading input draw id).after s.store = s.store ∨
      ∃ result store, (s.issue letter digest reading input draw id).after s.store = store ∧
        (s.issue letter digest reading input draw id).Returns s.store result store := by
  have hcases := (atomic_issue letter digest reading.actor reading.text input draw id
    s.clock).after_cases s.store
  rcases hcases with hsame | ⟨result, hreturns⟩
  · exact .inl hsame
  · exact .inr ⟨result, _, rfl, hreturns⟩

theorem live_issue (s : State) (n : ℕ) (input : Input) (draw : Draw) (id : String)
    (row : TokenRow) :
    Live (step letter digest s (.issue n input draw id)).store row ↔
      Live s.store row ∨ Issues letter digest s (.issue n input draw id) row := by
  simp only [step]
  cases hreading : s.readings[n]? with
  | none =>
      refine ⟨.inl, fun h => h.resolve_right ?_⟩
      rintro ⟨_, _, _, _, _, _, _, he, hsome, _⟩
      cases he
      rw [hreading] at hsome
      cases hsome
  | some reading =>
      rcases issue_after letter digest s reading input draw id with hsame | ⟨result, store, hstore, hreturns⟩
      · simp only [hsame]
        refine ⟨.inl, fun h => h.resolve_right ?_⟩
        rintro ⟨_, _, _, _, _, result, store, he, hsome, hreturns, _⟩
        cases he
        obtain rfl := Option.some.inj (hreading.symm.trans hsome)
        have hrows := (Table.insert_eq_some (issue_returns letter digest hreturns).1).1
        rw [← hreturns.after_eq, hsame] at hrows
        simp at hrows
      · have hrows := (Table.insert_eq_some (issue_returns letter digest hreturns).1).1
        simp only [hstore, Live, hrows, List.mem_append, List.mem_singleton, or_and_right,
          exists_or, exists_eq_left]
        refine or_congr Iff.rfl ⟨?_, ?_⟩
        · rintro ⟨-, hrow⟩
          exact ⟨n, reading, input, draw, id, result, store, rfl, hreading, hreturns, hrow.symm⟩
        · rintro ⟨_, _, _, _, _, _, _, he, hsome, _, hrow⟩
          cases he
          obtain rfl := Option.some.inj (hreading.symm.trans hsome)
          exact ⟨rfl, hrow.symm⟩

/-! ## What an event does to the rows -/

theorem resolve_after (epoch : String → String) (token : String) (now : ℤ)
    (store : AccessTokenStore) :
    (resolve digest epoch token now store).2 = store ∨
      ∃ id, (resolve digest epoch token now store).2 = store.use id now := by
  unfold resolve
  split_ifs with htoken
  · split
    · exact .inl rfl
    · rename_i row hfind
      split_ifs with hholds
      · unfold answer
        split_ifs with hstale
        · exact .inr ⟨row.id, rfl⟩
        · exact .inl rfl
      · exact .inl rfl
  · exact .inl rfl

theorem revoke_after (actor id : String) (now : ℤ) (store : AccessTokenStore) :
    (revoke actor id now).after store =
      store.revokeWhere (fun row => row.actor = actor && row.id = id) now := rfl

theorem revokeAll_after (actor : String) (now : ℤ) (store : AccessTokenStore) :
    (revokeAll actor now).after store = store.revokeWhere (fun row => row.actor = actor) now := rfl

theorem live_step (s : State) (e : Event) (row : TokenRow) :
    Live (step letter digest s e).store row ↔
      (Live s.store row ∧ ¬ Covers row.actor row.id e) ∨ Issues letter digest s e row := by
  cases e with
  | security e => simp [step, Covers, not_issues]
  | tick milliseconds => simp [step, Covers, not_issues]
  | read actor => simp [step, Covers, not_issues]
  | issue n input draw id => rw [live_issue]; simp [Covers]
  | resolve token =>
      rw [or_iff_left (not_issues letter digest (by simp))]
      simp only [step, State.resolve, Covers, not_false_eq_true, and_true]
      rcases resolve_after digest (tokenEpoch s.security) token s.clock s.store with
        hsame | ⟨id, huse⟩
      · rw [hsame]
      · rw [huse, live_use]
  | revoke actor id =>
      rw [or_iff_left (not_issues letter digest (by simp))]
      simp only [step, revoke_after]
      rw [live_revokeWhere (fun _ => rfl)]
      simp [Covers]
  | revokeAll actor =>
      rw [or_iff_left (not_issues letter digest (by simp))]
      simp only [step, revokeAll_after]
      rw [live_revokeWhere (fun _ => rfl)]
      simp [Covers]

/-- A row is live exactly if an issue made it and nothing covered it since. -/
theorem live_run (start : ℤ) (events : List Event) (row : TokenRow) :
    Live ((machine letter digest start).run events).store row ↔
      ∃ before e after, events = before ++ e :: after ∧
        Issues letter digest ((machine letter digest start).run before) e row ∧
        ∀ later ∈ after, ¬ Covers row.actor row.id later := by
  constructor
  · intro hlive
    refine (machine letter digest start).run_since (I := fun s => Live s.store row)
      (B := fun s e => Issues letter digest s e row) (E := Covers row.actor row.id) ?_ ?_ events
      hlive
    · rintro ⟨_, hmem, _⟩
      cases hmem
    · exact fun before e hI => (live_step letter digest _ e row).mp hI
  · rintro ⟨before, e, after, rfl, hissues, hafter⟩
    exact (machine letter digest start).run_kept (I := fun s => Live s.store row)
      (B := fun s e => Issues letter digest s e row) (E := Covers row.actor row.id)
      (fun s e h => (live_step letter digest s e row).mpr (.inr h))
      (fun s e hI hE => (live_step letter digest s e row).mpr (.inl ⟨hI, hE⟩)) hissues hafter

/-! ## What resolves -/

/-- The row is live, not expired, and bound to the current epochs. -/
def Holds (s : State) (row : TokenRow) : Prop :=
  Live s.store row ∧ s.clock < row.expiresAt ∧ tokenEpoch s.security row.actor = row.epoch

/-- The record without its mark of use. -/
def fresh (data : AccessToken) : AccessToken := { data with lastUsedAt := none }

theorem live_iff {now : ℤ} {row : TokenRow} :
    row.live now = true ↔ row.revokedAt = none ∧ now < row.expiresAt := by
  simp [TokenRow.live]

theorem holds_iff {epoch : String → String} {now : ℤ} {row : TokenRow} :
    row.holds epoch now = true ↔
      row.revokedAt = none ∧ now < row.expiresAt ∧ epoch row.actor = row.epoch := by
  simp [TokenRow.holds, live_iff, and_assoc]

theorem fresh_record {row : TokenRow} (hnone : row.revokedAt = none) :
    fresh row.record = (issued row).record := by
  simp [fresh, issued, TokenRow.record, hnone]

/-- What a found row answers is its record as issued, the mark of use apart. -/
theorem answer_fresh {row : TokenRow} (now : ℤ) (store : AccessTokenStore)
    (hnone : row.revokedAt = none) :
    ∃ found, (answer row now store).1 = some found ∧ fresh found = (issued row).record := by
  unfold answer
  split_ifs
  · exact ⟨_, rfl, fresh_record hnone⟩
  · exact ⟨_, rfl, fresh_record hnone⟩

theorem find?_digest (store : AccessTokenStore) (token : String) {row : TokenRow} :
    store.tokens.rows.find? (fun row => row.digest = digest token) = some row ↔
      row ∈ store.tokens.rows ∧ row.digest = digest token := by
  constructor
  · intro h
    exact ⟨List.mem_of_find?_eq_some h, by simpa using List.find?_some h⟩
  · rintro ⟨hmem, hdigest⟩
    apply find?_eq_some_of_unique hmem (decide_eq_true hdigest)
    intro old hold hp
    exact eq_of_digest store hold hmem ((of_decide_eq_true hp).trans hdigest.symm)

theorem resolve_iff (s : State) (token : String) (data : AccessToken) :
    (∃ found, (s.resolve digest token).1 = some found ∧ fresh found = data) ↔
      isAccessToken token = true ∧
        ∃ row, Holds s row ∧ row.digest = digest token ∧ row.record = data := by
  rw [State.resolve, resolve]
  split_ifs with htoken
  · constructor
    · rintro ⟨found, hfound, rfl⟩
      split at hfound
      · cases hfound
      · rename_i row hfind
        obtain ⟨hmem, hrow⟩ := (find?_digest digest s.store token).mp hfind
        split_ifs at hfound with hholds
        obtain ⟨hnone, hlive, hepoch⟩ := holds_iff.mp hholds
        obtain ⟨found', hanswer, hfresh⟩ := answer_fresh s.clock s.store hnone
        obtain rfl := Option.some.inj (hanswer.symm.trans hfound)
        exact ⟨htoken, issued row, ⟨⟨row, hmem, hnone, rfl⟩, hlive, hepoch⟩, hrow, hfresh.symm⟩
    · rintro ⟨-, row, ⟨⟨current, hmem, hnone, rfl⟩, hlive, hepoch⟩, hrow, rfl⟩
      rw [(find?_digest digest s.store token).mpr ⟨hmem, hrow⟩]
      simp only
      rw [if_pos (holds_iff.mpr ⟨hnone, hlive, hepoch⟩)]
      exact answer_fresh s.clock s.store hnone
  · simp [htoken]

theorem alive_iff (s : State) (id : String) :
    s.alive id = true ↔ ∃ row, Holds s row ∧ row.id = id := by
  rw [State.alive, alive, Option.any_eq_true]
  constructor
  · rintro ⟨row, hget, hholds⟩
    obtain ⟨hmem, hid⟩ := Table.get_eq_some.mp hget
    obtain ⟨hnone, hlive, hepoch⟩ := holds_iff.mp hholds
    exact ⟨issued row, ⟨⟨row, hmem, hnone, rfl⟩, hlive, hepoch⟩, hid⟩
  · rintro ⟨row, ⟨⟨current, hmem, hnone, rfl⟩, hlive, hepoch⟩, hid⟩
    exact ⟨current, Table.get_eq_some.mpr ⟨hmem, hid⟩, holds_iff.mpr ⟨hnone, hlive, hepoch⟩⟩

theorem isAccessToken_token (draw : Draw) : isAccessToken draw.token = true := by
  have hhex := draw.hex
  simp only [matchesExactly, matchesAfter, String.toList_empty, String.length_empty,
    List.drop_zero] at hhex
  rw [isAccessToken, matchesAfter, Draw.token, String.toList_append,
    show "sbp_".length = "sbp_".toList.length from rfl, List.drop_left]
  rw [List.isPrefixOf_iff_prefix.mpr (List.prefix_append _ _)]
  exact hhex

/-! ## What a run leaves of a state -/

/-- A row keeps what it was issued with, and a revoked one stays revoked. -/
def Kept (row later : TokenRow) : Prop :=
  issued later = issued row ∧ (later.revokedAt = none → row.revokedAt = none)

theorem Kept.refl (row : TokenRow) : Kept row row := ⟨rfl, fun h => h⟩

theorem Kept.trans {a b c : TokenRow} (h : Kept a b) (h' : Kept b c) : Kept a c :=
  ⟨h'.1.trans h.1, fun hnone => h.2 (h'.2 hnone)⟩

structure Extends (s t : State) : Prop where
  rows : Table.Evolves Kept (fun _ => True) s.store.tokens t.store.tokens
  clock : s.clock ≤ t.clock
  owner : ∀ actor, s.security.tokenEpoch actor ≤ t.security.tokenEpoch actor
  policy : s.security.policy.epoch ≤ t.security.policy.epoch

theorem Extends.of_rows {s t : State}
    (hrows : Table.Evolves Kept (fun _ => True) s.store.tokens t.store.tokens)
    (hclock : t.clock = s.clock) (hsecurity : t.security = s.security) : Extends s t where
  rows := hrows
  clock := le_of_eq hclock.symm
  owner := fun actor => le_of_eq (by rw [hsecurity])
  policy := le_of_eq (by rw [hsecurity])

theorem Extends.refl (s : State) : Extends s s :=
  .of_rows (Table.Evolves.refl Kept.refl _) rfl rfl

theorem Extends.trans {s t u : State} (h : Extends s t) (h' : Extends t u) : Extends s u where
  rows := h.rows.trans (fun _ _ _ => Kept.trans) (fun _ _ _ _ => trivial) h'.rows
  clock := le_trans h.clock h'.clock
  owner := fun actor => le_trans (h.owner actor) (h'.owner actor)
  policy := le_trans h.policy h'.policy

theorem evolves_revokeWhere (store : AccessTokenStore) (p : TokenRow → Bool) (now : ℤ) :
    Table.Evolves Kept (fun _ => True) store.tokens (store.revokeWhere p now).tokens := by
  refine Table.evolves_modify (f := TokenRow.revoked now) Kept.refl (fun _ => rfl) ?_
  intro row _ _
  exact ⟨rfl, nofun⟩

theorem extends_step (s : State) (e : Event) : Extends s (step letter digest s e) := by
  cases e with
  | security e =>
      refine ⟨Table.Evolves.refl Kept.refl _, le_refl _, fun actor => ?_, ?_⟩
      · simp only [step]
        rw [ManagementSecurity.tokenEpoch_step]
        split_ifs <;> omega
      · exact ManagementSecurity.policy_le_step s.security e
  | tick milliseconds =>
      refine ⟨Table.Evolves.refl Kept.refl _, ?_, fun actor => le_refl _, le_refl _⟩
      simp only [step]
      omega
  | read actor => exact .of_rows (Table.Evolves.refl Kept.refl _) rfl rfl
  | issue n input draw id =>
      simp only [step]
      split
      · exact .refl s
      · rename_i reading hreading
        rcases issue_after letter digest s reading input draw id with hsame | ⟨result, store, hstore, hreturns⟩
        · rw [hsame]
          exact .refl s
        · rw [hstore]
          exact .of_rows (Table.evolves_insert Kept.refl (issue_returns letter digest hreturns).1
            trivial) rfl rfl
  | resolve token =>
      refine .of_rows ?_ rfl rfl
      simp only [step, State.resolve]
      rcases resolve_after digest (tokenEpoch s.security) token s.clock s.store with
        hsame | ⟨id, huse⟩
      · rw [hsame]
        exact Table.Evolves.refl Kept.refl _
      · rw [huse]
        exact Table.evolves_modify (f := TokenRow.used s.clock) Kept.refl (fun _ => rfl)
          fun row _ _ => ⟨rfl, fun h => h⟩
  | revoke actor id => exact .of_rows (evolves_revokeWhere s.store _ s.clock) rfl rfl
  | revokeAll actor => exact .of_rows (evolves_revokeWhere s.store _ s.clock) rfl rfl

theorem extends_run (start : ℤ) (before after : List Event) :
    Extends ((machine letter digest start).run before)
      ((machine letter digest start).run (before ++ after)) := by
  rw [Machine.run_append]
  exact (machine letter digest start).runFrom_rel (R := Extends) Extends.refl
    (fun _ _ _ => Extends.trans) (extends_step letter digest) _ after

/-! ## Readings -/

/-- Every reading was made in an earlier state, of the epochs there. -/
theorem reading_made (start : ℤ) (events : List Event) {n : ℕ} {reading : Reading}
    (h : ((machine letter digest start).run events).readings[n]? = some reading) :
    ∃ before after, events = before ++ .read reading.actor :: after ∧
      ((machine letter digest start).run before).readings.length = n ∧
      reading.text =
        tokenEpoch ((machine letter digest start).run before).security reading.actor := by
  induction events using List.reverseRecOn with
  | nil => cases h
  | append_singleton events last ih =>
      rw [Machine.run_snoc] at h
      have hkept : ((machine letter digest start).run events).readings[n]? = some reading →
          ∃ before after, events ++ [last] = before ++ .read reading.actor :: after ∧
            ((machine letter digest start).run before).readings.length = n ∧
            reading.text =
              tokenEpoch ((machine letter digest start).run before).security reading.actor := by
        intro hold
        obtain ⟨before, after, rfl, hlength, htext⟩ := ih hold
        exact ⟨before, after ++ [last], by simp, hlength, htext⟩
      cases last with
      | read actor =>
          simp only [machine, step, List.getElem?_append] at h
          split_ifs at h with hlt
          · exact hkept h
          · obtain ⟨hindex, hreading⟩ := List.getElem?_eq_some_iff.mp h
            have hzero : n = ((machine letter digest start).run events).readings.length := by
              simp only [machine, List.length_singleton] at hindex hlt ⊢
              omega
            simp only [List.getElem_singleton] at hreading
            subst hreading
            exact ⟨events, [], rfl, hzero.symm, rfl⟩
      | issue m input draw id =>
          apply hkept
          simp only [machine, step] at h ⊢
          split at h
          · exact h
          · exact h
      | security e => exact hkept h
      | tick milliseconds => exact hkept h
      | resolve token => exact hkept h
      | revoke actor id => exact hkept h
      | revokeAll actor => exact hkept h

/-- The reading of an event stays at its place. -/
theorem reading_at (start : ℤ) (before : List Event) (actor : String) (after : List Event) :
    ((machine letter digest start).run (before ++ .read actor :: after)).readings[
        ((machine letter digest start).run before).readings.length]? =
      some ⟨actor, tokenEpoch ((machine letter digest start).run before).security actor⟩ := by
  have hkept : ∀ s e, s.readings <+: (step letter digest s e).readings := by
    intro s e
    cases e with
    | read actor => exact List.prefix_append _ _
    | issue n input draw id =>
        simp only [step]
        split <;> exact List.prefix_refl _
    | _ => exact List.prefix_refl _
  rw [Machine.run_append, Machine.runFrom_cons]
  have hprefix := (machine letter digest start).runFrom_rel
    (R := fun s t => s.readings <+: t.readings) (fun _ => List.prefix_refl _)
    (fun _ _ _ => List.IsPrefix.trans) hkept
    ((machine letter digest start).step ((machine letter digest start).run before) (.read actor))
    after
  obtain ⟨rest, hrest⟩ := hprefix
  rw [← hrest, List.getElem?_append_left (by simp [machine, step])]
  simp [machine, step]

/-! ## The law -/

/-- The event issues `token` with the record `data`, by a reading made when the
token epoch of its actor and the policy's epoch were `owner` and `policy`. -/
def Issued (start : ℤ) (before : List Event) (e : Event) (token : String) (data : AccessToken)
    (owner policy : ℤ) : Prop :=
  ∃ actor input draw id first rest store,
    before = first ++ .read actor :: rest ∧
      e = .issue ((machine letter digest start).run first).readings.length input draw id ∧
      owner = ((machine letter digest start).run first).security.tokenEpoch actor ∧
      policy = ((machine letter digest start).run first).security.policy.epoch ∧
      (((machine letter digest start).run before).issue letter digest
          ⟨actor, epochText owner policy⟩ input draw id).Returns
        ((machine letter digest start).run before).store (token, some data) store

/-- After these events `token` is issued, not revoked and not expired, and both
epochs are where the reading of its issue found them. -/
def Valid (start : ℤ) (events : List Event) (token : String) (data : AccessToken) : Prop :=
  ∃ before e after owner policy, events = before ++ e :: after ∧
    Issued letter digest start before e token data owner policy ∧
    (∀ later ∈ after, ¬ Covers data.actor data.id later) ∧
    ((machine letter digest start).run events).clock < data.expiresAt ∧
    ((machine letter digest start).run events).security.tokenEpoch data.actor = owner ∧
    ((machine letter digest start).run events).security.policy.epoch = policy

variable {letter digest}

/-- The row of an issue. -/
theorem Issued.row {start : ℤ} {before : List Event} {e : Event} {token : String}
    {data : AccessToken} {owner policy : ℤ}
    (h : Issued letter digest start before e token data owner policy) :
    isAccessToken token = true ∧
      ∃ row, Issues letter digest ((machine letter digest start).run before) e row ∧
        row.digest = digest token ∧ row.record = data ∧ row.epoch = epochText owner policy := by
  obtain ⟨actor, input, draw, id, first, rest, store, rfl, rfl, rfl, rfl, hreturns⟩ := h
  obtain ⟨hinsert, hroom, hresult⟩ := issue_returns letter digest hreturns
  obtain ⟨htoken, hdata⟩ := Prod.mk.inj hresult
  rw [htoken]
  refine ⟨isAccessToken_token draw, _, ⟨_, _, input, draw, id, _, store, rfl,
    reading_at letter digest start first actor rest, hreturns, rfl⟩, rfl, ?_, rfl⟩
  exact (Option.some.inj hdata).symm

theorem Issues.issued {start : ℤ} {before : List Event} {e : Event} {row : TokenRow}
    (h : Issues letter digest ((machine letter digest start).run before) e row) :
    issued row = row ∧ ∃ token owner policy,
      Issued letter digest start before e token row.record owner policy ∧
        row.digest = digest token ∧ row.epoch = epochText owner policy := by
  obtain ⟨n, reading, input, draw, id, result, store, rfl, hreading, hreturns, rfl⟩ := h
  obtain ⟨first, rest, hbefore, hlength, htext⟩ := reading_made letter digest start before hreading
  obtain ⟨hinsert, hroom, rfl⟩ := issue_returns letter digest hreturns
  refine ⟨rfl, draw.token, _, _, ?_, rfl, htext⟩
  refine ⟨reading.actor, input, draw, id, first, rest, store, hbefore, ?_, rfl, rfl, ?_⟩
  · rw [hlength]
  · rw [show epochText _ _ = reading.text from htext.symm]
    exact hreturns

/-- A row holds exactly if it is the row of a valid token. -/
theorem holds_iff_valid (hdigest : Function.Injective digest) (start : ℤ) (events : List Event)
    (token : String) (data : AccessToken) :
    (isAccessToken token = true ∧ ∃ row,
      Holds ((machine letter digest start).run events) row ∧ row.digest = digest token ∧
        row.record = data) ↔ Valid letter digest start events token data := by
  constructor
  · rintro ⟨-, row, ⟨hlive, hclock, hepoch⟩, hrow, rfl⟩
    obtain ⟨before, e, after, heq, hissues, hafter⟩ :=
      (live_run letter digest start events row).mp hlive
    obtain ⟨-, token', owner, policy, hissued, htoken, htext⟩ := hissues.issued
    obtain rfl : token = token' := hdigest (hrow.symm.trans htoken)
    obtain ⟨howner, hpolicy⟩ := epochText_inj (hepoch.trans htext)
    exact ⟨before, e, after, owner, policy, heq, hissued, hafter, hclock, howner, hpolicy⟩
  · rintro ⟨before, e, after, owner, policy, heq, hissued, hafter, hclock, howner, hpolicy⟩
    obtain ⟨htoken, row, hissues, hrow, rfl, htext⟩ := hissued.row
    refine ⟨htoken, row, ⟨?_, hclock, ?_⟩, hrow, rfl⟩
    · exact (live_run letter digest start events row).mpr ⟨before, e, after, heq, hissues, hafter⟩
    · rw [tokenEpoch, htext, ← howner, ← hpolicy]
      rfl

theorem resolve_iff_valid (hdigest : Function.Injective digest) (start : ℤ)
    (events : List Event) (token : String) (data : AccessToken) :
    (∃ found, (((machine letter digest start).run events).resolve digest token).1 = some found ∧
        fresh found = data) ↔
      Valid letter digest start events token data :=
  (resolve_iff digest _ token data).trans (holds_iff_valid hdigest start events token data)

/-- The row of an issue is in the table from then on. -/
theorem Issued.stored {start : ℤ} {before : List Event} {e : Event} {token : String}
    {data : AccessToken} {owner policy : ℤ}
    (h : Issued letter digest start before e token data owner policy) (after : List Event) :
    ∃ row ∈ ((machine letter digest start).run (before ++ e :: after)).store.tokens.rows,
      row.digest = digest token ∧ (issued row).record = data ∧
        row.epoch = epochText owner policy := by
  obtain ⟨-, row, hissues, hrow, rfl, htext⟩ := h.row
  obtain ⟨first, hfirst, -, rfl⟩ :=
    (live_run letter digest start (before ++ [e]) row).mpr ⟨before, e, [], rfl, hissues, by simp⟩
  have hextends := extends_run letter digest start (before ++ [e]) after
  rw [List.append_assoc, List.singleton_append] at hextends
  obtain ⟨row, hmem, -, hsame, -⟩ := hextends.rows.persists hfirst
  have hkept : (issued row).digest = (issued first).digest ∧
      (issued row).epoch = (issued first).epoch := by
    rw [hsame]
    exact ⟨rfl, rfl⟩
  exact ⟨row, hmem, hkept.1.trans hrow, congrArg TokenRow.record hsame, hkept.2.trans htext⟩

/-- The one row that can make an issued token resolve. -/
theorem Issued.holds {start : ℤ} {before : List Event} {e : Event} {token : String}
    {data : AccessToken} {owner policy : ℤ}
    (h : Issued letter digest start before e token data owner policy) (after : List Event) :
    ∃ current ∈ ((machine letter digest start).run (before ++ e :: after)).store.tokens.rows,
      (issued current).record = data ∧ current.epoch = epochText owner policy ∧
        ∀ row, Holds ((machine letter digest start).run (before ++ e :: after)) row →
          row.digest = digest token ∨ row.id = data.id → row = issued current := by
  obtain ⟨current, hmem, hdigest, hdata, htext⟩ := h.stored after
  refine ⟨current, hmem, hdata, htext, ?_⟩
  rintro row ⟨⟨other, hother, -, rfl⟩, -, -⟩ hkey
  rcases hkey with hrow | hid
  · rw [eq_of_digest _ hother hmem (hrow.trans hdigest.symm)]
  · rw [← hdata] at hid
    rw [Table.eq_of_key _ hother hmem hid]

theorem alive_iff_resolve {start : ℤ} {before after : List Event} {e : Event}
    {token : String} {data : AccessToken} {owner policy : ℤ}
    (h : Issued letter digest start before e token data owner policy) :
    let s := (machine letter digest start).run (before ++ e :: after)
    s.alive data.id = (s.resolve digest token).1.isSome := by
  intro s
  obtain ⟨current, hmem, hdata, -, hunique⟩ := h.holds after
  obtain ⟨current', hmem', hdigest, hdata', -⟩ := h.stored after
  obtain rfl : current = current' :=
    Table.eq_of_key _ hmem hmem' (congrArg AccessToken.id (hdata.trans hdata'.symm))
  rw [Bool.eq_iff_iff, alive_iff, Option.isSome_iff_exists]
  constructor
  · rintro ⟨row, hholds, hid⟩
    obtain rfl := hunique row hholds (.inr hid)
    obtain ⟨found, hfound, -⟩ := (resolve_iff digest s token _).mpr
      ⟨h.row.1, _, hholds, hdigest, rfl⟩
    exact ⟨found, hfound⟩
  · rintro ⟨found, hfound⟩
    obtain ⟨-, row, hholds, hrow, -⟩ := (resolve_iff digest s token _).mp ⟨found, hfound, rfl⟩
    obtain rfl := hunique row hholds (.inl hrow)
    exact ⟨_, hholds, by rw [← hdata]; rfl⟩

/-- A token that does not resolve after its issue never resolves again. -/
theorem resolve_never {start : ℤ} {before after : List Event} {e : Event}
    {token : String} {data : AccessToken} {owner policy : ℤ}
    (h : Issued letter digest start before e token data owner policy)
    (hnone : (((machine letter digest start).run (before ++ e :: after)).resolve
      digest token).1 = none) (later : List Event) :
    (((machine letter digest start).run (before ++ e :: after ++ later)).resolve
      digest token).1 = none := by
  generalize hs : (machine letter digest start).run (before ++ e :: after) = s at hnone
  have hextends := extends_run letter digest start (before ++ e :: after) later
  obtain ⟨current, hmem, hdigest, hdata, htext⟩ := h.stored after
  rw [hs] at hextends hmem
  rw [Option.eq_none_iff_forall_ne_some]
  intro found hfound
  obtain ⟨htoken, row, ⟨⟨other, hother, hlive, rfl⟩, hclock, hepoch⟩, hrow, -⟩ :=
    (resolve_iff digest _ token _).mp ⟨found, hfound, rfl⟩
  -- the row that resolves later is the one that is there now
  obtain ⟨next, hnext, -, hsame, hback⟩ := hextends.rows.persists hmem
  have hfields := congrArg TokenRow.digest hsame
  obtain rfl : other = next :=
    eq_of_digest _ hother hnext (hrow.trans (hdigest.symm.trans hfields.symm))
  rw [hsame] at hclock hepoch
  have hfirst : owner ≤ s.security.tokenEpoch current.actor ∧
      policy ≤ s.security.policy.epoch := by
    obtain ⟨actor, input, draw, id, first, rest, store, rfl, rfl, rfl, rfl, hreturns⟩ := h
    obtain ⟨-, -, hresult⟩ := issue_returns letter digest hreturns
    have hactor : current.actor = actor := by
      have hrecord := hdata.trans (Option.some.inj (Prod.mk.inj hresult).2)
      exact congrArg AccessToken.actor hrecord
    have hstart := extends_run letter digest start first (.read actor :: rest ++
      .issue ((machine letter digest start).run first).readings.length input draw id :: after)
    rw [← List.append_assoc, hs] at hstart
    rw [hactor]
    exact ⟨hstart.owner actor, hstart.policy⟩
  have hnow : tokenEpoch s.security current.actor = current.epoch := by
    obtain ⟨howner, hpolicy⟩ := epochText_inj (hepoch.trans htext)
    have hle := hextends.owner current.actor
    have hle' := hextends.policy
    rw [htext, tokenEpoch]
    congr 1
    · exact le_antisymm (hle.trans (le_of_eq howner)) hfirst.1
    · exact le_antisymm (hle'.trans (le_of_eq hpolicy)) hfirst.2
  obtain ⟨found', hfound', -⟩ := (resolve_iff digest s token _).mpr ⟨htoken, issued current,
    ⟨⟨current, hmem, hback hlive, rfl⟩, lt_of_le_of_lt hextends.clock hclock, hnow⟩, hdigest, rfl⟩
  rw [hnone] at hfound'
  cases hfound'

/-! ## The number of live tokens -/

theorem liveCount_map {store store' : AccessTokenStore} {f : TokenRow → TokenRow} {actor : String}
    {now : ℤ} (hrows : store'.tokens.rows = store.tokens.rows.map f)
    (hf : ∀ row, (f row).actor = row.actor ∧ ((f row).live now = true → row.live now = true)) :
    store'.liveCount actor now ≤ store.liveCount actor now := by
  rw [AccessTokenStore.liveCount, hrows, List.countP_map]
  apply List.countP_mono_left
  intro row _ hrow
  simp only [Function.comp_apply, Bool.and_eq_true] at hrow ⊢
  rw [(hf row).1] at hrow
  exact ⟨hrow.1, (hf row).2 hrow.2⟩

theorem liveCount_use (store : AccessTokenStore) (id actor : String) (seen now : ℤ) :
    (store.use id seen).liveCount actor now ≤ store.liveCount actor now := by
  apply liveCount_map (f := fun row => if row.id = id then row.used seen else row)
  · exact List.map_congr_left fun row _ => by simp
  · intro row
    split_ifs
    · exact ⟨rfl, fun h => h⟩
    · exact ⟨rfl, fun h => h⟩

theorem liveCount_revokeWhere (store : AccessTokenStore) (p : TokenRow → Bool) (actor : String)
    (seen now : ℤ) : (store.revokeWhere p seen).liveCount actor now ≤ store.liveCount actor now := by
  apply liveCount_map
    (f := fun row => if p row && row.revokedAt = none then row.revoked seen else row) rfl
  intro row
  split_ifs
  · exact ⟨rfl, nofun⟩
  · exact ⟨rfl, fun h => h⟩

theorem liveCount_insert {store store' : AccessTokenStore} {row : TokenRow} (actor : String)
    (now : ℤ) (h : store.tokens.insert row = some store'.tokens) :
    store'.liveCount actor now ≤
      store.liveCount actor now + if row.actor = actor then 1 else 0 := by
  rw [AccessTokenStore.liveCount, (Table.insert_eq_some h).1, List.countP_append,
    List.countP_singleton]
  apply Nat.add_le_add_left
  by_cases hactor : row.actor = actor
  · rw [if_pos hactor]
    split_ifs <;> omega
  · simp [hactor]

variable (letter digest)

theorem liveCount_step (s : State) (e : Event)
    (h : ∀ actor, s.store.liveCount actor s.clock ≤ maxLive) (actor : String) :
    (step letter digest s e).store.liveCount actor (step letter digest s e).clock ≤ maxLive := by
  cases e with
  | security e => exact h actor
  | tick milliseconds =>
      refine le_trans (List.countP_mono_left ?_) (h actor)
      intro row _ hrow
      simp only [step, Bool.and_eq_true, live_iff] at hrow ⊢
      exact ⟨hrow.1, hrow.2.1, by omega⟩
  | read other => exact h actor
  | issue n input draw id =>
      simp only [step]
      split
      · exact h actor
      · rename_i reading hreading
        rcases issue_after letter digest s reading input draw id with
          hsame | ⟨result, store, hstore, hreturns⟩
        · simp only [hsame]
          exact h actor
        · simp only [hstore]
          obtain ⟨hinsert, hroom, -⟩ := issue_returns letter digest hreturns
          have hcount := liveCount_insert actor s.clock hinsert
          have hold := h actor
          split_ifs at hcount with hactor
          · -- the issue counted the tokens of this actor
            have hself : s.store.liveCount actor s.clock < maxLive := by
              rw [← show reading.actor = actor from hactor]
              exact hroom
            omega
          · omega
  | resolve token =>
      simp only [step, State.resolve]
      rcases resolve_after digest (tokenEpoch s.security) token s.clock s.store with
        hsame | ⟨id, huse⟩
      · rw [hsame]
        exact h actor
      · rw [huse]
        exact le_trans (liveCount_use s.store id actor s.clock s.clock) (h actor)
  | revoke other id =>
      exact le_trans (liveCount_revokeWhere s.store _ actor s.clock s.clock) (h actor)
  | revokeAll other =>
      exact le_trans (liveCount_revokeWhere s.store _ actor s.clock s.clock) (h actor)

theorem liveCount_run (start : ℤ) (events : List Event) (actor : String) :
    let s := (machine letter digest start).run events
    s.store.liveCount actor s.clock ≤ maxLive :=
  (machine letter digest start).run_invariant
    (I := fun s => ∀ actor, s.store.liveCount actor s.clock ≤ maxLive)
    (fun _ => Nat.zero_le _) (liveCount_step letter digest) events actor

/-- What resolves, that `alive` agrees, what never resolves again, and how many
tokens of one actor are live. -/
theorem token_validity (hdigest : Function.Injective digest) (start : ℤ) (events : List Event) :
    (∀ token data,
      (∃ found, (((machine letter digest start).run events).resolve digest token).1 = some found ∧
        fresh found = data) ↔ Valid letter digest start events token data) ∧
    (∀ before e after token data owner policy, events = before ++ e :: after →
      Issued letter digest start before e token data owner policy →
      ((machine letter digest start).run events).alive data.id =
          (((machine letter digest start).run events).resolve digest token).1.isSome ∧
        ((((machine letter digest start).run events).resolve digest token).1 = none →
          ∀ later, (((machine letter digest start).run (events ++ later)).resolve digest
            token).1 = none)) ∧
    ∀ actor, ((machine letter digest start).run events).store.liveCount actor
      ((machine letter digest start).run events).clock ≤ maxLive := by
  refine ⟨resolve_iff_valid hdigest start events, ?_, liveCount_run letter digest start events⟩
  rintro before e after token data owner policy rfl hissued
  exact ⟨alive_iff_resolve hissued, resolve_never hissued⟩

end

/-! A token made under a policy, before and after the policy changed. -/

def zeroDraw : Draw := ⟨"0000000000000000000000000000000000000000", by decide⟩

/-- The hash of the token of `zeroDraw`, and other texts for other tokens. -/
def zeroDigest (token : String) : String :=
  if token = "sbp_0000000000000000000000000000000000000000" then
    "35da1c8de90f18d429acd9d106a1070796c0d1b7ac7fabc0c05c8bfeb44b5b0d"
  else "-" ++ token

theorem zeroDigest_injective : Function.Injective zeroDigest := by
  have hhead : ∀ token,
      "35da1c8de90f18d429acd9d106a1070796c0d1b7ac7fabc0c05c8bfeb44b5b0d" ≠ "-" ++ token := by
    intro token h
    have hlist := congrArg String.toList h
    rw [String.toList_append] at hlist
    cases hlist
  intro a b h
  unfold zeroDigest at h
  split_ifs at h with ha hb
  · rw [ha, hb]
  · exact absurd h (hhead b)
  · exact absurd h.symm (hhead a)
  · exact String.append_right_inj _ |>.mp h

def zeroInput : Input := ⟨"agent", .all, true, 90⟩

/-- The record of a token issued at time 0. -/
def zeroRecord : AccessToken :=
  ⟨"1", "agent", "ada", .all, true, 0, 7776000000, none, none⟩

theorem token_validity_zeroDraw :
    Valid isAlphanumeric zeroDigest 0 [.read "ada", .tick 5, .issue 0 zeroInput zeroDraw "1"]
        zeroDraw.token { zeroRecord with createdAt := 5, expiresAt := 7776000005 } ∧
      ¬ Valid isAlphanumeric zeroDigest 0
        [.read "ada", .security (.setPolicy false), .issue 0 zeroInput zeroDraw "1"]
        zeroDraw.token zeroRecord := by
  have hlaw := fun events => (token_validity isAlphanumeric zeroDigest zeroDigest_injective 0
    events).1 zeroDraw.token
  constructor
  · refine (hlaw _ _).mp ⟨⟨"1", "agent", "ada", .all, true, 5, 7776000005, some 5, none⟩, ?_, rfl⟩
    decide
  · rw [← hlaw]
    rintro ⟨found, hfound, -⟩
    have hnone : (((machine isAlphanumeric zeroDigest 0).run
        [.read "ada", .security (.setPolicy false), .issue 0 zeroInput zeroDraw "1"]).resolve
          zeroDigest zeroDraw.token).1 = none := by decide
    rw [hnone] at hfound
    cases hfound

end Sbarbase.Control.Proofs.AccessTokens
