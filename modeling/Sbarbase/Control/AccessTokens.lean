import Mathlib.Data.Rat.Defs
import Sbarbase.Control.ManagementSecurity
import Sbarbase.Lib.Call
import Sbarbase.Lib.Text
/-!
# Access tokens

`AccessTokenStore` of `src/control/access-tokens.ts`, and the epochs its tokens
are bound to. A token is stored as its digest; the hash function and the classes
of letters and digits of a name are parameters. Times are milliseconds.

An issue uses an epoch text that was read before, in any earlier state, so the
state keeps the readings that were made.
-/

namespace Sbarbase.Control.AccessTokens

open Lib

inductive TokenScope
  | all
  | organization (id : String)
  | project (id : String)
  deriving DecidableEq

/-- A row of `access_tokens`. -/
structure TokenRow where
  id : String
  name : String
  actor : String
  digest : String
  scope : TokenScope
  readOnly : Bool
  epoch : String
  createdAt : ℤ
  expiresAt : ℤ
  lastUsedAt : Option ℤ
  revokedAt : Option ℤ
  deriving DecidableEq

structure AccessToken where
  id : String
  name : String
  actor : String
  scope : TokenScope
  readOnly : Bool
  createdAt : ℤ
  expiresAt : ℤ
  lastUsedAt : Option ℤ
  revokedAt : Option ℤ
  deriving DecidableEq

def TokenRow.record (row : TokenRow) : AccessToken where
  id := row.id
  name := row.name
  actor := row.actor
  scope := row.scope
  readOnly := row.readOnly
  createdAt := row.createdAt
  expiresAt := row.expiresAt
  lastUsedAt := row.lastUsedAt
  revokedAt := row.revokedAt

/-- The table, with its primary key and the constraint on digests. -/
structure AccessTokenStore where
  tokens : Table TokenRow.id
  digests : (tokens.rows.map TokenRow.digest).Nodup

def AccessTokenStore.empty : AccessTokenStore := ⟨.empty, List.nodup_nil⟩

/-- What `tokenEpoch` makes of the owner's token epoch and the policy's epoch. -/
def epochText (token policy : ℤ) : String := token.repr ++ "." ++ policy.repr

def tokenEpoch (security : ManagementSecurity) (actor : String) : String :=
  epochText (security.tokenEpoch actor) security.policy.epoch

/-! ## The store -/

/-- `ACCESS_TOKEN`. -/
def isAccessToken (token : String) : Bool := matchesAfter "sbp_" isHex 40 token

/-- `TOKEN_NAME`, which counts characters and not code units. -/
def isTokenName (letter : Char → Bool) (name : String) : Bool :=
  let allowed := fun c => letter c || c ∈ " ._()'@:/+-".toList
  matchesRange allowed allowed 0 63 name

def maxTokenDays : ℚ := 365

def maxLive : ℕ := 50

/-- `randomBytes(20).toString('hex')`. -/
structure Draw where
  text : String
  hex : matchesExactly isHex 40 text = true

def Draw.token (draw : Draw) : String := "sbp_" ++ draw.text

structure Input where
  name : String
  scope : TokenScope
  readOnly : Bool
  days : ℚ

/-- `input.scope.kind==='all'||UUID.test(input.scope.id)` -/
def TokenScope.allowed : TokenScope → Bool
  | .all => true
  | .organization id | .project id => isUuid id

def TokenRow.live (now : ℤ) (row : TokenRow) : Bool :=
  row.revokedAt = none && now < row.expiresAt

/-- `SELECT count(*) … WHERE actor=? AND revoked_at IS NULL AND expires_at>?` -/
def AccessTokenStore.liveCount (store : AccessTokenStore) (actor : String) (now : ℤ) : ℕ :=
  store.tokens.rows.countP fun row => row.actor = actor && row.live now

/-- The row `issue` inserts. -/
def issuedRow (digest : String → String) (actor epoch : String) (input : Input) (draw : Draw)
    (id : String) (now : ℤ) : TokenRow where
  id := id
  name := input.name
  actor := actor
  digest := digest draw.token
  scope := input.scope
  readOnly := input.readOnly
  epoch := epoch
  createdAt := now
  expiresAt := now + input.days.num * 86400000
  lastUsedAt := none
  revokedAt := none

/-- `INSERT INTO access_tokens`. -/
def AccessTokenStore.insert (row : TokenRow) (store : AccessTokenStore) :
    Except String AccessTokenStore :=
  match h : store.tokens.insert row with
  | none => .error "UNIQUE constraint failed: access_tokens.id"
  | some tokens =>
    if hd : row.digest ∈ store.tokens.rows.map TokenRow.digest then
      .error "UNIQUE constraint failed: access_tokens.digest"
    else .ok ⟨tokens, by
      rw [(Table.insert_eq_some h).1, List.map_append, List.map_cons, List.map_nil,
        ← List.concat_eq_append]
      exact store.digests.concat hd⟩

def AccessTokenStore.get (store : AccessTokenStore) (actor id : String) : Option AccessToken :=
  (store.tokens.rows.find? fun row => row.actor = actor && row.id = id).map TokenRow.record

/-- `issue`, with the token and the record it returns. -/
def issue (letter : Char → Bool) (digest : String → String) (actor epoch : String) (input : Input)
    (draw : Draw) (id : String) (now : ℤ) :
    Call AccessTokenStore String (String × Option AccessToken) := do
  .require (actor ≠ "" ∧ utf16Length actor ≤ 200) "Invalid actor"
  .require (isTokenName letter input.name)
    "A token name has 1 to 64 letters, digits, spaces and . _ ( ) ' @ : / + -"
  .require (input.days.isInt ∧ 1 ≤ input.days ∧ input.days ≤ maxTokenDays)
    "A token lasts 1 to 365 days"
  .require input.scope.allowed "Invalid scope"
  let live ← .read fun store => store.liveCount actor now
  .require (live < maxLive) "You have 50 active tokens; revoke one first"
  .attempt (AccessTokenStore.insert (issuedRow digest actor epoch input draw id now))
  let data ← .read fun store => store.get actor id
  return (draw.token, data)

/-- Change the rows that satisfy `p`, their keys and digests apart. -/
def AccessTokenStore.update (p : TokenRow → Bool) (f : TokenRow → TokenRow)
    (hid : ∀ row, (f row).id = row.id) (hdigest : ∀ row, (f row).digest = row.digest)
    (store : AccessTokenStore) : AccessTokenStore where
  tokens := store.tokens.modify p f hid
  digests := by
    have hsame : (TokenRow.digest ∘ fun row : TokenRow => if p row then f row else row) =
        TokenRow.digest := by
      funext row
      simp only [Function.comp_apply]
      split_ifs
      · exact hdigest row
      · rfl
    show (List.map TokenRow.digest (store.tokens.rows.map _)).Nodup
    rw [List.map_map, hsame]
    exact store.digests

/-- `row.last_used_at===null||now-row.last_used_at>60_000` -/
def TokenRow.stale (now : ℤ) (row : TokenRow) : Bool :=
  match row.lastUsedAt with
  | none => true
  | some used => 60000 < now - used

def TokenRow.used (now : ℤ) (row : TokenRow) : TokenRow := { row with lastUsedAt := some now }

/-- `UPDATE access_tokens SET last_used_at=? WHERE id=?` -/
def AccessTokenStore.use (id : String) (now : ℤ) : AccessTokenStore → AccessTokenStore :=
  .update (fun row => row.id = id) (TokenRow.used now) (fun _ => rfl) fun _ => rfl

/-- The row is not revoked, not expired, and its epoch is the current one. -/
def TokenRow.holds (epoch : String → String) (now : ℤ) (row : TokenRow) : Bool :=
  row.live now && epoch row.actor = row.epoch

/-- What `resolve` returns of the row it found, and the store it leaves. -/
def answer (row : TokenRow) (now : ℤ) (store : AccessTokenStore) :
    Option AccessToken × AccessTokenStore :=
  if row.stale now then (some (row.used now).record, store.use row.id now)
  else (some row.record, store)

def resolve (digest : String → String) (epoch : String → String) (token : String) (now : ℤ)
    (store : AccessTokenStore) : Option AccessToken × AccessTokenStore :=
  if isAccessToken token then
    match store.tokens.rows.find? fun row => row.digest = digest token with
    | none => (none, store)
    | some row => if row.holds epoch now then answer row now store else (none, store)
  else (none, store)

def alive (epoch : String → String) (id : String) (now : ℤ) (store : AccessTokenStore) : Bool :=
  (store.tokens.get id).any fun row => row.holds epoch now

def TokenRow.revoked (now : ℤ) (row : TokenRow) : TokenRow := { row with revokedAt := some now }

/-- `UPDATE access_tokens SET revoked_at=? WHERE … AND revoked_at IS NULL` -/
def AccessTokenStore.revokeWhere (p : TokenRow → Bool) (now : ℤ) :
    AccessTokenStore → AccessTokenStore :=
  .update (fun row => p row && row.revokedAt = none) (TokenRow.revoked now) (fun _ => rfl)
    fun _ => rfl

/-- The update, with the number of rows it changed. -/
def revokeRows (p : TokenRow → Bool) (now : ℤ) : Call AccessTokenStore String ℕ := do
  let changes ← .read fun store =>
    store.tokens.rows.countP fun row => p row && row.revokedAt = none
  .write (AccessTokenStore.revokeWhere p now)
  return changes

def revoke (actor id : String) (now : ℤ) : Call AccessTokenStore String Bool := do
  let changes ← revokeRows (fun row => row.actor = actor && row.id = id) now
  return changes = 1

def revokeAll (actor : String) (now : ℤ) : Call AccessTokenStore String ℕ :=
  revokeRows (fun row => row.actor = actor) now

/-! ## The machine -/

/-- An epoch text that was read for an actor. -/
structure Reading where
  actor : String
  text : String

structure State where
  store : AccessTokenStore
  security : ManagementSecurity
  clock : ℤ
  readings : List Reading

inductive Event
  | security (e : ManagementSecurity.Event)
  | tick (milliseconds : ℕ)
  /-- `tokenEpoch(catalog.managementSecurity)(actor)`, for an issue that comes later. -/
  | read (actor : String)
  /-- An issue for the actor of the reading, with its text. -/
  | issue (reading : ℕ) (input : Input) (draw : Draw) (id : String)
  | resolve (token : String)
  | revoke (actor id : String)
  | revokeAll (actor : String)

section

variable (letter : Char → Bool) (digest : String → String)

def State.resolve (s : State) (token : String) : Option AccessToken × AccessTokenStore :=
  AccessTokens.resolve digest (tokenEpoch s.security) token s.clock s.store

def State.alive (s : State) (id : String) : Bool :=
  AccessTokens.alive (tokenEpoch s.security) id s.clock s.store

/-- The issue an event of this reading calls. -/
def State.issue (s : State) (reading : Reading) (input : Input) (draw : Draw) (id : String) :
    Call AccessTokenStore String (String × Option AccessToken) :=
  AccessTokens.issue letter digest reading.actor reading.text input draw id s.clock

/-- The state after an event; what a call returned or threw is not kept. -/
def step (s : State) : Event → State
  | .security e => { s with security := s.security.step e }
  | .tick milliseconds => { s with clock := s.clock + milliseconds }
  | .read actor => { s with readings := s.readings ++ [⟨actor, tokenEpoch s.security actor⟩] }
  | .issue reading input draw id =>
    match s.readings[reading]? with
    | none => s
    | some reading =>
      { s with store := (s.issue letter digest reading input draw id).after s.store }
  | .resolve token => { s with store := (s.resolve digest token).2 }
  | .revoke actor id => { s with store := (revoke actor id s.clock).after s.store }
  | .revokeAll actor => { s with store := (revokeAll actor s.clock).after s.store }

def machine (start : ℤ) : Machine State Event where
  initial := ⟨.empty, .empty, start, []⟩
  step := step letter digest

end

end Sbarbase.Control.AccessTokens
