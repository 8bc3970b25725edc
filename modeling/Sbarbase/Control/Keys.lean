import Sbarbase.Lib.Call
import Sbarbase.Lib.Machine
import Sbarbase.Lib.Number
import Sbarbase.Lib.Table
import Sbarbase.Lib.Text
/-!
# API keys

`KeyStore` of `src/control/keys.ts`. The store keeps the digest of a token; the
hash function is a parameter. The runtime epochs it asks for belong to the
catalog and are part of the machine's state, so that a key and the generation it
was issued for can move apart.
-/

namespace Sbarbase.Control.Keys

open Lib

inductive KeyKind
  | publishable
  | secret
  deriving DecidableEq

def KeyKind.text : KeyKind → String
  | .publishable => "publishable"
  | .secret => "secret"

/-- A row of `api_keys`. -/
structure KeyRow where
  id : String
  environment : String
  kind : KeyKind
  digest : String
  createdAt : ℤ
  revokedAt : Option ℤ
  runtimeEpoch : ℤ
  name : String
  token : Option String
  deriving DecidableEq

/-- The table, with its primary key and the constraint on digests. -/
structure KeyStore where
  keys : Table KeyRow.id
  digests : (keys.rows.map KeyRow.digest).Nodup

def KeyStore.empty : KeyStore := ⟨.empty, List.nodup_nil⟩

/-- `randomBytes(32).toString('base64url')`. -/
structure Draw where
  text : String
  length : utf16Length text = 43

/-- `/^[a-z][a-z0-9_]{1,30}$/`. -/
def isEnvironment (environment : String) : Bool :=
  matchesRange isLower (fun c => isLower c || isDigit c || c = '_') 1 30 environment

/-- `KEY_NAME`. -/
def isKeyName (name : String) : Bool :=
  matchesRange (fun c => isLower c || c = '_')
    (fun c => isLower c || isDigit c || c = '_') 3 63 name

/-- A runtime epoch the store accepts. -/
def isEpoch (epoch : ℤ) : Bool := isSafeInteger epoch && 0 ≤ epoch

def tokenText (kind : KeyKind) (draw : Draw) : String := "sb_" ++ kind.text ++ "_" ++ draw.text

/-- `kind==='publishable'?token:null` -/
def storedToken (kind : KeyKind) (token : String) : Option String :=
  if kind = .publishable then some token else none

/-- The row `issue` inserts. -/
def issuedRow (digest : String → String) (environment : String) (kind : KeyKind) (name : String)
    (draw : Draw) (id : String) (epoch now : ℤ) : KeyRow where
  id := id
  environment := environment
  kind := kind
  digest := digest (tokenText kind draw)
  createdAt := now
  revokedAt := none
  runtimeEpoch := epoch
  name := name
  token := storedToken kind (tokenText kind draw)

/-- `INSERT INTO api_keys`. -/
def KeyStore.insert (row : KeyRow) (store : KeyStore) : Except String KeyStore :=
  match h : store.keys.insert row with
  | none => .error "UNIQUE constraint failed: api_keys.id"
  | some keys =>
    if hd : row.digest ∈ store.keys.rows.map KeyRow.digest then
      .error "UNIQUE constraint failed: api_keys.digest"
    else .ok ⟨keys, by
      rw [(Table.insert_eq_some h).1, List.map_append, List.map_cons, List.map_nil,
        ← List.concat_eq_append]
      exact store.digests.concat hd⟩

/-- `issue`, with the id and the token it returns. -/
def issue (digest : String → String) (epoch : String → ℤ) (environment : String)
    (kind : KeyKind) (name : String) (draw : Draw) (id : String) (now : ℤ) :
    Call KeyStore String (String × String) := do
  .require (isEnvironment environment) "Invalid environment"
  .require (isKeyName name) "Invalid key name"
  .require (isEpoch (epoch environment)) "Invalid runtime epoch"
  .attempt (KeyStore.insert
    (issuedRow digest environment kind name draw id (epoch environment) now))
  return (id, tokenText kind draw)

/-- `resolve`, with no confirmation probe set. -/
def resolve (digest : String → String) (store : KeyStore) (epoch : String → ℤ)
    (environment token : String) : Option KeyKind :=
  if utf16Length token > 8192 then none
  else
    (store.keys.rows.find? fun row =>
      row.environment = environment && row.digest = digest token && row.revokedAt = none &&
        row.runtimeEpoch = epoch environment).map KeyRow.kind

def KeyRow.revoked (now : ℤ) (row : KeyRow) : KeyRow :=
  { row with revokedAt := some now, token := none }

/-- A row that an update `… AND revoked_at IS NULL` changes. -/
def KeyRow.unrevoked (p : KeyRow → Bool) (row : KeyRow) : Bool := p row && row.revokedAt = none

/-- `UPDATE api_keys SET revoked_at=?,token=NULL WHERE … AND revoked_at IS NULL`. -/
def KeyStore.revokeWhere (p : KeyRow → Bool) (now : ℤ) (store : KeyStore) : KeyStore where
  keys := store.keys.modify (KeyRow.unrevoked p) (KeyRow.revoked now) fun _ => rfl
  digests := by
    have hsame : (KeyRow.digest ∘ fun row : KeyRow =>
        if row.unrevoked p then row.revoked now else row) = KeyRow.digest := by
      funext row
      simp only [Function.comp_apply]
      split_ifs <;> rfl
    show (List.map KeyRow.digest (store.keys.rows.map _)).Nodup
    rw [List.map_map, hsame]
    exact store.digests

/-- The update, with the number of rows it changed. -/
def revokeRows (p : KeyRow → Bool) (now : ℤ) : Call KeyStore String ℕ := do
  let changes ← .read fun store => store.keys.rows.countP (KeyRow.unrevoked p)
  .write (KeyStore.revokeWhere p now)
  return changes

def revoke (environment id : String) (now : ℤ) : Call KeyStore String Bool := do
  let changes ← revokeRows (fun row => row.id = id && row.environment = environment) now
  return changes = 1

def revokeAll (environment : String) (now : ℤ) : Call KeyStore String ℕ :=
  revokeRows (fun row => row.environment = environment) now

def revokeBeforeEpoch (environment : String) (epoch now : ℤ) : Call KeyStore String ℕ := do
  .require (isEpoch epoch) "Invalid runtime epoch"
  revokeRows (fun row => row.environment = environment && row.runtimeEpoch < epoch) now

/-! ## The machine -/

/-- The store and the catalog's epochs, zero for a runtime without a row. -/
structure State where
  store : KeyStore
  epoch : String → ℤ

inductive Event
  | issue (environment : String) (kind : KeyKind) (name : String) (draw : Draw) (id : String)
      (now : ℤ)
  | revoke (environment id : String) (now : ℤ)
  | revokeAll (environment : String) (now : ℤ)
  | revokeBeforeEpoch (environment : String) (epoch now : ℤ)
  /-- The catalog moves a runtime to a later epoch. -/
  | epochRises (environment : String) (epoch : ℤ)

/-- The state after an event; what a call returned or threw is not kept. -/
def step (digest : String → String) (s : State) : Event → State
  | .issue environment kind name draw id now =>
    { s with store := (issue digest s.epoch environment kind name draw id now).after s.store }
  | .revoke environment id now => { s with store := (revoke environment id now).after s.store }
  | .revokeAll environment now => { s with store := (revokeAll environment now).after s.store }
  | .revokeBeforeEpoch environment epoch now =>
    { s with store := (revokeBeforeEpoch environment epoch now).after s.store }
  | .epochRises environment epoch =>
    if s.epoch environment < epoch then
      { s with epoch := Function.update s.epoch environment epoch }
    else s

def machine (digest : String → String) : Machine State Event where
  initial := ⟨.empty, fun _ => 0⟩
  step := step digest

end Sbarbase.Control.Keys
