import Mathlib.Data.List.Sort
import Sbarbase.Lib.Dict
import Sbarbase.Lib.Json
import Sbarbase.Lib.Text
/-!
# The record of a transfer

The record that `lab/transfer_journal.py` keeps of a project transfer: what it is
bound to, the reserved credentials, and the effects requested so far with what
was observed of each. A record on disk is text; a file that was cut short has no
closing brace and is no JSON, so a file read here is torn or holds the whole.
-/

namespace Sbarbase.Transfer

open Lib

/-- An error of the operating system, or a fixed reason code. -/
inductive Failure
  | os
  | reason (code : String)
  deriving DecidableEq

abbrev Checked (α : Type) := Except Failure α

def failWith {α : Type} (code : String) : Checked α := .error (.reason code)

def check (p : Prop) [Decidable p] (code : String) : Checked Unit :=
  if p then .ok () else failWith code

def maxBytes : ℕ := 128 * 1024

def maxEffects : ℕ := 128

def maxInteger : ℤ := 9007199254740991

structure Binding where
  operation : String
  environment : String
  runtime : String
  project : String
  source : String
  destination : String
  actor : String
  installation : String
  runtimeEpoch : ℤ
  managementEpoch : ℤ
  inventoryDigest : String
  daemonDigest : String
  engineId : String
  databaseOid : String
  roles : Dict String String
  routingRevision : ℤ
  deriving DecidableEq

structure Credentials where
  auth : String
  rest : String
  storage : String
  jwt : String
  realtime : String
  realtimeApi : String
  realtimeBase : String
  realtimeEnc : String
  developer : String
  deriving DecidableEq

def Credentials.values (c : Credentials) : List String :=
  [c.auth, c.rest, c.storage, c.jwt, c.realtime, c.realtimeApi, c.realtimeBase, c.realtimeEnc,
    c.developer]

/-- What is known of a resource before an effect on it. -/
structure Observation where
  resourceKind : String
  resourceId : String
  beforeDigest : String
  deriving DecidableEq

/-- What was observed of a resource after an effect. -/
structure Receipt where
  resourceKind : String
  resourceId : String
  outcome : String
  observedDigest : Option String
  signingKid : Option String
  checks : Option ℤ
  sessions : Option ℤ
  oldRejected : Option Bool
  replacementAccepted : Option Bool
  neighborUnchanged : Option Bool
  deriving DecidableEq

structure Effect where
  name : String
  state : String
  metadata : Observation
  receipt : Option Receipt
  materialDigest : String
  deriving DecidableEq

structure Record where
  schema : ℤ
  binding : Binding
  credentials : Credentials
  materialDigest : String
  createdAt : ℤ
  revision : ℤ
  effects : List Effect
  deriving DecidableEq

/-- A record without its credentials. -/
structure PublicState where
  schema : ℤ
  binding : Binding
  materialDigest : String
  createdAt : ℤ
  revision : ℤ
  effects : List Effect
  deriving DecidableEq

def Record.publicState (r : Record) : PublicState :=
  ⟨r.schema, r.binding, r.materialDigest, r.createdAt, r.revision, r.effects⟩

def PublicState.withCredentials (s : PublicState) (credentials : Credentials) : Record :=
  ⟨s.schema, s.binding, credentials, s.materialDigest, s.createdAt, s.revision, s.effects⟩

/-- What a publication is about to do, written before it does it. -/
structure Manifest where
  schema : ℤ
  bindingDigest : String
  candidate : String
  previousRecordDigest : Option String
  previousRevision : Option ℤ
  previousState : Option PublicState
  proposedRecordDigest : String
  proposedRevision : ℤ
  materialDigest : String
  deriving DecidableEq

/-- That a proposed generation was not installed. -/
structure AbortReceipt where
  schema : ℤ
  outcome : String
  bindingDigest : String
  manifestDigest : String
  previousRecordDigest : Option String
  proposedRecordDigest : String
  proposedRevision : ℤ
  materialDigest : String
  deriving DecidableEq

/-! ## Texts -/

section

open Json

def Binding.encode (b : Binding) : List Char :=
  let roles := b.roles.entries.insertionSort fun role role' => role.1 ≤ role'.1
  object [("actor", text b.actor), ("daemon_digest", text b.daemonDigest),
    ("database_oid", text b.databaseOid), ("destination", text b.destination),
    ("engine_id", text b.engineId), ("environment", text b.environment),
    ("installation", text b.installation), ("inventory_digest", text b.inventoryDigest),
    ("management_epoch", number b.managementEpoch), ("operation", text b.operation),
    ("project", text b.project), ("roles", object (roles.map fun role => (role.1, text role.2))),
    ("routing_revision", number b.routingRevision), ("runtime", text b.runtime),
    ("runtime_epoch", number b.runtimeEpoch), ("source", text b.source)]

def Credentials.encode (c : Credentials) : List Char :=
  object [("auth", text c.auth), ("developer", text c.developer), ("jwt", text c.jwt),
    ("realtime", text c.realtime), ("realtime_api", text c.realtimeApi),
    ("realtime_base", text c.realtimeBase), ("realtime_enc", text c.realtimeEnc),
    ("rest", text c.rest), ("storage", text c.storage)]

def Observation.encode (o : Observation) : List Char :=
  object [("before_digest", text o.beforeDigest), ("resource_id", text o.resourceId),
    ("resource_kind", text o.resourceKind)]

/-- A member that is there or not. -/
def member {α : Type} (name : String) (encode : α → List Char) (value : Option α) :
    List (String × List Char) :=
  (value.map fun value => (name, encode value)).toList

def Receipt.encode (r : Receipt) : List Char :=
  object (member "checks" number r.checks ++
    member "neighbor_unchanged" flag r.neighborUnchanged ++
    member "observed_digest" text r.observedDigest ++ member "old_rejected" flag r.oldRejected ++
    [("outcome", text r.outcome)] ++ member "replacement_accepted" flag r.replacementAccepted ++
    [("resource_id", text r.resourceId), ("resource_kind", text r.resourceKind)] ++
    member "sessions" number r.sessions ++ member "signing_kid" text r.signingKid)

def Effect.encode (e : Effect) : List Char :=
  object [("material_digest", text e.materialDigest), ("metadata", e.metadata.encode),
    ("name", text e.name), ("receipt", optional Receipt.encode e.receipt),
    ("state", text e.state)]

def PublicState.encode (s : PublicState) : List Char :=
  object [("binding", s.binding.encode), ("created_at", number s.createdAt),
    ("effects", list (s.effects.map Effect.encode)), ("material_digest", text s.materialDigest),
    ("revision", number s.revision), ("schema", number s.schema)]

def Record.encode (r : Record) : List Char :=
  object [("binding", r.binding.encode), ("created_at", number r.createdAt),
    ("credentials", r.credentials.encode), ("effects", list (r.effects.map Effect.encode)),
    ("material_digest", text r.materialDigest), ("revision", number r.revision),
    ("schema", number r.schema)]

def Manifest.encode (m : Manifest) : List Char :=
  object [("binding_digest", text m.bindingDigest), ("candidate", text m.candidate),
    ("material_digest", text m.materialDigest),
    ("previous_record_digest", optional text m.previousRecordDigest),
    ("previous_revision", optional number m.previousRevision),
    ("previous_state", optional PublicState.encode m.previousState),
    ("proposed_record_digest", text m.proposedRecordDigest),
    ("proposed_revision", number m.proposedRevision), ("schema", number m.schema)]

def AbortReceipt.encode (r : AbortReceipt) : List Char :=
  object [("binding_digest", text r.bindingDigest), ("manifest_digest", text r.manifestDigest),
    ("material_digest", text r.materialDigest), ("outcome", text r.outcome),
    ("previous_record_digest", optional text r.previousRecordDigest),
    ("proposed_record_digest", text r.proposedRecordDigest),
    ("proposed_revision", number r.proposedRevision), ("schema", number r.schema)]

end

/-- `hashlib.sha256(data).hexdigest()`, of the digest as a number. -/
def hexdigest (sha256 : List Char → ℕ) (data : List Char) : String :=
  String.ofList (Json.hexDigits 64 (sha256 data))

/-! ## Checks on single values -/

def inRange (value : ℤ) (maximum : ℤ) : Prop := 0 ≤ value ∧ value ≤ maximum

instance (value maximum : ℤ) : Decidable (inRange value maximum) :=
  inferInstanceAs (Decidable (_ ∧ _))

/-- `_integer` -/
def isInteger (value : ℤ) : Prop := inRange value maxInteger

instance (value : ℤ) : Decidable (isInteger value) := inferInstanceAs (Decidable (inRange _ _))

/-- `_digest` -/
def isDigest (value : String) : Bool := matchesExactly isHex 64 value

/-- `_uuid`: the canonical text of an identifier that is not zero. -/
def isIdentifier (value : String) : Bool :=
  isUuid value && value ≠ "00000000-0000-0000-0000-000000000000"

/-- `_oid` -/
def isOid (value : String) : Bool :=
  matchesRange (fun c => isDigit c && c ≠ '0') isDigit 0 9 value &&
    decimal value.toList ≤ 4294967295

/-- `[A-Za-z0-9_-]` -/
def isUrlSafe (c : Char) : Bool := isAlphanumeric c || c = '_' || c = '-'

/-- `[a-z][a-z_]{0,47}(?:\.[0-9]{1,3})?` -/
def isStep (value : String) : Bool :=
  let (word, rest) := value.toList.span (· ≠ '.')
  matchesRange isLower (fun c => isLower c || c = '_') 0 47 (String.ofList word) &&
    match rest with
    | [] => true
    | _ :: digits => digits.all isDigit && 1 ≤ digits.length && digits.length ≤ 3

def resourceKinds : List String :=
  ["database", "role", "container", "storage_tenant", "runtime", "project", "inventory",
    "directory"]

/-- `any(secret in serialized for secret in credentials.values())` -/
def holdsSecret (credentials : Credentials) (serialized : List Char) : Bool :=
  credentials.values.any fun secret => occursIn secret.toList serialized

/-! ## Checks on whole values -/

def roleNames (runtime : String) (kinds : List String) : List String :=
  kinds.map fun kind => runtime ++ "_" ++ kind

def validateBinding (b : Binding) : Checked Unit := do
  let required := roleNames b.runtime ["auth", "rest", "storage"]
  let allowed := required ++ roleNames b.runtime ["realtime", "developer", "studio"]
  let oids := b.roles.entries.map Sigma.snd
  check ([b.operation, b.environment, b.project, b.source, b.destination, b.actor,
    b.installation].all isIdentifier) "BINDING_INVALID"
  check (isRuntime b.runtime) "BINDING_INVALID"
  check (b.source ≠ b.destination) "BINDING_INVALID"
  check (isInteger b.runtimeEpoch ∧ isInteger b.managementEpoch ∧ isInteger b.routingRevision)
    "BINDING_INVALID"
  check (1 ≤ b.runtimeEpoch) "BINDING_INVALID"
  check ([b.inventoryDigest, b.daemonDigest, b.engineId].all isDigest) "BINDING_INVALID"
  check (isOid b.databaseOid ∧ (∀ name ∈ required, name ∈ b.roles.keys) ∧
    (∀ name ∈ b.roles.keys, name ∈ allowed) ∧ oids.all isOid ∧ oids.Nodup) "BINDING_INVALID"

/-- `_credentials` -/
def validateCredentials (c : Credentials) : Checked Unit := do
  check ([(c.auth, 32), (c.rest, 32), (c.storage, 32), (c.jwt, 32), (c.realtime, 32),
    (c.realtimeApi, 32), (c.realtimeBase, 64), (c.realtimeEnc, 8)].all fun secret =>
      matchesExactly isHex (secret.2 * 2) secret.1) "MATERIAL_INVALID"
  check (matchesExactly isUrlSafe 32 c.developer) "MATERIAL_INVALID"

/-- `_resource` -/
def validateResource (b : Binding) (kind identity : String) : Checked Unit := do
  check (kind ∈ resourceKinds) "OBSERVATION_INVALID"
  check (if kind = "database" then identity = b.databaseOid
    else if kind = "role" then identity ∈ b.roles.keys
    else if kind = "container" then isDigest identity
    else if kind = "project" then identity = b.project
    else identity = b.runtime) "RESOURCE_BINDING_DIFFERS"

/-- `_observation`, before an effect -/
def validateObservation (b : Binding) (credentials : Credentials) (o : Observation) :
    Checked Unit := do
  validateResource b o.resourceKind o.resourceId
  check (isDigest o.beforeDigest) "OBSERVATION_INVALID"
  check (holdsSecret credentials o.encode = false) "CREDENTIAL_IN_OBSERVATION"

/-- `_observation`, as a receipt -/
def validateReceipt (b : Binding) (credentials : Credentials) (r : Receipt) : Checked Unit := do
  validateResource b r.resourceKind r.resourceId
  check (r.observedDigest.all isDigest) "OBSERVATION_INVALID"
  check (r.outcome ∈ ["verified", "blocked"]) "OBSERVATION_INVALID"
  check (r.signingKid.all fun kid => r.resourceKind = "storage_tenant" && isIdentifier kid)
    "OBSERVATION_INVALID"
  check ((∀ n ∈ r.checks, inRange n 1000000) ∧ ∀ n ∈ r.sessions, inRange n 1000000)
    "OBSERVATION_INVALID"
  check (holdsSecret credentials r.encode = false) "CREDENTIAL_IN_OBSERVATION"

def sameResource (r : Receipt) (o : Observation) : Prop :=
  r.resourceKind = o.resourceKind ∧ r.resourceId = o.resourceId

instance (r : Receipt) (o : Observation) : Decidable (sameResource r o) :=
  inferInstanceAs (Decidable (_ ∧ _))

section

variable (sha256 : List Char → ℕ) (binding : Binding)

def materialDigest (credentials : Credentials) : String := hexdigest sha256 credentials.encode

def recordDigest (r : Record) : String := hexdigest sha256 r.encode

def bindingDigest : String := hexdigest sha256 binding.encode

/-- The body of the loop of `_validate`: `names` were met, `pending` says whether
the effect before this one is pending. -/
def validateEffect (record : Record) (names : List String) (pending : Bool) (e : Effect) :
    Checked Unit := do
  check (isStep e.name) "EFFECT_INVALID"
  check (holdsSecret record.credentials e.name.toList = false) "CREDENTIAL_IN_OBSERVATION"
  check (e.name ∉ names ∧ pending = false ∧ e.state ∈ ["pending", "verified"]) "RECORD_INVALID"
  check (e.materialDigest = record.materialDigest) "MATERIAL_DIFFERS"
  validateObservation binding record.credentials e.metadata
  match e.receipt with
  | none => pure ()
  | some receipt => do
    validateReceipt binding record.credentials receipt
    check (sameResource receipt e.metadata) "RESOURCE_BINDING_DIFFERS"
  check (e.state = "verified" → e.receipt.any fun r => r.outcome = "verified") "RECORD_INVALID"
  check (e.state = "pending" → e.receipt.all fun r => r.outcome = "blocked") "RECORD_INVALID"

def validateEffects (record : Record) : List String → Bool → List Effect → Checked Unit
  | _, _, [] => pure ()
  | names, pending, e :: effects => do
    validateEffect binding record names pending e
    validateEffects record (e.name :: names) (e.state = "pending") effects

def validate (record : Record) : Checked Unit := do
  check (record.schema = 1) "RECORD_INVALID"
  validateBinding record.binding
  check (record.binding = binding) "BINDING_DIFFERS"
  validateCredentials record.credentials
  check (record.materialDigest = materialDigest sha256 record.credentials) "MATERIAL_DIFFERS"
  check (isInteger record.createdAt ∧ isInteger record.revision ∧
    record.effects.length ≤ maxEffects) "RECORD_INVALID"
  validateEffects binding record [] false record.effects

end

/-- The effects of the next generation: one more that is pending, or the pending
one with a receipt. -/
def nextEffects (before after : List Effect) : Prop :=
  if after.length = before.length + 1 then
    after.dropLast = before ∧ (∀ e ∈ after.getLast?, e.state = "pending" ∧ e.receipt = none) ∧
      ∀ e ∈ before, e.state ≠ "pending"
  else if after.length = before.length ∧ before ≠ [] then
    after.dropLast = before.dropLast ∧ (∀ e ∈ before.getLast?, e.state = "pending") ∧
      (∀ e ∈ after.getLast?, e.receipt ≠ none) ∧
      ∀ e ∈ before.getLast?, ∀ e' ∈ after.getLast?,
        e.name = e'.name ∧ e.metadata = e'.metadata ∧ e.materialDigest = e'.materialDigest
  else False

instance (before after : List Effect) : Decidable (nextEffects before after) := by
  unfold nextEffects
  infer_instance

def transition (old : Option Record) (proposed : Record) : Checked Unit :=
  match old with
  | none =>
    check (proposed.revision = 0 ∧ proposed.effects = []) "PUBLICATION_TRANSITION_INVALID"
  | some old => do
    check (old.binding = proposed.binding ∧ old.credentials = proposed.credentials ∧
      old.materialDigest = proposed.materialDigest ∧ old.createdAt = proposed.createdAt ∧
      proposed.revision = old.revision + 1) "PUBLICATION_TRANSITION_INVALID"
    check (nextEffects old.effects proposed.effects) "PUBLICATION_TRANSITION_INVALID"

end Sbarbase.Transfer
