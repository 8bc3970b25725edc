import Mathlib.Data.List.Lex
import Mathlib.Logic.Function.Basic
import Sbarbase.Lib.Checked
import Sbarbase.Lib.Machine
import Sbarbase.Lib.Text
import Sbarbase.Lib.Value
/-!
# The authority over the HBA file

`lab/hba_authority.py`, with `prepare` of `lab/atomic_hba.py` and the scripts that
both send to a container. A script holds the lock from its first comparison to its
last effect, so that it is one step; the message that carries it may arrive at any
time, any number of times.
-/

namespace Sbarbase.Hba

open Lib Lib.Checked

/-! ## Texts -/

/-- `json` and `hashlib`, over the texts `T` of registries. -/
structure Texts (T : Type) where
  /-- `canonical` -/
  canonical : Value PyNumber → T
  /-- `text + '\n'` -/
  line : T → T
  /-- `json.loads` with `unique_object` -/
  loads : T → Except String (Value PyNumber)
  /-- `digest`, of a registry -/
  digest : T → CodePoints
  /-- `digest`, of an HBA file -/
  fileDigest : CodePoints → CodePoints

/-- `pattern.fullmatch(value)`. A surrogate is read as a letter of no pattern. -/
def matchesText (pattern : String → Bool) (value : CodePoints) : Bool :=
  pattern (String.ofList (value.map Char.ofNat))

def UUID : String → Bool := isUuid

def HEX : String → Bool := matchesExactly isHex 64

def exact (value : CodePoints) (pattern : String → Bool) : Except String Unit :=
  require (matchesText pattern value) "Invalid HBA authority identity"

/-- `exact`, of what may be no text. -/
def exactValue (value : Value PyNumber) (pattern : String → Bool) : Except String CodePoints :=
  match value with
  | .text value => do
    exact value pattern
    return value
  | _ => .error "Invalid HBA authority identity"

/-! ## Records -/

inductive OperationState
  | active
  | revoked
  deriving DecidableEq

structure Operation where
  binding : CodePoints
  state : OperationState
  deriving DecidableEq

def Operation.isActive (operation : Operation) : Bool := operation.state = .active

/-- The operations by their tokens, in the order of the tokens. -/
abbrev Operations := List (CodePoints × Operation)

/-- `entries[token] = operation` -/
def assign (token : CodePoints) (operation : Operation) : Operations → Operations
  | [] => [(token, operation)]
  | entry :: entries =>
    if token = entry.1 then (token, operation) :: entries
    else if token < entry.1 then (token, operation) :: entry :: entries
    else entry :: assign token operation entries

def activeCount (operations : Operations) : ℕ :=
  operations.countP fun entry => entry.2.isActive

structure Record where
  generation : CodePoints
  revision : CodePoints
  operations : Operations
  deriving DecidableEq

/-- What stands in a record. The version is 1. -/
def stateText : OperationState → CodePoints
  | .active => codePoints "active"
  | .revoked => codePoints "revoked"

def Operation.value (operation : Operation) : Value PyNumber :=
  .object [(codePoints "binding", .text operation.binding),
    (codePoints "state", .text (stateText operation.state))]

def Record.value (record : Record) : Value PyNumber :=
  .object [(codePoints "generation", .text record.generation),
    (codePoints "operations",
      .object (record.operations.map fun entry => (entry.1, entry.2.value))),
    (codePoints "revision", .text record.revision),
    (codePoints "version", .number (.int 1))]

/-! ## Reading a registry -/

abbrev Members := List (CodePoints × Value PyNumber)

def member (name : String) (members : Members) : Option (Value PyNumber) :=
  members.lookup (codePoints name)

/-- `set(value) == names` -/
def hasNames (names : List String) (members : Members) : Bool :=
  (members.all fun member => (names.map codePoints).contains member.1) &&
    names.all fun name => (member name members).isSome

def isText (value : Value PyNumber) (text : CodePoints) : Bool :=
  match value with
  | .text value => value = text
  | _ => false

/-- The record and the checksum of an envelope. -/
def envelopeOf (value : Value PyNumber) : Except String (Value PyNumber × Value PyNumber) :=
  match value with
  | .object members => do
    require (hasNames ["record", "checksum"] members) "HBA registry envelope invalid"
    let record ← found (member "record" members) "HBA registry envelope invalid"
    let checksum ← found (member "checksum" members) "HBA registry envelope invalid"
    return (record, checksum)
  | _ => .error "HBA registry envelope invalid"

/-- `type(value) is int and value == 1` -/
def isVersion (value : Value PyNumber) : Bool :=
  match value with
  | .number (.int 1) => true
  | _ => false

def mismatch : String := "HBA registry generation or shape mismatch"

/-- The revision and the operations of a record of a generation. -/
def shapeOf (generation : CodePoints) (record : Value PyNumber) :
    Except String (Value PyNumber × Members) :=
  match record with
  | .object members => do
    require (hasNames ["version", "generation", "revision", "operations"] members) mismatch
    let version ← found (member "version" members) mismatch
    require (isVersion version) mismatch
    let named ← found (member "generation" members) mismatch
    require (isText named generation) mismatch
    let revision ← found (member "revision" members) mismatch
    match member "operations" members with
    | some (.object operations) => return (revision, operations)
    | _ => .error mismatch
  | _ => .error mismatch

def stateOf (value : Value PyNumber) : Option OperationState :=
  if isText value (codePoints "active") then some .active
  else if isText value (codePoints "revoked") then some .revoked
  else none

def operationOf (token : CodePoints) (item : Value PyNumber) : Except String Operation := do
  exact token UUID
  match item with
  | .object members => do
    require (hasNames ["binding", "state"] members) "HBA registry operation invalid"
    let state ← found ((member "state" members).bind stateOf) "HBA registry operation invalid"
    let binding ← found (member "binding" members) "HBA registry operation invalid"
    let binding ← exactValue binding HEX
    return ⟨binding, state⟩
  | _ => .error "HBA registry operation invalid"

def operationsOf : Members → Except String Operations
  | [] => return []
  | item :: items => do
    let operation ← operationOf item.1 item.2
    let operations ← operationsOf items
    return assign item.1 operation operations

section

variable {T : Type} (X : Texts T)

def envelope (record : Record) : Value PyNumber :=
  .object [(codePoints "checksum", .text (X.digest (X.canonical record.value))),
    (codePoints "record", record.value)]

def encode (record : Record) : T := X.line (X.canonical (envelope X record))

def decode (text : T) (generation : CodePoints) : Except String Record := do
  exact generation UUID
  let value ← X.loads text
  let (record, checksum) ← envelopeOf value
  require (isText checksum (X.digest (X.canonical record))) "HBA registry checksum mismatch"
  let (revision, members) ← shapeOf generation record
  let revision ← exactValue revision UUID
  let operations ← operationsOf members
  require (activeCount operations ≤ 1) "HBA registry has conflicting authority"
  return ⟨generation, revision, operations⟩

end

/-! ## Requests -/

structure Snapshot (T : Type) where
  containerId : CodePoints
  generation : CodePoints
  text : T

structure Prepared where
  containerId : CodePoints
  expectedDigest : CodePoints
  content : CodePoints
  deriving DecidableEq

structure Permit where
  prepared : Prepared
  registryDigest : CodePoints
  token : CodePoints
  binding : CodePoints
  deriving DecidableEq

/-- What `dispatch` sends to a container. -/
inductive Command (T : Type)
  | init (containerId : CodePoints) (text : T)
  | update (containerId : CodePoints) (text : T) (expected : CodePoints)
  | apply (permit : Permit)

def Command.containerId {T : Type} : Command T → CodePoints
  | .init containerId _ => containerId
  | .update containerId _ _ => containerId
  | .apply permit => permit.prepared.containerId

/-- `content.endswith('\n')` and no `'\x00'` in it -/
def isComplete (content : CodePoints) : Bool := content.getLast? = some 10 && !content.contains 0

/-- The first line of a file that is written. -/
def revisionLine (revision : CodePoints) : CodePoints :=
  codePoints "# sbarbase-hba-revision: " ++ revision ++ [10]

section

variable {T : Type} (X : Texts T)

def initializeRegistry (cid generation revision : CodePoints) : Except String (Command T) := do
  exact generation UUID
  exact cid HEX
  return .init cid (encode X ⟨generation, revision, []⟩)

def update (snapshot : Snapshot T) (token binding : CodePoints) (revoke : Bool)
    (revision : CodePoints) : Except String (Command T) := do
  exact token UUID
  exact binding HEX
  let record ← decode X snapshot.text snapshot.generation
  let prior := record.operations.lookup token
  require (prior.all fun operation => operation.binding = binding) "HBA operation binding mismatch"
  require (revoke || prior.all fun operation => operation.isActive) "HBA operation revoked"
  require (revoke || record.operations.all fun entry => entry.1 = token || !entry.2.isActive)
    "Another HBA operation is active"
  let operation : Operation := ⟨binding, if revoke then .revoked else .active⟩
  exact snapshot.containerId HEX
  return .update snapshot.containerId
    (encode X ⟨record.generation, revision, assign token operation record.operations⟩)
    (X.digest snapshot.text)

/-- `prepare`, of a container whose file is `current`. -/
def prepare (cid current content revision : CodePoints) : Except String Prepared := do
  require (isComplete content) "HBA content must be complete text"
  require (matchesText HEX cid) "HBA container identity unavailable"
  require (matchesText HEX (X.fileDigest current)) "HBA revision unavailable"
  return ⟨cid, X.fileDigest current, revisionLine revision ++ content⟩

def operationBinding (prepared : Prepared) (identity : Members) : Except String CodePoints := do
  require ((member "kind" identity).any fun kind =>
    isText kind (codePoints "startup") || isText kind (codePoints "worker"))
    "HBA operation context required"
  exact prepared.containerId HEX
  exact prepared.expectedDigest HEX
  require (isComplete prepared.content) "HBA content must be complete text"
  -- `encode('utf-8')`
  require (!prepared.content.any isSurrogate) "surrogates not allowed"
  return X.digest (X.canonical (.object [(codePoints "container", .text prepared.containerId),
    (codePoints "content", .text (X.fileDigest prepared.content)),
    (codePoints "expected", .text prepared.expectedDigest),
    (codePoints "operation", .object identity)]))

def authorize (snapshot : Snapshot T) (prepared : Prepared) (token : CodePoints)
    (identity : Members) : Except String Permit := do
  exact token UUID
  require (snapshot.containerId = prepared.containerId) "HBA authority container mismatch"
  let binding ← operationBinding X prepared identity
  let record ← decode X snapshot.text snapshot.generation
  require (record.operations.lookup token = some ⟨binding, .active⟩)
    "HBA operation is not authorized"
  return ⟨prepared, X.digest snapshot.text, token, binding⟩

def apply (permit : Permit) : Except String (Command T) := do
  exact permit.registryDigest HEX
  exact permit.token UUID
  exact permit.binding HEX
  let _ ← operationBinding X permit.prepared [(codePoints "kind", .text (codePoints "startup"))]
  return .apply permit

end

/-! ## Containers -/

/-- `/etc/postgresql` of a container: `MARKER`, `PATH` and the HBA file. -/
structure Backend (T : Type) where
  marker : Bool
  registry : Option T
  hba : CodePoints

section

variable {T : Type} (X : Texts T)

/-- `INIT`, `UPDATE` and `APPLY`, possibly cut short before the file is replaced; none
where nothing changes. -/
def script (b : Backend T) (cut : Bool) : Command T → Option (Backend T)
  | .init _ text =>
    if b.registry.isNone ∧ b.marker = false then
      some { b with marker := true, registry := if cut then none else some text }
    else none
  | .update _ text expected =>
    match b.registry with
    | some current =>
      if b.marker = true ∧ X.digest current = expected ∧ cut = false then
        some { b with registry := some text }
      else none
    | none => none
  | .apply permit =>
    match b.registry with
    | some current =>
      if b.marker = true ∧ X.digest current = permit.registryDigest ∧
          X.fileDigest b.hba = permit.prepared.expectedDigest ∧ cut = false then
        some { b with hba := permit.prepared.content }
      else none
    | none => none

end

/-! ## The system -/

/-- The containers, what the clients have been given, and what they have sent. The texts
that each file held before are kept beside it; nothing reads them. -/
structure World (T : Type) where
  backends : CodePoints → Backend T
  past : CodePoints → List CodePoints
  commands : List (Command T)
  prepared : List Prepared
  permits : List Permit
  issued : List CodePoints

/-- A client works from any snapshot, a prepared file or a permit that some client was
given, and from a new UUID. A command is delivered late, once, never or again. -/
inductive Event (T : Type)
  | initializeRegistry (cid generation revision : CodePoints)
  | update (snapshot : Snapshot T) (token binding : CodePoints) (revoke : Bool)
      (revision : CodePoints)
  | prepare (cid content revision : CodePoints)
  | authorize (snapshot : Snapshot T) (prepared : ℕ) (token : CodePoints) (identity : Members)
  | apply (permit : ℕ)
  | deliver (command : ℕ) (cut : Bool)

/-- `uuid.uuid4()` -/
def Fresh (issued : List CodePoints) (uuid : CodePoints) : Prop :=
  uuid ∉ issued ∧ matchesText UUID uuid = true

instance (issued : List CodePoints) (uuid : CodePoints) : Decidable (Fresh issued uuid) :=
  inferInstanceAs (Decidable (_ ∧ _))

section

variable {T : Type} (X : Texts T)

def World.send (s : World T) (command : Except String (Command T)) : World T :=
  match command with
  | .ok command => { s with commands := s.commands ++ [command] }
  | .error _ => s

/-- The container takes what a script leaves. -/
def World.replace (s : World T) (cid : CodePoints) (next : Backend T) : World T :=
  { s with
    backends := Function.update s.backends cid next
    past :=
      if next.hba = (s.backends cid).hba then s.past
      else Function.update s.past cid (s.past cid ++ [(s.backends cid).hba]) }

def World.deliver (s : World T) (command : Command T) (cut : Bool) : World T :=
  match script X (s.backends command.containerId) cut command with
  | some next => s.replace command.containerId next
  | none => s

def step (s : World T) : Event T → World T
  | .initializeRegistry cid generation revision =>
    if Fresh s.issued revision then
      { s with issued := revision :: s.issued }.send (initializeRegistry X cid generation revision)
    else s
  | .update snapshot token binding revoke revision =>
    if Fresh s.issued revision then
      { s with issued := revision :: s.issued }.send
        (update X snapshot token binding revoke revision)
    else s
  | .prepare cid content revision =>
    if Fresh s.issued revision then
      match prepare X cid (s.backends cid).hba content revision with
      | .ok prepared =>
        { s with issued := revision :: s.issued, prepared := s.prepared ++ [prepared] }
      | .error _ => s
    else s
  | .authorize snapshot i token identity =>
    match s.prepared[i]? with
    | some prepared =>
      match authorize X snapshot prepared token identity with
      | .ok permit => { s with permits := s.permits ++ [permit] }
      | .error _ => s
    | none => s
  | .apply i =>
    match s.permits[i]? with
    | some permit => s.send (apply X permit)
    | none => s
  | .deliver i cut =>
    match s.commands[i]? with
    | some command => s.deliver X command cut
    | none => s

def machine (initial : World T) : Machine (World T) (Event T) := ⟨initial, step X⟩

/-- No registry is there, no request has been made, and the UUIDs that a file shows are
issued. -/
structure World.Initial (s : World T) : Prop where
  backends : ∀ cid, (s.backends cid).registry = none ∧ (s.backends cid).marker = false
  past : ∀ cid, s.past cid = []
  commands : s.commands = []
  prepared : s.prepared = []
  permits : s.permits = []
  issued : ∀ cid revision, matchesText UUID revision = true →
    revisionLine revision <+: (s.backends cid).hba → revision ∈ s.issued

end

end Sbarbase.Hba
