import Sbarbase.Lib.Bytes
import Sbarbase.Lib.Machine
import Sbarbase.Lib.Text
/-!
# The database proxy

The startup packet and the client handshake of `http/database-proxy.ts`. A
connection is a machine: the client's chunks arrive in the clear, or decrypted
after the proxy answered an `SSLRequest`, and are read until one message is
forwarded. What the guard and the target answer comes with each chunk.
-/

namespace Sbarbase.Database.Proxy

open Lib

def SSL_REQUEST : ℤ := 80877103

def GSS_REQUEST : ℤ := 80877104

def CANCEL_REQUEST : ℤ := 80877102

def PROTOCOL_3 : ℤ := 196608

def MAX_STARTUP : ℤ := 10000

/-! ## The startup packet -/

/-- Reads the fields of a startup message body, in their order. -/
def startupFields (body : Bytes) : List (List Char × List Char) :=
  match _hkey : splitNul body with
  | none => []
  | some ([], _) => []
  | some (key, rest) =>
    match _hvalue : splitNul rest with
    | none => []
    | some (value, rest) => (decodeUtf8 key, decodeUtf8 value) :: startupFields rest
termination_by body.length
decreasing_by
  have hkey := length_splitNul _hkey
  have hvalue := length_splitNul _hvalue
  omega

/-- `fields.key`: a later value takes the place of an earlier one. -/
def field {κ α : Type} [DecidableEq κ] (fields : List (κ × α)) (key : κ) : Option α :=
  (fields.reverse.find? fun pair => pair.1 = key).map Prod.snd

/-- `DEVELOPER_LOGIN`: the runtime of a developer login. -/
def developerLogin (user : List Char) : Option (List Char) :=
  let runtime := user.take 26
  if "e_".toList.isPrefixOf runtime ∧ (runtime.drop 2).length = 24 ∧ (runtime.drop 2).all isHex ∧
    user.drop 26 = "_developer".toList
  then some runtime
  else none

inductive Decision
  | ok (user database : List Char)
  | refused (message : String)

def decide (fields : List (List Char × List Char)) : Decision :=
  let user := (field fields "user".toList).getD []
  match developerLogin user with
  | none => .refused "Only an environment developer login (e_…_developer) can connect here"
  | some runtime =>
    let database := match (field fields "database".toList).getD [] with
      | [] => user
      | database => database
    if database ≠ runtime then
      .refused ("The developer login connects to its own database, " ++ String.ofList runtime)
    else .ok user database

/-! ## The connection -/

structure Options where
  /-- A certificate is configured. -/
  tls : Bool
  requireTls : Bool

/-- What the guard says about a runtime, and whether the database is running. -/
structure Answers where
  admits : List Char → Option String
  target : Bool

inductive Phase
  | reading
  /-- `S` was answered; TLS begins. -/
  | handshaking
  /-- The connection to PostgreSQL is being opened for a message, of a startup or a cancel. -/
  | connecting (first : Bytes) (startup : Bool)
  | piping (startup : Bool)
  | over

/-- `stream` is what the client sent so far, in the clear or decrypted, and `clear` what it sent
before TLS began. -/
structure State where
  phase : Phase
  secured : Bool
  buffer : Bytes
  forwarded : Bytes
  refusals : List String
  clear : Bytes
  stream : Bytes

def State.initial : State := ⟨.reading, false, [], [], [], [], []⟩

namespace State

variable (s : State)

/-- `refuse`: the client is answered, and `onData` stays its listener. -/
def refuse (message : String) : State := { s with refusals := s.refusals ++ [message] }

/-- `forward`, up to the connection to PostgreSQL. -/
def forward (answers : Answers) (first : Bytes) (startup : Bool) : State :=
  if answers.target then { s with phase := .connecting first startup }
  else { s.refuse "The database is not running" with phase := .over }

/-- The first message that is no request. -/
def admitMessage (options : Options) (answers : Answers) (message : Bytes) : State :=
  let code := int32BE ((message.drop 4).take 4)
  if code = CANCEL_REQUEST then
    if options.requireTls ∧ !s.secured then { s with phase := .over }
    else { s with buffer := [] }.forward answers message false
  else if code ≠ PROTOCOL_3 then s.refuse "Unsupported protocol version"
  else if options.requireTls ∧ !s.secured then
    s.refuse "This address requires TLS (sslmode=require)"
  else
    match decide (startupFields (message.drop 8)) with
    | .refused message => s.refuse message
    | .ok _ database =>
      match answers.admits database with
      | some denied => s.refuse denied
      | none => s.forward answers message true

/-- The loop of `onData`. -/
def readMessages (options : Options) (answers : Answers) (s : State) : State :=
  if _hshort : s.buffer.length < 8 then s
  else
    let length := int32BE (s.buffer.take 4)
    let code := int32BE ((s.buffer.drop 4).take 4)
    if length < 8 ∨ MAX_STARTUP < length then s.refuse "Invalid startup message"
    else if s.buffer.length < length then s
    else if length = 8 ∧ code = SSL_REQUEST ∧ options.tls ∧ !s.secured then
      if 8 < s.buffer.length then s.refuse "Invalid startup message"
      else { s with phase := .handshaking }
    else if length = 8 ∧ (code = SSL_REQUEST ∨ code = GSS_REQUEST) then
      readMessages options answers { s with buffer := s.buffer.drop 8 }
    else
      { s with buffer := s.buffer.drop length.toNat }.admitMessage options answers
        (s.buffer.take length.toNat)
termination_by s.buffer.length
decreasing_by
  rw [List.length_drop]
  omega

end State

inductive Event
  | data (chunk : Bytes) (answers : Answers)
  /-- The TLS handshake is done, and the decrypted stream is served. -/
  | secured
  /-- The connection to PostgreSQL is open. -/
  | connected
  /-- A side closed, or a timer ended the connection. -/
  | closed

/-- A paused client sends nothing. -/
def step (options : Options) (s : State) : Event → State
  | .data chunk answers =>
    match s.phase with
    | .reading =>
      { s with buffer := s.buffer ++ chunk, stream := s.stream ++ chunk }.readMessages options answers
    | .piping startup =>
      { s with
        stream := s.stream ++ chunk
        forwarded := if startup then s.forwarded ++ chunk else s.forwarded }
    | _ => s
  | .secured =>
    match s.phase with
    | .handshaking =>
      { s with phase := .reading, secured := true, buffer := [], clear := s.stream, stream := [] }
    | _ => s
  | .connected =>
    match s.phase with
    | .connecting first startup =>
      { s with
        phase := .piping startup
        forwarded := if startup then first ++ s.buffer else first
        buffer := [] }
    | _ => s
  | .closed => { s with phase := .over }

def machine (options : Options) : Machine State Event where
  initial := .initial
  step := step options

/-! ## What PostgreSQL reads -/

/-- The parameters of a startup message body: pairs of terminated name and value, then a zero byte,
which is the last. -/
def parameters (body : Bytes) : Option (List (Bytes × Bytes)) :=
  match _hkey : splitNul body with
  | none => none
  | some ([], rest) => if rest = [] then some [] else none
  | some (name, rest) =>
    match _hvalue : splitNul rest with
    | none => none
    | some (value, rest) => (parameters rest).map fun more => (name, value) :: more
termination_by body.length
decreasing_by
  have hkey := length_splitNul _hkey
  have hvalue := length_splitNul _hvalue
  omega

/-- The user and the database that PostgreSQL connects a startup message to; none where it refuses
its layout or finds no user. The database defaults to the user. -/
def postgres (message : Bytes) : Option (Bytes × Bytes) :=
  match parameters (message.drop 8) with
  | none => none
  | some fields =>
    match (field fields (asciiBytes "user".toList)).getD [] with
    | [] => none
    | user =>
      match (field fields (asciiBytes "database".toList)).getD [] with
      | [] => some (user, user)
      | database => some (user, database)

end Sbarbase.Database.Proxy
