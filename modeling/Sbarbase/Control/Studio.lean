import Mathlib.Data.Int.Notation
import Mathlib.Logic.Function.Basic
import Sbarbase.Lib.Machine
import Sbarbase.Lib.Number
import Sbarbase.Lib.Text
/-!
# Studio sessions

Tickets and sessions of `src/control/studio.ts`, in one process. A signature is
ideal: a token is the claim it spells, and it verifies if `signStudio` signed
that claim. Times are milliseconds. A call that reads the clock more than once
advances it by the given amounts between its readings.

`made` records what was signed from what, and which requests passed.
-/

namespace Sbarbase.Control.Studio

open Lib

def ticketMs : ℤ := 60000

def sessionMs : ℤ := 28800000

def sessionLimitMs : ℤ := 604800000

def renewAfterMs : ℤ := 300000

def spentLimit : ℕ := 10000

inductive Kind
  | ticket
  | session
  deriving DecidableEq

structure Claim where
  runtime : String
  actor : String
  expires : ℤ
  kind : Kind
  epoch : ℤ
  runtimeEpoch : Option ℤ
  nonce : Option String
  started : Option ℤ
  deriving DecidableEq

/-- What the module signed, and what it let pass. -/
inductive Made
  /-- A ticket of the console. -/
  | issued (ticket : Claim)
  | entered (ticket session : Claim) (time : ℤ)
  | renewed (session next : Claim) (time : ℤ)
  | switched (session ticket : Claim)
  /-- `allowed()` held for a request with this session. -/
  | accepted (session : Claim) (time : ℤ)
  deriving DecidableEq

/-- `/^[A-Za-z0-9_-]{8,64}$/` -/
def isNonce (nonce : String) : Bool :=
  let allowed := fun c => isAlphanumeric c || c = '_' || c = '-'
  matchesRange allowed allowed 7 63 nonce

/-- `spend`: false for a ticket that was used, else the tickets used now. -/
def spend (claim : Claim) (now : ℤ) (spent : List (String × ℤ)) : Bool × List (String × ℤ) :=
  match claim.nonce with
  | none => (false, spent)
  | some nonce =>
    if isNonce nonce then
      let kept := spent.filter fun entry => now < entry.2
      if nonce ∈ kept.map Prod.fst then (false, kept)
      else (true, kept.drop (kept.length + 1 - spentLimit) ++ [(nonce, claim.expires)])
    else (false, spent)

/-- What `verifyStudio` asks of a claim whose signature is right. -/
def Claim.valid (claim : Claim) (runtime : String) (kind : Kind) (now : ℤ) : Bool :=
  claim.kind = kind && claim.runtime = runtime && now < claim.expires &&
    isSafeInteger claim.epoch && 0 ≤ claim.epoch &&
    (claim.runtimeEpoch.all fun epoch => isSafeInteger epoch && 0 ≤ epoch) &&
    (claim.started.all fun started => isSafeInteger started && 0 ≤ started && started ≤ now)

/-- `verifyStudio`, of a token that spells `claim`. -/
def verifyStudio (signed : List Claim) (claim : Claim) (runtime : String) (kind : Kind)
    (now : ℤ) : Option Claim :=
  if claim ∈ signed ∧ claim.valid runtime kind now then some claim else none

/-- `Number.isSafeInteger(claim.started)?claim.started:claim.expires-SESSION_MS` -/
def Claim.opened (claim : Claim) : ℤ :=
  match claim.started with
  | none => claim.expires - sessionMs
  | some started => if isSafeInteger started then started else claim.expires - sessionMs

/-- The claim of the renewed cookie, or none when it is not due. -/
def renewedSession (claim : Claim) (now : ℤ) : Option Claim :=
  let expires := min (now + sessionMs) (claim.opened + sessionLimitMs)
  if expires - claim.expires < renewAfterMs then none
  else some { claim with started := some claim.opened, expires := expires }

structure Request where
  session : Claim
  runtime : String

structure State where
  clock : ℤ
  signed : List Claim
  spent : List (String × ℤ)
  epoch : String → ℤ
  runtimeEpoch : String → ℤ
  /-- Whether the actor may use the Studio of the runtime. -/
  allowed : String → String → Bool
  /-- Whether the Studio of the runtime is asked for and running. -/
  running : String → Bool
  requests : ℕ → Option Request
  made : List Made

def State.current (s : State) (claim : Claim) (runtime : String) (now : ℤ) : Bool :=
  now < claim.expires && claim.epoch = s.epoch claim.actor &&
    claim.runtimeEpoch.getD 0 = s.runtimeEpoch runtime && s.allowed claim.actor runtime

inductive Event
  | tick (milliseconds : ℕ)
  | setEpoch (actor : String) (epoch : ℤ)
  | setRuntimeEpoch (runtime : String) (epoch : ℤ)
  | setAllowed (actor runtime : String) (allowed : Bool)
  | setRunning (runtime : String) (running : Bool)
  /-- `POST /environments/{id}/studio/session` -/
  | console (actor runtime nonce : String)
  /-- `/__sbarbase/enter`; `older` if the version before `started` answers. -/
  | enter (older : Bool) (token : Claim) (runtime : String) (toCurrent toSpend toNow : ℕ)
  /-- A request with a session cookie arrives. -/
  | arrive (request : ℕ) (token : Claim) (runtime : String) (toCurrent : ℕ)
  /-- `allowed()`, after the body, after the upstream and for each part of the answer. -/
  | check (request : ℕ)
  /-- The answer of the upstream, with a cookie if one is due. -/
  | answer (request : ℕ) (toRenew : ℕ)
  /-- `/__sbarbase/switch`, once the selected environment is known. -/
  | switch (request : ℕ) (selected nonce : String) (toCurrent toSign : ℕ)

/-- The ticket the console makes. -/
def consoleTicket (s : State) (actor runtime nonce : String) : Claim where
  runtime := runtime
  actor := actor
  expires := s.clock + ticketMs
  kind := .ticket
  epoch := s.epoch actor
  runtimeEpoch := some (s.runtimeEpoch runtime)
  nonce := some nonce
  started := none

/-- The ticket a switch makes. -/
def switchTicket (s : State) (claim : Claim) (selected nonce : String) (now : ℤ) : Claim where
  runtime := selected
  actor := claim.actor
  expires := now + ticketMs
  kind := .ticket
  epoch := claim.epoch
  runtimeEpoch := some (s.runtimeEpoch selected)
  nonce := some nonce
  started := none

/-- The session an enter opens. -/
def enteredSession (older : Bool) (claim : Claim) (runtime : String) (now : ℤ) : Claim where
  runtime := runtime
  actor := claim.actor
  expires := now + sessionMs
  kind := .session
  epoch := claim.epoch
  runtimeEpoch := some (claim.runtimeEpoch.getD 0)
  nonce := none
  started := if older then none else some now

def State.sign (s : State) (claim : Claim) (made : Made) : State :=
  { s with signed := claim :: s.signed, made := made :: s.made }

def State.accept (s : State) (claim : Claim) : State :=
  { s with made := .accepted claim s.clock :: s.made }

def State.tick (s : State) (milliseconds : ℕ) : State :=
  { s with clock := s.clock + milliseconds }

/-- The rest of an enter whose ticket holds: the session, if the ticket was not used. -/
def openSession (older : Bool) (claim : Claim) (runtime : String) (toNow : ℕ) (s : State) : State :=
  match spend claim s.clock s.spent with
  | (false, spent) => { s with spent := spent }
  | (true, spent) =>
    let s := { s with spent := spent }.tick toNow
    let session := enteredSession older claim runtime s.clock
    s.sign session (.entered claim session s.clock)

def enter (older : Bool) (token : Claim) (runtime : String) (toCurrent toSpend toNow : ℕ)
    (s : State) : State :=
  match verifyStudio s.signed token runtime .ticket s.clock with
  | none => s
  | some claim =>
    let s := s.tick toCurrent
    if s.current claim runtime s.clock then openSession older claim runtime toNow (s.tick toSpend)
    else s

def arrive (request : ℕ) (token : Claim) (runtime : String) (toCurrent : ℕ) (s : State) : State :=
  match verifyStudio s.signed token runtime .session s.clock with
  | none => s
  | some claim =>
    let s := s.tick toCurrent
    if s.current claim runtime s.clock then
      { s.accept claim with
        requests := Function.update s.requests request (some ⟨claim, runtime⟩) }
    else s

/-- A request goes on with `next` if `allowed()` holds, and ends otherwise. -/
def check (request : ℕ) (next : Request → State → State) (s : State) : State :=
  match s.requests request with
  | none => s
  | some found =>
    if s.current found.session found.runtime s.clock then next found (s.accept found.session)
    else { s with requests := Function.update s.requests request none }

def renew (found : Request) (toRenew : ℕ) (s : State) : State :=
  let s := s.tick toRenew
  match renewedSession found.session s.clock with
  | none => s
  | some next => s.sign next (.renewed found.session next s.clock)

def switch (found : Request) (selected nonce : String) (toCurrent toSign : ℕ) (s : State) : State :=
  let s := s.tick toCurrent
  if s.current found.session selected s.clock then
    if s.running selected then
      let s := s.tick toSign
      let ticket := switchTicket s found.session selected nonce s.clock
      s.sign ticket (.switched found.session ticket)
    else s
  else s

def step (s : State) : Event → State
  | .tick milliseconds => s.tick milliseconds
  | .setEpoch actor epoch => { s with epoch := Function.update s.epoch actor epoch }
  | .setRuntimeEpoch runtime epoch =>
    { s with runtimeEpoch := Function.update s.runtimeEpoch runtime epoch }
  | .setAllowed actor runtime allowed =>
    let actors := Function.update (s.allowed actor) runtime allowed
    { s with allowed := Function.update s.allowed actor actors }
  | .setRunning runtime running => { s with running := Function.update s.running runtime running }
  | .console actor runtime nonce =>
    if s.allowed actor runtime ∧ s.running runtime then
      s.sign (consoleTicket s actor runtime nonce)
        (.issued (consoleTicket s actor runtime nonce))
    else s
  | .enter older token runtime toCurrent toSpend toNow =>
    enter older token runtime toCurrent toSpend toNow s
  | .arrive request token runtime toCurrent => arrive request token runtime toCurrent s
  | .check request => check request (fun _ s => s) s
  | .answer request toRenew => check request (fun found => renew found toRenew) s
  | .switch request selected nonce toCurrent toSign =>
    check request (fun found => switch found selected nonce toCurrent toSign) s

def machine (start : ℤ) : Machine State Event where
  initial := ⟨start, [], [], fun _ => 0, fun _ => 0, fun _ _ => false, fun _ => false,
    fun _ => none, []⟩
  step := step

end Sbarbase.Control.Studio
