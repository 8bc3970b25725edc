import Sbarbase.Lib.Machine
import Sbarbase.Lib.Number
import Sbarbase.Lib.Tally
/-!
# The concurrency gate

`ConcurrencyGate` of `src/gateway/concurrency.ts` as a machine. Every method of
the class and every callback it leaves behind (a settled promise, a timer, an
abort listener, a stream callback) runs to its next `await` without being
interrupted, so each of them is one event. Between two events anything else may
happen: a list of events is an interleaving.

The record `Gate` holds the fields of the class, the state its closures capture,
and `history`, which the code does not keep: what each event did, newest first.
-/

namespace Sbarbase.Gateway.Concurrency

open Lib

/-! ## Settings -/

/-- Borrowing above an environment's guaranteed share. -/
structure BorrowPolicy where
  ceiling : ℤ
  headroom : ℤ
  recentMs : Option ℤ
  deriving DecidableEq

/-- The arguments of the constructor that limit the gate. -/
structure Settings where
  perEnvironment : ℤ
  maximum : ℤ
  responseTimeoutMs : ℤ
  forwardTimeoutMs : ℤ
  borrow : Option BorrowPolicy
  deriving DecidableEq

/-- A whole number above zero. -/
def isPositive (value : ℤ) : Bool := isSafeInteger value && 0 < value

def BorrowPolicy.valid (policy : BorrowPolicy) (perEnvironment maximum : ℤ) : Bool :=
  isSafeInteger policy.ceiling && isSafeInteger policy.headroom &&
    perEnvironment ≤ policy.ceiling && policy.ceiling ≤ maximum &&
    0 ≤ policy.headroom && policy.headroom < maximum &&
    policy.recentMs.all isPositive

/-- The checks of the constructor, with the text it throws. -/
def Settings.check (s : Settings) : Except String Unit :=
  if !([s.perEnvironment, s.maximum, s.responseTimeoutMs, s.forwardTimeoutMs].all isPositive) then
    .error "Invalid concurrency limits"
  else if !(s.borrow.all fun policy => policy.valid s.perEnvironment s.maximum) then
    .error "Invalid borrow policy"
  else .ok ()

/-- Settings a gate exists for: the constructor did not throw. -/
structure Config extends Settings where
  checked : toSettings.check = .ok ()

/-- The constructor without arguments. -/
def Config.defaults : Config where
  perEnvironment := 8
  maximum := 32
  responseTimeoutMs := 30000
  forwardTimeoutMs := 30000
  borrow := none
  checked := by decide

/-- What a call of the share source ends with. A number that is not whole is
treated as `undefined` is. -/
inductive ShareAnswer
  | number (share : ℤ)
  | undefined
  | throws
  deriving DecidableEq

/-! ## Calls in flight -/

/-- The `budget` argument of `run`. -/
structure Budget where
  service : String
  maximum : ℤ
  drainOnCancel : Bool
  deadlineMs : Option ℤ
  deriving DecidableEq

/-- The body of an upstream response. A `locked` body makes `getReader` throw;
with an `unwrappable` one the final `new Response` throws. -/
inductive Body
  | none
  | locked
  | stream
  | unwrappable
  deriving DecidableEq

/-- How the promise of `forward` settles. -/
inductive Upstream
  | response (body : Body)
  | rejected
  deriving DecidableEq

/-- What `stop` was called with: 408 by the client's abort, 504 by the timer. -/
inductive Interruption
  | cancelled
  | deadline
  deriving DecidableEq

def Interruption.status : Interruption → ℕ
  | .cancelled => 408
  | .deadline => 504

/-- What `Promise.race([pending, interrupted])` settled with. -/
inductive RaceResult
  | upstream (settled : Upstream)
  | interrupted (interruption : Interruption)
  deriving DecidableEq

/-- How far `run` got. In `forwarding` the race may be decided before the
continuation after the `await` runs. In `streaming` the body is in the hands of
the client, with the flags `finished` and `draining` of the code. -/
inductive Phase
  | forwarding (race : Option RaceResult)
  | streaming (finished draining : Bool)
  | returned
  deriving DecidableEq

/-- The variables one call of `run` leaves in its closures. -/
structure Call where
  environment : String
  budget : Option Budget
  released : Bool
  /-- The upstream signal was aborted by `stop`. -/
  abandoned : Bool
  /-- The promise of `forward` has settled. -/
  settled : Bool
  /-- `request.signal.aborted`. -/
  aborted : Bool
  phase : Phase
  deriving DecidableEq

/-- The promise of one `waitForDrain`: `set` is the set of callbacks it was
added to. -/
structure Waiter where
  environment : String
  lease : ℕ
  set : ℕ
  result : Option Bool
  deriving DecidableEq

/-! ## Answers -/

/-- Why `run` answers without forwarding. -/
inductive Refusal
  | paused
  | cancelled
  | invalidMaximum
  | invalidDeadline
  | serviceFull
  | atShare
  | full
  deriving DecidableEq

def Refusal.status : Refusal → ℕ
  | .paused | .invalidMaximum | .invalidDeadline | .full => 503
  | .cancelled => 408
  | .serviceFull | .atShare => 429

def Refusal.message : Refusal → String
  | .paused => "Environment temporarily paused"
  | .cancelled => "Request cancelled"
  | .invalidMaximum => "Invalid service capacity"
  | .invalidDeadline => "Invalid service deadline"
  | .serviceFull | .atShare | .full => "Request capacity unavailable. Retry later."

/-- The value of `retry-after`, where the answer carries one. -/
def Refusal.retryAfter : Refusal → Option String
  | .paused | .serviceFull | .atShare | .full => some "1"
  | .cancelled | .invalidMaximum | .invalidDeadline => none

/-- What an event did. -/
inductive Effect
  /-- `run` reached `this.seen.set(environment,now)`. -/
  | asked (environment : String) (now : ℤ)
  | refused (environment : String) (refusal : Refusal)
  | admitted (call : ℕ) (environment : String) (borrowed : Bool)
  | released (call : ℕ)
  /-- `run` answered 408 or 504 after the call was admitted. -/
  | interrupted (call : ℕ) (interruption : Interruption)
  /-- The body of an answer that came after the call was abandoned. -/
  | lateBodyCancelled (call : ℕ)
  | leased (lease : ℕ) (environment : String)
  | waiting (waiter : ℕ)
  | settled (waiter : ℕ) (drained : Bool)
  | resumed (lease : ℕ)
  | threw (message : String)
  deriving DecidableEq

/-! ## The state -/

structure Gate where
  total : ℤ
  paused : Dict String ℕ
  drainWaiters : Dict String ℕ
  services : Dict (String × String) ℤ
  active : Dict String ℤ
  refused : Dict String ℤ
  squeezed : Dict String ℤ
  peaks : Dict String ℤ
  seen : Dict String ℤ
  shareOf : Option (String → ShareAnswer)
  /-- One entry for each admitted call, in order of admission. -/
  calls : List Call
  /-- The environment of each lease, in order of issue. -/
  leases : List String
  waiters : List Waiter
  /-- The sets of drain callbacks, each with the waiters in it. -/
  sets : List (List ℕ)
  history : List Effect

def Gate.empty : Gate where
  total := 0
  paused := ∅
  drainWaiters := ∅
  services := ∅
  active := ∅
  refused := ∅
  squeezed := ∅
  peaks := ∅
  seen := ∅
  shareOf := none
  calls := []
  leases := []
  waiters := []
  sets := []
  history := []

/-- Note an effect. -/
def Gate.note (g : Gate) (effect : Effect) : Gate :=
  { g with history := effect :: g.history }

/-- `this.active.get(environment)??0`. -/
def Gate.activeOf (g : Gate) (environment : String) : ℤ :=
  (g.active.get environment).getD 0

/-- The number under `inFlight`. -/
def Gate.inFlight (g : Gate) (environment service : String) : ℤ :=
  (g.services.get (environment, service)).getD 0

/-! ## Admission -/

/-- `guarantee`: the share the source names, or the default. -/
def guarantee (c : Settings) (shareOf : Option (String → ShareAnswer)) (environment : String) : ℤ :=
  match shareOf with
  | none => c.perEnvironment
  | some source =>
    match source environment with
    | .number share =>
      if isSafeInteger share && 1 ≤ share && share ≤ c.maximum then share else c.perEnvironment
    | .undefined | .throws => c.perEnvironment

/-- The unused part of an environment's share. -/
def unused (c : Settings) (g : Gate) (environment : String) : ℤ :=
  max 0 (guarantee c g.shareOf environment - g.activeOf environment)

/-- `this.borrow?.recentMs??60_000`. -/
def recentMs (c : Settings) : ℤ := (c.borrow.bind BorrowPolicy.recentMs).getD 60000

def headroom (c : Settings) : ℤ := (c.borrow.map BorrowPolicy.headroom).getD 0

/-- The entries of `seen` that `reserve` does not delete. -/
def stillSeen (c : Settings) (g : Gate) (now : ℤ) : Dict String ℤ :=
  g.seen.filter fun _ seenAt => !(seenAt < now - recentMs c)

/-- Slots a borrow must leave free. -/
def reserve (c : Settings) (g : Gate) (environment : String) (now : ℤ) : ℤ :=
  max (headroom c)
    ((stillSeen c g now).entries.map fun entry =>
      if entry.1 ≠ environment then unused c g entry.1 else 0).sum

inductive Admission
  | granted
  | tooMany
  | unavailable
  deriving DecidableEq

/-- `admission`, with the gate after the deletions of `reserve`. -/
def admission (c : Settings) (g : Gate) (environment : String) (count : ℤ) (serviceFull : Bool)
    (now : ℤ) : Admission × Gate :=
  if serviceFull then (.tooMany, g)
  else
    let share := guarantee c g.shareOf environment
    if count < share then (if g.total ≥ c.maximum then .unavailable else .granted, g)
    else
      match c.borrow with
      | none => (.tooMany, g)
      | some policy =>
        if count ≥ max policy.ceiling share then (.tooMany, g)
        else
          let kept := { g with seen := stillSeen c g now }
          if c.maximum - g.total > reserve c g environment now then (.granted, kept)
          else (.tooMany, kept)

/-- Charge a refused neighbour to every environment above its share. -/
def squeeze (c : Settings) (g : Gate) : Gate :=
  { g with
    squeezed := g.active.entries.foldl
      (fun squeezed entry =>
        if entry.2 > guarantee c g.shareOf entry.1 then squeezed.raise entry.1 else squeezed)
      g.squeezed }

/-- The admitted branch of `run`, up to the call of `forward`. -/
def admitCall (c : Settings) (g : Gate) (environment : String) (budget : Option Budget) : Gate :=
  let count := g.activeOf environment
  let peak := (g.peaks.get environment).getD 0
  { g with
    active := g.active.set environment (count + 1)
    total := g.total + 1
    peaks := if count + 1 > peak then g.peaks.set environment (count + 1) else g.peaks
    services := match budget with
      | none => g.services
      | some budget => g.services.set (environment, budget.service)
          (g.inFlight environment budget.service + 1)
    calls := g.calls ++ [{
      environment := environment
      budget := budget
      released := false
      abandoned := false
      settled := false
      aborted := false
      phase := .forwarding none }]
    history := .admitted g.calls.length environment
      (!(count < guarantee c g.shareOf environment)) :: g.history }

/-- The first checks of `run`, before anything is counted. -/
def refusedEarly (g : Gate) (environment : String) (aborted : Bool) (budget : Option Budget) :
    Option Refusal :=
  if g.paused.has environment then some .paused
  else if aborted then some .cancelled
  else
    match budget with
    | none => none
    | some budget =>
      if !isPositive budget.maximum then some .invalidMaximum
      else if !(budget.deadlineMs.all isPositive) then some .invalidDeadline
      else none

/-- `!!budget&&serviceCount>=budget.maximum`. -/
def serviceFull (g : Gate) (environment : String) (budget : Option Budget) : Bool :=
  match budget with
  | none => false
  | some budget => g.inFlight environment budget.service ≥ budget.maximum

/-- `const now=this.now();this.seen.set(environment,now);`. -/
def ask (g : Gate) (environment : String) (now : ℤ) : Gate :=
  { g with
    seen := g.seen.set environment now
    history := .asked environment now :: g.history }

/-- `run`, from its call to its first `await`. -/
def run (c : Settings) (g : Gate) (environment : String) (aborted : Bool) (budget : Option Budget)
    (now : ℤ) : Gate :=
  match refusedEarly g environment aborted budget with
  | some refusal => g.note (.refused environment refusal)
  | none =>
    let full := serviceFull g environment budget
    let g := ask g environment now
    match admission c g environment (g.activeOf environment) full now with
    | (.granted, g) => admitCall c g environment budget
    | (.tooMany, g) =>
      if full then g.note (.refused environment .serviceFull)
      else { g with refused := g.refused.raise environment }.note (.refused environment .atShare)
    | (.unavailable, g) => (squeeze c g).note (.refused environment .full)

/-! ## Drain waiters -/

/-- `finish` of a waiter: it leaves its set, an empty set leaves the map, and the
promise settles. -/
def finishWaiter (g : Gate) (id : ℕ) (drained : Bool) : Gate :=
  match g.waiters[id]? with
  | none => g
  | some waiter =>
    let members := (g.sets[waiter.set]?.getD []).erase id
    { g with
      waiters := g.waiters.set id { waiter with result := some drained }
      sets := g.sets.set waiter.set members
      drainWaiters := if members = [] then g.drainWaiters.delete waiter.environment
        else g.drainWaiters
      history := .settled id drained :: g.history }

/-- `done`: the waiter is told that a slot was freed or its lease resumed. -/
def doneWaiter (g : Gate) (id : ℕ) : Gate :=
  match g.waiters[id]? with
  | none => g
  | some waiter =>
    finishWaiter g id
      (g.activeOf waiter.environment = 0 && g.paused.get waiter.environment = some waiter.lease)

/-- `notifyDrain`: every callback of the set the map holds now. -/
def notifyDrain (g : Gate) (environment : String) : Gate :=
  match g.drainWaiters.get environment with
  | none => g
  | some set => (g.sets[set]?.getD []).foldl doneWaiter g

def pause (g : Gate) (environment : String) : Gate :=
  if environment = "" || g.paused.has environment then
    g.note (.threw "Environment already paused or invalid")
  else
    { g with
      paused := g.paused.set environment g.leases.length
      leases := g.leases ++ [environment]
      history := .leased g.leases.length environment :: g.history }

/-- `waitForDrain` of a lease. -/
def waitForDrain (g : Gate) (lease : ℕ) (timeoutMs : ℤ) : Gate :=
  match g.leases[lease]? with
  | none => g
  | some environment =>
    if !isSafeInteger timeoutMs || timeoutMs < 1 then g.note (.threw "Invalid drain deadline")
    else if g.paused.get environment ≠ some lease then g.note (.threw "Pause lease expired")
    else
      let id := g.waiters.length
      if g.activeOf environment = 0 then
        -- `Promise.resolve(true)`: the waiter is settled when it is made and is in no set
        { g with
          waiters := g.waiters ++ [⟨environment, lease, g.sets.length, some true⟩]
          history := .settled id true :: .waiting id :: g.history }
      else
        match g.drainWaiters.get environment with
        | some set =>
          { g with
            waiters := g.waiters ++ [⟨environment, lease, set, none⟩]
            sets := g.sets.set set (g.sets[set]?.getD [] ++ [id])
            history := .waiting id :: g.history }
        | none =>
          { g with
            waiters := g.waiters ++ [⟨environment, lease, g.sets.length, none⟩]
            sets := g.sets ++ [[id]]
            drainWaiters := g.drainWaiters.set environment g.sets.length
            history := .waiting id :: g.history }

/-- The timer of a waiter, which `finish` clears. -/
def drainDeadline (g : Gate) (id : ℕ) : Gate :=
  match g.waiters[id]? with
  | none => g
  | some waiter => if waiter.result = none then finishWaiter g id false else g

/-- `resume` of a lease. -/
def resume (g : Gate) (lease : ℕ) : Gate :=
  match g.leases[lease]? with
  | none => g
  | some environment =>
    if g.paused.get environment ≠ some lease then g.note (.threw "Pause lease expired")
    else
      notifyDrain
        { g with
          paused := g.paused.delete environment
          history := .resumed lease :: g.history }
        environment

/-! ## The life of an admitted call -/

/-- Write one call back. -/
def Gate.setCall (g : Gate) (id : ℕ) (call : Call) : Gate :=
  { g with calls := g.calls.set id call }

/-- The counters of `release`, with the call marked. -/
def uncount (g : Gate) (id : ℕ) (call : Call) : Gate :=
  { g with
    calls := g.calls.set id { call with released := true }
    total := g.total - 1
    services := match call.budget with
      | none => g.services
      | some budget => g.services.lower (call.environment, budget.service)
    active := g.active.lower call.environment
    history := .released id :: g.history }

def release (g : Gate) (id : ℕ) : Gate :=
  match g.calls[id]? with
  | none => g
  | some call =>
    if call.released then g
    else
      let freed := uncount g id call
      if (freed.active.get call.environment).isNone then notifyDrain freed call.environment
      else freed

/-- `stop`: the race settles unless it has, and the upstream signal is aborted. -/
def stop (g : Gate) (id : ℕ) (interruption : Interruption) : Gate :=
  match g.calls[id]? with
  | none => g
  | some call =>
    match call.phase with
    | .forwarding race =>
      g.setCall id { call with
        abandoned := true
        phase := .forwarding (race <|> some (.interrupted interruption)) }
    | .streaming .. | .returned => g

/-- `if(abandoned)void response.body?.cancel()`. -/
def cancelLate (g : Gate) (id : ℕ) (settled : Upstream) (abandoned : Bool) : Gate :=
  match settled, abandoned with
  | .response _, true => g.note (.lateBodyCancelled id)
  | .response _, false | .rejected, _ => g

/-- The promise of `forward` settles. A promise settles once. -/
def upstreamSettles (g : Gate) (id : ℕ) (settled : Upstream) : Gate :=
  match g.calls[id]? with
  | none => g
  | some call =>
    if call.settled then g
    else
      let g := cancelLate g id settled call.abandoned
      match call.phase with
      | .forwarding race =>
        g.setCall id { call with
          settled := true
          phase := .forwarding (race <|> some (.upstream settled)) }
      | .streaming .. | .returned => g.setCall id { call with settled := true }

/-- `finish` of a response body. -/
def finishBody (g : Gate) (id : ℕ) : Gate :=
  match g.calls[id]? with
  | none => g
  | some call =>
    match call.phase with
    | .streaming false draining =>
      release (g.setCall id { call with phase := .streaming true draining }) id
    | .streaming true _ | .forwarding _ | .returned => g

/-- The code after `await Promise.race`. -/
def continueRun (g : Gate) (id : ℕ) : Gate :=
  match g.calls[id]? with
  | none => g
  | some call =>
    let returned := g.setCall id { call with phase := .returned }
    let streaming := g.setCall id { call with phase := .streaming false false }
    match call.phase with
    | .forwarding (some (.interrupted interruption)) => (release returned id).note (.interrupted id interruption)
    | .forwarding (some (.upstream .rejected)) => release returned id
    | .forwarding (some (.upstream (.response .none))) => release returned id
    | .forwarding (some (.upstream (.response .locked))) => release returned id
    | .forwarding (some (.upstream (.response .stream))) =>
      if call.aborted then finishBody streaming id else streaming
    | .forwarding (some (.upstream (.response .unwrappable))) =>
      -- the body, its timer and its listener exist before `new Response` throws
      release (if call.aborted then finishBody streaming id else streaming) id
    | .forwarding none | .streaming .. | .returned => g

/-- The client's signal aborts: `cancelled` while forwarding, `abort` while
streaming. -/
def clientAborts (g : Gate) (id : ℕ) : Gate :=
  match g.calls[id]? with
  | none => g
  | some call =>
    if call.aborted then g
    else finishBody (stop (g.setCall id { call with aborted := true }) id .cancelled) id

/-- What a read of the upstream body settles with. -/
inductive ReadItem
  | chunk
  | done
  | error
  deriving DecidableEq

/-- The read of `pull` settles. While a cancelled body drains only an error
counts, the end is left to the drain. -/
def pullSettles (g : Gate) (id : ℕ) (item : ReadItem) : Gate :=
  match g.calls[id]? with
  | none => g
  | some call =>
    match call.phase, item with
    | .streaming false false, .done => finishBody g id
    | .streaming false _, .error => finishBody g id
    | _, _ => g

/-- The client cancels the body it was given. -/
def consumerCancels (g : Gate) (id : ℕ) : Gate :=
  match g.calls[id]? with
  | none => g
  | some call =>
    match call.phase with
    | .streaming finished _ =>
      if call.budget.any Budget.drainOnCancel then g.setCall id { call with phase := .streaming finished true }
      else finishBody g id
    | .forwarding _ | .returned => g

/-- A read of the background drain settles. -/
def drainSettles (g : Gate) (id : ℕ) (item : ReadItem) : Gate :=
  match g.calls[id]? with
  | none => g
  | some call =>
    match call.phase, item with
    | .streaming _ true, .done => finishBody g id
    | .streaming _ true, .error => finishBody g id
    | _, _ => g

/-- `pressure`: a new sample starts. -/
def pressure (g : Gate) : Gate :=
  { g with refused := ∅, squeezed := ∅, peaks := ∅ }

/-! ## The machine -/

inductive Event
  | arrive (environment : String) (aborted : Bool) (budget : Option Budget) (now : ℤ)
  | useShares (shareOf : Option (String → ShareAnswer))
  | upstreamSettles (call : ℕ) (settled : Upstream)
  | headerDeadline (call : ℕ)
  | clientAborts (call : ℕ)
  | continueRun (call : ℕ)
  | pullSettles (call : ℕ) (item : ReadItem)
  | consumerCancels (call : ℕ)
  | drainSettles (call : ℕ) (item : ReadItem)
  | bodyDeadline (call : ℕ)
  | pause (environment : String)
  | waitForDrain (lease : ℕ) (timeoutMs : ℤ)
  | drainDeadline (waiter : ℕ)
  | resume (lease : ℕ)
  | pressure

def step (c : Settings) (g : Gate) : Event → Gate
  | .arrive environment aborted budget now => run c g environment aborted budget now
  | .useShares shareOf => { g with shareOf := shareOf }
  | .upstreamSettles call settled => upstreamSettles g call settled
  | .headerDeadline call => stop g call .deadline
  | .clientAborts call => clientAborts g call
  | .continueRun call => continueRun g call
  | .pullSettles call item => pullSettles g call item
  | .consumerCancels call => consumerCancels g call
  | .drainSettles call item => drainSettles g call item
  | .bodyDeadline call => finishBody g call
  | .pause environment => pause g environment
  | .waitForDrain lease timeoutMs => waitForDrain g lease timeoutMs
  | .drainDeadline waiter => drainDeadline g waiter
  | .resume lease => resume g lease
  | .pressure => pressure g

/-- The gate built with `c`. -/
def machine (c : Config) : Machine Gate Event where
  initial := Gate.empty
  step := step c.toSettings

end Sbarbase.Gateway.Concurrency
