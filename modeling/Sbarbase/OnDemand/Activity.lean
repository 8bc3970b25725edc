import Sbarbase.Gateway.Concurrency
import Sbarbase.OnDemand.Policy
/-!
# When a service was last used

`src/gateway/activity.ts` keeps the last use of each service and the open
sockets in memory and writes the times to the catalog once a minute. Here it
runs beside the gate that counts the Edge Functions calls and the installation
whose sweep asks it, in one console process with one clock.

The gateway marks a use (`touch`) before a call enters the gate, so the two are
events of their own. The drain that precedes a stop is left out, `quietFor` does
not look at it.
-/

namespace Sbarbase.OnDemand

open Lib Control Gateway

/-! ## The times -/

/-- The fields of `ServiceActivity`. -/
structure Activity where
  last : Dict Key ℤ
  sockets : Dict String ℤ
  dirty : List Key
  startedAt : ℤ

/-- The constructor. -/
def Activity.started (now : ℤ) : Activity := ⟨∅, ∅, [], now⟩

/-- `catalog.saveServiceActivity`: a later time wins. -/
def saveServiceActivity (stored : Dict Key ℤ) (rows : List (Key × ℤ)) : Dict Key ℤ :=
  rows.foldl
    (fun stored row =>
      stored.set row.1 (((stored.get row.1).map fun last => max last row.2).getD row.2))
    stored

namespace Activity

variable (a : Activity) (now : ℤ)

def mark (key : Key) : Activity :=
  { a with
    last := a.last.set key now
    dirty := if key ∈ a.dirty then a.dirty else a.dirty ++ [key] }

def touch (key : Key) : Activity := a.mark now key

def socketOpened (runtime : String) : Activity :=
  mark { a with sockets := a.sockets.raise runtime } now (.realtime, runtime)

/-- The body of the function that `socketOpened` returns, on its first call. -/
def socketClosed (runtime : String) : Activity :=
  let remaining := (a.sockets.get runtime).getD 1 - 1
  let sockets :=
    if remaining > 0 then a.sockets.set runtime remaining else a.sockets.delete runtime
  mark { a with sockets } now (.realtime, runtime)

def openSockets (runtime : String) : ℤ := (a.sockets.get runtime).getD 0

/-- `stored` is what the catalog answered, nothing if it failed. -/
def lastUsed (stored : Option ℤ) (key : Key) : Option ℤ :=
  let best := max ((a.last.get key).getD 0) (stored.getD 0)
  if best > 0 then some best else none

def quietFor (inFlightCalls : String → ℤ) (stored : Option ℤ) (key : Key) (idleMs : ℤ) : Bool :=
  let inUse := if key.1 = .realtime then a.openSockets key.2 else inFlightCalls key.2
  if inUse > 0 then false
  else if now - a.startedAt < idleMs then false
  else (a.lastUsed stored key).all fun last => idleMs ≤ now - last

/-- The open sockets are marked once more. -/
def refresh : Activity :=
  a.sockets.keys.foldl (fun a runtime => a.mark now (.realtime, runtime)) a

/-- The rows that a flush saves. -/
def rows : List (Key × ℤ) := a.dirty.filterMap fun key => (a.last.get key).map fun last => (key, last)

/-- `flush`; `saved` says whether the catalog took the rows. -/
def flush (stored : Dict Key ℤ) (saved : Bool) : Activity × Dict Key ℤ :=
  let a := a.refresh now
  if saved = true then ({ a with dirty := [] }, saveServiceActivity stored a.rows) else (a, stored)

end Activity

/-! ## One console process -/

/-- The function that `socketOpened` returned, and whether it was called. -/
structure Socket where
  runtime : String
  closed : Bool
  deriving DecidableEq

structure Console where
  clock : ℤ
  installation : Installation
  gate : Concurrency.Gate
  activity : Activity
  opened : List Socket
  /-- The rows of `service_activity`. -/
  stored : Dict Key ℤ

inductive ConsoleEvent
  | pass (ms : ℕ)
  | touch (key : Key)
  | socketOpened (runtime : String)
  | socketClosed (socket : ℕ)
  | gate (event : Concurrency.Event)
  | flush (saved : Bool)
  | restart
  /-- `loaded` tells for which targets the stored time could be read. -/
  | sweep (ctx : Context) (running loaded : Target → Bool)
  /-- Any step of the installation but these two. -/
  | onDemand (event : Event)

namespace Console

def inFlightCalls (s : Console) (runtime : String) : ℤ := s.gate.inFlight runtime "functions"

/-- What the sweep asks about a target. -/
def quiet (s : Console) (loaded : Target → Bool) (target : Target) : Bool :=
  let key := (target.service, target.runtime)
  s.activity.quietFor s.clock s.inFlightCalls
    (if loaded target = true then s.stored.get key else none) key (target.idleMinutes * 60000)

/-- The returned function runs, once. -/
def close (s : Console) (id : ℕ) : Console :=
  match s.opened[id]? with
  | none => s
  | some socket =>
    if socket.closed then s
    else { s with
      opened := s.opened.set id { socket with closed := true }
      activity := s.activity.socketClosed s.clock socket.runtime }

/-- The sweep as a step of the installation. -/
def sweepEvent (s : Console) (ctx : Context) (running loaded : Target → Bool) : Event :=
  .sweep { ctx with now := s.clock } running (s.quiet loaded)

end Console

def consoleMachine (options : Options) (config : Concurrency.Config) :
    Machine Console ConsoleEvent where
  initial := ⟨0, (machine options).initial, .empty, .started 0, [], ∅⟩
  step s
    | .pass ms => { s with clock := s.clock + ms }
    | .touch key => { s with activity := s.activity.touch s.clock key }
    | .socketOpened runtime => { s with
        opened := s.opened ++ [⟨runtime, false⟩]
        activity := s.activity.socketOpened s.clock runtime }
    | .socketClosed socket => s.close socket
    | .gate event => { s with gate := Concurrency.step config.toSettings s.gate event }
    | .flush saved =>
      let (activity, stored) := s.activity.flush s.clock s.stored saved
      { s with activity, stored }
    | .restart => { s with
        installation := (machine options).step s.installation .restart
        gate := .empty
        activity := .started s.clock
        opened := [] }
    | .sweep ctx running loaded =>
      { s with
        installation := (machine options).step s.installation (s.sweepEvent ctx running loaded) }
    | .onDemand (.sweep ..) | .onDemand .restart => s
    | .onDemand event => { s with installation := (machine options).step s.installation event }

end Sbarbase.OnDemand
