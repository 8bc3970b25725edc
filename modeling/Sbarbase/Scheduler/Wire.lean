import Sbarbase.Lib.Bytes
import Sbarbase.Lib.Machine
/-!
# The messages of a wire session

The reading half of `WireSession` of `scheduler/wire.ts`: the socket feeds chunks,
and `next` takes messages off them, or skips them as they stream in. A call of
`next` goes from one `await` to the next.
-/

namespace Sbarbase.Scheduler.Wire

open Lib

def MAX_MESSAGE : ℤ := 2 * 1024 * 1024

/-- `head.readInt32BE(1)`, of a head of five bytes. -/
def readInt32BE (head : Bytes) : ℤ := int32BE (head.drop 1)

/-- `String.fromCharCode(head[0]!)` -/
def typeOf (head : Bytes) : Char := Char.ofNat (head.headD 0).toNat

structure Reader where
  chunks : List Bytes
  buffered : ℕ
  skipping : ℕ

namespace Reader

variable (r : Reader)

def feed (chunk : Bytes) : Reader :=
  if 0 < r.skipping then
    let skip := min r.skipping chunk.length
    let r := { r with skipping := r.skipping - skip }
    let chunk := chunk.drop skip
    if chunk.length = 0 then r
    else { r with chunks := r.chunks ++ [chunk], buffered := r.buffered + chunk.length }
  else { r with chunks := r.chunks ++ [chunk], buffered := r.buffered + chunk.length }

/-- The loop of `take` that copies the next `size` bytes. -/
def gather (size : ℕ) : List Bytes → Bytes × List Bytes
  | [] => ([], [])
  | chunk :: chunks =>
    if size = 0 then ([], chunk :: chunks)
    else
      let part := min chunk.length size
      if part = chunk.length then
        let (out, rest) := gather (size - part) chunks
        (chunk ++ out, rest)
      else (chunk.take part, chunk.drop part :: chunks)

def take (size : ℕ) : Option (Bytes × Reader) :=
  if r.buffered < size then none
  else
    match r.chunks with
    | [] => some ([], { r with buffered := r.buffered - size })
    | first :: rest =>
      if size ≤ first.length then
        some (first.take size,
          { r with
            chunks := if first.length = size then rest else first.drop size :: rest
            buffered := r.buffered - size })
      else
        let (out, chunks) := gather size r.chunks
        some (out, { r with chunks := chunks, buffered := r.buffered - size })

/-- The loop of `discard`. -/
def release (left : ℕ) : List Bytes → List Bytes
  | [] => []
  | chunk :: chunks =>
    if left = 0 then chunk :: chunks
    else if chunk.length ≤ left then release (left - chunk.length) chunks
    else chunk.drop left :: chunks

def discard (size : ℕ) : Reader :=
  let left := min size r.buffered
  { r with chunks := release left r.chunks, buffered := r.buffered - left }

end Reader

/-- What a call of `next` comes to. -/
inductive Result
  | message (type : Char) (body : Option Bytes)
  | malformed
  | closed
  deriving DecidableEq

/-- The `await` that the call of `next` is at, if there is one. -/
inductive Pending
  | idle
  | head (drop : Bool)
  | body (drop : Bool) (type : Char) (length : ℕ)
  deriving DecidableEq

/-- `stream` is what the socket fed so far, and `results` what the calls came to, each with its
choice. -/
structure State where
  reader : Reader
  closed : Bool
  pending : Pending
  stream : Bytes
  results : List (Bool × Result)

def State.initial : State := ⟨⟨[], 0, 0⟩, false, .idle, [], []⟩

def dropped (drop : Bool) (type : Char) (length : ℤ) : Bool :=
  drop && (type == 'D' || type == 'd' || type == 'N' || type == 'A') || decide (MAX_MESSAGE < length)

namespace State

variable (s : State)

/-- The call of `next` returns, or throws. -/
def settle (drop : Bool) (result : Result) : State :=
  { s with pending := .idle, results := s.results ++ [(drop, result)] }

/-- The body of a message that is kept. -/
def readBody (drop : Bool) (type : Char) (length : ℕ) : State :=
  if s.reader.buffered < length then
    if s.closed then s.settle drop .closed else { s with pending := .body drop type length }
  else
    match s.reader.take length with
    | none => s.settle drop (.message type none)
    | some (body, reader) => { s with reader := reader }.settle drop (.message type (some body))

/-- One turn of the loop of `next`. -/
def readHead (drop : Bool) : State :=
  if 5 ≤ s.reader.buffered then
    match s.reader.take 5 with
    | none => s
    | some (head, reader) =>
      let s := { s with reader := reader }
      let type := typeOf head
      let length := readInt32BE head - 4
      if length < 0 then s.settle drop .malformed
      else if dropped drop type length then
        let now := min length.toNat s.reader.buffered
        let reader := { s.reader.discard now with skipping := length.toNat - now }
        { s with reader := reader }.settle drop (.message type none)
      else s.readBody drop type length.toNat
  else if s.closed then s.settle drop .closed
  else { s with pending := .head drop }

/-- The call that waits is woken. -/
def wake : State :=
  match s.pending with
  | .idle => s
  | .head drop => s.readHead drop
  | .body drop type length => s.readBody drop type length

end State

inductive Event
  | feed (chunk : Bytes)
  | close
  | call (drop : Bool)
  | wake

/-- A closed socket feeds nothing, and a call waits for the one before it. -/
def step (s : State) : Event → State
  | .feed chunk =>
    if s.closed then s
    else { s with reader := s.reader.feed chunk, stream := s.stream ++ chunk }
  | .close => { s with closed := true }
  | .call drop => if s.pending = .idle then s.readHead drop else s
  | .wake => s.wake

def machine : Machine State Event where
  initial := .initial
  step := step

/-- The choice of the call that waits. -/
def Pending.choice : Pending → List Bool
  | .idle => []
  | .head drop | .body drop _ _ => [drop]

/-- The choices of the calls so far. -/
def State.calls (s : State) : List Bool := s.results.map Prod.fst ++ s.pending.choice

/-- The same stream in one chunk, with the same calls. -/
def State.whole (s : State) : List Event :=
  .feed s.stream :: (if s.closed then [.close] else []) ++ s.calls.map .call

end Sbarbase.Scheduler.Wire
