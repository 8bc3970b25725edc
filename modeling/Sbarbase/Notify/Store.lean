import Mathlib.Data.List.Sort
import Sbarbase.Control.Outbox
/-!
# The notification tables

Two programs work on one pair of tables. The catalog enqueues and has the
methods of a dispatcher, and the drain of the worker claims, settles, prunes and
enqueues its own events. The statements are the same in both; where one of them
checks its arguments first, the check stands in the method.

A claim is part of the stage of a delivery: every statement that leaves the
state `claimed` sets it to `NULL`, and no other writes it.
-/

namespace Sbarbase.Notify

open Lib Control

/-- `state`, with the columns that go with it. -/
inductive Stage
  | pending
  | claimed (claim : String) (claimAt : ℤ)
  | delivered (deliveredAt : ℤ)
  | failed
  deriving DecidableEq

/-- `state IN ('pending','claimed')` -/
def Stage.isOpen : Stage → Bool
  | .pending | .claimed _ _ => true
  | .delivered _ | .failed => false

/-- A row of `notification_delivery`. -/
structure Delivery where
  event : String
  channel : NotificationChannel
  stage : Stage
  attempts : ℕ
  nextAttemptAt : ℤ
  lastError : Option String
  deriving DecidableEq

def Delivery.key (row : Delivery) : String × NotificationChannel := (row.event, row.channel)

/-- The two tables, and how many identifiers were drawn for them. -/
structure Notifications where
  outbox : Table OutboxRow.id
  deliveries : Table Delivery.key
  drawn : ℕ

def Notifications.empty : Notifications := ⟨.empty, .empty, 0⟩

abbrev NotifyCall := Call Notifications String

def maxAttempts : ℕ := 8

def leaseMillis : ℤ := 30000

def backoffSeconds : List ℤ := [15, 60, 300, 1800, 7200]

/-- The wait after a failed attempt. -/
def backoffMs (attempts : ℕ) : ℤ :=
  backoffSeconds[min (max attempts 1) backoffSeconds.length - 1]?.getD 15 * 1000

/-! ## Statements -/

/-- `UPDATE notification_delivery`, with the number of rows it changed. -/
def update (p : Delivery → Bool) (f : Delivery → Delivery)
    (hf : ∀ row, (f row).key = row.key) : NotifyCall ℕ := do
  let s ← .read id
  .write fun s => { s with deliveries := s.deliveries.modify p f hf }
  return s.deliveries.rows.countP p

/-- `LIMIT`: a negative one is none. -/
def limited {α : Type} (limit : ℤ) (rows : List α) : List α :=
  if limit < 0 then rows else rows.take limit.toNat

/-- A delivery that waits for its time, or whose claim is older than the lease. -/
def Delivery.due (now leaseMs : ℤ) (row : Delivery) : Bool :=
  match row.stage with
  | .pending => row.nextAttemptAt ≤ now
  | .claimed _ claimAt => claimAt ≤ now - leaseMs
  | .delivered _ | .failed => false

/-- The deliveries that are due, with their events, the oldest event first. -/
def dueRows (s : Notifications) (now limit leaseMs : ℤ) : List (Delivery × OutboxRow) :=
  limited limit ((s.deliveries.rows.filterMap fun row =>
    if row.due now leaseMs then (s.outbox.get row.event).map (row, ·) else none).insertionSort
      fun a b => a.2.time ≤ b.2.time)

section

variable (uuid : ℕ → String)

def randomUUID : NotifyCall String := do
  let s ← .read id
  .write fun s => { s with drawn := s.drawn + 1 }
  return uuid s.drawn

/-! ## Claims -/

/-- A delivery as a dispatcher gets it. -/
structure Claimed where
  event : String
  channel : NotificationChannel
  claim : String
  attempts : ℕ
  row : OutboxRow
  deriving DecidableEq

def Claimed.key (item : Claimed) : String × NotificationChannel := (item.event, item.channel)

def claimRows (now : ℤ) : List (Delivery × OutboxRow) → NotifyCall (List Claimed)
  | [] => pure []
  | (delivery, event) :: rows => do
    let token ← randomUUID uuid
    let changes ← update (fun row => row.key = delivery.key && row.stage.isOpen)
      (fun row => { row with stage := .claimed token now, attempts := row.attempts + 1 })
      fun _ => rfl
    if changes = 1 then do
      let claims ← claimRows now rows
      return ⟨delivery.event, delivery.channel, token, delivery.attempts + 1, event⟩ :: claims
    else claimRows now rows

/-- The transaction of both claims. -/
def claimDue (now limit leaseMs : ℤ) : NotifyCall (List Claimed) :=
  .transaction do
    let s ← .read id
    claimRows uuid now (dueRows s now limit leaseMs)

/-- `claim` of the drain, which looks before it takes the write lock. -/
def claim (now limit leaseMs : ℤ) : NotifyCall (List Claimed) := do
  let s ← .read id
  if s.deliveries.rows.any (Delivery.due now leaseMs) then claimDue uuid now limit leaseMs
  else pure []

/-- `claimNotifications` of the catalog. -/
def claimNotifications (now limit leaseMs : ℤ) : NotifyCall (List Claimed) := do
  .require (1 ≤ limit ∧ limit ≤ 200) "Invalid notification limit"
  .require (1000 ≤ leaseMs) "Invalid notification lease"
  claimDue uuid now limit leaseMs

end

/-! ## Settlement -/

inductive Outcome
  | delivered
  | transient
  | failed
  deriving DecidableEq

/-- What `settle` reports. -/
inductive Settlement
  | delivered
  | pending
  | failed
  deriving DecidableEq

/-- `/^[a-z0-9_]{1,60}$/` -/
def isErrorToken : String → Bool :=
  let p := fun c => isLower c || isDigit c || c = '_'
  matchesRange p p 0 59

/-- `event=? AND channel=? AND claim=? AND state='claimed'` -/
def Delivery.heldBy (event : String) (channel : NotificationChannel) (claim : String)
    (row : Delivery) : Bool :=
  row.event = event && row.channel = channel &&
    match row.stage with
    | .claimed token _ => token = claim
    | .pending | .delivered _ | .failed => false

/-- A permanent refusal, or an exhausted retry budget. -/
def isPermanent (outcome : Outcome) (attempts : ℕ) : Bool :=
  outcome = .failed || maxAttempts ≤ attempts

/-- The transaction of both settlements. -/
def settleClaim (now : ℤ) (event : String) (channel : NotificationChannel) (claim : String)
    (outcome : Outcome) (error : Option String) : NotifyCall Settlement :=
  .transaction do
    if outcome = .delivered then do
      let changes ← update (Delivery.heldBy event channel claim)
        (fun row => { row with stage := .delivered now, lastError := none, nextAttemptAt := now })
        fun _ => rfl
      .require (changes = 1) "Stale notification claim"
      return .delivered
    else do
      let s ← .read id
      let row ← .found (s.deliveries.get (event, channel)) "Stale notification claim"
      let permanent := isPermanent outcome row.attempts
      let nextAttemptAt := if permanent then now else now + backoffMs row.attempts
      let changes ← update (Delivery.heldBy event channel claim)
        (fun row => { row with
          stage := if permanent then .failed else .pending, lastError := error, nextAttemptAt })
        fun _ => rfl
      .require (changes = 1) "Stale notification claim"
      return if permanent then .failed else .pending

/-- `settle` of the drain. -/
def settle (now : ℤ) (event : String) (channel : NotificationChannel) (claim : String)
    (outcome : Outcome) (error : Option String) : NotifyCall Settlement := do
  .require (error.all isErrorToken) "Invalid notification error token"
  settleClaim now event channel claim outcome error

/-- `settleNotification` of the catalog. -/
def settleNotification (now : ℤ) (event : String) (channel : NotificationChannel)
    (claim : String) (outcome : Outcome) (error : Option String) : NotifyCall Unit := do
  .require (error.all isErrorToken) "Invalid notification error token"
  (settleClaim now event channel claim outcome error).discard

/-- The messages of a channel that wait since before it was linked. -/
def discardNotificationBacklog (channel : NotificationChannel) (before : ℤ) : NotifyCall ℕ := do
  let s ← .read id
  update (fun row => row.channel = channel && row.stage = .pending &&
      s.outbox.rows.any fun event => event.id = row.event && event.time < before)
    (fun row => { row with stage := .failed, lastError := some "channel_disabled" }) fun _ => rfl

/-! ## Retention -/

/-- Expired events without an open delivery, the first to expire first. -/
def expiredRows (s : Notifications) (now limit : ℤ) : List OutboxRow :=
  limited limit ((s.outbox.rows.filter fun event => event.expiresAt < now &&
    !s.deliveries.rows.any fun row => row.event = event.id && row.stage.isOpen).insertionSort
      fun a b => a.expiresAt ≤ b.expiresAt)

def deleteEvent (event : OutboxRow) : NotifyCall Unit := do
  .write fun s => { s with deliveries := s.deliveries.keep fun row => row.event ≠ event.id }
  .write fun s => { s with outbox := s.outbox.keep fun row => row.id ≠ event.id }

/-- The transaction of both prunes. -/
def pruneExpired (now limit : ℤ) : NotifyCall ℕ :=
  .transaction do
    let s ← .read id
    let rows := expiredRows s now limit
    .forEach rows deleteEvent
    return rows.length

/-- `prune` of the drain. -/
def prune (now limit : ℤ) : NotifyCall ℕ := do
  let s ← .read id
  if s.outbox.rows.any fun event => event.expiresAt < now then pruneExpired now limit
  else pure 0

/-- `pruneNotifications` of the catalog. -/
def pruneNotifications (now limit : ℤ) : NotifyCall ℕ := do
  .require (1 ≤ limit ∧ limit ≤ 5000) "Invalid notification limit"
  pruneExpired now limit

end Sbarbase.Notify
