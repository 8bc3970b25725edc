import Sbarbase.Notify.Events
/-!
# The drain

`drain` claims the deliveries that are due, sends one after the other, settles
each and escalates a delivery that failed for good. What the resource gates, the
renderer and the channels answer is part of an event.

`machine` lets any number of dispatchers, producers and prunes take turns on the
tables, one transaction at a time. `drainMachine` is the one drain of the worker
with the work list it has in hand, among the producers.
-/

namespace Sbarbase.Notify

open Lib Control

/-- `detail[field] = value` -/
def assign : Detail → String → DetailValue → Detail
  | [], field, value => [(field, value)]
  | entry :: detail, field, value =>
    if entry.1 = field then (field, value) :: detail else entry :: assign detail field value

/-- The fine reason of a coarse refusal, as the gates produced it. -/
def recordRefusalReason (item : Claimed) (produced : String) : NotifyCall Unit :=
  .when (item.row.kind = "provision.capacity_refused" ∧ item.row.reason = "unrecorded" ∧
      produced ≠ "unrecorded" ∧ produced ∈ notificationReasons)
    (.write fun s => { s with
      outbox := s.outbox.modify (fun row => row.id = item.event)
        (fun row => { row with
          reason := produced
          detail := assign item.row.detail "reason_source" (.text "admission_gate") })
        fun _ => rfl })

/-- A short error token as a reason of the vocabulary. -/
def failureReason : Option String → String
  | none => "unrecorded"
  | some error =>
    if "webhook_status".toList.isPrefixOf error.toList then "webhook_status"
    else if error = "smtp_timeout" ∨ error = "smtp_unreachable" then "smtp_temporary_failure"
    else if error ∈ notificationReasons then error else "unrecorded"

def channelFailed : String := "notifier.channel_failed"

def escalationKey (channel : NotificationChannel) : String :=
  "notifier.channel_failed|" ++ channelText channel

def escalationWindowSeconds : ℤ := 6 * 3600

section

variable (uuid : ℕ → String)

/-- One event for a failed channel, on the channels that are not the failed one. -/
def escalate (now : ℤ) (item : Claimed) (channels : List NotificationChannel)
    (error : Option String) : NotifyCall Bool := do
  let others := channels.filter (· ≠ item.channel)
  if others = [] then return false
  else do
    let _ ← .transaction (enqueue uuid now
      { kind := channelFailed, severity := .critical, dedupeKey := escalationKey item.channel
        subject := ⟨none, none, item.row.environment, item.row.runtime⟩, actor := "system"
        reason := failureReason error
        detail := [("channel", .text (channelText item.channel)),
          ("last_error", error.elim .null .text)] } others (some escalationWindowSeconds))
    return true

/-- One refusal event for a refused event, on every enabled channel. -/
def enqueueRedactionRefused (now : ℤ) (item : Claimed) (channels : List NotificationChannel) :
    NotifyCall Unit := do
  let _ ← .transaction (enqueue uuid now
    { kind := "notifier.redaction_refused", severity := .critical
      dedupeKey := "notifier.redaction_refused|" ++ item.event
      subject := ⟨none, none, item.row.environment, item.row.runtime⟩, actor := "system"
      reason := "redaction_refused"
      detail := [("refused_event", .text item.event), ("refused_kind", .text item.row.kind)] }
    channels none)

/-- What became of one message. -/
inductive Answer
  /-- The renderer threw. -/
  | unrendered
  /-- The message has a credential shape, so nothing was sent. -/
  | refused
  /-- The channel threw. -/
  | threw
  | sent (outcome : Outcome) (error : Option String)
  deriving DecidableEq

/-- One item of the work list, settled at `now` and escalated at `later`. -/
def drainItem (now later : ℤ) (item : Claimed) (produced : String)
    (channels : List NotificationChannel) (answer : Answer) : NotifyCall Unit := do
  recordRefusalReason item produced
  .require (answer ≠ .unrendered) "ValueError"
  if item.channel ∉ channels then
    (settle now item.event item.channel item.claim .failed (some "channel_disabled")).discard
  else
    match answer with
    | .refused => do
      let _ ← settle now item.event item.channel item.claim .failed (some "redaction_refused")
      enqueueRedactionRefused uuid later item channels
    | .sent outcome error => do
      let state ← settle now item.event item.channel item.claim outcome error
      .when (state = .failed ∧ error ≠ some "channel_disabled")
        (escalate uuid later item channels error).discard
    | .unrendered | .threw => .throw "Exception"

/-! ## Any number of dispatchers -/

/-- A transaction on the tables. -/
inductive Event
  | notify (ctx : Context) (kind : NotificationKind) (content : Content)
  | emit (now : ℤ) (content : Content)
  | claim (now limit leaseMs : ℤ)
  | claimNotifications (now limit leaseMs : ℤ)
  | settle (now : ℤ) (event : String) (channel : NotificationChannel) (claim : String)
      (outcome : Outcome) (error : Option String)
  | settleNotification (now : ℤ) (event : String) (channel : NotificationChannel)
      (claim : String) (outcome : Outcome) (error : Option String)
  | discardNotificationBacklog (channel : NotificationChannel) (before : ℤ)
  | prune (now limit : ℤ)
  | pruneNotifications (now limit : ℤ)
  | recordRefusalReason (item : Claimed) (produced : String)
  | escalate (now : ℤ) (item : Claimed) (channels : List NotificationChannel)
      (error : Option String)
  | enqueueRedactionRefused (now : ℤ) (item : Claimed) (channels : List NotificationChannel)

/-- The deliveries an event hands out. The other events hand out none. -/
def perform : Event → NotifyCall (List Claimed)
  | .notify ctx kind content => do let _ ← notify uuid ctx kind content; return []
  | .emit now content => do let _ ← emit uuid now content; return []
  | .claim now limit leaseMs => claim uuid now limit leaseMs
  | .claimNotifications now limit leaseMs => claimNotifications uuid now limit leaseMs
  | .settle now event channel claim outcome error => do
    let _ ← settle now event channel claim outcome error
    return []
  | .settleNotification now event channel claim outcome error => do
    settleNotification now event channel claim outcome error
    return []
  | .discardNotificationBacklog channel before => do
    let _ ← discardNotificationBacklog channel before
    return []
  | .prune now limit => do let _ ← prune now limit; return []
  | .pruneNotifications now limit => do let _ ← pruneNotifications now limit; return []
  | .recordRefusalReason item produced => do recordRefusalReason item produced; return []
  | .escalate now item channels error => do
    let _ ← escalate uuid now item channels error
    return []
  | .enqueueRedactionRefused now item channels => do
    enqueueRedactionRefused uuid now item channels
    return []

/-- The tables, with every delivery handed out so far, the latest first. -/
structure Dispatch where
  store : Notifications
  handed : List Claimed

/-- What the dispatchers of an event are handed. -/
def handedBy (outcome : Except String (List Claimed)) : List Claimed :=
  match outcome with
  | .ok claims => claims
  | .error _ => []

def machine : Machine Dispatch Event where
  initial := ⟨.empty, []⟩
  step s e :=
    let (outcome, store) := perform uuid e s.store
    ⟨store, (handedBy outcome).reverse ++ s.handed⟩

/-! ## The drain of the worker -/

/-- The tables, the work list of the drain and the clock, with every event
written so far. -/
structure Drain where
  store : Notifications
  work : List Claimed
  clock : ℤ
  created : List OutboxRow

inductive DrainEvent
  | wait (millis : ℕ)
  | notify (ctx : Context) (kind : NotificationKind) (content : Content)
  | emit (content : Content)
  | claim (limit leaseMs : ℤ)
  | item (produced : String) (channels : List NotificationChannel) (answer : Answer) (millis : ℕ)
  | prune (limit : ℤ)

/-- The events that a call wrote. -/
def newEvents (before after : Notifications) : List OutboxRow :=
  after.outbox.rows.filter fun row => before.outbox.rows.all fun old => old.id ≠ row.id

/-- The tables after a call, its new events recorded. -/
def Drain.call {α : Type} (s : Drain) (c : NotifyCall α) : Drain :=
  let store := c.after s.store
  { s with store, created := s.created ++ newEvents s.store store }

def drainMachine : Machine Drain DrainEvent where
  initial := ⟨.empty, [], 0, []⟩
  step s
    | .wait millis => { s with clock := s.clock + millis }
    | .notify ctx kind content => s.call (notify uuid { ctx with now := s.clock } kind content)
    | .emit content => s.call (emit uuid s.clock content)
    | .claim limit leaseMs =>
      if s.work = [] then
        let (outcome, store) := claim uuid s.clock limit leaseMs s.store
        { s with store, work := handedBy outcome }
      else s
    | .item produced channels answer millis =>
      match s.work with
      | [] => s
      | item :: work =>
        let later := s.clock + millis
        { s.call (drainItem uuid s.clock later item produced channels answer) with
          work, clock := later }
    | .prune limit => if s.work = [] then s.call (prune s.clock limit) else s

end

end Sbarbase.Notify
