import Sbarbase.Notify.Store
/-!
# Producers

The two writers of events: `notify` of the catalog, whose checks are those of
`Outbox.checkNotification`, and `enqueue` of the drain, which `emit` and the
drain itself call. A condition whose window is open is counted and not written
again.
-/

namespace Sbarbase.Notify

open Lib Control

/-! ## The vocabulary of the drain -/

/-- `DETAIL_KEYS`, whose keys are `KINDS`. -/
def detailKeys : List (String × List String) :=
  [("provision.failed", ["failure", "attempt"]),
    ("provision.capacity_refused", ["failure", "attempt", "reason_source"]),
    ("provision.retry_limit", ["attempt", "reason_source"]),
    ("provision.retried", ["attempt", "reason_source"]),
    ("routing.paused", ["revision"]),
    ("routing.resumed", ["revision"]),
    ("membership.owner_changed", ["target", "role"]),
    ("project.ownership_changed", ["from", "to"]),
    ("notifier.channel_failed", ["channel", "last_error"]),
    ("notifier.redaction_refused", ["refused_event", "refused_kind"]),
    ("installation.started", ["stage"]),
    ("installation.stopped", ["stage"]),
    ("installation.start_failed", ["stage"]),
    ("worker.restart", ["restarts"]),
    ("worker.restart_limit", ["restarts"]),
    ("fence.applied", ["phase"]),
    ("fence.released", ["phase"]),
    ("backup.export_completed", ["phase"]),
    ("backup.export_failed", ["phase"]),
    ("backup.completed", ["environments"]),
    ("backup.failed", ["failed"]),
    ("restore.verified", ["status"]),
    ("restore.failed", ["status"]),
    ("environment.saturated", ["minutes", "refused", "peak", "guarantee"]),
    ("update.available", ["version", "class"]),
    ("update.applied", ["version", "trigger"]),
    ("update.rolled_back", ["version"]),
    ("update.rollback_failed", ["version"]),
    ("host.disk_low", ["filesystem", "available_mib", "percent"]),
    ("runtime.container_stopped", ["container", "minutes"]),
    ("service.unused", ["service", "days", "memory_mib"])]

/-- `CHANNELS` -/
def allChannels : List NotificationChannel := [.email, .webhook, .telegram]

def channelText : NotificationChannel → String
  | .email => "email"
  | .webhook => "webhook"
  | .telegram => "telegram"

/-! ## Credential shapes, as the drain reads them -/

/-- Lower case under `re.I`, where four more characters match `i`, `k` and `s`. -/
def foldCase (c : Char) : Char :=
  if c.toNat = 0x130 || c.toNat = 0x131 then 'i'
  else if c.toNat = 0x17f then 's'
  else if c.toNat = 0x212a then 'k'
  else c.toLower

/-- `$` also matches before a last line break. -/
def withoutLastBreak (chars : List Char) : List Char :=
  if chars.getLast? = some '\n' then chars.dropLast else chars

def credentialShape (value : String) : Bool :=
  let normalized := Outbox.withoutIdentifiers 0 value.toList
  (Outbox.credentialWords.any fun word =>
      occursIn word.toList (normalized.map foldCase)) ||
    occursIn "BEGIN PRIVATE KEY".toList normalized ||
    matchesParts Outbox.isToken 2 false (withoutLastBreak normalized) ||
    hasExactRun isAnyHex 64 0 normalized || hasRun Outbox.isToken 32 0 normalized

def hexDigit (n : ℕ) : Char := (Nat.digitChar (n % 16))

/-- `\uXXXX` -/
def escapeUnit (n : ℕ) : List Char :=
  ['\\', 'u', hexDigit (n / 4096), hexDigit (n / 256), hexDigit (n / 16), hexDigit n]

/-- One character of a text `json.dumps` writes. -/
def dumpsChar (c : Char) : List Char :=
  if c = '"' || c = '\\' then ['\\', c]
  else if c = '\n' then ['\\', 'n']
  else if c = '\r' then ['\\', 'r']
  else if c = '\t' then ['\\', 't']
  else if c.toNat = 8 then ['\\', 'b']
  else if c.toNat = 12 then ['\\', 'f']
  else if 0x20 ≤ c.toNat && c.toNat < 0x7f then [c]
  else if c.toNat < 0x10000 then escapeUnit c.toNat
  else escapeUnit (0xd800 + (c.toNat - 0x10000) / 0x400) ++
    escapeUnit (0xdc00 + (c.toNat - 0x10000) % 0x400)

def dumpsText (value : String) : String :=
  "\"" ++ String.ofList (value.toList.flatMap dumpsChar) ++ "\""

def dumpsValue : DetailValue → String
  | .null => "null"
  | .flag value => toString value
  | .number value => toString value
  | .text value => dumpsText value

/-- `json.dumps(detail)` -/
def dumps (detail : Detail) : String :=
  "\x7b" ++ ", ".intercalate (detail.map fun (field, value) =>
    dumpsText field ++ ": " ++ dumpsValue value) ++ "\x7d"

/-! ## Enqueue -/

/-- What the two writers put into a new event. -/
structure Content where
  kind : String
  severity : NotificationSeverity
  dedupeKey : String
  subject : NotificationSubject
  actor : String
  reason : String
  detail : Detail
  deriving DecidableEq

/-- The event of the condition whose window is open, the latest of them. -/
def openEvent (s : Notifications) (dedupeKey : String) (now : ℤ) : Option OutboxRow :=
  Outbox.latest (s.outbox.rows.filter fun row => row.dedupeKey = dedupeKey && row.windowUntil > now)

section

variable (uuid : ℕ → String)

def insertDelivery (event : String) (now : ℤ) (channel : NotificationChannel) :
    NotifyCall Unit := do
  let s ← .read id
  let deliveries ← .found (s.deliveries.insert ⟨event, channel, .pending, 0, now, none⟩)
    (uniqueFailed "notification_delivery.event, notification_delivery.channel")
  .write ({ · with deliveries })

/-- A new event with a delivery for every channel. -/
def insertEvent (now window : ℤ) (content : Content) (channels : List NotificationChannel) :
    NotifyCall String := do
  let identity ← randomUUID uuid
  let s ← .read id
  let outbox ← .found (s.outbox.insert
      { id := identity, time := now, lastAt := now, windowUntil := now + window * 1000
        occurrences := 1, kind := content.kind, severity := content.severity
        dedupeKey := content.dedupeKey, organization := content.subject.organization
        project := content.subject.project, environment := content.subject.environment
        runtime := content.subject.runtime, actor := content.actor, reason := content.reason
        detail := content.detail, expiresAt := now + Outbox.notificationRetentionMs })
    (uniqueFailed "notification_outbox.id")
  .write ({ · with outbox })
  .forEach channels (insertDelivery identity now)
  return identity

/-- Count an occurrence in the open window, or open a window with a new event. -/
def publish (now window : ℤ) (content : Content) (channels : List NotificationChannel) :
    NotifyCall String := do
  let s ← .read id
  match openEvent s content.dedupeKey now with
  | some event =>
    .write fun s => { s with
      outbox := s.outbox.modify (fun row => row.id = event.id)
        (fun row => { row with occurrences := row.occurrences + 1, lastAt := now }) fun _ => rfl }
    return event.id
  | none => insertEvent uuid now window content channels

/-- One field of the detail. -/
def checkField (allowed : List String) : String × DetailValue → NotifyCall Unit
  | (field, value) => do
    .require (field ∈ allowed) "Unexpected notification detail field"
    match value with
    | .text text => .require (text.length ≤ 200) "Invalid notification detail value"
    | .null => .throw "Invalid notification detail value"
    | .number _ | .flag _ => pure ()

/-- `enqueue`, in the transaction of its caller. -/
def enqueue (now : ℤ) (content : Content) (channels : List NotificationChannel)
    (windowSeconds : Option ℤ) : NotifyCall String := do
  let keys ← .found (detailKeys.lookup content.kind) "Notification vocabulary violation"
  .require (content.reason ∈ notificationReasons) "Notification vocabulary violation"
  let window := windowSeconds.getD (Outbox.windowSeconds content.severity)
  .require (0 < window) "Invalid notification window"
  .forEach content.detail (checkField keys)
  .require (keys.all fun field => content.detail.any fun entry => entry.1 = field)
    "Missing notification detail field"
  .require ((credentialShape content.dedupeKey || credentialShape (dumps content.detail)) = false)
    "Notification content refused"
  publish uuid now window content channels

/-- A field of the subject, as `emit` takes it. -/
def subjectField (value : Option String) : Bool :=
  value.all fun text => text ≠ "" && text.length ≤ 64

/-- `emit` of the producers outside the catalog. It reports no failure. -/
def emit (now : ℤ) (content : Content) : NotifyCall String := do
  let keys ← .found (detailKeys.lookup content.kind) "None"
  .require (content.reason ∈ notificationReasons) "None"
  .require (List.Perm (content.detail.map Prod.fst) keys) "None"
  .require (subjectField content.subject.organization && subjectField content.subject.project &&
    subjectField content.subject.environment && subjectField content.subject.runtime) "None"
  .require (content.subject.runtime.all isRuntime) "None"
  .require (content.actor ≠ "") "None"
  .transaction (enqueue uuid now content allChannels none)

/-- `notify` of the catalog, in the transaction of an operation. -/
def notify (ctx : Context) (kind : NotificationKind) (content : Content) : NotifyCall String :=
  .transaction do
    let _ ← .lift (Outbox.checkNotification ctx kind content.dedupeKey content.subject
      content.actor content.reason content.detail Catalog.empty).1
    publish uuid ctx.now (Outbox.windowSeconds content.severity)
      { content with kind := kind.text } ctx.channels

end

end Sbarbase.Notify
