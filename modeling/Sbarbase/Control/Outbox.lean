import Sbarbase.Control.Access
/-!
# Operator events

`notify`: one event and its deliveries, in the transaction of the caller. A
content that looks like a credential, or a field the kind does not have, throws
before any row is written, and the caller's transaction with it.
-/

namespace Sbarbase.Control

open Lib

/-- The kinds the modelled operations produce. -/
inductive NotificationKind
  | provisionFailed
  | provisionCapacityRefused
  | provisionRetryLimit
  | provisionRetried
  | routingPaused
  | routingResumed
  | membershipOwnerChanged
  | projectOwnershipChanged
  deriving DecidableEq

def NotificationKind.text : NotificationKind → String
  | .provisionFailed => "provision.failed"
  | .provisionCapacityRefused => "provision.capacity_refused"
  | .provisionRetryLimit => "provision.retry_limit"
  | .provisionRetried => "provision.retried"
  | .routingPaused => "routing.paused"
  | .routingResumed => "routing.resumed"
  | .membershipOwnerChanged => "membership.owner_changed"
  | .projectOwnershipChanged => "project.ownership_changed"

/-- `NOTIFICATION_DETAIL_KEYS[kind]` -/
def NotificationKind.detailKeys : NotificationKind → List String
  | .provisionFailed => ["failure", "attempt"]
  | .provisionCapacityRefused => ["failure", "attempt", "reason_source"]
  | .provisionRetryLimit => ["attempt", "reason_source"]
  | .provisionRetried => ["attempt", "reason_source"]
  | .routingPaused => ["revision"]
  | .routingResumed => ["revision"]
  | .membershipOwnerChanged => ["target", "role"]
  | .projectOwnershipChanged => ["from", "to"]

def notificationReasons : List String :=
  ["runtime_failed", "retry_limit", "retry_requested", "owner_changed", "ownership_changed",
    "routing_paused", "routing_resumed", "installation_limit", "memory_headroom",
    "disk_headroom", "inode_headroom", "measurement_unavailable", "cpu_some10", "io_full10",
    "memory_full10", "connection_budget", "unrecorded", "webhook_unreachable",
    "webhook_timeout", "webhook_status", "smtp_refused", "smtp_temporary_failure",
    "channel_disabled", "redaction_refused", "operator_request", "installation_failed",
    "worker_restart", "worker_restart_limit", "export_completed", "export_failed",
    "restore_verified", "restore_failed", "environment_saturated", "telegram_unreachable",
    "telegram_status", "update_available", "update_applied", "update_rolled_back",
    "update_rollback_failed", "disk_low", "container_stopped", "service_unused"]

structure NotificationSubject where
  organization : Option String
  project : Option String
  environment : Option String
  runtime : Option String
  deriving DecidableEq

namespace Outbox

/-! ## Credential shapes -/

/-- `[A-Za-z0-9_-]` -/
def isToken (c : Char) : Bool := isAlphanumeric c || c = '_' || c = '-'

/-- The length of a catalog identifier the text begins with, or zero. -/
def identifierLength (chars : List Char) : ℕ :=
  let digits := (chars.drop 2).take 24
  if ['e', '_'].isPrefixOf chars && digits.length = 24 && digits.all isHex then 26
  else if matchesGroups isHex [8, 4, 4, 4, 12] (chars.take 36) then 36
  else 0

/-- `value.replace(NOTIFICATION_IDENTIFIER,'id')`, with `skip` characters of a match to go. -/
def withoutIdentifiers (skip : ℕ) : List Char → List Char
  | [] => []
  | c :: chars =>
    if 0 < skip then withoutIdentifiers (skip - 1) chars
    else
      match identifierLength (c :: chars) with
      | 0 => c :: withoutIdentifiers 0 chars
      | n + 1 => 'i' :: 'd' :: withoutIdentifiers n chars

/-- The shapes that ignore case, in lower case. -/
def credentialWords : List String :=
  ["postgres://", "postgresql://", "sb_publishable_", "sb_secret_", "password=", "apikey",
    "authorization:"]

def credentialShape (value : String) : Bool :=
  let normalized := withoutIdentifiers 0 value.toList
  (credentialWords.any fun word => occursIn word.toList (normalized.map Char.toLower)) ||
    occursIn "BEGIN PRIVATE KEY".toList normalized || matchesParts isToken 2 false normalized ||
    hasExactRun isAnyHex 64 0 normalized || hasRun isToken 32 0 normalized

/-! ## The content of an event -/

/-- A JSON text, the characters below a space being refused before. -/
def quote (value : String) : String :=
  "\"" ++ String.ofList (value.toList.flatMap fun c =>
    if c = '"' || c = '\\' then ['\\', c] else [c]) ++ "\""

def valueText : DetailValue → String
  | .null => "null"
  | .flag value => toString value
  | .number value => toString value
  | .text value => quote value

/-- `JSON.stringify(payload)` -/
def stringify (detail : Detail) : String :=
  "\x7b" ++ ",".intercalate (detail.map fun (field, value) =>
    quote field ++ ":" ++ valueText value) ++ "\x7d"

def notificationText (field value : String) (maxLength : ℕ) : CatalogCall Unit :=
  .require (value ≠ "" ∧ utf16Length value ≤ maxLength ∧ hasCharUpTo 0x1f value = false)
    ("Invalid notification text: " ++ field)

def notificationSubject (field : String) : Option String → CatalogCall Unit
  | none => pure ()
  | some value => notificationText field value 64

/-- One field of the detail. -/
def checkField (allowed : List String) : String × DetailValue → CatalogCall Unit
  | (field, .text value) => do
    .require (field ∈ allowed) "Unexpected notification detail field"
    notificationText field value 200
  | (field, .null) => do
    .require (field ∈ allowed) "Unexpected notification detail field"
    .throw "Invalid notification detail value"
  | (field, .number _) => .require (field ∈ allowed) "Unexpected notification detail field"
  | (field, .flag _) => .require (field ∈ allowed) "Unexpected notification detail field"

/-- `NOTIFICATION_WINDOW_SECONDS` -/
def windowSeconds : NotificationSeverity → ℤ
  | .info => 3600
  | .warning => 1800
  | .critical => 300

def notificationRetentionMs : ℤ := 30 * 24 * 60 * 60 * 1000

/-- The latest of the rows, by the time of their event. -/
def latest (rows : List OutboxRow) : Option OutboxRow :=
  rows.foldl (fun best row =>
    match best with
    | none => some row
    | some old => if old.time < row.time then some row else some old) none

/-- The event of the condition whose window is open. -/
def openEvent (c : Catalog) (key : String) (now : ℤ) : Option OutboxRow :=
  latest (c.outbox.rows.filter fun row => row.dedupeKey = key && row.windowUntil > now)

variable (ctx : Context)

/-- What `notify` refuses. It writes nothing. -/
def checkNotification (kind : NotificationKind) (dedupeKey : String)
    (subject : NotificationSubject) (actor : String) (reason : String) (detail : Detail) :
    CatalogCall Unit := do
  .require (reason ∈ notificationReasons) "Invalid notification reason"
  Access.actor ctx actor
  notificationText "dedupe_key" dedupeKey 200
  .forEach detail (checkField kind.detailKeys)
  .require (kind.detailKeys.all fun field => detail.any fun entry => entry.1 = field)
    "Missing notification detail field"
  notificationSubject "organization" subject.organization
  notificationSubject "project" subject.project
  notificationSubject "environment" subject.environment
  notificationSubject "runtime" subject.runtime
  .require (subject.runtime.all isRuntime) "Invalid notification subject"
  .require ((credentialShape dedupeKey || credentialShape (stringify detail) ||
      [subject.organization, subject.project, subject.environment, subject.runtime].any
        (Option.any credentialShape)) = false)
    "Notification content refused"

/-- A new event with a delivery for every channel. -/
def insertEvent (row : OutboxRow) : CatalogCall Unit := do
  let c ← .read id
  let outbox ← .found (c.outbox.insert row) (uniqueFailed "notification_outbox.id")
  .write ({ · with outbox })
  .forEach ctx.channels fun channel => do
    let c ← .read id
    let deliveries ← .found (c.deliveries.insert ⟨row.id, channel, .pending, 0, ctx.now⟩)
      (uniqueFailed "notification_delivery.event, notification_delivery.channel")
    .write ({ · with deliveries })

def notify (kind : NotificationKind) (severity : NotificationSeverity) (dedupeKey : String)
    (subject : NotificationSubject) (actor : String) (reason : String) (detail : Detail) :
    CatalogCall String := do
  checkNotification ctx kind dedupeKey subject actor reason detail
  let c ← .read id
  match openEvent c dedupeKey ctx.now with
  | some event =>
    .write fun c => { c with
      outbox := c.outbox.modify (fun row => row.id = event.id)
        (fun row => { row with occurrences := row.occurrences + 1, lastAt := ctx.now })
        fun _ => rfl }
    return event.id
  | none =>
    insertEvent ctx
      { id := ctx.event, time := ctx.now, lastAt := ctx.now
        windowUntil := ctx.now + windowSeconds severity * 1000
        occurrences := 1, kind := kind.text, severity, dedupeKey
        organization := subject.organization, project := subject.project
        environment := subject.environment, runtime := subject.runtime
        actor, reason, detail, expiresAt := ctx.now + notificationRetentionMs }
    return ctx.event

end Outbox

def notificationScope (c : Catalog) (environment organization runtime : String) :
    NotificationSubject where
  organization := some organization
  project := (c.environments.get environment).map Environment.project
  environment := some environment
  runtime := some runtime

end Sbarbase.Control
