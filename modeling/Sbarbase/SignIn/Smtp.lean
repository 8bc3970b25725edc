import Mathlib.Algebra.Order.Ring.Rat
import Sbarbase.Lib.Checked
import Sbarbase.Lib.Dict
import Sbarbase.Lib.Text
/-!
# Custom SMTP and the mail limits

`src/control/smtp.ts`: a save of the mail settings of one environment. Confirm
email and the mail limits are kept in the sign-in settings, and a mail file of an
earlier version still carries them.
-/

namespace Sbarbase.SignIn

open Lib Lib.Checked

/-- A member of a JSON object. A number written with a fraction or an exponent is
apart, for Python reads another type. -/
inductive Member
  | null
  | flag (value : Bool)
  | int (value : ℤ)
  | float (value : ℚ)
  | text (value : String)
  | nested
  deriving DecidableEq

inductive ConfigValue
  | flag (value : Bool)
  | number (value : ℤ)
  | text (value : String)
  deriving DecidableEq

abbrev Config := Dict String ConfigValue

abbrev MailFile := Dict String Member

/-- The sign-in settings, with the members that a mail save only copies apart. -/
structure SignInSettings (ρ : Type) where
  config : Config
  rest : ρ

/-! ## The shared settings -/

inductive Shared
  | confirm
  | sent
  | otp
  | verify
  | gap
  deriving DecidableEq

namespace Shared

def all : List Shared := [.confirm, .sent, .otp, .verify, .gap]

def field : Shared → String
  | .confirm => "confirm_email"
  | .sent => "rate_limit_email_sent"
  | .otp => "rate_limit_otp"
  | .verify => "rate_limit_verify"
  | .gap => "min_interval_seconds"

def key : Shared → String
  | .confirm => "MAILER_AUTOCONFIRM"
  | .sent => "RATE_LIMIT_EMAIL_SENT"
  | .otp => "RATE_LIMIT_OTP"
  | .verify => "RATE_LIMIT_VERIFY"
  | .gap => "SMTP_MAX_FREQUENCY"

def file : Shared → String
  | .confirm => "autoconfirm"
  | .sent => "rate_limit_email_sent"
  | .otp => "rate_limit_otp"
  | .verify => "rate_limit_verify"
  | .gap => "max_frequency"

def min : Shared → ℤ
  | .confirm => 0
  | .sent | .otp | .verify | .gap => 1

def max : Shared → ℤ
  | .confirm => 0
  | .sent | .otp | .verify => 1000000
  | .gap => 86400

/-- `DEFAULTS` -/
def fallback : Shared → ℤ
  | .confirm => 0
  | .sent | .otp | .verify => 30
  | .gap => 60

end Shared

def isWhole (digits : List Char) : Bool := digits ≠ [] && digits.all isDigit

/-- `wholeSeconds`: `^(\d+)s$`. -/
def wholeSeconds (text : String) : Option ℕ :=
  match text.toList.getLast? with
  | some 's' =>
    let digits := text.toList.dropLast
    if isWhole digits then some (decimal digits) else none
  | _ => none

/-- A JavaScript number that is whole. -/
def wholeNumber : Member → Option ℤ
  | .int n => some n
  | .float q => if q.den = 1 then some q.num else none
  | _ => none

/-- A number, or a text of digits. -/
def wholeMember : Member → Option ℤ
  | .text text => if isWhole text.toList then some (decimal text.toList) else none
  | member => wholeNumber member

def inRange (entry : Shared) (n : ℤ) : Bool := entry.min ≤ n && n ≤ entry.max

def fileValue (mail : Option MailFile) (entry : Shared) : Option ConfigValue :=
  match entry, mail.bind fun mail => mail.get entry.file with
  | .confirm, some (.flag value) => some (.flag value)
  | .confirm, _ => none
  | .gap, some (.text text) =>
    (((wholeSeconds text).map Int.ofNat).filter (inRange entry)).map .number
  | .gap, _ => none
  | _, value => ((value.bind wholeMember).filter (inRange entry)).map .number

/-! ## The view -/

/-- `MailLimits`, and whether there is a mail file and Confirm email was chosen. -/
structure SmtpView where
  enabled : Bool
  confirmEmail : Bool
  confirmEmailChosen : Bool
  limit : Shared → Option ℤ

/-- `limit` of `smtpView`. -/
def viewLimit (mail : Option MailFile) (config : Config) (entry : Shared) : Option ℤ :=
  match config.get entry.key with
  | some (.number n) => some n
  | _ =>
    if (mail.bind fun mail => mail.get entry.file).isSome then
      match fileValue mail entry with
      | some (.number n) => some n
      | _ => none
    else some entry.fallback

def smtpView (mail : Option MailFile) (config : Config) : SmtpView where
  enabled := mail.isSome
  confirmEmail :=
    match config.get Shared.confirm.key with
    | some (.flag autoconfirm) => !autoconfirm
    | _ => if mail.isSome then fileValue mail .confirm ≠ some (.flag true) else false
  confirmEmailChosen :=
    mail.isSome ||
      match config.get Shared.confirm.key with
      | some (.flag _) => true
      | _ => false
  limit := viewLimit mail config

/-! ## A save -/

/-- What a save says of a shared setting: nothing, back to the default, or a value. -/
abbrev Given := Dict String (Option ConfigValue)

/-- The member of a body for one shared setting. -/
def givenMember (entry : Shared) : Member → Except String (Option ConfigValue)
  | .null => .ok none
  | member =>
    match entry, member with
    | .confirm, .flag value => .ok (some (.flag !value))
    | .confirm, _ => .error entry.field
    | _, member =>
      match (wholeNumber member).filter (inRange entry) with
      | some n => .ok (some (.number n))
      | none => .error entry.field

def giveMember (body : Dict String Member) (given : Given) (entry : Shared) :
    Except String Given :=
  match body.get entry.field with
  | none => .ok given
  | some member => do
    let value ← givenMember entry member
    return given.set entry.key value

def sharedFromInput (body : Dict String Member) : Except String Given :=
  Shared.all.foldlM (giveMember body) ∅

/-! ### The mail file -/

/-- `cleanText` of a field, empty where `allowEmpty` says so. -/
def plain (value : Member) (field : String) (limit : ℕ) (allowEmpty : Bool) :
    Except String String :=
  match value with
  | .text text =>
    if utf16Length text ≤ limit ∧ (text = "" → allowEmpty = true) ∧
        (text.toList.all fun c => c ≠ '\r' ∧ c ≠ '\n' ∧ c ≠ '\x00') = true then .ok text
    else .error field
  | _ => .error field

/-- `[^@\s<>,;:"]` -/
def isAddressChar (c : Char) : Bool :=
  !isSpace c && c ∉ ['@', '<', '>', ',', ';', ':', '"']

/-- `ADDRESS`: one `@`, and a dot inside what follows it. -/
def isAddress (text : String) : Bool :=
  match text.toList.splitOn '@' with
  | [name, domain] =>
    name ≠ [] && name.all isAddressChar && domain.all isAddressChar &&
      (domain.drop 1).dropLast.contains '.'
  | _ => false

/-- `HOST` -/
def isHost (text : String) : Bool :=
  match text.toList with
  | [] => false
  | c :: rest =>
    isAlphanumeric c && rest.all fun c => isAlphanumeric c || c ∈ ['.', '_', '-']

/-- `internalHost`, of a host that matches `HOST`. -/
def internalHost (host : String) : Bool :=
  let name := host.toLower.toList
  let parts := (name.splitOn '.').map decimal
  isWhole name ||
    (name.take 2 = ['0', 'x'] && name.drop 2 ≠ [] && (name.drop 2).all isHex) ||
    name = "localhost".toList || ".localhost".toList <:+ name || "sbarbase-".toList <+: name ||
    (parts.length = 4 && (name.all fun c => isDigit c || c = '.') &&
      (parts.head? = some 127 || parts.head? = some 0 ||
        (parts.head? = some 169 && parts[1]? = some 254)))

def smtpFields : List String :=
  ["enabled", "admin_email", "sender_name", "host", "port", "user", "password", "base_revision"]

def mailInput : List String := smtpFields ++ Shared.all.map Shared.field

/-- `mail-defaults.json` less the shared settings. -/
def mailBase : MailFile :=
  [("reply_to", Member.text ""), ("otp_exp", .int 3600), ("otp_length", .int 6),
    ("secure_email_change", .flag true), ("rate_limit_header", .text ""),
    ("magic_link_template", .text "")].foldl (fun file member => file.set member.1 member.2) ∅

def maxMailBytes : ℕ := 8192

/-- `Buffer.byteLength(JSON.stringify(mail))` is `byteLength mail`. -/
def mailFromInput (byteLength : MailFile → ℕ) (body : Dict String Member)
    (current : Option MailFile) : Except String MailFile := do
  require (∀ name ∈ body.keys, name ∈ mailInput) "settings"
  let _ ← sharedFromInput body
  let admin ← plain ((body.get "admin_email").getD .null) "admin_email" 254 false
  let host ← plain ((body.get "host").getD .null) "host" 253 false
  require (isAddress admin = true) "admin_email"
  require (isHost host = true ∧ internalHost host = false) "host"
  let orEmpty (field : String) : Member :=
    match body.get field with
    | none | some .null => .text ""
    | some member => member
  let name ← plain (orEmpty "sender_name") "sender_name" 200 true
  require ((name.toList.all fun c => c ∉ ['<', '>', '"']) = true) "sender_name"
  let port ← found (((body.get "port").bind wholeNumber).filter fun n => 1 ≤ n && n ≤ 65535) "port"
  let user ← plain (orEmpty "user") "user" 512 true
  let given ← plain (orEmpty "password") "password" 1024 true
  let saved := match current.bind fun current => current.get "pass" with
    | some (.text pass) => pass
    | _ => ""
  let pass := if given ≠ "" then given else saved
  require (pass ≠ "") "password"
  let mail := ((((((current.getD ∅ ∪ mailBase).set "host" (.text host)).set "port"
    (.int port)).set "user" (.text user)).set "pass" (.text pass)).set "admin_email"
      (.text admin)).set "sender_name" (.text name)
  require (byteLength mail ≤ maxMailBytes) "settings"
  return mail

/-! ### The shared settings of a save -/

/-- The body of the first loop of `sharedSettings`. -/
def saveShared (given : Given) (before after : Option MailFile) (moving : Bool) (config : Config)
    (entry : Shared) : Config :=
  let enabling := before.isNone && after.isSome
  let disabling := before.isSome && after.isNone
  match given.get entry.key with
  | some none => config.delete entry.key
  | some (some value) => config.set entry.key value
  | none =>
    if moving = true ∧ config.get entry.key = none then
      let chosen := if entry = .confirm ∧ (disabling || enabling) = true
        then some (ConfigValue.flag false) else none
      match (fileValue before entry).or chosen with
      | some kept => config.set entry.key kept
      | none => config
    else config

/-- The body of the loop that takes the named settings out of the file. -/
def dropShared (given : Given) (config : Config) (file : MailFile) (entry : Shared) : MailFile :=
  if config.get entry.key ≠ none ∨ given.get entry.key ≠ none then file.delete entry.file else file

structure Plan (ρ : Type) where
  after : Option MailFile
  settings : Option (SignInSettings ρ)
  keys : List String

section

variable {ρ : Type} (baseSettings : ρ)

def sharedSettings (settings : Option (SignInSettings ρ)) (given : Given)
    (before after : Option MailFile) : Plan ρ :=
  let enabling := before.isNone && after.isSome
  let disabling := before.isSome && after.isNone
  let moving := settings.isSome || given.keys ≠ [] || enabling || disabling
  let saved := (settings.map SignInSettings.config).getD ∅
  let config := Shared.all.foldl (saveShared given before after moving) saved
  let file := after.map fun file => Shared.all.foldl (dropShared given config) file
  let keys := (Shared.all.map Shared.key).filter fun key => saved.get key ≠ config.get key
  if keys = [] then ⟨file, settings, keys⟩
  else ⟨file, some ⟨config, (settings.map SignInSettings.rest).getD baseSettings⟩, keys⟩

/-- `enabled` of a body, on unless it says otherwise. -/
def enabledMember : Option Member → Except String Bool
  | none => .ok true
  | some (.flag enabled) => .ok enabled
  | some _ => .error "enabled"

/-- `next` of the route: none for a mail file to remove. -/
def nextMail (byteLength : MailFile → ℕ) (enabled : Bool) (body : Dict String Member)
    (before : Option MailFile) : Except String (Option MailFile) :=
  if enabled then some <$> mailFromInput byteLength body before else .ok none

/-- What `settingsHandler` makes of a body: the files to write. -/
def smtpSave (byteLength : MailFile → ℕ) (body : Dict String Member)
    (settings : Option (SignInSettings ρ)) (before : Option MailFile) :
    Except String (Plan ρ) := do
  require (∀ name ∈ body.keys, name ∈ mailInput) "settings"
  let enabled ← enabledMember (body.get "enabled")
  let given ← sharedFromInput body
  let after ← nextMail byteLength enabled body before
  return sharedSettings baseSettings settings given before after

end

end Sbarbase.SignIn
