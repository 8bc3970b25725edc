import Sbarbase.SignIn.Smtp
/-!
# The environment of Auth

`auth_configuration` of `lab/run.py` with the mail file as `lab/mail_config.py`
reads it and the sign-in settings as `configuration` of `lab/auth_settings.py`
writes them: the variables that a mail file and the sign-in settings share. The
other variables have other names, and the checks on the other members of a mail
file decide only whether there is an environment.
-/

namespace Sbarbase.SignIn

open Lib

/-! ## The mail file -/

/-- Where the pattern of a duration stands after a character. -/
inductive DurationState
  | start
  | digits
  /-- After `n` or `u`. -/
  | half
  /-- After `m`, which `ms` begins with. -/
  | minute
  | complete
  deriving DecidableEq

def DurationState.next : DurationState → Char → Option DurationState
  | .half, c => if c = 's' then some .complete else none
  | .digits, c =>
    if isDigit c then some .digits
    else if c = 'n' ∨ c = 'u' then some .half
    else if c = 'm' then some .minute
    else if c = 's' ∨ c = 'h' then some .complete
    else none
  | .minute, c => if c = 's' then some .complete else if isDigit c then some .digits else none
  | .start, c | .complete, c => if isDigit c then some .digits else none

/-- `DURATION`: `(?:[0-9]+(?:ns|us|ms|s|m|h))+`. -/
def isDuration (text : List Char) : Bool :=
  match text.foldlM DurationState.next .start with
  | some .minute | some .complete => true
  | _ => false

/-- `RATE`: digits, with a duration after a slash or without. -/
def isRate (text : List Char) : Bool :=
  match text.splitOn '/' with
  | [count] => isWhole count
  | [count, duration] => isWhole count && isDuration duration
  | _ => false

/-- The members of a validated mail file that the sign-in settings share. -/
structure SharedMail where
  maxFrequency : String
  autoconfirm : Bool
  rateLimitEmailSent : String
  rateLimitOtp : ℤ
  rateLimitVerify : ℤ
  deriving DecidableEq

/-- `OPTIONAL`: what an absent member stands for. -/
def optional : Shared → Member
  | .confirm => .flag false
  | .sent => .text "30"
  | .otp | .verify => .int 30
  | .gap => .text "60s"

/-- Kind `flag` -/
def checkFlag : Member → Option Bool
  | .flag value => some value
  | _ => none

/-- Kind `duration`: above zero, so some digit is. -/
def checkDuration : Member → Option String
  | .text text =>
    if isDuration text.toList ∧ (text.toList.any fun c => isDigit c && c ≠ '0') = true then
      some text
    else none
  | _ => none

/-- Kind `rate` -/
def checkRate : Member → Option String
  | .text text => if isRate text.toList then some text else none
  | .int n => if isRate (toString n).toList then some (toString n) else none
  | _ => none

/-- Kind `positive` -/
def checkPositive : Member → Option ℤ
  | .int n => if 1 ≤ n then some n else none
  | _ => none

/-- The shared members in `validate`. -/
def validateMail (file : MailFile) : Option SharedMail := do
  let member (entry : Shared) : Member := (file.get entry.file).getD (optional entry)
  let maxFrequency ← checkDuration (member .gap)
  let autoconfirm ← checkFlag (member .confirm)
  let rateLimitEmailSent ← checkRate (member .sent)
  let rateLimitOtp ← checkPositive (member .otp)
  let rateLimitVerify ← checkPositive (member .verify)
  return { maxFrequency, autoconfirm, rateLimitEmailSent, rateLimitOtp, rateLimitVerify }

/-! ## The sign-in settings -/

/-- `validate` of a shared setting. -/
def validShared (entry : Shared) : ConfigValue → Bool
  | .flag _ => entry = .confirm
  | .number n => entry ≠ .confirm && inRange entry n
  | .text _ => false

/-- The shared settings in `validate`. -/
def ValidConfig (config : Config) : Prop :=
  ∀ entry, ∀ value ∈ config.get entry.key, validShared entry value = true

def lowerBool (value : Bool) : String := if value then "true" else "false"

def emitSuffix (key : String) : String := if key = Shared.gap.key then "s" else ""

/-- The text of a setting in the environment. -/
def emit (key : String) : ConfigValue → String
  | .flag value => lowerBool value
  | .number n => toString n ++ emitSuffix key
  | .text text => text ++ emitSuffix key

/-- `configuration`, of the `config` members. -/
def configuration (settings : Option Config) : Dict String String :=
  (settings.getD ∅).entries.foldl
    (fun env entry => env.set ("GOTRUE_" ++ entry.1) (emit entry.1 entry.2)) ∅

/-! ## Both -/

def Shared.envVariable (entry : Shared) : String := "GOTRUE_" ++ entry.key

def sharedWithMail : List String := Shared.all.map Shared.envVariable

/-- What a mail file says of a shared variable. -/
def SharedMail.value (mail : SharedMail) : Shared → String
  | .confirm => lowerBool mail.autoconfirm
  | .sent => mail.rateLimitEmailSent
  | .otp => toString mail.rateLimitOtp
  | .verify => toString mail.rateLimitVerify
  | .gap => mail.maxFrequency

/-- `auth_configuration`; `signIn ∪ config` is `config.update(signIn)`. -/
def authConfiguration (settings : Option Config) (mail : Option SharedMail) :
    Dict String String :=
  let signIn := configuration settings
  let config := signIn ∪ (∅ : Dict String String).set Shared.confirm.envVariable "true"
  match mail with
  | none => config
  | some mail =>
    let config := Shared.all.foldl
      (fun config entry => config.set entry.envVariable (mail.value entry)) config
    signIn.filter (fun name _ => name ∈ sharedWithMail) ∪ config

end Sbarbase.SignIn
