import Mathlib.Data.Int.Order.Basic
import Sbarbase.Lib.Machine
import Sbarbase.Lib.Table
/-!
# Management admission

`ManagementSecurity` of `src/control/management-security.ts`: the policy, the
password and MFA grants of sessions, the epochs that end them and the epochs of
access tokens. Rate limits and leases do not take part in admission and are left
out. Times are seconds; `now` is the clock a call reads.
-/

namespace Sbarbase.Control

open Lib

/-- The row of `management_auth_policy`. -/
structure Policy where
  mfaRequired : Bool
  epoch : ℤ
  deriving DecidableEq

structure PasswordGrant where
  session : String
  actor : String
  password : ℤ
  epoch : ℤ
  policyEpoch : ℤ
  expires : ℤ
  deriving DecidableEq

structure MfaEpoch where
  actor : String
  epoch : ℤ
  revoked : ℤ
  deriving DecidableEq

structure MfaGrant where
  session : String
  actor : String
  factor : String
  verified : ℤ
  epoch : ℤ
  expires : ℤ
  deriving DecidableEq

structure TokenEpoch where
  actor : String
  epoch : ℤ
  deriving DecidableEq

structure ManagementSecurity where
  policy : Policy
  passwordGrants : Table PasswordGrant.session
  mfaEpochs : Table MfaEpoch.actor
  mfaGrants : Table MfaGrant.session
  tokenEpochs : Table TokenEpoch.actor

namespace ManagementSecurity

/-- The tables as the constructor makes them. -/
def empty : ManagementSecurity where
  policy := ⟨true, 0⟩
  passwordGrants := .empty
  mfaEpochs := .empty
  mfaGrants := .empty
  tokenEpochs := .empty

def setPolicy (security : ManagementSecurity) (required : Bool) : ManagementSecurity :=
  { security with policy := ⟨required, security.policy.epoch + 1⟩ }

def epoch (security : ManagementSecurity) (actor : String) : ℤ :=
  ((security.mfaEpochs.get actor).map MfaEpoch.epoch).getD 0

/-- `state?.revoked??0` -/
def revoked (security : ManagementSecurity) (actor : String) : ℤ :=
  ((security.mfaEpochs.get actor).map MfaEpoch.revoked).getD 0

def tokenEpoch (security : ManagementSecurity) (actor : String) : ℤ :=
  ((security.tokenEpochs.get actor).map TokenEpoch.epoch).getD 0

def grantPassword (security : ManagementSecurity) (actor session : String)
    (password expires epoch policyEpoch now : ℤ) : Bool × ManagementSecurity :=
  if security.epoch actor ≠ epoch ∨ security.policy.epoch ≠ policyEpoch then (false, security)
  else (true, { security with
    passwordGrants := (security.passwordGrants.keep fun row => !(row.expires ≤ now)).put
      ⟨session, actor, password, epoch, policyEpoch, expires⟩ })

def passwordGranted (security : ManagementSecurity) (actor session : String)
    (password now : ℤ) : Bool :=
  !security.policy.mfaRequired && security.passwordGrants.rows.any fun row =>
    row.actor = actor && row.session = session && row.password = password &&
      row.epoch = security.epoch actor && row.policyEpoch = security.policy.epoch &&
      row.expires > now

def grant (security : ManagementSecurity) (actor session factor : String)
    (verified expires epoch now : ℤ) : Bool × ManagementSecurity :=
  if security.epoch actor ≠ epoch ∨ verified ≤ security.revoked actor then (false, security)
  else (true, { security with
    mfaGrants := (security.mfaGrants.keep fun row => !(row.expires ≤ now)).put
      ⟨session, actor, factor, verified, epoch, expires⟩ })

def grantedFactor (security : ManagementSecurity) (actor session : String) (verified : ℤ)
    (factors : List String) (now : ℤ) : Option String :=
  match security.mfaGrants.rows.find? fun row =>
    row.actor = actor && row.session = session && row.verified = verified with
  | none => none
  | some row =>
    if row.expires > now ∧ row.epoch = security.epoch actor ∧ row.factor ∈ factors then
      some row.factor
    else none

def granted (security : ManagementSecurity) (actor session : String) (verified : ℤ)
    (factors : List String) (now : ℤ) : Bool :=
  (security.grantedFactor actor session verified factors now).isSome

/-- `INSERT … VALUES (actor,1,revoked) ON CONFLICT(actor) DO UPDATE SET epoch=epoch+1,…` -/
def raiseEpoch (security : ManagementSecurity) (actor : String) (first : ℤ)
    (next : ℤ → ℤ) : ManagementSecurity :=
  { security with
    mfaEpochs := security.mfaEpochs.put <|
      match security.mfaEpochs.get actor with
      | none => ⟨actor, 1, first⟩
      | some row => ⟨actor, row.epoch + 1, next row.revoked⟩ }

/-- The two `DELETE … WHERE actor=?`. -/
def dropGrants (security : ManagementSecurity) (actor : String) : ManagementSecurity :=
  { security with
    passwordGrants := security.passwordGrants.keep fun row => row.actor ≠ actor
    mfaGrants := security.mfaGrants.keep fun row => row.actor ≠ actor }

def promote (security : ManagementSecurity) (actor : String) : ManagementSecurity :=
  (security.raiseEpoch actor 0 id).dropGrants actor

def endSessions (security : ManagementSecurity) (actor : String) (now : ℤ) : ManagementSecurity :=
  (security.raiseEpoch actor now fun revoked => max revoked now).dropGrants actor

def revoke (security : ManagementSecurity) (actor : String) (now : ℤ) : ManagementSecurity :=
  let ended := security.endSessions actor now
  { ended with
    tokenEpochs := ended.tokenEpochs.put ⟨actor,
      match ended.tokenEpochs.get actor with
      | none => 1
      | some row => row.epoch + 1⟩ }

/-! ## The machine -/

inductive Event
  | grant (actor session factor : String) (verified expires epoch now : ℤ)
  | grantPassword (actor session : String) (password expires epoch policyEpoch now : ℤ)
  | promote (actor : String)
  | endSessions (actor : String) (now : ℤ)
  | revoke (actor : String) (now : ℤ)
  | setPolicy (required : Bool)
  deriving DecidableEq

def step (security : ManagementSecurity) : Event → ManagementSecurity
  | .grant actor session factor verified expires epoch now =>
    (security.grant actor session factor verified expires epoch now).2
  | .grantPassword actor session password expires epoch policyEpoch now =>
    (security.grantPassword actor session password expires epoch policyEpoch now).2
  | .promote actor => security.promote actor
  | .endSessions actor now => security.endSessions actor now
  | .revoke actor now => security.revoke actor now
  | .setPolicy required => security.setPolicy required

def machine : Machine ManagementSecurity Event := ⟨empty, step⟩

end ManagementSecurity

end Sbarbase.Control
