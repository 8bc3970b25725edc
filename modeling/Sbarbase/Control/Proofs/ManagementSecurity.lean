import Sbarbase.Control.ManagementSecurity
/-!
# Grants end with their sessions

A grant that is honoured was recorded after the last promotion, sign out or
revocation of its actor, a password grant also after the last change of policy.
A verification that began before such a step records nothing when it finishes.
Only the MFA path compares the time of the verification with the clock of the
revocations. A password login is tied to them by the epochs alone.
-/

namespace Sbarbase.Control.Proofs.ManagementSecurity

open Lib Control Control.ManagementSecurity

/-- The event ends the sessions of `actor`. -/
def Ends (actor : String) : Event → Prop
  | .promote other => other = actor
  | .endSessions other _ => other = actor
  | .revoke other _ => other = actor
  | .grant .. | .grantPassword .. | .setPolicy .. => False

instance (actor : String) : DecidablePred (Ends actor)
  | .promote other => inferInstanceAs (Decidable (other = actor))
  | .endSessions other _ => inferInstanceAs (Decidable (other = actor))
  | .revoke other _ => inferInstanceAs (Decidable (other = actor))
  | .grant .. | .grantPassword .. | .setPolicy .. => inferInstanceAs (Decidable False)

def SetsPolicy : Event → Prop
  | .setPolicy _ => True
  | .grant .. | .grantPassword .. | .promote _ | .endSessions .. | .revoke .. => False

instance : DecidablePred SetsPolicy
  | .setPolicy _ => inferInstanceAs (Decidable True)
  | .grant .. | .grantPassword .. | .promote _ | .endSessions .. | .revoke .. =>
    inferInstanceAs (Decidable False)

/-- The event revokes the access tokens of `actor`. -/
def Revokes (actor : String) : Event → Prop
  | .revoke other _ => other = actor
  | .grant .. | .grantPassword .. | .promote _ | .endSessions .. | .setPolicy _ => False

instance (actor : String) : DecidablePred (Revokes actor)
  | .revoke other _ => inferInstanceAs (Decidable (other = actor))
  | .grant .. | .grantPassword .. | .promote _ | .endSessions .. | .setPolicy _ =>
    inferInstanceAs (Decidable False)

/-- The event records the MFA grant `row`. -/
def Grants (security : ManagementSecurity) (e : Event) (row : MfaGrant) : Prop :=
  ∃ now, e = .grant row.actor row.session row.factor row.verified row.expires row.epoch now ∧
    (security.grant row.actor row.session row.factor row.verified row.expires row.epoch now).1

/-- The event records the password grant `row`. -/
def GrantsPassword (security : ManagementSecurity) (e : Event) (row : PasswordGrant) : Prop :=
  ∃ now, e = .grantPassword row.actor row.session row.password row.expires row.epoch
      row.policyEpoch now ∧
    (security.grantPassword row.actor row.session row.password row.expires row.epoch
      row.policyEpoch now).1

section

variable (security : ManagementSecurity)

/-! ## Recording -/

theorem grant_iff (actor session factor : String) (verified expires epoch now : ℤ) :
    (security.grant actor session factor verified expires epoch now).1 = true ↔
      security.epoch actor = epoch ∧ security.revoked actor < verified := by
  unfold grant
  split_ifs with h
  · simp only [false_iff]
    omega
  · simp only [true_iff]
    omega

theorem grantPassword_iff (actor session : String) (password expires epoch policyEpoch now : ℤ) :
    (security.grantPassword actor session password expires epoch policyEpoch now).1 = true ↔
      security.epoch actor = epoch ∧ security.policy.epoch = policyEpoch := by
  unfold grantPassword
  split_ifs with h
  · simp only [false_iff]
    omega
  · simp only [true_iff]
    omega

/-- What refuses a grant leaves the tables alone. -/
theorem grant_refused {actor session factor : String} {verified expires epoch now : ℤ}
    (h : security.epoch actor ≠ epoch ∨ verified ≤ security.revoked actor) :
    security.grant actor session factor verified expires epoch now = (false, security) :=
  if_pos h

theorem grantPassword_refused {actor session : String} {password expires epoch policyEpoch now : ℤ}
    (h : security.epoch actor ≠ epoch ∨ security.policy.epoch ≠ policyEpoch) :
    security.grantPassword actor session password expires epoch policyEpoch now =
      (false, security) :=
  if_pos h

/-- A grant writes its own table only. -/
theorem grant_writes (actor session factor : String) (verified expires epoch now : ℤ) :
    ∃ grants, (security.grant actor session factor verified expires epoch now).2 =
      { security with mfaGrants := grants } := by
  unfold grant
  split_ifs
  · exact ⟨security.mfaGrants, rfl⟩
  · exact ⟨_, rfl⟩

theorem grantPassword_writes (actor session : String) (password expires epoch policyEpoch now : ℤ) :
    ∃ grants, (security.grantPassword actor session password expires epoch policyEpoch now).2 =
      { security with passwordGrants := grants } := by
  unfold grantPassword
  split_ifs
  · exact ⟨security.passwordGrants, rfl⟩
  · exact ⟨_, rfl⟩

/-! ## Epochs -/

theorem get_raiseEpoch (actor other : String) (first : ℤ) (next : ℤ → ℤ) :
    (security.raiseEpoch actor first next).mfaEpochs.get other =
      if actor = other then
        some (match security.mfaEpochs.get actor with
          | none => ⟨actor, 1, first⟩
          | some row => ⟨actor, row.epoch + 1, next row.revoked⟩)
      else security.mfaEpochs.get other := by
  unfold raiseEpoch
  cases hget : security.mfaEpochs.get actor with
  | none => rw [Table.get_put]
  | some row => rw [Table.get_put]

theorem epoch_raiseEpoch (actor other : String) (first : ℤ) (next : ℤ → ℤ) :
    (security.raiseEpoch actor first next).epoch other =
      security.epoch other + if actor = other then 1 else 0 := by
  rw [ManagementSecurity.epoch, ManagementSecurity.epoch, get_raiseEpoch]
  split_ifs with hsame
  · subst hsame
    cases security.mfaEpochs.get actor <;> simp
  · simp

theorem epoch_step (e : Event) (actor : String) :
    (step security e).epoch actor = security.epoch actor + if Ends actor e then 1 else 0 := by
  cases e with
  | grant other session factor verified expires epoch now =>
      obtain ⟨grants, h⟩ := grant_writes security other session factor verified expires epoch now
      simp [step, h, Ends, ManagementSecurity.epoch]
  | grantPassword other session password expires epoch policyEpoch now =>
      obtain ⟨grants, h⟩ :=
        grantPassword_writes security other session password expires epoch policyEpoch now
      simp [step, h, Ends, ManagementSecurity.epoch]
  | setPolicy => simp [Ends, step, setPolicy, ManagementSecurity.epoch]
  | promote other => exact epoch_raiseEpoch security other actor 0 id
  | endSessions other now => exact epoch_raiseEpoch security other actor now (max · now)
  | revoke other now => exact epoch_raiseEpoch security other actor now (max · now)

theorem epoch_le_step (e : Event) (actor : String) :
    security.epoch actor ≤ (step security e).epoch actor := by
  rw [epoch_step]
  split_ifs <;> omega

theorem policy_step (e : Event) : (step security e).policy.epoch =
      security.policy.epoch + if SetsPolicy e then 1 else 0 := by
  cases e with
  | grant actor session factor verified expires epoch now =>
      obtain ⟨grants, h⟩ := grant_writes security actor session factor verified expires epoch now
      simp [step, h, SetsPolicy]
  | grantPassword actor session password expires epoch policyEpoch now =>
      obtain ⟨grants, h⟩ :=
        grantPassword_writes security actor session password expires epoch policyEpoch now
      simp [step, h, SetsPolicy]
  | setPolicy => rfl
  | promote actor => exact (Int.add_zero _).symm
  | endSessions actor now => exact (Int.add_zero _).symm
  | revoke actor now => exact (Int.add_zero _).symm

theorem policy_le_step (e : Event) : security.policy.epoch ≤ (step security e).policy.epoch := by
  rw [policy_step]
  split_ifs <;> omega

/-- The token epoch of an actor moves on its revocations and on nothing else. -/
theorem tokenEpoch_step (e : Event) (actor : String) : (step security e).tokenEpoch actor =
      security.tokenEpoch actor + if Revokes actor e then 1 else 0 := by
  cases e with
  | grant other session factor verified expires epoch now =>
      obtain ⟨grants, h⟩ := grant_writes security other session factor verified expires epoch now
      simp [step, h, Revokes, ManagementSecurity.tokenEpoch]
  | grantPassword other session password expires epoch policyEpoch now =>
      obtain ⟨grants, h⟩ :=
        grantPassword_writes security other session password expires epoch policyEpoch now
      simp [step, h, Revokes, ManagementSecurity.tokenEpoch]
  | setPolicy => exact (Int.add_zero _).symm
  | promote other => exact (Int.add_zero _).symm
  | endSessions other now => exact (Int.add_zero _).symm
  | revoke other now =>
      have htokens : (security.endSessions other now).tokenEpochs = security.tokenEpochs := rfl
      simp only [ManagementSecurity.tokenEpoch, step, revoke, htokens, Table.get_put]
      by_cases hsame : other = actor
      · rw [if_pos hsame, if_pos (show Revokes actor (.revoke other now) from hsame), hsame]
        cases security.tokenEpochs.get actor <;> simp
      · rw [if_neg hsame, if_neg (show ¬ Revokes actor (.revoke other now) from hsame),
          Int.add_zero]

/-! ## Grants -/

theorem mfaGrants_step (e : Event) (row : MfaGrant)
    (hrow : row ∈ (step security e).mfaGrants.rows) :
    (row ∈ security.mfaGrants.rows ∧ ¬ Ends row.actor e) ∨ Grants security e row := by
  have hdrop : ∀ (s : ManagementSecurity) (actor : String),
      row ∈ (s.dropGrants actor).mfaGrants.rows → row ∈ s.mfaGrants.rows ∧ ¬ actor = row.actor := by
    intro s actor hmem
    obtain ⟨hold, hne⟩ := Table.mem_keep.mp hmem
    exact ⟨hold, fun h => (of_decide_eq_true hne) h.symm⟩
  cases e with
  | grant actor session factor verified expires epoch now =>
      by_cases hok : (security.grant actor session factor verified expires epoch now).1 = true
      · have hchecks := (grant_iff security actor session factor verified expires epoch now).mp hok
        rw [step, grant, if_neg (by omega)] at hrow
        rcases Table.mem_put.mp hrow with hnew | ⟨hold, _⟩
        · subst hnew
          exact .inr ⟨now, rfl, hok⟩
        · exact .inl ⟨(Table.mem_keep.mp hold).1, id⟩
      · have hchecks := (grant_iff security actor session factor verified expires epoch now).not.mp hok
        rw [step, grant, if_pos (by omega)] at hrow
        exact .inl ⟨hrow, id⟩
  | grantPassword actor session password expires epoch policyEpoch now =>
      simp only [step, grantPassword] at hrow
      split_ifs at hrow <;> exact .inl ⟨hrow, id⟩
  | setPolicy required => exact .inl ⟨hrow, id⟩
  | promote actor => exact .inl (hdrop _ actor hrow)
  | endSessions actor now => exact .inl (hdrop _ actor hrow)
  | revoke actor now => exact .inl (hdrop _ actor hrow)

theorem passwordGrants_step (e : Event) (row : PasswordGrant)
    (hrow : row ∈ (step security e).passwordGrants.rows) :
    (row ∈ security.passwordGrants.rows ∧ ¬ Ends row.actor e) ∨
      GrantsPassword security e row := by
  have hdrop : ∀ (s : ManagementSecurity) (actor : String),
      row ∈ (s.dropGrants actor).passwordGrants.rows →
        row ∈ s.passwordGrants.rows ∧ ¬ actor = row.actor := by
    intro s actor hmem
    obtain ⟨hold, hne⟩ := Table.mem_keep.mp hmem
    exact ⟨hold, fun h => (of_decide_eq_true hne) h.symm⟩
  cases e with
  | grant actor session factor verified expires epoch now =>
      simp only [step, grant] at hrow
      split_ifs at hrow <;> exact .inl ⟨hrow, id⟩
  | grantPassword actor session password expires epoch policyEpoch now =>
      have hiff := grantPassword_iff security actor session password expires epoch policyEpoch now
      by_cases hok : (security.grantPassword actor session password expires epoch policyEpoch
          now).1 = true
      · have hchecks := hiff.mp hok
        rw [step, grantPassword, if_neg (by omega)] at hrow
        rcases Table.mem_put.mp hrow with hnew | ⟨hold, _⟩
        · subst hnew
          exact .inr ⟨now, rfl, hok⟩
        · exact .inl ⟨(Table.mem_keep.mp hold).1, id⟩
      · have hchecks := hiff.not.mp hok
        rw [step, grantPassword, if_pos (by omega)] at hrow
        exact .inl ⟨hrow, id⟩
  | setPolicy required => exact .inl ⟨hrow, id⟩
  | promote actor => exact .inl (hdrop _ actor hrow)
  | endSessions actor now => exact .inl (hdrop _ actor hrow)
  | revoke actor now => exact .inl (hdrop _ actor hrow)

/-! ## The clock of the revocations -/

/-- The sessions of `actor` were revoked at `second` or later. -/
def RevokedAt (actor : String) (second : ℤ) : Prop :=
  ∃ row, security.mfaEpochs.get actor = some row ∧ second ≤ row.revoked

theorem revokedAt_raiseEpoch {actor other : String} {second first : ℤ} {next : ℤ → ℤ}
    (hnext : ∀ revoked, revoked ≤ next revoked) (h : RevokedAt security actor second) :
    RevokedAt (security.raiseEpoch other first next) actor second := by
  obtain ⟨row, hget, hle⟩ := h
  by_cases hsame : other = actor
  · subst hsame
    refine ⟨⟨other, row.epoch + 1, next row.revoked⟩, ?_, hle.trans (hnext _)⟩
    rw [get_raiseEpoch, if_pos rfl, hget]
  · refine ⟨row, ?_, hle⟩
    rw [get_raiseEpoch, if_neg hsame, hget]

theorem revokedAt_step {actor : String} {second : ℤ} (e : Event)
    (h : RevokedAt security actor second) : RevokedAt (step security e) actor second := by
  have hmax : ∀ now revoked : ℤ, revoked ≤ max revoked now := by
    intro now revoked
    exact le_max_left revoked now
  cases e with
  | grant other session factor verified expires epoch now =>
      obtain ⟨grants, hs⟩ := grant_writes security other session factor verified expires epoch now
      rw [step, hs]
      exact h
  | grantPassword other session password expires epoch policyEpoch now =>
      obtain ⟨grants, hs⟩ :=
        grantPassword_writes security other session password expires epoch policyEpoch now
      rw [step, hs]
      exact h
  | setPolicy required => exact h
  | promote other => exact revokedAt_raiseEpoch security (fun revoked => le_refl revoked) h
  | endSessions other now => exact revokedAt_raiseEpoch security (hmax now) h
  | revoke other now => exact revokedAt_raiseEpoch security (hmax now) h

theorem revokedAt_endSessions (actor : String) (second : ℤ) :
    RevokedAt (security.endSessions actor second) actor second := by
  have hget := get_raiseEpoch security actor actor second (max · second)
  rw [if_pos rfl] at hget
  refine ⟨_, hget, ?_⟩
  cases security.mfaEpochs.get actor with
  | none => exact le_refl second
  | some row => exact le_max_right _ _

theorem le_revoked {actor : String} {second : ℤ} (h : RevokedAt security actor second) :
    second ≤ security.revoked actor := by
  obtain ⟨row, hget, hle⟩ := h
  rw [revoked, hget]
  exact hle

end

/-! ## Runs -/

theorem epoch_lt_run (before : List Event) {after : List Event} {actor : String} {e : Event}
    (hmem : e ∈ after)
    (he : Ends actor e) :
    (machine.run before).epoch actor < (machine.run (before ++ after)).epoch actor := by
  refine machine.run_lt_of_mem (E := Ends actor)
    (fun s e => epoch_le_step s e actor) (fun s e he => ?_) before hmem he
  have h := epoch_step s e actor
  rw [if_pos he] at h
  show s.epoch actor < (step s e).epoch actor
  omega

theorem policy_lt_run (before : List Event) {after : List Event} {e : Event} (hmem : e ∈ after)
    (he : SetsPolicy e) :
    (machine.run before).policy.epoch < (machine.run (before ++ after)).policy.epoch := by
  refine machine.run_lt_of_mem (c := fun s => s.policy.epoch) (E := SetsPolicy)
    policy_le_step (fun s e he => ?_) before hmem he
  have h := policy_step s e
  rw [if_pos he] at h
  show s.policy.epoch < (step s e).policy.epoch
  omega

/-- The clock of an actor is not before any of its sign outs and revocations. -/
theorem le_revoked_run {events : List Event} {actor : String} {second : ℤ}
    (h : .endSessions actor second ∈ events ∨ .revoke actor second ∈ events) :
    second ≤ (machine.run events).revoked actor := by
  have hmade : ∀ e, e = .endSessions actor second ∨ e = .revoke actor second →
      e ∈ events → RevokedAt (machine.run events) actor second := by
    intro e he hmem
    obtain ⟨before, after, rfl⟩ := List.append_of_mem hmem
    refine machine.run_kept (I := fun s => RevokedAt s actor second)
      (B := fun _ e => e = .endSessions actor second ∨ e = .revoke actor second)
      (E := fun _ => False) ?_ (fun s e hs _ => revokedAt_step s e hs) he (fun _ _ => id)
    rintro s e (rfl | rfl)
    · exact revokedAt_endSessions s actor second
    · exact revokedAt_endSessions s actor second
  apply le_revoked
  rcases h with hmem | hmem
  · exact hmade _ (.inl rfl) hmem
  · exact hmade _ (.inr rfl) hmem

theorem mfaGrant_since (events : List Event) (row : MfaGrant)
    (hrow : row ∈ (machine.run events).mfaGrants.rows) :
    ∃ before e after, events = before ++ e :: after ∧ Grants (machine.run before) e row ∧
      ∀ later ∈ after, ¬ Ends row.actor later :=
  machine.run_since (I := fun s => row ∈ s.mfaGrants.rows) (B := fun s e => Grants s e row)
    (E := Ends row.actor) (fun h => by cases h)
    (fun _ e h => mfaGrants_step _ e row h) events hrow

theorem passwordGrant_since (events : List Event) (row : PasswordGrant)
    (hrow : row ∈ (machine.run events).passwordGrants.rows) :
    ∃ before e after, events = before ++ e :: after ∧ GrantsPassword (machine.run before) e row ∧
      ∀ later ∈ after, ¬ Ends row.actor later :=
  machine.run_since (I := fun s => row ∈ s.passwordGrants.rows)
    (B := fun s e => GrantsPassword s e row) (E := Ends row.actor) (fun h => by cases h)
    (fun _ e h => passwordGrants_step _ e row h) events hrow

theorem grantedFactor_since {events : List Event} {actor session factor : String} {verified : ℤ}
    {factors : List String} {now : ℤ}
    (h : (machine.run events).grantedFactor actor session verified factors now = some factor) :
    factor ∈ factors ∧ ∃ before e after epoch expires, events = before ++ e :: after ∧
      Grants (machine.run before) e ⟨session, actor, factor, verified, epoch, expires⟩ ∧
      ∀ later ∈ after, ¬ Ends actor later := by
  unfold grantedFactor at h
  split at h
  · cases h
  · rename_i row hfind
    split_ifs at h with hvalid
    obtain rfl := Option.some.inj h
    have hmatch := List.find?_some hfind
    simp only [Bool.and_eq_true, decide_eq_true_eq] at hmatch
    obtain ⟨⟨rfl, rfl⟩, rfl⟩ := hmatch
    obtain ⟨before, e, after, heq, hgrants, hafter⟩ :=
      mfaGrant_since events row (List.mem_of_find?_eq_some hfind)
    exact ⟨hvalid.2.2, before, e, after, row.epoch, row.expires, heq, hgrants, hafter⟩

theorem passwordGranted_since {events : List Event} {actor session : String} {password now : ℤ}
    (h : (machine.run events).passwordGranted actor session password now = true) :
    ∃ before e after epoch policyEpoch expires, events = before ++ e :: after ∧
      GrantsPassword (machine.run before) e
        ⟨session, actor, password, epoch, policyEpoch, expires⟩ ∧
      ∀ later ∈ after, ¬ Ends actor later ∧ ¬ SetsPolicy later := by
  simp only [passwordGranted, Bool.and_eq_true, List.any_eq_true, decide_eq_true_eq] at h
  obtain ⟨_, row, hrow, ⟨⟨⟨⟨⟨rfl, rfl⟩, rfl⟩, _⟩, hpolicy⟩, _⟩⟩ := h
  obtain ⟨before, e, after, rfl, hgrants, hafter⟩ := passwordGrant_since events row hrow
  refine ⟨before, e, after, row.epoch, row.policyEpoch, row.expires, rfl, hgrants, ?_⟩
  intro later hlater
  refine ⟨hafter later hlater, fun hset => ?_⟩
  -- the grant was made under the policy of its time, which is gone by now
  have hlt := policy_lt_run before (List.mem_cons_of_mem e hlater) hset
  obtain ⟨_, _, hok⟩ := hgrants
  have hepoch := ((grantPassword_iff _ _ _ _ _ _ _ _).mp hok).2
  omega

example : (machine.run [.setPolicy false, .grantPassword "owner" "session" 100 1000 0 1 150]
    ).passwordGranted "owner" "session" 100 200 = true := by decide

/-- What a session's grant does not outlive, and what is not recorded any more. -/
theorem grants_end (events : List Event) : let security := machine.run events
    (∀ actor session verified factors now factor,
      security.grantedFactor actor session verified factors now = some factor →
      factor ∈ factors ∧ ∃ before e after epoch expires, events = before ++ e :: after ∧
        Grants (machine.run before) e ⟨session, actor, factor, verified, epoch, expires⟩ ∧
        ∀ later ∈ after, ¬ Ends actor later) ∧
    (∀ actor session verified factors now,
      security.granted actor session verified factors now = true →
      ∃ factor ∈ factors, ∃ before e after epoch expires, events = before ++ e :: after ∧
        Grants (machine.run before) e ⟨session, actor, factor, verified, epoch, expires⟩ ∧
        ∀ later ∈ after, ¬ Ends actor later) ∧
    (∀ actor session password now,
      security.passwordGranted actor session password now = true →
      ∃ before e after epoch policyEpoch expires, events = before ++ e :: after ∧
        GrantsPassword (machine.run before) e
          ⟨session, actor, password, epoch, policyEpoch, expires⟩ ∧
        ∀ later ∈ after, ¬ Ends actor later ∧ ¬ SetsPolicy later) ∧
    (∀ before after actor e, events = before ++ after → e ∈ after → Ends actor e →
      (∀ session factor verified expires now,
        security.grant actor session factor verified expires
          ((machine.run before).epoch actor) now = (false, security)) ∧
      ∀ session password expires policyEpoch now,
        security.grantPassword actor session password expires
          ((machine.run before).epoch actor) policyEpoch now = (false, security)) ∧
    (∀ before after e, events = before ++ after → e ∈ after → SetsPolicy e →
      ∀ actor session password expires epoch now,
        security.grantPassword actor session password expires epoch
          (machine.run before).policy.epoch now = (false, security)) ∧
    (∀ actor second, (.endSessions actor second ∈ events ∨ .revoke actor second ∈ events) →
      ∀ session factor verified expires epoch now, verified ≤ second →
        security.grant actor session factor verified expires epoch now = (false, security)) ∧
    (∀ actor session password expires epoch policyEpoch now,
      (security.grantPassword actor session password expires epoch policyEpoch now).1 = true ↔
        security.epoch actor = epoch ∧ security.policy.epoch = policyEpoch) ∧
    ∀ actor e, (machine.run (events ++ [e])).tokenEpoch actor =
      security.tokenEpoch actor + if Revokes actor e then 1 else 0 := by
  intro security
  refine ⟨?_, ?_, ?_, ?_, ?_, ?_, ?_, ?_⟩
  · intro actor session verified factors now factor h
    exact grantedFactor_since h
  · intro actor session verified factors now h
    obtain ⟨factor, hfactor⟩ := Option.isSome_iff_exists.mp h
    obtain ⟨hmem, hsince⟩ := grantedFactor_since hfactor
    exact ⟨factor, hmem, hsince⟩
  · intro actor session password now h
    exact passwordGranted_since h
  · intro before after actor e heq hmem he
    have hlt : (machine.run before).epoch actor < security.epoch actor := by
      have h := epoch_lt_run before hmem he
      rwa [← heq] at h
    refine ⟨?_, ?_⟩
    · intro session factor verified expires now
      exact grant_refused security (.inl (by omega))
    · intro session password expires policyEpoch now
      exact grantPassword_refused security (.inl (by omega))
  · intro before after e heq hmem he actor session password expires epoch now
    have hlt : (machine.run before).policy.epoch < security.policy.epoch := by
      have h := policy_lt_run before hmem he
      rwa [← heq] at h
    exact grantPassword_refused security (.inr (by omega))
  · intro actor second hmem session factor verified expires epoch now hle
    exact grant_refused security (.inr (hle.trans (le_revoked_run hmem)))
  · exact grantPassword_iff security
  · intro actor e
    rw [machine.run_snoc]
    exact tokenEpoch_step security e actor

/-- The MFA path's comparison with the clock, asked of the password path. -/
def RefusesEarlierPasswords : Prop :=
  ∀ events actor second, (.endSessions actor second ∈ events ∨ .revoke actor second ∈ events) →
    ∀ session password expires epoch policyEpoch now, password ≤ second →
      (machine.run events).grantPassword actor session password expires epoch policyEpoch now =
        (false, machine.run events)

/-- A password of second 100 is recorded after the sign out of second 200. -/
theorem not_refusesEarlierPasswords : ¬ RefusesEarlierPasswords := by
  intro h
  have hfalse := congrArg Prod.fst
    (h [.endSessions "owner" 200] "owner" 200 (by simp) "session" 100 1000 1 0 200 (by decide))
  revert hfalse
  decide

end Sbarbase.Control.Proofs.ManagementSecurity
