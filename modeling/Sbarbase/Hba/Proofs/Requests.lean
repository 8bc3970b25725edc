import Sbarbase.Hba.Proofs.Registry
/-!
# What is sent, and what a delivery does

Every command carries a text that decodes, and an update one that keeps what the
text it replaces says of each token. One inversion of a step is all that the
invariants of a run are derived from.
-/

namespace Sbarbase.Hba.Proofs

open Lib Lib.Checked

variable {T : Type} {X : Texts T}

/-! ## What a later operation of a token may be -/

/-- The binding stays, and what is revoked stays revoked. -/
def Keeps (earlier later : Operation) : Prop :=
  later.binding = earlier.binding ∧ (earlier.state = .revoked → later.state = .revoked)

theorem Keeps.refl (operation : Operation) : Keeps operation operation := ⟨rfl, id⟩

theorem Keeps.trans {a b c : Operation} (hab : Keeps a b) (hbc : Keeps b c) : Keeps a c :=
  ⟨hbc.1.trans hab.1, fun h => hbc.2 (hab.2 h)⟩

def Follows (earlier later : Record) : Prop :=
  ∀ token operation, earlier.operations.lookup token = some operation →
    ∃ operation', later.operations.lookup token = some operation' ∧ Keeps operation operation'

/-! ## What is sent -/

/-- The permit's operation was active in the registry that it names. -/
def Granted (X : Texts T) (permit : Permit) : Prop :=
  (∃ identity, operationBinding X permit.prepared identity = .ok permit.binding) ∧
  ∃ text generation record, decode X text generation = .ok record ∧
    X.digest text = permit.registryDigest ∧
    record.operations.lookup permit.token = some ⟨permit.binding, .active⟩

def SentWell (X : Texts T) : Command T → Prop
  | .init _ text => ∃ record, WellFormed record ∧ text = encode X record
  | .update _ text expected => ∃ earlier later before generation,
      decode X before generation = .ok earlier ∧ X.digest before = expected ∧
      WellFormed later ∧ text = encode X later ∧ Follows earlier later
  | .apply permit => Granted X permit

theorem initializeRegistry_sent {cid generation revision : CodePoints} {command : Command T}
    (hrevision : matchesText UUID revision = true)
    (h : initializeRegistry X cid generation revision = .ok command) :
    SentWell X command ∧ ∀ permit, command ≠ .apply permit := by
  rw [initializeRegistry] at h
  obtain ⟨_, hgeneration, h⟩ := bind_eq_ok.mp h
  obtain ⟨_, _, h⟩ := bind_eq_ok.mp h
  rw [← pure_eq_ok.mp h]
  have hempty : WellFormed ⟨generation, revision, []⟩ :=
    ⟨exact_eq_ok.mp hgeneration, hrevision, List.Pairwise.nil, by simp, Nat.zero_le 1⟩
  exact ⟨⟨_, hempty, rfl⟩, fun permit heq => by nomatch heq⟩

/-- A registration that was let through leaves its own token as the active one, and a
revocation adds no active operation. -/
theorem assigned_active {operations : Operations} {token : CodePoints} {operation : Operation}
    (hsorted : Sorted operations) (hactive : activeCount operations ≤ 1)
    (halone : operation.isActive = true →
      ∀ entry ∈ operations, entry.2.isActive = true → entry.1 = token) :
    activeCount (assign token operation operations) ≤ 1 := by
  by_cases h : operation.isActive = true
  · have hone : ∀ entry ∈ assign token operation operations,
        entry.2.isActive = true → entry.1 = token := by
      intro entry hentry hentryActive
      rcases mem_assign hentry with rfl | hentry
      · rfl
      · exact halone h entry hentry hentryActive
    exact activeCount_le_one (sorted_assign token operation hsorted) hone
  · have hle := activeCount_assign_le token operation operations
    rw [if_neg h] at hle
    omega

theorem assigned_follows {earlier : Record} {revision token : CodePoints} {operation : Operation}
    (hprior : ∀ prior, earlier.operations.lookup token = some prior → Keeps prior operation) :
    Follows earlier
      ⟨earlier.generation, revision, assign token operation earlier.operations⟩ := by
  intro key prior hkey
  by_cases h : key = token
  · refine ⟨operation, ?_, hprior prior (h ▸ hkey)⟩
    rw [lookup_assign, if_pos h]
  · refine ⟨prior, ?_, Keeps.refl prior⟩
    rw [lookup_assign, if_neg h]
    exact hkey

theorem update_sent {snapshot : Snapshot T} {token binding revision : CodePoints} {revoke : Bool}
    {command : Command T} (hrevision : matchesText UUID revision = true)
    (h : update X snapshot token binding revoke revision = .ok command) :
    SentWell X command ∧ ∀ permit, command ≠ .apply permit := by
  rw [update] at h
  obtain ⟨_, htoken, h⟩ := bind_eq_ok.mp h
  obtain ⟨_, hbinding, h⟩ := bind_eq_ok.mp h
  obtain ⟨record, hrecord, h⟩ := bind_eq_ok.mp h
  obtain ⟨_, hsame, h⟩ := bind_eq_ok.mp h
  obtain ⟨_, hrevoked, h⟩ := bind_eq_ok.mp h
  obtain ⟨_, halone, h⟩ := bind_eq_ok.mp h
  obtain ⟨_, _, h⟩ := bind_eq_ok.mp h
  rw [← pure_eq_ok.mp h]
  obtain ⟨hwell, _⟩ := decode_wellFormed hrecord
  have hsame := require_eq_ok.mp hsame
  have hrevoked := require_eq_ok.mp hrevoked
  have halone := require_eq_ok.mp halone
  have hkeeps : ∀ prior, record.operations.lookup token = some prior →
      Keeps prior ⟨binding, if revoke then .revoked else .active⟩ := by
    intro prior hprior
    rw [hprior] at hsame hrevoked
    refine ⟨(of_decide_eq_true hsame).symm, fun hstate => ?_⟩
    cases revoke with
    | true => rfl
    | false =>
        rw [Option.all_some, Operation.isActive, hstate] at hrevoked
        nomatch hrevoked
  have hactive : activeCount (assign token ⟨binding, if revoke then .revoked else .active⟩
      record.operations) ≤ 1 := by
    refine assigned_active hwell.sorted hwell.active fun hisActive entry hentry hentryActive => ?_
    cases revoke with
    | true => nomatch hisActive
    | false =>
        rw [Bool.false_or, List.all_eq_true] at halone
        simpa [hentryActive] using halone entry hentry
  have hwellNext : WellFormed ⟨record.generation, revision,
      assign token ⟨binding, if revoke then .revoked else .active⟩ record.operations⟩ := by
    refine ⟨hwell.generation, hrevision, sorted_assign _ _ hwell.sorted, fun entry hentry => ?_,
      hactive⟩
    rcases mem_assign hentry with rfl | hentry
    · exact ⟨exact_eq_ok.mp htoken, exact_eq_ok.mp hbinding⟩
    · exact hwell.entries entry hentry
  exact ⟨⟨record, _, _, _, hrecord, rfl, hwellNext, rfl, assigned_follows hkeeps⟩,
    fun permit heq => by nomatch heq⟩

theorem authorize_granted {snapshot : Snapshot T} {prepared : Prepared} {token : CodePoints}
    {identity : Members} {permit : Permit}
    (h : authorize X snapshot prepared token identity = .ok permit) :
    permit.prepared = prepared ∧ Granted X permit := by
  rw [authorize] at h
  obtain ⟨_, _, h⟩ := bind_eq_ok.mp h
  obtain ⟨_, _, h⟩ := bind_eq_ok.mp h
  obtain ⟨binding, hbinding, h⟩ := bind_eq_ok.mp h
  obtain ⟨record, hrecord, h⟩ := bind_eq_ok.mp h
  obtain ⟨_, hactive, h⟩ := bind_eq_ok.mp h
  rw [← pure_eq_ok.mp h]
  exact ⟨rfl, ⟨identity, hbinding⟩, _, _, record, hrecord, rfl, require_eq_ok.mp hactive⟩

theorem apply_sent {permit : Permit} {command : Command T} (h : apply X permit = .ok command) :
    command = .apply permit := by
  rw [apply] at h
  obtain ⟨_, _, h⟩ := bind_eq_ok.mp h
  obtain ⟨_, _, h⟩ := bind_eq_ok.mp h
  obtain ⟨_, _, h⟩ := bind_eq_ok.mp h
  obtain ⟨_, _, h⟩ := bind_eq_ok.mp h
  exact (pure_eq_ok.mp h).symm

theorem prepare_eq_ok {cid current content revision : CodePoints} {prepared : Prepared}
    (h : prepare X cid current content revision = .ok prepared) :
    prepared = ⟨cid, X.fileDigest current, revisionLine revision ++ content⟩ := by
  rw [prepare] at h
  obtain ⟨_, _, h⟩ := bind_eq_ok.mp h
  obtain ⟨_, _, h⟩ := bind_eq_ok.mp h
  obtain ⟨_, _, h⟩ := bind_eq_ok.mp h
  exact (pure_eq_ok.mp h).symm

/-! ## What a script does -/

theorem script_cases {b next : Backend T} {cut : Bool} {command : Command T}
    (h : script X b cut command = some next) :
    (∃ cid text, command = .init cid text ∧ b.registry = none ∧ next.hba = b.hba ∧
      (next.registry = none ∨ next.registry = some text)) ∨
    (∃ cid text expected current, command = .update cid text expected ∧
      b.registry = some current ∧ X.digest current = expected ∧
      next = { b with registry := some text }) ∨
    (∃ permit current, command = .apply permit ∧ b.registry = some current ∧
      X.digest current = permit.registryDigest ∧
      X.fileDigest b.hba = permit.prepared.expectedDigest ∧
      next = { b with hba := permit.prepared.content }) := by
  cases command with
  | init cid text =>
      rw [script] at h
      split at h
      next habsent =>
        cases h
        refine .inl ⟨cid, text, rfl, Option.isNone_iff_eq_none.mp habsent.1, rfl, ?_⟩
        cases cut with
        | true => exact .inl rfl
        | false => exact .inr rfl
      next => nomatch h
  | update cid text expected =>
      rw [script] at h
      split at h
      next current hcurrent =>
        split at h
        next hguard =>
          cases h
          exact .inr (.inl ⟨cid, text, expected, current, rfl, hcurrent, hguard.2.1, rfl⟩)
        next => nomatch h
      next => nomatch h
  | apply permit =>
      rw [script] at h
      split at h
      next current hcurrent =>
        split at h
        next hguard =>
          cases h
          exact .inr (.inr ⟨permit, current, rfl, hcurrent, hguard.2.1, hguard.2.2.1, rfl⟩)
        next => nomatch h
      next => nomatch h

/-! ## What a step does -/

inductive Change (X : Texts T) (s : World T) : World T → Prop
  | none : Change X s s
  | issue (revision : CodePoints) : Fresh s.issued revision →
      Change X s { s with issued := revision :: s.issued }
  | send (revision : CodePoints) (command : Command T) : Fresh s.issued revision →
      SentWell X command → (∀ permit, command ≠ .apply permit) →
      Change X s
        { s with issued := revision :: s.issued, commands := s.commands ++ [command] }
  | prepare (cid content revision : CodePoints) : Fresh s.issued revision →
      Change X s
        { s with
          issued := revision :: s.issued
          prepared := s.prepared ++
            [⟨cid, X.fileDigest (s.backends cid).hba, revisionLine revision ++ content⟩] }
  | grant (permit : Permit) : permit.prepared ∈ s.prepared → Granted X permit →
      Change X s { s with permits := s.permits ++ [permit] }
  | apply (permit : Permit) : permit ∈ s.permits →
      Change X s { s with commands := s.commands ++ [.apply permit] }
  | deliver (command : Command T) (cut : Bool) (next : Backend T) : command ∈ s.commands →
      script X (s.backends command.containerId) cut command = some next →
      Change X s (s.replace command.containerId next)

theorem send_change {s : World T} {revision : CodePoints} {command : Except String (Command T)}
    (hfresh : Fresh s.issued revision)
    (hsent : ∀ sent, command = .ok sent → SentWell X sent ∧ ∀ permit, sent ≠ .apply permit) :
    Change X s (World.send { s with issued := revision :: s.issued } command) := by
  cases command with
  | error message => exact .issue revision hfresh
  | ok sent => exact .send revision sent hfresh (hsent sent rfl).1 (hsent sent rfl).2

theorem deliver_change {s : World T} {command : Command T} {cut : Bool}
    (hmem : command ∈ s.commands) : Change X s (s.deliver X command cut) := by
  rw [World.deliver]
  split
  next next hscript => exact .deliver command cut next hmem hscript
  next => exact .none

theorem step_change (s : World T) (e : Event T) : Change X s (step X s e) := by
  cases e with
  | initializeRegistry cid generation revision =>
      simp only [step]
      split
      next hfresh =>
        exact send_change hfresh fun sent hsent => initializeRegistry_sent hfresh.2 hsent
      next => exact .none
  | update snapshot token binding revoke revision =>
      simp only [step]
      split
      next hfresh => exact send_change hfresh fun sent hsent => update_sent hfresh.2 hsent
      next => exact .none
  | prepare cid content revision =>
      simp only [step]
      split
      next hfresh =>
        split
        next prepared hprepared =>
          rw [prepare_eq_ok hprepared]
          exact .prepare cid content revision hfresh
        next => exact .none
      next => exact .none
  | authorize snapshot i token identity =>
      simp only [step]
      split
      next prepared hprepared =>
        split
        next permit hpermit =>
          obtain ⟨hsame, hgranted⟩ := authorize_granted hpermit
          have hmem : permit.prepared ∈ s.prepared := by
            rw [hsame]
            exact List.mem_of_getElem? hprepared
          exact .grant permit hmem hgranted
        next => exact .none
      next => exact .none
  | apply i =>
      simp only [step]
      split
      next permit hpermit =>
        cases h : apply X permit with
        | error message => exact .none
        | ok command =>
            rw [apply_sent h]
            exact .apply permit (List.mem_of_getElem? hpermit)
      next => exact .none
  | deliver i cut =>
      simp only [step]
      split
      next command hcommand => exact deliver_change (List.mem_of_getElem? hcommand)
      next => exact .none

end Sbarbase.Hba.Proofs
