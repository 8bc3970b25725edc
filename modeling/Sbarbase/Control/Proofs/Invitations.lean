import Sbarbase.Control.Proofs.Members
/-!
# Invitations

An invitation is open until it is used, cancelled or expired, and no operation
opens it again, so it is accepted at most once and never after its end. Its
inviter is asked again at the acceptance: whether they may still give the role.
The check of `acceptInvitation` leaves out the rule of `createInvitation` on the
bootstrap organization, where only owners invite, and `setMember` demotes an
owner without a look at what they issued.
-/

set_option synthInstance.maxSize 5000

namespace Sbarbase.Control.Proofs.Invitations

open Lib Lib.Call Control Control.Proofs.Frames Control.Proofs.Members

/-! ## What an inviter may give -/

/-- The checks of `createInvitation` on the inviter, in the catalog as it is. -/
def MayGrant (c : Catalog) (inviter organization : String) (role : MembershipRole) : Prop :=
  ∃ own, c.roleOf organization inviter = some own ∧ own ≠ .viewer ∧
    ¬ (role = .owner ∧ own ≠ .owner) ∧
    ¬ (own ≠ .owner ∧ c.bootstrap.map Bootstrap.organization = some organization)

/-! ## Open invitations -/

/-- The invitations of an id come from those before, with the same end, and none of
them is open again. -/
def Descends (id : String) (before after : Table Invitation.id) : Prop :=
  ∀ row ∈ after.rows, row.id = id →
    ∃ old ∈ before.rows, old.id = id ∧ old.expiresAt = row.expiresAt ∧
      (row.pending = true → old.pending = true)

theorem Descends.refl (id : String) (t : Table Invitation.id) : Descends id t t :=
  fun row hrow hid => ⟨row, hrow, hid, rfl, fun h => h⟩

theorem Descends.trans {id : String} {t₁ t₂ t₃ : Table Invitation.id} (h₁ : Descends id t₁ t₂)
    (h₂ : Descends id t₂ t₃) : Descends id t₁ t₃ := by
  intro row hrow hid
  obtain ⟨mid, hmid, hmidId, hmidEnd, hmidOpen⟩ := h₂ row hrow hid
  obtain ⟨old, hold, holdId, holdEnd, holdOpen⟩ := h₁ mid hmid hmidId
  exact ⟨old, hold, holdId, holdEnd.trans hmidEnd, fun h => holdOpen (hmidOpen h)⟩

theorem descends_keep (id : String) (t : Table Invitation.id) (p : Invitation → Bool) :
    Descends id t (t.keep p) :=
  fun row hrow hid => ⟨row, (Table.mem_keep.mp hrow).1, hid, rfl, fun h => h⟩

theorem descends_insert {id : String} {t t' : Table Invitation.id} {row : Invitation}
    (hne : row.id ≠ id) (h : t.insert row = some t') : Descends id t t' := by
  intro other hother hid
  rw [(Table.insert_eq_some h).1, List.mem_append, List.mem_singleton] at hother
  rcases hother with hold | rfl
  · exact ⟨other, hold, hid, rfl, fun h => h⟩
  · exact absurd hid hne

/-- Using or cancelling an invitation does not open another. -/
theorem descends_modify {id : String} {t : Table Invitation.id} {p : Invitation → Bool}
    {f : Invitation → Invitation} (hf : ∀ row, (f row).id = row.id)
    (hend : ∀ row, (f row).expiresAt = row.expiresAt)
    (hopen : ∀ row, (f row).pending = true → row.pending = true) :
    Descends id t (t.modify p f hf) := by
  intro row hrow hid
  obtain ⟨old, hold, hnew⟩ := Table.mem_modify.mp hrow
  by_cases hp : p old
  · rw [if_pos hp] at hnew
    refine ⟨old, hold, ?_, ?_, ?_⟩
    · rw [← hid, ← hnew, hf]
    · rw [← hnew, hend]
    · rw [← hnew]
      exact hopen old
  · rw [if_neg hp] at hnew
    rw [hnew] at hold
    exact ⟨row, hold, hid, rfl, fun h => h⟩

theorem not_pending_cancelled (row : Invitation) (time : ℤ) :
    ({ row with cancelledAt := some time } : Invitation).pending = false := by
  simp [Invitation.pending]

theorem not_pending_used (row : Invitation) (time : ℤ) (actor : String) :
    ({ row with usedAt := some time, usedBy := some actor } : Invitation).pending = false := by
  simp [Invitation.pending]

/-! ## No operation opens an invitation again -/

section

variable (ctx : Context) (id : String) (t : Table Invitation.id)

/-- The invitations of the id come from `t`. -/
abbrev From (c : Catalog) : Prop := Descends id t c.invitations

theorem from_of_leaves {α : Type} (call : CatalogCall α) [Leaves Catalog.invitations call] :
    Keeps (From id t) call := by
  apply keeps_of_leaves (p := Catalog.invitations)
  intro c c' hsame hc
  show Descends id t c'.invitations
  rw [hsame]
  exact hc

theorem from_cancelWhere (p : Invitation → Bool) : Keeps (From id t) (cancelWhere ctx p) := by
  intro c hc
  rw [cancelWhere, ensures_write]
  apply hc.trans
  apply descends_modify
  · exact fun _ => rfl
  · exact fun _ => rfl
  · intro row h
    rw [not_pending_cancelled] at h
    cases h

theorem from_changeMember (actor organization target : String) (role : Option MembershipRole) :
    Keeps (From id t) (changeMember ctx actor organization target role) := by
  unfold changeMember
  apply (from_of_leaves id t _).bind
  intro _
  apply Keeps.transaction
  apply (from_of_leaves id t _).bind
  intro _
  apply (from_of_leaves id t _).bind
  intro c
  apply (from_of_leaves id t _).bind
  intro current
  apply (from_of_leaves id t _).bind
  intro _
  exact (from_cancelWhere ctx id t _).when.bind fun _ => from_of_leaves id t _

theorem from_createInvitation (actor organization email : String) (role : MembershipRole)
    {other : String} (hother : other ≠ id) (token : String) :
    Keeps (From id t) (createInvitation ctx actor organization email role other token) := by
  intro c hc
  unfold createInvitation
  apply ensures_check
  intro address _
  rw [ensures_transaction]
  apply ensures_check
  intro own _
  simp only [insertInvitation, Access.record, ensures_bind, ensures_read, ensures_require,
    ensures_found, ensures_write, ensures_pure]
  intro _ _ _ _ invitations hinsert
  exact hc.trans (descends_insert hother hinsert)

theorem from_cancelInvitation (actor organization other : String) :
    Keeps (From id t) (cancelInvitation ctx actor organization other) := by
  unfold cancelInvitation
  apply Keeps.transaction
  apply (from_of_leaves id t _).bind
  intro _
  apply (from_of_leaves id t _).bind
  intro c
  apply (from_of_leaves id t _).bind
  intro _
  exact (from_cancelWhere ctx id t _).bind fun _ => from_of_leaves id t _

theorem from_deleteOrganization (actor organization : String) :
    Keeps (From id t) (deleteOrganization ctx actor organization) := by
  intro c hc
  unfold deleteOrganization
  rw [ensures_transaction]
  apply ensures_check
  intro _ _
  simp only [Access.record, ensures_bind, ensures_read, ensures_require, ensures_write]
  intro _ _ _
  exact hc.trans (descends_keep id c.invitations _)

/-- What an acceptance did. -/
structure Accepted (c : Catalog) (id actor : String) (result : String × MembershipRole)
    (c' : Catalog) (row : Invitation) (own : MembershipRole) : Prop where
  opened : c.openInvitation id ctx.now = some row
  inviter : c.roleOf row.organization row.inviter = some own
  allowed : ¬ (own = .viewer ∨ (row.role = .owner ∧ own ≠ .owner))
  result_eq : result = (row.organization, higherRole (c.roleOf row.organization actor) row.role)
  memberships : c'.memberships = c.memberships.put ⟨row.organization, actor, result.2⟩
  invitations : c'.invitations = c.invitations.modify (fun row => row.id = id)
    (fun row => { row with usedAt := some ctx.now, usedBy := some actor }) fun _ => rfl

theorem acceptInvitation_ensures (actor : String) (c : Catalog) :
    (acceptInvitation ctx id actor).Ensures c fun result c' =>
      ∃ row own, Accepted ctx c id actor result c' row own := by
  unfold acceptInvitation
  apply ensures_check
  intro _ _
  rw [ensures_transaction, ensures_bind, ensures_read, ensures_bind, ensures_found]
  intro row hrow
  rw [ensures_bind, ensures_found]
  intro own hown
  rw [ensures_bind, ensures_require]
  intro hallowed
  simp only [upsertMembership, ensures_bind, ensures_read, ensures_require, ensures_write]
  intro _ _ c₁ hrecord _ c₂ hnotify
  have hpeople : people c₁ = _ := Leaves.of_returns (p := people) hrecord
  have hpeople₂ : people c₂ = people c₁ := Leaves.of_returns (p := people) hnotify
  rw [hpeople] at hpeople₂
  rw [ensures_pure]
  exact ⟨row, own, hrow, hown, hallowed, rfl, congrArg (·.2.2.1) hpeople₂,
    congrArg (·.2.2.2) hpeople₂⟩

theorem from_acceptInvitation (other actor : String) :
    Keeps (From id t) (acceptInvitation ctx other actor) := by
  intro c hc
  refine (acceptInvitation_ensures ctx other actor c).mono ?_
  rintro result c' ⟨row, own, haccepted⟩
  show Descends id t c'.invitations
  rw [haccepted.invitations]
  apply hc.trans
  apply descends_modify
  · exact fun _ => rfl
  · intro old h
    rw [not_pending_used] at h
    cases h

/-- The operation draws the id for an invitation. -/
def Creates (op : Operation) : Prop :=
  ∃ actor organization email role token,
    op = .createInvitation actor organization email role id token

theorem from_perform {op : Operation} (hop : ¬ Creates id op) :
    Keeps (From id t) (perform ctx op) := by
  cases op with
  | createInvitation actor organization email role other token =>
      have hother : other ≠ id := by
        intro h
        exact hop ⟨actor, organization, email, role, token, by rw [h]⟩
      exact (from_createInvitation ctx id t actor organization email role hother token).discard
  | deleteOrganization actor organization =>
      exact from_deleteOrganization ctx id t actor organization
  | changeMember actor organization target role =>
      exact (from_changeMember ctx id t actor organization target role).discard
  | cancelInvitation actor organization other =>
      exact from_cancelInvitation ctx id t actor organization other
  | acceptInvitation other actor => exact (from_acceptInvitation ctx id t other actor).discard
  | _ =>
      -- Every other operation leaves the invitations alone.
      unfold perform
      exact from_of_leaves id t _

end

/-! ## The end of an invitation -/

section

variable (id : String)

/-- No invitation of the id is open. -/
def Closed (c : Catalog) : Prop :=
  ∀ row ∈ c.invitations.rows, row.id = id → row.pending = false

/-- Every invitation of the id ends at `time`. -/
def EndsAt (time : ℤ) (c : Catalog) : Prop :=
  ∀ row ∈ c.invitations.rows, row.id = id → row.expiresAt = time

/-- The event draws the id for an invitation. -/
def Draws (event : Context × Operation) : Prop := Creates id event.2

theorem from_step (c : Catalog) {event : Context × Operation} (h : ¬ Draws id event) :
    Descends id c.invitations (catalogMachine.step c event).invitations :=
  (from_perform event.1 id c.invitations h).after (atomic_perform event.1 event.2)
    (Descends.refl id c.invitations)

theorem closed_step (c : Catalog) (event : Context × Operation) (hc : Closed id c)
    (h : ¬ Draws id event) : Closed id (catalogMachine.step c event) := by
  intro row hrow hid
  obtain ⟨old, hold, holdId, -, hopen⟩ := from_step id c h row hrow hid
  have hclosed : old.pending = false := hc old hold holdId
  by_contra hpending
  rw [hopen (by simpa using hpending)] at hclosed
  cases hclosed

theorem endsAt_step (time : ℤ) (c : Catalog) (event : Context × Operation)
    (hc : EndsAt id time c) (h : ¬ Draws id event) :
    EndsAt id time (catalogMachine.step c event) := by
  intro row hrow hid
  obtain ⟨old, hold, holdId, hend, -⟩ := from_step id c h row hrow hid
  rw [← hend]
  exact hc old hold holdId

/-- Changing the rows that satisfy `p` closes them. -/
theorem closed_modify {t : Table Invitation.id} {p : Invitation → Bool}
    {f : Invitation → Invitation} {row : Invitation}
    (hrow : ∃ old ∈ t.rows, (if p old then f old else old) = row) (hid : row.id = id)
    (hp : ∀ row ∈ t.rows, row.id = id → row.pending = true → p row = true)
    (hclose : ∀ row, (f row).pending = false) : row.pending = false := by
  obtain ⟨old, hold, hnew⟩ := hrow
  by_cases hpold : p old = true
  · rw [if_pos hpold] at hnew
    rw [← hnew]
    exact hclose old
  · rw [if_neg hpold] at hnew
    rw [hnew] at hold hpold
    by_contra hpending
    exact hpold (hp row hold hid (by simpa using hpending))

/-- An acceptance, a cancellation and a drop of the inviter end an invitation. -/
def Closes (c : Catalog) : Context × Operation → Prop
  | (ctx, .acceptInvitation other actor) =>
    other = id ∧ ∃ result c', (acceptInvitation ctx other actor).Returns c result c'
  | (ctx, .cancelInvitation actor organization other) =>
    other = id ∧ ∃ c', (cancelInvitation ctx actor organization other).Returns c () c'
  | (ctx, .changeMember actor organization target role) =>
    (∃ result c', (changeMember ctx actor organization target role).Returns c result c') ∧
      (∀ row ∈ c.invitations.rows, row.id = id →
        row.organization = organization ∧ row.inviter = target) ∧
      ∀ current offered, c.roleOf organization target = some current → role = some offered →
        current.rank < offered.rank
  | _ => False

theorem closed_accept {ctx : Context} {actor : String} {c c' : Catalog}
    {result : String × MembershipRole}
    (h : (acceptInvitation ctx id actor).Returns c result c') : Closed id c' := by
  obtain ⟨row, own, haccepted⟩ := acceptInvitation_ensures ctx id actor c result c' h
  intro other hother hid
  rw [haccepted.invitations] at hother
  refine closed_modify id (Table.mem_modify.mp hother) hid ?_ ?_
  · intro old _ hold _
    exact decide_eq_true hold
  · exact fun old => not_pending_used old ctx.now actor

theorem closed_cancel {ctx : Context} {actor organization : String} {c c' : Catalog}
    (h : (cancelInvitation ctx actor organization id).Returns c () c') : Closed id c' := by
  have hensures : (cancelInvitation ctx actor organization id).Ensures c
      fun _ c' => Closed id c' := by
    unfold cancelInvitation
    rw [ensures_transaction]
    apply ensures_check
    intro _ _
    simp only [cancelWhere, Access.record, ensures_bind, ensures_read, ensures_require,
      ensures_write]
    intro hone row hrow hid
    -- The one open row that satisfies the condition is the row of the id.
    obtain ⟨found, hfound, hmatch⟩ := List.countP_pos_iff.mp (Nat.lt_of_lt_of_eq Nat.one_pos hone.symm)
    simp only [Bool.and_eq_true, decide_eq_true_eq] at hmatch
    simp only [Table.mem_modify] at hrow
    refine closed_modify id hrow hid ?_ ?_
    · intro old hold hoid hpending
      have hsame : old = found := c.invitations.eq_of_key hold hfound (hoid.trans hmatch.1.1.symm)
      rw [hsame] at hpending ⊢
      simp [hmatch.1.1, hmatch.1.2, hpending]
    · exact fun old => not_pending_cancelled old ctx.now
  exact hensures () c' h

theorem closed_changeMember {ctx : Context} {actor organization target : String}
    {role : Option MembershipRole} {c c' : Catalog} {result : List (String × MembershipRole)}
    (h : (changeMember ctx actor organization target role).Returns c result c')
    (hissued : ∀ row ∈ c.invitations.rows, row.id = id →
      row.organization = organization ∧ row.inviter = target)
    (hdrop : ∀ current offered, c.roleOf organization target = some current →
      role = some offered → current.rank < offered.rank) : Closed id c' := by
  have hensures : (changeMember ctx actor organization target role).Ensures c
      fun _ c' => Closed id c' := by
    unfold changeMember
    apply ensures_check
    intro _ _
    rw [ensures_transaction]
    apply ensures_check
    intro _ _
    rw [ensures_bind, ensures_read, ensures_bind, ensures_found]
    intro current hcurrent
    rw [ensures_bind]
    intro _ c₁ hset
    have hsame : c₁.invitations = c.invitations :=
      Leaves.of_returns (p := Catalog.invitations) hset
    have hdrops : (role.map fun r => decide (current.rank < r.rank)).getD true = true := by
      cases role with
      | none => rfl
      | some offered => simpa using hdrop current offered hcurrent rfl
    rw [ensures_bind, ensures_when]
    refine ⟨fun _ => ?_, fun hnot => absurd hdrops hnot⟩
    rw [cancelWhere, ensures_write]
    intro _ c₂ hlist
    have hsame₂ : c₂.invitations = _ := Leaves.of_returns (p := Catalog.invitations) hlist
    intro row hrow hid
    rw [hsame₂] at hrow
    simp only [Table.mem_modify] at hrow
    refine closed_modify id hrow hid ?_ ?_
    · intro old hold hoid hpending
      rw [hsame] at hold
      have hby := hissued old hold hoid
      simp [hby.1, hby.2, hpending]
    · exact fun old => not_pending_cancelled old ctx.now
  exact hensures result c' h

theorem after_discard {α : Type} (call : CatalogCall α) (c : Catalog) :
    call.discard.after c = call.after c := by
  simp only [Call.discard, Call.after, bind_apply]
  split
  · rename_i a c' hc
    rw [hc]
    rfl
  · rename_i e c' hc
    rw [hc]

theorem closed_of_closes (c : Catalog) (event : Context × Operation) (h : Closes id c event) :
    Closed id (catalogMachine.step c event) := by
  obtain ⟨ctx, op⟩ := event
  cases op with
  | acceptInvitation other actor =>
      obtain ⟨rfl, result, c', hreturns⟩ := h
      show Closed other ((acceptInvitation ctx other actor).discard.after c)
      rw [after_discard, hreturns.after_eq]
      exact closed_accept other hreturns
  | cancelInvitation actor organization other =>
      obtain ⟨rfl, c', hreturns⟩ := h
      show Closed other ((cancelInvitation ctx actor organization other).after c)
      rw [hreturns.after_eq]
      exact closed_cancel other hreturns
  | changeMember actor organization target role =>
      obtain ⟨⟨result, c', hreturns⟩, hissued, hdrop⟩ := h
      show Closed id ((changeMember ctx actor organization target role).discard.after c)
      rw [after_discard, hreturns.after_eq]
      exact closed_changeMember id hreturns hissued hdrop
  | _ => exact absurd h (by simp [Closes])

end

/-! ## Runs -/

/-- The run accepts the invitation `row` in the catalog `c`. -/
def Accepts (events : List (Context × Operation)) (c : Catalog) (row : Invitation) : Prop :=
  ∃ before ctx id actor after result c',
    events = before ++ (ctx, .acceptInvitation id actor) :: after ∧
      c = catalogMachine.run before ∧
      (acceptInvitation ctx id actor).Returns c result c' ∧ c.invitations.get id = some row

/-- The invitation does not lead into the bootstrap organization, or its inviter is an
owner of it. -/
def OwnersInvite (c : Catalog) (row : Invitation) : Prop :=
  c.bootstrap.map Bootstrap.organization ≠ some row.organization ∨
    c.roleOf row.organization row.inviter = some .owner

theorem openInvitation_eq_some {c : Catalog} {id : String} {now : ℤ} {row : Invitation}
    (h : c.openInvitation id now = some row) :
    c.invitations.get id = some row ∧ row.pending = true ∧ now < row.expiresAt := by
  simpa [Catalog.openInvitation, Option.filter_eq_some_iff] using h

/-- The check of an acceptance lacks the rule on the bootstrap organization only. -/
theorem accepted_mayGrant_iff {ctx : Context} {c c' : Catalog} {id actor : String}
    {result : String × MembershipRole} {row : Invitation}
    (h : (acceptInvitation ctx id actor).Returns c result c')
    (hrow : c.invitations.get id = some row) :
    MayGrant c row.inviter row.organization row.role ↔ OwnersInvite c row := by
  obtain ⟨found, own, haccepted⟩ := acceptInvitation_ensures ctx id actor c result c' h
  have hsame : found = row := by
    have hget := (openInvitation_eq_some haccepted.opened).1
    rw [hrow] at hget
    exact (Option.some.inj hget).symm
  have hown := haccepted.inviter
  have hallowed := haccepted.allowed
  rw [hsame] at hown hallowed
  rw [not_or] at hallowed
  constructor
  · rintro ⟨other, hother, -, -, hbootstrap⟩
    by_cases howner : other = .owner
    · exact .inr (by rw [hother, howner])
    · exact .inl fun h => hbootstrap ⟨howner, h⟩
  · intro hinvite
    refine ⟨own, hown, hallowed.1, hallowed.2, ?_⟩
    rintro ⟨hnot, hbootstrap⟩
    rcases hinvite with hother | howner
    · exact hother hbootstrap
    · rw [hown] at howner
      exact hnot (Option.some.inj howner)

theorem not_accepted_of_closed {ctx : Context} {c c' : Catalog} {id actor : String}
    {result : String × MembershipRole} (hclosed : Closed id c) :
    ¬ (acceptInvitation ctx id actor).Returns c result c' := by
  intro h
  obtain ⟨row, own, haccepted⟩ := acceptInvitation_ensures ctx id actor c result c' h
  obtain ⟨hget, hpending, -⟩ := openInvitation_eq_some haccepted.opened
  obtain ⟨hmem, hid⟩ := Table.get_eq_some.mp hget
  rw [hclosed row hmem hid] at hpending
  cases hpending

theorem not_accepted_of_expired {ctx : Context} {c c' : Catalog} {id actor : String}
    {result : String × MembershipRole} {time : ℤ} (hends : EndsAt id time c)
    (hnow : time ≤ ctx.now) : ¬ (acceptInvitation ctx id actor).Returns c result c' := by
  intro h
  obtain ⟨row, own, haccepted⟩ := acceptInvitation_ensures ctx id actor c result c' h
  obtain ⟨hget, -, hexpires⟩ := openInvitation_eq_some haccepted.opened
  obtain ⟨hmem, hid⟩ := Table.get_eq_some.mp hget
  have hend : row.expiresAt = time := hends row hmem hid
  omega

/-- A new invitation is the only one of its id and ends when its answer says. -/
theorem createInvitation_endsAt {ctx : Context} {actor organization email : String}
    {role : MembershipRole} {id token : String} (c : Catalog) :
    (createInvitation ctx actor organization email role id token).Ensures c
      fun result c' => EndsAt id result.2.2 c' := by
  unfold createInvitation
  apply ensures_check
  intro address _
  rw [ensures_transaction]
  apply ensures_check
  intro own _
  simp only [insertInvitation, Access.record, ensures_bind, ensures_read, ensures_require,
    ensures_found, ensures_write, ensures_pure]
  intro _ _ _ _ invitations hinsert
  obtain ⟨hrows, hfresh⟩ := Table.insert_eq_some hinsert
  intro row hrow hid
  rw [show _ = invitations.rows from rfl, hrows, List.mem_append, List.mem_singleton] at hrow
  rcases hrow with hold | hnew
  · exact absurd hid (hfresh row hold)
  · rw [hnew]

theorem roleOf_put {c : Catalog} {memberships : Table Membership.key} {member : Membership}
    (h : c.memberships = memberships.put member) :
    c.roleOf member.organization member.actor = some member.role := by
  have hmem : member ∈ c.memberships.rows := by
    rw [h]
    exact Table.mem_put.mpr (.inl rfl)
  exact roleOf_of_mem hmem

/-- In every run: an acceptance gives the actor the offered role or the higher one they
have. The acceptances give what their inviters may give exactly if those into the
bootstrap organization are of invitations whose inviter is an owner of it. After an
acceptance, a cancellation or a drop of its inviter, and from its end on, an
invitation is never accepted, unless its id is drawn again. -/
theorem invitations_law (events : List (Context × Operation)) :
    ((∀ c row, Accepts events c row → MayGrant c row.inviter row.organization row.role) ↔
      ∀ c row, Accepts events c row → OwnersInvite c row) ∧
    (∀ before ctx id actor result c',
      (acceptInvitation ctx id actor).Returns (catalogMachine.run before) result c' →
        ∃ row, (catalogMachine.run before).invitations.get id = some row ∧
          c'.roleOf row.organization actor = some (higherRole
            ((catalogMachine.run before).roleOf row.organization actor) row.role)) ∧
    (∀ id before event between, Closes id (catalogMachine.run before) event →
      (∀ later ∈ between, ¬ Draws id later) → ∀ ctx actor result c',
        ¬ (acceptInvitation ctx id actor).Returns
          (catalogMachine.run (before ++ event :: between)) result c') ∧
    ∀ before ctx actor organization email role id token result c' between,
      (createInvitation ctx actor organization email role id token).Returns
        (catalogMachine.run before) result c' →
      (∀ later ∈ between, ¬ Draws id later) → ∀ ctx' actor' result' c'',
        result.2.2 ≤ ctx'.now →
          ¬ (acceptInvitation ctx' id actor').Returns
            (catalogMachine.run (before ++
              (ctx, .createInvitation actor organization email role id token) :: between))
            result' c'' := by
  refine ⟨?_, ?_, ?_, ?_⟩
  · constructor
    · rintro h c row ⟨before, ctx, id, actor, after, result, c', hevents, hc, hreturns, hrow⟩
      refine (accepted_mayGrant_iff hreturns hrow).mp (h c row ?_)
      exact ⟨before, ctx, id, actor, after, result, c', hevents, hc, hreturns, hrow⟩
    · rintro h c row ⟨before, ctx, id, actor, after, result, c', hevents, hc, hreturns, hrow⟩
      refine (accepted_mayGrant_iff hreturns hrow).mpr (h c row ?_)
      exact ⟨before, ctx, id, actor, after, result, c', hevents, hc, hreturns, hrow⟩
  · intro before ctx id actor result c' hreturns
    obtain ⟨row, own, haccepted⟩ := acceptInvitation_ensures ctx id actor _ result c' hreturns
    refine ⟨row, (openInvitation_eq_some haccepted.opened).1, ?_⟩
    have hrole := roleOf_put haccepted.memberships
    rw [haccepted.result_eq] at hrole
    exact hrole
  · intro id before event between hcloses hdraws ctx actor result c'
    apply not_accepted_of_closed
    exact catalogMachine.run_kept (I := Closed id) (B := Closes id) (E := Draws id)
      (closed_of_closes id) (closed_step id) hcloses hdraws
  · intro before ctx actor organization email role id token result c' between hreturns hdraws
      ctx' actor' result' c'' hnow
    have hnew : EndsAt id result.2.2 (catalogMachine.step (catalogMachine.run before)
        (ctx, .createInvitation actor organization email role id token)) := by
      show EndsAt id result.2.2 ((createInvitation ctx actor organization email role id
        token).discard.after (catalogMachine.run before))
      rw [after_discard, hreturns.after_eq]
      exact createInvitation_endsAt _ result c' hreturns
    have hends : EndsAt id result.2.2 (catalogMachine.run (before ++
        (ctx, .createInvitation actor organization email role id token) :: between)) := by
      rw [catalogMachine.run_append, Machine.runFrom_cons]
      exact catalogMachine.runFrom_invariant_of (A := fun later => ¬ Draws id later)
        (fun c event hevent hc => endsAt_step id result.2.2 c event hc hevent) hnew between hdraws
    exact not_accepted_of_expired hends hnow

/-! ## A demoted owner of the bootstrap organization -/

/-- A call of a current session at `now`, without channels. -/
def sessionAt (now : ℤ) (event : String) : Context where
  now := now
  current := fun _ => true
  event := event
  channels := []
  authorizationStore := false
  authority := none
  lifecycleAdmission := none
  parseUrl := fun _ => none
  toLowerCase := fun text => text
  digest := fun text => text
  placementDigest := fun _ => ""

/-- A second owner of the bootstrap organization invites an admin and is then an admin. -/
def demotion : List (Context × Operation) :=
  [(sessionAt 0 "e0", .initializeInstallation "op" "a" "Home" "o"),
    (sessionAt 1 "e1", .setMember "a" "o" "b" (some .owner)),
    (sessionAt 2 "e2", .createInvitation "b" "o" "c@d.ee" .admin "i" "t"),
    (sessionAt 3 "e3", .setMember "a" "o" "b" (some .admin))]

/-- The invitation of the second owner. -/
def demotedInvitation : Invitation :=
  ⟨"i", "o", "c@d.ee", .admin, "t", "b", 2,
    2 + invitationTtlMs, none, none, none⟩

/-- The demoted inviter could not invite any more, and the invitation is accepted. -/
theorem demoted_inviter_grants :
    ¬ ∀ c row, Accepts (demotion ++ [(sessionAt 4 "e4", .acceptInvitation "i" "c")])
      c row → MayGrant c row.inviter row.organization row.role := by
  intro h
  have hrun : ((acceptInvitation (sessionAt 4 "e4") "i" "c")
        (catalogMachine.run demotion)).1 = .ok ("o", .admin) ∧
      (catalogMachine.run demotion).invitations.get "i" = some demotedInvitation ∧
      (catalogMachine.run demotion).roleOf "o" "b" = some .admin ∧
      (catalogMachine.run demotion).bootstrap.map Bootstrap.organization = some "o" := by
    decide
  generalize hc : catalogMachine.run demotion = c at hrun
  obtain ⟨hreturns, hrow, hrole, hbootstrap⟩ := hrun
  have haccepts : Accepts (demotion ++
      [(sessionAt 4 "e4", .acceptInvitation "i" "c")]) c demotedInvitation :=
    ⟨demotion, sessionAt 4 "e4", "i", "c", [], ("o", .admin),
      (acceptInvitation (sessionAt 4 "e4") "i" "c").after c, rfl, hc.symm,
      Prod.ext hreturns rfl, hrow⟩
  obtain ⟨own, hown, -, -, hrule⟩ := h c demotedInvitation haccepts
  have hadmin : own = .admin := Option.some.inj (hown.symm.trans hrole)
  exact hrule ⟨by simp [hadmin], hbootstrap⟩

end Sbarbase.Control.Proofs.Invitations
