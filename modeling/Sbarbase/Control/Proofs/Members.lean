import Sbarbase.Control.Proofs.Frames
/-!
# Every organization keeps an owner

Memberships are written by few statements: the insert of a new organization with
its owner, an upsert, a removal, and the two deletions of an organization. One
lemma says when each of them keeps an owner in every organization. The
operations then are calls of these statements behind their checks, and all of
them change nothing when they throw.
-/

set_option synthInstance.maxSize 5000

namespace Sbarbase.Control.Proofs.Members

open Lib Lib.Call Control Control.Proofs.Frames

/-! ## Owners -/

/-- Every organization has a membership of an owner. -/
def Owned (organizations : Table Organization.id) (memberships : Table Membership.key) : Prop :=
  ∀ row ∈ organizations.rows,
    ∃ member ∈ memberships.rows, member.organization = row.id ∧ member.role = .owner

abbrev HasOwners (c : Catalog) : Prop := Owned c.organizations c.memberships

theorem owners_pos_iff (c : Catalog) (organization : String) : 0 < c.owners organization ↔
      ∃ member ∈ c.memberships.rows, member.organization = organization ∧ member.role = .owner := by
  simp [Catalog.owners, List.countP_pos_iff]

/-- The row of the membership table that `roleOf` reads. -/
theorem roleOf_of_mem {c : Catalog} {member : Membership} (h : member ∈ c.memberships.rows) :
    c.roleOf member.organization member.actor = some member.role := by
  have hget : c.memberships.get (member.organization, member.actor) = some member :=
    Table.get_eq_some.mpr ⟨h, rfl⟩
  rw [Catalog.roleOf, hget]
  rfl

/-- Where there are two owners, one of them is not the target. -/
theorem other_owner {c : Catalog} {organization : String} (target : String)
    (h : 1 < c.owners organization) :
    ∃ member ∈ c.memberships.rows,
      member.organization = organization ∧ member.role = .owner ∧ member.actor ≠ target := by
  by_contra hnone
  have hall : ∀ member ∈ c.memberships.rows, member.organization = organization →
      member.role = .owner → member.actor = target := by
    intro member hmem horganization hrole
    by_contra hactor
    exact hnone ⟨member, hmem, horganization, hrole, hactor⟩
  have hsub : (c.memberships.rows.filter fun member =>
      member.organization = organization && member.role = .owner).Nodup :=
    (List.Nodup.of_map _ c.memberships.distinct).filter _
  have hone : (c.memberships.rows.filter fun member =>
      member.organization = organization && member.role = .owner) ⊆
      [⟨organization, target, .owner⟩] := by
    intro member hmem
    simp only [List.mem_filter, Bool.and_eq_true, decide_eq_true_eq] at hmem
    obtain ⟨hmem, horganization, hrole⟩ := hmem
    have hactor := hall member hmem horganization hrole
    rw [List.mem_singleton, ← horganization, ← hactor, ← hrole]
  have hle := (hsub.subperm hone).length_le
  rw [Catalog.owners, List.countP_eq_length_filter] at h
  simp only [List.length_singleton] at hle
  omega

/-! ## The statements that write memberships -/

section

variable {c : Catalog}

/-- A new organization comes with its owner. -/
theorem owned_insert (hc : HasOwners c) {row : Organization}
    {owner : String} {organizations : Table Organization.id}
    {memberships : Table Membership.key}
    (horganizations : c.organizations.insert row = some organizations)
    (hmemberships : c.memberships.insert ⟨row.id, owner, .owner⟩ = some memberships) :
    Owned organizations memberships := by
  have hrows := (Table.insert_eq_some horganizations).1
  have hmembers := (Table.insert_eq_some hmemberships).1
  intro other hother
  rw [hrows, List.mem_append, List.mem_singleton] at hother
  rw [hmembers]
  rcases hother with hold | rfl
  · obtain ⟨member, hmem, hmember⟩ := hc other hold
    exact ⟨member, List.mem_append_left _ hmem, hmember⟩
  · exact ⟨_, List.mem_append_right _ List.mem_cons_self, rfl, rfl⟩

/-- The membership of the target may go or be replaced: it is not an owner's, or
there is another owner. -/
def Replaceable (c : Catalog) (organization target : String) : Prop :=
  c.roleOf organization target ≠ some .owner ∨ 1 < c.owners organization

/-- An organization has an owner besides a membership that may go. -/
theorem owner_besides (hc : HasOwners c) {organization target : String}
    (hreplaceable : Replaceable c organization target) {row : Organization}
    (hrow : row ∈ c.organizations.rows) :
    ∃ member ∈ c.memberships.rows, member.organization = row.id ∧ member.role = .owner ∧
      ¬ (member.organization = organization ∧ member.actor = target) := by
  obtain ⟨member, hmem, horganization, hrole⟩ := hc row hrow
  by_cases htarget : member.organization = organization ∧ member.actor = target
  · have hroleOf : c.roleOf organization target = some .owner := by
      rw [← htarget.1, ← htarget.2, ← hrole]
      exact roleOf_of_mem hmem
    have howners : 1 < c.owners organization := by
      rcases hreplaceable with hnot | howners
      · exact absurd hroleOf hnot
      · exact howners
    obtain ⟨other, hother, hin, howner, hactor⟩ := other_owner target howners
    have hsame : other.organization = row.id := by
      rw [hin, ← htarget.1, horganization]
    exact ⟨other, hother, hsame, howner, fun h => hactor h.2⟩
  · exact ⟨member, hmem, horganization, hrole, htarget⟩

theorem owned_put (hc : HasOwners c) {member : Membership}
    (h : member.role = .owner ∨ Replaceable c member.organization member.actor) :
    Owned c.organizations (c.memberships.put member) := by
  intro row hrow
  rcases h with howner | hreplaceable
  · obtain ⟨old, hold, horganization, hrole⟩ := hc row hrow
    by_cases hkey : Membership.key old = Membership.key member
    · have hsame : old.organization = member.organization := congrArg Prod.fst hkey
      exact ⟨member, Table.mem_put.mpr (.inl rfl), hsame ▸ horganization, howner⟩
    · exact ⟨old, Table.mem_put.mpr (.inr ⟨hold, hkey⟩), horganization, hrole⟩
  · obtain ⟨old, hold, horganization, hrole, hother⟩ := owner_besides hc hreplaceable hrow
    have hkey : Membership.key old ≠ Membership.key member := by
      intro hkey
      exact hother ⟨congrArg Prod.fst hkey, congrArg Prod.snd hkey⟩
    exact ⟨old, Table.mem_put.mpr (.inr ⟨hold, hkey⟩), horganization, hrole⟩

theorem owned_remove (hc : HasOwners c) {organization target : String}
    (hreplaceable : Replaceable c organization target) :
    Owned c.organizations (c.memberships.keep fun row =>
      !(row.organization = organization && row.actor = target)) := by
  intro row hrow
  obtain ⟨old, hold, horganization, hrole, hother⟩ := owner_besides hc hreplaceable hrow
  refine ⟨old, Table.mem_keep.mpr ⟨hold, ?_⟩, horganization, hrole⟩
  simpa [Decidable.imp_iff_not_or] using hother

/-- An organization goes together with its memberships. -/
theorem owned_delete (hc : HasOwners c) (organization : String) :
    Owned (c.organizations.keep fun row => row.id ≠ organization)
      (c.memberships.keep fun row => row.organization ≠ organization) := by
  intro row hrow
  obtain ⟨hrow, hid⟩ := Table.mem_keep.mp hrow
  obtain ⟨member, hmem, horganization, hrole⟩ := hc row hrow
  refine ⟨member, Table.mem_keep.mpr ⟨hmem, ?_⟩, horganization, hrole⟩
  rw [horganization]
  exact hid

theorem owned_rename (hc : HasOwners c) (p : Organization → Bool) (title : String) :
    Owned (c.organizations.modify p (fun row => { row with name := title }) fun _ => rfl)
      c.memberships := by
  intro row hrow
  obtain ⟨old, hold, hnew⟩ := Table.mem_modify.mp hrow
  have hid : row.id = old.id := by
    rw [← hnew]
    split <;> rfl
  rw [hid]
  exact hc old hold

end

/-! ## The operations -/

section

variable (ctx : Context) {c : Catalog}

/-- An operation that leaves the people alone keeps the owners. -/
theorem keepsOwners_of_leaves {α : Type} (call : CatalogCall α) [Leaves people call] :
    Keeps HasOwners call := by
  apply keeps_of_leaves (p := people)
  intro c c' hpeople hc
  have horganizations : c'.organizations = c.organizations := congrArg Prod.fst hpeople
  have hmemberships : c'.memberships = c.memberships := congrArg (·.2.2.1) hpeople
  show Owned c'.organizations c'.memberships
  rw [horganizations, hmemberships]
  exact hc

theorem keepsOwners_createOrganization (owner name id : String) :
    Keeps HasOwners (createOrganization ctx owner name id) := by
  intro c hc
  unfold createOrganization
  apply ensures_check
  intro _ _
  apply ensures_check
  intro title _
  simp only [insertOrganization, insertMembership, Access.record, ensures_transaction,
    ensures_bind, ensures_read, ensures_found, ensures_require, ensures_write, ensures_pure]
  intro organizations horganizations _ memberships hmemberships
  exact owned_insert hc horganizations hmemberships

theorem keepsOwners_initializeInstallation (operation owner name id : String) :
    Keeps HasOwners (initializeInstallation ctx operation owner name id) := by
  intro c hc
  unfold initializeInstallation
  apply ensures_check
  intro _ _
  apply ensures_check
  intro _ _
  apply ensures_check
  intro title _
  rw [ensures_transaction, ensures_bind, ensures_read]
  split
  · exact keepsOwners_of_leaves _ c hc
  · simp only [insertOrganization, insertMembership, insertBootstrap, Access.record, ensures_bind,
      ensures_read, ensures_found, ensures_require, ensures_write, ensures_pure]
    intro organizations horganizations _ memberships hmemberships _ _
    exact owned_insert hc horganizations hmemberships

theorem keepsOwners_renameOrganization (actor organization name : String) :
    Keeps HasOwners (renameOrganization ctx actor organization name) := by
  intro c hc
  unfold renameOrganization
  apply ensures_check
  intro title _
  rw [ensures_transaction]
  apply ensures_check
  intro _ _
  simp only [Access.record, ensures_bind, ensures_write]
  exact owned_rename hc _ title

theorem writeMember_ensures (hc : HasOwners c)
    {organization target : String} {role : Option MembershipRole}
    (h : role = some .owner ∨ Replaceable c organization target) :
    (writeMember organization target role).Ensures c
      fun _ c' => HasOwners c' := by
  cases role with
  | none =>
      have hreplaceable : Replaceable c organization target := h.resolve_left (by simp)
      simp only [writeMember, ensures_write]
      exact owned_remove hc hreplaceable
  | some role =>
      simp only [writeMember, upsertMembership, ensures_bind, ensures_read, ensures_require,
        ensures_write]
      intro _
      exact owned_put hc (h.imp_left Option.some.inj)

/-- The guard of `setMember` covers demotion and removal, of oneself too. -/
theorem keepsOwners_setMember (actor organization target : String)
    (role : Option MembershipRole) : Keeps HasOwners (setMember ctx actor organization target role) := by
  intro c hc
  unfold setMember
  apply ensures_check
  intro _ _
  rw [ensures_transaction]
  apply ensures_check
  intro _ _
  rw [ensures_bind, ensures_read, ensures_bind, ensures_require]
  intro hguard
  have hwrite : role = some .owner ∨ Replaceable c organization target := by
    by_cases hrole : role = some .owner
    · exact .inl hrole
    · right
      by_cases howner : c.roleOf organization target = some .owner
      · right
        by_contra hfew
        exact hguard ⟨howner, hrole, by simpa using hfew⟩
      · exact .inl howner
  rw [ensures_bind]
  exact (writeMember_ensures hc hwrite).mono fun _ c' hc' => keepsOwners_of_leaves _ c' hc'

theorem keepsOwners_cancelWhere (p : Invitation → Bool) : Keeps HasOwners (cancelWhere ctx p) := by
  intro c hc
  rw [cancelWhere, ensures_write]
  exact hc

theorem keepsOwners_changeMember (actor organization target : String)
    (role : Option MembershipRole) :
    Keeps HasOwners (changeMember ctx actor organization target role) := by
  unfold changeMember
  apply (keepsOwners_of_leaves _).bind
  intro _
  apply Keeps.transaction
  apply (keepsOwners_of_leaves _).bind
  intro _
  apply (keepsOwners_of_leaves _).bind
  intro c
  apply (keepsOwners_of_leaves _).bind
  intro current
  apply (keepsOwners_setMember ctx actor organization target role).bind
  intro _
  exact (keepsOwners_cancelWhere ctx _).when.bind fun _ => keepsOwners_of_leaves _

theorem keepsOwners_createInvitation (actor organization email : String) (role : MembershipRole)
    (id token : String) :
    Keeps HasOwners (createInvitation ctx actor organization email role id token) := by
  intro c hc
  unfold createInvitation
  apply ensures_check
  intro address _
  rw [ensures_transaction]
  apply ensures_check
  intro own _
  simp only [insertInvitation, Access.record, ensures_bind, ensures_read, ensures_require,
    ensures_found, ensures_write, ensures_pure]
  intro _ _ _ _ invitations _
  exact hc

theorem keepsOwners_cancelInvitation (actor organization id : String) :
    Keeps HasOwners (cancelInvitation ctx actor organization id) := by
  unfold cancelInvitation
  apply Keeps.transaction
  apply (keepsOwners_of_leaves _).bind
  intro _
  apply (keepsOwners_of_leaves _).bind
  intro c
  apply (keepsOwners_of_leaves _).bind
  intro _
  exact (keepsOwners_cancelWhere ctx _).bind fun _ => keepsOwners_of_leaves _

/-- Nobody loses the role of an owner by accepting an invitation. -/
theorem higherRole_owner (offered : MembershipRole) :
    higherRole (some .owner) offered = .owner := by
  cases offered <;> rfl

theorem keepsOwners_acceptInvitation (id actor : String) :
    Keeps HasOwners (acceptInvitation ctx id actor) := by
  intro c hc
  unfold acceptInvitation
  apply ensures_check
  intro _ _
  rw [ensures_transaction, ensures_bind, ensures_read]
  apply ensures_check
  intro row _
  apply ensures_check
  intro inviter _
  apply ensures_check
  intro _ _
  have hput : higherRole (c.roleOf row.organization actor) row.role = .owner ∨
      Replaceable c row.organization actor := by
    by_cases howner : c.roleOf row.organization actor = some .owner
    · left
      rw [howner]
      exact higherRole_owner row.role
    · exact .inr (.inl howner)
  have hupsert : (upsertMembership ⟨row.organization, actor,
      higherRole (c.roleOf row.organization actor) row.role⟩).Ensures c
        fun _ c' => HasOwners c' := by
    simp only [upsertMembership, ensures_bind, ensures_read, ensures_require, ensures_write]
    intro _
    exact owned_put hc hput
  rw [ensures_bind]
  refine hupsert.mono fun _ c' hc' => ?_
  rw [ensures_bind, ensures_write]
  exact keepsOwners_of_leaves _ _ hc'

theorem keepsOwners_deleteOrganization (actor organization : String) :
    Keeps HasOwners (deleteOrganization ctx actor organization) := by
  intro c hc
  unfold deleteOrganization
  rw [ensures_transaction]
  apply ensures_check
  intro _ _
  simp only [Access.record, ensures_bind, ensures_read, ensures_require, ensures_write]
  intro _ _ _
  exact owned_delete hc organization

theorem keepsOwners_relinkOrganization (actor : String) (row : Organization) :
    Keeps HasOwners (relinkOrganization ctx actor row) := by
  intro c hc
  unfold relinkOrganization
  rw [ensures_bind, ensures_read, ensures_ite]
  constructor
  · intro _
    exact keepsOwners_of_leaves _ c hc
  · intro _
    simp only [insertOrganization, insertMembership, Access.record, ensures_bind, ensures_read,
      ensures_found, ensures_require, ensures_write, ensures_pure]
    intro _ organizations horganizations _ memberships hmemberships
    exact owned_insert hc horganizations hmemberships

theorem keepsOwners_relinkEnvironment (actor : String) (ownership : Ownership) (runtime : String) :
    Keeps HasOwners (relinkEnvironment ctx actor ownership runtime) := by
  unfold relinkEnvironment
  apply (keepsOwners_of_leaves _).bind
  intro _
  apply (keepsOwners_of_leaves _).bind
  intro _
  apply (keepsOwners_of_leaves _).bind
  intro organizationName
  apply (keepsOwners_of_leaves _).bind
  intro projectName
  apply (keepsOwners_of_leaves _).bind
  intro environmentName
  apply Keeps.transaction
  apply (keepsOwners_of_leaves _).bind
  intro operator
  apply (keepsOwners_of_leaves _).bind
  intro _
  apply (keepsOwners_of_leaves _).bind
  intro c
  apply (keepsOwners_of_leaves _).bind
  intro _
  apply (keepsOwners_relinkOrganization ctx actor _).bind
  intro newOrganization
  apply (keepsOwners_of_leaves _).bind
  intro newProject
  apply (keepsOwners_of_leaves _).bind
  intro c'
  split <;> exact keepsOwners_of_leaves _

theorem keepsOwners_perform (op : Operation) : Keeps HasOwners (perform ctx op) := by
  cases op with
  | createOrganization owner name id =>
      exact (keepsOwners_createOrganization ctx owner name id).discard
  | initializeInstallation operation owner name id =>
      exact (keepsOwners_initializeInstallation ctx operation owner name id).discard
  | renameOrganization actor organization name =>
      exact keepsOwners_renameOrganization ctx actor organization name
  | deleteOrganization actor organization =>
      exact keepsOwners_deleteOrganization ctx actor organization
  | setMember actor organization target role =>
      exact keepsOwners_setMember ctx actor organization target role
  | changeMember actor organization target role =>
      exact (keepsOwners_changeMember ctx actor organization target role).discard
  | createInvitation actor organization email role id token =>
      exact (keepsOwners_createInvitation ctx actor organization email role id token).discard
  | cancelInvitation actor organization id =>
      exact keepsOwners_cancelInvitation ctx actor organization id
  | acceptInvitation id actor => exact (keepsOwners_acceptInvitation ctx id actor).discard
  | relinkEnvironment actor ownership runtime =>
      exact (keepsOwners_relinkEnvironment ctx actor ownership runtime).discard
  | _ =>
      -- Every other operation leaves organizations and memberships alone.
      unfold perform
      exact keepsOwners_of_leaves _

/-- An operation that throws changes nothing: a transaction behind checks, or steps
that do not throw behind checks. -/
theorem atomic_perform (op : Operation) : (perform ctx op).Atomic := by
  cases op <;>
    simp only [perform, createOrganization, initializeInstallation, renameOrganization,
      deleteOrganization, setMember, changeMember, createInvitation, cancelInvitation,
      acceptInvitation, createProject, createProjectWithProduction, renameProject, deleteProject,
      transferProject, createEnvironment, renameEnvironment, relinkEnvironment,
      recoverProvisioning, updateJob, claimProvision, finishProvision, applyProvisionReceipt,
      recoverPreflightReceipt, retryProvision, registerDurableInventory,
      registerLifecycleResources, deleteEnvironment, requestLifecycle, resumeLifecycleOperation,
      lifecycleEffect, blockLifecycle, finishLifecycle, changeRuntimeRouting, writeElsewhere] <;>
    infer_instance

end

/-! ## Runs -/

theorem owned_step (c : Catalog) (event : Context × Operation) (hc : HasOwners c) :
    HasOwners (catalogMachine.step c event) :=
  (keepsOwners_perform event.1 event.2).after (atomic_perform event.1 event.2) hc

theorem owned_run (events : List (Context × Operation)) :
    HasOwners (catalogMachine.run events) := by
  have hinit : HasOwners catalogMachine.initial := by
    intro row hrow
    exact absurd hrow List.not_mem_nil
  exact catalogMachine.run_invariant hinit owned_step events

/-- Whatever operations ran, in any order, returning or throwing, every organization
has an owner, and a call that throws leaves memberships, invitations and the audit
log as they were. -/
theorem owners_kept : (∀ (events : List (Context × Operation)),
      ∀ row ∈ (catalogMachine.run events).organizations.rows,
        1 ≤ (catalogMachine.run events).owners row.id) ∧
    ∀ (ctx : Context) (op : Operation) (c c' : Catalog) (error : String),
      perform ctx op c = (.error error, c') →
        c'.memberships = c.memberships ∧ c'.invitations = c.invitations ∧ c'.audit = c.audit := by
  constructor
  · intro events row hrow
    exact (owners_pos_iff _ _).mpr (owned_run events row hrow)
  · intro ctx op c c' error hthrows
    have hsame : c' = c := (atomic_perform ctx op).unchanged c error c' hthrows
    rw [hsame]
    exact ⟨rfl, rfl, rfl⟩

end Sbarbase.Control.Proofs.Members
