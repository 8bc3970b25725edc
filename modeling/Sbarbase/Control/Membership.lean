import Sbarbase.Control.Outbox
/-!
# Organizations, members and invitations

The operations of `src/control/catalog.ts` that write memberships and
invitations. Random ids are arguments.
-/

namespace Sbarbase.Control

open Lib

def invitationTtlMs : ℤ := 7 * 24 * 60 * 60 * 1000

/-- `[^\s@"<>()\[\],;:\\]` -/
def isLocalChar (c : Char) : Bool :=
  !isSpace c && c ∉ ['@', '"', '<', '>', '(', ')', '[', ']', ',', ';', ':', '\\']

/-- `[a-z0-9.-]` -/
def isDomainChar (c : Char) : Bool := isLower c || isDigit c || c = '.' || c = '-'

/-- `[a-z0-9.-]+\.[a-z]{2,}`: the last dot has two letters or more behind it. -/
def isDomain (chars : List Char) : Bool :=
  let tld := (chars.reverse.takeWhile isLower).length
  chars.all isDomainChar && 2 ≤ tld && (chars.reverse.drop tld).head? = some '.' &&
    tld + 1 < chars.length

/-- `/^[^\s@"<>()\[\],;:\\]+@[a-z0-9.-]+\.[a-z]{2,}$/` -/
def isEmail (value : String) : Bool :=
  let localPart := value.toList.takeWhile (· ≠ '@')
  localPart ≠ [] && localPart.all isLocalChar && localPart.length < value.toList.length &&
    isDomain (value.toList.drop (localPart.length + 1))

def invitationEmail (toLowerCase : String → String) (value : String) : CatalogCall String := do
  let email := toLowerCase (trim value)
  .require (utf16Length email ≤ 254 ∧ isEmail email) "Invalid email"
  return email

/-- `used_at IS NULL AND cancelled_at IS NULL` -/
def Invitation.pending (row : Invitation) : Bool := row.usedAt = none && row.cancelledAt = none

section

variable (ctx : Context)

def createOrganization (owner name id : String) : CatalogCall String := do
  Access.actor ctx owner
  let title ← Access.name name
  .transaction do
    insertOrganization ⟨id, title⟩
    insertMembership ⟨id, owner, .owner⟩
    Access.record ctx owner "organization.created" id []
    return id

def initializeInstallation (operation owner name id : String) : CatalogCall String := do
  Access.actor ctx owner
  Access.actor ctx operation
  let title ← Access.name name
  .transaction do
    let c ← .read fun c => c
    match c.bootstrap with
    | some existing =>
      .require (existing.operation = operation ∧ existing.actor = owner)
        "Installation already initialized"
      -- A retry does not bring revoked authority back.
      let _ ← Access.requireRole ctx owner existing.organization [.owner]
      return existing.organization
    | none =>
      insertOrganization ⟨id, title⟩
      insertMembership ⟨id, owner, .owner⟩
      insertBootstrap ⟨operation, owner, id⟩
      Access.record ctx owner "installation.initialized" id []
      return id

def listMembers (actor organization : String) : CatalogCall (List (String × MembershipRole)) := do
  let _ ← Access.requireRole ctx actor organization [.owner, .admin]
  let c ← .read id
  let members := c.memberships.rows.filter fun row => row.organization = organization
  return (members.mergeSort fun a b => a.role.rank < b.role.rank ||
    (a.role = b.role && a.actor ≤ b.actor)).map fun row => (row.actor, row.role)

/-- How many owners the organization has. -/
def Catalog.owners (c : Catalog) (organization : String) : ℕ :=
  c.memberships.rows.countP fun row => row.organization = organization && row.role = .owner

/-- The role of a member after `setMember`: none removes. -/
def writeMember (organization target : String) : Option MembershipRole → CatalogCall Unit
  | none => .write fun c => { c with
      memberships := c.memberships.keep fun row =>
        !(row.organization = organization && row.actor = target) }
  | some role => upsertMembership ⟨organization, target, role⟩

def setMember (actor organization target : String) (role : Option MembershipRole) :
    CatalogCall Unit := do
  Access.actor ctx target
  .transaction do
    let _ ← Access.requireRole ctx actor organization [.owner]
    let c ← .read id
    let previous := c.roleOf organization target
    .require (¬ (previous = some .owner ∧ role ≠ some .owner ∧ c.owners organization ≤ 1))
      "Last owner cannot be removed"
    writeMember organization target role
    Access.record ctx actor "membership.changed" organization
      [("target", .text target), ("role", (role.map fun r => .text r.text).getD .null)]
    .when (previous = some .owner ∨ role = some .owner) do
      let _ ← Outbox.notify ctx .membershipOwnerChanged .critical
        ("membership.owner_changed|" ++ organization ++ "|" ++ target)
        ⟨some organization, none, none, none⟩ actor "owner_changed"
        [("target", .text target),
          ("role", .text ((role.map MembershipRole.text).getD "removed"))]

/-- `UPDATE invitations SET cancelled_at=? WHERE … AND used_at IS NULL AND cancelled_at IS NULL` -/
def cancelWhere (p : Invitation → Bool) : CatalogCall Unit :=
  .write fun c => { c with
    invitations := c.invitations.modify (fun row => p row && row.pending)
      (fun row => { row with cancelledAt := some ctx.now }) fun _ => rfl }

def changeMember (actor organization target : String) (role : Option MembershipRole) :
    CatalogCall (List (String × MembershipRole)) := do
  Access.actor ctx target
  .transaction do
    let _ ← Access.requireRole ctx actor organization [.owner]
    let c ← .read id
    let current ← .found (c.roleOf organization target) "Unknown member"
    setMember ctx actor organization target role
    -- Invitations carry their inviter's authority and go when it drops.
    .when ((role.map fun r => decide (current.rank < r.rank)).getD true)
      (cancelWhere ctx fun row => row.organization = organization && row.inviter = target)
    listMembers ctx actor organization

def createInvitation (actor organization email : String) (role : MembershipRole)
    (id token : String) : CatalogCall (String × String × ℤ) := do
  let address ← invitationEmail ctx.toLowerCase email
  .transaction do
    let own ← Access.requireRole ctx actor organization [.owner, .admin]
    .require (¬ (role = .owner ∧ own ≠ .owner)) "Forbidden"
    let c ← .read fun c => c
    -- The bootstrap organization runs the installation: only its owners invite into it.
    .require (¬ (own ≠ .owner ∧ (c.bootstrap.map Bootstrap.organization) = some organization))
      "Forbidden"
    let expiresAt := ctx.now + invitationTtlMs
    insertInvitation ⟨id, organization, address, role, ctx.digest token, actor, ctx.now, expiresAt,
      none, none, none⟩
    Access.record ctx actor "invitation.created" organization [("role", .text role.text)]
    return (id, token, expiresAt)

def cancelInvitation (actor organization id : String) : CatalogCall Unit :=
  .transaction do
    let _ ← Access.requireRole ctx actor organization [.owner, .admin]
    let c ← .read fun c => c
    let p (row : Invitation) : Bool := row.id = id && row.organization = organization
    .require ((c.invitations.rows.countP fun row => p row && row.pending) = 1)
      "Unknown invitation"
    cancelWhere ctx p
    Access.record ctx actor "invitation.cancelled" organization []

/-- The pending invitation of an id, at the clock of the call. -/
def Catalog.openInvitation (c : Catalog) (id : String) (now : ℤ) : Option Invitation :=
  (c.invitations.get id).filter fun row => row.pending && row.expiresAt > now

/-- The higher of the role a member has and the one offered. -/
def higherRole (current : Option MembershipRole) (offered : MembershipRole) : MembershipRole :=
  match current with
  | some role => if role.rank < offered.rank then role else offered
  | none => offered

def acceptInvitation (id actor : String) : CatalogCall (String × MembershipRole) := do
  Access.actor ctx actor
  .transaction do
    let c ← .read fun c => c
    let row ← .found (c.openInvitation id ctx.now) "Invalid invitation"
    -- The inviter must still be able to grant this role now.
    let inviter ← .found (c.roleOf row.organization row.inviter) "Invalid invitation"
    .require (¬ (inviter = .viewer ∨ (row.role = .owner ∧ inviter ≠ .owner)))
      "Invalid invitation"
    let current := c.roleOf row.organization actor
    let role := higherRole current row.role
    upsertMembership ⟨row.organization, actor, role⟩
    .write fun c => { c with
      invitations := c.invitations.modify (fun row => row.id = id)
        (fun row => { row with usedAt := some ctx.now, usedBy := some actor }) fun _ => rfl }
    Access.record ctx actor "invitation.accepted" row.organization [("role", .text role.text)]
    .when (role = .owner ∧ current ≠ some .owner) do
      let _ ← Outbox.notify ctx .membershipOwnerChanged .critical
        ("membership.owner_changed|" ++ row.organization ++ "|" ++ actor)
        ⟨some row.organization, none, none, none⟩ actor "owner_changed"
        [("target", .text actor), ("role", .text role.text)]
    return (row.organization, role)

def renameOrganization (actor organization name : String) : CatalogCall Unit := do
  let title ← Access.name name
  .transaction do
    let _ ← Access.requireRole ctx actor organization [.owner]
    .write fun c => { c with
      organizations := c.organizations.modify (fun row => row.id = organization)
        (fun row => { row with name := title }) fun _ => rfl }
    Access.record ctx actor "organization.renamed" organization []

/-- Another table still names the organization. -/
def Catalog.organizationReferenced (c : Catalog) (organization : String) : Bool :=
  (c.bootstrap.map Bootstrap.organization) = some organization ||
    (c.memberships.rows.any fun row => row.organization = organization) ||
    (c.invitations.rows.any fun row => row.organization = organization) ||
    (c.projects.rows.any fun row => row.organization = organization) ||
    c.jobs.rows.any fun row => row.organization = organization

def deleteOrganization (actor organization : String) : CatalogCall Unit :=
  .transaction do
    let _ ← Access.requireRole ctx actor organization [.owner]
    let c ← .read id
    .require ((c.bootstrap.map Bootstrap.organization) ≠ some organization)
      "Installation organization cannot be deleted"
    .require (c.projects.rows.all fun row => row.organization ≠ organization)
      "Organization has projects"
    Access.record ctx actor "organization.deleted" organization []
    .write fun c => { c with
      invitations := c.invitations.keep fun row => row.organization ≠ organization }
    .write fun c => { c with
      memberships := c.memberships.keep fun row => row.organization ≠ organization }
    let c ← .read id
    .require (c.organizationReferenced organization = false) foreignKeyFailed
    .write fun c => { c with
      organizations := c.organizations.keep fun row => row.id ≠ organization }

end

end Sbarbase.Control
