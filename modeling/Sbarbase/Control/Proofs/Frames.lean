import Sbarbase.Control.Catalog
/-!
# What the operations leave alone

Checks write nothing, and a record or an event for the operator writes only the
tables people read. So an operation on members leaves the runtimes alone, and an
operation on runtimes leaves the members alone. Each fact is an instance, found
along the operation.
-/

set_option synthInstance.maxSize 5000

namespace Sbarbase.Control.Proofs.Frames

open Lib Lib.Call Control

/-! ## Checks -/

section

variable {τ : Type} {p : Catalog → τ} (ctx : Context)

instance (value : String) : Leaves p (Access.name value) := by
  unfold Access.name
  infer_instance

instance (value : String) : Leaves p (Access.actor ctx value) := by
  unfold Access.actor Access.requireCurrentManagement
  infer_instance

instance (member organization : String) (roles : List MembershipRole) :
    Leaves p (Access.requireRole ctx member organization roles) := by
  unfold Access.requireRole
  infer_instance

instance (member id : String) (roles : List MembershipRole) :
    Leaves p (Access.project ctx member id roles) := by
  unfold Access.project
  infer_instance

instance (member environment : String) (roles : List MembershipRole) :
    Leaves p (Access.environmentProject ctx member environment roles) := by
  unfold Access.environmentProject
  infer_instance

instance (member environment : String) (roles : List MembershipRole) :
    Leaves p (Access.retainedProject ctx member environment roles) := by
  unfold Access.retainedProject
  infer_instance

instance (member : String) : Leaves p (Access.installationOperator ctx member) := by
  unfold Access.installationOperator
  infer_instance

instance : Leaves p requireEnvironmentCapacity := by
  unfold requireEnvironmentCapacity
  infer_instance

instance (organization name : String) (except : Option String) :
    Leaves p (unusedProjectName organization name except) := by
  unfold unusedProjectName
  infer_instance

instance (job : ProvisionJob) : Leaves p (checkRequester ctx job) := by
  unfold checkRequester
  infer_instance

instance (actor organization : String) : Leaves p (listMembers ctx actor organization) := by
  unfold listMembers
  infer_instance

instance (toLowerCase : String → String) (value : String) :
    Leaves p (invitationEmail toLowerCase value) := by
  unfold invitationEmail
  infer_instance

instance (runtime : String) : Leaves p (assertLifecycleRuntimeUnheld runtime) := by
  unfold assertLifecycleRuntimeUnheld
  infer_instance

instance (row : LifecycleRow) (renewal : Bool) :
    Leaves p (captureAuthorization ctx row renewal) := by
  unfold captureAuthorization
  cases ctx.authority <;> infer_instance

instance (row : LifecycleRow) : Leaves p (requireLifecycleAuthorization ctx row) := by
  unfold requireLifecycleAuthorization
  infer_instance

instance (actor environment : String) (state : LifecycleState) :
    Leaves p (assertLifecycleOwner ctx actor environment state) := by
  unfold assertLifecycleOwner
  infer_instance

instance (row : LifecycleRow) : Leaves p (lifecycleBinding ctx row) := by
  unfold lifecycleBinding
  infer_instance

instance (row : LifecycleRow) : Leaves p (recoveryReceipt ctx row) := by
  unfold recoveryReceipt
  cases ctx.lifecycleAdmission <;> infer_instance

instance (row : LifecycleRow) : Leaves p (assertRequester ctx row) := by
  unfold assertRequester
  infer_instance

instance (row : LifecycleRow) : Leaves p (assertLifecycleOperation ctx row) := by
  unfold assertLifecycleOperation
  infer_instance

instance (actor : String) (request : LifecycleRequest) (row : LifecycleRow) :
    Leaves p (requestLifecycle.purgeReceipt ctx actor request row) := by
  unfold requestLifecycle.purgeReceipt
  cases request <;> infer_instance

end

/-! ## Records -/

/-- The part is not one of the tables that events for the operator go to. -/
class Quiet {τ : Type} (p : Catalog → τ) : Prop where
  eq : ∀ c outbox deliveries, p { c with outbox := outbox, deliveries := deliveries } = p c

/-- The part is not one of the tables that records and events go to. -/
class Silent {τ : Type} (p : Catalog → τ) : Prop where
  eq : ∀ c audit outbox deliveries,
    p { c with audit := audit, outbox := outbox, deliveries := deliveries } = p c

instance {τ : Type} {p : Catalog → τ} [h : Silent p] : Quiet p :=
  ⟨fun c outbox deliveries => h.eq c c.audit outbox deliveries⟩

section

variable {τ : Type} {p : Catalog → τ} (ctx : Context)

instance [h : Silent p] (actor action subject : String) (detail : Detail) :
    Leaves p (Access.record ctx actor action subject detail) :=
  ⟨fun c => h.eq c _ c.outbox c.deliveries⟩

instance (actor action subject : String) (detail : Detail) :
    Total (Access.record ctx actor action subject detail) := by
  unfold Access.record
  infer_instance

section

variable [h : Quiet p]

include h in
theorem leaves_quiet {f : Catalog → Catalog} (hf : ∀ c, ∃ outbox deliveries,
    f c = { c with outbox := outbox, deliveries := deliveries }) :
    Leaves p (write f : CatalogCall Unit) := by
  refine ⟨fun c => ?_⟩
  obtain ⟨outbox, deliveries, hc⟩ := hf c
  show p (f c) = p c
  rw [hc]
  exact h.eq c outbox deliveries

instance (field : String) (value : Option String) :
    Leaves p (Outbox.notificationSubject field value) := by
  unfold Outbox.notificationSubject Outbox.notificationText
  cases value <;> infer_instance

instance (allowed : List String) (entry : String × DetailValue) :
    Leaves p (Outbox.checkField allowed entry) := by
  obtain ⟨field, value⟩ := entry
  unfold Outbox.checkField Outbox.notificationText
  cases value <;> infer_instance

instance (kind : NotificationKind) (dedupeKey : String) (subject : NotificationSubject)
    (actor reason : String) (detail : Detail) :
    Leaves p (Outbox.checkNotification ctx kind dedupeKey subject actor reason detail) := by
  unfold Outbox.checkNotification Outbox.notificationText
  infer_instance

instance (outbox : Table OutboxRow.id) :
    Leaves p (write ({ · with outbox := outbox }) : CatalogCall Unit) :=
  leaves_quiet fun c => ⟨outbox, c.deliveries, rfl⟩

instance (deliveries : Table DeliveryRow.key) :
    Leaves p (write ({ · with deliveries := deliveries }) : CatalogCall Unit) :=
  leaves_quiet fun c => ⟨c.outbox, deliveries, rfl⟩

instance (row : OutboxRow) : Leaves p (Outbox.insertEvent ctx row) := by
  unfold Outbox.insertEvent
  infer_instance

instance (kind : NotificationKind) (severity : NotificationSeverity) (dedupeKey : String)
    (subject : NotificationSubject) (actor reason : String) (detail : Detail) :
    Leaves p (Outbox.notify ctx kind severity dedupeKey subject actor reason detail) := by
  have hwrite : ∀ event : OutboxRow, Leaves p (write fun c : Catalog => { c with
      outbox := c.outbox.modify (fun row => row.id = event.id)
        (fun row => { row with occurrences := row.occurrences + 1, lastAt := ctx.now })
        fun _ => rfl } : CatalogCall Unit) :=
    fun event => leaves_quiet fun c => ⟨_, c.deliveries, rfl⟩
  have htail : ∀ c : Catalog, Leaves p (match Outbox.openEvent c dedupeKey ctx.now with
      | some event => do
        .write fun c => { c with
          outbox := c.outbox.modify (fun row => row.id = event.id)
            (fun row => { row with occurrences := row.occurrences + 1, lastAt := ctx.now })
            fun _ => rfl }
        return event.id
      | none => do
        Outbox.insertEvent ctx
          { id := ctx.event, time := ctx.now, lastAt := ctx.now
            windowUntil := ctx.now + Outbox.windowSeconds severity * 1000
            occurrences := 1, kind := kind.text, severity, dedupeKey
            organization := subject.organization, project := subject.project
            environment := subject.environment, runtime := subject.runtime
            actor, reason, detail, expiresAt := ctx.now + Outbox.notificationRetentionMs }
        return ctx.event : CatalogCall String) := by
    intro c
    split <;> infer_instance
  unfold Outbox.notify
  infer_instance

end

end

/-! ## The parts of the catalog -/

/-- Who owns and who may enter an organization. -/
abbrev people (c : Catalog) :
    Table Organization.id × Option Bootstrap × Table Membership.key × Table Invitation.id :=
  (c.organizations, c.bootstrap, c.memberships, c.invitations)

/-- The outcomes of provisioning attempts. -/
abbrev receipts (c : Catalog) : Table EffectResult.key × Table RecoveryDecision.key :=
  (c.effectResults, c.recoveryDecisions)

/-- The lifecycle of the environments and the effects of its operations. -/
abbrev deletions (c : Catalog) : Table LifecycleRow.environment × Table LifecycleEffect.key :=
  (c.lifecycle, c.effects)

/-- What decides whether a runtime is there. -/
abbrev runtimes (c : Catalog) := (c.jobs, deletions c, receipts c)

abbrev runtimesAndInvitations (c : Catalog) := (runtimes c, c.invitations)

abbrev peopleAndRuntimes (c : Catalog) := (people c, runtimes c)

/-- What an operation on jobs leaves alone. -/
abbrev besideJobs (c : Catalog) := (people c, deletions c, receipts c)

/-- What settling an attempt leaves alone. -/
abbrev besideReceipts (c : Catalog) := (people c, deletions c)

/-- What relinking leaves alone. -/
abbrev besideOwnership (c : Catalog) := (c.invitations, deletions c, receipts c)

/-- What an operation on a deleted environment leaves alone. -/
abbrev besideLifecycle (c : Catalog) := (people c, c.jobs, receipts c)

instance : Silent people := ⟨fun _ _ _ _ => rfl⟩

instance : Silent receipts := ⟨fun _ _ _ _ => rfl⟩

instance : Silent deletions := ⟨fun _ _ _ _ => rfl⟩

instance : Silent runtimes := ⟨fun _ _ _ _ => rfl⟩

instance : Silent runtimesAndInvitations := ⟨fun _ _ _ _ => rfl⟩

instance : Silent peopleAndRuntimes := ⟨fun _ _ _ _ => rfl⟩

instance : Silent besideJobs := ⟨fun _ _ _ _ => rfl⟩

instance : Silent besideReceipts := ⟨fun _ _ _ _ => rfl⟩

instance : Silent besideOwnership := ⟨fun _ _ _ _ => rfl⟩

instance : Silent besideLifecycle := ⟨fun _ _ _ _ => rfl⟩

instance : Silent Catalog.lifecycle := ⟨fun _ _ _ _ => rfl⟩

instance : Silent Catalog.effects := ⟨fun _ _ _ _ => rfl⟩

section

variable {α : Type} {c : CatalogCall α}

instance (priority := low) [h : Leaves peopleAndRuntimes c] : Leaves runtimes c :=
  h.comp Prod.snd

instance (priority := low) [h : Leaves peopleAndRuntimes c] : Leaves besideJobs c :=
  h.comp fun part => (part.1, part.2.2)

instance (priority := low) [h : Leaves runtimesAndInvitations c] : Leaves runtimes c :=
  h.comp Prod.fst

instance (priority := low) [h : Leaves runtimesAndInvitations c] : Leaves besideOwnership c :=
  h.comp fun part => (part.2, part.1.2)

instance (priority := low) [h : Leaves besideJobs c] : Leaves besideReceipts c :=
  h.comp fun part => (part.1, part.2.1)

instance (priority := low) [h : Leaves besideJobs c] : Leaves besideOwnership c :=
  h.comp fun part => (part.1.2.2.2, part.2)

instance (priority := low) [h : Leaves besideReceipts c] : Leaves people c := h.comp Prod.fst

instance (priority := low) [h : Leaves besideLifecycle c] : Leaves people c := h.comp Prod.fst

instance (priority := low) [h : Leaves people c] : Leaves Catalog.invitations c :=
  h.comp fun part => part.2.2.2

instance (priority := low) [h : Leaves besideOwnership c] : Leaves Catalog.invitations c :=
  h.comp Prod.fst

instance (priority := low) [h : Leaves runtimes c] : Leaves Catalog.jobs c := h.comp Prod.fst

instance (priority := low) [h : Leaves besideLifecycle c] : Leaves Catalog.jobs c :=
  h.comp fun part => part.2.1

instance (priority := low) [h : Leaves runtimes c] : Leaves deletions c :=
  h.comp fun part => part.2.1

instance (priority := low) [h : Leaves besideReceipts c] : Leaves deletions c :=
  h.comp Prod.snd

instance (priority := low) [h : Leaves besideOwnership c] : Leaves deletions c :=
  h.comp fun part => part.2.1

instance (priority := low) [h : Leaves deletions c] : Leaves Catalog.lifecycle c :=
  h.comp Prod.fst

instance (priority := low) [h : Leaves deletions c] : Leaves Catalog.effects c :=
  h.comp Prod.snd

instance (priority := low) [h : Leaves runtimes c] : Leaves receipts c :=
  h.comp fun part => part.2.2

instance (priority := low) [h : Leaves besideOwnership c] : Leaves receipts c :=
  h.comp fun part => part.2.2

instance (priority := low) [h : Leaves besideLifecycle c] : Leaves receipts c :=
  h.comp fun part => part.2.2

end

variable (ctx : Context)

/-! ## Members leave the runtimes alone -/

section

instance (owner name id : String) :
    Leaves runtimesAndInvitations (createOrganization ctx owner name id) := by
  unfold createOrganization insertOrganization insertMembership
  infer_instance

instance (operation owner name id : String) :
    Leaves runtimesAndInvitations (initializeInstallation ctx operation owner name id) := by
  unfold initializeInstallation insertOrganization insertMembership insertBootstrap
  apply Leaves.bind inferInstance
  intro _
  apply Leaves.bind inferInstance
  intro _
  apply Leaves.bind inferInstance
  intro title
  apply Leaves.transaction
  apply Leaves.bind inferInstance
  intro c
  split <;> infer_instance

instance (organization target : String) (role : Option MembershipRole) :
    Leaves runtimesAndInvitations (writeMember organization target role) := by
  unfold writeMember upsertMembership
  cases role <;> infer_instance

instance (actor organization target : String) (role : Option MembershipRole) :
    Leaves runtimesAndInvitations (setMember ctx actor organization target role) := by
  unfold setMember
  infer_instance

instance (p : Invitation → Bool) : Leaves runtimes (cancelWhere ctx p) := by
  unfold cancelWhere
  infer_instance

instance (actor organization target : String) (role : Option MembershipRole) :
    Leaves runtimes (changeMember ctx actor organization target role) := by
  unfold changeMember
  infer_instance

instance (actor organization email : String) (role : MembershipRole) (id token : String) :
    Leaves runtimes (createInvitation ctx actor organization email role id token) := by
  unfold createInvitation insertInvitation
  infer_instance

instance (actor organization id : String) :
    Leaves runtimes (cancelInvitation ctx actor organization id) := by
  unfold cancelInvitation
  infer_instance

instance (id actor : String) : Leaves runtimes (acceptInvitation ctx id actor) := by
  unfold acceptInvitation upsertMembership
  infer_instance

instance (actor organization name : String) :
    Leaves runtimesAndInvitations (renameOrganization ctx actor organization name) := by
  unfold renameOrganization
  infer_instance

instance (actor organization : String) :
    Leaves runtimes (deleteOrganization ctx actor organization) := by
  unfold deleteOrganization
  infer_instance

end

/-! ## Provisioning leaves members and deletions alone -/

section

instance (p : ProvisionJob → Bool) (f : ProvisionJob → ProvisionJob)
    (hf : ∀ job, (f job).environment = job.environment) :
    Leaves besideJobs (updateJob p f hf) := by
  unfold updateJob
  infer_instance

instance (actor organization name id : String) :
    Leaves peopleAndRuntimes (createProject ctx actor organization name id) := by
  unfold createProject insertProject
  infer_instance

instance (row : Environment) : Leaves peopleAndRuntimes (insertEnvironment row) := by
  unfold insertEnvironment
  infer_instance

instance (environment runtime actor organization : String) :
    Leaves besideJobs (insertJob environment runtime actor organization) := by
  unfold insertJob
  infer_instance

instance (actor project name id runtime : String) :
    Leaves besideJobs (createEnvironment ctx actor project name id runtime) := by
  unfold createEnvironment
  infer_instance

instance (actor organization name projectId environmentId runtime : String) :
    Leaves besideJobs (createProjectWithProduction ctx actor organization name projectId
      environmentId runtime) := by
  unfold createProjectWithProduction
  infer_instance

instance : Leaves besideJobs recoverProvisioning := by
  unfold recoverProvisioning
  infer_instance

instance (claim : String) (jobs : List ProvisionJob) :
    Leaves besideJobs (claimFirst ctx claim jobs) := by
  induction jobs with
  | nil =>
      unfold claimFirst
      infer_instance
  | cons job jobs ih =>
      unfold claimFirst
      infer_instance

instance (claim : String) : Leaves besideJobs (claimProvision ctx claim) := by
  unfold claimProvision
  infer_instance

instance (runtime : String) (service : OnDemandService) (mode : Mode) (actor : String)
    (idle : Option ℤ) (reason : String) :
    Leaves peopleAndRuntimes (saveMode ctx runtime service mode actor idle reason) := by
  unfold saveMode
  apply Leaves.bind inferInstance
  intro c
  split
  infer_instance

instance (runtime : String) (idleMinutes : OnDemandService → ℤ) (service : OnDemandService) :
    Leaves peopleAndRuntimes (applyDefaultMode ctx runtime idleMinutes service) := by
  unfold applyDefaultMode
  infer_instance

instance (environment : String) :
    Leaves peopleAndRuntimes (applyDefaultModes ctx environment) := by
  unfold applyDefaultModes
  apply Leaves.bind inferInstance
  intro c
  split <;> infer_instance

instance (environment claim : String) (success : Bool) (failure : ProvisionFailure)
    (refusalReason : Option String) :
    Leaves besideJobs
      (finishProvision ctx environment claim success failure refusalReason) := by
  unfold finishProvision
  apply Leaves.bind inferInstance
  intro _
  apply Leaves.transaction
  apply Leaves.bind inferInstance
  intro c
  apply Leaves.bind inferInstance
  intro _
  apply Leaves.bind inferInstance
  intro _
  apply Leaves.bind inferInstance
  intro _
  split
  · infer_instance
  · apply Leaves.bind inferInstance
    intro _
    split <;> infer_instance

instance (environment runtime claim : String) (attempt exitCode : ℤ)
    (refusalReason : Option String) :
    Leaves besideReceipts
      (applyProvisionReceipt ctx environment runtime claim attempt exitCode refusalReason) := by
  unfold applyProvisionReceipt
  apply Leaves.bind inferInstance
  intro _
  apply Leaves.transaction
  apply Leaves.bind inferInstance
  intro c
  split
  · infer_instance
  · apply Leaves.bind inferInstance
    intro _
    split <;> infer_instance

instance (environment runtime claim : String) (attempt : ℤ) (token : String) :
    Leaves besideReceipts
      (recoverPreflightReceipt ctx environment runtime claim attempt token) := by
  unfold recoverPreflightReceipt
  apply Leaves.transaction
  apply Leaves.bind inferInstance
  intro c
  split
  · infer_instance
  · apply Leaves.bind inferInstance
    intro _
    split <;> infer_instance

instance (actor environment : String) :
    Leaves besideJobs (retryProvision ctx actor environment) := by
  unfold retryProvision
  apply Leaves.transaction
  apply Leaves.bind inferInstance
  intro parent
  apply Leaves.bind inferInstance
  intro _
  apply Leaves.bind inferInstance
  intro c
  apply Leaves.bind inferInstance
  intro _
  apply Leaves.bind inferInstance
  intro _
  apply Leaves.bind inferInstance
  intro _
  apply Leaves.bind inferInstance
  intro c'
  split <;> infer_instance

instance (job : ProvisionJob) : Leaves besideJobs (cancelQueued ctx job) := by
  unfold cancelQueued
  infer_instance

instance (actor project destination : String) (revokeRuntime : String → Except String Unit) :
    Leaves besideJobs (transferProject ctx actor project destination revokeRuntime) := by
  unfold transferProject
  apply Leaves.transaction
  apply Leaves.bind inferInstance
  intro source
  apply Leaves.bind inferInstance
  intro _
  apply Leaves.bind inferInstance
  intro c
  apply Leaves.bind inferInstance
  intro _
  split
  · infer_instance
  · apply Leaves.bind inferInstance
    intro _
    infer_instance

instance (actor project name : String) :
    Leaves peopleAndRuntimes (renameProject ctx actor project name) := by
  unfold renameProject
  infer_instance

instance (actor environment name : String) :
    Leaves peopleAndRuntimes (renameEnvironment ctx actor environment name) := by
  unfold renameEnvironment
  infer_instance

instance (actor project : String) :
    Leaves peopleAndRuntimes (deleteProject ctx actor project) := by
  unfold deleteProject
  infer_instance

/-- Relinking may create the organization with its owner. -/
instance (actor : String) (row : Organization) :
    Leaves runtimesAndInvitations (relinkOrganization ctx actor row) := by
  unfold relinkOrganization insertOrganization insertMembership
  infer_instance

instance (actor : String) (row : Project) :
    Leaves peopleAndRuntimes (relinkProject ctx actor row) := by
  unfold relinkProject insertProject
  apply Leaves.bind inferInstance
  intro c
  split <;> infer_instance

instance (actor : String) (ownership : Ownership) (runtime : String) :
    Leaves besideOwnership (relinkEnvironment ctx actor ownership runtime) := by
  unfold relinkEnvironment
  apply Leaves.bind inferInstance
  intro _
  apply Leaves.bind inferInstance
  intro _
  apply Leaves.bind inferInstance
  intro organizationName
  apply Leaves.bind inferInstance
  intro projectName
  apply Leaves.bind inferInstance
  intro environmentName
  apply Leaves.transaction
  apply Leaves.bind inferInstance
  intro operator
  apply Leaves.bind inferInstance
  intro _
  apply Leaves.bind inferInstance
  intro c
  apply Leaves.bind inferInstance
  intro _
  apply Leaves.bind inferInstance
  intro newOrganization
  apply Leaves.bind inferInstance
  intro newProject
  apply Leaves.bind inferInstance
  intro c'
  split <;> infer_instance

end

/-! ## Deletions leave members and jobs alone -/

section

instance (row : LifecycleRow) : Leaves besideLifecycle (putLifecycle row) := by
  unfold putLifecycle
  infer_instance

instance (row : LifecycleRow) : Leaves besideLifecycle (captureLifecycleAuthorization ctx row) := by
  unfold captureLifecycleAuthorization
  apply Leaves.bind inferInstance
  intro signed
  split <;> infer_instance

/-- Authority is recorded beside the lifecycle. -/
instance (row : LifecycleRow) : Leaves deletions (captureLifecycleAuthorization ctx row) := by
  unfold captureLifecycleAuthorization
  apply Leaves.bind inferInstance
  intro signed
  split <;> infer_instance

instance (job : ProvisionJob) (inventory : Inventory) (coverage operation : String) :
    Leaves besideLifecycle (enroll job inventory coverage operation) := by
  unfold enroll
  infer_instance

instance (runtime : String) (inventory : Inventory) (operation : String) :
    Leaves besideLifecycle (registerDurableInventory ctx runtime inventory operation) := by
  unfold registerDurableInventory
  infer_instance

instance (runtime : String) (inventory : Inventory) (coverage operation : String) :
    Leaves besideLifecycle
      (registerLifecycleResources ctx runtime inventory coverage operation) := by
  unfold registerLifecycleResources
  infer_instance

instance (actor environment operation : String) :
    Leaves besideLifecycle (deleteEnvironment ctx actor environment operation) := by
  unfold deleteEnvironment
  infer_instance

instance (actor environment operation : String) (request : LifecycleRequest) :
    Leaves besideLifecycle (requestLifecycle ctx actor environment operation request) := by
  unfold requestLifecycle
  apply Leaves.bind inferInstance
  intro _
  apply Leaves.transaction
  apply Leaves.bind inferInstance
  intro _
  apply Leaves.bind inferInstance
  intro c
  apply Leaves.bind inferInstance
  intro _
  split <;> infer_instance

instance (actor environment operation : String) :
    Leaves besideLifecycle (resumeLifecycleOperation ctx actor environment operation) := by
  unfold resumeLifecycleOperation
  infer_instance

instance (row : LifecycleRow) (resource : String) (outcome : Option String)
    (reclaimedBytes : ℤ) :
    Leaves besideLifecycle (lifecycleEffect ctx row resource outcome reclaimedBytes) := by
  unfold lifecycleEffect
  infer_instance

instance (row : LifecycleRow) (reason : String) :
    Leaves besideLifecycle (blockLifecycle ctx row reason) := by
  unfold blockLifecycle
  infer_instance

instance (row : LifecycleRow) (failure : Option String) :
    Leaves besideLifecycle (finishLifecycle ctx row failure) := by
  unfold finishLifecycle
  infer_instance

/-! ### Only effects write effects -/

instance (row : LifecycleRow) : Leaves Catalog.effects (putLifecycle row) := by
  unfold putLifecycle
  infer_instance

instance (job : ProvisionJob) (inventory : Inventory) (coverage operation : String) :
    Leaves Catalog.effects (enroll job inventory coverage operation) := by
  unfold enroll
  infer_instance

instance (runtime : String) (inventory : Inventory) (operation : String) :
    Leaves Catalog.effects (registerDurableInventory ctx runtime inventory operation) := by
  unfold registerDurableInventory
  infer_instance

instance (runtime : String) (inventory : Inventory) (coverage operation : String) :
    Leaves Catalog.effects
      (registerLifecycleResources ctx runtime inventory coverage operation) := by
  unfold registerLifecycleResources
  infer_instance

instance (actor environment operation : String) :
    Leaves Catalog.effects (deleteEnvironment ctx actor environment operation) := by
  unfold deleteEnvironment
  infer_instance

instance (actor environment operation : String) (request : LifecycleRequest) :
    Leaves Catalog.effects (requestLifecycle ctx actor environment operation request) := by
  unfold requestLifecycle
  apply Leaves.bind inferInstance
  intro _
  apply Leaves.transaction
  apply Leaves.bind inferInstance
  intro _
  apply Leaves.bind inferInstance
  intro c
  apply Leaves.bind inferInstance
  intro _
  split <;> infer_instance

instance (actor environment operation : String) :
    Leaves deletions (resumeLifecycleOperation ctx actor environment operation) := by
  unfold resumeLifecycleOperation
  infer_instance

instance (row : LifecycleRow) (resource : String) (outcome : Option String)
    (reclaimedBytes : ℤ) :
    Leaves Catalog.lifecycle (lifecycleEffect ctx row resource outcome reclaimedBytes) := by
  unfold lifecycleEffect
  infer_instance

instance (row : LifecycleRow) (reason : String) :
    Leaves Catalog.effects (blockLifecycle ctx row reason) := by
  unfold blockLifecycle
  infer_instance

instance (row : LifecycleRow) (failure : Option String) :
    Leaves Catalog.effects (finishLifecycle ctx row failure) := by
  unfold finishLifecycle
  infer_instance

end

/-! ## Routing and the rest -/

section

instance (runtime : String) (action : RoutingAction) (revision : ℤ) (job : Option ProvisionJob) :
    Leaves peopleAndRuntimes (notifyRouting ctx runtime action revision job) := by
  unfold notifyRouting
  cases job <;> infer_instance

instance (runtime : String) (expectedRevision : ℤ) (action : RoutingAction) :
    Leaves peopleAndRuntimes (changeRuntimeRouting ctx runtime expectedRevision action) := by
  unfold changeRuntimeRouting
  infer_instance

instance (tables : Elsewhere) : Leaves peopleAndRuntimes (writeElsewhere tables) := by
  unfold writeElsewhere
  infer_instance

end

end Sbarbase.Control.Proofs.Frames
