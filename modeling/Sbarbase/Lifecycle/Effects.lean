import Sbarbase.Lib.Checked
import Sbarbase.Lib.Durable
import Sbarbase.Lifecycle.Host
/-!
# The effects of a delete and a restore

`Effects` of `lab/durable_lifecycle.py`. A run can be cut short after each batch
of SQL, container command, journal and endpoints that it writes.
-/

namespace Sbarbase.Lifecycle

open Lib Lib.Checked

inductive Action
  | inspect
  | quarantine
  | restore
  | purge
  | readiness
  deriving DecidableEq

inductive State
  | active
  | deleting
  | deleted
  | restoring
  | purging
  | purged
  deriving DecidableEq

/-- `STATES` -/
def Action.state : Action → Option State
  | .quarantine => some .deleting
  | .restore => some .restoring
  | .purge => some .purging
  | .inspect | .readiness => none

inductive Outcome
  | present
  | absent
  | quarantined
  | restored
  | purged
  deriving DecidableEq

/-- What an effect returns. -/
structure Result where
  outcome : Outcome
  reclaimedBytes : ℕ
  observedBytes : Option ℕ
  deriving DecidableEq

/-- The two kinds of resource: a container, and the database with its logins and
its Storage tenant. -/
inductive Kind
  | container (service : Service)
  | tenant (database : String) (roles : List String) (storageTenant : String)
  deriving DecidableEq

structure Resource where
  kind : Kind
  id : String
  resource : String
  installation : String
  runtime : String
  deriving DecidableEq

structure Request where
  action : Action
  resource : Resource
  runtime : String
  epoch : ℤ
  operation : String
  deriving DecidableEq

/-- A row of `environment_lifecycle`. -/
structure Row where
  runtime : String
  state : State
  epoch : ℤ
  operation : String
  coverage : String
  resources : List Resource
  deriving DecidableEq

/-- `COVERAGE` -/
def durableCoverage : String := "durable-environment"

def roleName (runtime suffix : String) : String := runtime ++ "_" ++ suffix

def validResource (resource : Resource) (runtime : String) : Bool :=
  isRuntime runtime && resource.runtime = runtime && isUuid resource.resource &&
    isUuid resource.installation &&
    match resource.kind with
    | .container service => resource.id = containerName runtime service
    | .tenant database roles storageTenant =>
      resource.id = runtime && database = runtime && storageTenant = runtime && roles.Nodup &&
        roles.all (fun name => name ∈ roleNames.map (roleName runtime)) &&
        requiredRoles.all fun suffix => roleName runtime suffix ∈ roles

/-- `catalog_verifier` -/
def verify (row : Row) (request : Request) : Except String Unit :=
  require
    (row.runtime = request.runtime ∧ row.operation = request.operation ∧
      request.action.state = some row.state ∧ row.epoch = request.epoch ∧
      row.coverage = durableCoverage ∧ request.resource ∈ row.resources)
    "lifecycle_intent_unrecorded"

/-- What Docker and a service do in one run: the address that a started container
gets, and whether the service answers before the deadline. -/
structure Outside where
  address : String
  answers : Bool

abbrev Effect (α : Type) := Durable Host Unit String α

namespace Effect

def refuse {α : Type} (reason : String) : Effect α := .throw reason

def ensure (p : Prop) [Decidable p] (reason : String) : Effect Unit := .require p reason

def save (journal : Journal) : Effect Unit := .store fun host => host.save journal

end Effect

open Effect

/-! ## The journal -/

def Journal.fresh (runtime operation : String) : Journal :=
  ⟨1, runtime, operation, none, ∅, none⟩

def Journal.setPart (journal : Journal) (service : Service) (part : Part) : Journal :=
  { journal with containers := journal.containers.set service part }

def Journal.setTenant (journal : Journal) (tenant : Tenant) : Journal :=
  { journal with tenant := some tenant }

def Journal.setRestore (journal : Journal) (operation : String) : Journal :=
  { journal with restoreOperation := some operation }

/-- `journal`, of the one that was read. -/
def openJournal (value : Option Journal) (runtime operation : String) (create : Bool) :
    Except String Journal :=
  match value with
  | some value =>
    if value.version ≠ 1 ∨ value.runtime ≠ runtime then .error "journal_invalid"
    else if value.operation = operation ∨ create = false then .ok value
    else if (∃ part ∈ value.containers.entries, part.2.phase ≠ .restored) ∨
        ∃ tenant ∈ value.tenant, tenant.phase ≠ .restored then .error "journal_foreign_operation"
    else .ok (.fresh runtime operation)
  | none => if create then .ok (.fresh runtime operation) else .error "journal_missing"

/-! ## Containers -/

/-- `OWNER` -/
def durableOwner : String := "durable-upstream"

def find (host : Host) (name : String) : Except String (Option Container) :=
  match host.named name with
  | [] => .ok none
  | [item] =>
    if item.owner ≠ durableOwner ∨ item.foreign = true then .error "container_foreign"
    else .ok (some item)
  | _ => .error "container_foreign"

/-- The base of `address`. -/
def addressOf (item : Container) (port : String) : Option String :=
  if item.address = "" then none else some ("http://" ++ item.address ++ ":" ++ port)

def ready (outside : Outside) (service : Service) (item : Container) : Bool :=
  item.running &&
    match service.port with
    | none => true
    | some port => (addressOf item port).isSome && outside.answers

/-- What `publish_address` writes, if anything. -/
def publishedAddress (endpoints : Dict String Entry) (runtime : String) (service : Service)
    (item : Container) : Option (Dict String Entry) := do
  let port ← service.port
  let entry ← endpoints.get runtime
  let base ← addressOf item port
  if entry.get service.text = some (.url base) then none
  else some (endpoints.set runtime (entry.set service.text (.url base)))

def publishAddress (runtime : String) (service : Service) (item : Container) : Effect Unit := do
  let host ← .disk
  match publishedAddress host.endpoints runtime service item with
  | some endpoints => .store fun host => host.setEndpoints endpoints
  | none => return ()

/-- The record of a container, written before anything is done to it. -/
def recordContainer (journal : Journal) (service : Service) (item : Container) :
    Effect (Journal × Part) :=
  match journal.containers.get service with
  | some part => return (journal, part)
  | none => do
    save (journal.setPart service ⟨item.id, item.running, .recorded⟩)
    return (journal.setPart service ⟨item.id, item.running, .recorded⟩,
      ⟨item.id, item.running, .recorded⟩)

def stopContainer (name id : String) : Effect Unit := do
  .store fun host => host.stop id
  let host ← .disk
  let item ← .lift (find host name)
  ensure (∃ stopped ∈ item, stopped.running = false) "container_stop_unproven"

/-- What follows the record. -/
def stopRecorded (runtime : String) (service : Service) (item : Container) (journal : Journal)
    (part : Part) : Effect Result := do
  ensure (part.id = item.id) "container_identity_changed"
  .whenever (item.running = true) (stopContainer (containerName runtime service) part.id)
  save (journal.setPart service { part with phase := .quarantined })
  return ⟨.quarantined, 0, none⟩

def quarantineContainer (runtime : String) (service : Service) (operation : String)
    (item : Container) : Effect Result := do
  let host ← .disk
  let journal ← .lift (openJournal (host.journals.get runtime) runtime operation true)
  let recorded ← recordContainer journal service item
  stopRecorded runtime service item recorded.1 recorded.2

/-- Starts a container and waits for it to be ready. -/
def startContainer (outside : Outside) (runtime : String) (service : Service) (id : String) :
    Effect Unit := do
  .store fun host => host.start id outside.address
  let host ← .disk
  let found ← .lift (find host (containerName runtime service))
  match found with
  | none => refuse "container_readiness_unproven"
  | some item => do
    ensure (ready outside service item = true) "container_readiness_unproven"
    publishAddress runtime service item

def restoreContainer (outside : Outside) (runtime : String) (service : Service)
    (operation : String) (journal : Journal) (part : Part) : Effect Result := do
  ensure (∃ tenant ∈ journal.tenant, tenant.phase = .restored) "tenant_not_restored"
  ensure (∀ begun ∈ journal.restoreOperation, begun = operation) "journal_foreign_operation"
  .whenever (part.running = true) (startContainer outside runtime service part.id)
  save (journal.setPart service { part with phase := .restored })
  return ⟨.restored, 0, none⟩

/-- What of a container is in the journal of the operation. -/
def journaledPart (host : Host) (runtime : String) (service : Service) (operation : String)
    (item : Container) : Except String (Journal × Part) := do
  let journal ← openJournal (host.journals.get runtime) runtime operation false
  match journal.containers.get service with
  | none => .error "journal_incomplete"
  | some part => do
    require (part.id = item.id) "journal_incomplete"
    return (journal, part)

/-- What an effect says of a resource that is not there. -/
def missing : Action → Except String Result
  | .quarantine | .restore | .readiness => .error "retained_resource_missing"
  | .inspect | .purge => .ok ⟨.absent, 0, none⟩

def container (outside : Outside) (runtime : String) (service : Service) (action : Action)
    (operation : String) : Effect Result := do
  let host ← .disk
  let found ← .lift (find host (containerName runtime service))
  match found, action with
  | none, action => .lift (missing action)
  | some _, .inspect => return ⟨.present, 0, some 0⟩
  | some item, .quarantine => quarantineContainer runtime service operation item
  | some item, .readiness => do
    let journaled ← .lift (journaledPart host runtime service operation item)
    ensure (journaled.2.running = true → ready outside service item = true) "container_readiness_unproven"
    return ⟨.restored, 0, none⟩
  | some item, .restore | some item, .purge => do
    let journaled ← .lift (journaledPart host runtime service operation item)
    restoreContainer outside runtime service operation journaled.1 journaled.2

/-! ## The database, its logins and the published entry -/

def roleStates (host : Host) (roles : List String) : Except String (Dict String Bool) := do
  require (∀ name ∈ roles, host.roles.has name = true) "tenant_incomplete"
  return host.roles.filter fun name _ => name ∈ roles

/-- `set(recorded) == set(roles)` -/
def sameNames (recorded : Dict String Bool) (roles : List String) : Bool :=
  roles.all (fun name => recorded.has name) && recorded.keys.all fun name => name ∈ roles

/-- The logins of `roles` that were recorded open. -/
def opened (recorded : Dict String Bool) (roles : List String) : List String :=
  roles.filter fun name => recorded.get name = some true

def noneRunning (host : Host) (runtime : String) : Except String Unit :=
  Service.all.forM fun service => do
    let item ← find host (containerName runtime service)
    require (∀ found ∈ item, found.running = false) "container_still_running"

/-- The record of the tenant, written before anything is done to it. -/
def recordTenant (journal : Journal) (states : Dict String Bool) (entry : Option Entry) :
    Effect (Journal × Tenant) :=
  match journal.tenant with
  | some tenant => return (journal, tenant)
  | none => do
    save (journal.setTenant ⟨states, entry, .recorded⟩)
    return (journal.setTenant ⟨states, entry, .recorded⟩, ⟨states, entry, .recorded⟩)

def unpublish (runtime : String) : Effect Unit := do
  let host ← .disk
  .whenever (host.endpoints.has runtime = true)
    (.store fun host => host.setEndpoints (host.endpoints.delete runtime))

/-- What follows the record. -/
def closeRecorded (runtime : String) (roles : List String) (journal : Journal) (tenant : Tenant) :
    Effect Result := do
  ensure (sameNames tenant.roles roles = true) "journal_incomplete"
  .whenever (opened tenant.roles roles ≠ [])
    (.store fun host => host.setRoles (opened tenant.roles roles) false)
  .store fun host => host.terminate roles
  unpublish runtime
  save (journal.setTenant { tenant with phase := .quarantined })
  return ⟨.quarantined, 0, none⟩

def quarantineTenant (runtime : String) (roles : List String) (operation : String)
    (states : Dict String Bool) : Effect Result := do
  let host ← .disk
  .lift (noneRunning host runtime)
  let journal ← .lift (openJournal (host.journals.get runtime) runtime operation true)
  let recorded ← recordTenant journal states (host.endpoints.get runtime)
  closeRecorded runtime roles recorded.1 recorded.2

/-- Takes the restore down in the journal, before its first effect. -/
def beginRestore (journal : Journal) (operation : String) : Effect Journal :=
  match journal.restoreOperation with
  | some _ => return journal
  | none => do
    save (journal.setRestore operation)
    return journal.setRestore operation

/-- Publishes the entry again, where it was published and is not. -/
def republish (runtime : String) (entry : Option Entry) : Effect Unit := do
  let host ← .disk
  match entry with
  | none => return ()
  | some entry =>
    .whenever (host.endpoints.has runtime = false)
      (.store fun host => host.setEndpoints (host.endpoints.set runtime entry))

def restoreTenant (runtime : String) (roles : List String) (operation : String)
    (journal : Journal) (tenant : Tenant) : Effect Result := do
  ensure (∀ begun ∈ journal.restoreOperation, begun = operation) "journal_foreign_operation"
  let begun ← beginRestore journal operation
  .whenever (opened tenant.roles roles ≠ [])
    (.store fun host => host.setRoles (opened tenant.roles roles) true)
  republish runtime tenant.entry
  save (begun.setTenant { tenant with phase := .restored })
  return ⟨.restored, 0, none⟩

/-- What of the tenant is in the journal of the operation. -/
def journaledTenant (host : Host) (runtime : String) (roles : List String) (operation : String) :
    Except String (Journal × Tenant) := do
  let journal ← openJournal (host.journals.get runtime) runtime operation false
  match journal.tenant with
  | none => .error "journal_incomplete"
  | some tenant => do
    require (sameNames tenant.roles roles = true) "journal_incomplete"
    return (journal, tenant)

def tenantReady (host : Host) (runtime : String) (states : Dict String Bool) (tenant : Tenant) :
    Bool :=
  (states.keys ++ tenant.roles.keys).all (fun name => states.get name = tenant.roles.get name) &&
    (tenant.entry = none || host.endpoints.has runtime)

def tenant (runtime : String) (roles : List String) (action : Action) (operation : String) :
    Effect Result := do
  let host ← .disk
  match host.databases.get runtime with
  | none => .lift (missing action)
  | some size => do
    let states ← .lift (roleStates host roles)
    match action with
    | .inspect => return ⟨.present, 0, some size⟩
    | .quarantine => quarantineTenant runtime roles operation states
    | .readiness => do
      let journaled ← .lift (journaledTenant host runtime roles operation)
      ensure (tenantReady host runtime states journaled.2 = true) "tenant_readiness_unproven"
      return ⟨.restored, 0, none⟩
    | .restore | .purge => do
      let journaled ← .lift (journaledTenant host runtime roles operation)
      restoreTenant runtime roles operation journaled.1 journaled.2

/-! ## An effect -/

/-- The checks of `apply`. -/
def checkRequest (row : Row) (request : Request) : Except String Unit := do
  require (0 ≤ request.epoch ∧ isUuid request.operation = true) "invalid_effect_request"
  require (validResource request.resource request.runtime = true) "invalid_resource_contract"
  if request.action.state.isSome then do
    require (1 ≤ request.epoch) "invalid_effect_request"
    verify row request
  else .ok ()

def apply (row : Row) (outside : Outside) (request : Request) : Effect Result := do
  .lift (checkRequest row request)
  ensure (request.action ≠ .purge) "durable_purge_unavailable"
  match request.resource.kind with
  | .container service => container outside request.runtime service request.action request.operation
  | .tenant _ roles _ => tenant request.runtime roles request.action request.operation

end Sbarbase.Lifecycle
