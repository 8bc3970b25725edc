import Sbarbase.Lib.Number
import Sbarbase.Lib.Text
/-!
# Ownership inventories

`src/control/lifecycle-contract.ts`: the resources an environment owns, as an
operator enrolled them, and the checks an inventory passes before an environment
is deleted, restored or purged.
-/

namespace Sbarbase.Control

open Lib

inductive LifecycleState
  | active
  | deleting
  | deleted
  | restoring
  | purging
  | purged
  deriving DecidableEq

def LifecycleState.text : LifecycleState → String
  | .active => "active"
  | .deleting => "deleting"
  | .deleted => "deleted"
  | .restoring => "restoring"
  | .purging => "purging"
  | .purged => "purged"

def retentionMs : ℤ := 7 * 24 * 60 * 60000

def durableCoverage : String := "durable-environment"

def softCoverage (coverage : Option String) : Bool :=
  coverage = some "disposable-fixture" || coverage = some durableCoverage

/-- The files a shared database names. -/
structure FileIdentity where
  id : String
  resource : String
  device : Option ℤ
  inode : Option ℤ
  marker : Option String
  deriving DecidableEq

/-- What the checks read of `identity`. -/
structure SharedIdentity where
  database : String
  tenant : String
  files : FileIdentity
  deriving DecidableEq

/-- `durable`. -/
structure DurableIdentity where
  keys : List String
  database : String
  roles : List String
  storageTenant : String
  deriving DecidableEq

/-- A resource. `keys` is `Object.keys` of it; an absent field is `none`. -/
structure LifecycleResource where
  keys : List String
  kind : String
  id : String
  resource : String
  installation : String
  runtime : String
  service : Option String
  createdAt : Option String
  device : Option ℤ
  inode : Option ℤ
  marker : Option String
  identity : Option SharedIdentity
  durable : Option DurableIdentity
  deriving DecidableEq

namespace LifecycleResource

/-- `^[a-f0-9-]{36}$`. -/
def isIdentifier (text : String) : Bool := matchesExactly (fun c => isHex c || c = '-') 36 text

def files (item : LifecycleResource) : FileIdentity :=
  ⟨item.id, item.resource, item.device, item.inode, item.marker⟩

/-- The shape `validateResources` asks of an item, given those before it. -/
def isListed (runtime : String) (before : List LifecycleResource) (item : LifecycleResource) :
    Bool :=
  item.kind ∈ ["container", "volume", "directory", "shared-database"] && item.id ≠ "" &&
    isIdentifier item.resource && isIdentifier item.installation && item.runtime = runtime &&
    item.keys.all (· ∈ ["kind", "id", "resource", "installation", "runtime", "createdAt",
      "device", "inode", "marker", "identity", "service", "legacy"]) &&
    before.all fun old => old.resource ≠ item.resource &&
      !(old.kind = item.kind && old.id = item.id) && old.installation = item.installation

/-- The identity each kind carries. -/
def isIdentified (item : LifecycleResource) : Bool :=
  !(item.kind = "container" && !matchesExactly isHex 64 item.id) &&
  !(item.kind = "volume" &&
    (!matchesRange isAlphanumeric (fun c => isAlphanumeric c || c ∈ ['_', '.', '-']) 0 254
      item.id || item.createdAt.all (· = ""))) &&
  !(item.kind = "directory" &&
    (item.id.toList.head? ≠ some '/' || !item.device.any isSafeInteger ||
      !item.inode.any isSafeInteger || item.marker = none))

def isServed (item : LifecycleResource) : Bool :=
  item.service = none || (item.kind = "container" &&
    item.service.any (· ∈ ["database", "auth", "rest", "storage"]))

/-- A shared database names the directory of its tenant. -/
def isShared (runtime : String) (resources : List LifecycleResource) (item : LifecycleResource) :
    Bool :=
  item.kind ≠ "shared-database" ||
    (item.id = runtime && item.identity.any fun identity =>
      identity.database = runtime && identity.tenant = runtime &&
        resources.any fun file => file.kind = "directory" && file.runtime = runtime &&
          file.installation = item.installation &&
          ('/' :: runtime.toList).isSuffixOf file.id.toList && file.files = identity.files)

end LifecycleResource

open LifecycleResource

/-- `validateResources`: the items in order, each against those before it. -/
def validateItems (runtime : String) (resources : List LifecycleResource) :
    List LifecycleResource → List LifecycleResource → Except String Unit
  | _, [] => .ok ()
  | before, item :: items =>
    if !isListed runtime before item then .error "Invalid ownership inventory"
    else if !isIdentified item then .error "Invalid ownership identity"
    else if !isServed item then .error "Invalid service identity"
    else if !isShared runtime resources item then
      .error "Shared lifecycle requires exact tenant files"
    else validateItems runtime resources (item :: before) items

def validateResources (runtime : String) (resources : List LifecycleResource) :
    Except String Unit :=
  if !isRuntime runtime || resources.isEmpty || 100 < resources.length then
    .error "Invalid ownership inventory"
  else validateItems runtime resources [] resources

def durableServices : List String := ["auth", "rest", "realtime", "functions", "studio", "meta"]

def durableRoles : List String :=
  ["auth", "rest", "storage", "realtime", "studio", "developer", "cron"]

/-- `Object.keys(item).sort().join()` equals that of `names`. -/
def hasKeys (keys names : List String) : Bool := keys.Perm names

def isDurableContainer (runtime : String) (item : LifecycleResource) : Bool :=
  hasKeys item.keys ["id", "installation", "kind", "resource", "runtime", "service"] &&
    item.service.any fun service =>
      service ∈ durableServices && item.id = "sbarbase-durable-" ++ runtime ++ "-" ++ service

def isDurableTenant (runtime : String) (item : LifecycleResource) : Bool :=
  hasKeys item.keys ["durable", "id", "installation", "kind", "resource", "runtime"] &&
    item.id = runtime && item.durable.any fun durable =>
      hasKeys durable.keys ["database", "roles", "storageTenant"] &&
        durable.database = runtime && durable.storageTenant = runtime && durable.roles.Nodup &&
        (durable.roles.all fun role => durableRoles.any fun name => role = runtime ++ "_" ++ name) &&
        ["auth", "rest", "storage"].all fun name => runtime ++ "_" ++ name ∈ durable.roles

/-- An item of a durable inventory, given those before it. -/
def isDurable (runtime : String) (before : List LifecycleResource) (item : LifecycleResource) :
    Bool :=
  item.runtime = runtime && isIdentifier item.resource && isIdentifier item.installation &&
    (before.all fun old =>
      old.resource ≠ item.resource && old.installation = item.installation &&
        !(old.kind = "durable-container" && item.kind = "durable-container" &&
          old.service = item.service)) &&
    ((item.kind = "durable-container" && isDurableContainer runtime item) ||
      (item.kind = "durable-tenant" && isDurableTenant runtime item))

def areDurable (runtime : String) : List LifecycleResource → List LifecycleResource → Bool
  | _, [] => true
  | before, item :: items => isDurable runtime before item &&
      areDurable runtime (item :: before) items

/-- The inventory lists a container of the service. -/
def hasDurableService (resources : List LifecycleResource) (service : String) : Bool :=
  resources.any fun item => item.kind = "durable-container" && item.service = some service

def validateDurableInventory (runtime : String) (resources : List LifecycleResource) :
    Except String Unit :=
  if isRuntime runtime && 3 ≤ resources.length && resources.length ≤ 8 &&
      areDurable runtime [] resources &&
      (resources.countP fun item => item.kind = "durable-tenant") = 1 &&
      hasDurableService resources "auth" && hasDurableService resources "rest" then .ok ()
  else .error "Invalid ownership inventory"

/-- A dedicated inventory has one container of each service, a volume and a directory. -/
def isDedicated (resources : List LifecycleResource) : Bool :=
  (resources.countP fun item => item.kind = "container") = 4 &&
    (["database", "auth", "rest", "storage"].all fun service =>
      (resources.countP fun item =>
        item.kind = "container" && item.service = some service) = 1) &&
    (resources.any fun item => item.kind = "volume") &&
    resources.any fun item => item.kind = "directory"

def validateLifecycleCoverage (runtime : String) (resources : List LifecycleResource)
    (coverage : Option String) : Except String Unit :=
  if coverage = some durableCoverage then validateDurableInventory runtime resources
  else do
    validateResources runtime resources
    if coverage = some "complete-shared-resources" ||
        resources.any (fun item => item.kind = "shared-database") then
      .error "Shared writer isolation unavailable"
    else if coverage ≠ some "dedicated-resources" && coverage ≠ some "disposable-fixture" then
      .error "Unsupported lifecycle coverage"
    else if coverage = some "disposable-fixture" || isDedicated resources then .ok ()
    else .error "Complete dedicated ownership inventory required"

end Sbarbase.Control
