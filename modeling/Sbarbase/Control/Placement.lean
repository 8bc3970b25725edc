import Sbarbase.Lib.Number
import Sbarbase.Lib.Text
/-!
# Placements

`src/control/placement.ts`: where the services of a runtime listen, and the
checks a placement passes before an operator may stage it. `parseUrl` is the URL
parser of the platform.
-/

namespace Sbarbase.Control

open Lib

structure StoragePlacement where
  url : String
  tenantHost : String
  deriving DecidableEq

structure ServicePlacement where
  auth : String
  rest : String
  storage : Option StoragePlacement
  deriving DecidableEq

structure DatabaseIdentity where
  name : String
  oid : ℤ
  deriving DecidableEq

structure EngineIdentity where
  id : String
  container : String
  image : String
  network : String
  volume : String
  deriving DecidableEq

structure PlacementCredentials where
  application : String
  maintenance : String
  deriving DecidableEq

/-- Version 1, profile `native-dedicated`. -/
structure NativePlacement where
  runtime : String
  ownership : String
  generation : ℤ
  engine : EngineIdentity
  application : DatabaseIdentity
  maintenance : DatabaseIdentity
  credentials : PlacementCredentials
  declaration : String
  services : ServicePlacement
  deriving DecidableEq

inductive RuntimePlacement
  | services (placement : ServicePlacement)
  | native (placement : NativePlacement)
  deriving DecidableEq

structure RuntimeRouting where
  revision : ℤ
  maintenance : Bool
  placement : Option RuntimePlacement
  deriving DecidableEq

/-- The fields of a parsed URL that the checks read. -/
structure Url where
  protocol : String
  username : String
  password : String
  search : String
  hash : String
  pathname : String
  origin : String

namespace Placement

def text (value : String) (pattern : String → Bool) : Except String String :=
  if pattern value then .ok value else .error "Invalid placement identity"

def positive (value : ℤ) : Except String ℤ :=
  if isSafeInteger value && 1 ≤ value then .ok value
  else .error "Invalid placement generation or OID"

/-- The pattern `reference`. -/
def isReference (value : String) : Bool :=
  matchesRange isAlphanumeric (fun c => isAlphanumeric c || c ∈ ['_', '.', ':', '/', '-']) 0 127
    value

def isTenantHost (value : String) : Bool :=
  matchesRange (fun c => isLower c || isDigit c || c = '_')
    (fun c => isLower c || isDigit c || c ∈ ['_', '.', '-']) 0 252 value

def isDatabaseName (value : String) : Bool :=
  matchesRange isLower (fun c => isLower c || isDigit c || c = '_') 0 62 value

variable (parseUrl : String → Option Url)

def endpoint (value : String) : Except String String :=
  match parseUrl value with
  | none => .error "Invalid URL"
  | some url =>
    if (url.protocol = "http:" ∨ url.protocol = "https:") ∧ url.username = "" ∧
        url.password = "" ∧ url.search = "" ∧ url.hash = "" ∧ url.pathname = "/" then
      .ok url.origin
    else .error "Invalid placement endpoint"

def validateServices (value : ServicePlacement) : Except String ServicePlacement := do
  let auth ← endpoint parseUrl value.auth
  let rest ← endpoint parseUrl value.rest
  match value.storage with
  | none => return ⟨auth, rest, none⟩
  | some storage =>
    let url ← endpoint parseUrl storage.url
    let tenantHost ← text storage.tenantHost isTenantHost
    return ⟨auth, rest, some ⟨url, tenantHost⟩⟩

def validateDatabase (value : DatabaseIdentity) : Except String DatabaseIdentity := do
  let oid ← positive value.oid
  if 4294967295 < oid then .error "Invalid database OID"
  else
    let name ← text value.name isDatabaseName
    return ⟨name, oid⟩

def validateNative (value : NativePlacement) : Except String NativePlacement := do
  let application ← validateDatabase value.application
  let maintenance ← validateDatabase value.maintenance
  if application.name ≠ "postgres" ∨ application.name = maintenance.name ∨
      application.oid = maintenance.oid then
    .error "Distinct application and maintenance identity required"
  else
    let runtime ← text value.runtime isRuntime
    let ownership ← text value.ownership isReference
    let generation ← positive value.generation
    let id ← text value.engine.id isReference
    let container ← text value.engine.container (matchesExactly isHex 64)
    let image ← text value.engine.image (matchesAfter "sha256:" isHex 64)
    let network ← text value.engine.network (matchesExactly isHex 64)
    let volume ← text value.engine.volume isReference
    let credential ← text value.credentials.application isReference
    let maintenanceCredential ← text value.credentials.maintenance isReference
    let declaration ← text value.declaration isReference
    let services ← validateServices parseUrl value.services
    if credential = maintenanceCredential then .error "Distinct credential references required"
    else return ⟨runtime, ownership, generation, ⟨id, container, image, network, volume⟩,
      application, maintenance, ⟨credential, maintenanceCredential⟩, declaration, services⟩

end Placement

open Placement

section

variable (parseUrl : String → Option Url)

def validatePlacement : RuntimePlacement → Except String RuntimePlacement
  | .services value => .services <$> validateServices parseUrl value
  | .native value => .native <$> validateNative parseUrl value

inductive ResolvedPlacement
  | legacyShared (services : Option ServicePlacement)
  | nativeDedicated (identity : NativePlacement)
  deriving DecidableEq

def resolveRuntimePlacement (runtime : String) (routing : RuntimeRouting) :
    Except String ResolvedPlacement :=
  if !isRuntime runtime || !isSafeInteger routing.revision || routing.revision < 0 then
    .error "Invalid runtime routing identity"
  else
    match routing.placement with
    | none => .ok (.legacyShared none)
    | some placement => do
      match ← validatePlacement parseUrl placement with
      | .services services => return .legacyShared (some services)
      | .native identity =>
        if identity.runtime ≠ runtime then .error "Foreign placement runtime"
        else return .nativeDedicated identity

end

/-- Native transport stays closed. -/
def placementServices : ResolvedPlacement → Except String (Option ServicePlacement)
  | .nativeDedicated _ => .error "Native dedicated placement is not admitted"
  | .legacyShared services => .ok services

def validatePlacementTransition (runtime : String) (current : Option RuntimePlacement)
    (next : RuntimePlacement) : Except String Unit :=
  match next, current with
  | .services _, some (.native _) => .error "Native placement cannot revert to legacy routing"
  | .services _, _ => .ok ()
  | .native next, some (.native current) =>
    if next.runtime ≠ runtime then .error "Foreign placement runtime"
    else if next.ownership ≠ current.ownership ∨ next.runtime ≠ current.runtime then
      .error "Foreign placement ownership"
    else if next.generation = current.generation then
      if next ≠ current then .error "Placement identity change requires a new generation"
      else .ok ()
    else if next.generation ≠ current.generation + 1 then .error "Stale placement generation"
    else .ok ()
  | .native next, _ =>
    if next.runtime ≠ runtime then .error "Foreign placement runtime"
    else if next.generation ≠ 1 then .error "Initial placement generation must be one"
    else .ok ()

end Sbarbase.Control
