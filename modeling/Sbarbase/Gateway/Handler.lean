import Mathlib.Data.Int.Notation
import Sbarbase.Lib.Checked
import Sbarbase.Lib.Dict
import Sbarbase.Lib.Text
/-!
# The gateway of an environment

`gatewayKeyAccess` and `gatewayHandler` of `src/gateway/handler.ts`, up to what is
handed to the upstream. A parsed URL and the headers of a request are data here; the
parser of the upstreams is a parameter.
-/

namespace Sbarbase.Gateway.Handler

open Lib Lib.Checked

inductive Service
  | auth
  | rest
  | storage
  | realtime
  | functions
  deriving DecidableEq

def Service.text : Service → String
  | .auth => "auth"
  | .rest => "rest"
  | .storage => "storage"
  | .realtime => "realtime"
  | .functions => "functions"

/-- A request with the parts of its URL, `tokens` for `searchParams.getAll('token')`. The
names of the headers are in lower case. -/
structure Request where
  pathname : String
  search : String
  tokens : List String
  method : String
  headers : Dict String String
  deriving DecidableEq

structure Tenant where
  url : String
  tenantHost : String
  deriving DecidableEq

/-- `EnvironmentRoute`, in what an HTTP call reads of it. -/
structure EnvironmentRoute where
  auth : String
  rest : String
  storage : Option Tenant
  realtime : Option Tenant
  functions : Option String
  realtimeToken : Option String
  anonymousToken : String
  serviceToken : Option String
  enabled : Bool
  deriving DecidableEq

/-- A parsed URL. -/
structure Url where
  protocol : String
  username : String
  password : String
  hostname : String
  port : String
  pathname : String
  search : String
  deriving DecidableEq

/-- What a refusal is about. -/
inductive Cause
  | route
  | key
  | path
  | method
  | other
  deriving DecidableEq

structure Refusal where
  status : ℕ
  message : String
  cause : Cause
  deriving DecidableEq

inductive KeyKind
  | publishable
  | secret
  deriving DecidableEq

inductive KeyVerdict
  | kind (kind : KeyKind)
  | accepted
  | refused
  | null
  deriving DecidableEq

def kindOf : KeyVerdict → Option KeyKind
  | .accepted => some .publishable
  | .kind kind => some kind
  | _ => none

/-- A string that is not empty. -/
def truthy (text : Option String) : Option String := text.filter (· ≠ "")

/-! ## Patterns -/

/-- `path.split('/')[1] ?? ''` -/
def firstSegment (path : String) : String :=
  match path.toList.splitOn '/' with
  | _ :: segment :: _ => String.ofList segment
  | _ => ""

/-- A character that `.` does not match. -/
def isLineEnd (c : Char) : Bool := c = '\n' || c = '\r' || c.toNat = 0x2028 || c.toNat = 0x2029

def serviceNamed (name : String) : Option Service :=
  [Service.auth, .rest, .storage, .realtime, .functions].find? (·.text = name)

/-- The pattern of the routes, with `/` for a path that is left out. -/
def parsePath (pathname : String) : Option (String × Service × String) :=
  match pathname.toList.splitOn '/' with
  | [] :: environment :: service :: version :: rest =>
    let path := '/' :: ['/'].intercalate rest
    if matchesRange isLower (fun c => isLower c || isDigit c || c = '_') 1 30
        (String.ofList environment) && version = "v1".toList && !path.any isLineEnd then
      (serviceNamed (String.ofList service)).map fun service =>
        (String.ofList environment, service, String.ofList path)
    else none
  | _ => none

/-- `FUNCTION_NAME` -/
def isFunctionName (name : String) : Bool :=
  matchesRange isAlphanumeric (fun c => isAlphanumeric c || c = '_' || c = '-') 0 63 name

/-- `^\/object\/<verb>\/[^/]+\/.+` -/
def isObjectPath (verb path : String) : Bool :=
  match path.toList.splitOn '/' with
  | [] :: object :: kind :: bucket :: name =>
    object = "object".toList && kind = verb.toList && bucket ≠ [] &&
      match ['/'].intercalate name with
      | [] => false
      | c :: _ => !isLineEnd c
  | _ => false

def isReadMethod (method : String) : Bool := method = "GET" || method = "HEAD"

/-- A read of a public object, or of one with a signed token. -/
def publicStorageRead (request : Request) (service : Service) (path : String) : Bool :=
  service = .storage && isReadMethod request.method &&
    (isObjectPath "public" path || (isObjectPath "sign" path &&
      match request.tokens with
      | [token] => token ≠ "" && utf16Length token ≤ 8192
      | _ => false))

/-- The steps of Auth that a browser reaches by a link or a redirect. -/
def browserAuthStep (request : Request) (service : Service) (path : String) : Bool :=
  service = .auth &&
    ((isReadMethod request.method &&
        ["/authorize", "/verify", "/callback", "/sso/saml/metadata", "/sso/saml/slo"].contains path) ||
      (request.method = "POST" && ["/callback", "/sso/saml/acs", "/sso/saml/slo"].contains path))

def looksLikeBrowser (headers : Dict String String) : Bool :=
  occursIn "Mozilla/".toList (headers.get "user-agent" |>.getD "").toList ||
    headers.has "origin" || headers.has "sec-fetch-mode" || headers.has "sec-fetch-site"

def lower (text : List Char) : List Char := text.map Char.toLower

/-- A path that could name another one to the upstream. -/
def isInvalidPath (path : String) : Bool :=
  path.toList.contains '\\' ||
    ["%2f", "%5c", "%00"].any fun code => occursIn code.toList (lower path.toList)

/-- `^Bearer \S+$`, in either case. -/
def isBearer (authorization : String) : Bool :=
  lower (authorization.toList.take 7) = "bearer ".toList &&
    authorization.toList.drop 7 ≠ [] && (authorization.toList.drop 7).all (!isSpace ·)

/-- The bearer of an authorization is the API key. -/
def bearerIsApiKey (authorization : Option String) (apiKey : Option String) : Bool :=
  match authorization, apiKey with
  | some authorization, some apiKey =>
    lower (authorization.toList.take 7) = "bearer ".toList &&
      authorization.toList.drop 7 = apiKey.toList
  | _, _ => false

def isTenantHost (host : String) : Bool :=
  matchesRange (fun c => isLower c || isDigit c || c = '_')
    (fun c => isLower c || isDigit c || c = '_' || c = '.' || c = '-') 0 252 host

def isRealtimeHost (host : String) : Bool :=
  (host.toList.take 24).length = 24 && (host.toList.take 24).all isHex &&
    host.toList.drop 24 = ".realtime".toList

/-! ## Admission -/

def invalidKey : Refusal := ⟨401, "Invalid API key", .key⟩

def secretInBrowser : Refusal where
  status := 401
  message := "Secret API keys cannot be used in a browser. Use a publishable key there, and keep the secret key on your server."
  cause := .key

structure Access where
  apiKey : Option String
  kind : Option KeyKind
  keylessFunction : Bool
  deriving DecidableEq

/-- The key of a request, `verifyKey` being `none` when it throws. -/
def keyAccess (request : Request) (verifyKey : String → Option KeyVerdict) (apiKey : String) :
    Except Refusal Access := do
  require (apiKey ≠ "" ∧ utf16Length apiKey ≤ 8192) invalidKey
  let verdict ← found (verifyKey apiKey) ⟨503, "Key verification unavailable", .key⟩
  let kind ← found (kindOf verdict) invalidKey
  require (¬ (kind = .secret ∧ looksLikeBrowser request.headers)) secretInBrowser
  return ⟨some apiKey, some kind, false⟩

/-- The paths that a service does not have. -/
def checkService (request : Request) (service : Service) (path : String) : Except Refusal Unit := do
  require (service = .functions → isFunctionName (firstSegment path))
    ⟨404, "Function not found", .path⟩
  require (service = .realtime → path = "/api/broadcast" ∧ request.method = "POST")
    ⟨404, "Unknown route", .path⟩

def gatewayKeyAccess (request : Request) (service : Service) (path : String)
    (verifyKey : String → Option KeyVerdict) : Except Refusal Access := do
  checkService request service path
  if request.method = "OPTIONS" then return ⟨none, none, false⟩
  else match request.headers.get "apikey" with
    | some apiKey => keyAccess request verifyKey apiKey
    | none =>
      require (publicStorageRead request service path || browserAuthStep request service path ||
        service = .functions) invalidKey
      return ⟨none, none, decide (service = .functions)⟩

/-! ## The handler -/

structure Dispatch where
  target : Url
  method : String
  headers : Dict String String
  deriving DecidableEq

def EnvironmentRoute.upstream (route : EnvironmentRoute) : Service → Option String
  | .auth => some route.auth
  | .rest => some route.rest
  | .storage => route.storage.map Tenant.url
  | .realtime => route.realtime.map Tenant.url
  | .functions => route.functions

/-- What the key of a request becomes. -/
def keyToken (route : EnvironmentRoute) (service : Service) (kind : Option KeyKind) :
    Option String :=
  if kind = some .secret then truthy route.serviceToken
  else if service = .realtime ∧ (truthy route.realtimeToken).isSome then truthy route.realtimeToken
  else truthy (some route.anonymousToken)

/-- A request that the gateway goes on with. -/
structure Admitted where
  service : Service
  path : String
  route : EnvironmentRoute
  access : Access
  deriving DecidableEq

def allowedMethods : List String := ["GET", "HEAD", "POST", "PUT", "PATCH", "DELETE"]

/-- The checks of the key, the path and the method; `none` is the answer to a preflight. -/
def admission (registry : String → Option EnvironmentRoute)
    (verifyKey : String → String → Option KeyVerdict) (request : Request) :
    Except Refusal (Option Admitted) := do
  let (environment, service, path) ←
    found (parsePath request.pathname) ⟨404, "Unknown route", .route⟩
  checkService request service path
  let route ← found (registry environment) ⟨404, "Unknown route", .route⟩
  require (route.enabled = true) ⟨404, "Unknown route", .route⟩
  if request.method = "OPTIONS" then return none
  else
    let access ← gatewayKeyAccess request service path (verifyKey environment)
    require (access.keylessFunction = true ∨ (keyToken route service access.kind).isSome)
      ⟨503, "Secret keys are unavailable for this environment", .key⟩
    require (isInvalidPath path = false) ⟨400, "Invalid path", .path⟩
    require (request.method ∈ allowedMethods) ⟨405, "Method not allowed", .method⟩
    return some ⟨service, path, route, access⟩

def functionDropped : List String :=
  ["host", "connection", "keep-alive", "proxy-connection", "te", "trailer", "transfer-encoding",
    "upgrade", "content-length", "forwarded", "x-forwarded-for", "x-forwarded-host",
    "x-forwarded-proto", "x-forwarded-prefix", "x-real-ip", "authorization"]

def forwardedHeaders : List String :=
  ["accept", "content-type", "prefer", "range", "range-unit", "accept-profile", "content-profile",
    "x-client-info", "x-upsert", "cache-control", "if-none-match", "if-modified-since"]

/-- The caller's own headers that go on. -/
def callerHeaders (request : Request) (service : Service) : Dict String String :=
  if service = .functions then
    request.headers.filter fun name _ => !functionDropped.contains name
  else request.headers.filter fun name _ => forwardedHeaders.contains name

/-- `new URL(upstream)`, and the checks of it. -/
def parseUpstream (parseUrl : String → Option Url) (upstream : String) : Except Refusal Url := do
  let url ← found (parseUrl upstream) ⟨503, "Invalid upstream", .other⟩
  require ((url.protocol = "http:" ∨ url.protocol = "https:") ∧ url.username = "" ∧
    url.password = "") ⟨503, "Invalid upstream", .other⟩
  return url

/-- The setters of `pathname` and `search` leave the rest of a URL alone. -/
def Url.withPath (url : Url) (path search : String) : Url :=
  { url with pathname := path, search := search }

/-- The authorization that is handed on. -/
def handedAuthorization (a : Admitted) (authorization : Option String) : Option String :=
  if a.access.keylessFunction then authorization
  else if authorization.isSome ∧ bearerIsApiKey authorization a.access.apiKey = false then
    authorization
  else (keyToken a.route a.service a.access.kind).map ("Bearer " ++ ·)

def setSome (headers : Dict String String) (name : String) (value : Option String) :
    Dict String String :=
  match value with
  | some value => headers.set name value
  | none => headers

/-- The headers for the upstream. -/
def upstreamHeaders (request : Request) (a : Admitted) : Except Refusal (Dict String String) := do
  let headers := (callerHeaders request a.service).set "accept-encoding" "identity"
  let host := a.route.storage.map Tenant.tenantHost
  require (a.service = .storage → (host.any isTenantHost) = true)
    ⟨503, "Invalid storage tenant", .other⟩
  let headers := if a.service = .storage then setSome headers "x-forwarded-host" host else headers
  let authorization := truthy (request.headers.get "authorization")
  require ((authorization.all isBearer) = true) ⟨401, "Invalid authorization", .other⟩
  let headers := setSome headers "authorization" (handedAuthorization a authorization)
  let host := a.route.realtime.map Tenant.tenantHost
  require (a.service = .realtime → (truthy a.route.realtimeToken).isSome ∧
    (host.any isRealtimeHost) = true) ⟨503, "Realtime unavailable", .other⟩
  return if a.service = .realtime then
    setSome (setSome headers "host" host) "apikey" (keyToken a.route a.service a.access.kind)
  else headers

/-- What the upstream is handed. -/
def dispatch (parseUrl : String → Option Url) (request : Request) (a : Admitted) :
    Except Refusal Dispatch := do
  let upstream ← found (truthy (a.route.upstream a.service))
    ⟨404, "Service not configured", .other⟩
  let url ← parseUpstream parseUrl upstream
  let headers ← upstreamHeaders request a
  return ⟨url.withPath a.path request.search, request.method, headers⟩

/-- `gatewayHandler`, up to the transport. -/
def gatewayHandler (parseUrl : String → Option Url) (registry : String → Option EnvironmentRoute)
    (verifyKey : String → String → Option KeyVerdict) (request : Request) :
    Except Refusal (Option Dispatch) := do
  match ← admission registry verifyKey request with
  | none => return none
  | some admitted => some <$> dispatch parseUrl request admitted

end Sbarbase.Gateway.Handler
