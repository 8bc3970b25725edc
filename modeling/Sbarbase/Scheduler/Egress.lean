import Sbarbase.Scheduler.Address
import Sbarbase.Lib.Dict
/-!
# Outgoing requests

`policy`, `refusal` and `perform` of `scheduler/egress.ts`. What `new URL` and
`isIP` answer is a parameter. What the resolver, the servers and the clock do
during each hop is given for the whole request.
-/

namespace Sbarbase.Scheduler

open Lib

/-! ## The policy -/

/-- A parsed address, with the fields of `URL`. `port` is none when it is the scheme's own. -/
structure Url where
  protocol : String
  username : String
  password : String
  hostname : String
  port : Option ℕ
  pathname : String
  search : String
  deriving DecidableEq

/-- `url.origin`. Only the schemes that have one; no other is ever connected to. -/
def Url.origin (url : Url) : String :=
  if url.protocol ∈ ["http:", "https:", "ftp:", "ws:", "wss:"] then
    url.protocol ++ "//" ++ url.hostname ++ match url.port with
      | some port => ":" ++ toString port
      | none => ""
  else "null"

structure Policy where
  ports : List ℕ
  publicOrigin : Option String
  own : List Range

structure PolicyInput where
  ports : List ℕ
  publicUrl : Option String
  addresses : List String
  subnets : List String

def policy (parse : String → Option Url) (exotic : List Char → Except String ℤ)
    (input : PolicyInput) : Policy where
  ports := if input.ports = [] then [80, 443] else input.ports
  publicOrigin := (input.publicUrl.bind parse).bind fun url =>
    if url.protocol = "http:" ∨ url.protocol = "https:" then some url.origin else none
  own :=
    (input.addresses.filterMap fun address => (parseAddress address.toList).map fun parsed =>
      ⟨parsed.v, parsed.value, parsed.v.width, "this server"⟩) ++
    input.subnets.filterMap fun subnet => (range exotic subnet.toList "a Docker network").toOption

/-- An IPv4-mapped address is compared as the IPv4 address. -/
def unmapped (address : Address) : Address :=
  if address.v = .six ∧ inside MAPPED address then ⟨.four, address.value &&& 0xffffffff⟩ else address

/-- Why this address may not be reached. `publicOrigin` lifts the server's own addresses only. -/
def refusal (address : String) (rules : Policy) (publicOrigin : Bool) : Option String :=
  match parseAddress address.toList with
  | none => some "not an IP address"
  | some parsed =>
    match SPECIAL.find? (inside · (unmapped parsed)) with
    | some entry => some (entry.label ++ " address")
    | none =>
      if publicOrigin then none
      else (rules.own.find? (inside · (unmapped parsed))).map Range.label

/-! ## Requests and answers -/

inductive Method
  | GET
  | POST
  | DELETE
  deriving DecidableEq

structure HttpRequest where
  method : Method
  url : String
  headers : List (String × String)
  body : Option (List UInt8)
  timeoutMs : ℤ

inductive HttpResult
  | answered (status : ℕ) (headers : Dict String String) (contentType body error : Option String)
  | failed (timedOut : Bool) (error : String)

def MAX_REDIRECTS : ℕ := 5

/-- The answer of a server: its headers as they came, name after value after name. -/
structure Answer where
  status : ℕ
  raw : List String
  body : String
  cut : Bool

/-- Why a hop failed. `other` holds the code or the message of the error. -/
inductive Failure
  | refused (message : String)
  | timedOut
  | other (code : String)

/-- What happens while the hop waits. `late` says that the time of the request
ends before the address is found, `aborted` that it has ended when a failure is
caught. -/
structure Hop where
  lookup : Except Failure (List String)
  late : Bool
  answer : Except Failure Answer
  aborted : Bool

/-- `new URL(text, base)`, and `isIP`. -/
structure Net where
  parse : String → Option Url → Option Url
  isIP : String → ℕ

/-- A connection made, with the request sent over it. -/
structure Connection where
  url : Url
  address : String
  method : Method
  headers : List (String × String)
  body : Option (List UInt8)

def Url.host (url : Url) : String :=
  if url.hostname.toList.head? = some '[' then String.ofList url.hostname.toList.tail.dropLast
  else url.hostname

/-- `url.port?Number(url.port):url.protocol==='https:'?443:80`. -/
def Url.portNumber (url : Url) : ℕ := url.port.getD (if url.protocol = "https:" then 443 else 80)

/-- The checked address for this URL. -/
def target (net : Net) (refuse : String → Policy → Bool → Option String) (url : Url)
    (rules : Policy) (hop : Hop) : Except Failure String :=
  let exact : Bool := rules.publicOrigin = some url.origin
  if url.protocol ≠ "http:" ∧ url.protocol ≠ "https:" then
    .error (.refused "only http and https are allowed")
  else if url.username ≠ "" ∨ url.password ≠ "" then
    .error (.refused "credentials in the address are not allowed")
  else if !exact ∧ url.portNumber ∉ rules.ports then
    .error (.refused ("port " ++ toString url.portNumber ++ " is not allowed"))
  else if url.host = "" then .error (.refused "no host")
  else
    match if net.isIP url.host ≠ 0 then .ok [url.host] else hop.lookup with
    | .error failure => .error failure
    | .ok [] => .error (.other "ENOTFOUND")
    | .ok (first :: rest) =>
      match (first :: rest).findSome? (refuse · rules exact) with
      | some why => .error (.refused (url.host ++ " resolves to a " ++ why))
      | none => if hop.late then .error .timedOut else .ok first

/-- What `once` sends. -/
def once (request : HttpRequest) (url : Url) (address : String) : Connection where
  url := url
  address := address
  method := request.method
  headers :=
    let length := (request.body.getD []).length
    if length ≠ 0 ∧ request.headers.all (fun header => header.1.toLower ≠ "content-length") then
      request.headers ++ [("Content-Length", toString length)]
    else request.headers
  body := if request.body = some [] then none else request.body

/-- `a` and `b` with one character between them occur in the text. -/
def occurWithGap (a b : List Char) : List Char → Bool
  | [] => false
  | c :: text =>
    (a.isPrefixOf (c :: text) && b.isPrefixOf ((c :: text).drop (a.length + 1))) ||
      occurWithGap a b text

/-- The text pg_net has for the code of an error. -/
def message (code : String) : String :=
  let has := fun words : List String => words.any fun word => occursIn word.toList code.toList
  let hasLower := fun words : List String => words.any fun word =>
    occursIn word.toList code.toLower.toList
  if has ["ENOTFOUND", "EAI_AGAIN", "EAI_NONAME"] then "Couldn't resolve host name"
  else if has ["ECONNREFUSED", "EHOSTUNREACH", "ENETUNREACH", "ECONNRESET"] then
    "Couldn't connect to server"
  else if hasLower ["cert", "ssl", "tls", "unable to verify"] ||
      occurWithGap "self".toList "signed".toList code.toLower.toList then
    "SSL peer certificate or SSH remote key was not OK"
  else if hasLower ["err_invalid_http_token", "err_invalid_char", "header"] then
    "Invalid request header"
  else "Failed sending or receiving data"

/-- The headers that came, by name and value. -/
def pairs : List String → List (String × String)
  | name :: value :: raw => (name, value) :: pairs raw
  | _ => []

def header (raw : List String) (name : String) : Option String :=
  (((pairs raw).filter fun pair => pair.1.toLower = name).getLast?).map Prod.snd

/-! ## Redirects -/

def isSensitive (name : String) : Bool := name.toLower ∈ ["authorization", "cookie"]

def locationOf (answer : Answer) : Option String :=
  if answer.status ∈ [301, 302, 303, 307, 308] then header answer.raw "location" else none

/-- The request and the URL of the next hop. -/
def redirected (net : Net) (current : HttpRequest) (url : Url) (answer : Answer)
    (location : String) : Except Failure (HttpRequest × Url) :=
  match net.parse location (some url) with
  | none => .error (.other "ERR_INVALID_URL")
  | some next =>
    if url.protocol = "https:" ∧ next.protocol = "http:" then
      .error (.refused "a redirect from https to http is not allowed")
    else
      let headers :=
        if next.origin ≠ url.origin then
          current.headers.filter fun header => !isSensitive header.1
        else current.headers
      let toGet := answer.status = 303 ∨
        ((answer.status = 301 ∨ answer.status = 302) ∧ current.method = .POST)
      .ok ({ current with
        headers := headers
        method := if toGet then .GET else current.method
        body := if toGet then none else current.body }, next)

def failed (timeoutMs : ℤ) (hop : Hop) : Failure → HttpResult
  | .refused message =>
    .failed false ("Refused by the server's outgoing request policy: " ++ message)
  | .timedOut => .failed true ("Timeout of " ++ toString timeoutMs ++ " ms reached")
  | .other code =>
    if hop.aborted then .failed true ("Timeout of " ++ toString timeoutMs ++ " ms reached")
    else .failed false (message code)

def answered (answer : Answer) : HttpResult :=
  .answered answer.status
    ((pairs answer.raw).foldl (fun headers pair => headers.set pair.1 pair.2) ∅)
    (header answer.raw "content-type")
    (if answer.body = "" then none
      else some (String.ofList (answer.body.toList.filter (· ≠ '\x00'))))
    (if answer.cut then some "Response body cut at 1 MiB" else none)

section

variable (net : Net) (refuse : String → Policy → Bool → Option String) (rules : Policy)
  (timeoutMs : ℤ) (world : ℕ → Hop)

/-- The hops of a request, from the one that may follow `remaining` redirects. -/
def follow : ℕ → HttpRequest → Url → List Connection × HttpResult
  | remaining, current, url =>
    let hop := world (MAX_REDIRECTS - remaining)
    match target net refuse url rules hop with
    | .error failure => ([], failed timeoutMs hop failure)
    | .ok address =>
      let made := once current url address
      match hop.answer with
      | .error failure => ([made], failed timeoutMs hop failure)
      | .ok answer =>
        match locationOf answer, remaining with
        | none, _ => ([made], answered answer)
        | some _, 0 =>
          ([made], .failed false ("Maximum (" ++ toString MAX_REDIRECTS ++ ") redirects followed"))
        | some location, remaining + 1 =>
          match redirected net current url answer location with
          | .error failure => ([made], failed timeoutMs hop failure)
          | .ok (next, nextUrl) =>
            let rest := follow remaining next nextUrl
            (made :: rest.1, rest.2)

end

def MAX_TIMEOUT_MS : ℤ := 60000

/-- The connections of a request and its result. -/
def perform (net : Net) (refuse : String → Policy → Bool → Option String) (request : HttpRequest)
    (rules : Policy) (world : ℕ → Hop) : List Connection × HttpResult :=
  let timeoutMs :=
    max 1 (min MAX_TIMEOUT_MS (if request.timeoutMs = 0 then 5000 else request.timeoutMs))
  match net.parse request.url none with
  | none => ([], .failed false "URL using bad/illegal format or missing URL")
  | some url => follow net refuse rules timeoutMs world MAX_REDIRECTS request url

end Sbarbase.Scheduler
