import Sbarbase.Gateway.Proofs.Admission
/-!
# What the upstream is handed
-/

namespace Sbarbase.Gateway.Handler.Proofs

open Lib Lib.Checked

variable {request : Request} {a : Admitted} {parseUrl : String → Option Url}

theorem get_setSome (headers : Dict String String) (name : String) (value : Option String)
    (key : String) :
    (setSome headers name value).get key = if key = name then value.or (headers.get key)
      else headers.get key := by
  cases value with
  | none =>
      rw [Option.none_or]
      split_ifs <;> rfl
  | some value =>
      rw [setSome, Dict.get_set, Option.some_or]

/-! ## Headers -/

/-- The headers once their checks passed. -/
def headersOf (request : Request) (a : Admitted) : Dict String String :=
  let headers := (callerHeaders request a.service).set "accept-encoding" "identity"
  let headers := if a.service = .storage then
    setSome headers "x-forwarded-host" (a.route.storage.map Tenant.tenantHost) else headers
  let headers := setSome headers "authorization"
    (handedAuthorization a (truthy (request.headers.get "authorization")))
  if a.service = .realtime then
    setSome (setSome headers "host" (a.route.realtime.map Tenant.tenantHost)) "apikey"
      (keyToken a.route a.service a.access.kind)
  else headers

/-- What the headers need of the route and of the authorization. -/
structure HeadersReady (request : Request) (route : EnvironmentRoute) (service : Service) :
    Prop where
  storage : service = .storage → (route.storage.map Tenant.tenantHost).any isTenantHost = true
  authorization : (truthy (request.headers.get "authorization")).all isBearer = true
  realtime : service = .realtime → (truthy route.realtimeToken).isSome = true ∧
    (route.realtime.map Tenant.tenantHost).any isRealtimeHost = true

theorem upstreamHeaders_eq_ok {headers : Dict String String} :
    upstreamHeaders request a = .ok headers ↔
      HeadersReady request a.route a.service ∧ headers = headersOf request a := by
  simp only [upstreamHeaders, bind_eq_ok, require_eq_ok, pure_eq_ok]
  constructor
  · rintro ⟨_, hstorage, _, hauthorization, _, hrealtime, rfl⟩
    exact ⟨⟨hstorage, hauthorization, hrealtime⟩, rfl⟩
  · rintro ⟨⟨hstorage, hauthorization, hrealtime⟩, rfl⟩
    exact ⟨(), hstorage, (), hauthorization, (), hrealtime, rfl⟩

theorem callerHeaders_authorization (request : Request) (service : Service) :
    (callerHeaders request service).get "authorization" = none := by
  have hdropped : functionDropped.contains "authorization" = true := by decide
  have hnot : forwardedHeaders.contains "authorization" = false := by decide
  unfold callerHeaders
  split_ifs
  · rw [Dict.get_filter, hdropped]
    cases request.headers.get "authorization" <;> rfl
  · rw [Dict.get_filter, hnot]
    cases request.headers.get "authorization" <;> rfl

/-- No other header is written over the authorization. -/
theorem headersOf_authorization (request : Request) (a : Admitted) :
    (headersOf request a).get "authorization" =
      handedAuthorization a (truthy (request.headers.get "authorization")) := by
  have hcaller : ((callerHeaders request a.service).set "accept-encoding" "identity").get
      "authorization" = none := by
    rw [Dict.get_set, if_neg (by decide), callerHeaders_authorization]
  have hstored : (if a.service = .storage then
      setSome ((callerHeaders request a.service).set "accept-encoding" "identity") "x-forwarded-host"
        (a.route.storage.map Tenant.tenantHost)
      else (callerHeaders request a.service).set "accept-encoding" "identity").get
        "authorization" = none := by
    split_ifs
    · rw [get_setSome, if_neg (by decide), hcaller]
    · exact hcaller
  simp only [headersOf]
  by_cases hrealtime : a.service = .realtime
  · rw [if_pos hrealtime, get_setSome, if_neg (by decide), get_setSome, if_neg (by decide),
      get_setSome, if_pos rfl, hstored, Option.or_none]
  · rw [if_neg hrealtime, get_setSome, if_pos rfl, hstored, Option.or_none]

/-- A call of a function without a key carries only what its caller sent. -/
theorem headersOf_keyless (hservice : a.service = .functions)
    (hkeyless : a.access.keylessFunction = true) {name value : String}
    (h : (headersOf request a).get name = some value) :
    request.headers.get name = some value ∨ (name = "accept-encoding" ∧ value = "identity") := by
  have hheaders : headersOf request a = setSome
      ((request.headers.filter fun name _ => !functionDropped.contains name).set "accept-encoding"
        "identity") "authorization" (truthy (request.headers.get "authorization")) := by
    simp [headersOf, hservice, callerHeaders, handedAuthorization, hkeyless]
  have hcaller : ∀ name value, (request.headers.filter fun name _ =>
      !functionDropped.contains name).get name = some value →
      request.headers.get name = some value := by
    intro name value hget
    rw [Dict.get_filter] at hget
    exact (Option.filter_eq_some_iff.mp hget).1
  rw [hheaders, get_setSome] at h
  split_ifs at h with hname
  · subst hname
    rw [Dict.get_set, if_neg (by decide)] at h
    rcases Option.or_eq_some_iff.mp h with hauthorization | ⟨-, hget⟩
    · exact Or.inl (Option.filter_eq_some_iff.mp hauthorization).1
    · exact Or.inl (hcaller _ _ hget)
  · rw [Dict.get_set] at h
    split_ifs at h with hencoding
    · exact Or.inr ⟨hencoding, (Option.some.inj h).symm⟩
    · exact Or.inl (hcaller _ _ h)

/-! ## The target -/

/-- The upstream of a service, as the gateway can call it. -/
def Reachable (parseUrl : String → Option Url) (route : EnvironmentRoute) (service : Service)
    (url : Url) : Prop :=
  (∃ upstream, truthy (route.upstream service) = some upstream ∧ parseUrl upstream = some url) ∧
    (url.protocol = "http:" ∨ url.protocol = "https:") ∧ url.username = "" ∧ url.password = ""

theorem dispatch_eq_ok {handed : Dispatch} : dispatch parseUrl request a = .ok handed ↔
    HeadersReady request a.route a.service ∧ ∃ url, Reachable parseUrl a.route a.service url ∧
      handed = ⟨url.withPath a.path request.search, request.method, headersOf request a⟩ := by
  simp only [dispatch, parseUpstream, bind_eq_ok, found_eq_ok, require_eq_ok, pure_eq_ok,
    upstreamHeaders_eq_ok, Reachable]
  constructor
  · rintro ⟨upstream, hupstream, url, ⟨_, hparse, _, hurl, rfl⟩, headers, ⟨hready, rfl⟩, rfl⟩
    exact ⟨hready, _, ⟨⟨upstream, hupstream, hparse⟩, hurl⟩, rfl⟩
  · rintro ⟨hready, url, ⟨⟨upstream, hupstream, hparse⟩, hurl⟩, rfl⟩
    exact ⟨upstream, hupstream, url, ⟨url, hparse, (), hurl, rfl⟩, _, ⟨hready, rfl⟩, rfl⟩

theorem dispatch_cause {refusal : Refusal} (h : dispatch parseUrl request a = .error refusal) :
    refusal.cause = .other := by
  unfold dispatch at h
  rcases error_of_bind h with hupstream | ⟨upstream, -, h⟩
  · rw [found_error hupstream]
  rcases error_of_bind h with hurl | ⟨url, -, h⟩
  · rcases error_of_bind hurl with hparse | ⟨_, -, hurl⟩
    · rw [found_error hparse]
    rcases error_of_bind hurl with hcheck | ⟨_, -, hurl⟩
    · rw [require_error hcheck]
    exact (nomatch hurl)
  rcases error_of_bind h with hheaders | ⟨headers, -, h⟩
  · rcases error_of_bind hheaders with hstorage | ⟨_, -, hheaders⟩
    · rw [require_error hstorage]
    rcases error_of_bind hheaders with hauthorization | ⟨_, -, hheaders⟩
    · rw [require_error hauthorization]
    rcases error_of_bind hheaders with hrealtime | ⟨_, -, hheaders⟩
    · rw [require_error hrealtime]
    exact (nomatch hheaders)
  exact (nomatch h)

end Sbarbase.Gateway.Handler.Proofs
