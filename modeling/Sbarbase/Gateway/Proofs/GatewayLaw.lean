import Sbarbase.Gateway.Proofs.Dispatch
/-!
# What the gateway hands on, and what it wakes
-/

namespace Sbarbase.Gateway.Handler.Proofs.GatewayLaw

open Lib Lib.Checked

/-- The moment of the second pass: after the wake, where there is one. -/
def passMoment (first : Moment) (awaits : Awaits) (request : Request) : Moment :=
  match enter first request with
  | .ok (_, service, path, access) =>
    if asks first request service path access then awaits.after else first
  | .error _ => first

/-- The key of the request resolved as a secret key, and no browser sent it. -/
def SecretKey (first : Moment) (awaits : Awaits) (request : Request) : Prop :=
  ∃ apiKey, request.headers.get "apikey" = some apiKey ∧
    Resolves request ((passMoment first awaits request).verify first.epoch) apiKey .secret

def EnvironmentRoute.withServiceToken (token : Option String) (route : EnvironmentRoute) :
    EnvironmentRoute :=
  { route with serviceToken := token }

def Moment.withServiceToken (token : Option String) (moment : Moment) : Moment :=
  { moment with route := moment.route.map (EnvironmentRoute.withServiceToken token) }

def Awaits.withServiceToken (token : Option String) (awaits : Awaits) : Awaits :=
  { awaits with after := Moment.withServiceToken token awaits.after }

/-- What is handed to an upstream. -/
structure Handed (parseUrl : String → Option Url) (first : Moment) (awaits : Awaits)
    (request : Request) (handed : Dispatch) : Prop where
  /-- Scheme, host and port are those of the route for the service of the path. -/
  upstream : ∃ environment service path route url,
    parsePath request.pathname = some (environment, service, path) ∧
      (passMoment first awaits request).route = some route ∧
      (∃ upstream, route.upstream service = some upstream ∧ parseUrl upstream = some url) ∧
      handed.target.protocol = url.protocol ∧ handed.target.hostname = url.hostname ∧
      handed.target.port = url.port
  /-- Without a key. -/
  keyless : request.headers.get "apikey" = none → ∃ environment service path,
    parsePath request.pathname = some (environment, service, path) ∧
      (publicStorageRead request service path = true ∨ browserAuthStep request service path = true ∨
        (service = .functions ∧ ∀ name value, handed.headers.get name = some value →
          request.headers.get name = some value ∨ (name = "accept-encoding" ∧ value = "identity")))
  /-- A bearer that is the key gives way to a token of the route, another is handed on. -/
  bearer : ∀ authorization, truthy (request.headers.get "authorization") = some authorization →
    isBearer authorization = true ∧
      if bearerIsApiKey (some authorization) (request.headers.get "apikey") then
        ∃ route service kind token, (passMoment first awaits request).route = some route ∧
          keyToken route service kind = some token ∧
          handed.headers.get "authorization" = some ("Bearer " ++ token)
      else handed.headers.get "authorization" = some authorization

/-- A wake is one of a verified key, or of a call without one to a public function. -/
def Wakes (first : Moment) (request : Request) : Prop :=
  ∃ environment service path, parsePath request.pathname = some (environment, service, path) ∧
    ((∃ apiKey kind, request.headers.get "apikey" = some apiKey ∧
        Resolves request first.keys apiKey kind) ∨
      (request.headers.get "apikey" = none ∧ service = .functions ∧
        first.publicFunction (firstSegment path) = true))

/-- What holds of every request. -/
structure Upholds (parseUrl : String → Option Url) (first : Moment) (awaits : Awaits)
    (request : Request) : Prop where
  handed : ∀ handed, (managedGateway parseUrl first awaits request).answer = .sent handed →
    Handed parseUrl first awaits request handed
  /-- Unless the key is a secret one, nothing depends on the service_role token. -/
  serviceToken : ¬ SecretKey first awaits request → ∀ token,
    managedGateway parseUrl (Moment.withServiceToken token first)
        (Awaits.withServiceToken token awaits) request =
      managedGateway parseUrl first awaits request
  wakes : (managedGateway parseUrl first awaits request).woke = true → Wakes first request

/-- No request wakes a service and is then refused for its key, its path or its method. -/
def WakesNoneRefused (parseUrl : String → Option Url) (first : Moment) (awaits : Awaits)
    (request : Request) : Prop :=
  (managedGateway parseUrl first awaits request).woke = true → ∀ refusal,
    (managedGateway parseUrl first awaits request).answer = .refused refusal →
      ¬ Refusal.ofRequest refusal

/-- The key stands in the second pass and at the transport, the path names no other one,
and the method is one that the gateway hands on. -/
structure Passes (parseUrl : String → Option Url) (epoch : ℤ) (after : Moment) (awaits : Awaits)
    (request : Request) (service : Service) (path : String) (route : EnvironmentRoute) : Prop where
  key : KeyStands request (after.verify epoch) route service
  path : isInvalidPath path = false
  method : request.method ∈ allowedMethods
  transport : HeadersReady request route service → (∃ url, Reachable parseUrl route service url) →
    awaits.body = none → awaits.transport.allows epoch = true

/-- The condition on a request that wakes a sleeping service. -/
def HoldsWhen (parseUrl : String → Option Url) (first : Moment) (awaits : Awaits)
    (request : Request) : Prop :=
  ∀ runtime service path access, enter first request = .ok (runtime, service, path, access) →
    asks first request service path access = true → awaits.ensured = ⟨true, none⟩ →
      awaits.after.allows first.epoch = true ∧ ∀ route, awaits.after.route = some route →
        route.enabled = true →
          Passes parseUrl first.epoch awaits.after awaits request service path route

/-! ## The passes -/

section

variable {parseUrl : String → Option Url} {first moment : Moment} {awaits : Awaits}
  {request : Request} {runtime : String} {service : Service} {path : String} {access : Access}
  {epoch : ℤ}

theorem enter_ok (h : enter first request = .ok (runtime, service, path, access)) :
    parsePath request.pathname = some (runtime, service, path) ∧
      gatewayKeyAccess request service path first.keys = .ok access := by
  unfold enter at h
  obtain ⟨_, -, h⟩ := bind_eq_ok.mp h
  obtain ⟨⟨environment, service', path'⟩, hparse, h⟩ := bind_eq_ok.mp h
  obtain ⟨access', haccess, h⟩ := bind_eq_ok.mp h
  obtain ⟨_, -, h⟩ := bind_eq_ok.mp h
  obtain ⟨_, -, h⟩ := bind_eq_ok.mp h
  obtain ⟨_, -, h⟩ := bind_eq_ok.mp h
  obtain ⟨_, -, h⟩ := bind_eq_ok.mp h
  obtain ⟨rfl, rfl, rfl, rfl⟩ : _ ∧ _ ∧ _ ∧ _ := by simpa using pure_eq_ok.mp h
  have hparsed := found_eq_ok.mp hparse
  have hruntime := firstSegment_of_parsePath hparsed
  subst hruntime
  exact ⟨hparsed, haccess⟩

/-- What a request that is sent went through in its pass. -/
theorem sent_of_forward {handed : Dispatch}
    (h : forward parseUrl runtime epoch moment awaits request = .sent handed) :
    ∃ route a, moment.route = some route ∧ a.route = route ∧
      Admits (fun environment => if environment = runtime then some route else none)
        (fun _ key => moment.verify epoch key) request a ∧
      dispatch parseUrl request a = .ok handed := by
  unfold forward at h
  split at h
  · exact (nomatch h)
  rename_i route hroute
  split at h
  · exact (nomatch h)
  · exact (nomatch h)
  rename_i handed' hhandler
  obtain rfl : handed' = handed := by
    split at h
    · exact (nomatch h)
    · split_ifs at h
      exact Answer.sent.inj h
  obtain ⟨admitted, hadmission, hdispatch⟩ := bind_eq_ok.mp hhandler
  cases admitted with
  | none => exact (nomatch pure_eq_ok.mp hdispatch)
  | some a =>
      obtain ⟨_, hok, hsome⟩ := map_eq_ok.mp hdispatch
      obtain rfl := Option.some.inj hsome
      have hadmits := admits hadmission
      obtain ⟨environment, -, hregistry, -⟩ := hadmits.parsed
      split_ifs at hregistry
      exact ⟨route, a, hroute, (Option.some.inj hregistry).symm, hadmits, hok⟩

theorem forward_of_sent {handed : Dispatch}
    (h : (managedGateway parseUrl first awaits request).answer = .sent handed) :
    ∃ runtime, forward parseUrl runtime first.epoch (passMoment first awaits request) awaits
      request = .sent handed := by
  unfold managedGateway at h
  unfold passMoment
  split at h
  · exact (nomatch h)
  rename_i runtime service path access henter
  refine ⟨runtime, ?_⟩
  simp only [henter]
  by_cases hasks : asks first request service path access = true
  · rw [if_pos hasks] at h ⊢
    dsimp only at h
    split at h
    · exact (nomatch h)
    · split_ifs at h
      exact h
  · rw [if_neg hasks] at h ⊢
    exact h

theorem not_options_of_allowed (h : request.method ∈ allowedMethods) : request.method ≠ "OPTIONS" := by
  intro hoptions
  rw [hoptions] at h
  exact absurd h (by decide)

/-! ## What is handed on -/

theorem handed_upholds {handed : Dispatch}
    (h : (managedGateway parseUrl first awaits request).answer = .sent handed) :
    Handed parseUrl first awaits request handed := by
  obtain ⟨runtime, hforward⟩ := forward_of_sent h
  obtain ⟨route, a, hroute, rfl, hadmits, hdispatch⟩ := sent_of_forward hforward
  obtain ⟨environment, hparse, -, haccess⟩ := hadmits.parsed
  obtain ⟨hready, url, ⟨⟨upstream, hupstream, hurl⟩, -⟩, rfl⟩ := dispatch_eq_ok.mp hdispatch
  have hcases := access_cases haccess (not_options_of_allowed hadmits.method)
  refine ⟨?_, ?_, ?_⟩
  · exact ⟨environment, a.service, a.path, a.route, url, hparse, hroute,
      ⟨upstream, (Option.filter_eq_some_iff.mp hupstream).1, hurl⟩, rfl, rfl, rfl⟩
  · intro hnone
    refine ⟨environment, a.service, a.path, hparse, ?_⟩
    rcases hcases with ⟨apiKey, -, hsome, -⟩ | ⟨-, hkeyless, haccess⟩
    · exact (nomatch hnone.symm.trans hsome)
    simp only [Bool.or_eq_true, decide_eq_true_eq] at hkeyless
    rcases hkeyless with (hread | hstep) | hservice
    · exact Or.inl hread
    · exact Or.inr (Or.inl hstep)
    · refine Or.inr (Or.inr ⟨hservice, fun name value hget => ?_⟩)
      exact headersOf_keyless hservice (by simp [haccess, hservice]) hget
  · intro authorization hauthorization
    have hbearer := hready.authorization
    rw [hauthorization] at hbearer
    refine ⟨hbearer, ?_⟩
    have hheader := headersOf_authorization request a
    rw [hauthorization] at hheader
    rcases hcases with ⟨apiKey, kind, hsome, -, haccess⟩ | ⟨hnone, -, haccess⟩
    · rw [hsome]
      split_ifs with hkey
      · -- the bearer is the key, so the token of the route replaces it
        obtain ⟨token, htoken⟩ := Option.isSome_iff_exists.mp
          (hadmits.token.resolve_left (by simp [haccess]))
        refine ⟨a.route, a.service, a.access.kind, token, hroute, htoken, ?_⟩
        have hgives : handedAuthorization a (some authorization) =
            (keyToken a.route a.service a.access.kind).map ("Bearer " ++ ·) := by
          simp [handedAuthorization, haccess, hkey]
        rw [hheader, hgives, htoken]
        rfl
      · rw [hheader]
        simp only [Bool.not_eq_true] at hkey
        simp [handedAuthorization, haccess, hkey]
    · rw [hnone, if_neg (by simp [bearerIsApiKey]), hheader]
      simp [handedAuthorization, haccess, bearerIsApiKey]

/-! ## The service_role token -/

theorem keyToken_withServiceToken (token : Option String) (route : EnvironmentRoute)
    (service : Service) {kind : Option KeyKind} (hkind : kind ≠ some .secret) :
    keyToken (EnvironmentRoute.withServiceToken token route) service kind =
      keyToken route service kind := by
  rw [keyToken, keyToken, if_neg hkind, if_neg hkind]
  rfl

theorem dispatch_withServiceToken (token : Option String) (a : Admitted)
    (hkind : a.access.kind ≠ some .secret) :
    dispatch parseUrl request { a with route := EnvironmentRoute.withServiceToken token a.route } =
      dispatch parseUrl request a := by
  have hupstream : (EnvironmentRoute.withServiceToken token a.route).upstream a.service =
      a.route.upstream a.service := by
    cases a.service <;> rfl
  have hheaders : upstreamHeaders request
      { a with route := EnvironmentRoute.withServiceToken token a.route } =
        upstreamHeaders request a := by
    simp only [upstreamHeaders, handedAuthorization, keyToken_withServiceToken token a.route a.service hkind]
    rfl
  simp only [dispatch, hupstream, hheaders]

theorem bind_congr_ok {ε α β : Type} {x : Except ε α} {f g : α → Except ε β}
    (h : ∀ a, x = .ok a → f a = g a) : (x >>= f) = (x >>= g) := by
  cases x with
  | error error => rfl
  | ok a => exact h a rfl

/-- A key that is not a secret one. -/
theorem kind_ne_secret {keys : String → Option KeyVerdict}
    (h : ∀ apiKey, request.headers.get "apikey" = some apiKey → ¬ Resolves request keys apiKey .secret)
    (haccess : gatewayKeyAccess request service path keys = .ok access) :
    access.kind ≠ some .secret := by
  by_cases hmethod : request.method = "OPTIONS"
  · have hnone := (gatewayKeyAccess_eq_ok.mp haccess).2
    rw [if_pos hmethod] at hnone
    rw [hnone]
    exact nofun
  · rcases access_cases haccess hmethod with ⟨apiKey, kind, hsome, hresolves, rfl⟩ | ⟨-, -, rfl⟩
    · rintro hsecret
      obtain rfl := Option.some.inj hsecret
      exact h apiKey hsome hresolves
    · exact nofun

theorem handler_withServiceToken (token : Option String) (route : EnvironmentRoute)
    (runtime : String) {keys : String → Option KeyVerdict}
    (h : ∀ apiKey, request.headers.get "apikey" = some apiKey → ¬ Resolves request keys apiKey .secret) :
    gatewayHandler parseUrl (fun environment => if environment = runtime then
        some (EnvironmentRoute.withServiceToken token route) else none) (fun _ => keys) request =
      gatewayHandler parseUrl (fun environment => if environment = runtime then some route else none)
        (fun _ => keys) request := by
  simp only [gatewayHandler, admission, bind_assoc]
  refine bind_congr_ok ?_
  rintro ⟨environment, service, path⟩ _
  refine bind_congr_ok fun _ _ => ?_
  by_cases henvironment : environment = runtime
  swap
  · simp only [if_neg henvironment]
  simp only [if_pos henvironment, found, ok_bind]
  refine bind_congr_ok fun _ _ => ?_
  by_cases hmethod : request.method = "OPTIONS"
  · simp only [if_pos hmethod]
  simp only [if_neg hmethod, bind_assoc]
  refine bind_congr_ok fun access haccess => ?_
  have hkind := kind_ne_secret h haccess
  rw [keyToken_withServiceToken token route service hkind]
  refine bind_congr_ok fun _ _ => bind_congr_ok fun _ _ => bind_congr_ok fun _ _ => ?_
  change some <$> dispatch parseUrl request
    ⟨service, path, EnvironmentRoute.withServiceToken token route, access⟩ = _
  rw [dispatch_withServiceToken token ⟨service, path, route, access⟩ hkind]
  rfl

theorem enter_withServiceToken (token : Option String) (first : Moment) (request : Request) :
    enter (Moment.withServiceToken token first) request = enter first request := by
  obtain ⟨ready, deleted, epoch, keys, dedicated, maintenance, route, draining, onDemand, open_⟩ := first
  cases route <;> rfl

theorem forward_withServiceToken (token : Option String)
    (h : ∀ apiKey, request.headers.get "apikey" = some apiKey →
      ¬ Resolves request (moment.verify epoch) apiKey .secret) :
    forward parseUrl runtime epoch (Moment.withServiceToken token moment)
        (Awaits.withServiceToken token awaits) request =
      forward parseUrl runtime epoch moment awaits request := by
  rcases hroute : moment.route with _ | route
  · simp only [forward, Moment.withServiceToken, hroute, Option.map_none]
  · have hhandler : gatewayHandler parseUrl (fun environment => if environment = runtime then
        some (EnvironmentRoute.withServiceToken token route) else none)
          (fun _ => moment.verify epoch) request =
        gatewayHandler parseUrl (fun environment => if environment = runtime then some route else none)
          (fun _ => moment.verify epoch) request := handler_withServiceToken token route runtime h
    have hverify : (Moment.withServiceToken token moment).verify = moment.verify := rfl
    have hroute' : (Moment.withServiceToken token moment).route =
        some (EnvironmentRoute.withServiceToken token route) := by
      simp only [Moment.withServiceToken, hroute, Option.map_some]
    simp only [forward, hroute, hroute', hverify]
    rw [hhandler]
    rfl

theorem serviceToken_upholds (h : ¬ SecretKey first awaits request) (token : Option String) :
    managedGateway parseUrl (Moment.withServiceToken token first)
        (Awaits.withServiceToken token awaits) request =
      managedGateway parseUrl first awaits request := by
  have hnone : ∀ apiKey, request.headers.get "apikey" = some apiKey →
      ¬ Resolves request ((passMoment first awaits request).verify first.epoch) apiKey .secret :=
    fun apiKey hsome hresolves => h ⟨apiKey, hsome, hresolves⟩
  unfold managedGateway
  rw [enter_withServiceToken]
  rcases henter : enter first request with refusal | ⟨runtime, service, path, access⟩
  · rfl
  dsimp only
  by_cases hasks : asks first request service path access = true
  · have hpass : passMoment first awaits request = awaits.after := by
      simp only [passMoment, henter, if_pos hasks]
    rw [hpass] at hnone
    have hforward : forward parseUrl runtime first.epoch (Moment.withServiceToken token awaits.after)
        (Awaits.withServiceToken token awaits) request =
          forward parseUrl runtime first.epoch awaits.after awaits request :=
      forward_withServiceToken token hnone
    rw [if_pos hasks, if_pos (show asks (Moment.withServiceToken token first) request service path
      access = true from hasks), ← hforward]
    rfl
  · have hpass : passMoment first awaits request = first := by
      simp only [passMoment, henter, if_neg hasks]
    rw [hpass] at hnone
    have hforward : forward parseUrl runtime first.epoch (Moment.withServiceToken token first)
        (Awaits.withServiceToken token awaits) request =
          forward parseUrl runtime first.epoch first awaits request :=
      forward_withServiceToken token hnone
    rw [if_neg hasks, if_neg (show ¬ asks (Moment.withServiceToken token first) request service path
      access = true from hasks), ← hforward]
    rfl

/-! ## Wakes -/

theorem asks_cases (h : asks first request service path access = true) :
    request.method ≠ "OPTIONS" ∧ (access.apiKey.isSome = true ∨ access.keylessFunction = true) ∧
      (access.apiKey.isSome = true ∨
        (service = .functions ∧ first.publicFunction (firstSegment path) = true)) := by
  simp only [asks, mayWake, Bool.and_eq_true, Bool.or_eq_true, decide_eq_true_eq] at h
  obtain ⟨⟨⟨-, hmethod⟩, -⟩, hmay⟩ := h
  refine ⟨hmethod, ?_, ?_⟩
  · exact hmay.imp_right fun hpublic => hpublic.1.2
  · exact hmay.imp_right fun hpublic => ⟨hpublic.1.1, hpublic.2⟩

theorem managed_asks (henter : enter first request = .ok (runtime, service, path, access))
    (hasks : asks first request service path access = true) (awaits : Awaits) :
    managedGateway parseUrl first awaits request = ⟨awaits.ensured.woke,
      match awaits.ensured.refusal with
      | some (status, message) => .refused ⟨status, message, .other⟩
      | none =>
        if awaits.after.allows first.epoch then
          forward parseUrl runtime first.epoch awaits.after awaits request
        else .refused invalidKey⟩ := by
  rw [managedGateway, henter]
  exact if_pos hasks

/-- Only a request that may wake the service wakes it. -/
theorem woke_cases (h : (managedGateway parseUrl first awaits request).woke = true) :
    ∃ runtime service path access, enter first request = .ok (runtime, service, path, access) ∧
      asks first request service path access = true ∧ awaits.ensured.woke = true := by
  rcases henter : enter first request with refusal | ⟨runtime, service, path, access⟩
  · simp [managedGateway, henter] at h
  · by_cases hasks : asks first request service path access = true
    · rw [managed_asks henter hasks] at h
      exact ⟨runtime, service, path, access, rfl, hasks, h⟩
    · simp [managedGateway, henter, hasks] at h

theorem wakes_upholds (h : (managedGateway parseUrl first awaits request).woke = true) :
    Wakes first request := by
  obtain ⟨runtime, service, path, access, henter, hasks, -⟩ := woke_cases h
  obtain ⟨hparse, haccess⟩ := enter_ok henter
  obtain ⟨hmethod, -, hmay⟩ := asks_cases hasks
  refine ⟨runtime, service, path, hparse, ?_⟩
  rcases access_cases haccess hmethod with ⟨apiKey, kind, hsome, hresolves, -⟩ | ⟨hnone, -, heq⟩
  · exact Or.inl ⟨apiKey, kind, hsome, hresolves⟩
  · exact Or.inr ⟨hnone, hmay.resolve_left (by simp [heq])⟩

section

variable {route : EnvironmentRoute}

theorem forward_of_admission (hroute : moment.route = some route) {a : Admitted}
    (hadmission : admission (fun environment => if environment = runtime then some route else none)
      (fun _ key => moment.verify epoch key) request = .ok (some a)) :
    forward parseUrl runtime epoch moment awaits request =
      match dispatch parseUrl request a with
      | .error refusal => .refused refusal
      | .ok handed =>
        match awaits.body with
        | some (status, message) => .refused ⟨status, message, .other⟩
        | none => if awaits.transport.allows epoch then .sent handed else .refused invalidKey := by
  simp only [forward, hroute, gatewayHandler, hadmission, ok_bind]
  cases dispatch parseUrl request a <;> rfl

theorem forward_of_error (hroute : moment.route = some route) {refusal : Refusal}
    (hadmission : admission (fun environment => if environment = runtime then some route else none)
      (fun _ key => moment.verify epoch key) request = .error refusal) :
    forward parseUrl runtime epoch moment awaits request = .refused refusal := by
  simp only [forward, hroute, gatewayHandler, hadmission]
  rfl

/-- A request that passes is not refused for what it is. -/
theorem forward_passes (hparse : parsePath request.pathname = some (runtime, service, path))
    (haccess : gatewayKeyAccess request service path first.keys = .ok access)
    (hasks : asks first request service path access = true) (hroute : moment.route = some route)
    (henabled : route.enabled = true)
    (hpasses : Passes parseUrl epoch moment awaits request service path route) {refusal : Refusal}
    (h : forward parseUrl runtime epoch moment awaits request = .refused refusal) :
    refusal.cause = .other := by
  obtain ⟨hmethod, hwake, -⟩ := asks_cases hasks
  obtain ⟨access', hadmission⟩ : ∃ access', admission
      (fun environment => if environment = runtime then some route else none)
      (fun _ key => moment.verify epoch key) request = .ok (some ⟨service, path, route, access'⟩) :=
    again_ok hparse haccess hmethod (if_pos rfl) henabled hwake hpasses.key hpasses.path
      hpasses.method
  rw [forward_of_admission hroute hadmission] at h
  rcases hdispatch : dispatch parseUrl request ⟨service, path, route, access'⟩ with refused | handed
  · rw [hdispatch] at h
    obtain rfl := Answer.refused.inj h
    exact dispatch_cause hdispatch
  · obtain ⟨hready, url, hreachable, -⟩ := dispatch_eq_ok.mp hdispatch
    rw [hdispatch] at h
    dsimp only at h
    rcases hbody : awaits.body with _ | ⟨status, message⟩
    · simp [hbody, hpasses.transport hready ⟨url, hreachable⟩ hbody] at h
    · rw [hbody] at h
      obtain rfl := Answer.refused.inj h
      rfl

/-- A request that is not refused for what it is passes. -/
theorem passes_of_forward (hparse : parsePath request.pathname = some (runtime, service, path))
    (haccess : gatewayKeyAccess request service path first.keys = .ok access)
    (hasks : asks first request service path access = true) (hroute : moment.route = some route)
    (henabled : route.enabled = true)
    (h : ∀ refusal, forward parseUrl runtime epoch moment awaits request = .refused refusal →
      ¬ Refusal.ofRequest refusal) :
    Passes parseUrl epoch moment awaits request service path route := by
  obtain ⟨hmethod, -, -⟩ := asks_cases hasks
  rcases hadmission : admission (fun environment => if environment = runtime then some route else none)
      (fun _ key => moment.verify epoch key) request with refusal | answered
  · exact absurd (again_cause hparse haccess hmethod (if_pos rfl) henabled hadmission)
      (h refusal (forward_of_error hroute hadmission))
  cases answered with
  | none =>
      -- only a preflight is answered so
      rw [admission_again hparse haccess hmethod (if_pos rfl) henabled] at hadmission
      obtain ⟨_, -, hadmission⟩ := bind_eq_ok.mp hadmission
      obtain ⟨_, -, hadmission⟩ := bind_eq_ok.mp hadmission
      obtain ⟨_, -, hadmission⟩ := bind_eq_ok.mp hadmission
      obtain ⟨_, -, hadmission⟩ := bind_eq_ok.mp hadmission
      exact (nomatch pure_eq_ok.mp hadmission)
  | some a =>
      have hadmits := admits hadmission
      have hstands := hadmits.keyStands hmethod runtime hparse
      obtain ⟨environment, hparse', hregistry, -⟩ := hadmits.parsed
      obtain ⟨rfl, hservice, hpath⟩ : runtime = environment ∧ service = a.service ∧ path = a.path := by
        simpa using hparse.symm.trans hparse'
      obtain rfl : route = a.route := by simpa using hregistry
      subst hservice hpath
      refine ⟨hstands, hadmits.path, hadmits.method, fun hready hreach hbody => ?_⟩
      obtain ⟨url, hreachable⟩ := hreach
      by_contra hgone
      have hdispatch := dispatch_eq_ok.mpr ⟨hready, url, hreachable, rfl⟩
      refine h invalidKey ?_ (Or.inl rfl)
      rw [forward_of_admission hroute hadmission, hdispatch]
      simp only [hbody, if_neg hgone]

theorem forward_without_route (hroute : moment.route = none) {refusal : Refusal}
    (h : forward parseUrl runtime epoch moment awaits request = .refused refusal) :
    refusal.cause = .other := by
  simp only [forward, hroute] at h
  obtain rfl := Answer.refused.inj h
  rfl

theorem forward_disabled (hparse : parsePath request.pathname = some (runtime, service, path))
    (haccess : gatewayKeyAccess request service path first.keys = .ok access)
    (hroute : moment.route = some route) (hdisabled : ¬ route.enabled = true) {refusal : Refusal}
    (h : forward parseUrl runtime epoch moment awaits request = .refused refusal) :
    refusal.cause = .route := by
  have hservice := (gatewayKeyAccess_eq_ok.mp haccess).1
  have hadmission : admission (fun environment => if environment = runtime then some route else none)
      (fun _ key => moment.verify epoch key) request = .error ⟨404, "Unknown route", .route⟩ := by
    simp only [admission, hparse, found, hservice, ok_bind, if_pos, require_neg hdisabled]
    rfl
  rw [forward_of_error hroute hadmission] at h
  obtain rfl := Answer.refused.inj h
  rfl

end

theorem not_ofRequest {refusal : Refusal} (h : refusal.cause = .other ∨ refusal.cause = .route) :
    ¬ Refusal.ofRequest refusal := by
  rintro (hcause | hcause | hcause) <;> rcases h with hother | hother <;>
    exact (nomatch hother.symm.trans hcause)

theorem wakesNoneRefused_iff :
    WakesNoneRefused parseUrl first awaits request ↔ HoldsWhen parseUrl first awaits request := by
  constructor
  · intro h runtime service path access henter hasks hensured
    obtain ⟨hparse, haccess⟩ := enter_ok henter
    unfold WakesNoneRefused at h
    rw [managed_asks henter hasks, hensured] at h
    have hrefused := h rfl
    dsimp only at hrefused
    have hallowed : awaits.after.allows first.epoch = true := by
      by_contra hgone
      exact hrefused invalidKey (by rw [if_neg hgone]) (Or.inl rfl)
    rw [if_pos hallowed] at hrefused
    exact ⟨hallowed, fun route hroute henabled =>
      passes_of_forward hparse haccess hasks hroute henabled hrefused⟩
  · intro h hwoke refusal hrefused
    obtain ⟨runtime, service, path, access, henter, hasks, hwoken⟩ := woke_cases hwoke
    obtain ⟨hparse, haccess⟩ := enter_ok henter
    rw [managed_asks henter hasks] at hrefused
    rcases hensured : awaits.ensured.refusal with _ | ⟨status, message⟩
    swap
    · simp only [hensured] at hrefused
      obtain rfl := Answer.refused.inj hrefused
      exact not_ofRequest (Or.inl rfl)
    obtain ⟨hallowed, hpasses⟩ := h runtime service path access henter hasks
      (by rw [← hwoken, ← hensured])
    simp only [hensured, if_pos hallowed] at hrefused
    rcases hroute : awaits.after.route with _ | route
    · exact not_ofRequest (Or.inl (forward_without_route hroute hrefused))
    by_cases henabled : route.enabled = true
    · exact not_ofRequest (Or.inl (forward_passes hparse haccess hasks hroute henabled
        (hpasses route hroute henabled) hrefused))
    · exact not_ofRequest (Or.inr (forward_disabled hparse haccess hroute henabled hrefused))

end

section

private def route : EnvironmentRoute where
  auth := "http://10.0.0.2:9999"
  rest := "http://10.0.0.3:3000"
  storage := none
  realtime := none
  functions := some "http://10.0.0.4:9000"
  realtimeToken := none
  anonymousToken := "anon"
  serviceToken := none
  enabled := true

private def asleep : Moment where
  ready := true
  deleted := false
  epoch := 1
  keys := fun key => some (if key = "sb_publishable_k" then .kind .publishable else .null)
  dedicated := false
  maintenance := false
  route := some { route with functions := none }
  draining := false
  onDemand := (· = .functions)
  publicFunction := fun _ => false

private def woken : Awaits where
  ensured := ⟨true, none⟩
  after := { asleep with route := some route }
  body := none
  transport := { asleep with route := some route }

private def call (method pathname : String) : Request where
  pathname := pathname
  search := ""
  tokens := []
  method := method
  headers := (∅ : Dict String String).set "apikey" "sb_publishable_k"

private def parse (upstream : String) : Option Url :=
  if upstream = "http://10.0.0.4:9000" then some ⟨"http:", "", "", "10.0.0.4", "9000", "/", ""⟩
  else none

end

end Sbarbase.Gateway.Handler.Proofs.GatewayLaw
