import Sbarbase.Gateway.Managed
/-!
# What the passes of the gateway check

Each function of the gateway once: what an answer of it says, and what its refusals are
about.
-/

namespace Sbarbase.Gateway.Handler.Proofs

open Lib Lib.Checked

variable {request : Request} {service : Service} {path environment : String}

/-! ## Paths -/

theorem firstSegment_of_parsePath {pathname : String}
    (h : parsePath pathname = some (environment, service, path)) :
    firstSegment pathname = environment := by
  unfold parsePath at h
  unfold firstSegment
  split at h
  · rename_i heq
    rw [heq]
    dsimp only at h
    split_ifs at h
    · obtain ⟨found, -, hfound⟩ := Option.map_eq_some_iff.mp h
      exact congrArg Prod.fst hfound
  · exact (nomatch h)

/-! ## Keys -/

/-- A key that resolves, and not to a secret one sent by a browser. -/
def Resolves (request : Request) (verifyKey : String → Option KeyVerdict) (apiKey : String)
    (kind : KeyKind) : Prop :=
  (verifyKey apiKey).bind kindOf = some kind ∧
    ¬ (kind = .secret ∧ looksLikeBrowser request.headers = true)

theorem keyAccess_eq_ok {verifyKey : String → Option KeyVerdict} {apiKey : String}
    {access : Access} : keyAccess request verifyKey apiKey = .ok access ↔
      (apiKey ≠ "" ∧ utf16Length apiKey ≤ 8192) ∧
        ∃ kind, Resolves request verifyKey apiKey kind ∧ access = ⟨some apiKey, some kind, false⟩ := by
  simp only [keyAccess, bind_eq_ok, require_eq_ok, found_eq_ok, pure_eq_ok, Resolves,
    Option.bind_eq_some_iff]
  constructor
  · rintro ⟨_, hsize, verdict, hverdict, kind, hkind, _, hbrowser, rfl⟩
    exact ⟨hsize, kind, ⟨⟨verdict, hverdict, hkind⟩, hbrowser⟩, rfl⟩
  · rintro ⟨hsize, kind, ⟨⟨verdict, hverdict, hkind⟩, hbrowser⟩, rfl⟩
    exact ⟨(), hsize, verdict, hverdict, kind, hkind, (), hbrowser, rfl⟩

theorem error_of_bind {ε α β : Type} {x : Except ε α} {f : α → Except ε β} {error : ε}
    (h : (x >>= f) = .error error) : x = .error error ∨ ∃ a, x = .ok a ∧ f a = .error error := by
  cases x with
  | error other => exact Or.inl (congrArg Except.error (Except.error.inj h))
  | ok a => exact Or.inr ⟨a, rfl, h⟩

theorem require_error {p : Prop} [Decidable p] {refusal error : Refusal}
    (h : require p refusal = .error error) : error = refusal := by
  unfold require at h
  split_ifs at h
  exact (Except.error.inj h).symm

theorem found_error {α : Type} {value : Option α} {refusal error : Refusal}
    (h : found value refusal = .error error) : error = refusal := by
  cases value with
  | none => exact (Except.error.inj h).symm
  | some a => exact (nomatch h)

theorem keyAccess_cause {verifyKey : String → Option KeyVerdict} {apiKey : String}
    {refusal : Refusal} (h : keyAccess request verifyKey apiKey = .error refusal) :
    refusal.cause = .key := by
  unfold keyAccess at h
  rcases error_of_bind h with hsize | ⟨-, -, h⟩
  · rw [require_error hsize]
    rfl
  rcases error_of_bind h with hthrows | ⟨verdict, -, h⟩
  · rw [found_error hthrows]
  rcases error_of_bind h with hnull | ⟨kind, -, h⟩
  · rw [found_error hnull]
    rfl
  rcases error_of_bind h with hbrowser | ⟨-, -, h⟩
  · rw [require_error hbrowser]
    rfl
  exact (nomatch h)

/-- What an access says. A preflight carries none. -/
theorem gatewayKeyAccess_eq_ok {verifyKey : String → Option KeyVerdict} {access : Access} :
    gatewayKeyAccess request service path verifyKey = .ok access ↔
      checkService request service path = .ok () ∧
      if request.method = "OPTIONS" then access = ⟨none, none, false⟩
      else match request.headers.get "apikey" with
        | some apiKey => keyAccess request verifyKey apiKey = .ok access
        | none => (publicStorageRead request service path || browserAuthStep request service path ||
            service = .functions) = true ∧ access = ⟨none, none, decide (service = .functions)⟩ := by
  rw [gatewayKeyAccess, bind_eq_ok]
  by_cases hmethod : request.method = "OPTIONS"
  · simp only [if_pos hmethod, pure_eq_ok]
    exact ⟨fun ⟨_, hservice, haccess⟩ => ⟨hservice, haccess.symm⟩,
      fun ⟨hservice, haccess⟩ => ⟨(), hservice, haccess.symm⟩⟩
  rcases hkey : request.headers.get "apikey" with _ | apiKey
  · simp only [if_neg hmethod, bind_eq_ok, require_eq_ok, pure_eq_ok]
    constructor
    · rintro ⟨_, hservice, _, hkeyless, rfl⟩
      exact ⟨hservice, hkeyless, rfl⟩
    · rintro ⟨hservice, hkeyless, rfl⟩
      exact ⟨(), hservice, (), hkeyless, rfl⟩
  · simp only [if_neg hmethod]
    exact ⟨fun ⟨_, hservice, haccess⟩ => ⟨hservice, haccess⟩,
      fun ⟨hservice, haccess⟩ => ⟨(), hservice, haccess⟩⟩

/-- The access of a request that is no preflight: its key, or that it calls a function
without one. -/
theorem access_cases {verifyKey : String → Option KeyVerdict} {access : Access}
    (h : gatewayKeyAccess request service path verifyKey = .ok access)
    (hmethod : request.method ≠ "OPTIONS") :
    (∃ apiKey kind, request.headers.get "apikey" = some apiKey ∧
      Resolves request verifyKey apiKey kind ∧ access = ⟨some apiKey, some kind, false⟩) ∨
    (request.headers.get "apikey" = none ∧
      (publicStorageRead request service path || browserAuthStep request service path ||
        service = .functions) = true ∧ access = ⟨none, none, decide (service = .functions)⟩) := by
  obtain ⟨-, h⟩ := gatewayKeyAccess_eq_ok.mp h
  rw [if_neg hmethod] at h
  rcases hkey : request.headers.get "apikey" with _ | apiKey
  · simp only [hkey] at h
    exact Or.inr ⟨rfl, h⟩
  · simp only [hkey] at h
    obtain ⟨-, kind, hresolves, haccess⟩ := keyAccess_eq_ok.mp h
    exact Or.inl ⟨apiKey, kind, rfl, hresolves, haccess⟩

/-- The second pass of a request that the first let through has only its key to check. -/
theorem gatewayKeyAccess_again {verifyKey verifyKey' : String → Option KeyVerdict}
    {access : Access} (h : gatewayKeyAccess request service path verifyKey = .ok access)
    (hmethod : request.method ≠ "OPTIONS") :
    gatewayKeyAccess request service path verifyKey' =
      match request.headers.get "apikey" with
      | some apiKey => keyAccess request verifyKey' apiKey
      | none => .ok access := by
  obtain ⟨hservice, h⟩ := gatewayKeyAccess_eq_ok.mp h
  rw [if_neg hmethod] at h
  rw [gatewayKeyAccess, hservice, ok_bind, if_neg hmethod]
  rcases hkey : request.headers.get "apikey" with _ | apiKey
  · simp only [hkey] at h ⊢
    rw [require_pos h.1, h.2]
    rfl
  · rfl

/-! ## Admission -/

/-- What is known of a request that the gateway goes on with. -/
structure Admits (registry : String → Option EnvironmentRoute)
    (verifyKey : String → String → Option KeyVerdict) (request : Request) (a : Admitted) : Prop where
  parsed : ∃ environment, parsePath request.pathname = some (environment, a.service, a.path) ∧
    registry environment = some a.route ∧
    gatewayKeyAccess request a.service a.path (verifyKey environment) = .ok a.access
  method : request.method ∈ allowedMethods
  path : isInvalidPath a.path = false
  token : a.access.keylessFunction = true ∨ (keyToken a.route a.service a.access.kind).isSome = true

theorem admits {registry : String → Option EnvironmentRoute}
    {verifyKey : String → String → Option KeyVerdict} {a : Admitted}
    (h : admission registry verifyKey request = .ok (some a)) : Admits registry verifyKey request a := by
  unfold admission at h
  obtain ⟨⟨environment, service, path⟩, hparse, h⟩ := bind_eq_ok.mp h
  obtain ⟨_, -, h⟩ := bind_eq_ok.mp h
  obtain ⟨route, hroute, h⟩ := bind_eq_ok.mp h
  obtain ⟨_, -, h⟩ := bind_eq_ok.mp h
  split_ifs at h with hmethod
  · exact (nomatch pure_eq_ok.mp h)
  obtain ⟨access, haccess, h⟩ := bind_eq_ok.mp h
  obtain ⟨_, htoken, h⟩ := bind_eq_ok.mp h
  obtain ⟨_, hpath, h⟩ := bind_eq_ok.mp h
  obtain ⟨_, hallowed, h⟩ := bind_eq_ok.mp h
  obtain rfl := Option.some.inj (pure_eq_ok.mp h)
  exact ⟨⟨environment, found_eq_ok.mp hparse, found_eq_ok.mp hroute, haccess⟩,
    require_eq_ok.mp hallowed, require_eq_ok.mp hpath, require_eq_ok.mp htoken⟩

/-- The API key of a request still stands for it when it is checked again. -/
def KeyStands (request : Request) (verifyKey : String → Option KeyVerdict) (route : EnvironmentRoute)
    (service : Service) : Prop :=
  ∀ apiKey, request.headers.get "apikey" = some apiKey →
    ∃ kind, Resolves request verifyKey apiKey kind ∧ (keyToken route service (some kind)).isSome = true

/-- A refusal for the key, the path or the method. -/
def Refusal.ofRequest (refusal : Refusal) : Prop :=
  refusal.cause = .key ∨ refusal.cause = .path ∨ refusal.cause = .method

section

variable {registry : String → Option EnvironmentRoute}
  {verifyKey : String → String → Option KeyVerdict} {firstKeys : String → Option KeyVerdict}
  {access : Access} {route : EnvironmentRoute}

/-- The second pass, for a request that the first let through: the access is checked
again, then the token, the path and the method. -/
theorem admission_again (hparse : parsePath request.pathname = some (environment, service, path))
    (hfirst : gatewayKeyAccess request service path firstKeys = .ok access)
    (hmethod : request.method ≠ "OPTIONS") (hroute : registry environment = some route)
    (henabled : route.enabled = true) :
    admission registry verifyKey request = (do
      let access ← gatewayKeyAccess request service path (verifyKey environment)
      require (access.keylessFunction = true ∨ (keyToken route service access.kind).isSome)
        ⟨503, "Secret keys are unavailable for this environment", .key⟩
      require (isInvalidPath path = false) ⟨400, "Invalid path", .path⟩
      require (request.method ∈ allowedMethods) ⟨405, "Method not allowed", .method⟩
      return some ⟨service, path, route, access⟩) := by
  have hservice := (gatewayKeyAccess_eq_ok.mp hfirst).1
  simp only [admission, hparse, found, hservice, hroute, ok_bind, require_pos henabled, if_neg hmethod]

theorem access_stands (hfirst : gatewayKeyAccess request service path firstKeys = .ok access)
    (hmethod : request.method ≠ "OPTIONS") (hwake : access.apiKey.isSome = true ∨
      access.keylessFunction = true) {keys : String → Option KeyVerdict}
    (hstands : KeyStands request keys route service) :
    ∃ access', gatewayKeyAccess request service path keys = .ok access' ∧
      (access'.keylessFunction = true ∨ (keyToken route service access'.kind).isSome = true) := by
  have hagain : gatewayKeyAccess request service path keys = _ :=
    gatewayKeyAccess_again hfirst hmethod
  obtain ⟨-, hfirst⟩ := gatewayKeyAccess_eq_ok.mp hfirst
  rw [if_neg hmethod] at hfirst
  rcases hkey : request.headers.get "apikey" with _ | apiKey
  · simp only [hkey] at hagain hfirst
    refine ⟨access, hagain, Or.inl ?_⟩
    rcases hwake with hsome | hkeyless
    · rw [hfirst.2] at hsome
      cases hsome
    · exact hkeyless
  · simp only [hkey] at hagain hfirst
    obtain ⟨hsize, -⟩ := keyAccess_eq_ok.mp hfirst
    obtain ⟨kind, hresolves, htoken⟩ := hstands apiKey hkey
    refine ⟨⟨some apiKey, some kind, false⟩, ?_, Or.inr htoken⟩
    rw [hagain]
    exact keyAccess_eq_ok.mpr ⟨hsize, kind, hresolves, rfl⟩

/-- What the second pass refuses is refused for the key, the path or the method. -/
theorem again_cause (hparse : parsePath request.pathname = some (environment, service, path))
    (hfirst : gatewayKeyAccess request service path firstKeys = .ok access)
    (hmethod : request.method ≠ "OPTIONS") (hroute : registry environment = some route)
    (henabled : route.enabled = true) {refusal : Refusal}
    (h : admission registry verifyKey request = .error refusal) : Refusal.ofRequest refusal := by
  rw [admission_again hparse hfirst hmethod hroute henabled] at h
  rcases error_of_bind h with haccess | ⟨access', -, h⟩
  · rw [gatewayKeyAccess_again hfirst hmethod] at haccess
    rcases hkey : request.headers.get "apikey" with _ | apiKey
    · simp only [hkey] at haccess
      cases haccess
    · simp only [hkey] at haccess
      exact Or.inl (keyAccess_cause haccess)
  rcases error_of_bind h with htoken | ⟨_, -, h⟩
  · rw [require_error htoken]
    exact Or.inl rfl
  rcases error_of_bind h with hpath | ⟨_, -, h⟩
  · rw [require_error hpath]
    exact Or.inr (Or.inl rfl)
  rcases error_of_bind h with hallowed | ⟨_, -, h⟩
  · rw [require_error hallowed]
    exact Or.inr (Or.inr rfl)
  cases h

theorem again_ok (hparse : parsePath request.pathname = some (environment, service, path))
    (hfirst : gatewayKeyAccess request service path firstKeys = .ok access)
    (hmethod : request.method ≠ "OPTIONS") (hroute : registry environment = some route)
    (henabled : route.enabled = true)
    (hwake : access.apiKey.isSome = true ∨ access.keylessFunction = true)
    (hstands : KeyStands request (verifyKey environment) route service)
    (hpath : isInvalidPath path = false) (hallowed : request.method ∈ allowedMethods) :
    ∃ access', admission registry verifyKey request = .ok (some ⟨service, path, route, access'⟩) := by
  obtain ⟨access', haccess, htoken⟩ := access_stands hfirst hmethod hwake hstands
  refine ⟨access', ?_⟩
  rw [admission_again hparse hfirst hmethod hroute henabled, haccess, ok_bind, require_pos htoken,
    ok_bind, require_pos hpath, ok_bind, require_pos hallowed]
  rfl

/-- A request that the second pass lets through has a key that stands. -/
theorem Admits.keyStands {a : Admitted} (h : Admits registry verifyKey request a)
    (hmethod : request.method ≠ "OPTIONS") (environment : String)
    (hparse : parsePath request.pathname = some (environment, service, path)) :
    KeyStands request (verifyKey environment) a.route a.service := by
  obtain ⟨environment', hparse', -, haccess⟩ := h.parsed
  obtain rfl : environment = environment' := congrArg Prod.fst (Option.some.inj (hparse.symm.trans hparse'))
  intro apiKey hsome
  rcases access_cases haccess hmethod with ⟨apiKey', kind, hsome', hresolves, heq⟩ | ⟨hnone, -⟩
  · obtain rfl := Option.some.inj (hsome.symm.trans hsome')
    refine ⟨kind, hresolves, ?_⟩
    have htoken := h.token
    rw [heq] at htoken
    exact htoken.resolve_left nofun
  · exact (nomatch hnone.symm.trans hsome)

end

end Sbarbase.Gateway.Handler.Proofs
