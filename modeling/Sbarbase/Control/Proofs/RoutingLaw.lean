import Sbarbase.Control.Proofs.Routings
/-!
# Sequences of routing operations

A runtime under any sequence of pauses, stages and resumes, each at some expected
revision and on some runtime. What is staged is served after a resume only, so
a placement takes effect when it changes under maintenance.
-/

namespace Sbarbase.Control.Proofs.RoutingLaw

open Lib Lib.Call Control Control.Proofs.Placements Control.Proofs.Routings

/-- One call of an operator. -/
structure Request where
  ctx : Context
  runtime : String
  expected : ℤ
  action : RoutingAction

def Request.call (request : Request) : CatalogCall ℤ :=
  changeRuntimeRouting request.ctx request.runtime request.expected request.action

def Request.succeeds (request : Request) (c : Catalog) : Bool :=
  match (request.call c).1 with
  | .ok _ => true
  | .error _ => false

/-- Routing operations in any order, from any catalog. -/
def routingMachine (start : Catalog) : Machine Catalog Request where
  initial := start
  step c request := request.call.after c

section

variable {c : Catalog} {request : Request}

instance : Atomic request.call := by
  unfold Request.call changeRuntimeRouting
  infer_instance

/-- A request that fails changes nothing, one that succeeds moves its runtime. -/
theorem step_cases (start c : Catalog) (request : Request) :
    (request.succeeds c = false ∧ (∃ e, request.call c = (.error e, c)) ∧
      (routingMachine start).step c request = c) ∨
    (request.succeeds c = true ∧
      request.call.Returns c (request.expected + 1) ((routingMachine start).step c request) ∧
      ∃ current target, Moves request.ctx c ((routingMachine start).step c request)
        request.runtime request.expected request.action current target) := by
  rcases Atomic.outcome (c := request.call) inferInstance c with ⟨e, he⟩ | ⟨a, c', hr⟩
  · left
    refine ⟨?_, ⟨e, he⟩, ?_⟩
    · rw [Request.succeeds, he]
    · show (request.call c).2 = c
      rw [he]
  · right
    have hafter : (routingMachine start).step c request = c' := hr.after_eq
    obtain ⟨rfl, hmoves⟩ := changeRuntimeRouting_moves request.ctx request.runtime
      request.expected request.action c a c' hr
    rw [hafter]
    refine ⟨?_, hr, hmoves⟩
    rw [Request.succeeds, show request.call c = _ from hr]

end

/-- One for a request of the runtime that succeeds. -/
def counts (runtime : String) (c : Catalog) (request : Request) : ℕ :=
  if request.runtime = runtime ∧ request.succeeds c = true then 1 else 0

theorem step_revision (start c : Catalog) (request : Request) (runtime : String) :
    revision ((routingMachine start).step c request) runtime =
      revision c runtime + counts runtime c request := by
  rcases step_cases start c request with ⟨hfails, -, hsame⟩ | ⟨hsucceeds, -, _, _, hmoves⟩
  · simp [hsame, counts, hfails]
  · by_cases hruntime : request.runtime = runtime
    · subst hruntime
      rw [hmoves.revision_after, hmoves.revision_before]
      simp [counts, hsucceeds]
    · rw [revision, hmoves.get_of_ne (Ne.symm hruntime)]
      simp [counts, hruntime, revision]

theorem run_revision (start c : Catalog) (requests : List Request) (runtime : String) :
    revision ((routingMachine start).runFrom c requests) runtime =
      revision c runtime + (routingMachine start).total (counts runtime) c requests := by
  induction requests generalizing c with
  | nil => simp [Machine.total]
  | cons request requests ih =>
      rw [Machine.runFrom_cons, ih, step_revision, Machine.total]
      omega

/-! ## Generations -/

theorem step_generation (start c : Catalog) (request : Request) (runtime : String) :
    Follows (generation (placement c runtime))
      (generation (placement ((routingMachine start).step c request) runtime)) := by
  rcases step_cases start c request with ⟨-, -, hsame⟩ | ⟨-, -, _, _, hmoves⟩
  · rw [hsame]
    exact .inl rfl
  · by_cases hruntime : request.runtime = runtime
    · subst hruntime
      exact hmoves.generation
    · left
      simp only [placement, hmoves.get_of_ne (Ne.symm hruntime)]

/-- A native placement stays native and its generation never falls. -/
def Grown (runtime : String) (c c' : Catalog) : Prop :=
  ∀ g, generation (placement c runtime) = some g →
    ∃ g', generation (placement c' runtime) = some g' ∧ g ≤ g'

theorem run_grown (start c : Catalog) (requests : List Request) (runtime : String) :
    Grown runtime c ((routingMachine start).runFrom c requests) := by
  apply (routingMachine start).runFrom_rel (R := Grown runtime)
  · exact fun s g hg => ⟨g, hg, le_refl g⟩
  · intro s t u hst htu g hg
    obtain ⟨g', hg', hle⟩ := hst g hg
    obtain ⟨g'', hg'', hle'⟩ := htu g' hg'
    exact ⟨g'', hg'', hle.trans hle'⟩
  · intro s request g hg
    rcases step_generation start s request runtime with hsame | ⟨hnone, -⟩ | ⟨g', hg', hnext⟩
    · exact ⟨g, hsame.trans hg, le_refl g⟩
    · rw [hg] at hnone
      cases hnone
    · have heq : g = g' := Option.some.inj (hg.symm.trans hg')
      exact ⟨g' + 1, hnext, by omega⟩

/-! ## Staged placements -/

/-- The placement passes the check as it is stored. -/
def Normal (parseUrl : String → Option Url) (c : Catalog) (runtime : String) : Prop :=
  ∀ stored, placement c runtime = some stored → validatePlacement parseUrl stored = .ok stored

section

variable {parseUrl : String → Option Url} (hurl : OriginLaw parseUrl)

/-- Reading a normal placement gives it back. -/
theorem rechecked_normal {stored read : Option RuntimePlacement}
    (h : Rechecked parseUrl stored read)
    (hnormal : ∀ p, stored = some p → validatePlacement parseUrl p = .ok p) : read = stored := by
  cases h with
  | none => rfl
  | @some stored read h =>
      have heq := hnormal stored rfl
      rw [h] at heq
      injection heq with heq
      rw [heq]

include hurl in
theorem step_normal (start c : Catalog) (request : Request)
    (hctx : request.ctx.parseUrl = parseUrl) (runtime : String) (hc : Normal parseUrl c runtime) :
    Normal parseUrl ((routingMachine start).step c request) runtime := by
  rcases step_cases start c request with ⟨-, -, hsame⟩ | ⟨-, -, _, _, hmoves⟩
  · rw [hsame]
    exact hc
  · by_cases hruntime : request.runtime = runtime
    · subst hruntime
      intro stored hstored
      rw [hmoves.placement_after] at hstored
      rcases hmoves.target_cases with ⟨rfl, -⟩ | ⟨new, checked, -, rfl, hnew, -⟩
      · have hread := (runtimeRouting_eq hmoves.found).2.2
        rw [hctx] at hread
        exact hc stored ((rechecked_normal hread hc).symm.trans hstored)
      · obtain rfl := Option.some.inj hstored
        rw [hctx] at hnew
        exact validatePlacement_again hurl hnew
    · intro stored hstored
      apply hc
      rwa [placement, hmoves.get_of_ne (Ne.symm hruntime)] at hstored

/-- The placement changed because this request staged it, under maintenance. -/
structure Stages (parseUrl : String → Option Url) (c c' : Catalog) (request : Request)
    (runtime : String) : Prop where
  own : request.runtime = runtime
  staged : ∃ new checked, request.action = .stage new ∧
    validatePlacement parseUrl new = .ok checked ∧ placement c' runtime = some checked
  before : inMaintenance c runtime = true
  after : inMaintenance c' runtime = true

theorem step_stages (start c : Catalog) (request : Request)
    (hctx : request.ctx.parseUrl = parseUrl) (runtime : String) (hc : Normal parseUrl c runtime)
    (hchanged : placement ((routingMachine start).step c request) runtime ≠ placement c runtime) :
    Stages parseUrl c ((routingMachine start).step c request) request runtime := by
  rcases step_cases start c request with ⟨-, -, hsame⟩ | ⟨-, -, current, target, hmoves⟩
  · rw [hsame] at hchanged
    exact absurd rfl hchanged
  · by_cases hruntime : request.runtime = runtime
    · subst hruntime
      rcases hmoves.target_cases with ⟨rfl, -⟩ | ⟨new, checked, haction, rfl, hnew, -⟩
      · have hread := (runtimeRouting_eq hmoves.found).2.2
        rw [hctx] at hread
        exact absurd (hmoves.placement_after.trans (rechecked_normal hread hc)) hchanged
      · rw [hctx] at hnew
        refine ⟨rfl, ⟨new, checked, haction, hnew, hmoves.placement_after⟩, ?_, ?_⟩
        · rw [hmoves.maintenance_before, haction]
          simp
        · rw [hmoves.maintenance_after, haction]
          simp
    · simp only [placement, hmoves.get_of_ne (Ne.symm hruntime)] at hchanged
      exact absurd rfl hchanged

end

/-! ## The law -/

/-- What one request does to the revisions and the maintenance flag. -/
structure Step (c c' : Catalog) (request : Request) : Prop where
  /-- The revision it expected was the current one, and is one less than the next. -/
  moves : request.succeeds c = true → revision c request.runtime = request.expected ∧
    revision c' request.runtime = request.expected + 1 ∧
    request.call.Returns c (request.expected + 1) c'
  fails : request.succeeds c = false → (∃ e, request.call c = (.error e, c)) ∧ c' = c
  stale : revision c request.runtime ≠ request.expected →
    (∃ e, request.call c = (.error e, c)) ∧ c' = c
  resumes : request.succeeds c = true → request.action = .resume →
    inMaintenance c request.runtime = true ∧ inMaintenance c' request.runtime = false
  pauses : request.succeeds c = true → request.action = .pause →
    inMaintenance c request.runtime = false ∧ inMaintenance c' request.runtime = true
  others : ∀ other, other ≠ request.runtime → c'.routing.get other = c.routing.get other

theorem step_law (start c : Catalog) (request : Request) :
    Step c ((routingMachine start).step c request) request := by
  rcases step_cases start c request with ⟨hfails, herror, hsame⟩ |
    ⟨hsucceeds, hreturns, _, _, hmoves⟩
  · refine ⟨?_, fun _ => ⟨herror, hsame⟩, fun _ => ⟨herror, hsame⟩, ?_, ?_, ?_⟩
    · intro h
      rw [hfails] at h
      cases h
    · intro h
      rw [hfails] at h
      cases h
    · intro h
      rw [hfails] at h
      cases h
    · intro other _
      rw [hsame]
  · refine ⟨fun _ => ⟨hmoves.revision_before, hmoves.revision_after, hreturns⟩, ?_, ?_, ?_, ?_, ?_⟩
    · intro h
      rw [hsucceeds] at h
      cases h
    · intro hstale
      exact absurd hmoves.revision_before hstale
    · intro _ haction
      rw [hmoves.maintenance_before, ← Bool.not_eq_true, hmoves.maintenance_after, haction]
      simp
    · intro _ haction
      rw [← Bool.not_eq_true, hmoves.maintenance_before, hmoves.maintenance_after, haction]
      simp
    · exact fun other hne => hmoves.get_of_ne hne

/-- Routing operations of the platform's `parseUrl`, from a catalog that never
routed the runtime or stored a checked placement. -/
theorem routing_law {parseUrl : String → Option Url} (hurl : OriginLaw parseUrl) :
    (∀ start c request, Step c ((routingMachine start).step c request) request) ∧
    (∀ start requests runtime,
      revision ((routingMachine start).run requests) runtime =
        revision start runtime + (routingMachine start).total (counts runtime) start requests) ∧
    (∀ start requests runtime, Normal parseUrl start runtime →
      (∀ request ∈ requests, request.ctx.parseUrl = parseUrl) →
      ∀ request, request.ctx.parseUrl = parseUrl →
      let c := (routingMachine start).run requests
      let c' := (routingMachine start).step c request
      placement c' runtime ≠ placement c runtime → Stages parseUrl c c' request runtime) ∧
    (∀ start c request runtime, Follows (generation (placement c runtime))
      (generation (placement ((routingMachine start).step c request) runtime))) ∧
    (∀ start requests later runtime, Grown runtime ((routingMachine start).run requests)
      ((routingMachine start).run (requests ++ later))) := by
  refine ⟨step_law, fun start requests runtime => run_revision start start requests runtime, ?_,
    step_generation, ?_⟩
  · intro start requests runtime hstart hrequests request hctx c c' hchanged
    refine step_stages start c request hctx runtime ?_ hchanged
    exact (routingMachine start).run_invariant_of hstart
      (fun c request hctx hc => step_normal hurl start c request hctx runtime hc) requests hrequests
  · intro start requests later runtime
    rw [(routingMachine start).run_append]
    exact run_grown start _ later runtime

/-! ### One runtime -/

/-- A platform that knows one address. -/
def oneOrigin (text : String) : Option Url :=
  if text = "http://a" then some ⟨"http:", "", "", "", "", "/", "http://a"⟩ else none

theorem oneOrigin_law : OriginLaw oneOrigin := by
  intro text url h _
  unfold oneOrigin at h
  split_ifs at h
  injection h with h
  subst h
  rfl

def operatorContext (event : String) : Context where
  now := 0
  current := fun _ => true
  event := event
  channels := []
  authorizationStore := false
  authority := none
  lifecycleAdmission := none
  parseUrl := oneOrigin
  toLowerCase := id
  digest := id
  placementDigest := fun _ => ""

def oneRuntime : String := "e_000000000000000000000000"

/-- A catalog with one runtime that is ready. -/
def oneReady : Catalog :=
  { Catalog.empty with
    jobs := ⟨[⟨"e", oneRuntime, "a", "o", .succeeded, 1, none, none⟩], List.nodup_singleton _⟩ }

def operate (event : String) (expected : ℤ) (action : RoutingAction) : Request :=
  ⟨operatorContext event, oneRuntime, expected, action⟩

def twoServices : RuntimePlacement := .services ⟨"http://a", "http://a", none⟩

/-- A stage before the pause and a stale pause fail, the rest succeeds. -/
def move : List Request :=
  [operate "a" 0 (.stage twoServices), operate "b" 0 .pause, operate "c" 0 .pause,
    operate "d" 1 (.stage twoServices), operate "e" 2 .resume]

/-- The law at the run of one move. -/
theorem move_follows : revision ((routingMachine oneReady).run move) oneRuntime = 3 ∧
      revision ((routingMachine oneReady).run move) oneRuntime =
        revision oneReady oneRuntime +
          (routingMachine oneReady).total (counts oneRuntime) oneReady move :=
  ⟨by decide, (routing_law oneOrigin_law).2.1 oneReady move oneRuntime⟩

end Sbarbase.Control.Proofs.RoutingLaw
