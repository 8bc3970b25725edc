import Sbarbase.Control.Provisioning
/-!
# Routing

Where the catalog says a runtime listens, and the operator's steps during a
move: pause, stage, resume, each at the revision the operator read.
-/

namespace Sbarbase.Control

open Lib

inductive RoutingAction
  | pause
  | stage (placement : RuntimePlacement)
  | resume
  deriving DecidableEq

def RoutingAction.text : RoutingAction → String
  | .pause => "pause"
  | .stage _ => "stage"
  | .resume => "resume"

/-- The routing of a runtime, its placement checked again. -/
def Catalog.runtimeRouting (c : Catalog) (parseUrl : String → Option Url) (runtime : String) :
    Except String RuntimeRouting :=
  match c.routing.get runtime with
  | none => .ok ⟨0, false, none⟩
  | some row => do
    let placement ← match row.placement with
      | none => pure none
      | some placement => some <$> validatePlacement parseUrl placement
    let routing : RuntimeRouting := ⟨row.revision, row.maintenance, placement⟩
    let _ ← resolveRuntimePlacement parseUrl runtime routing
    return routing

section

variable (ctx : Context)

/-- What `stage` was given, checked. -/
def stagedPlacement : RoutingAction → Except String (Option RuntimePlacement)
  | .stage placement => some <$> validatePlacement ctx.parseUrl placement
  | .pause => .ok none
  | .resume => .ok none

/-- The action may follow the routing as it is. -/
def checkTransition (runtime : String) (current : RuntimeRouting) :
    RoutingAction → Option RuntimePlacement → Except String Unit
  | .stage _, some target => validatePlacementTransition runtime current.placement target
  | .resume, _ => do
    let _ ← placementServices (← resolveRuntimePlacement ctx.parseUrl runtime current)
  | _, _ => .ok ()

def notifyRouting (runtime : String) (action : RoutingAction) (revision : ℤ) :
    Option ProvisionJob → CatalogCall Unit
  | none => pure ()
  | some job => do
    let c ← .read id
    let _ ← Outbox.notify ctx
      (if action = .pause then .routingPaused else .routingResumed)
      (if action = .pause then .warning else .info)
      ("runtime.routing_" ++ action.text ++ "|" ++ runtime)
      (notificationScope c job.environment job.organization job.runtime) "system:placement"
      (if action = .pause then "routing_paused" else "routing_resumed")
      [("revision", .number revision)]

def changeRuntimeRouting (runtime : String) (expectedRevision : ℤ) (action : RoutingAction) :
    CatalogCall ℤ := do
  .require (isSafeInteger expectedRevision ∧ 0 ≤ expectedRevision) "Invalid routing revision"
  let target ← .lift (stagedPlacement ctx action)
  .transaction do
    let c ← .read id
    .require (c.runtimeReady runtime) "Runtime unavailable"
    let current ← .lift (c.runtimeRouting ctx.parseUrl runtime)
    .require (current.revision = expectedRevision) "Stale routing revision"
    .require (current.maintenance = true ↔ action ≠ .pause) "Invalid routing transition"
    .lift (checkTransition ctx runtime current action target)
    let revision := current.revision + 1
    .require (isSafeInteger revision) "Routing revision exhausted"
    .write fun c => { c with
      routing := c.routing.put
        ⟨runtime, revision, action ≠ .resume, target.or current.placement⟩ }
    Access.record ctx "system:placement" ("runtime.routing_" ++ action.text) runtime
      [("revision", .number revision)]
    .when (action.text ≠ "stage")
      (notifyRouting ctx runtime action revision (c.jobOfRuntime runtime))
    return revision

end

end Sbarbase.Control
