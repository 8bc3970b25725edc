import Sbarbase.Lib.Machine
/-!
# A service replaced side by side

`replace` and `repair` of `lab/rolling.py`, for one service of one environment.
Both are lists of effects. The process can end between any two of them, by a
crash or by a step that raises, and the next `repair` starts from what the
record and the containers say.
-/

namespace Sbarbase.Rolling

open Lib

inductive Phase
  | starting
  | switched
  | retiring
deriving DecidableEq

/-- `rolling.json` -/
structure Record where
  phase : Phase
  old : String
  new : Option String
deriving DecidableEq

/-- A container, and whether the code stopped it. -/
structure Container where
  id : String
  stopped : Bool
deriving DecidableEq

structure World where
  /-- The container of the canonical name, and of the name with `SUFFIX`. -/
  canonical : Option Container
  temporary : Option Container
  /-- The container whose settings file stands under either name. -/
  settings : Option String
  nextSettings : Option String
  /-- The container the published address is of; none for an environment that is not published. -/
  published : Option String
  /-- The connection limits are raised for two containers. -/
  raised : Bool
  record : Option Record
deriving DecidableEq

/-- What `replace` and `repair` do, one durable step each. -/
inductive Effect
  | write (record : Record)
  | widen
  | narrow
  /-- `launch` writes the settings file, then runs the container. -/
  | secureFile (id : String)
  | run (id : String)
  | stop (id : String)
  | remove (id : String)
  | rename
  | takeSettings
  | dropSettings
  | point (id : String)
  /-- `repair` points at the canonical container if it runs. -/
  | publish
  | settle
deriving DecidableEq

namespace World

variable (w : World)

/-- The environment's entry is only changed where there is one. -/
def point (id : String) : World := { w with published := w.published.map fun _ => id }

def publish (running : Bool) : World :=
  match w.canonical with
  | some c => if running ∧ !c.stopped then w.point c.id else w
  | none => w

/-- `docker stop` of a container under either name. -/
def stop (id : String) : Option World :=
  if w.canonical.map Container.id = some id then
    some { w with canonical := some ⟨id, true⟩ }
  else if w.temporary.map Container.id = some id then
    some { w with temporary := some ⟨id, true⟩ }
  else none

/-- `docker rm -f` of a container under either name. -/
def remove (id : String) : Option World :=
  if w.canonical.map Container.id = some id then some { w with canonical := none }
  else if w.temporary.map Container.id = some id then some { w with temporary := none }
  else none

/-- `docker rename`: the name must be free. -/
def rename : Option World :=
  match w.canonical, w.temporary with
  | none, some c => some { w with canonical := some c, temporary := none }
  | _, _ => none

def takeSettings : World :=
  match w.nextSettings with
  | none => w
  | some id => { w with settings := some id, nextSettings := none }

/-- One effect; none when the command fails. `running` is what `inspect` answers. -/
def apply (running : Bool) (w : World) : Effect → Option World
  | .write record => some { w with record := some record }
  | .widen => some { w with raised := true }
  | .narrow => some { w with raised := false }
  | .secureFile id => some { w with nextSettings := some id }
  | .run id => if w.temporary = none then some { w with temporary := some ⟨id, false⟩ } else none
  | .stop id => w.stop id
  | .remove id => w.remove id
  | .rename => w.rename
  | .takeSettings => some w.takeSettings
  | .dropSettings => some { w with nextSettings := none }
  | .point id => some (w.point id)
  | .publish => some (w.publish running)
  | .settle => some { w with record := none }

/-- Effects one after the other, none of them cut off. -/
def perform (running : Bool) (w : World) (effects : List Effect) : Option World :=
  effects.foldlM (apply running) w

end World

/-! ## The two programs -/

/-- `replace`, with the container `launch` creates. -/
def replaceEffects (old new : String) : List Effect :=
  [.write ⟨.starting, old, none⟩, .widen, .secureFile new, .run new,
   .write ⟨.starting, old, some new⟩, .write ⟨.switched, old, some new⟩, .point new,
   .write ⟨.retiring, old, some new⟩, .stop old, .remove old, .rename, .takeSettings,
   .narrow, .settle]

/-- The branches of `repair`; none is `Unrecognised`. -/
def repairSteps (r : Record) (current upcoming : Option Container) : Option (List Effect) :=
  if ∃ c ∈ upcoming, ∃ new ∈ r.new, c.id ≠ new then none
  else if (r.phase = .starting ∨ r.phase = .switched) ∧ current.map Container.id = some r.old then
    some ((upcoming.map fun c => Effect.remove c.id).toList ++ [.dropSettings])
  else if r.phase = .retiring ∧ current.map Container.id = some r.old then
    some (if upcoming.isSome then [.stop r.old, .remove r.old, .rename, .takeSettings] else [])
  else if r.phase ≠ .starting ∧ current.isSome ∧ r.new.isSome ∧
      current.map Container.id = r.new then
    if upcoming.isSome then none else some [.takeSettings]
  else if r.phase ≠ .starting ∧ current = none ∧ upcoming.isSome then
    some [.rename, .takeSettings]
  else none

def repairEffects (w : World) : Option (List Effect) :=
  match w.record with
  | none => some []
  | some r =>
    (repairSteps r w.canonical w.temporary).map fun steps => steps ++ [.publish, .narrow, .settle]

/-! ## Runs -/

/-- The world, and what the process under way has still to do. -/
structure State where
  world : World
  program : List Effect
deriving DecidableEq

inductive Event
  /-- `replace` is called, and `launch` will create `new`. -/
  | replace (new : String)
  | repair
  /-- The next effect of the process. -/
  | advance (running : Bool)
  /-- The process ends here: a crash, an exception or a missed health answer. -/
  | abandon

def step (s : State) : Event → State
  | .replace new =>
    match s.program, s.world.record, s.world.temporary, s.world.canonical with
    | [], none, none, some old =>
      if new = old.id then s else { s with program := replaceEffects old.id new }
    | _, _, _, _ => s
  | .repair =>
    match s.program, repairEffects s.world with
    | [], some effects => { s with program := effects }
    | _, _ => s
  | .advance running =>
    match s.program with
    | [] => s
    | effect :: rest =>
      match s.world.apply running effect with
      | none => { s with program := [] }
      | some world => ⟨world, rest⟩
  | .abandon => { s with program := [] }

/-- Before the first replacement the service has one container, `first`. -/
def machine (first : String) (published : Option String) : Machine State Event where
  initial := ⟨⟨some ⟨first, false⟩, none, some first, none, published, false, none⟩, []⟩
  step := step

end Sbarbase.Rolling
