import Sbarbase.Lib.Machine
import Sbarbase.Starts.Kept
/-!
# Starts, planned exits, stops and kills

One installation: its checkout, the owned containers of the Docker daemon, the record
of a planned exit, and `main` of `lab/dev.py` in the steps between which a kill can
fall. `supervisor.lock` and `worker.lock` admit one start at a time, and none while a
child that inherited `worker.lock` outlives its start. A stop stage that outlives its
start, the settle before the preflight and a stop by hand stop containers and remove
the record at any moment: they are events of the outside.

The fields that no step reads are history: the numbers of the starts, which start
brought a container up last and whether it has run since the last planned exit, what
that exit recorded, which starts took its record, and what a settle and a runtime start
judged.
-/

namespace Sbarbase.Starts

open Lib

/-- An owned container. `start` is the start that last brought it up and `left` that it
has run since the last planned exit. -/
structure Container where
  id : ℕ
  item : Item
  running : Bool
  start : Option ℕ
  left : Bool
  deriving DecidableEq

/-- The outcomes of `settle`. -/
inductive Settled where
  | nothing
  | unknown
  | stopped
  | kept
  | decline
  deriving DecidableEq

/-- What the settle that kept the containers judged. -/
structure Judged where
  clock : ℕ
  head : Option String
  found : List (ℕ × Item)
  deriving DecidableEq

/-- Where `main` is. -/
inductive Phase where
  /-- `settle` is about to ask Docker. -/
  | settle
  /-- Owned containers run. -/
  | decide
  /-- They are about to be stopped, and no record is left. -/
  | leftover
  /-- Settled: the record is about to be claimed or discarded. -/
  | take
  /-- The stages before the runtime start. -/
  | gates
  /-- The runtime start. -/
  | up
  /-- The runtime is up, and the record is about to be discarded. -/
  | finish
  | run
  /-- `close_runtime` -/
  | close
  /-- The record is discarded and the stop stage is about to run. -/
  | stop
  deriving DecidableEq

/-- The memory of `main`: `handover` is `retiring`, `guarded` that the environment has
`SBARBASE_GUARDED`, and `up` that the runtime start returned success. -/
structure Main where
  start : ℕ
  process : Process
  handover : Bool
  guarded : Bool
  phase : Phase
  settled : Option Settled
  judged : Option Judged
  seen : Option ℕ
  started : Bool
  up : Bool
  keep : Bool
  origin : Option String
  deriving DecidableEq

def Main.held (main : Main) : Bool := main.settled = some .kept

/-- The settle answered that nothing owned runs, or nothing that a record does not hold. -/
def Main.decided (main : Main) : Bool :=
  main.settled = some .nothing || main.settled = some .stopped || main.held

inductive Kind where
  | up
  | worker
  deriving DecidableEq

/-- A child that holds `worker.lock`: the runtime start, or a worker that outlived its
start. `checked` is that the runtime start passed the record and `refused` that it did
not, `seen` when it read one. -/
structure Child where
  kind : Kind
  start : ℕ
  process : Process
  parent : Process
  checked : Bool
  refused : Bool
  judged : Option Judged
  seen : Option ℕ
  deriving DecidableEq

/-- A planned exit. -/
structure Exit where
  clock : ℕ
  target : String
  containers : Dict ℕ Item
  deriving DecidableEq

structure World where
  clock : ℕ
  head : Option String
  supported : Bool
  waiting : List String
  cutover : Bool
  effect : Bool
  file : File
  containers : List Container
  made : ℕ
  table : List Process
  used : List Process
  execs : List Process
  main : Option Main
  child : Option Child
  starts : ℕ
  exit : Option Exit
  takers : List ℕ
  deriving DecidableEq

def initial (head : Option String) : World where
  clock := 0
  head := head
  supported := true
  waiting := []
  cutover := false
  effect := false
  file := .absent
  containers := []
  made := 0
  table := []
  used := []
  execs := []
  main := none
  child := none
  starts := 0
  exit := none
  takers := []

def World.running (w : World) : List (ℕ × Item) :=
  (w.containers.filter Container.running).map fun c => (c.id, c.item)

/-- What `docker` answers, if it can be asked. -/
def World.asked (w : World) (answers : Bool) : Option (List (ℕ × Item)) :=
  if answers then some w.running else none

/-! ## Containers -/

def stopOnly (ids : List ℕ) (containers : List Container) : List Container :=
  containers.map fun c => if ids.contains c.id then { c with running := false } else c

def stopAll (containers : List Container) : List Container :=
  containers.map fun c => { c with running := false }

/-- A command to Docker of a stage of a start. A container is replaced by a stop, a
removal and a run under a new id. -/
inductive Act where
  | start (id : ℕ)
  | run (item : Item)
  | stop (id : ℕ)
  | remove (id : ℕ)
  deriving DecidableEq

def Container.bringUp (start : ℕ) (c : Container) : Container :=
  if c.running then c else { c with running := true, start := some start, left := false }

def act (start : ℕ) (a : Act) (w : World) : World :=
  match a with
  | .start id =>
    { w with containers := w.containers.map fun c => if c.id = id then c.bringUp start else c }
  | .run item =>
    { w with
      containers := w.containers ++ [⟨w.made, item, true, some start, false⟩], made := w.made + 1 }
  | .stop id => { w with containers := stopOnly [id] w.containers }
  | .remove id => { w with containers := w.containers.filter fun c => c.id ≠ id }

/-! ## Events -/

/-- What happens outside the starts. `made` is a container of a worker run by hand. -/
inductive Outside where
  | clock (now : ℕ)
  | head (head : Option String)
  | supported (known : Bool)
  | waiting (names : List String)
  | cutover (moved : Bool)
  | effect (held : Bool)
  | spoiled
  | discarded
  | exited (ids : List ℕ)
  | made (item : Item)
  deriving DecidableEq

/-- How the stages before the runtime start end: `refused` is a `HandoverFailed`. -/
inductive Gate where
  | pass (child : Process)
  | fails
  | refused (asked : Bool)
  deriving DecidableEq

inductive Event where
  | outside (event : Outside)
  | begin (process : Process) (handover guarded : Bool)
  | ask (answers : Bool)
  | decide (answers : Bool) (parent : ℕ)
  | leftover (ids : List ℕ) (ok : Bool)
  | take (written : Bool)
  | act (a : Act)
  | gate (gate : Gate)
  | check (parent : ℕ) (answers : Bool)
  | childAct (a : Act)
  | ended (ok : Bool)
  | finish (removed : Bool)
  | ends (keep : Bool)
  | close (answers written plan : Bool)
  | stop (ids : List ℕ) (ok : Bool)
  | kill (worker : Option Process)
  | killChild
  | killExec (process : Process)
  deriving DecidableEq

/-- A process that the kernel makes: its pid is free and its identity new. -/
def World.free (w : World) (process : Process) : Bool :=
  !w.used.contains process && w.table.all fun other => other.pid ≠ process.pid

def World.spawn (w : World) (process : Process) : World :=
  { w with table := process :: w.table, used := process :: w.used }

def World.reap (w : World) (process : Process) : World :=
  { w with table := w.table.filter (· ≠ process) }

/-- The process of `main` ends. -/
def World.endMain (w : World) (main : Main) : World :=
  { w.reap main.process with main := none }

def outside (event : Outside) (w : World) : World :=
  match event with
  | .clock now => { w with clock := now }
  | .head head => { w with head := head }
  | .supported known => { w with supported := known }
  | .waiting names => { w with waiting := names }
  | .cutover moved => { w with cutover := moved }
  | .effect held => { w with effect := held }
  | .spoiled => { w with file := .damaged }
  | .discarded => { w with file := .absent }
  | .exited ids => { w with containers := stopOnly ids w.containers }
  | .made item =>
    if w.main.isSome || w.child.isSome then w
    else { w with
      containers := w.containers ++ [⟨w.made, item, true, none, false⟩], made := w.made + 1 }

/-- `main` as it begins: after an exec in the process of the one before. -/
def newMain (start : ℕ) (process : Process) (handover guarded : Bool) : Main where
  start := start
  process := process
  handover := handover
  guarded := guarded
  phase := .settle
  settled := none
  judged := none
  seen := none
  started := false
  up := false
  keep := false
  origin := none

def begin_ (process : Process) (handover guarded : Bool) (w : World) : World :=
  if w.main.isSome || w.child.isSome then w
  else if handover then
    if w.execs.contains process then
      { w with
        execs := w.execs.filter (· ≠ process)
        main := some (newMain w.starts process true guarded), starts := w.starts + 1 }
    else w
  else if w.free process then
    { w.spawn process with
      main := some (newMain w.starts process false guarded), starts := w.starts + 1 }
  else w

/-- `settle`, up to whether anything owned runs. -/
def ask (main : Main) (answers : Bool) (w : World) : World :=
  match w.asked answers with
  | none => { w with main := some { main with phase := .take, settled := some .unknown } }
  | some [] =>
    { w with file := .absent, main := some { main with phase := .take, settled := some .nothing } }
  | some _ => { w with main := some { main with phase := .decide } }

/-- `settle`, up to the stop. `main` holds `supervisor.lock` and `worker.lock` itself. -/
def decideStep (main : Main) (answers : Bool) (parent : ℕ) (w : World) : World :=
  match decideLeftover w.running w.waiting (if w.effect then ["effect.lock"] else []) with
  | .decline => { w with main := some { main with phase := .take, settled := some .decline } }
  | _ =>
    match current w.file (w.asked answers) w.head w.waiting w.clock 0
        [main.process.pid, parent] w.table with
    | .ok _ =>
      { w with main := some { main with
          phase := .take, settled := some .kept, judged := some ⟨w.clock, w.head, w.running⟩ } }
    | .error _ => { w with file := .absent, main := some { main with phase := .leftover } }

/-- The stop of a leftover runtime; one that fails ends the start. -/
def leftoverStep (main : Main) (ids : List ℕ) (ok : Bool) (w : World) : World :=
  if ok then
    { w with
      containers := stopAll w.containers
      main := some { main with phase := .take, settled := some .stopped } }
  else { w.endMain main with containers := stopOnly ids w.containers }

/-- `claim` or `discard` after the settle, and the commit that the start runs. -/
def take (main : Main) (written : Bool) (w : World) : World :=
  if !written then { w with main := some { main with phase := .close } }
  else if main.held then
    { w with
      file := claim w.file main.process, takers := main.start :: w.takers
      main := some { main with phase := .gates, origin := w.head } }
  else { w with
    file := .absent, main := some { main with phase := .gates, origin := w.head } }

/-- The stages before the runtime start, and the start of its own stage. -/
def gateStep (main : Main) (gate : Gate) (w : World) : World :=
  match gate with
  | .pass child =>
    if w.free child then
      { w.spawn child with
        main := some { main with phase := .up, started := true }
        child := some ⟨.up, main.start, child, main.process, false, false, main.judged, none⟩ }
    else w
  | .fails => { w with main := some { main with phase := .close } }
  | .refused asked =>
    if main.handover then { w with main := some { main with phase := .close, keep := !asked } }
    else w

/-- The record at the runtime start, which a record that does not hold refuses. -/
def check (child : Child) (parent : ℕ) (answers : Bool) (w : World) : World :=
  if child.kind = .up ∧ child.checked = false ∧ child.refused = false ∧
      (w.table.contains child.parent → parent = child.parent.pid) then
    match current w.file (w.asked answers) w.head w.waiting w.clock laterGrace
        [child.process.pid, parent] w.table with
    | .ok _ => { w with child := some { child with checked := true, seen := some w.clock } }
    | .error _ =>
      if w.file.present then { w with child := some { child with refused := true } }
      else { w with child := some { child with checked := true } }
  else w

/-- The stage of the runtime start ends. -/
def ended (main : Main) (child : Child) (ok : Bool) (w : World) : World :=
  if ok && !child.checked then w
  else
    { w.reap child.process with
      child := none
      main := some (if ok then { main with phase := .finish, up := true, seen := child.seen }
        else { main with phase := .close }) }

/-- `leave_runtime` can leave the containers. -/
def World.leaves (w : World) (main : Main) (answers : Bool) : Bool :=
  w.supported && main.guarded && !w.cutover && answers && !w.running.isEmpty && w.head.isSome

/-- The planned exit: the record is written, and the program is replaced or ends. -/
def leaveStep (main : Main) (target : String) (plan : Bool) (w : World) : World :=
  { (if plan then w else w.reap main.process) with
    file := .written (leave w.running target main.origin w.clock)
    containers := w.containers.map fun c => { c with left := c.running }
    execs := if plan then main.process :: w.execs else w.execs
    main := none
    exit := some ⟨w.clock, target, (leave w.running target main.origin w.clock).containers⟩
    takers := [] }

/-- `close_runtime`, up to the stop stage. -/
def close (main : Main) (answers written plan : Bool) (w : World) : World :=
  if !(main.started || main.held) then w.endMain main
  else match w.head with
    | some target =>
      if main.keep && w.leaves main answers && written then leaveStep main target plan w
      else { w with file := .absent, main := some { main with phase := .stop } }
    | none => { w with file := .absent, main := some { main with phase := .stop } }

/-- The stop stage. -/
def stop (main : Main) (ids : List ℕ) (ok : Bool) (w : World) : World :=
  { w.endMain main with
    file := .absent
    containers := if ok then stopAll w.containers else stopOnly ids w.containers }

/-- A kill of `main`, which may leave the worker of the settle stage or of the supervisor. -/
def kill (main : Main) (worker : Option Process) (w : World) : World :=
  match worker with
  | some process =>
    if (main.phase = .gates ∨ main.phase = .run) ∧ w.free process then
      { (w.spawn process).endMain main with
        child := some ⟨.worker, main.start, process, main.process, false, false, none, none⟩ }
    else w.endMain main
  | none => w.endMain main

/-- A step of `main` in its phase. -/
def mainStep (main : Main) (event : Event) (w : World) : World :=
  match main.phase, event with
  | .settle, .ask answers => ask main answers w
  | .decide, .decide answers parent => decideStep main answers parent w
  | .leftover, .leftover ids ok => leftoverStep main ids ok w
  | .take, .take written => take main written w
  | .gates, .gate gate => gateStep main gate w
  | .gates, .act a => act main.start a w
  | .run, .act a => act main.start a w
  | .finish, .finish removed =>
    if removed then { w with file := .absent, main := some { main with phase := .run } }
    else { w with main := some { main with phase := .close } }
  | .run, .ends keep => { w with main := some { main with phase := .close, keep := keep } }
  | .close, .close answers written plan => close main answers written plan w
  | .stop, .stop ids ok => stop main ids ok w
  | _, .kill worker => kill main worker w
  | _, _ => w

/-- A step of the child that holds `worker.lock`. -/
def childStep (child : Child) (event : Event) (w : World) : World :=
  match event with
  | .check parent answers => check child parent answers w
  | .childAct a => if child.kind = .worker ∨ child.checked then act child.start a w else w
  | _ => w

/-- The end of that child, which its start sees or does not outlive. -/
def endChild (child : Child) (event : Event) (w : World) : World :=
  match w.main, event with
  | some main, .ended ok => if main.phase = .up then ended main child ok w else w
  | none, .killChild => { w.reap child.process with child := none }
  | _, _ => w

def step (w : World) (event : Event) : World :=
  match event with
  | .outside event => outside event w
  | .begin process handover guarded => begin_ process handover guarded w
  | .killExec process =>
    if w.execs.contains process then
      { w.reap process with execs := w.execs.filter (· ≠ process) }
    else w
  | .check _ _ | .childAct _ => w.child.elim w fun child => childStep child event w
  | .ended _ | .killChild => w.child.elim w fun child => endChild child event w
  | event => w.main.elim w fun main => mainStep main event w

def machine (head : Option String) : Machine World Event := ⟨initial head, step⟩

end Sbarbase.Starts
