import Mathlib.Data.Nat.Notation
import Sbarbase.Lib.Steps
/-!
# The Auth service of an environment

`lab/durable_runtime.py`: `reconcile_auth` steps the running Auth aside, starts a
new one with the saved files, keeps the copies that every later start uses, and
brings the old one back when any of this fails. Every container command, file
and endpoints write is one step, at which the process can raise or be killed.
-/

namespace Sbarbase.SignIn

open Lib

/-- The sign-in file. -/
structure SignInFile where
  revision : ℕ
  content : String
  deriving DecidableEq

/-- The files that the console saves. -/
structure Files where
  settings : Option SignInFile
  mail : Option String
  templates : Option String
  phone : Option String
  deriving DecidableEq

/-- The copies of what the running Auth was started with. -/
structure Copies where
  settings : Option SignInFile
  templates : Option String
  phone : Option String
  deriving DecidableEq

def Files.copies (files : Files) : Copies := ⟨files.settings, files.templates, files.phone⟩

/-- An Auth container: the files it was started with, and the address it has
while it runs. -/
structure Container where
  started : Files
  address : Option String
  deriving DecidableEq

/-- `STATES` of `mail_config` -/
inductive MailState
  | unconfigured
  | applied
  | failed
  | off
  deriving DecidableEq

inductive RowState
  | pending
  | applied
  | failed
  deriving DecidableEq

/-- The environment's row of `auth_settings`. -/
structure Row where
  revision : ℕ
  applied : Option ℕ
  state : RowState
  failure : Option String
  deriving DecidableEq

/-- What the environment has outside the processes: its containers `…-auth` and
`…-auth-previous`, the saved files, the copies, the published address, the record
of its mail, the mail file as it was before an unapplied save, and its row. -/
structure World where
  auth : Option Container
  previous : Option Container
  saved : Files
  copies : Copies
  published : Option String
  mailState : Option MailState
  prior : Option (Option String)
  row : Option Row
  deriving DecidableEq

/-! ## Where it can stop -/

/-- The steps that bring the previous Auth back. -/
inductive Back
  | inspect
  | remove
  | rename
  | start
  | wait
  | publish
  deriving DecidableEq

/-- The steps of `reconcile_auth`, in its order. -/
inductive Place
  | check
  | strayInspect
  | stray (step : Back)
  | inspectAuth
  | loadSettings
  | loadMail
  | loadTemplates
  | loadPhone
  | publishRoute
  | configurePhone
  | configureTemplates
  | inspectPrevious
  | removePrevious
  | stop
  | rename
  | prepare
  | run
  | join
  | egress
  | wait
  | keepSettings
  | keepTemplates
  | keepPhone
  | undo (step : Back)
  | remove
  | publish
  | mailRecord
  deriving DecidableEq

/-- What becomes of a step. -/
inductive Fate
  | done
  | raises
  | killed
  deriving DecidableEq

/-- Why a program ended early. -/
inductive Stopped
  | raised
  | killed
  deriving DecidableEq

/-- What the host answers: the fate of every step, and the address that a
container gets at the step that starts it. -/
structure Host where
  fate : Place → Fate
  address : Place → String

abbrev Process := Steps World Stopped

section

variable (host : Host)

/-- A step that looks at the world. -/
def look {α : Type} (place : Place) (f : World → α) : Process α :=
  match host.fate place with
  | .done => Steps.read f
  | .raises => Steps.throw .raised
  | .killed => Steps.throw .killed

/-- A step that changes the world. -/
def act (place : Place) (f : World → World) : Process Unit :=
  match host.fate place with
  | .done => Steps.write f
  | .raises => Steps.throw .raised
  | .killed => Steps.throw .killed

/-- `endpoint`: a stopped container has no address. -/
def endpoint (place : Place) : Process String := do
  let auth ← look host place World.auth
  Steps.found (auth.bind Container.address) .raised

/-- `self.wait(self.endpoint(name, 9999)+'/health')` -/
def waitHealthy (place : Place) : Process Unit := do
  let _ ← endpoint host place

def publishAuth (place : Place) : Process Unit := do
  let published ← look host place World.published
  Steps.whenever (published.isSome = true) do
    let address ← endpoint host place
    act host place fun w => { w with published := some address }

/-! ## Bringing the previous Auth back -/

/-- `docker rename` of the previous container. -/
def World.renamedBack (w : World) : World := { w with auth := w.previous, previous := none }

/-- `docker start` of the container under the name. -/
def World.startedAt (w : World) (address : String) : World :=
  { w with auth := w.auth.map fun auth => { auth with address := some address } }

def bringBack (at' : Back → Place) : Process Unit := do
  let auth ← look host (at' .inspect) World.auth
  Steps.whenever (auth.isSome = true) (act host (at' .remove) fun w => { w with auth := none })
  act host (at' .rename) World.renamedBack
  act host (at' .start) fun w => w.startedAt (host.address (at' .start))
  waitHealthy host (at' .wait)
  publishAuth host (at' .publish)

def restoreStrayPrevious : Process Unit := do
  let previous ← look host .strayInspect World.previous
  Steps.whenever (previous.isSome = true) (bringBack host .stray)

/-! ## The new Auth -/

/-- The checks and reads before anything is stopped: the files to start with, and
the templates to keep. -/
def readFiles : Process (Files × Option String × Option String) := do
  let auth ← look host .inspectAuth World.auth
  Steps.require (auth.isSome = true) .raised
  let settings ← look host .loadSettings fun w => w.saved.settings
  let mail ← look host .loadMail fun w => w.saved.mail
  let templates ← look host .loadTemplates fun w => w.saved.templates
  let phone ← look host .loadPhone fun w => w.saved.phone
  Steps.whenever (templates.isSome = true) (act host .publishRoute id)
  -- `auth_configuration` reads the phone settings and the templates again.
  let configuredPhone ← look host .configurePhone fun w => w.saved.phone
  let configuredTemplates ←
    if mail.isNone then pure templates
    else look host .configureTemplates fun w => w.saved.templates
  return (⟨settings, mail, configuredTemplates, configuredPhone⟩, templates, phone)

/-- The running Auth steps aside. -/
def stepAside : Process Unit := do
  let previous ← look host .inspectPrevious World.previous
  Steps.whenever (previous.isSome = true)
    (act host .removePrevious fun w => { w with previous := none })
  act host .stop fun w =>
    { w with auth := w.auth.map fun auth => { auth with address := none } }
  act host .rename fun w => { w with auth := none, previous := w.auth }

/-- The new Auth, and the copies of what it was started with. -/
def startNew (started : Files) (templates phone : Option String) : Process Unit := do
  act host .prepare id
  act host .run fun w => { w with auth := some ⟨started, some (host.address .run)⟩ }
  act host .join id
  act host .egress id
  waitHealthy host .wait
  act host .keepSettings fun w => { w with copies := { w.copies with settings := started.settings } }
  act host .keepTemplates fun w => { w with copies := { w.copies with templates } }
  act host .keepPhone fun w => { w with copies := { w.copies with phone } }

/-- The Email card's record of an apply. -/
def recordMail (mail : Option String) : Process Unit :=
  act host .mailRecord fun w =>
    { w with mailState :=
        if mail.isSome then some .applied
        else if w.mailState = some .applied ∨ w.mailState = some .failed then some .off
        else w.mailState }

/-- `except Exception`: a kill is not caught. -/
def undoing (e : Stopped) : Process Unit :=
  match e with
  | .raised => do
    bringBack host .undo
    Steps.throw .raised
  | .killed => Steps.throw .killed

/-- What follows `restore_stray_previous`. -/
def recreate : Process Unit := do
  let read ← readFiles host
  stepAside host
  (startNew host read.1 read.2.1 read.2.2).orElse (undoing host)
  act host .remove fun w => { w with previous := none }
  publishAuth host .publish
  recordMail host read.1.mail

def reconcileAuth : Process Unit := do
  let published ← look host .check World.published
  Steps.require (published.isSome = true) .raised
  restoreStrayPrevious host
  recreate host

end

/-! ## What a later start uses -/

/-- `load_settings`, `mail_templates.load_applied` and `sms_config.load_applied`. -/
def World.laterStart (w : World) : Copies :=
  { w.copies with settings := w.copies.settings.or w.saved.settings }

/-- One Auth container, under its own name and at the published address, and a
later start uses what it was started with. -/
def World.Settled (w : World) : Prop :=
  ∃ auth address, w.auth = some auth ∧ w.previous = none ∧ auth.address = some address ∧
    w.published = some address ∧ w.laterStart = auth.started.copies

/-- A host on which every step is done. -/
def Host.calm (address : Place → String) : Host := ⟨fun _ => .done, address⟩

/-- What the end of a program leaves: a kill is followed by
`restore_stray_previous`, where the previous Auth gets the address `again`. -/
def finish (again : Place → String) (ran : Except Stopped Unit × World) : World :=
  match ran with
  | (.error .killed, w) => ((restoreStrayPrevious (.calm again)).alone w).2
  | (_, w) => w

/-- What a run of `reconcile_auth` leaves. -/
def leftBy (host : Host) (again : Place → String) (w : World) : World :=
  finish again ((reconcileAuth host).alone w)

end Sbarbase.SignIn
