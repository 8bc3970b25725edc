import Sbarbase.Control.Provisioning
/-!
# The audit log of an organization

`auditEvents` of `src/control/catalog.ts`: what happened in one organization,
newest first. The log is in the order of its sequence numbers.
-/

namespace Sbarbase.Control

open Lib

inductive AuditKind
  | organization
  | project
  | environment
  deriving DecidableEq

/-- What the answer says of an event. -/
structure AuditEntry where
  time : ℤ
  actor : String
  action : String
  kind : AuditKind
  subject : String
  detail : Detail
  deriving DecidableEq

/-- An entry of the map `subjects`. -/
structure AuditSubject where
  kind : AuditKind
  name : String
  project : Option String
  deriving DecidableEq

namespace AuditLog

/-- The statement reads the newest 2000 rows. -/
def scanLimit : ℕ := 2000

def movedAction : String := "project.ownership_changed"

variable (c : Catalog) (organization : String)

/-- `SELECT id,name FROM projects WHERE organization=?` -/
def projects : List Project := c.projects.rows.filter fun row => row.organization = organization

/-- An event says that the project arrived in the organization. -/
def arrives (project : String) (event : AuditEvent) : Bool :=
  event.action = movedAction && event.subject = project &&
    event.detail.lookup "to" = some (.text organization)

/-- `since.get(project)`: the sequence of the latest arrival, or 0. -/
def since (project : String) : ℕ :=
  ((c.audit.reverse.find? (arrives organization project)).map AuditEvent.sequence).getD 0

/-- The subjects of one environment: its id and its runtime. -/
def environmentSubjects (project : Project) (environment : Environment) :
    List (String × AuditSubject) :=
  let entry : AuditSubject :=
    ⟨.environment, project.name ++ " / " ++ environment.name, some project.id⟩
  (environment.id, entry) ::
    ((c.job environment.id).map fun job => (job.runtime, entry)).toList

/-- The environments of the organization's projects, each with its project. -/
def environments : List (Project × Environment) :=
  c.environments.rows.filterMap fun environment =>
    ((projects c organization).find? fun project => project.id = environment.project).map
      fun project => (project, environment)

/-- The entries of the map `subjects`, in the order they are set. -/
def subjects : List (String × AuditSubject) :=
  (organization, ⟨.organization, "", none⟩) ::
    ((projects c organization).map fun project =>
      (project.id, ⟨.project, project.name, some project.id⟩)) ++
    ((environments c organization).map fun (project, environment) =>
      environmentSubjects c project environment).flatten

/-- `subjects.get(subject)`: the entry set last. -/
def subjectOf (subject : String) : Option AuditSubject :=
  (subjects c organization).reverse.lookup subject

/-- The events about the organization, newest first. -/
def rows : List AuditEvent :=
  c.audit.reverse.filter fun event => (subjectOf c organization event.subject).isSome

/-- A number, a flag or a short name, and the identifiers that stay. -/
def shownValue (action key : String) : DetailValue → Bool
  | .null => false
  | .flag _ => true
  | .number _ => true
  | .text value =>
    matchesRange (fun c => isLower c || c = '_') (fun c => isLower c || c = '_') 0 39 value ||
      (key = "target" && utf16Length value ≤ 200) ||
      ((key = "token" || key = "key" || key = "provider") && isUuid value) ||
      (key = "query" && matchesExactly isHex 16 value) ||
      (key = "version" && matchesExactly isDigit 14 value) ||
      (action = "sign_in.saved" && key = "changed" &&
        matchesRange (fun c => isUpper c || isDigit c || c = '_' || c = ',')
          (fun c => isUpper c || isDigit c || c = '_' || c = ',') 0 1999 value) ||
      (action = "database.agent_migration" && key = "name" &&
        matchesRange (fun c => isAlphanumeric c || c ∈ ['_', '.', '-'])
          (fun c => isAlphanumeric c || c ∈ ['_', '.', '-']) 0 99 value)

def shownDetail (event : AuditEvent) : Detail :=
  if event.action = movedAction then []
  else event.detail.filter fun (key, value) => shownValue event.action key value

/-- A member, the system, or someone outside. -/
def shownActor (actor : String) : String :=
  if actor.startsWith "system" || (c.roleOf organization actor).isSome then actor else "outside"

def shown (event : AuditEvent) (subject : AuditSubject) : AuditEntry :=
  ⟨event.time, shownActor c organization event.actor, event.action, subject.kind, subject.name,
    shownDetail event⟩

/-- `if(subject.project&&row.sequence<since)continue` -/
def hidden (event : AuditEvent) (subject : AuditSubject) : Bool :=
  subject.project.any fun project => event.sequence < since c organization project

/-- The loop over the rows, with `out` so far. -/
def collect (limit : ℤ) : List AuditEvent → List AuditEntry → List AuditEntry
  | [], out => out
  | event :: rows, out =>
    match subjectOf c organization event.subject with
    | none => collect limit rows out
    | some subject =>
      if hidden c organization event subject then collect limit rows out
      else
        let out := out ++ [shown c organization event subject]
        if limit ≤ out.length then out else collect limit rows out

end AuditLog

open AuditLog

def auditEvents (ctx : Context) (actor organization : String) (limit : ℤ) :
    CatalogCall (List AuditEntry) := do
  let _ ← Access.requireRole ctx actor organization [.owner, .admin]
  .require (isSafeInteger limit ∧ 1 ≤ limit ∧ limit ≤ 500) "Invalid limit"
  let c ← .read id
  return collect c organization limit ((rows c organization).take scanLimit) []

end Sbarbase.Control
