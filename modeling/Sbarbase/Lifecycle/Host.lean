import Sbarbase.Lib.Dict
import Sbarbase.Lib.Text
/-!
# The host of retained environments

What `lab/durable_probe.py` reads and writes for the effects of a delete and a
restore: the containers, the logins of the shared cluster, the published entries
and the journals.
-/

namespace Sbarbase.Lifecycle

open Lib

/-- `CONTAINERS` of `lab/durable_inventory.py` -/
inductive Service
  | auth
  | rest
  | realtime
  | functions
  | studio
  | «meta»
  deriving DecidableEq

def Service.all : List Service := [.auth, .rest, .realtime, .functions, .studio, .«meta»]

def Service.text : Service → String
  | .auth => "auth"
  | .rest => "rest"
  | .realtime => "realtime"
  | .functions => "functions"
  | .studio => "studio"
  | .«meta» => "meta"

/-- `PORTS`, without the paths that are asked for. -/
def Service.port : Service → Option String
  | .auth => some "9999"
  | .rest => some "3000"
  | _ => none

def containerName (runtime : String) (service : Service) : String :=
  "sbarbase-durable-" ++ runtime ++ "-" ++ service.text

/-- `ROLES` and `REQUIRED_ROLES` -/
def roleNames : List String := ["auth", "rest", "storage", "realtime", "studio", "developer", "cron"]

def requiredRoles : List String := ["auth", "rest", "storage"]

/-- A container as `docker inspect` shows it: `foreign` where it has a label of
`FOREIGN_LABELS`. -/
structure Container where
  id : String
  name : String
  owner : String
  foreign : Bool
  running : Bool
  /-- On the network of the runtime, empty where it has none. -/
  address : String
  deriving DecidableEq

/-- What of a container a stop and a start leave. -/
def Container.identity (item : Container) : String × String × String × Bool :=
  (item.id, item.name, item.owner, item.foreign)

/-- A member of a published entry. -/
inductive Member
  | url (text : String)
  | other (json : String)
  deriving DecidableEq

/-- A published entry of `endpoints`. -/
abbrev Entry := Dict String Member

inductive Phase
  | recorded
  | quarantined
  | restored
  deriving DecidableEq

/-- What a journal has of a container. -/
structure Part where
  id : String
  running : Bool
  phase : Phase
  deriving DecidableEq

/-- What a journal has of the database and its logins. -/
structure Tenant where
  roles : Dict String Bool
  entry : Option Entry
  phase : Phase
  deriving DecidableEq

structure Journal where
  version : ℕ
  runtime : String
  operation : String
  restoreOperation : Option String
  containers : Dict Service Part
  tenant : Option Tenant
  deriving DecidableEq

structure Host where
  containers : List Container
  ids_nodup : (containers.map Container.id).Nodup
  /-- The sizes of the databases. -/
  databases : Dict String ℕ
  /-- `rolcanlogin` of the logins. -/
  roles : Dict String Bool
  /-- The logins with a connection to the cluster. -/
  sessions : List String
  endpoints : Dict String Entry
  journals : Dict String Journal

namespace Host

/-- The containers of one name. -/
def named (host : Host) (name : String) : List Container :=
  host.containers.filter fun item => item.name = name

/-- A container command changes no identity. -/
def mapContainers (host : Host) (f : Container → Container) (hid : ∀ item, (f item).id = item.id) :
    Host :=
  { host with
    containers := host.containers.map f
    ids_nodup := by
      rw [List.map_map, show Container.id ∘ f = Container.id from funext hid]
      exact host.ids_nodup }

/-- `docker stop` of a running container or of one that has stopped. -/
def stop (host : Host) (id : String) : Host :=
  host.mapContainers (fun item => if item.id = id then { item with running := false } else item)
    fun item => by split <;> rfl

/-- `docker start`: a container that was stopped gets an address. -/
def start (host : Host) (id address : String) : Host :=
  host.mapContainers
    (fun item =>
      if item.id = id ∧ item.running = false then { item with running := true, address } else item)
    fun item => by split <;> rfl

def setRoles (host : Host) (names : List String) (login : Bool) : Host :=
  { host with roles := names.foldl (fun roles name => roles.set name login) host.roles }

def terminate (host : Host) (names : List String) : Host :=
  { host with sessions := host.sessions.filter fun name => name ∉ names }

def setEndpoints (host : Host) (endpoints : Dict String Entry) : Host := { host with endpoints }

/-- `write_journal` -/
def save (host : Host) (journal : Journal) : Host :=
  { host with journals := host.journals.set journal.runtime journal }

end Host

end Sbarbase.Lifecycle
