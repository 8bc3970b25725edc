import Mathlib.Data.Int.Notation
import Sbarbase.Lib.Checked
import Sbarbase.Lib.Dict
import Sbarbase.Lib.Durable
import Sbarbase.Lib.Machine
import Sbarbase.Lib.Text
/-!
# Deploys of Edge Functions

The functions folder of one environment and the operations of
`src/control/functions.ts` on it. Each operation runs at one moment of the
process, so only the time between staging a version and publishing it, when the
boot check runs, is open to others; a crash can fall between any two writes.

`done` is the list of the changes that took effect, in their order.
-/

namespace Sbarbase.Functions

open Lib

def MAX_FUNCTIONS : ℕ := 100

def MAX_FILES : ℕ := 500

def pruneAfterMs : ℤ := 300000

/-- The time limit of `bootThrough`. -/
def bootTimeoutMs : ℤ := 20000

/-! ## A deploy request -/

/-- `FUNCTION_NAME` -/
def isFunctionName (name : String) : Bool :=
  matchesRange isAlphanumeric (fun c => isAlphanumeric c || c = '_' || c = '-') 0 63 name

def isPathPart (part : List Char) : Bool :=
  match part with
  | [] => false
  | c :: chars => (isAlphanumeric c || c = '_') &&
    chars.all fun c => isAlphanumeric c || c ∈ "_.@+-".toList

/-- `FILE_PATH` -/
def isFilePath (path : String) : Bool :=
  utf16Length path ≤ 200 && (path.toList.splitOn '/').all isPathPart

/-- The folders that a path lies in. -/
def foldersOf (path : String) : List String :=
  let parts := path.toList.splitOn '/'
  (parts.inits.drop 1).dropLast.map fun part => String.ofList (['/'].intercalate part)

/-- `collides`: a path that lies in a folder of the name of another file. -/
def collides (paths : List String) : Option String :=
  paths.find? fun path => (foldersOf path).any (paths.contains ·)

def ENTRYPOINTS : List String := ["index.ts", "index.js", "index.tsx", "index.jsx", "index.mjs"]

structure Deployment where
  files : Dict String String
  shared : Dict String String
  verifyJwt : Bool

/-- `text.slice(0,80)` -/
def sliced (text : String) : String := String.ofList (text.toList.take 80)

/-- `files` -/
def checkFiles (value : Dict String String) (field : String) : Except String Unit :=
  match value.keys.find? fun path => !isFilePath path with
  | some path => .error (field ++ ": " ++ sliced path)
  | none =>
    match collides value.keys with
    | some path => .error (field ++ ": " ++ sliced path ++ " is both a file and a folder")
    | none => .ok ()

/-- `deployment`, of a body with fields of the right types. -/
def deployment (files shared : Dict String String) (verifyJwt : Option Bool) :
    Except String Deployment := do
  checkFiles files "files"
  checkFiles shared "shared"
  Checked.require (ENTRYPOINTS.any files.has) "files: an index.ts (or index.js) entry point"
  Checked.require (files.keys.length + shared.keys.length ≤ MAX_FILES) "files: at most 500"
  return ⟨files, shared, verifyJwt.getD true⟩

/-! ## The folder -/

structure FunctionEntry where
  version : String
  verifyJwt : Bool
  updatedAt : ℤ
  size : ℕ
  createdAt : Option ℤ
  deployments : Option ℕ
  deriving DecidableEq

/-- `manifest.functions` -/
abbrev Manifest := Dict String FunctionEntry

/-- A file that is being written holds a part of its content. -/
inductive Written (α : Type)
  | torn
  | whole (content : α)
  deriving DecidableEq

/-- The name of a file, with the suffix of `atomicWrite` while it is pending. -/
structure FileName where
  path : String
  pending : Option String
  deriving DecidableEq

def FileName.of (path : String) : FileName := ⟨path, none⟩

/-- A version folder: its files by the folder in it and their name there. -/
structure Folder where
  mtime : ℤ
  files : Dict (String × FileName) (Written String)

/-- What took effect. -/
inductive Change
  | deployed (name version : String) (input : Deployment) (size : ℕ) (now : ℤ)
  | jwtSwitched (name : String) (verify : Bool)
  | removed (name : String)

structure Disk where
  files : Dict FileName (Written Manifest)
  folders : Dict String Folder
  done : List Change

def functionsJson : FileName := .of "functions.json"

def sharedFolder : String := "_shared"

def readManifest (disk : Disk) : Manifest :=
  match disk.files.get functionsJson with
  | some (.whole manifest) => manifest
  | _ => ∅

abbrev Operation (α : Type) := Durable Disk Unit String α

/-- `/^v[a-z0-9]+-[a-f0-9]{8}$/` -/
def isVersion (version : String) : Bool :=
  match version.toList.splitOn '-' with
  | ['v' :: time, draw] => !time.isEmpty && time.all (fun c => isLower c || isDigit c) &&
    draw.length = 8 && draw.all isHex
  | _ => false

/-! ## Writes -/

/-- `mkdirSync(…,{recursive:true})` of a folder `top` of a version. -/
def Disk.makeFolder (version top : String) (now : ℤ) (disk : Disk) : Disk :=
  match disk.folders.get version with
  | none => { disk with folders := disk.folders.set version ⟨now, ∅⟩ }
  | some folder =>
    if folder.files.keys.any fun file => file.1 = top then disk
    else { disk with folders := disk.folders.set version { folder with mtime := now } }

/-- Change the files of a version folder. -/
def Disk.setFiles (version : String)
    (change : Dict (String × FileName) (Written String) → Dict (String × FileName) (Written String))
    (disk : Disk) : Disk :=
  match disk.folders.get version with
  | none => disk
  | some folder =>
    { disk with folders := disk.folders.set version { folder with files := change folder.files } }

/-- `atomicWrite` of a file of a version. -/
def writeFile (version top path content draw : String) (now : ℤ) : Operation Unit := do
  let pending : FileName := ⟨path, some draw⟩
  .store (Disk.makeFolder version top now)
  .store (Disk.setFiles version fun files => files.set (top, pending) .torn)
  .store (Disk.setFiles version fun files => files.set (top, pending) (.whole content))
  .store (Disk.setFiles version fun files =>
    (files.delete (top, pending)).set (top, .of path) (.whole content))

/-- `atomicWrite` of the manifest, by which `change` takes effect. -/
def writeManifest (manifest : Manifest) (draw : String) (change : Change) : Operation Unit := do
  let pending : FileName := ⟨functionsJson.path, some draw⟩
  .store fun disk => { disk with files := disk.files.set pending .torn }
  .store fun disk => { disk with files := disk.files.set pending (.whole manifest) }
  .store fun disk => { disk with
    files := (disk.files.delete pending).set functionsJson (.whole manifest)
    done := disk.done ++ [change] }

/-- `rmSync(…,{recursive:true,force:true})` -/
def removeFolder (version : String) : Operation Unit := do
  let disk ← .disk
  let files := (disk.folders.get version).elim [] fun folder => folder.files.keys
  .forEach files fun file => .store (Disk.setFiles version fun files => files.delete file)
  .store fun disk => { disk with folders := disk.folders.delete version }

/-! ## Operations -/

/-- What a deploy holds between staging and publishing. -/
structure Staged where
  name : String
  input : Deployment
  version : String
  size : ℕ
  stagedAt : ℤ

/-- The files of one folder of a version, in the order of the request. -/
def writeFiles (version top : String) (draw : String → String) (now : ℤ)
    (files : Dict String String) : Operation Unit :=
  .forEach files.entries fun file => writeFile version top file.1 file.2 (draw file.1) now

def byteLength (files : Dict String String) : ℕ :=
  (files.entries.map fun file => file.2.utf8ByteSize).sum

def full (manifest : Manifest) : Prop := MAX_FUNCTIONS ≤ manifest.keys.length

instance (manifest : Manifest) : Decidable (full manifest) :=
  inferInstanceAs (Decidable (_ ≤ _))

def stageVersion (name : String) (input : Deployment) (version : String) (draw : String → String)
    (now : ℤ) : Operation Staged := do
  let disk ← .disk
  .require ((readManifest disk).has name ∨ ¬ full (readManifest disk))
    "functions: at most 100 in an environment"
  writeFiles version name draw now input.files
  writeFiles version sharedFolder draw now input.shared
  return ⟨name, input, version, byteLength input.files + byteLength input.shared, now⟩

def discardVersion (version : String) : Operation Unit := do
  .require (isVersion version) "Invalid version"
  removeFolder version

/-- One folder that `prune` looks at. -/
def pruneFolder (manifest : Manifest) (now : ℤ) (version : String) : Operation Unit := do
  let disk ← .disk
  let old := (disk.folders.get version).any fun folder => pruneAfterMs < now - folder.mtime
  .whenever (isVersion version ∧ (∀ entry ∈ manifest.entries, entry.2.version ≠ version) ∧ old)
    (removeFolder version)

def prune (manifest : Manifest) (now : ℤ) : Operation Unit := do
  let disk ← .disk
  .forEach disk.folders.keys (pruneFolder manifest now)

/-- The entry of a deploy, after the one before it. -/
def deployedEntry (before : Option FunctionEntry) (version : String) (verify : Bool) (size : ℕ)
    (now : ℤ) : FunctionEntry where
  version := version
  verifyJwt := verify
  updatedAt := now
  size := size
  createdAt := some (before.elim now fun entry => entry.createdAt.getD entry.updatedAt)
  deployments := some (before.elim 0 (fun entry => entry.deployments.getD 1) + 1)

def commitVersion (staged : Staged) (draw : String) (now : ℤ) : Operation FunctionEntry := do
  let disk ← .disk
  let manifest := readManifest disk
  .require (manifest.has staged.name ∨ ¬ full manifest) "functions: at most 100 in an environment"
  let entry := deployedEntry (manifest.get staged.name) staged.version staged.input.verifyJwt
    staged.size now
  let manifest := manifest.set staged.name entry
  writeManifest manifest draw (.deployed staged.name staged.version staged.input staged.size now)
  prune manifest now
  return entry

/-- The end of a deploy: a version that cannot be published is discarded. -/
def publish (staged : Staged) (draw : String) (now : ℤ) : Operation FunctionEntry :=
  (commitVersion staged draw now).orElse fun reason => do
    discardVersion staged.version
    .throw reason

def setVerifyJwt (name : String) (verify : Bool) (draw : String) :
    Operation (Option FunctionEntry) := do
  let disk ← .disk
  match (readManifest disk).get name with
  | none => return none
  | some before => do
    let entry := { before with verifyJwt := verify }
    writeManifest ((readManifest disk).set name entry) draw (.jwtSwitched name verify)
    return some entry

def remove (name : String) (draw : String) (now : ℤ) : Operation Bool := do
  let disk ← .disk
  if (readManifest disk).has name then do
    let manifest := (readManifest disk).delete name
    writeManifest manifest draw (.removed name)
    prune manifest now
    return true
  else return false

/-! ## The machine -/

/-- The process and its disk. -/
structure State where
  disk : Disk
  clock : ℤ
  staged : Dict ℕ Staged

/-- What a request does to the disk at one moment. -/
inductive Request
  /-- A deploy of a body that was read, until its boot check. -/
  | stage (deploy : ℕ) (name : String) (files shared : Dict String String)
      (verifyJwt : Option Bool) (version : String) (draw : String → String)
  /-- Its boot check did not refuse it. -/
  | publish (deploy : ℕ) (draw : String)
  /-- Its boot check refused it, or its actor lost access. -/
  | discard (deploy : ℕ)
  | setVerifyJwt (name : String) (verify : Bool) (draw : String)
  | remove (name : String) (draw : String)

inductive Event
  | tick (milliseconds : ℕ)
  | run (request : Request)
  /-- The process dies after `writes` writes of the request and starts again. -/
  | crash (request : Request) (writes : ℕ)

/-- What an operation that ran to its end left. -/
structure Ended where
  disk : Disk
  /-- The change it reported as done. -/
  reported : Option Change
  staged : Dict ℕ Staged

def Ended.unchanged (s : State) : Ended := ⟨s.disk, none, s.staged⟩

/-- What an operation passed, and where it ended. -/
structure Trace where
  passed : List Disk
  ended : Ended

/-- Run an operation; `next` says what it reports and what is staged then. -/
def State.perform {α : Type} (s : State) (operation : Operation α)
    (next : Except String α → Option Change × Dict ℕ Staged) : Trace :=
  let ran := operation s.disk ()
  ⟨ran.passed, ran.disk, (next ran.outcome).1, (next ran.outcome).2⟩

def State.refuse (s : State) : Trace := ⟨[], .unchanged s⟩

def State.stage (s : State) (deploy : ℕ) (name : String) (input : Deployment) (version : String)
    (draw : String → String) : Trace :=
  s.perform (stageVersion name input version draw s.clock) fun outcome =>
    match outcome with
    | .ok staged => (none, s.staged.set deploy staged)
    | .error _ => (none, s.staged)

def State.publish (s : State) (deploy : ℕ) (staged : Staged) (draw : String) : Trace :=
  s.perform (Functions.publish staged draw s.clock) fun outcome =>
    match outcome with
    | .ok _ => (some (.deployed staged.name staged.version staged.input staged.size s.clock),
        s.staged.delete deploy)
    | .error _ => (none, s.staged.delete deploy)

def State.handle (s : State) : Request → Trace
  | .stage deploy name files shared verifyJwt version draw =>
    match deployment files shared verifyJwt with
    | .error _ => s.refuse
    | .ok input =>
      if isFunctionName name ∧ s.staged.has deploy = false then s.stage deploy name input version draw
      else s.refuse
  | .publish deploy draw =>
    match s.staged.get deploy with
    | none => s.refuse
    | some staged => s.publish deploy staged draw
  | .discard deploy =>
    match s.staged.get deploy with
    | none => s.refuse
    | some staged =>
      s.perform (discardVersion staged.version) fun _ => (none, s.staged.delete deploy)
  | .setVerifyJwt name verify draw =>
    s.perform (setVerifyJwt name verify draw) fun outcome =>
      match outcome with
      | .ok (some _) => (some (.jwtSwitched name verify), s.staged)
      | _ => (none, s.staged)
  | .remove name draw =>
    s.perform (remove name draw s.clock) fun outcome =>
      match outcome with
      | .ok true => (some (.removed name), s.staged)
      | _ => (none, s.staged)

def step (s : State) : Event → State
  | .tick milliseconds => { s with clock := s.clock + milliseconds }
  | .run request =>
    { s with disk := (s.handle request).ended.disk, staged := (s.handle request).ended.staged }
  | .crash request writes =>
    { s with disk := ((s.handle request).passed.take writes).getLastD s.disk, staged := ∅ }

def machine (start : ℤ) : Machine State Event where
  initial := ⟨⟨∅, ∅, []⟩, start, ∅⟩
  step := step

end Sbarbase.Functions
