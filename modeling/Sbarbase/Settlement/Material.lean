import Mathlib.Data.List.Sort
import Mathlib.Data.List.Lex
import Mathlib.Data.List.SplitBy
import Sbarbase.Lib.Checked
import Sbarbase.Settlement.Inventory
/-!
# Rows and files of Storage

`reconcile_material` of `lab/storage_native_authority.py`: the rows of the
original database against the files of its volume. Rows and files arrive as JSON
values, and a refusal is the text of its error. The canonical form that `exact`
and `digest` compare and hash is a parameter.
-/

namespace Sbarbase.Settlement.Material

open Lib Lib.Checked

/-- A value that `json.loads` made. -/
abbrev Datum := Value PyNumber

/-- `exact` and `digest`. -/
structure Canon where
  exact : Datum → Datum → Bool
  digest : Datum → CodePoints

def MAX_FILES : ℕ := 10000

/-! ## Fields -/

def member (name : String) : Datum → Option Datum
  | .object members => (members.find? fun member => member.1 = codePoints name).map Prod.snd
  | _ => none

/-- `closed`: an object of these keys. -/
def closed (keys : List String) : Datum → Bool
  | .object members => (members.all fun member => member.1 ∈ keys.map codePoints) &&
    keys.all fun key => members.any fun member => member.1 = codePoints key
  | _ => false

def asText : Datum → Option CodePoints
  | .text value => some value
  | _ => none

def asInt : Datum → Option ℤ
  | .number (.int value) => some value
  | _ => none

/-- `type(value) is int and 0 <= value <= most`. -/
def isInteger (most : ℤ) (value : Option Datum) : Bool :=
  (value.bind asInt).any fun n => 0 ≤ n && n ≤ most

def isHexDigit (c : ℕ) : Bool := (48 ≤ c && c ≤ 57) || (97 ≤ c && c ≤ 102)

/-- `text(value, HEX)`. -/
def isSha256 (value : Option Datum) : Bool :=
  (value.bind asText).any fun text => text.length = 64 && text.all isHexDigit

/-- The values of the extended attributes, in hexadecimal digits. -/
def areXattrs : Option Datum → Bool
  | some (.object members) => members.all fun member =>
    (asText member.2).any fun text => text.length % 2 = 0 && text.all isHexDigit
  | _ => false

/-! ## Files -/

structure File where
  path : CodePoints
  size : ℤ
  deriving DecidableEq

/-- A file, given the paths of those before it. -/
def readFile (before : List CodePoints) (value : Datum) : Except String File := do
  require (closed ["path", "size", "sha256", "mtime_ns", "mode", "uid", "gid", "xattrs"] value)
    "Closed object fields differ"
  let path ← found (((member "path" value).bind asText).filter fun path => path ∉ before)
    "Duplicate original file path"
  let size ← found (((member "size" value).bind asInt).filter fun n => 0 ≤ n && n ≤ MAX_INTEGER)
    "Invalid safe integer"
  require (isInteger 9223372036854775807 (member "mtime_ns" value)) "Invalid native signed integer"
  require (isInteger MAX_INTEGER (member "mode" value)) "Invalid safe integer"
  require (isInteger MAX_INTEGER (member "uid" value)) "Invalid safe integer"
  require (isInteger MAX_INTEGER (member "gid" value)) "Invalid safe integer"
  require (isSha256 (member "sha256" value)) "Invalid identity text"
  require (areXattrs (member "xattrs" value)) "Invalid native xattrs"
  return ⟨path, size⟩

/-- `by_path`, its entries in the order of the files. -/
def readFiles : List File → List Datum → Except String (List File)
  | before, [] => .ok before
  | before, value :: values => do
    let file ← readFile (before.map File.path) value
    readFiles (before ++ [file]) values

/-! ## Rows -/

inductive VersionSeparator
  | slash
  | marked
  deriving DecidableEq

def VersionSeparator.text : VersionSeparator → CodePoints
  | .slash => codePoints "/"
  | .marked => codePoints "-$v-"

/-- What is read of a valid specification. -/
structure Spec where
  internalBucket : CodePoints
  versionSeparator : VersionSeparator
  runtime : CodePoints
  databaseOid : Datum
  features : List (String × Bool)
  manifest : Datum

structure Row where
  bucket : CodePoints
  name : CodePoints
  version : Option CodePoints

/-- `type(row['version']) in (str, type(None))`. -/
def versionOf : Datum → Option (Option CodePoints)
  | .text value => some (some value)
  | .null => some none
  | _ => none

def identify (value : Datum) : Except String Row := do
  require (Python.isDict value ∧
      (["id", "bucket_id", "name", "version", "metadata"].all fun key => (member key value).isSome))
    "Original row version inventory incomplete"
  let bucket ← found ((member "bucket_id" value).bind asText) "Invalid original object path"
  let name ← found ((member "name" value).bind asText) "Invalid original object path"
  let version ← found ((member "version" value).bind versionOf) "Invalid original object path"
  return ⟨bucket, name, version⟩

/-- Neither `.` nor `..`, and without a slash or a null character. -/
def isPlainPart (part : CodePoints) : Bool :=
  part ∉ [codePoints ".", codePoints ".."] && 47 ∉ part && 0 ∉ part

def components (spec : Spec) (row : Row) : List CodePoints :=
  spec.internalBucket :: spec.runtime :: row.bucket :: row.name.splitOn 47

def isSafe (spec : Spec) (row : Row) : Bool :=
  (components spec row).all fun part => part ≠ [] && isPlainPart part

/-- The path of a row: a version that is not empty stands behind the name. -/
def pathOf (spec : Spec) (row : Row) : Except String CodePoints :=
  let path := [47].intercalate (components spec row)
  match row.version.filter fun version => version ≠ [] with
  | none => .ok path
  | some version => do
    require (isPlainPart version) "Unsafe original object version"
    return path ++ spec.versionSeparator.text ++ version

/-- The size in the metadata of a row. -/
def sizeOf (value : Datum) : Except String ℤ :=
  found (((member "metadata" value).bind fun metadata => member "size" metadata).bind asInt)
    "Original row size missing"

def sidecar (path : CodePoints) : CodePoints := path ++ codePoints ".info"

/-! ## The walk -/

/-- What the walk over the rows carries. -/
structure Walk where
  reachable : List CodePoints
  unresolved : List CodePoints
  names : List (CodePoints × CodePoints)

instance : LawfulBEq (CodePoints × CodePoints) := inferInstance

/-- The file of the path has the size. -/
def hasFile (files : List File) (path : CodePoints) (size : ℤ) : Bool :=
  files.any fun file => file.path = path && file.size = size

def isListed (files : List File) (path : CodePoints) : Bool := files.any fun file => file.path = path

def reconcileRow (spec : Spec) (files : List File) (walk : Walk) (value : Datum) : Except String Walk := do
  let row ← identify value
  require (isSafe spec row) "Unsafe original row path"
  require ((row.bucket, row.name) ∉ walk.names) "Duplicate original object row"
  let path ← pathOf spec row
  require (path ∉ walk.reachable) "Original version paths collide"
  let size ← sizeOf value
  return {
    reachable := if isListed files (sidecar path) then sidecar path :: path :: walk.reachable
      else path :: walk.reachable
    unresolved := if hasFile files path size then walk.unresolved
      else walk.unresolved ++ [codePoints "row-file:" ++ path]
    names := (row.bucket, row.name) :: walk.names }

/-- What is read of the database. -/
structure Database where
  databaseOid : Datum
  sessions : Datum
  prepared : Datum
  objects : List Datum

structure Report where
  manifestSha256 : CodePoints
  rowsSha256 : CodePoints
  filesSha256 : CodePoints
  metadataSha256 : CodePoints
  effectsSha256 : CodePoints
  unresolved : List CodePoints
  nativeAdmitted : Bool

/-- The fields of a file that its metadata digest covers. -/
def metadataOf (file : Datum) : Datum :=
  .object (["path", "mtime_ns", "mode", "uid", "gid", "xattrs"].map fun key =>
    (codePoints key, (member key file).getD .null))

/-- The features that have effects of their own. -/
def barriers (spec : Spec) : List CodePoints :=
  (spec.features.filter fun feature =>
    feature.2 && feature.1 ∈ ["tus", "multipart", "queue", "redis", "remote_s3"]).map fun feature =>
      codePoints "pending-effect-barrier:" ++ codePoints feature.1

/-- The files no row reaches, in the order of their paths. -/
def unclassified (files : List File) (reachable : List CodePoints) : List CodePoints :=
  (((files.map File.path).filter fun path => path ∉ reachable).insertionSort (· ≤ ·)).map fun path =>
    codePoints "unclassified-file:" ++ path

def reconcileMaterial (canon : Canon) (spec : Spec) (database : Database) (files : List Datum) :
    Except String Report := do
  require (canon.exact database.databaseOid spec.databaseOid) "Original database OID differs"
  require (canon.exact database.sessions (.array []) ∧ canon.exact database.prepared (.array []))
    "Original database writers unresolved"
  require (files.length ≤ MAX_FILES) "Malformed reconciliation inventories"
  let byPath ← readFiles [] files
  let walk ← database.objects.foldlM (reconcileRow spec byPath) ⟨[], [], []⟩
  let unresolved := walk.unresolved ++ unclassified byPath walk.reachable ++ barriers spec
  return {
    manifestSha256 := canon.digest spec.manifest
    rowsSha256 := canon.digest (.array database.objects)
    filesSha256 := canon.digest (.array files)
    metadataSha256 := canon.digest (.array (files.map metadataOf))
    effectsSha256 := canon.digest (.object [(codePoints "pending", .array (unresolved.map .text))])
    unresolved
    nativeAdmitted := false }

end Sbarbase.Settlement.Material
