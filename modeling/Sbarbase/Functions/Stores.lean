import Sbarbase.Lib.Text
import Sbarbase.Lib.Value
/-!
# The stores of Edge Functions

`functions.json` and `secrets.json` of one environment, and the operations of
`src/control/functions.ts` that read one of them and write it back whole. Values
are those of `JSON.parse`; what becomes of a number that is read and written back
is a parameter. What the file system answers comes with each call.
-/

namespace Sbarbase.Functions.Stores

open Lib

abbrev Name := CodePoints

def MAX_SECRETS : ℕ := 100

def MAX_SECRET : ℕ := 65536

def MAX_FUNCTIONS : ℕ := 100

/-- The numbers of `JSON.parse`. -/
structure Numbers (ν : Type) where
  /-- What is read where `JSON.stringify` wrote the number; none is `null`. -/
  back : ν → Option ν
  /-- 0 or -0. -/
  falsy : ν → Bool

variable {ν : Type}

/-- What is read where `JSON.stringify` wrote the value. -/
def Numbers.writtenBack (js : Numbers ν) : Value ν → Value ν :=
  Value.fold ⟨.null, .flag, fun value => (js.back value).elim .null .number, .text, .array, .object⟩

/-- What stands in a file. -/
inductive Content (ν : Type)
  | json (value : Value ν)
  /-- A text that `JSON.parse` refuses, and the entries that can still be told from it. -/
  | torn (shows : List (Name × Value ν))

inductive File
  | functionsJson
  | secretsJson
  deriving DecidableEq

/-- The files of one environment. -/
structure Files (ν : Type) where
  functionsJson : Option (Content ν)
  secretsJson : Option (Content ν)

def Files.get (files : Files ν) : File → Option (Content ν)
  | .functionsJson => files.functionsJson
  | .secretsJson => files.secretsJson

/-- What the file system answers during one call. -/
structure Moment where
  /-- `readFileSync` returns the content of a file that is there. -/
  reads : Bool
  /-- `atomicWrite` comes to its end. -/
  writes : Bool
  /-- What follows the write comes to its end. -/
  ends : Bool

/-- `JSON.parse(readFileSync(…))`; none is an error, which both readers catch. -/
def parsed (runtime : String) (moment : Moment) : Option (Content ν) → Option (Value ν)
  | some (.json value) => if isRuntime runtime && moment.reads then some value else none
  | _ => none

/-! ## Properties -/

def memberOf (name : Name) (members : List (Name × Value ν)) : Option (Value ν) :=
  (members.find? fun member => member.1 = name).map Prod.snd

/-- What a property name means to an array. -/
inductive Slot
  | index (i : ℕ)
  | length
  | other

/-- The number that the digits of a name make. -/
def numeral (name : Name) : ℕ := name.foldl (fun n c => 10 * n + (c - 48)) 0

def slotOf (name : Name) : Slot :=
  if name = codePoints "length" then .length
  else if codePoints (toString (numeral name)) = name ∧ numeral name < 4294967295 then
    .index (numeral name)
  else .other

/-- What `Object.hasOwn` and the lookup after it find. -/
inductive Own (ν : Type)
  | absent
  | entry (value : Value ν)
  /-- The length of an array. -/
  | length (n : ℕ)

def truthy (js : Numbers ν) : Value ν → Bool
  | .null => false
  | .flag value => value
  | .number value => !js.falsy value
  | .text value => !value.isEmpty
  | .array _ | .object _ => true

def Own.truthy (js : Numbers ν) : Own ν → Bool
  | .absent => false
  | .entry value => Stores.truthy js value
  | .length n => n ≠ 0

/-- `entryOf`; none is the `TypeError` of `Object.hasOwn(null, …)`. -/
def entryOf (functions : Value ν) (name : Name) : Option (Own ν) :=
  match functions with
  | .object members => some ((memberOf name members).elim .absent .entry)
  | .array items =>
    match slotOf name with
    | .index i => some (items[i]?.elim .absent .entry)
    | .length => some (.length items.length)
    | .other => some .absent
  | _ => none

/-- `Object.keys(functions).length` -/
def keyCount : Value ν → ℕ
  | .object members => members.length
  | .array items => items.length
  | _ => 0

/-- An element is set; what lies between the end and a later index reads as `null`. -/
def setItem (items : List (Value ν)) (i : ℕ) (entry : Value ν) : List (Value ν) :=
  if i < items.length then items.set i entry
  else items ++ List.replicate (i - items.length) .null ++ [entry]

/-- `functions[name]=entry`, as `JSON.stringify` sees it; none is an error. The setter
of `__proto__` makes no member, and an array keeps a name that is no index to itself. -/
def assign (functions : Value ν) (name : Name) (entry : Value ν) : Option (Value ν) :=
  match functions with
  | .object members =>
    if name = codePoints "__proto__" ∧ (memberOf name members).isNone then some (.object members)
    else some (.object (Value.put name entry members))
  | .array items =>
    match slotOf name with
    | .index i => some (.array (setItem items i entry))
    | .length => none
    | .other => some (.array items)
  | _ => none

/-- `delete functions[name]`; a hole reads as `null`. -/
def drop (functions : Value ν) (name : Name) : Option (Value ν) :=
  match functions with
  | .object members => some (.object (members.filter fun member => member.1 ≠ name))
  | .array items =>
    match slotOf name with
    | .index i => some (.array (items.set i .null))
    | .length => none
    | .other => some (.array items)
  | _ => none

/-! ## Calls -/

/-- How a call ended. -/
inductive Outcome (ν : Type)
  | entry (entry : Value ν)
  | undefined
  | removed (done : Bool)
  /-- The names of the secrets there are, before they are sorted. -/
  | names (names : List Name)
  /-- A `DeployError`. -/
  | refused (message : CodePoints)
  /-- Any other error. -/
  | thrown

def Outcome.failed : Outcome ν → Bool
  | .refused _ | .thrown => true
  | _ => false

/-- What a call comes to before it writes: its end, or the store that it writes and the
answer after that. -/
inductive Plan (ν : Type)
  | ended (outcome : Outcome ν)
  | save (value : Value ν) (answer : Outcome ν)

/-- The members of the manifest, and its `functions`. -/
structure Manifest (ν : Type) where
  members : List (Name × Value ν)
  functions : Value ν

def Manifest.empty : Manifest ν := ⟨[], .object []⟩

/-- `readManifest`. The type of an array and of `null` is `object` as well. -/
def readManifest : Option (Value ν) → Manifest ν
  | some (.object members) =>
    match memberOf (codePoints "functions") members with
    | some (.object entries) => ⟨members, .object entries⟩
    | some (.array items) => ⟨members, .array items⟩
    | some .null => ⟨members, .null⟩
    | _ => .empty
  | _ => .empty

/-- The manifest with other functions. -/
def Manifest.value (manifest : Manifest ν) (functions : Value ν) : Value ν :=
  .object (Value.put (codePoints "functions") functions manifest.members)

/-- `commitVersion`. What the new entry holds, given the one before it, is a parameter. -/
def commitVersion (js : Numbers ν) (runtime : String) (read : Option (Value ν)) (name : Name)
    (entry : Own ν → Value ν) : Plan ν :=
  if !isRuntime runtime then .ended .thrown
  else
    let manifest := readManifest read
    match entryOf manifest.functions name with
    | none => .ended .thrown
    | some before =>
      if !before.truthy js ∧ keyCount manifest.functions ≥ MAX_FUNCTIONS then
        .ended (.refused (codePoints "functions: at most 100 in an environment"))
      else
        match assign manifest.functions name (entry before) with
        | none => .ended .thrown
        | some functions => .save (manifest.value functions) (.entry (entry before))

def setVerifyJwt (js : Numbers ν) (read : Option (Value ν)) (name : Name)
    (entry : Own ν → Value ν) : Plan ν :=
  let manifest := readManifest read
  match entryOf manifest.functions name with
  | none => .ended .thrown
  | some before =>
    if !before.truthy js then .ended .undefined
    else
      match assign manifest.functions name (entry before) with
      | none => .ended .thrown
      | some functions => .save (manifest.value functions) (.entry (entry before))

def remove (js : Numbers ν) (runtime : String) (read : Option (Value ν)) (name : Name) : Plan ν :=
  if !isRuntime runtime then .ended .thrown
  else
    let manifest := readManifest read
    match entryOf manifest.functions name with
    | none => .ended .thrown
    | some before =>
      if !before.truthy js then .ended (.removed false)
      else
        match drop manifest.functions name with
        | none => .ended .thrown
        | some functions => .save (manifest.value functions) (.removed true)

/-! ## Secrets -/

/-- The code units of a text. -/
def units (text : CodePoints) : ℕ := (text.map fun c => if c < 0x10000 then 1 else 2).sum

/-- `text.slice(0,n)`; a pair that is cut leaves its first half. -/
def sliced : ℕ → CodePoints → CodePoints
  | 0, _ | _, [] => []
  | n + 1, c :: text =>
    if c < 0x10000 then c :: sliced n text
    else
      match n with
      | 0 => [0xD800 + (c - 0x10000) / 0x400]
      | n + 1 => c :: sliced n text

def isUpperOrUnderscore (c : ℕ) : Bool := (65 ≤ c && c ≤ 90) || c = 95

/-- `SECRET_NAME`, and no name that the platform keeps for itself. -/
def isSecretName (name : Name) : Bool :=
  match name with
  | [] => false
  | c :: rest => isUpperOrUnderscore c && rest.length ≤ 127 &&
    (rest.all fun c => isUpperOrUnderscore c || (48 ≤ c && c ≤ 57)) &&
    !(codePoints "SUPABASE_").isPrefixOf name && !(codePoints "SB_").isPrefixOf name

def readSecrets (read : Option (Value ν)) : Value ν := read.getD (.object [])

/-- The store while it is changed. The names given to an array are its own properties,
which `JSON.stringify` leaves out. -/
structure Current (ν : Type) where
  value : Value ν
  extra : List Name

/-- `current[name]=value`; none is the `TypeError` of a value that is no object. -/
def Current.set (current : Current ν) (name : Name) (text : CodePoints) : Option (Current ν) :=
  match current.value with
  | .object members => some { current with value := .object (Value.put name (.text text) members) }
  | .array _ =>
    let extra := if name ∈ current.extra then current.extra else current.extra ++ [name]
    some { current with extra := extra }
  | _ => none

/-- `delete current[name]` -/
def Current.drop (current : Current ν) (name : Name) : Option (Current ν) :=
  match current.value with
  | .object members =>
    some { current with value := .object (members.filter fun member => member.1 ≠ name) }
  | .null => none
  | _ => some { current with extra := current.extra.filter (· ≠ name) }

/-- `Object.keys(current)` -/
def Current.keys (current : Current ν) : Option (List Name) :=
  match current.value with
  | .null => none
  | .object members => some (members.map Prod.fst)
  | .array items =>
    some ((List.range items.length).map (fun i => codePoints (toString i)) ++ current.extra)
  | .text value => some ((List.range (units value)).map fun i => codePoints (toString i))
  | _ => some []

/-- The body of the loop over the changes. -/
def changeSecret (current : Current ν) (change : Name × Value ν) :
    Except (Outcome ν) (Current ν) :=
  if !isSecretName change.1 then
    .error (.refused (codePoints "secret name " ++ sliced 40 change.1))
  else
    match change.2 with
    | .null => (current.drop change.1).elim (.error .thrown) .ok
    | .text text =>
      if units text > MAX_SECRET then .error (.refused (codePoints "secret " ++ change.1))
      else (current.set change.1 text).elim (.error .thrown) .ok
    | _ => .error (.refused (codePoints "secret " ++ change.1))

/-- The changes of a body that holds nothing else. -/
def secretsOf (input : Value ν) : Option (List (Name × Value ν)) :=
  match input with
  | .object members =>
    match memberOf (codePoints "secrets") members with
    | some (.object changes) => if members.length ≠ 1 then none else some changes
    | _ => none
  | _ => none

def changeSecrets (runtime : String) (read : Option (Value ν)) (input : Value ν) : Plan ν :=
  match secretsOf input with
  | none => .ended (.refused (codePoints "secrets"))
  | some changes =>
    match changes.foldlM changeSecret (⟨readSecrets read, []⟩ : Current ν) with
    | .error outcome => .ended outcome
    | .ok current =>
      match current.keys with
      | none => .ended .thrown
      | some names =>
        if names.length > MAX_SECRETS then
          .ended (.refused (codePoints "secrets: at most 100"))
        else if !isRuntime runtime then .ended .thrown
        else .save current.value (.names names)

/-! ## What a call does -/

inductive Operation (ν : Type)
  | commitVersion (name : Name) (entry : Own ν → Value ν)
  | setVerifyJwt (name : Name) (entry : Own ν → Value ν)
  | remove (name : Name)
  | changeSecrets (input : Value ν)

def Operation.file : Operation ν → File
  | .changeSecrets _ => .secretsJson
  | _ => .functionsJson

/-- The entries that a call names. -/
def Operation.named : Operation ν → List Name
  | .commitVersion name _ | .setVerifyJwt name _ | .remove name => [name]
  | .changeSecrets input => ((secretsOf input).getD []).map Prod.fst

def Operation.plan (js : Numbers ν) (runtime : String) (read : Option (Value ν)) :
    Operation ν → Plan ν
  | .commitVersion name entry => Stores.commitVersion js runtime read name entry
  | .setVerifyJwt name entry => Stores.setVerifyJwt js read name entry
  | .remove name => Stores.remove js runtime read name
  | .changeSecrets input => Stores.changeSecrets runtime read input

/-- What changes on the disk. -/
inductive Write (ν : Type)
  /-- A write that did not come to its end leaves at most its pending file. -/
  | pending (file : File)
  | stored (file : File) (content : Content ν)
  /-- `prune` looks at the version folders. -/
  | pruned
  /-- `noteSecretTimes`, whose errors are dropped. -/
  | noted

/-- What a call does after it stored its file. -/
def Operation.afterwards : Operation ν → List (Write ν)
  | .commitVersion .. | .remove _ => [.pruned]
  | .setVerifyJwt .. => []
  | .changeSecrets _ => [.noted]

structure Result (ν : Type) where
  outcome : Outcome ν
  writes : List (Write ν)

def Files.apply (files : Files ν) : Write ν → Files ν
  | .stored .functionsJson content => { files with functionsJson := some content }
  | .stored .secretsJson content => { files with secretsJson := some content }
  | _ => files

def Result.after (result : Result ν) (files : Files ν) : Files ν := result.writes.foldl .apply files

/-- One call. -/
def call (js : Numbers ν) (runtime : String) (moment : Moment) (files : Files ν)
    (operation : Operation ν) : Result ν :=
  match operation.plan js runtime (parsed runtime moment (files.get operation.file)) with
  | .ended outcome => ⟨outcome, []⟩
  | .save value answer =>
    if !moment.writes then ⟨.thrown, [.pending operation.file]⟩
    else
      ⟨if moment.ends then answer else .thrown,
        .stored operation.file (.json (js.writtenBack value)) :: operation.afterwards⟩

end Sbarbase.Functions.Stores
