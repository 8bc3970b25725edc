import Sbarbase.Lib.Dict
import Sbarbase.Lib.Machine
import Sbarbase.Lib.Table
/-!
# The counters of functions

The part of `RequestLog` of `src/gateway/observe.ts` that counts the calls of
functions: one bucket a minute, the recent calls, the numbers since the last deploy,
and the number of buckets held. Times are milliseconds; the arithmetic of
durations, which are JavaScript numbers, is a parameter.
-/

namespace Sbarbase.Gateway.Observe

open Lib

def MAX_PATH : ℕ := 200

def MAX_ENVIRONMENTS : ℕ := 2000

def FUNCTION_MINUTES : ℤ := 1440

def FUNCTION_RECENT : ℕ := 200

def FUNCTION_BUCKET_CEILING : ℤ := 400000

def FUNCTION_RUNTIME_CEILING : ℤ := 40000

/-- The keys of `FUNCTION_RANGES`. -/
inductive FunctionRange
  | quarter
  | hour
  | threeHours
  | day
  deriving DecidableEq

def FunctionRange.minutes : FunctionRange → ℤ
  | .quarter => 15
  | .hour => 60
  | .threeHours => 180
  | .day => 1440

def FunctionRange.step : FunctionRange → ℤ
  | .quarter => 1
  | .hour => 1
  | .threeHours => 5
  | .day => 15

/-- What the log does with durations. -/
structure Durations (μ : Type) where
  zero : μ
  add : μ → μ → μ
  max : μ → μ → μ
  /-- `Math.round`. -/
  round : μ → μ
  /-- `Math.round` of a sum over a number of requests. -/
  average : μ → ℕ → μ

/-! ## What is kept -/

/-- The number of requests, and of those that were errors. -/
structure Counts where
  requests : ℕ
  client : ℕ
  server : ℕ
  deriving DecidableEq

def Counts.zero : Counts := ⟨0, 0, 0⟩

def Counts.add (a b : Counts) : Counts where
  requests := a.requests + b.requests
  client := a.client + b.client
  server := a.server + b.server

/-- One answer with the status. -/
def Counts.count (counts : Counts) (status : ℤ) : Counts :=
  if status ≥ 500 then
    { counts with requests := counts.requests + 1, server := counts.server + 1 }
  else if status ≥ 400 then
    { counts with requests := counts.requests + 1, client := counts.client + 1 }
  else { counts with requests := counts.requests + 1 }

/-- Counts with the sum of the durations and the longest of them. -/
structure Sums (μ : Type) extends Counts where
  ms : μ
  slowest : μ
  deriving DecidableEq

/-- `requests` is the field `count` of the source. -/
structure FunctionBucket (μ : Type) extends Sums μ where
  minute : ℤ
  deriving DecidableEq

structure FunctionCall (μ : Type) where
  time : ℤ
  method : String
  /-- UTF-16 code units. -/
  path : List UInt16
  status : ℤ
  ms : μ
  deriving DecidableEq

structure Cumulative extends Counts where
  since : ℤ
  complete : Bool
  deriving DecidableEq

structure FunctionStats (μ : Type) where
  buckets : List (FunctionBucket μ)
  recent : List (FunctionCall μ)
  total : Cumulative
  deriving DecidableEq

structure FunctionRow (μ : Type) where
  name : String
  stats : FunctionStats μ

structure RuntimeRow (μ : Type) where
  runtime : String
  byName : Table (FunctionRow.name (μ := μ))

/-- A `Map` keeps its entries in the order in which their keys came, as a table does. -/
structure RequestLog (μ : Type) where
  startedAt : ℤ
  functionsByRuntime : Table (RuntimeRow.runtime (μ := μ))
  functionBuckets : ℤ
  runtimeBuckets : Dict String ℤ

/-- The argument `call` of `recordFunction`. -/
structure Arrival (μ : Type) where
  time : Option ℤ
  method : String
  path : List UInt16
  status : ℤ
  ms : μ
  deriving DecidableEq

def minuteOf (time : ℤ) : ℤ := time / 60000

variable {μ : Type}

namespace RequestLog

/-- The constructor. -/
def new (startedAt : ℤ) : RequestLog μ := ⟨startedAt, .empty, 0, ∅⟩

def byNameOf (log : RequestLog μ) (runtime : String) :
    Option (Table (FunctionRow.name (μ := μ))) :=
  (log.functionsByRuntime.get runtime).map RuntimeRow.byName

def statsOf (log : RequestLog μ) (runtime name : String) : Option (FunctionStats μ) :=
  (log.byNameOf runtime).bind fun byName => (byName.get name).map FunctionRow.stats

/-- The entry of the environment is made if it is missing and there is room for it. -/
def openRuntime (log : RequestLog μ) (runtime : String) : Option (RequestLog μ) :=
  match log.functionsByRuntime.get runtime with
  | some _ => some log
  | none =>
    if log.functionsByRuntime.rows.length ≥ MAX_ENVIRONMENTS then none
    else some { log with functionsByRuntime := log.functionsByRuntime.put ⟨runtime, .empty⟩ }

def setByName (log : RequestLog μ) (runtime : String)
    (byName : Table (FunctionRow.name (μ := μ))) : RequestLog μ :=
  { log with functionsByRuntime := log.functionsByRuntime.put ⟨runtime, byName⟩ }

/-- `byName.set(name, stats)`. -/
def setStats (log : RequestLog μ) (runtime name : String) (stats : FunctionStats μ) :
    RequestLog μ :=
  log.setByName runtime (((log.byNameOf runtime).getD .empty).put ⟨name, stats⟩)

/-- A write through a reference to the counters of one function. -/
def update (log : RequestLog μ) (runtime name : String)
    (f : FunctionStats μ → FunctionStats μ) : RequestLog μ :=
  match log.statsOf runtime name with
  | none => log
  | some stats => log.setStats runtime name (f stats)

/-- The number of buckets held for one environment. -/
def bucketsHeld (log : RequestLog μ) (runtime : String) : ℤ :=
  (log.runtimeBuckets.get runtime).getD 0

/-- Both counters of buckets move by the same number. -/
def adjust (log : RequestLog μ) (runtime : String) (change : ℤ) : RequestLog μ :=
  { log with
    functionBuckets := log.functionBuckets + change
    runtimeBuckets := log.runtimeBuckets.set runtime (log.bucketsHeld runtime + change) }

end RequestLog

/-! ## Recording a call -/

def shortPath (path : List UInt16) : List UInt16 :=
  -- the appended code unit is the ellipsis
  if path.length > MAX_PATH then path.take MAX_PATH ++ [0x2026] else path

namespace FunctionStats

def fresh (startedAt : ℤ) : FunctionStats μ := ⟨[], [], ⟨.zero, startedAt, false⟩⟩

/-- The call becomes the newest of the recent ones. -/
def remember (stats : FunctionStats μ) (call : FunctionCall μ) : FunctionStats μ :=
  let recent := stats.recent ++ [call]
  { stats with recent := recent.drop (recent.length - FUNCTION_RECENT) }

/-- The method `count`. -/
def count (stats : FunctionStats μ) (status : ℤ) : FunctionStats μ :=
  { stats with total := { stats.total with toCounts := stats.total.toCounts.count status } }

end FunctionStats

def FunctionStats.push (stats : FunctionStats μ) (bucket : FunctionBucket μ) : FunctionStats μ :=
  { stats with buckets := stats.buckets ++ [bucket] }

/-- The last bucket is of the minute or of a later one. -/
def reaches (buckets : List (FunctionBucket μ)) (minute : ℤ) : Bool :=
  buckets.getLast?.any fun last => minute ≤ last.minute

/-- The number of buckets that are too old beside a call of the minute. -/
def aged (buckets : List (FunctionBucket μ)) (minute : ℤ) : ℕ :=
  (buckets.takeWhile fun bucket => bucket.minute ≤ minute - FUNCTION_MINUTES).length

/-- Where the bucket of a minute stands: the last one is looked at first. -/
def bucketAt (buckets : List (FunctionBucket μ)) (minute : ℤ) : Option ℕ :=
  if buckets.getLast?.any fun last => last.minute = minute then some (buckets.length - 1)
  else buckets.findIdx? fun bucket => bucket.minute = minute

def FunctionBucket.empty (d : Durations μ) (minute : ℤ) : FunctionBucket μ :=
  ⟨⟨.zero, d.zero, d.zero⟩, minute⟩

/-- One call more. -/
def FunctionBucket.add (d : Durations μ) (bucket : FunctionBucket μ) (call : Arrival μ) :
    FunctionBucket μ :=
  { bucket with
    toCounts := bucket.toCounts.count call.status
    ms := d.add bucket.ms call.ms
    slowest := d.max bucket.slowest call.ms }

/-- The call joins the bucket of its minute, if there is one. -/
def fill (d : Durations μ) (buckets : List (FunctionBucket μ)) (minute : ℤ) (call : Arrival μ) :
    List (FunctionBucket μ) :=
  match bucketAt buckets minute with
  | none => buckets
  | some i => buckets.modify i fun bucket => bucket.add d call

namespace RequestLog

/-- The buckets that are too old beside a call of the minute go. -/
def dropAged (log : RequestLog μ) (runtime name : String) (minute : ℤ) : RequestLog μ :=
  let drop := ((log.statsOf runtime name).map fun stats => aged stats.buckets minute).getD 0
  if drop = 0 then log
  else
    (log.update runtime name fun stats =>
      { stats with buckets := stats.buckets.drop drop }).adjust runtime (-drop)

/-- One pass of the loop of `evictOldest`: the row takes the place of the oldest so far. -/
def older (filling : String) (oldest : Option (FunctionRow μ)) (row : FunctionRow μ) :
    Option (FunctionRow μ) :=
  match row.stats.buckets.head? with
  | none => oldest
  | some first =>
    if row.name = filling && row.stats.buckets.length ≤ 1 then oldest
    else
      match oldest.bind fun old => old.stats.buckets.head? with
      | none => some row
      | some least => if first.minute < least.minute then some row else oldest

/-- `evictOldest`; nothing if there is no bucket to drop. -/
def evictOldest (log : RequestLog μ) (runtime filling : String) : Option (RequestLog μ) :=
  let rows := ((log.byNameOf runtime).map Table.rows).getD []
  match rows.foldl (older filling) none with
  | none => none
  | some oldest =>
    some ((log.update runtime oldest.name fun stats =>
      { stats with buckets := stats.buckets.tail }).adjust runtime (-1))

/-- One of the ceilings is reached. -/
def atCeiling (log : RequestLog μ) (runtime : String) : Bool :=
  log.functionBuckets ≥ FUNCTION_BUCKET_CEILING ||
    log.bucketsHeld runtime ≥ FUNCTION_RUNTIME_CEILING

/-- Room for one more bucket; nothing if there is none and none can be made. -/
def makeRoom (log : RequestLog μ) (runtime name : String) : Option (RequestLog μ) :=
  if log.atCeiling runtime then log.evictOldest runtime name else some log

/-- A bucket for the minute is pushed. -/
def pushBucket (d : Durations μ) (log : RequestLog μ) (runtime name : String) (minute : ℤ) :
    RequestLog μ :=
  (log.update runtime name (·.push (.empty d minute))).adjust runtime 1

/-- The call is counted, and joins the bucket of its minute. -/
def addCall (d : Durations μ) (log : RequestLog μ) (runtime name : String) (minute : ℤ)
    (call : Arrival μ) : RequestLog μ :=
  log.update runtime name fun stats =>
    let stats := stats.count call.status
    { stats with buckets := fill d stats.buckets minute call }

/-- `recordFunction` at the time `now`. -/
def recordFunction (d : Durations μ) (log : RequestLog μ) (now : ℤ) (runtime name : String)
    (call : Arrival μ) : RequestLog μ :=
  let time := call.time.getD now
  let minute := minuteOf time
  match log.openRuntime runtime with
  | none => log
  | some log =>
    let stats := ((log.statsOf runtime name).getD (.fresh log.startedAt)).remember
      ⟨time, call.method, shortPath call.path, call.status, d.round call.ms⟩
    let log := log.setStats runtime name stats
    if reaches stats.buckets minute then log.addCall d runtime name minute call
    else
      match (log.dropAged runtime name minute).makeRoom runtime name with
      | none =>
        (log.dropAged runtime name minute).update runtime name (·.count call.status)
      | some log => (log.pushBucket d runtime name minute).addCall d runtime name minute call

/-! ## Deploys and deletions -/

def deployedFunction (log : RequestLog μ) (runtime name : String) (time : ℤ) : RequestLog μ :=
  match log.statsOf runtime name with
  | some stats => log.setStats runtime name { stats with total := ⟨.zero, time, true⟩ }
  | none =>
    match log.openRuntime runtime with
    | none => log
    | some log => log.setStats runtime name ⟨[], [], ⟨.zero, time, true⟩⟩

/-- `byName.delete(name)`. -/
def deleteStats (log : RequestLog μ) (runtime name : String) : RequestLog μ :=
  log.setByName runtime (((log.byNameOf runtime).getD .empty).keep fun row => row.name ≠ name)

def forgetFunction (log : RequestLog μ) (runtime name : String) : RequestLog μ :=
  match log.statsOf runtime name with
  | none => log
  | some stats => (log.adjust runtime (-stats.buckets.length)).deleteStats runtime name

/-! ## What the log answers -/

/-- `functionCalls`, the newest first. `slice(-0)` is the whole list. -/
def functionCalls (log : RequestLog μ) (runtime name : String) (errors : Bool)
    (since : Option ℤ) (limit : Option ℕ) : List (FunctionCall μ) :=
  let rows := (((log.statsOf runtime name).map FunctionStats.recent).getD []).filter fun row =>
    (!errors || row.status ≥ 400) && since.all fun since => row.time ≥ since
  let limit := limit.getD FUNCTION_RECENT
  (if limit = 0 then rows else rows.drop (rows.length - limit)).reverse

end RequestLog

namespace Sums

def zero (d : Durations μ) : Sums μ := ⟨.zero, d.zero, d.zero⟩

def add (d : Durations μ) (a b : Sums μ) : Sums μ where
  toCounts := a.toCounts.add b.toCounts
  ms := d.add a.ms b.ms
  slowest := d.max a.slowest b.slowest

end Sums

/-- What is shown of counts and durations. -/
structure Shown (μ : Type) extends Counts where
  averageMs : Option μ
  maxMs : Option μ
  deriving DecidableEq

def Sums.shown (d : Durations μ) (sums : Sums μ) : Shown μ where
  toCounts := sums.toCounts
  averageMs := if sums.requests = 0 then none else some (d.average sums.ms sums.requests)
  maxMs := if sums.requests = 0 then none else some (d.round sums.slowest)

structure FunctionPoint (μ : Type) extends Shown μ where
  time : ℤ
  deriving DecidableEq

structure FunctionMetrics (μ : Type) where
  range : FunctionRange
  countingSince : ℤ
  points : List (FunctionPoint μ)
  totals : Shown μ
  sinceDeploy : Cumulative

/-- The values of `start` in the loop from `first` to `current`. -/
def starts (first current step : ℤ) : List ℤ :=
  (List.range ((current - first) / step + 1).toNat).map fun i : ℕ => first + step * i

/-- The buckets of the minutes from `start` to the one before `stop`, added up. -/
def sumBetween (d : Durations μ) (buckets : List (FunctionBucket μ)) (start stop : ℤ) : Sums μ :=
  (buckets.filter fun bucket => bucket.minute ≥ start && bucket.minute < stop).foldl
    (fun sums bucket => sums.add d bucket.toSums) (.zero d)

/-- `functionMetrics` at the time `now`. -/
def RequestLog.functionMetrics (d : Durations μ) (log : RequestLog μ) (now : ℤ)
    (runtime name : String) (range : FunctionRange) : FunctionMetrics μ :=
  let current := minuteOf now
  let stats := log.statsOf runtime name
  let buckets := (stats.map FunctionStats.buckets).getD []
  let starts := starts (current - range.minutes + 1) current range.step
  let sums := fun start => sumBetween d buckets start (min (start + range.step) (current + 1))
  { range := range
    countingSince := log.startedAt
    points := starts.map fun start => ⟨(sums start).shown d, start * 60000⟩
    totals := (starts.foldl (fun totals start => totals.add d (sums start)) (Sums.zero d)).shown d
    sinceDeploy :=
      (stats.map FunctionStats.total).getD ⟨.zero, log.startedAt, false⟩ }

/-! ## The log in use -/

/-- The calls that change the counters of functions. -/
inductive Event (μ : Type)
  | recorded (now : ℤ) (runtime name : String) (call : Arrival μ)
  | deployed (runtime name : String) (time : ℤ)
  | forgotten (runtime name : String)

def requestLog (d : Durations μ) (startedAt : ℤ) : Machine (RequestLog μ) (Event μ) where
  initial := .new startedAt
  step log
    | .recorded now runtime name call => log.recordFunction d now runtime name call
    | .deployed runtime name time => log.deployedFunction runtime name time
    | .forgotten runtime name => log.forgetFunction runtime name

end Sbarbase.Gateway.Observe
