import Mathlib.Data.Int.Interval
import Mathlib.Data.List.TakeWhile
import Sbarbase.Gateway.Observe
import Sbarbase.Lib.Tally
/-!
# What the counters of functions say

The counters of buckets against the lists they count, and the numbers the log
answers against the calls that were recorded. Every write to the log goes to one
function, so each lemma says what it does to that function and to the others.
-/

namespace Sbarbase.Gateway.Observe

open Lib

variable {μ : Type}

/-! ## What is recorded -/

/-- A call of a function that was answered. -/
structure Answered where
  time : ℤ
  status : ℤ
  deriving DecidableEq

namespace Event

/-- The environment that gets an entry if there is room. -/
def opens : Event μ → Option String
  | .recorded _ runtime _ _ => some runtime
  | .deployed runtime _ _ => some runtime
  | .forgotten _ _ => none

/-- The time of a call. -/
def time : Event μ → Option ℤ
  | .recorded now _ _ call => some (call.time.getD now)
  | _ => none

/-- The call of the function, if the event is one. -/
def answered (runtime name : String) : Event μ → List Answered
  | .recorded now runtime' name' call =>
    if runtime' = runtime ∧ name' = name then [⟨call.time.getD now, call.status⟩] else []
  | _ => []

def deploys (runtime name : String) : Event μ → Bool
  | .deployed runtime' name' _ => runtime' = runtime && name' = name
  | _ => false

def forgets (runtime name : String) : Event μ → Bool
  | .forgotten runtime' name' => runtime' = runtime && name' = name
  | _ => false

end Event

/-- The environments with an entry after one more came, if there is room for it. -/
def enter (seen : List String) (runtime : String) : List String :=
  if runtime ∈ seen ∨ seen.length ≥ MAX_ENVIRONMENTS then seen else seen ++ [runtime]

def track (seen : List String) (e : Event μ) : List String :=
  match e.opens with
  | none => seen
  | some runtime => enter seen runtime

/-- The environments the log keeps: the first that came, as many as it has room for. -/
def tracked (events : List (Event μ)) : List String := events.foldl track []

/-- The calls of a function that were recorded after the last event that `ends`. -/
def recordedSince (ends : Event μ → Bool) (runtime name : String) (events : List (Event μ)) :
    List Answered :=
  (events.foldl (fun (state : List String × List Answered) e =>
    (track state.1 e,
      if ends e then []
      else if runtime ∈ track state.1 e then state.2 ++ e.answered runtime name
      else state.2)) ([], [])).2

/-- The calls since the last deploy of the function, or since it was forgotten. -/
def sinceDeploy (runtime name : String) (events : List (Event μ)) : List Answered :=
  recordedSince (fun e => e.deploys runtime name || e.forgets runtime name) runtime name events

/-- The calls since the function was last forgotten. -/
def sinceForget (runtime name : String) (events : List (Event μ)) : List Answered :=
  recordedSince (fun e => e.forgets runtime name) runtime name events

/-- What is counted of calls. -/
inductive Kind
  | requests
  | clientErrors
  | serverErrors
  deriving DecidableEq

namespace Kind

def of : Kind → Counts → ℕ
  | .requests, counts => counts.requests
  | .clientErrors, counts => counts.client
  | .serverErrors, counts => counts.server

/-- An answer with the status is of the kind. -/
def has : Kind → ℤ → Bool
  | .requests, _ => true
  | .clientErrors, status => 400 ≤ status && status < 500
  | .serverErrors, status => 500 ≤ status

variable (kind : Kind)

@[simp] theorem of_zero : kind.of .zero = 0 := by cases kind <;> rfl

theorem of_add (a b : Counts) : kind.of (a.add b) = kind.of a + kind.of b := by
  cases kind <;> rfl

theorem of_count (counts : Counts) (status : ℤ) :
    kind.of (counts.count status) = kind.of counts + if kind.has status then 1 else 0 := by
  unfold Counts.count
  cases kind with
  | requests => split_ifs <;> simp_all [of, has]
  | clientErrors => split_ifs <;> simp_all [of, has] <;> omega
  | serverErrors => split_ifs <;> simp_all [of, has] <;> omega

end Kind

/-! ## What a log holds -/

/-- The number of buckets of one environment. -/
def RuntimeRow.held (row : RuntimeRow μ) : ℤ :=
  (row.byName.rows.map fun function => (function.stats.buckets.length : ℤ)).sum

namespace RequestLog

def runtimes (log : RequestLog μ) : List String :=
  log.functionsByRuntime.rows.map RuntimeRow.runtime

def bucketsOf (log : RequestLog μ) (runtime name : String) : List (FunctionBucket μ) :=
  ((log.statsOf runtime name).map FunctionStats.buckets).getD []

def totalOf (log : RequestLog μ) (runtime name : String) : Counts :=
  ((log.statsOf runtime name).map fun stats => stats.total.toCounts).getD .zero

/-- The sum of the lengths of all lists of buckets. -/
def held (log : RequestLog μ) : ℤ := (log.functionsByRuntime.rows.map RuntimeRow.held).sum

/-- The sum over the functions of one environment. -/
def heldFor (log : RequestLog μ) (runtime : String) : ℤ :=
  ((log.functionsByRuntime.get runtime).map RuntimeRow.held).getD 0

variable (log : RequestLog μ) (runtime name : String)

/-! ## One write -/

theorem statsOf_setByName (byName : Table (FunctionRow.name (μ := μ))) (runtime' name' : String) :
    (log.setByName runtime byName).statsOf runtime' name' =
      if runtime = runtime' then (byName.get name').map FunctionRow.stats
      else log.statsOf runtime' name' := by
  unfold statsOf byNameOf setByName
  dsimp only
  rw [Table.get_put]
  split_ifs <;> rfl

theorem heldFor_setByName (byName : Table (FunctionRow.name (μ := μ))) (runtime' : String) :
    (log.setByName runtime byName).heldFor runtime' =
      if runtime = runtime' then RuntimeRow.held ⟨runtime, byName⟩ else log.heldFor runtime' := by
  unfold heldFor setByName
  dsimp only
  rw [Table.get_put]
  split_ifs <;> rfl

theorem held_setByName (byName : Table (FunctionRow.name (μ := μ))) :
    (log.setByName runtime byName).held =
      log.held + (RuntimeRow.held ⟨runtime, byName⟩ - log.heldFor runtime) :=
  Table.sum_put log.functionsByRuntime ⟨runtime, byName⟩ RuntimeRow.held

/-- The functions of an environment, none if it has no entry. -/
theorem get_byNameOf : (((log.byNameOf runtime).getD .empty).get name).map FunctionRow.stats =
      log.statsOf runtime name := by
  unfold statsOf
  cases log.byNameOf runtime <;> rfl

theorem held_byNameOf :
    RuntimeRow.held ⟨runtime, (log.byNameOf runtime).getD .empty⟩ = log.heldFor runtime := by
  unfold heldFor byNameOf
  cases log.functionsByRuntime.get runtime <;> rfl

theorem length_bucketsOf : ((((log.byNameOf runtime).getD .empty).get name).map fun function =>
      (function.stats.buckets.length : ℤ)).getD 0 = (log.bucketsOf runtime name).length := by
  rw [bucketsOf, ← get_byNameOf]
  cases ((log.byNameOf runtime).getD .empty).get name <;> rfl

theorem statsOf_setStats (stats : FunctionStats μ) (runtime' name' : String) :
    (log.setStats runtime name stats).statsOf runtime' name' =
      if runtime = runtime' ∧ name = name' then some stats else log.statsOf runtime' name' := by
  rw [setStats, statsOf_setByName]
  by_cases hruntime : runtime = runtime'
  · subst hruntime
    rw [if_pos rfl, Table.get_put]
    by_cases hname : name = name'
    · rw [if_pos hname, if_pos ⟨rfl, hname⟩]
      rfl
    · rw [if_neg hname, if_neg fun h => hname h.2, get_byNameOf]
  · rw [if_neg hruntime, if_neg fun h => hruntime h.1]

theorem statsOf_deleteStats (runtime' name' : String) :
    (log.deleteStats runtime name).statsOf runtime' name' =
      if runtime = runtime' ∧ name = name' then none else log.statsOf runtime' name' := by
  rw [deleteStats, statsOf_setByName]
  by_cases hruntime : runtime = runtime'
  · subst hruntime
    rw [if_pos rfl, Table.get_keep_key _ (fun other => other ≠ name)]
    by_cases hname : name = name'
    · rw [if_neg (by simpa using hname.symm), if_pos ⟨rfl, hname⟩]
      rfl
    · rw [if_pos (by simpa using Ne.symm hname), if_neg fun h => hname h.2, get_byNameOf]
  · rw [if_neg hruntime, if_neg fun h => hruntime h.1]

/-- What a write adds to the number of buckets of its environment. -/
theorem held_put (stats : FunctionStats μ) :
    RuntimeRow.held ⟨runtime, ((log.byNameOf runtime).getD .empty).put ⟨name, stats⟩⟩ =
      log.heldFor runtime + (stats.buckets.length - (log.bucketsOf runtime name).length) := by
  rw [← held_byNameOf, ← length_bucketsOf]
  exact Table.sum_put _ _ _

theorem held_keep : RuntimeRow.held
        ⟨runtime, ((log.byNameOf runtime).getD .empty).keep fun row => row.name ≠ name⟩ =
      log.heldFor runtime - (log.bucketsOf runtime name).length := by
  rw [← held_byNameOf, ← length_bucketsOf]
  exact Table.sum_keep_ne _ _ _

/-! ## The counters of buckets -/

theorem bucketsHeld_adjust (change : ℤ) (runtime' : String) :
    (log.adjust runtime change).bucketsHeld runtime' =
      log.bucketsHeld runtime' + if runtime = runtime' then change else 0 := by
  change ((log.runtimeBuckets.set runtime _).get runtime').getD 0 = _
  rw [Dict.get_set]
  split_ifs with h h' h'
  · subst h
    rfl
  · exact absurd h.symm h'
  · exact absurd h'.symm h
  · exact (add_zero _).symm

/-- The counters agree with the lists. -/
structure Balanced (log : RequestLog μ) : Prop where
  total : log.functionBuckets = log.held
  own : ∀ runtime, log.bucketsHeld runtime = log.heldFor runtime

variable {log runtime name}

theorem Balanced.setByName_adjust (h : log.Balanced) {byName : Table (FunctionRow.name (μ := μ))}
    {change : ℤ} (hchange : RuntimeRow.held ⟨runtime, byName⟩ = log.heldFor runtime + change) :
    ((log.setByName runtime byName).adjust runtime change).Balanced where
  total := by
    change log.functionBuckets + change = (log.setByName runtime byName).held
    rw [held_setByName, h.total, hchange]
    omega
  own runtime' := by
    change _ = (log.setByName runtime byName).heldFor runtime'
    rw [bucketsHeld_adjust, heldFor_setByName]
    change log.bucketsHeld runtime' + _ = _
    rw [h.own]
    split_ifs with heq
    · rw [hchange, heq]
    · exact add_zero _

theorem Balanced.setByName (h : log.Balanced) {byName : Table (FunctionRow.name (μ := μ))}
    (hsame : RuntimeRow.held ⟨runtime, byName⟩ = log.heldFor runtime) :
    (log.setByName runtime byName).Balanced where
  total := by
    change log.functionBuckets = (log.setByName runtime byName).held
    rw [held_setByName, h.total, hsame]
    omega
  own runtime' := by
    rw [heldFor_setByName]
    change log.bucketsHeld runtime' = _
    rw [h.own]
    split_ifs with heq
    · rw [hsame, heq]
    · rfl

theorem Balanced.setStats (h : log.Balanced) {stats : FunctionStats μ}
    (hlength : stats.buckets.length = (log.bucketsOf runtime name).length) :
    (log.setStats runtime name stats).Balanced := by
  apply h.setByName
  rw [held_put, hlength]
  omega

theorem bucketsOf_eq_of_some {stats : FunctionStats μ} (h : log.statsOf runtime name = some stats) :
    log.bucketsOf runtime name = stats.buckets := by
  rw [bucketsOf, h]
  rfl

theorem update_eq_of_some {stats : FunctionStats μ} (h : log.statsOf runtime name = some stats)
    (f : FunctionStats μ → FunctionStats μ) :
    log.update runtime name f = log.setStats runtime name (f stats) := by
  rw [update, h]

/-- A write that keeps the number of buckets. -/
theorem Balanced.update (h : log.Balanced) {f : FunctionStats μ → FunctionStats μ}
    (hlength : ∀ stats, (f stats).buckets.length = stats.buckets.length) :
    (log.update runtime name f).Balanced := by
  cases hstats : log.statsOf runtime name with
  | none =>
      rw [RequestLog.update, hstats]
      exact h
  | some stats =>
      rw [update_eq_of_some hstats]
      apply h.setStats
      rw [hlength, bucketsOf_eq_of_some hstats]

/-- A write that changes the number of buckets, and the counters with it. -/
theorem Balanced.update_adjust (h : log.Balanced) {f : FunctionStats μ → FunctionStats μ}
    {stats : FunctionStats μ} {change : ℤ} (hstats : log.statsOf runtime name = some stats)
    (hlength : ((f stats).buckets.length : ℤ) = stats.buckets.length + change) :
    ((log.update runtime name f).adjust runtime change).Balanced := by
  rw [update_eq_of_some hstats]
  apply h.setByName_adjust
  rw [held_put, hlength, bucketsOf_eq_of_some hstats]
  omega

/-! ## The entry of an environment -/

theorem get_eq_none : log.functionsByRuntime.get runtime = none ↔ runtime ∉ log.runtimes := by
  rw [Table.get_eq_none, runtimes, List.mem_map]
  constructor
  · rintro h ⟨row, hrow, hkey⟩
    exact h row hrow hkey
  · intro h row hrow hkey
    exact h ⟨row, hrow, hkey⟩

theorem openRuntime_eq_some {log' : RequestLog μ} (h : log.openRuntime runtime = some log') :
    (log' = log ∧ runtime ∈ log.runtimes) ∨
      (log' = log.setByName runtime .empty ∧ runtime ∉ log.runtimes ∧
        log.runtimes.length < MAX_ENVIRONMENTS) := by
  unfold openRuntime at h
  cases hget : log.functionsByRuntime.get runtime with
  | some row =>
      rw [hget] at h
      refine .inl ⟨(Option.some.inj h).symm, ?_⟩
      by_contra hnot
      rw [get_eq_none.mpr hnot] at hget
      nomatch hget
  | none =>
      rw [hget] at h
      dsimp only at h
      split_ifs at h with hfull
      refine .inr ⟨(Option.some.inj h).symm, get_eq_none.mp hget, ?_⟩
      rw [runtimes, List.length_map]
      exact not_le.mp hfull

theorem openRuntime_eq_none (h : log.openRuntime runtime = none) :
    runtime ∉ log.runtimes ∧ MAX_ENVIRONMENTS ≤ log.runtimes.length := by
  unfold openRuntime at h
  cases hget : log.functionsByRuntime.get runtime with
  | some row =>
      rw [hget] at h
      nomatch h
  | none =>
      rw [hget] at h
      dsimp only at h
      split_ifs at h with hfull
      refine ⟨get_eq_none.mp hget, ?_⟩
      rw [runtimes, List.length_map]
      exact hfull

variable {log' : RequestLog μ}

theorem statsOf_opened (h : log.openRuntime runtime = some log') (runtime' name' : String) :
    log'.statsOf runtime' name' = log.statsOf runtime' name' := by
  obtain ⟨rfl, -⟩ | ⟨rfl, hnot, -⟩ := openRuntime_eq_some h
  · rfl
  · rw [statsOf_setByName]
    split_ifs with heq
    · subst heq
      rw [statsOf, byNameOf, get_eq_none.mpr hnot]
      rfl
    · rfl

theorem Balanced.opened (hlog : log.Balanced) (h : log.openRuntime runtime = some log') :
    log'.Balanced := by
  obtain ⟨rfl, -⟩ | ⟨rfl, hnot, -⟩ := openRuntime_eq_some h
  · exact hlog
  · apply hlog.setByName
    rw [heldFor, get_eq_none.mpr hnot]
    rfl

theorem runtimes_setByName (byName : Table (FunctionRow.name (μ := μ))) :
    (log.setByName runtime byName).runtimes =
      if runtime ∈ log.runtimes then log.runtimes else log.runtimes ++ [runtime] := by
  cases hget : log.functionsByRuntime.get runtime with
  | some old =>
      obtain ⟨hold, hkey⟩ := Table.get_eq_some.mp hget
      have hmem : runtime ∈ log.runtimes := List.mem_map.mpr ⟨old, hold, hkey⟩
      rw [if_pos hmem]
      unfold setByName runtimes
      dsimp only
      rw [Table.rows_put_of_some hget, List.map_map]
      apply List.map_congr_left
      intro row _
      rw [Function.comp_apply]
      split_ifs with heq
      · exact heq.symm
      · rfl
  | none =>
      rw [if_neg (get_eq_none.mp hget)]
      unfold setByName runtimes
      dsimp only
      rw [Table.rows_put_of_none hget, List.map_append]
      rfl

/-! ## Writes to one function -/

theorem statsOf_update (f : FunctionStats μ → FunctionStats μ) (runtime' name' : String) :
    (log.update runtime name f).statsOf runtime' name' =
      if runtime = runtime' ∧ name = name' then (log.statsOf runtime name).map f
      else log.statsOf runtime' name' := by
  cases hstats : log.statsOf runtime name with
  | none =>
      rw [update, hstats]
      dsimp only
      split_ifs with heq
      · rw [← heq.1, ← heq.2, hstats]
        rfl
      · rfl
  | some stats =>
      rw [update_eq_of_some hstats, statsOf_setStats]
      rfl

theorem bucketsOf_update {f : FunctionStats μ → FunctionStats μ}
    {g : List (FunctionBucket μ) → List (FunctionBucket μ)}
    (hf : ∀ stats, (f stats).buckets = g stats.buckets)
    (hknown : (log.statsOf runtime name).isSome) (runtime' name' : String) :
    (log.update runtime name f).bucketsOf runtime' name' =
      if runtime = runtime' ∧ name = name' then g (log.bucketsOf runtime name)
      else log.bucketsOf runtime' name' := by
  obtain ⟨stats, hstats⟩ := Option.isSome_iff_exists.mp hknown
  rw [bucketsOf, statsOf_update]
  split_ifs
  · rw [bucketsOf_eq_of_some hstats, hstats, Option.map_some, Option.map_some, Option.getD_some, hf]
  · rfl

theorem totalOf_update {f : FunctionStats μ → FunctionStats μ} {g : Counts → Counts}
    (hf : ∀ stats, (f stats).total.toCounts = g stats.total.toCounts)
    (hknown : (log.statsOf runtime name).isSome) (runtime' name' : String) :
    (log.update runtime name f).totalOf runtime' name' =
      if runtime = runtime' ∧ name = name' then g (log.totalOf runtime name)
      else log.totalOf runtime' name' := by
  obtain ⟨stats, hstats⟩ := Option.isSome_iff_exists.mp hknown
  rw [totalOf, statsOf_update]
  split_ifs
  · rw [totalOf, hstats, Option.map_some, Option.map_some, Option.map_some, Option.getD_some,
      Option.getD_some, hf]
  · rfl

theorem isSome_update (f : FunctionStats μ → FunctionStats μ) (runtime' name' : String) :
    ((log.update runtime name f).statsOf runtime' name').isSome =
      (log.statsOf runtime' name').isSome := by
  rw [statsOf_update]
  split_ifs with heq
  · rw [Option.isSome_map, heq.1, heq.2]
  · rfl

theorem mem_runtimes_of_isSome (h : (log.statsOf runtime name).isSome) :
    runtime ∈ log.runtimes := by
  by_contra hnot
  rw [statsOf, byNameOf, get_eq_none.mpr hnot] at h
  nomatch h

theorem runtimes_update (f : FunctionStats μ → FunctionStats μ) :
    (log.update runtime name f).runtimes = log.runtimes := by
  cases hstats : log.statsOf runtime name with
  | none => rw [update, hstats]
  | some stats =>
      have hknown : (log.statsOf runtime name).isSome := by
        rw [hstats]
        rfl
      rw [update_eq_of_some hstats, setStats, runtimes_setByName,
        if_pos (mem_runtimes_of_isSome hknown)]

/-! ## Buckets that go -/

/-- What the loss of old buckets of one environment leaves as it was. -/
structure Trims (runtime : String) (log log' : RequestLog μ) : Prop where
  runtimes : log'.runtimes = log.runtimes
  known : ∀ runtime' name, (log'.statsOf runtime' name).isSome = (log.statsOf runtime' name).isSome
  totals : ∀ runtime' name, log'.totalOf runtime' name = log.totalOf runtime' name
  suffix : ∀ runtime' name, log'.bucketsOf runtime' name <:+ log.bucketsOf runtime' name
  others : ∀ runtime' name, runtime ≠ runtime' →
    log'.bucketsOf runtime' name = log.bucketsOf runtime' name
  balanced : log.Balanced → log'.Balanced
  total_le : log'.functionBuckets ≤ log.functionBuckets
  held_le : ∀ runtime', log'.bucketsHeld runtime' ≤ log.bucketsHeld runtime'

theorem Trims.refl : Trims runtime log log where
  runtimes := rfl
  known _ _ := rfl
  totals _ _ := rfl
  suffix _ _ := List.suffix_rfl
  others _ _ _ := rfl
  balanced h := h
  total_le := le_rfl
  held_le _ := le_rfl

theorem Trims.trans {log'' : RequestLog μ} (h : Trims runtime log log')
    (h' : Trims runtime log' log'') : Trims runtime log log'' where
  runtimes := h'.runtimes.trans h.runtimes
  known runtime' name := (h'.known runtime' name).trans (h.known runtime' name)
  totals runtime' name := (h'.totals runtime' name).trans (h.totals runtime' name)
  suffix runtime' name := (h'.suffix runtime' name).trans (h.suffix runtime' name)
  others runtime' name hne := (h'.others runtime' name hne).trans (h.others runtime' name hne)
  balanced hlog := h'.balanced (h.balanced hlog)
  total_le := h'.total_le.trans h.total_le
  held_le runtime' := (h'.held_le runtime').trans (h.held_le runtime')

/-- Dropping the first buckets of a list, with the counters. -/
theorem trims_drop {stats : FunctionStats μ} (hstats : log.statsOf runtime name = some stats)
    {n : ℕ} (hn : n ≤ stats.buckets.length) {f : FunctionStats μ → FunctionStats μ}
    (hf : ∀ stats, f stats = { stats with buckets := stats.buckets.drop n }) {change : ℤ}
    (hchange : change = -n) :
    Trims runtime log ((log.update runtime name f).adjust runtime change) where
  runtimes := runtimes_update f
  known := isSome_update f
  totals runtime' name' := by
    change (log.update runtime name f).totalOf runtime' name' = _
    rw [totalOf_update (g := id) (fun stats => by rw [hf]; rfl) (by rw [hstats]; rfl)]
    split_ifs with heq
    · rw [heq.1, heq.2]
      rfl
    · rfl
  suffix runtime' name' := by
    change (log.update runtime name f).bucketsOf runtime' name' <:+ _
    rw [bucketsOf_update (g := List.drop n) (fun stats => by rw [hf]) (by rw [hstats]; rfl)]
    split_ifs with heq
    · rw [heq.1, heq.2]
      exact List.drop_suffix n _
    · exact List.suffix_rfl
  others runtime' name' hne := by
    change (log.update runtime name f).bucketsOf runtime' name' = _
    rw [bucketsOf_update (g := List.drop n) (fun stats => by rw [hf]) (by rw [hstats]; rfl),
      if_neg fun heq => hne heq.1]
  balanced hlog := by
    apply hlog.update_adjust hstats
    rw [hf, hchange, List.length_drop]
    omega
  total_le := by
    have hsame : (log.update runtime name f).functionBuckets = log.functionBuckets := by
      rw [update_eq_of_some hstats]
      rfl
    change (log.update runtime name f).functionBuckets + change ≤ _
    omega
  held_le runtime' := by
    have hsame : (log.update runtime name f).bucketsHeld runtime' = log.bucketsHeld runtime' := by
      rw [update_eq_of_some hstats]
      rfl
    rw [bucketsHeld_adjust, hsame]
    split_ifs <;> omega

theorem trims_dropAged (log : RequestLog μ) (runtime name : String) (minute : ℤ) :
    Trims runtime log (log.dropAged runtime name minute) := by
  unfold dropAged
  dsimp only
  split_ifs with hzero
  · exact .refl
  · cases hstats : log.statsOf runtime name with
    | none =>
        rw [hstats] at hzero
        exact absurd rfl hzero
    | some stats =>
        exact trims_drop hstats (List.takeWhile_prefix _).length_le (fun _ => rfl) rfl

/-- The row that a pass of the loop takes is not empty. -/
theorem foldl_older {filling : String} {rows : List (FunctionRow μ)}
    {oldest start : Option (FunctionRow μ)}
    (h : rows.foldl (older filling) start = oldest) :
    oldest = start ∨ ∃ row ∈ rows, oldest = some row ∧ row.stats.buckets ≠ [] := by
  induction rows generalizing start with
  | nil => exact .inl h.symm
  | cons row rows ih =>
      rcases ih h with hsame | ⟨later, hlater, hrest⟩
      · have hpass : older filling start row = start ∨
            older filling start row = some row ∧ row.stats.buckets ≠ [] := by
          unfold older
          cases hhead : row.stats.buckets.head? with
          | none => exact .inl rfl
          | some first =>
              have hne : row.stats.buckets ≠ [] := by
                intro hnil
                rw [hnil] at hhead
                nomatch hhead
              dsimp only
              split
              · exact .inl rfl
              · split
                · exact .inr ⟨rfl, hne⟩
                · split
                  · exact .inr ⟨rfl, hne⟩
                  · exact .inl rfl
        rcases hpass with hstart | ⟨htaken, hne⟩
        · exact .inl (hsame.trans hstart)
        · exact .inr ⟨row, List.mem_cons_self, hsame.trans htaken, hne⟩
      · exact .inr ⟨later, List.mem_cons_of_mem _ hlater, hrest⟩

/-- An eviction takes the first bucket of a list of the environment. -/
theorem evictOldest_eq_some {filling : String} (h : log.evictOldest runtime filling = some log') :
    ∃ name stats, log.statsOf runtime name = some stats ∧ stats.buckets ≠ [] ∧
      log' = (log.update runtime name fun stats =>
        { stats with buckets := stats.buckets.tail }).adjust runtime (-1) := by
  unfold evictOldest at h
  dsimp only at h
  cases hfold : (((log.byNameOf runtime).map Table.rows).getD []).foldl (older filling) none with
  | none =>
      rw [hfold] at h
      nomatch h
  | some oldest =>
      rw [hfold] at h
      obtain hnone | ⟨row, hrow, heq, hne⟩ := foldl_older hfold
      · nomatch hnone
      · obtain rfl := Option.some.inj heq
        refine ⟨oldest.name, oldest.stats, ?_, hne, (Option.some.inj h).symm⟩
        unfold statsOf
        cases hbyName : log.byNameOf runtime with
        | none =>
            rw [hbyName] at hrow
            nomatch hrow
        | some byName =>
            rw [hbyName] at hrow
            have hget : byName.get oldest.name = some oldest :=
              Table.get_eq_some.mpr ⟨hrow, rfl⟩
            rw [Option.bind_some, hget]
            rfl

theorem makeRoom_eq_some (h : log.makeRoom runtime name = some log') :
    (log' = log ∧ log.atCeiling runtime = false) ∨
      ∃ name stats, log.statsOf runtime name = some stats ∧ stats.buckets ≠ [] ∧
        log' = (log.update runtime name fun stats =>
          { stats with buckets := stats.buckets.tail }).adjust runtime (-1) := by
  unfold makeRoom at h
  split_ifs at h with hceiling
  · exact .inr (evictOldest_eq_some h)
  · exact .inl ⟨(Option.some.inj h).symm, Bool.eq_false_iff.mpr hceiling⟩

theorem trims_makeRoom (h : log.makeRoom runtime name = some log') : Trims runtime log log' := by
  obtain ⟨rfl, -⟩ | ⟨name, stats, hstats, hne, rfl⟩ := makeRoom_eq_some h
  · exact .refl
  · apply trims_drop hstats (n := 1) (List.length_pos_iff.mpr hne) _ rfl
    intro stats
    rw [List.drop_one]

/-- Room is made after the old buckets have gone. -/
theorem trims_room {minute : ℤ}
    (h : (log.dropAged runtime name minute).makeRoom runtime name = some log') :
    Trims runtime log log' :=
  (trims_dropAged log runtime name minute).trans (trims_makeRoom h)

/-! ## A call -/

/-- The function has its counters, with the numbers `counts` since the last deploy,
and nothing else has changed. -/
structure Enters (runtime name : String) (counts : Counts) (log entered : RequestLog μ) :
    Prop where
  room : runtime ∈ enter log.runtimes runtime
  runtimes : entered.runtimes = enter log.runtimes runtime
  known : (entered.statsOf runtime name).isSome
  buckets : ∀ runtime' name', entered.bucketsOf runtime' name' = log.bucketsOf runtime' name'
  totals : ∀ runtime' name', entered.totalOf runtime' name' =
    if runtime = runtime' ∧ name = name' then counts else log.totalOf runtime' name'
  balanced : log.Balanced → entered.Balanced
  total : entered.functionBuckets = log.functionBuckets
  held : ∀ runtime', entered.bucketsHeld runtime' = log.bucketsHeld runtime'

theorem runtimes_setStats_opened (h : log.openRuntime runtime = some log') (name : String)
    (stats : FunctionStats μ) :
    runtime ∈ enter log.runtimes runtime ∧
      (log'.setStats runtime name stats).runtimes = enter log.runtimes runtime := by
  rw [setStats, runtimes_setByName]
  obtain ⟨rfl, hmem⟩ | ⟨rfl, hnot, hroom⟩ := openRuntime_eq_some h
  · rw [enter, if_pos (.inl hmem), if_pos hmem]
    exact ⟨hmem, rfl⟩
  · have hentered : enter log.runtimes runtime = log.runtimes ++ [runtime] := by
      rw [enter, if_neg (not_or.mpr ⟨hnot, not_le.mpr hroom⟩)]
    rw [hentered, runtimes_setByName, if_neg hnot, if_pos List.mem_concat_self]
    exact ⟨List.mem_concat_self, rfl⟩

theorem counters_opened (h : log.openRuntime runtime = some log') :
    log'.functionBuckets = log.functionBuckets ∧
      ∀ runtime', log'.bucketsHeld runtime' = log.bucketsHeld runtime' := by
  obtain ⟨rfl, -⟩ | ⟨rfl, -⟩ := openRuntime_eq_some h <;> exact ⟨rfl, fun _ => rfl⟩

theorem enters_setStats (h : log.openRuntime runtime = some log') {stats : FunctionStats μ}
    (hbuckets : stats.buckets = log.bucketsOf runtime name) :
    Enters runtime name stats.total.toCounts log (log'.setStats runtime name stats) where
  room := (runtimes_setStats_opened h name stats).1
  runtimes := (runtimes_setStats_opened h name stats).2
  known := by
    rw [statsOf_setStats, if_pos ⟨rfl, rfl⟩]
    rfl
  buckets runtime' name' := by
    rw [bucketsOf, statsOf_setStats]
    split_ifs with heq
    · rw [← heq.1, ← heq.2]
      exact hbuckets
    · rw [statsOf_opened h, bucketsOf]
  totals runtime' name' := by
    rw [totalOf, statsOf_setStats]
    split_ifs with heq
    · rfl
    · rw [statsOf_opened h, totalOf]
  balanced hlog := by
    apply (hlog.opened h).setStats
    rw [hbuckets, bucketsOf, bucketsOf, statsOf_opened h]
  total := (counters_opened h).1
  held := (counters_opened h).2

theorem buckets_remember (stats : FunctionStats μ) (call : FunctionCall μ) :
    (stats.remember call).buckets = stats.buckets := by
  simp only [FunctionStats.remember]

theorem total_remember (stats : FunctionStats μ) (call : FunctionCall μ) :
    (stats.remember call).total = stats.total := by
  simp only [FunctionStats.remember]

/-- What a call may do: nothing for want of room for the environment; or join a bucket;
or be counted without one, for want of room for it; or have one made. -/
theorem recordFunction_elim {P : RequestLog μ → Prop} (d : Durations μ) {now minute : ℤ}
    {call : Arrival μ} (hminute : minute = minuteOf (call.time.getD now))
    (hfull : runtime ∉ enter log.runtimes runtime → enter log.runtimes runtime = log.runtimes →
      P log)
    (hjoin : ∀ entered, Enters runtime name (log.totalOf runtime name) log entered →
      reaches (log.bucketsOf runtime name) minute = true →
      P (entered.addCall d runtime name minute call))
    (hlost : ∀ entered, Enters runtime name (log.totalOf runtime name) log entered →
      (entered.dropAged runtime name minute).makeRoom runtime name = none →
      P ((entered.dropAged runtime name minute).update runtime name (·.count call.status)))
    (hpush : ∀ entered room, Enters runtime name (log.totalOf runtime name) log entered →
      reaches (log.bucketsOf runtime name) minute = false →
      (entered.dropAged runtime name minute).makeRoom runtime name = some room →
      P ((room.pushBucket d runtime name minute).addCall d runtime name minute call)) :
    P (log.recordFunction d now runtime name call) := by
  subst hminute
  unfold recordFunction
  cases hopen : log.openRuntime runtime with
  | none =>
      obtain ⟨hnot, hlimit⟩ := openRuntime_eq_none hopen
      have hsame : enter log.runtimes runtime = log.runtimes := by
        rw [enter, if_pos (.inr hlimit)]
      exact hfull (by rw [hsame]; exact hnot) hsame
  | some log' =>
      dsimp only
      set stats := ((log'.statsOf runtime name).getD (.fresh log'.startedAt)).remember
        ⟨call.time.getD now, call.method, shortPath call.path, call.status, d.round call.ms⟩
        with hstats
      have hbuckets : stats.buckets = log.bucketsOf runtime name := by
        rw [hstats, bucketsOf, statsOf_opened hopen, buckets_remember]
        cases log.statsOf runtime name <;> rfl
      have htotal : stats.total.toCounts = log.totalOf runtime name := by
        rw [hstats, totalOf, statsOf_opened hopen, total_remember]
        cases log.statsOf runtime name <;> rfl
      have hentered := htotal ▸ enters_setStats hopen hbuckets
      rw [hbuckets]
      split_ifs with hreaches
      · exact hjoin _ hentered hreaches
      · cases hroom : ((log'.setStats runtime name stats).dropAged runtime name
            (minuteOf (call.time.getD now))).makeRoom runtime name with
        | none => exact hlost _ hentered hroom
        | some room => exact hpush _ room hentered (Bool.eq_false_iff.mpr hreaches) hroom

/-! ## What a call does to each function -/

section

variable (d : Durations μ) {minute : ℤ} {call : Arrival μ}

theorem length_fill (buckets : List (FunctionBucket μ)) :
    (fill d buckets minute call).length = buckets.length := by
  unfold fill
  split
  · rfl
  · exact List.length_modify ..

theorem bucketsOf_addCall (hknown : (log.statsOf runtime name).isSome) (runtime' name' : String) :
    (log.addCall d runtime name minute call).bucketsOf runtime' name' =
      if runtime = runtime' ∧ name = name' then fill d (log.bucketsOf runtime name) minute call
      else log.bucketsOf runtime' name' :=
  bucketsOf_update (g := fun buckets => fill d buckets minute call) (fun _ => rfl) hknown _ _

theorem totalOf_addCall (hknown : (log.statsOf runtime name).isSome) (runtime' name' : String) :
    (log.addCall d runtime name minute call).totalOf runtime' name' =
      if runtime = runtime' ∧ name = name' then (log.totalOf runtime name).count call.status
      else log.totalOf runtime' name' :=
  totalOf_update (g := fun counts => counts.count call.status) (fun _ => rfl) hknown _ _

theorem bucketsOf_count (hknown : (log.statsOf runtime name).isSome) (status : ℤ)
    (runtime' name' : String) :
    (log.update runtime name (·.count status)).bucketsOf runtime' name' =
      log.bucketsOf runtime' name' := by
  refine (bucketsOf_update (f := (·.count status)) (g := id) (fun _ => rfl) hknown
    runtime' name').trans ?_
  split_ifs with heq
  · rw [heq.1, heq.2]
    rfl
  · rfl

theorem bucketsOf_pushBucket (hknown : (log.statsOf runtime name).isSome)
    (runtime' name' : String) :
    (log.pushBucket d runtime name minute).bucketsOf runtime' name' =
      if runtime = runtime' ∧ name = name' then log.bucketsOf runtime name ++ [.empty d minute]
      else log.bucketsOf runtime' name' :=
  bucketsOf_update (f := (·.push (.empty d minute))) (g := fun buckets => buckets ++ [_])
    (fun _ => rfl) hknown runtime' name'

theorem totalOf_pushBucket (hknown : (log.statsOf runtime name).isSome) (runtime' name' : String) :
    (log.pushBucket d runtime name minute).totalOf runtime' name' = log.totalOf runtime' name' := by
  refine (totalOf_update (f := (·.push (.empty d minute))) (g := id) (fun _ => rfl) hknown
    runtime' name').trans ?_
  split_ifs with heq
  · rw [heq.1, heq.2]
    rfl
  · rfl

theorem counters_update (f : FunctionStats μ → FunctionStats μ) :
    (log.update runtime name f).functionBuckets = log.functionBuckets ∧
      ∀ runtime', (log.update runtime name f).bucketsHeld runtime' = log.bucketsHeld runtime' := by
  unfold update
  split <;> exact ⟨rfl, fun _ => rfl⟩

end

/-- The minutes of the buckets of a function. -/
def minutesOf (log : RequestLog μ) (runtime name : String) : List ℤ :=
  (log.bucketsOf runtime name).map FunctionBucket.minute

theorem minutes_fill (d : Durations μ) (buckets : List (FunctionBucket μ)) (minute : ℤ)
    (call : Arrival μ) :
    (fill d buckets minute call).map FunctionBucket.minute = buckets.map FunctionBucket.minute := by
  unfold fill
  split
  · rfl
  · apply List.ext_getElem?
    intro i
    rw [List.getElem?_map, List.getElem?_map, List.getElem?_modify, Option.map_eq_map,
      Option.map_map]
    congr 1
    funext bucket
    rw [Function.comp_apply]
    split_ifs <;> rfl

theorem Trims.minutes (h : Trims runtime log log') (runtime' name' : String) :
    log'.minutesOf runtime' name' <:+ log.minutesOf runtime' name' :=
  (h.suffix runtime' name').map _

/-- Every list keeps the last of its minutes, and one that does not reach `minute` may
have it added. -/
def KeepsMinutes (minute : ℤ) (log log' : RequestLog μ) : Prop :=
  ∀ runtime name, log'.minutesOf runtime name <:+ log.minutesOf runtime name ∨
    reaches (log.bucketsOf runtime name) minute = false ∧
      ∃ kept, kept <:+ log.minutesOf runtime name ∧ log'.minutesOf runtime name = kept ++ [minute]

theorem minutes_recordFunction (d : Durations μ) (log : RequestLog μ) (now : ℤ)
    (runtime name : String) (call : Arrival μ) :
    KeepsMinutes (minuteOf (call.time.getD now)) log
      (log.recordFunction d now runtime name call) := by
  apply recordFunction_elim (P := KeepsMinutes (minuteOf (call.time.getD now)) log) d rfl
  case hfull =>
    intro _ _ runtime' name'
    exact .inl List.suffix_rfl
  case hjoin =>
    intro entered hentered _ runtime' name'
    refine .inl ?_
    rw [minutesOf, bucketsOf_addCall d hentered.known]
    split_ifs with heq
    · rw [minutes_fill, hentered.buckets, heq.1, heq.2]
      exact List.suffix_rfl
    · rw [hentered.buckets]
      exact List.suffix_rfl
  case hlost =>
    intro entered hentered _ runtime' name'
    have htrims := trims_dropAged entered runtime name (minuteOf (call.time.getD now))
    have hknown := (htrims.known runtime name).trans hentered.known
    refine .inl ?_
    rw [minutesOf, bucketsOf_count hknown, minutesOf, ← hentered.buckets]
    exact htrims.minutes runtime' name'
  case hpush =>
    intro entered room hentered hreaches hroom runtime' name'
    have htrims := trims_room hroom
    have hknown : (room.statsOf runtime name).isSome :=
      (htrims.known runtime name).trans hentered.known
    have hpushed : ((room.pushBucket d runtime name (minuteOf (call.time.getD now))).statsOf
        runtime name).isSome := (isSome_update _ runtime name).trans hknown
    rw [minutesOf, bucketsOf_addCall d hpushed]
    have hsuffix := htrims.minutes runtime' name'
    rw [minutesOf, minutesOf, hentered.buckets, ← minutesOf] at hsuffix
    split_ifs with heq
    · obtain ⟨rfl, rfl⟩ := heq
      refine .inr ⟨hreaches, _, hsuffix, ?_⟩
      rw [minutes_fill, bucketsOf_pushBucket d hknown, if_pos ⟨rfl, rfl⟩, List.map_append]
      rfl
    · rw [bucketsOf_pushBucket d hknown, if_neg heq]
      exact .inl hsuffix

theorem Enters.counted {entered : RequestLog μ}
    (h : Enters runtime name (log.totalOf runtime name) log entered) (status : ℤ)
    (runtime' name' : String) :
    (if runtime = runtime' ∧ name = name' then (entered.totalOf runtime name).count status
      else entered.totalOf runtime' name') =
      if (runtime = runtime' ∧ name = name') ∧ runtime ∈ enter log.runtimes runtime then
        (log.totalOf runtime name).count status
      else log.totalOf runtime' name' := by
  by_cases heq : runtime = runtime' ∧ name = name'
  · rw [if_pos heq, if_pos ⟨heq, h.room⟩, h.totals, if_pos ⟨rfl, rfl⟩]
  · rw [if_neg heq, if_neg fun h => heq h.1, h.totals, if_neg heq]

/-- A call counts for its function, if the environment has an entry. -/
theorem totalOf_recordFunction (d : Durations μ) (now : ℤ) (call : Arrival μ)
    (runtime' name' : String) :
    (log.recordFunction d now runtime name call).totalOf runtime' name' =
      if (runtime = runtime' ∧ name = name') ∧ runtime ∈ enter log.runtimes runtime then
        (log.totalOf runtime name).count call.status
      else log.totalOf runtime' name' := by
  apply recordFunction_elim (P := fun after => after.totalOf runtime' name' = _) d rfl
  case hfull =>
    intro hnot _
    rw [if_neg fun h => hnot h.2]
  case hjoin =>
    intro entered hentered _
    rw [totalOf_addCall d hentered.known]
    exact hentered.counted call.status runtime' name'
  case hlost =>
    intro entered hentered _
    have htrims := trims_dropAged entered runtime name (minuteOf (call.time.getD now))
    have hknown := (htrims.known runtime name).trans hentered.known
    rw [totalOf_update (g := fun counts => counts.count call.status) (fun _ => rfl) hknown,
      htrims.totals, htrims.totals]
    exact hentered.counted call.status runtime' name'
  case hpush =>
    intro entered room hentered _ hroom
    have htrims := trims_room hroom
    have hknown : (room.statsOf runtime name).isSome :=
      (htrims.known runtime name).trans hentered.known
    have hpushed : ((room.pushBucket d runtime name (minuteOf (call.time.getD now))).statsOf
        runtime name).isSome := (isSome_update _ runtime name).trans hknown
    rw [totalOf_addCall d hpushed, totalOf_pushBucket d hknown, totalOf_pushBucket d hknown,
      htrims.totals, htrims.totals]
    exact hentered.counted call.status runtime' name'

theorem runtimes_recordFunction (d : Durations μ) (log : RequestLog μ) (now : ℤ)
    (runtime name : String) (call : Arrival μ) :
    (log.recordFunction d now runtime name call).runtimes = enter log.runtimes runtime := by
  apply recordFunction_elim (P := fun after => after.runtimes = enter log.runtimes runtime) d rfl
  case hfull =>
    intro _ hsame
    exact hsame.symm
  case hjoin =>
    intro entered hentered _
    exact (runtimes_update _).trans hentered.runtimes
  case hlost =>
    intro entered hentered _
    exact (runtimes_update _).trans ((trims_dropAged _ _ _ _).runtimes.trans hentered.runtimes)
  case hpush =>
    intro entered room hentered _ hroom
    have hpushed : (room.pushBucket d runtime name (minuteOf (call.time.getD now))).runtimes =
        room.runtimes := runtimes_update _
    calc _ = _ := runtimes_update _
      _ = room.runtimes := hpushed
      _ = entered.runtimes := (trims_room hroom).runtimes
      _ = _ := hentered.runtimes

theorem Balanced.addCall (h : log.Balanced) (d : Durations μ) (minute : ℤ) (call : Arrival μ) :
    (log.addCall d runtime name minute call).Balanced :=
  h.update fun _ => length_fill d _

theorem Balanced.recordFunction (h : log.Balanced) (d : Durations μ) (now : ℤ)
    (runtime name : String) (call : Arrival μ) :
    (log.recordFunction d now runtime name call).Balanced := by
  apply recordFunction_elim (P := Balanced) d rfl
  case hfull => exact fun _ _ => h
  case hjoin => exact fun entered hentered _ => (hentered.balanced h).addCall d _ call
  case hlost =>
    intro entered hentered _
    exact ((trims_dropAged _ _ _ _).balanced (hentered.balanced h)).update fun _ => rfl
  case hpush =>
    intro entered room hentered _ hroom
    have htrims := trims_room hroom
    obtain ⟨stats, hstats⟩ :=
      Option.isSome_iff_exists.mp ((htrims.known runtime name).trans hentered.known)
    apply Balanced.addCall
    apply (htrims.balanced (hentered.balanced h)).update_adjust hstats
    rw [FunctionStats.push, List.length_append]
    rfl

/-! ## The ceilings -/

structure Below (log : RequestLog μ) : Prop where
  total : log.functionBuckets ≤ FUNCTION_BUCKET_CEILING
  own : ∀ runtime, log.bucketsHeld runtime ≤ FUNCTION_RUNTIME_CEILING

/-- Counters that do not grow stay below their ceilings. -/
theorem Below.of_le (h : log.Below) (htotal : log'.functionBuckets ≤ log.functionBuckets)
    (hheld : ∀ runtime, log'.bucketsHeld runtime ≤ log.bucketsHeld runtime) : log'.Below where
  total := htotal.trans h.total
  own runtime := (hheld runtime).trans (h.own runtime)

theorem Trims.below (h : Trims runtime log log') (hlog : log.Below) : log'.Below :=
  hlog.of_le h.total_le h.held_le

theorem Enters.below {counts : Counts} (h : Enters runtime name counts log log')
    (hlog : log.Below) : log'.Below :=
  hlog.of_le h.total.le fun runtime' => (h.held runtime').le

theorem Below.update (h : log.Below) (f : FunctionStats μ → FunctionStats μ) :
    (log.update runtime name f).Below :=
  h.of_le (counters_update f).1.le fun runtime' => ((counters_update f).2 runtime').le

/-- Room is room for one more. -/
theorem Below.makeRoom (h : log.Below) (hroom : log.makeRoom runtime name = some log') :
    log'.functionBuckets < FUNCTION_BUCKET_CEILING ∧
      log'.bucketsHeld runtime < FUNCTION_RUNTIME_CEILING := by
  obtain ⟨rfl, hceiling⟩ | ⟨name, stats, hstats, -, rfl⟩ := makeRoom_eq_some hroom
  · simpa [atCeiling] using hceiling
  · have htotal := h.total
    have hown := h.own runtime
    refine ⟨?_, ?_⟩
    · change (log.update runtime name _).functionBuckets + -1 < _
      rw [(counters_update _).1]
      omega
    · rw [bucketsHeld_adjust, (counters_update _).2, if_pos rfl]
      omega

theorem Below.pushBucket (h : log.Below) (htotal : log.functionBuckets < FUNCTION_BUCKET_CEILING)
    (hown : log.bucketsHeld runtime < FUNCTION_RUNTIME_CEILING) (d : Durations μ) (minute : ℤ) :
    (log.pushBucket d runtime name minute).Below where
  total := by
    change (log.update runtime name _).functionBuckets + 1 ≤ _
    rw [(counters_update _).1]
    omega
  own runtime' := by
    have hother := h.own runtime'
    rw [RequestLog.pushBucket, bucketsHeld_adjust, (counters_update _).2]
    split_ifs with heq
    · subst heq
      omega
    · omega

theorem Below.recordFunction (h : log.Below) (d : Durations μ) (now : ℤ)
    (runtime name : String) (call : Arrival μ) :
    (log.recordFunction d now runtime name call).Below := by
  apply recordFunction_elim (P := Below) d rfl
  case hfull => exact fun _ _ => h
  case hjoin => exact fun entered hentered _ => (hentered.below h).update _
  case hlost =>
    exact fun entered hentered _ => ((trims_dropAged _ _ _ _).below (hentered.below h)).update _
  case hpush =>
    intro entered room hentered _ hroom
    have hdropped : (entered.dropAged runtime name (minuteOf (call.time.getD now))).Below :=
      (trims_dropAged _ _ _ _).below (hentered.below h)
    obtain ⟨htotal, hown⟩ := hdropped.makeRoom hroom
    exact (((trims_makeRoom hroom).below hdropped).pushBucket htotal hown d _).update _

/-! ## Deploys and deletions -/

/-- A deploy starts the numbers of the function again, if the environment has an entry. -/
theorem deployedFunction_elim {P : RequestLog μ → Prop} {time : ℤ}
    (hfull : runtime ∉ enter log.runtimes runtime → enter log.runtimes runtime = log.runtimes →
      P log)
    (hentered : ∀ entered, Enters runtime name .zero log entered → P entered) :
    P (log.deployedFunction runtime name time) := by
  unfold deployedFunction
  cases hstats : log.statsOf runtime name with
  | some stats =>
      have hknown : (log.statsOf runtime name).isSome := by
        rw [hstats]
        rfl
      have hopen : log.openRuntime runtime = some log := by
        cases hget : log.functionsByRuntime.get runtime with
        | none => exact absurd (mem_runtimes_of_isSome hknown) (get_eq_none.mp hget)
        | some row => rw [openRuntime, hget]
      have hbuckets : ({ stats with total := ⟨.zero, time, true⟩ } : FunctionStats μ).buckets =
          log.bucketsOf runtime name := (bucketsOf_eq_of_some hstats).symm
      exact hentered _ (enters_setStats hopen hbuckets)
  | none =>
      cases hopen : log.openRuntime runtime with
      | none =>
          obtain ⟨hnot, hlimit⟩ := openRuntime_eq_none hopen
          have hsame : enter log.runtimes runtime = log.runtimes := by
            rw [enter, if_pos (.inr hlimit)]
          exact hfull (by rw [hsame]; exact hnot) hsame
      | some log' =>
          have hbuckets : (⟨[], [], ⟨.zero, time, true⟩⟩ : FunctionStats μ).buckets =
              log.bucketsOf runtime name := by
            rw [bucketsOf, hstats]
            rfl
          exact hentered _ (enters_setStats hopen hbuckets)

theorem forgetFunction_eq_of_none (h : log.statsOf runtime name = none) :
    log.forgetFunction runtime name = log := by
  rw [forgetFunction, h]

/-- The counters go down by the length of the list that goes. -/
theorem forgetFunction_eq_of_some {stats : FunctionStats μ}
    (h : log.statsOf runtime name = some stats) :
    log.forgetFunction runtime name =
      (log.deleteStats runtime name).adjust runtime (-stats.buckets.length) := by
  rw [forgetFunction, h]
  rfl

theorem statsOf_forgetFunction (runtime' name' : String) :
    (log.forgetFunction runtime name).statsOf runtime' name' =
      if runtime = runtime' ∧ name = name' then none else log.statsOf runtime' name' := by
  cases hstats : log.statsOf runtime name with
  | none =>
      rw [forgetFunction_eq_of_none hstats]
      split_ifs with heq
      · rw [← heq.1, ← heq.2, hstats]
      · rfl
  | some stats =>
      rw [forgetFunction_eq_of_some hstats]
      exact statsOf_deleteStats log runtime name runtime' name'

theorem runtimes_forgetFunction : (log.forgetFunction runtime name).runtimes = log.runtimes := by
  cases hstats : log.statsOf runtime name with
  | none => rw [forgetFunction_eq_of_none hstats]
  | some stats =>
      have hknown : (log.statsOf runtime name).isSome := by
        rw [hstats]
        rfl
      rw [forgetFunction_eq_of_some hstats]
      change (log.deleteStats runtime name).runtimes = _
      rw [deleteStats, runtimes_setByName, if_pos (mem_runtimes_of_isSome hknown)]

theorem Balanced.forgetFunction (h : log.Balanced) (runtime name : String) :
    (log.forgetFunction runtime name).Balanced := by
  cases hstats : log.statsOf runtime name with
  | none =>
      rw [forgetFunction_eq_of_none hstats]
      exact h
  | some stats =>
      rw [forgetFunction_eq_of_some hstats]
      apply h.setByName_adjust
      rw [held_keep, bucketsOf_eq_of_some hstats]
      omega

theorem Below.forgetFunction (h : log.Below) (runtime name : String) :
    (log.forgetFunction runtime name).Below := by
  cases hstats : log.statsOf runtime name with
  | none =>
      rw [forgetFunction_eq_of_none hstats]
      exact h
  | some stats =>
      rw [forgetFunction_eq_of_some hstats]
      apply h.of_le
      · change log.functionBuckets + _ ≤ _
        omega
      · intro runtime'
        rw [bucketsHeld_adjust]
        change log.bucketsHeld runtime' + _ ≤ _
        split_ifs <;> omega

/-! ## A call with room for its bucket -/

theorem atCeiling_eq_false :
    log.atCeiling runtime = false ↔ log.functionBuckets < FUNCTION_BUCKET_CEILING ∧
      log.bucketsHeld runtime < FUNCTION_RUNTIME_CEILING := by
  simp [atCeiling]

theorem bucketsOf_dropAged (hknown : (log.statsOf runtime name).isSome) (minute : ℤ)
    (runtime' name' : String) :
    (log.dropAged runtime name minute).bucketsOf runtime' name' =
      if runtime = runtime' ∧ name = name' then
        (log.bucketsOf runtime name).drop (aged (log.bucketsOf runtime name) minute)
      else log.bucketsOf runtime' name' := by
  obtain ⟨stats, hstats⟩ := Option.isSome_iff_exists.mp hknown
  unfold dropAged
  rw [hstats, Option.map_some, Option.getD_some, bucketsOf_eq_of_some hstats]
  dsimp only
  by_cases hzero : aged stats.buckets minute = 0
  · rw [if_pos hzero, hzero, List.drop_zero]
    split_ifs with heq
    · rw [← heq.1, ← heq.2, bucketsOf_eq_of_some hstats]
    · rfl
  · rw [if_neg hzero, ← bucketsOf_eq_of_some hstats]
    exact bucketsOf_update (g := List.drop _) (fun _ => rfl) hknown runtime' name'

/-- The list of the function after a call: the bucket of its minute is there or is made. -/
def filled (d : Durations μ) (buckets : List (FunctionBucket μ)) (minute : ℤ) (call : Arrival μ) :
    List (FunctionBucket μ) :=
  fill d (if reaches buckets minute then buckets
    else buckets.drop (aged buckets minute) ++ [.empty d minute]) minute call

theorem bucketsOf_recordFunction (d : Durations μ) (now : ℤ) (call : Arrival μ)
    (hroom : log.atCeiling runtime = false) (runtime' name' : String) :
    (log.recordFunction d now runtime name call).bucketsOf runtime' name' =
      if (runtime = runtime' ∧ name = name') ∧ runtime ∈ enter log.runtimes runtime then
        filled d (log.bucketsOf runtime name) (minuteOf (call.time.getD now)) call
      else log.bucketsOf runtime' name' := by
  obtain ⟨htotal, hheld⟩ := atCeiling_eq_false.mp hroom
  have hmake : ∀ entered, Enters runtime name (log.totalOf runtime name) log entered →
      ∀ minute, (entered.dropAged runtime name minute).makeRoom runtime name =
        some (entered.dropAged runtime name minute) := by
    intro entered hentered minute
    have htrims := trims_dropAged entered runtime name minute
    have hdropped : (entered.dropAged runtime name minute).atCeiling runtime = false := by
      rw [atCeiling_eq_false]
      have h := htrims.total_le
      have h' := htrims.held_le runtime
      rw [hentered.total] at h
      rw [hentered.held] at h'
      exact ⟨h.trans_lt htotal, h'.trans_lt hheld⟩
    rw [makeRoom, hdropped, if_neg Bool.false_ne_true]
  apply recordFunction_elim (P := fun after => after.bucketsOf runtime' name' = _) d rfl
  case hfull =>
    intro hnot _
    rw [if_neg fun h => hnot h.2]
  case hjoin =>
    intro entered hentered hreaches
    rw [bucketsOf_addCall d hentered.known, hentered.buckets, hentered.buckets, filled,
      if_pos hreaches]
    by_cases heq : runtime = runtime' ∧ name = name'
    · rw [if_pos heq, if_pos ⟨heq, hentered.room⟩]
    · rw [if_neg heq, if_neg fun h => heq h.1]
  case hlost =>
    intro entered hentered hnone
    rw [hmake entered hentered] at hnone
    nomatch hnone
  case hpush =>
    intro entered room hentered hreaches hsome
    rw [hmake entered hentered] at hsome
    obtain rfl := Option.some.inj hsome
    have htrims := trims_dropAged entered runtime name (minuteOf (call.time.getD now))
    have hknown := (htrims.known runtime name).trans hentered.known
    have hpushed : (((entered.dropAged runtime name (minuteOf (call.time.getD now))).pushBucket d
        runtime name (minuteOf (call.time.getD now))).statsOf runtime name).isSome :=
      (isSome_update _ runtime name).trans hknown
    rw [bucketsOf_addCall d hpushed]
    by_cases heq : runtime = runtime' ∧ name = name'
    · rw [if_pos heq, if_pos ⟨heq, hentered.room⟩, bucketsOf_pushBucket d hknown,
        if_pos ⟨rfl, rfl⟩, bucketsOf_dropAged hentered.known, if_pos ⟨rfl, rfl⟩,
        hentered.buckets, filled, hreaches, if_neg Bool.false_ne_true]
    · rw [if_neg heq, if_neg fun h => heq h.1, bucketsOf_pushBucket d hknown, if_neg heq,
        bucketsOf_dropAged hentered.known, if_neg heq, hentered.buckets]

/-- A call leaves the buckets of other environments, whatever the counters say. -/
theorem bucketsOf_recordFunction_of_ne (d : Durations μ) (now : ℤ) (call : Arrival μ)
    {runtime' : String} (hne : runtime ≠ runtime') (name' : String) :
    (log.recordFunction d now runtime name call).bucketsOf runtime' name' =
      log.bucketsOf runtime' name' := by
  have hother : ¬ (runtime = runtime' ∧ name = name') := fun h => hne h.1
  apply recordFunction_elim
    (P := fun after => after.bucketsOf runtime' name' = log.bucketsOf runtime' name') d rfl
  case hfull => exact fun _ _ => rfl
  case hjoin =>
    intro entered hentered _
    rw [bucketsOf_addCall d hentered.known, if_neg hother, hentered.buckets]
  case hlost =>
    intro entered hentered _
    have htrims := trims_dropAged entered runtime name (minuteOf (call.time.getD now))
    have hknown := (htrims.known runtime name).trans hentered.known
    rw [bucketsOf_count hknown, htrims.others _ _ hne, hentered.buckets]
  case hpush =>
    intro entered room hentered _ hroom
    have htrims := trims_room hroom
    have hknown : (room.statsOf runtime name).isSome :=
      (htrims.known runtime name).trans hentered.known
    have hpushed : ((room.pushBucket d runtime name (minuteOf (call.time.getD now))).statsOf
        runtime name).isSome := (isSome_update _ runtime name).trans hknown
    rw [bucketsOf_addCall d hpushed, if_neg hother, bucketsOf_pushBucket d hknown, if_neg hother,
      htrims.others _ _ hne, hentered.buckets]

theorem bucketsOf_forgetFunction (runtime' name' : String) :
    (log.forgetFunction runtime name).bucketsOf runtime' name' =
      if runtime = runtime' ∧ name = name' then [] else log.bucketsOf runtime' name' := by
  rw [bucketsOf, statsOf_forgetFunction]
  split_ifs <;> rfl

theorem totalOf_forgetFunction (runtime' name' : String) :
    (log.forgetFunction runtime name).totalOf runtime' name' =
      if runtime = runtime' ∧ name = name' then .zero else log.totalOf runtime' name' := by
  rw [totalOf, statsOf_forgetFunction]
  split_ifs <;> rfl

theorem bucketsOf_deployedFunction (time : ℤ) (runtime' name' : String) :
    (log.deployedFunction runtime name time).bucketsOf runtime' name' =
      log.bucketsOf runtime' name' := by
  apply deployedFunction_elim
    (P := fun after => after.bucketsOf runtime' name' = log.bucketsOf runtime' name')
  case hfull => exact fun _ _ => rfl
  case hentered => exact fun entered hentered => hentered.buckets runtime' name'

theorem runtimes_deployedFunction (time : ℤ) :
    (log.deployedFunction runtime name time).runtimes = enter log.runtimes runtime := by
  apply deployedFunction_elim (P := fun after => after.runtimes = enter log.runtimes runtime)
  case hfull => exact fun _ hsame => hsame.symm
  case hentered => exact fun entered hentered => hentered.runtimes

theorem totalOf_of_not_mem (h : runtime ∉ log.runtimes) (name : String) :
    log.totalOf runtime name = .zero := by
  rw [totalOf, statsOf, byNameOf, get_eq_none.mpr h]
  rfl

theorem totalOf_deployedFunction (time : ℤ) (runtime' name' : String) :
    (log.deployedFunction runtime name time).totalOf runtime' name' =
      if runtime = runtime' ∧ name = name' then .zero else log.totalOf runtime' name' := by
  apply deployedFunction_elim (P := fun after => after.totalOf runtime' name' = _)
  case hfull =>
    intro hnot hsame
    rw [hsame] at hnot
    split_ifs with heq
    · rw [← heq.1]
      exact totalOf_of_not_mem hnot name'
    · rfl
  case hentered => exact fun entered hentered => hentered.totals runtime' name'

/-! ## What every log keeps -/

/-- The counters agree with the lists, stay below their ceilings, and the lists are in order. -/
structure Kept (log : RequestLog μ) : Prop where
  balanced : log.Balanced
  below : log.Below
  ordered : ∀ runtime name, (log.minutesOf runtime name).Pairwise (· < ·)

/-- A minute that a list does not reach is later than all of its minutes. -/
theorem lt_of_reaches_eq_false {buckets : List (FunctionBucket μ)} {minute : ℤ}
    (h : reaches buckets minute = false)
    (hordered : (buckets.map FunctionBucket.minute).Pairwise (· < ·)) :
    ∀ m ∈ buckets.map FunctionBucket.minute, m < minute := by
  rcases List.eq_nil_or_concat buckets with rfl | ⟨init, last, rfl⟩
  · intro m hm
    nomatch hm
  · rw [List.concat_eq_append] at h hordered ⊢
    have hlast : last.minute < minute := by
      simpa [reaches] using h
    rw [List.map_append, List.pairwise_append] at hordered
    intro m hm
    rw [List.map_append, List.mem_append] at hm
    rcases hm with hinit | hsame
    · exact (hordered.2.2 m hinit last.minute List.mem_cons_self).trans hlast
    · rw [List.mem_singleton.mp hsame]
      exact hlast

theorem kept_new (startedAt : ℤ) : (new startedAt : RequestLog μ).Kept where
  balanced := ⟨rfl, fun _ => rfl⟩
  below := by
    have htotal : (0 : ℤ) ≤ FUNCTION_BUCKET_CEILING := by decide
    have hown : (0 : ℤ) ≤ FUNCTION_RUNTIME_CEILING := by decide
    exact ⟨htotal, fun _ => hown⟩
  ordered _ _ := List.Pairwise.nil

theorem Kept.recordFunction (h : log.Kept) (d : Durations μ) (now : ℤ) (runtime name : String)
    (call : Arrival μ) : (log.recordFunction d now runtime name call).Kept where
  balanced := h.balanced.recordFunction d now runtime name call
  below := h.below.recordFunction d now runtime name call
  ordered runtime' name' := by
    have hold := h.ordered runtime' name'
    rcases minutes_recordFunction d log now runtime name call runtime' name' with
      hsuffix | ⟨hreaches, kept, hsuffix, heq⟩
    · exact hold.sublist hsuffix.sublist
    · rw [heq, List.pairwise_append]
      refine ⟨hold.sublist hsuffix.sublist, List.pairwise_singleton _ _, ?_⟩
      intro m hm last hlast
      rw [List.mem_singleton.mp hlast]
      exact lt_of_reaches_eq_false hreaches hold m (hsuffix.subset hm)

theorem Kept.deployedFunction (h : log.Kept) (runtime name : String) (time : ℤ) :
    (log.deployedFunction runtime name time).Kept := by
  apply deployedFunction_elim (P := Kept)
  case hfull => exact fun _ _ => h
  case hentered =>
    intro entered hentered
    refine ⟨hentered.balanced h.balanced, hentered.below h.below, fun runtime' name' => ?_⟩
    rw [minutesOf, hentered.buckets]
    exact h.ordered runtime' name'

theorem Kept.forgetFunction (h : log.Kept) (runtime name : String) :
    (log.forgetFunction runtime name).Kept where
  balanced := h.balanced.forgetFunction runtime name
  below := h.below.forgetFunction runtime name
  ordered runtime' name' := by
    rw [minutesOf, bucketsOf_forgetFunction]
    split_ifs
    · exact List.Pairwise.nil
    · exact h.ordered runtime' name'

end RequestLog

theorem kept_run (d : Durations μ) (startedAt : ℤ) (events : List (Event μ)) :
    ((requestLog d startedAt).run events).Kept := by
  apply (requestLog d startedAt).run_invariant (RequestLog.kept_new startedAt)
  intro log e h
  cases e with
  | recorded now runtime name call => exact h.recordFunction d now runtime name call
  | deployed runtime name time => exact h.deployedFunction runtime name time
  | forgotten runtime name => exact h.forgetFunction runtime name

/-! ## What a log says of the events so far -/

theorem tracked_snoc (past : List (Event μ)) (e : Event μ) :
    tracked (past ++ [e]) = track (tracked past) e := by
  rw [tracked, List.foldl_append]
  rfl

theorem recordedSince_snoc (ends : Event μ → Bool) (runtime name : String)
    (past : List (Event μ)) (e : Event μ) :
    recordedSince ends runtime name (past ++ [e]) =
      if ends e then []
      else if runtime ∈ track (tracked past) e then
        recordedSince ends runtime name past ++ e.answered runtime name
      else recordedSince ends runtime name past := by
  have hseen : ∀ (events : List (Event μ)) (state : List String × List Answered),
      (events.foldl (fun (state : List String × List Answered) e =>
        (track state.1 e,
          if ends e then []
          else if runtime ∈ track state.1 e then state.2 ++ e.answered runtime name
          else state.2)) state).1 = events.foldl track state.1 := by
    intro events
    induction events with
    | nil => exact fun _ => rfl
    | cons first events ih => exact fun state => ih _
  rw [recordedSince, List.foldl_append, List.foldl_cons, List.foldl_nil]
  dsimp only
  rw [hseen past ([], []), ← tracked]
  rfl

/-- An event that is no call of the function adds none. -/
theorem recordedSince_of_answered_nil {ends : Event μ → Bool} {runtime name : String}
    {past : List (Event μ)} {e : Event μ} (hends : ends e = false)
    (hanswered : e.answered runtime name = []) :
    recordedSince ends runtime name (past ++ [e]) = recordedSince ends runtime name past := by
  rw [recordedSince_snoc, hends, if_neg Bool.false_ne_true, hanswered, List.append_nil, ite_self]

/-- The environments, the numbers since the last deploy and the minutes are those of the events. -/
structure Follows (past : List (Event μ)) (log : RequestLog μ) : Prop where
  runtimes : log.runtimes = tracked past
  totals : ∀ runtime name (kind : Kind), kind.of (log.totalOf runtime name) =
    (sinceDeploy runtime name past).countP fun call => kind.has call.status
  minutes : ∀ runtime name, ∀ minute ∈ log.minutesOf runtime name,
    ∃ time ∈ past.filterMap Event.time, minute = minuteOf time

/-- A call of a function whose environment has an entry is recorded for the function. -/
theorem recordedSince_recorded {ends : Event μ → Bool} {now : ℤ} {runtime name : String}
    {call : Arrival μ} (hends : ends (.recorded now runtime name call) = false)
    (runtime' name' : String) (past : List (Event μ)) :
    recordedSince ends runtime' name' (past ++ [.recorded now runtime name call]) =
      if (runtime = runtime' ∧ name = name') ∧ runtime ∈ enter (tracked past) runtime then
        recordedSince ends runtime' name' past ++ [⟨call.time.getD now, call.status⟩]
      else recordedSince ends runtime' name' past := by
  by_cases heq : runtime = runtime' ∧ name = name'
  · obtain ⟨rfl, rfl⟩ := heq
    have hanswered : (Event.recorded now runtime name call).answered runtime name =
        [⟨call.time.getD now, call.status⟩] := if_pos ⟨rfl, rfl⟩
    have htrack : track (tracked past) (Event.recorded now runtime name call) =
        enter (tracked past) runtime := rfl
    rw [recordedSince_snoc, hends, if_neg Bool.false_ne_true, hanswered, htrack]
    by_cases hroom : runtime ∈ enter (tracked past) runtime
    · rw [if_pos hroom, if_pos ⟨⟨rfl, rfl⟩, hroom⟩]
    · rw [if_neg hroom, if_neg fun h => hroom h.2]
  · rw [if_neg fun h => heq h.1]
    exact recordedSince_of_answered_nil hends (if_neg heq)

namespace Follows

variable {past : List (Event μ)} {log : RequestLog μ}

theorem times_subset (past : List (Event μ)) (e : Event μ) :
    past.filterMap Event.time ⊆ (past ++ [e]).filterMap Event.time := by
  rw [List.filterMap_append]
  exact List.subset_append_left _ _

theorem recorded (h : Follows past log) (d : Durations μ) (now : ℤ) (runtime name : String)
    (call : Arrival μ) :
    Follows (past ++ [.recorded now runtime name call])
      (log.recordFunction d now runtime name call) where
  runtimes := by
    rw [RequestLog.runtimes_recordFunction, h.runtimes, tracked_snoc]
    rfl
  totals runtime' name' kind := by
    have hold := h.totals runtime' name' kind
    rw [RequestLog.totalOf_recordFunction, h.runtimes, sinceDeploy, recordedSince_recorded rfl,
      ← sinceDeploy]
    by_cases heq : (runtime = runtime' ∧ name = name') ∧ runtime ∈ enter (tracked past) runtime
    · rw [if_pos heq, if_pos heq, heq.1.1, heq.1.2, kind.of_count, hold, List.countP_append,
        List.countP_singleton]
    · rw [if_neg heq, if_neg heq]
      exact hold
  minutes runtime' name' minute hminute := by
    have hlast : call.time.getD now ∈
        (past ++ [Event.recorded now runtime name call]).filterMap Event.time := by
      rw [List.filterMap_append]
      exact List.mem_append_right _ List.mem_cons_self
    have hold : ∀ m ∈ log.minutesOf runtime' name', ∃ time ∈
        (past ++ [Event.recorded now runtime name call]).filterMap Event.time,
        m = minuteOf time := by
      intro m hm
      obtain ⟨time, htime, heq⟩ := h.minutes runtime' name' m hm
      exact ⟨time, times_subset past _ htime, heq⟩
    rcases RequestLog.minutes_recordFunction d log now runtime name call runtime' name' with
      hsuffix | ⟨-, kept, hsuffix, heq⟩
    · exact hold minute (hsuffix.subset hminute)
    · rw [heq, List.mem_append] at hminute
      rcases hminute with hkept | hnew
      · exact hold minute (hsuffix.subset hkept)
      · exact ⟨_, hlast, List.mem_singleton.mp hnew⟩

/-- An event that leaves the minutes where they are. -/
theorem minutes_of_subset {log' : RequestLog μ} (h : Follows past log) (e : Event μ)
    (hsubset : ∀ runtime name, log'.minutesOf runtime name ⊆ log.minutesOf runtime name) :
    ∀ runtime name, ∀ minute ∈ log'.minutesOf runtime name,
      ∃ time ∈ (past ++ [e]).filterMap Event.time, minute = minuteOf time := by
  intro runtime name minute hminute
  obtain ⟨time, htime, heq⟩ := h.minutes runtime name minute (hsubset runtime name hminute)
  exact ⟨time, times_subset past e htime, heq⟩

theorem deployed (h : Follows past log) (runtime name : String) (time : ℤ) :
    Follows (past ++ [.deployed runtime name time])
      (log.deployedFunction runtime name time) where
  runtimes := by
    rw [RequestLog.runtimes_deployedFunction, h.runtimes, tracked_snoc]
    rfl
  totals runtime' name' kind := by
    rw [RequestLog.totalOf_deployedFunction]
    split_ifs with heq
    · rw [sinceDeploy, recordedSince_snoc, if_pos, kind.of_zero]
      · rfl
      · simp [Event.deploys, heq]
    · rw [sinceDeploy, recordedSince_of_answered_nil _ rfl]
      · exact h.totals runtime' name' kind
      · simpa [Event.deploys, Event.forgets] using heq
  minutes := h.minutes_of_subset _ fun runtime' name' => by
    rw [RequestLog.minutesOf, RequestLog.bucketsOf_deployedFunction]
    exact List.Subset.refl _

theorem forgotten (h : Follows past log) (runtime name : String) :
    Follows (past ++ [.forgotten runtime name]) (log.forgetFunction runtime name) where
  runtimes := by
    rw [RequestLog.runtimes_forgetFunction, h.runtimes, tracked_snoc]
    rfl
  totals runtime' name' kind := by
    rw [RequestLog.totalOf_forgetFunction]
    split_ifs with heq
    · rw [sinceDeploy, recordedSince_snoc, if_pos, kind.of_zero]
      · rfl
      · simp [Event.forgets, heq]
    · rw [sinceDeploy, recordedSince_of_answered_nil _ rfl]
      · exact h.totals runtime' name' kind
      · simpa [Event.deploys, Event.forgets] using heq
  minutes := h.minutes_of_subset _ fun runtime' name' => by
    rw [RequestLog.minutesOf, RequestLog.bucketsOf_forgetFunction]
    split_ifs
    · exact List.nil_subset _
    · exact List.Subset.refl _

end Follows

theorem follows_run (d : Durations μ) (startedAt : ℤ) (events : List (Event μ)) :
    Follows events ((requestLog d startedAt).run events) := by
  apply (requestLog d startedAt).run_past (I := Follows) (C := fun _ => True) (fun _ _ h => h)
  case hinit => exact ⟨rfl, fun _ _ kind => kind.of_zero, fun _ _ _ hm => (nomatch hm)⟩
  case hC => trivial
  case hstep =>
    intro past e _ h
    cases e with
    | recorded now runtime name call => exact h.recorded d now runtime name call
    | deployed runtime name time => exact h.deployed runtime name time
    | forgotten runtime name => exact h.forgotten runtime name

/-! ## The calls of a minute -/

/-- Buckets that count the calls of every minute from which on none has been dropped. -/
def Tallied (buckets : List (FunctionBucket μ)) (calls : List Answered) : Prop :=
  ∀ minute, (∀ call ∈ calls, minuteOf call.time < minute + FUNCTION_MINUTES) → ∀ kind : Kind,
    weigh (fun bucket => kind.of bucket.toCounts) (fun bucket => bucket.minute = minute) buckets =
      weigh (fun call => if kind.has call.status then 1 else 0)
        (fun call => minuteOf call.time = minute) calls

theorem tallied_nil : Tallied ([] : List (FunctionBucket μ)) [] := fun _ _ _ => rfl

theorem fill_concat (d : Durations μ) (init : List (FunctionBucket μ)) (last : FunctionBucket μ)
    (call : Arrival μ) :
    fill d (init ++ [last]) last.minute call = init ++ [last.add d call] := by
  have hlast : bucketAt (init ++ [last]) last.minute = some init.length := by
    simp [bucketAt]
  rw [fill, hlast]
  dsimp only
  rw [List.modify_eq_take_cons_drop (by simp)]
  simp

/-- The list a call is filled into ends with the bucket of its minute, and has lost only
what is too old beside it. -/
theorem filled_eq (d : Durations μ) {buckets : List (FunctionBucket μ)} {minute : ℤ}
    (hlast : ∀ last ∈ buckets.getLast?, last.minute ≤ minute) (call : Arrival μ) :
    ∃ (init : List (FunctionBucket μ)) (last : FunctionBucket μ),
      RequestLog.filled d buckets minute call = init ++ [last.add d call] ∧ last.minute = minute ∧
        ∀ m, minute < m + FUNCTION_MINUTES → ∀ kind : Kind,
          weigh (fun bucket => kind.of bucket.toCounts) (fun bucket => bucket.minute = m)
              (init ++ [last]) =
            weigh (fun bucket => kind.of bucket.toCounts) (fun bucket => bucket.minute = m)
              buckets := by
  cases hreaches : reaches buckets minute with
  | true =>
      obtain ⟨last, hget, hle⟩ := (Option.any_eq_true _ _).mp hreaches
      have hsame : last.minute = minute := le_antisymm (hlast last hget) (of_decide_eq_true hle)
      obtain ⟨init, rfl⟩ := List.getLast?_eq_some_iff.mp hget
      refine ⟨init, last, ?_, hsame, fun _ _ _ => rfl⟩
      rw [RequestLog.filled, hreaches, if_pos rfl, ← hsame, fill_concat]
  | false =>
      refine ⟨buckets.drop (aged buckets minute), .empty d minute, ?_, rfl, ?_⟩
      · rw [RequestLog.filled, hreaches, if_neg Bool.false_ne_true]
        exact fill_concat d _ (.empty d minute) call
      · intro m hm kind
        have htaken : weigh (fun bucket => kind.of bucket.toCounts)
            (fun bucket => bucket.minute = m) (buckets.take (aged buckets minute)) = 0 := by
          rw [aged, ← List.prefix_iff_eq_take.mp (List.takeWhile_prefix _)]
          apply weigh_eq_zero
          intro bucket hbucket hm'
          have hold := of_decide_eq_true (List.mem_takeWhile_imp
            (p := fun bucket : FunctionBucket μ => bucket.minute ≤ minute - FUNCTION_MINUTES)
            hbucket)
          rw [of_decide_eq_true hm'] at hold
          omega
        have hempty : kind.of (FunctionBucket.empty d minute).toCounts = 0 := kind.of_zero
        calc _ = weigh _ _ (buckets.drop (aged buckets minute)) := by
              rw [weigh_append, weigh_cons, hempty, ite_self]
              rfl
          _ = weigh _ _ (buckets.take (aged buckets minute) ++
                buckets.drop (aged buckets minute)) := by rw [weigh_append, htaken, Nat.zero_add]
          _ = _ := by rw [List.take_append_drop]

theorem Tallied.call {buckets : List (FunctionBucket μ)} {calls : List Answered}
    (h : Tallied buckets calls) (d : Durations μ) {time : ℤ}
    (hlast : ∀ last ∈ buckets.getLast?, last.minute ≤ minuteOf time) (call : Arrival μ) :
    Tallied (RequestLog.filled d buckets (minuteOf time) call)
      (calls ++ [⟨time, call.status⟩]) := by
  intro minute hcalls kind
  obtain ⟨init, last, hfilled, hminute, hweigh⟩ := filled_eq d hlast call
  have hnew : minuteOf time < minute + FUNCTION_MINUTES :=
    hcalls ⟨time, call.status⟩ (List.mem_append_right _ List.mem_cons_self)
  have hold := h minute (fun other hother => hcalls other (List.mem_append_left _ hother)) kind
  have hbefore := hweigh minute hnew kind
  have hadd : kind.of (last.add d call).toCounts =
      kind.of last.toCounts + if kind.has call.status then 1 else 0 := kind.of_count _ _
  have hkeep : (last.add d call).minute = last.minute := rfl
  rw [hfilled, weigh_append, weigh_append, ← hold, ← hbefore, weigh_append, weigh_cons, weigh_cons,
    weigh_cons, hadd, hkeep, hminute]
  simp only [weigh_nil, decide_eq_true_eq]
  split_ifs <;> omega

/-! ## A run with room -/

/-- A call in the environment finds both counters of buckets below their ceilings. -/
def HasRoom (runtime : String) (log : RequestLog μ) : Event μ → Prop
  | .recorded _ runtime' _ _ => runtime' = runtime → log.atCeiling runtime = false
  | _ => True

instance (runtime : String) (log : RequestLog μ) (e : Event μ) :
    Decidable (HasRoom runtime log e) := by
  cases e with
  | recorded now runtime' name call =>
      exact inferInstanceAs (Decidable (runtime' = runtime → log.atCeiling runtime = false))
  | deployed runtime' name time => exact inferInstanceAs (Decidable True)
  | forgotten runtime' name => exact inferInstanceAs (Decidable True)

/-- One event at a time not before the earlier ones. -/
theorem tallied_step (d : Durations μ) (runtime : String) {past : List (Event μ)} {e : Event μ}
    {log : RequestLog μ} (hfollows : Follows past log)
    (htimes : ((past ++ [e]).filterMap Event.time).Pairwise (· ≤ ·))
    (hroom : HasRoom runtime log e)
    (h : ∀ name, Tallied (log.bucketsOf runtime name) (sinceForget runtime name past))
    (name : String) (startedAt : ℤ) :
    Tallied (((requestLog d startedAt).step log e).bucketsOf runtime name)
      (sinceForget runtime name (past ++ [e])) := by
  cases e with
  | recorded now runtime' name' call =>
      change Tallied ((log.recordFunction d now runtime' name' call).bucketsOf runtime name) _
      rw [sinceForget, recordedSince_recorded rfl, ← sinceForget, ← hfollows.runtimes]
      by_cases hruntime : runtime' = runtime
      · rw [RequestLog.bucketsOf_recordFunction d now call (hruntime ▸ hroom hruntime)]
        split_ifs with heq
        · obtain ⟨⟨rfl, rfl⟩, -⟩ := heq
          apply (h name').call
          intro last hlast
          -- the last bucket is of the minute of an earlier call
          have hminute : last.minute ∈ log.minutesOf runtime' name' :=
            List.mem_map_of_mem (List.mem_of_getLast? hlast)
          obtain ⟨time, htime, heq⟩ := hfollows.minutes runtime' name' _ hminute
          rw [List.filterMap_append, List.pairwise_append] at htimes
          have hle : time ≤ call.time.getD now := htimes.2.2 time htime _ List.mem_cons_self
          rw [heq]
          exact Int.ediv_le_ediv (by decide) hle
        · exact h name
      · rw [RequestLog.bucketsOf_recordFunction_of_ne d now call hruntime,
          if_neg fun heq => hruntime heq.1.1]
        exact h name
  | deployed runtime' name' time =>
      change Tallied ((log.deployedFunction runtime' name' time).bucketsOf runtime name) _
      rw [RequestLog.bucketsOf_deployedFunction, sinceForget, recordedSince_of_answered_nil rfl rfl]
      exact h name
  | forgotten runtime' name' =>
      change Tallied ((log.forgetFunction runtime' name').bucketsOf runtime name) _
      rw [RequestLog.bucketsOf_forgetFunction]
      split_ifs with heq
      · rw [sinceForget, recordedSince_snoc, if_pos]
        · exact tallied_nil
        · simp [Event.forgets, heq]
      · rw [sinceForget, recordedSince_of_answered_nil _ rfl]
        · exact h name
        · simpa [Event.forgets] using heq

theorem tallied_run (d : Durations μ) (startedAt : ℤ) (runtime : String) {events : List (Event μ)}
    (htimes : (events.filterMap Event.time).Pairwise (· ≤ ·))
    (hroom : (requestLog d startedAt).Along (HasRoom runtime) (requestLog d startedAt).initial
      events) (name : String) :
    Tallied (((requestLog d startedAt).run events).bucketsOf runtime name)
      (sinceForget runtime name events) := by
  refine (requestLog d startedAt).run_past
    (I := fun past log => ∀ name, Tallied (log.bucketsOf runtime name)
      (sinceForget runtime name past))
    (C := fun past => (past.filterMap Event.time).Pairwise (· ≤ ·) ∧
      (requestLog d startedAt).Along (HasRoom runtime) (requestLog d startedAt).initial past)
    ?_ (fun _ => tallied_nil) ?_ events ⟨htimes, hroom⟩ name
  · rintro past e ⟨htimes, hroom⟩
    rw [List.filterMap_append, List.pairwise_append] at htimes
    exact ⟨htimes.1, (((requestLog d startedAt).along_append _ _ _).mp hroom).1⟩
  · rintro past e ⟨htimes, hroom⟩ h name
    have hlast := (((requestLog d startedAt).along_append _ _ _).mp hroom).2.1
    exact tallied_step d runtime (follows_run d startedAt past) htimes hlast h name startedAt

/-! ## What the log answers -/

/-- The minute is one of the range that ends now. -/
def InRange (now : ℤ) (range : FunctionRange) (minute : ℤ) : Prop :=
  minuteOf now - range.minutes < minute ∧ minute ≤ minuteOf now

/-- The minute is one of those the point stands for. -/
def Covers (now : ℤ) (range : FunctionRange) (point : FunctionPoint μ) (minute : ℤ) : Prop :=
  point.time ≤ minute * 60000 ∧ minute * 60000 < point.time + range.step * 60000 ∧
    minute ≤ minuteOf now

instance (now : ℤ) (range : FunctionRange) (minute : ℤ) : Decidable (InRange now range minute) :=
  inferInstanceAs (Decidable (_ ∧ _))

instance (now : ℤ) (range : FunctionRange) (point : FunctionPoint μ) (minute : ℤ) :
    Decidable (Covers now range point minute) :=
  inferInstanceAs (Decidable (_ ∧ _ ∧ _))

/-- The answer counts exactly the calls of its minutes, each in exactly one point. -/
structure CountsCalls (now : ℤ) (range : FunctionRange) (calls : List Answered)
    (metrics : FunctionMetrics μ) : Prop where
  points : ∀ point ∈ metrics.points, ∀ kind : Kind, kind.of point.toCounts =
    calls.countP fun call => kind.has call.status && Covers now range point (minuteOf call.time)
  once : ∀ minute, InRange now range minute →
    ∃! point, point ∈ metrics.points ∧ Covers now range point minute
  totals : ∀ kind : Kind, kind.of metrics.totals.toCounts =
    (metrics.points.map fun point => kind.of point.toCounts).sum
  total : ∀ kind : Kind, kind.of metrics.totals.toCounts =
    calls.countP fun call => kind.has call.status && InRange now range (minuteOf call.time)

/-- A sum of sums counts what they count. -/
theorem of_foldl_add {α : Type} (d : Durations μ) (kind : Kind) (sums : α → Sums μ)
    (items : List α) (start : Sums μ) :
    kind.of (items.foldl (fun total item => total.add d (sums item)) start).toCounts =
      kind.of start.toCounts + (items.map fun item => kind.of (sums item).toCounts).sum := by
  induction items generalizing start with
  | nil => rfl
  | cons item items ih =>
      have hadd : kind.of (start.add d (sums item)).toCounts =
          kind.of start.toCounts + kind.of (sums item).toCounts := kind.of_add _ _
      rw [List.foldl_cons, ih, hadd, List.map_cons, List.sum_cons, Nat.add_assoc]

theorem of_sumBetween (d : Durations μ) (kind : Kind) (buckets : List (FunctionBucket μ))
    (start stop : ℤ) :
    kind.of (sumBetween d buckets start stop).toCounts =
      weigh (fun bucket => kind.of bucket.toCounts)
        (fun bucket => start ≤ bucket.minute && bucket.minute < stop) buckets := by
  rw [sumBetween, of_foldl_add d kind FunctionBucket.toSums, ← weigh_filter]
  change kind.of .zero + _ = _
  rw [kind.of_zero, Nat.zero_add]
  rfl

/-- Between minutes from which on nothing was dropped, buckets count the calls. -/
theorem of_sumBetween_tallied (d : Durations μ) (kind : Kind) {buckets : List (FunctionBucket μ)}
    {calls : List Answered} (h : Tallied buckets calls) {start : ℤ}
    (hcalls : ∀ call ∈ calls, minuteOf call.time < start + FUNCTION_MINUTES) (stop : ℤ) :
    kind.of (sumBetween d buckets start stop).toCounts =
      calls.countP fun call => kind.has call.status &&
        (start ≤ minuteOf call.time && minuteOf call.time < stop) := by
  have hkeys : ∀ minute : ℤ,
      (start ≤ minute && minute < stop : Bool) = decide (minute ∈ Finset.Ico start stop) := by
    intro minute
    rw [← Bool.decide_and]
    exact decide_eq_decide.mpr Finset.mem_Ico.symm
  rw [of_sumBetween, countP_eq_weigh]
  simp only [hkeys]
  rw [weigh_keys FunctionBucket.minute, weigh_keys fun call : Answered => minuteOf call.time]
  apply Finset.sum_congr rfl
  intro minute hminute
  apply h
  intro call hcall
  have hfrom := (Finset.mem_Ico.mp hminute).1
  have hbefore := hcalls call hcall
  omega

/-! ## The points of a range -/

theorem FunctionRange.minutes_pos (range : FunctionRange) : 0 < range.minutes := by
  cases range <;> decide

theorem FunctionRange.minutes_le (range : FunctionRange) : range.minutes ≤ FUNCTION_MINUTES := by
  cases range <;> decide

theorem FunctionRange.step_pos (range : FunctionRange) : 0 < range.step := by
  cases range <;> decide

theorem mem_starts {first current step start : ℤ} (hstep : 0 < step) :
    start ∈ starts first current step ↔ ∃ i : ℕ, start = first + step * i ∧ start ≤ current := by
  unfold starts
  rw [List.mem_map]
  constructor
  · rintro ⟨i, hi, rfl⟩
    refine ⟨i, rfl, ?_⟩
    have hle : (i : ℤ) ≤ (current - first) / step := by
      rw [List.mem_range] at hi
      omega
    have hmul := Int.mul_le_of_le_ediv hstep hle
    rw [mul_comm] at hmul
    omega
  · rintro ⟨i, rfl, hle⟩
    refine ⟨i, ?_, rfl⟩
    have hdiv : (i : ℤ) ≤ (current - first) / step := by
      apply Int.le_ediv_of_mul_le hstep
      rw [mul_comm]
      omega
    rw [List.mem_range]
    omega

/-- Every minute of the range lies between one start and the next. -/
theorem exists_start {first current step minute : ℤ} (hstep : 0 < step) (hfirst : first ≤ minute)
    (hcurrent : minute ≤ current) :
    ∃ start ∈ starts first current step, start ≤ minute ∧ minute < start + step := by
  have hdiv : 0 ≤ (minute - first) / step := Int.ediv_nonneg (by omega) hstep.le
  have hle := Int.ediv_mul_le (minute - first) hstep.ne'
  have hlt := Int.lt_ediv_add_one_mul_self (minute - first) hstep
  rw [add_mul, one_mul] at hlt
  rw [mul_comm] at hle hlt
  refine ⟨first + step * ((minute - first) / step), (mem_starts hstep).mpr
    ⟨((minute - first) / step).toNat, ?_, by omega⟩, by omega, by omega⟩
  rw [Int.toNat_of_nonneg hdiv]

/-- Two starts less than a step from one minute are one. -/
theorem start_unique {first current step start start' minute : ℤ} (hstep : 0 < step)
    (h : start ∈ starts first current step) (h' : start' ∈ starts first current step)
    (hle : start ≤ minute) (hlt : minute < start + step) (hle' : start' ≤ minute)
    (hlt' : minute < start' + step) : start = start' := by
  obtain ⟨i, rfl, -⟩ := (mem_starts hstep).mp h
  obtain ⟨j, rfl, -⟩ := (mem_starts hstep).mp h'
  have hij : (i : ℤ) < j + 1 := by
    have hmul : step * i < step * (j + 1) := by
      rw [mul_add, mul_one]
      omega
    exact Int.lt_of_mul_lt_mul_left hmul hstep.le
  have hji : (j : ℤ) < i + 1 := by
    have hmul : step * j < step * (i + 1) := by
      rw [mul_add, mul_one]
      omega
    exact Int.lt_of_mul_lt_mul_left hmul hstep.le
  have hsame : (i : ℤ) = j := by omega
  rw [hsame]

/-- The bounds between the points of a range. -/
def bound (first current step : ℤ) (i : ℕ) : ℤ := min (first + step * i) (current + 1)

theorem bound_le_bound (first current : ℤ) {step : ℤ} (hstep : 0 < step) (i j : ℕ) (hij : i ≤ j) :
    bound first current step i ≤ bound first current step j := by
  have hmul : step * i ≤ step * j := Int.mul_le_mul_of_nonneg_left (by omega) hstep.le
  unfold bound
  omega

/-- The number of points. -/
def points (first current step : ℤ) : ℕ := ((current - first) / step + 1).toNat

theorem bound_points {first current step : ℤ} (hstep : 0 < step) (hfirst : first ≤ current + 1) :
    bound first current step (points first current step) = current + 1 := by
  have hlt := Int.lt_ediv_add_one_mul_self (current - first) hstep
  have hdiv : 0 ≤ (current - first) / step + 1 := by
    have hle : -1 ≤ (current - first) / step := by
      apply Int.le_ediv_of_mul_le hstep
      omega
    omega
  rw [mul_comm] at hlt
  unfold bound points
  rw [Int.toNat_of_nonneg hdiv]
  omega

/-- The sums between the bounds are together the sum over the range. -/
theorem sum_starts {first current step : ℤ} (hstep : 0 < step) (hfirst : first ≤ current + 1)
    (f : Answered → ℕ) (calls : List Answered) :
    ((starts first current step).map fun start => weigh f (fun call =>
        start ≤ minuteOf call.time && minuteOf call.time < min (start + step) (current + 1))
        calls).sum =
      weigh f (fun call => first ≤ minuteOf call.time && minuteOf call.time < current + 1)
        calls := by
  have hzero : bound first current step 0 = first := by
    unfold bound
    omega
  have hparts := weigh_intervals (f := f) (fun call : Answered => minuteOf call.time)
    (bound_le_bound first current hstep) (points first current step) calls
  rw [bound_points hstep hfirst, hzero] at hparts
  rw [← hparts, starts, List.map_map]
  change ((List.range (points first current step)).map _).sum =
    ((List.range (points first current step)).map _).sum
  congr 1
  apply List.map_congr_left
  intro i hi
  have hstart : first + step * i ≤ current :=
    ((mem_starts hstep).mp (List.mem_map_of_mem hi)).elim fun j hj => hj.1 ▸ hj.2
  have hnext : step * ((i + 1 : ℕ) : ℤ) = step * i + step := by
    push_cast
    rw [mul_add, mul_one]
  apply weigh_congr
  intro call _
  unfold bound
  rw [hnext, min_eq_left (by omega : first + step * (i : ℤ) ≤ current + 1), add_assoc]

theorem countsCalls_functionMetrics (d : Durations μ) {log : RequestLog μ} {runtime name : String}
    {calls : List Answered} (h : Tallied (log.bucketsOf runtime name) calls) {now : ℤ}
    (hnow : ∀ call ∈ calls, call.time ≤ now) (range : FunctionRange) :
    CountsCalls now range calls (log.functionMetrics d now runtime name range) := by
  have hminutes : ∀ call ∈ calls, minuteOf call.time ≤ minuteOf now := fun call hcall =>
    Int.ediv_le_ediv (by decide) (hnow call hcall)
  have hpos := range.minutes_pos
  have hle := range.minutes_le
  have hstep := range.step_pos
  set first := minuteOf now - range.minutes + 1 with hfirst
  -- what is summed for a start is the number of calls of its minutes
  have hsums : ∀ start ∈ starts first (minuteOf now) range.step, ∀ kind : Kind,
      kind.of (sumBetween d (log.bucketsOf runtime name) start
        (min (start + range.step) (minuteOf now + 1))).toCounts =
      calls.countP fun call => kind.has call.status && (start ≤ minuteOf call.time &&
        minuteOf call.time < min (start + range.step) (minuteOf now + 1)) := by
    intro start hstart kind
    apply of_sumBetween_tallied d kind h
    intro call hcall
    obtain ⟨i, rfl, -⟩ := (mem_starts hstep).mp hstart
    have hcurrent := hminutes call hcall
    have hmul : 0 ≤ range.step * i := Int.mul_nonneg hstep.le (Int.natCast_nonneg i)
    omega
  have hcovers : ∀ start (shown : Shown μ) minute,
      Covers now range ⟨shown, start * 60000⟩ minute ↔
        start ≤ minute ∧ minute < start + range.step ∧ minute ≤ minuteOf now := by
    intro start shown minute
    unfold Covers
    dsimp only
    omega
  have htotals : ∀ kind : Kind,
      kind.of (log.functionMetrics d now runtime name range).totals.toCounts =
        ((starts first (minuteOf now) range.step).map fun start =>
          kind.of (sumBetween d (log.bucketsOf runtime name) start
            (min (start + range.step) (minuteOf now + 1))).toCounts).sum := by
    intro kind
    refine (of_foldl_add d kind _ _ _).trans ?_
    change kind.of .zero + _ = _
    rw [kind.of_zero, Nat.zero_add]
    rfl
  refine ⟨?_, ?_, ?_, ?_⟩
  · intro point hpoint kind
    obtain ⟨start, hstart, rfl⟩ := List.mem_map.mp hpoint
    refine (hsums start hstart kind).trans ?_
    apply List.countP_congr
    intro call _
    simp only [hcovers, Bool.and_eq_true, decide_eq_true_eq]
    apply and_congr_right
    intro _
    omega
  · intro minute hminute
    have hlower : first ≤ minute := by
      have hfirst' := hminute.1
      omega
    obtain ⟨start, hstart, hfrom, hbefore⟩ := exists_start hstep hlower hminute.2
    refine ⟨_, ⟨List.mem_map_of_mem hstart, (hcovers _ _ _).mpr ⟨hfrom, hbefore, hminute.2⟩⟩, ?_⟩
    rintro point ⟨hpoint, hcover⟩
    obtain ⟨start', hstart', rfl⟩ := List.mem_map.mp hpoint
    obtain ⟨hfrom', hbefore', -⟩ := (hcovers _ _ _).mp hcover
    rw [start_unique hstep hstart hstart' hfrom hbefore hfrom' hbefore']
  · intro kind
    rw [htotals]
    change _ = (((starts first (minuteOf now) range.step).map _).map _).sum
    rw [List.map_map]
    rfl
  · intro kind
    rw [htotals, List.map_congr_left fun start hstart => hsums start hstart kind]
    simp only [countP_eq_weigh]
    have hupper : first ≤ minuteOf now + 1 := by omega
    rw [sum_starts hstep hupper]
    apply weigh_congr
    intro call _
    rw [← Bool.decide_and]
    apply decide_eq_decide.mpr
    unfold InRange
    omega

/-! ## The law -/

/-- After any calls of the log, with the recorded times not going back: the counters of
buckets are the lengths of the lists and below their ceilings, and the lists are in
order; the numbers since the last deploy are those of the calls recorded since; and, for
an environment whose calls all found room, every range counts the calls that were
recorded for the function, each in one point. A function that is forgotten takes its
calls with it. -/
theorem observe_law (d : Durations μ) (startedAt : ℤ) (events : List (Event μ))
    (htimes : (events.filterMap Event.time).Pairwise (· ≤ ·)) :
    ((requestLog d startedAt).run events).Kept ∧
      (∀ now runtime name range (kind : Kind),
        kind.of (((requestLog d startedAt).run events).functionMetrics d now runtime name
            range).sinceDeploy.toCounts =
          (sinceDeploy runtime name events).countP fun call => kind.has call.status) ∧
      ∀ runtime, (requestLog d startedAt).Along (HasRoom runtime)
          (requestLog d startedAt).initial events →
        ∀ name now range, (∀ call ∈ sinceForget runtime name events, call.time ≤ now) →
          CountsCalls now range (sinceForget runtime name events)
            (((requestLog d startedAt).run events).functionMetrics d now runtime name range) := by
  refine ⟨kept_run d startedAt events, ?_, ?_⟩
  · intro now runtime name range kind
    rw [← (follows_run d startedAt events).totals runtime name kind]
    unfold RequestLog.functionMetrics RequestLog.totalOf
    dsimp only
    cases ((requestLog d startedAt).run events).statsOf runtime name <;> rfl
  · intro runtime hroom name now range hnow
    exact countsCalls_functionMetrics d (tallied_run d startedAt runtime htimes hroom name) hnow
      range

/-- Whole milliseconds. -/
def milliseconds : Durations ℕ := ⟨0, fun a b => a + b, fun a b => max a b, id, fun a n => a / n⟩

/-- A call, a deploy, and a failed call in the next minute. -/
def twoCalls : List (Event ℕ) :=
  [.recorded 59000 "app" "hello" ⟨none, "GET", [47], 200, 12⟩, .deployed "app" "hello" 59500,
    .recorded 60000 "app" "hello" ⟨none, "GET", [47], 500, 30⟩]

theorem observe_law_twoCalls : ((requestLog milliseconds 0).run twoCalls).Kept ∧
      (sinceDeploy "app" "hello" twoCalls).length = 1 ∧
      (sinceForget "app" "hello" twoCalls).length = 2 ∧
      CountsCalls 61000 .quarter (sinceForget "app" "hello" twoCalls)
        (((requestLog milliseconds 0).run twoCalls).functionMetrics milliseconds 61000 "app" "hello"
          .quarter) :=
  ⟨(observe_law milliseconds 0 twoCalls (by decide)).1, by decide, by decide,
    (observe_law milliseconds 0 twoCalls (by decide)).2.2 "app" (by decide) "hello" 61000
      .quarter (by decide)⟩

end Sbarbase.Gateway.Observe
