import Sbarbase.Lib.Text
import Mathlib.Data.Nat.Notation
import Mathlib.Data.Int.Notation
/-!
# The texts of a schedule

The regular expressions and the splitting that `scheduler/cron.ts` and the SQL
function `cron.schedule_valid` share. Both engines read these alike: the classes
hold ASCII characters only, and `^` and `$` are the ends of the text.
-/

namespace Sbarbase.Scheduler

open Lib

/-- What a lower-case function does, in any locale but a Turkic one: it lowers the
letters of ASCII, and of a text with another character it leaves more than ASCII
letters, or the `i` and the `k` that two of those characters become. -/
structure Lowering where
  lower : List Char → List Char
  ascii : ∀ text, (∀ c ∈ text, c.toNat < 128) → lower text = text.map Char.toLower
  other : ∀ text, ∀ c ∈ text, 128 ≤ c.toNat →
    ∃ d ∈ lower text, 128 ≤ d.toNat ∨ d = 'i' ∨ d = 'k'

/-- Letters of ASCII lowered, everything else kept. -/
def Lowering.plain : Lowering where
  lower text := text.map Char.toLower
  ascii := fun _ _ => rfl
  other := by
    intro text c hc hlarge
    have hsame : c.toLower = c := by
      unfold Char.toLower
      rw [dif_neg]
      intro hupper
      have hle : c.toNat ≤ 90 := UInt32.le_iff_toNat_le.mp hupper.2
      omega
    exact ⟨c, List.mem_map.mpr ⟨c, hc, hsame⟩, .inl hlarge⟩

/-- `[ \t\n\r\f\v]`. -/
def isBlank (c : Char) : Bool := c = ' ' || ('\t' ≤ c && c ≤ '\r')

/-- `^[ \t\n\r\f\v]*([0-9]+)[ \t\n\r\f\v]*seconds?[ \t\n\r\f\v]*$`, with the digits. -/
def intervalMatch (text : List Char) : Option (List Char) :=
  let start := text.dropWhile isBlank
  let digits := start.takeWhile isDigit
  let unit := (start.dropWhile isDigit).dropWhile isBlank
  let rest := unit.drop 6
  if digits ≠ [] ∧ unit.take 6 = "second".toList ∧
      (if rest.head? = some 's' then rest.tail else rest).all isBlank then
    some digits
  else none

/-- The text without the blanks around it. -/
def trimBlanks (text : List Char) : List Char :=
  ((text.dropWhile isBlank).reverse.dropWhile isBlank).reverse

/-- The pieces between the rows of blanks. `after` says that one is under way. -/
def splitRuns (after : Bool) : List Char → List (List Char)
  | [] => [[]]
  | c :: text =>
    if isBlank c then if after then splitRuns true text else [] :: splitRuns true text
    else (splitRuns false text).modifyHead (c :: ·)

/-- The pieces that `[ \t\n\r\f\v]+` splits a text into. -/
def splitBlanks (text : List Char) : List (List Char) := splitRuns false text

/-- `^[A-Za-z0-9]+$`. -/
def isWord (text : List Char) : Bool := !text.isEmpty && text.all isAlphanumeric

/-- `^[0-9]{1,9}$`. -/
def isNumber (text : List Char) : Bool := !text.isEmpty && text.length ≤ 9 && text.all isDigit

/-- `^(\*|[A-Za-z0-9]+(?:-[A-Za-z0-9]+)?)$`. -/
def isRange (text : List Char) : Bool :=
  text = ['*'] || match text.splitOn '-' with
    | [a] => isWord a
    | [a, b] => isWord a && isWord b
    | _ => false

/-- `^(\*|[A-Za-z0-9]+(?:-[A-Za-z0-9]+)?)(?:\/([0-9]{1,9}))?$`, with the range and the step. -/
def partMatch (part : List Char) : Option (List Char × Option (List Char)) :=
  match part.splitOn '/' with
  | [range] => if isRange range then some (range, none) else none
  | [range, step] => if isRange range && isNumber step then some (range, some step) else none
  | _ => none

def MONTHS : List (List Char) :=
  ["jan", "feb", "mar", "apr", "may", "jun", "jul", "aug", "sep", "oct", "nov", "dec"].map
    String.toList

def DAYS : List (List Char) :=
  ["sun", "mon", "tue", "wed", "thu", "fri", "sat", "sun"].map String.toList

/-!
## The minutes a runner looks at

`due`, `minuteStart` and `catchUp` of `scheduler/cron.ts`. A clock reading is a
number of milliseconds since 1970. The calendar that `Date` reads a minute's
fields with is a parameter.
-/

structure CronSchedule where
  minute : List Bool
  hour : List Bool
  dom : List Bool
  month : List Bool
  dow : List Bool
  domStar : Bool
  dowStar : Bool
  domLast : Bool
  wild : Bool
  deriving DecidableEq

/-- The getters of `Date` in UTC, of a time in milliseconds. -/
structure Calendar where
  utcMinutes : ℕ → ℕ
  utcHours : ℕ → ℕ
  utcDate : ℕ → ℕ
  utcMonth : ℕ → ℕ
  utcDay : ℕ → ℕ

section

variable (calendar : Calendar)

/-- The fields of the schedule match the minute that starts at `start`. -/
def matchesMinute (schedule : CronSchedule) (start : ℕ) : Bool :=
  let tomorrow := start + 86400000
  let lastDom := schedule.domLast && calendar.utcDate tomorrow = 1
  let thisDom := lastDom || schedule.dom.getD (calendar.utcDate start - 1) false
  let thisDow := schedule.dow.getD (calendar.utcDay start) false
  let day := if schedule.domStar || schedule.dowStar then thisDom && thisDow else thisDom || thisDow
  schedule.minute.getD (calendar.utcMinutes start) false &&
    schedule.hour.getD (calendar.utcHours start) false &&
    schedule.month.getD (calendar.utcMonth start) false && day

def due (schedule : CronSchedule) (start : ℕ) (wild fixed : Bool) : Bool :=
  matchesMinute calendar schedule start &&
    ((fixed && !schedule.wild) || (wild && schedule.wild))

end

def MINUTE : ℕ := 60000

def minuteStart (ms : ℕ) : ℕ := ms - ms % MINUTE

/-- A minute to look at, and for which kinds of jobs. -/
structure Look where
  start : ℕ
  wild : Bool
  fixed : Bool
  deriving DecidableEq

/-- `for (let at = last + MINUTE; at <= current; at += MINUTE)` -/
def minutesAfter (last current : ℕ) : List ℕ :=
  (List.range ((current - last) / MINUTE)).map fun i => last + MINUTE * (i + 1)

/-- What to look at when the clock went from `last` to `now`, and the new `last`. -/
def catchUp (last now : ℕ) : List Look × ℕ :=
  let current := minuteStart now
  let passed : ℤ := ((now : ℤ) - last).tdiv MINUTE
  if passed = 0 then ([], last)
  else if 0 < passed ∧ passed ≤ 5 then
    ((minutesAfter last current).map fun start => ⟨start, true, true⟩, current)
  else if 5 < passed ∧ passed ≤ 180 then
    ((minutesAfter last current).map (fun start => ⟨start, false, true⟩) ++
      [⟨current, true, false⟩], current)
  else if passed < 0 then ([], last)
  else ([⟨current, true, true⟩], current)

/-- The readings of a run, one after another, from a first `last`. -/
def catchUps : ℕ → List ℕ → List Look × ℕ
  | last, [] => ([], last)
  | last, now :: readings =>
    let moved := catchUp last now
    let rest := catchUps moved.2 readings
    (moved.1 ++ rest.1, rest.2)

section

variable (calendar : Calendar)

/-- The runs that a job starts over a run of the clock, each with the due minutes
it waited for since the start before it. A reading says too whether the job may
start then: it waits while it runs and while other jobs take every place. -/
def starts (schedule : CronSchedule) : ℕ → List ℕ → List (ℕ × Bool) → List (List ℕ)
  | _, _, [] => []
  | last, pending, (now, free) :: readings =>
    let moved := catchUp last now
    let looked := moved.1.filter fun look => due calendar schedule look.start look.wild look.fixed
    let pending := pending ++ looked.map Look.start
    if free ∧ pending ≠ [] then pending :: starts schedule moved.2 [] readings
    else starts schedule moved.2 pending readings

end

/-!
## Reading a schedule

`field` and `parseSchedule` of `scheduler/cron.ts`.
-/

inductive Schedule
  | cron (schedule : CronSchedule)
  | interval (seconds : ℕ)
  deriving DecidableEq

def MAX_SCHEDULE : ℕ := 1000

def bits (size : ℕ) (on : Bool) : List Bool := List.replicate size on

section

variable (js : Lowering)

def number (names : Option (List (List Char))) (low : ℕ) (value : List Char) : Option ℕ :=
  if !isWord value then none
  else
    match names.bind fun names => names.findIdx? (· = js.lower value) with
    | some index => some (index + low)
    | none => if isNumber value then some (decimal value) else none

/-- `for(let i=first;i<=last;i+=step)set[i-low]=true`. -/
def mark (low first last step : ℕ) (set : List Bool) : List Bool :=
  ((List.range (last + 1 - first)).filter (· % step = 0)).foldl
    (fun set k => set.set (first + k - low) true) set

/-- One part of a field, which turns its bits on. -/
def fieldPart (low high : ℕ) (names : Option (List (List Char))) (set : List Bool)
    (part : List Char) : Option (List Bool) :=
  match partMatch part with
  | none => none
  | some (range, stepText) =>
    let step := (stepText.map decimal).getD 1
    let marked := fun first last =>
      if step = 0 then none
      else if first < low ∨ high < first ∨ last < low ∨ high < last then none
      else some (mark low first last step set)
    if range = ['*'] then marked low high
    else
      match range.splitOn '-' with
      | a :: b :: _ =>
        match number js names low a, number js names low b with
        | some first, some last => marked first last
        | _, _ => none
      | single =>
        match number js names low (single.headD []) with
        | none => none
        | some start =>
          if stepText ≠ none then none
          else if start < low ∨ high < start then none
          else some (set.set (start - low) true)

/-- One field: `*`, a number or a name, `a-b`, with a step, joined by commas. -/
def field (text : List Char) (low high : ℕ) (names : Option (List (List Char))) :
    Option (List Bool) :=
  (text.splitOn ',').foldlM (fieldPart js low high names) (bits (high - low + 1) false)

/-- Sunday is both 0 and 7. -/
def sunday (dow : List Bool) : List Bool :=
  if dow.getD 0 false || dow.getD 7 false then (dow.set 0 true).set 7 true else dow

def one (size index : ℕ) : List Bool := (bits size false).set index true

def macroSchedule (name : List Char) : Option CronSchedule :=
  let base : CronSchedule :=
    { minute := one 60 0, hour := one 24 0, dom := bits 31 true, month := bits 12 true,
      dow := bits 8 true, domStar := false, dowStar := false, domLast := false, wild := false }
  if name = "yearly".toList ∨ name = "annually".toList then
    some { base with dom := one 31 0, month := one 12 0, dowStar := true }
  else if name = "monthly".toList then some { base with dom := one 31 0, dowStar := true }
  else if name = "weekly".toList then some { base with dow := sunday (one 8 0), dowStar := true }
  else if name = "daily".toList ∨ name = "midnight".toList then some base
  else if name = "hourly".toList then some { base with hour := bits 24 true, wild := true }
  else none

def startsWithStar (text : List Char) : Bool := text.head? = some '*'

/-- The five fields of a schedule. -/
def parseFields (m h dm mo dw : List Char) : Option CronSchedule := do
  let minute ← field js m 0 59 none
  let hour ← field js h 0 23 none
  let month ← field js mo 1 12 (some MONTHS)
  let dow ← field js dw 0 7 (some DAYS)
  let dom ← if dm = ['$'] then some (bits 31 false) else field js dm 1 31 none
  some { minute := minute, hour := hour, dom := dom, month := month, dow := sunday dow,
         domStar := startsWithStar dm, dowStar := startsWithStar dw, domLast := dm = ['$'],
         wild := startsWithStar m || startsWithStar h }

/-- The schedule that a text of a fitting length is. -/
def parseText (text : List Char) : Option Schedule :=
  match intervalMatch (js.lower text) with
  | some found =>
    let digits := found.dropWhile (· = '0')
    let seconds := if digits.length ≤ 2 then decimal digits else 0
    if 0 < seconds ∧ seconds < 60 then some (.interval seconds) else none
  | none =>
    let trimmed := trimBlanks text
    if trimmed.head? = some '@' then
      if trimmed.tail ≠ [] ∧ trimmed.tail.all isLower then (macroSchedule trimmed.tail).map .cron
      else none
    else
      match splitBlanks trimmed with
      | [m, h, dm, mo, dw] => (parseFields js m h dm mo dw).map .cron
      | _ => none

/-- The schedule, or none where pg_cron would refuse it. -/
def parseSchedule (text : String) : Option Schedule :=
  if utf16Length text = 0 ∨ MAX_SCHEDULE ≤ utf16Length text then none else parseText js text.toList

end

end Sbarbase.Scheduler
