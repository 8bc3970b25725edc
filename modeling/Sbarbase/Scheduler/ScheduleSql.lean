import Mathlib.Data.Nat.Notation
import Sbarbase.Scheduler.Cron
/-!
# The check of a schedule in the database

`cron._field_valid` and `cron.schedule_valid` of `lab/scheduled_jobs.py`. A call
that raises an error refuses the row just as false does, so it is false here.
-/

namespace Sbarbase.Scheduler.Sql

open Lib

/-- `string_to_array`: an empty text has no parts. -/
def stringToArray (text : List Char) (delimiter : Char) : List (List Char) :=
  if text = [] then [] else text.splitOn delimiter

section

variable (pg : Lowering)

/-- One end of a range, or a single value. -/
def endValue (low : ℕ) (names : Option (List (List Char))) (text : List Char) : Option ℕ :=
  match names.bind fun names => names.findIdx? (· = pg.lower text) with
  | some index => some (index + low)
  | none => if isNumber text then some (decimal text) else none

def partValid (low high : ℕ) (names : Option (List (List Char))) (part : List Char) : Bool :=
  match partMatch part with
  | none => false
  | some (range, step) =>
    if step.any fun step => decimal step = 0 then false
    else
      let bounds : Option (ℕ × ℕ) :=
        if range = ['*'] then some (low, high)
        else
          match (stringToArray range '-').mapM (endValue pg low names) with
          | none => none
          | some ends =>
            if ends.length = 1 ∧ step ≠ none then none else some (ends.headD 0, ends.getLastD 0)
      match bounds with
      | none => false
      | some (first, last) => !(first < low ∨ high < first ∨ last < low ∨ high < last : Bool)

def _field_valid (field : List Char) (low high : ℕ) (names : Option (List (List Char))) : Bool :=
  (stringToArray field ',').all (partValid pg low high names)

/-- The check of a text of a fitting length. -/
def text_valid (schedule : List Char) : Bool :=
  match intervalMatch (pg.lower schedule) with
  | some found =>
    let digits := found.dropWhile (· = '0')
    1 ≤ digits.length ∧ digits.length ≤ 2 ∧ 1 ≤ decimal digits ∧ decimal digits ≤ 59
  | none =>
    let trimmed := trimBlanks schedule
    if trimmed.head? = some '@' then
      trimmed ∈ ["@yearly", "@annually", "@monthly", "@weekly", "@daily", "@midnight",
        "@hourly"].map String.toList
    else
      match splitBlanks trimmed with
      | [m, h, dm, mo, dw] =>
        _field_valid pg m 0 59 none && _field_valid pg h 0 23 none &&
          (dm = ['$'] || _field_valid pg dm 1 31 none) &&
          _field_valid pg mo 1 12 (some MONTHS) && _field_valid pg dw 0 7 (some DAYS)
      | _ => false

def schedule_valid (schedule : String) : Bool :=
  if schedule.toList.length = 0 ∨ 1000 ≤ schedule.toList.length then false
  else text_valid pg schedule.toList

end

end Sbarbase.Scheduler.Sql
