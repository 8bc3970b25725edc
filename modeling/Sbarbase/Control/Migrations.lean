import Mathlib.Data.Char
import Mathlib.Data.List.Lex
import Sbarbase.Lib.Calendar
import Sbarbase.Lib.Decimal
/-!
# Versions of migrations

The version that `migrate` of `src/control/agent-sql.ts` gives a migration: the
clock, or the second after the latest version in the history. A version is the
text of a time without its punctuation, and the history holds whatever texts
were written to it.
-/

namespace Sbarbase.Control.Migrations

open Lib Lib.Calendar

/-- The range of a `Date`, in milliseconds. -/
def maxTime : ℤ := 8640000000000000

/-- The time value of a `Date` that is not an invalid one. -/
structure Instant where
  ms : ℤ
  within : -maxTime ≤ ms ∧ ms ≤ maxTime

/-- `new Date(ms)`, of which nothing but `toISOString` is asked. -/
def newDate (ms : ℤ) : Except String Instant :=
  if h : -maxTime ≤ ms ∧ ms ≤ maxTime then .ok ⟨ms, h⟩ else .error "Invalid Date"

def Instant.day (time : Instant) : ℤ := time.ms / 86400000

/-- Years of four digits stand alone, others have a sign and six. -/
def isoYear (year : ℤ) : List Char :=
  if 0 ≤ year ∧ year ≤ 9999 then padded 4 year.toNat
  else (if year < 0 then '-' else '+') :: padded 6 year.natAbs

def toISOString (time : Instant) : List Char :=
  isoYear (dateOf time.day).year ++
    '-' :: (padded 2 ((dateOf time.day).month + 1) ++
    '-' :: (padded 2 (dateOf time.day).day.toNat ++
    'T' :: (padded 2 (time.ms / 3600000 % 24).toNat ++
    ':' :: (padded 2 (time.ms / 60000 % 60).toNat ++
    ':' :: (padded 2 (time.ms / 1000 % 60).toNat ++
    '.' :: (padded 3 (time.ms % 1000).toNat ++ ['Z']))))))

/-- `toISOString().replace(/[-:T]/g,'').slice(0,14)`. -/
def stamp (time : Instant) : List Char :=
  ((toISOString time).filter fun c => !(c = '-' || c = ':' || c = 'T')).take 14

/-- `Date.UTC`. Years of two digits are of the twentieth century. -/
def dateUtc (year month day hour minute second : ℤ) : ℤ :=
  86400000 * makeDay (if 0 ≤ year ∧ year ≤ 99 then 1900 + year else year) month day +
    3600000 * hour + 60000 * minute + 1000 * second

/-- `text.slice(start, stop)`, read as a number. -/
def field (text : List Char) (start stop : ℕ) : ℕ := decimal ((text.drop start).take (stop - start))

/-- `at`. -/
def timeOf (text : List Char) : ℤ :=
  dateUtc (field text 0 4) (field text 4 6 - 1) (field text 6 8) (field text 8 10) (field text 10 12)
    (field text 12 14)

/-- `version ~ '^[0-9]{14}$'`. -/
def isVersion (text : List Char) : Bool := text.length = 14 && text.all isDigit

/-- `max(version)` of those. -/
def latest (history : List (List Char)) : Option (List Char) := (history.filter isVersion).max?

/-- The version of a migration that is applied to a history. -/
def version (history : List (List Char)) (clock : Instant) : Except String (List Char) :=
  match latest history with
  | none => .ok (stamp clock)
  | some last =>
    if stamp clock ≤ last then return stamp (← newDate (timeOf last + 1000)) else .ok (stamp clock)

/-- The versions of migrations that are applied one after another. -/
def versions : List (List Char) → List Instant → Except String (List (List Char))
  | _, [] => .ok []
  | history, clock :: clocks => do
    let first ← version history clock
    return first :: (← versions (first :: history) clocks)

end Sbarbase.Control.Migrations
