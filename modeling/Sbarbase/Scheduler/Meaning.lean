import Sbarbase.Lib.Calendar
import Sbarbase.Scheduler.Cron
/-!
# What a schedule says

The meaning of the five fields, apart from how they are read: a field lists
items, an item stands for numbers, and a minute is meant when its numbers are
among them. The `@` words stand for five fields each.
-/

namespace Sbarbase.Scheduler

open Lib Lib.Calendar

/-- The getters of `Date` in UTC. -/
def utc : Calendar where
  utcMinutes ms := ms / 60000 % 60
  utcHours ms := ms / 3600000 % 24
  utcDate ms := (dateOf (ms / 86400000 : ℕ)).day.toNat
  utcMonth ms := (dateOf (ms / 86400000 : ℕ)).month
  utcDay ms := (weekday (ms / 86400000 : ℕ)).toNat

/-! ## Items -/

/-- What one part of a field says. -/
inductive Item
  | value (n : ℕ)
  | range (first last step : ℕ)
  | star (step : ℕ)
  deriving DecidableEq

/-- The numbers an item stands for in a field from `low` to `high`. -/
def Item.Holds (low high : ℕ) : Item → ℕ → Prop
  | .value n, x => x = n
  | .range first last step, x => first ≤ x ∧ x ≤ last ∧ step ∣ x - first
  | .star step, x => low ≤ x ∧ x ≤ high ∧ step ∣ x - low

/-- What is written lies in the bounds of the field, and a step goes forward. -/
def Item.Within (low high : ℕ) : Item → Prop
  | .value n => low ≤ n ∧ n ≤ high
  | .range first last step => (low ≤ first ∧ first ≤ high) ∧ (low ≤ last ∧ last ≤ high) ∧ 0 < step
  | .star step => 0 < step

/-- A name stands for its first place among the names, one to nine digits for
their value. -/
def Spells (names : Option (List (List Char))) (low : ℕ) (word : List Char) (n : ℕ) : Prop :=
  (names.bind (·.findIdx? (· = word.map Char.toLower)) = some (n - low) ∧ low ≤ n) ∨
    (∀ list ∈ names, word.map Char.toLower ∉ list) ∧ isNumber word ∧ n = decimal word

/-- A text with a step behind it, or without one. -/
def Stepped (text body : List Char) (step : ℕ) : Prop :=
  (text = body ∧ step = 1) ∨ ∃ digits, isNumber digits ∧ text = body ++ '/' :: digits ∧ step = decimal digits

/-- How an item is written. -/
def Item.Writes (names : Option (List (List Char))) (low : ℕ) (text : List Char) : Item → Prop
  | .value n => Spells names low text n
  | .range first last step => ∃ a b, Spells names low a first ∧ Spells names low b last ∧
      Stepped text (a ++ '-' :: b) step
  | .star step => Stepped text ['*'] step

/-- The items of a field, one for each part between commas. -/
def Reads (names : Option (List (List Char))) (low high : ℕ) (text : List Char) (items : List Item) :
    Prop :=
  List.Forall₂ (fun part item => item.Writes names low part) (text.splitOn ',') items ∧
    ∀ item ∈ items, item.Within low high

/-- The union of what the items stand for. -/
def Stands (low high : ℕ) (items : List Item) (x : ℕ) : Prop :=
  ∃ item ∈ items, item.Holds low high x

/-! ## Fields -/

/-- The fields an `@` word stands for. -/
def expansion (name : String) : Option (List String) :=
  if name = "yearly" ∨ name = "annually" then some ["0", "0", "1", "1", "*"]
  else if name = "monthly" then some ["0", "0", "1", "*", "*"]
  else if name = "weekly" then some ["0", "0", "*", "*", "0"]
  else if name = "daily" ∨ name = "midnight" then some ["0", "0", "*", "*", "*"]
  else if name = "hourly" then some ["0", "*", "*", "*", "*"]
  else none

/-- The five fields of a text, written out or as an `@` word. -/
def FieldsOf (text : List Char) (m h dm mo dw : List Char) : Prop :=
  splitBlanks (trimBlanks text) = [m, h, dm, mo, dw] ∨
    ∃ name fields, trimBlanks text = '@' :: name.toList ∧ expansion name = some fields ∧
      fields.map String.toList = [m, h, dm, mo, dw]

/-- The items of the five fields. -/
structure Items where
  minutes : List Item
  hours : List Item
  days : List Item
  months : List Item
  weekdays : List Item

/-- The items are those the five fields list. A `$` lists no day of the month. -/
structure Lists (m h dm mo dw : List Char) (items : Items) : Prop where
  minutes : Reads none 0 59 m items.minutes
  hours : Reads none 0 23 h items.hours
  days : if dm = ['$'] then items.days = [] else Reads none 1 31 dm items.days
  months : Reads (some MONTHS) 1 12 mo items.months
  weekdays : Reads (some DAYS) 0 7 dw items.weekdays

/-- The fields of a schedule denote the items. Sunday is 0 and 7. -/
structure Denotes (schedule : CronSchedule) (items : Items) : Prop where
  minute : ∀ x, schedule.minute.getD x false = true ↔ Stands 0 59 items.minutes x
  hour : ∀ x, schedule.hour.getD x false = true ↔ Stands 0 23 items.hours x
  dom : ∀ x, schedule.dom.getD x false = true ↔ Stands 1 31 items.days (x + 1)
  month : ∀ x, schedule.month.getD x false = true ↔ Stands 1 12 items.months (x + 1)
  dow : ∀ x ≤ 7, schedule.dow.getD x false = true ↔
    ∃ day, Stands 0 7 items.weekdays day ∧ day % 7 = x % 7

/-- The day of the month is listed, or is the last one where `$` is written. -/
def MonthDay (dm : List Char) (items : Items) (start : ℕ) : Prop :=
  (dm = ['$'] ∧ (dateOf (start / 86400000 : ℕ)).IsLast) ∨ Stands 1 31 items.days (utc.utcDate start)

/-- The day of the week is listed. -/
def WeekDay (items : Items) (start : ℕ) : Prop :=
  ∃ day, Stands 0 7 items.weekdays day ∧ day % 7 = utc.utcDay start

/-- The minute is one the fields mean. A star at the start of a day field asks
for both days, otherwise one of them is enough. -/
def Meant (dm dw : List Char) (items : Items) (start : ℕ) : Prop :=
  Stands 0 59 items.minutes (utc.utcMinutes start) ∧ Stands 0 23 items.hours (utc.utcHours start) ∧
    Stands 1 12 items.months (utc.utcMonth start + 1) ∧
    if startsWithStar dm ∨ startsWithStar dw then MonthDay dm items start ∧ WeekDay items start
    else MonthDay dm items start ∨ WeekDay items start

end Sbarbase.Scheduler
