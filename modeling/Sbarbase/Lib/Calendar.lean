import Mathlib.Algebra.Order.Group.Int
import Mathlib.Data.Int.Notation
import Mathlib.Data.Nat.Find
import Mathlib.Tactic.NormNum
import Mathlib.Tactic.SplitIfs
/-!
# The civil calendar

Days are numbered from 1 January 1970, in both directions, and months from 0.
A date is read off a day number, and a day number off any three numbers: months
and days beyond their range carry over, as `Date.UTC` does it.
-/

namespace Sbarbase.Lib.Calendar

/-! ## Years -/

/-- The number of the first day of a year. -/
def yearStart (year : ℤ) : ℤ :=
  365 * (year - 1970) + (year - 1969) / 4 - (year - 1901) / 100 + (year - 1601) / 400

def isLeap (year : ℤ) : Bool := (year % 4 = 0 && year % 100 ≠ 0) || year % 400 = 0

/-- The year of a day. The average length of a year names it but for one. -/
def yearOf (day : ℤ) : ℤ :=
  let guess := 1970 + 400 * day / 146097
  if day < yearStart guess then guess - 1
  else if yearStart (guess + 1) ≤ day then guess + 1
  else guess

theorem yearStart_succ (year : ℤ) :
    yearStart (year + 1) = yearStart year + 365 + if isLeap year then 1 else 0 := by
  unfold yearStart isLeap
  split_ifs with hleap
  · simp only [ne_eq, decide_not, Bool.or_eq_true, Bool.and_eq_true, decide_eq_true_eq,
      Bool.not_eq_eq_eq_not, Bool.not_true, decide_eq_false_iff_not] at hleap
    omega
  · simp only [ne_eq, decide_not, Bool.or_eq_true, Bool.and_eq_true, decide_eq_true_eq,
      Bool.not_eq_eq_eq_not, Bool.not_true, decide_eq_false_iff_not] at hleap
    omega

theorem yearStart_lt {a b : ℤ} (h : a < b) : yearStart a + 365 ≤ yearStart b := by
  unfold yearStart
  omega

theorem yearOf_spec (day : ℤ) :
    yearStart (yearOf day) ≤ day ∧ day < yearStart (yearOf day + 1) := by
  unfold yearOf
  dsimp only
  split_ifs with hbefore hafter
  · refine ⟨?_, by simpa using hbefore⟩
    unfold yearStart at hbefore ⊢
    omega
  · refine ⟨hafter, ?_⟩
    unfold yearStart at hafter ⊢
    omega
  · exact ⟨by omega, by omega⟩

/-- A year is known by a day in it. -/
theorem yearOf_eq {year day : ℤ} (hstart : yearStart year ≤ day) (hend : day < yearStart (year + 1)) :
    yearOf day = year := by
  obtain ⟨hstart', hend'⟩ := yearOf_spec day
  rcases lt_trichotomy (yearOf day) year with h | h | h
  · have hle := yearStart_lt h
    rcases eq_or_lt_of_le (Int.add_one_le_iff.mpr h) with heq | hlt
    · rw [heq] at hend'
      omega
    · have hnext := yearStart_lt hlt
      omega
  · exact h
  · rcases eq_or_lt_of_le (Int.add_one_le_iff.mpr h) with heq | hlt
    · rw [heq] at hend
      omega
    · have hnext := yearStart_lt hlt
      omega

/-! ## Months -/

/-- The days of a year before a month. -/
def monthStart (leap : Bool) (month : ℕ) : ℤ :=
  [0, 31, 59, 90, 120, 151, 181, 212, 243, 273, 304, 334, 365].getD month 0 +
    if leap && 2 ≤ month then 1 else 0

/-- The number of days of a month. -/
def monthLength (leap : Bool) (month : ℕ) : ℤ := monthStart leap (month + 1) - monthStart leap month

/-- The month of a day of the year. -/
def monthOf (leap : Bool) (yearDay : ℤ) : ℕ :=
  Nat.findGreatest (fun month => monthStart leap month ≤ yearDay) 11

theorem monthStart_zero (leap : Bool) : monthStart leap 0 = 0 := by
  cases leap <;> rfl

theorem monthStart_twelve (leap : Bool) : monthStart leap 12 = 365 + if leap then 1 else 0 := by
  cases leap <;> rfl

theorem monthLength_pos : ∀ leap, ∀ month < 12, 28 ≤ monthLength leap month ∧ monthLength leap month ≤ 31 := by
  decide

theorem monthStart_lt : ∀ leap, ∀ b < 13, ∀ a < b, monthStart leap a < monthStart leap b := by
  decide

theorem monthStart_le (leap : Bool) {a b : ℕ} (hab : a ≤ b) (hb : b < 13) :
    monthStart leap a ≤ monthStart leap b := by
  rcases Nat.eq_or_lt_of_le hab with rfl | hlt
  · exact le_rfl
  · exact (monthStart_lt leap b hb a hlt).le

theorem monthOf_le (leap : Bool) (yearDay : ℤ) : monthOf leap yearDay < 12 :=
  Nat.lt_succ_of_le (Nat.findGreatest_le 11)

theorem monthOf_spec {leap : Bool} {yearDay : ℤ} (h : 0 ≤ yearDay) (hend : yearDay < monthStart leap 12) :
    monthStart leap (monthOf leap yearDay) ≤ yearDay ∧
      yearDay < monthStart leap (monthOf leap yearDay + 1) := by
  have hzero : monthStart leap 0 ≤ yearDay := (monthStart_zero leap).le.trans h
  refine ⟨Nat.findGreatest_spec (P := fun month => monthStart leap month ≤ yearDay) (Nat.zero_le 11) hzero, ?_⟩
  by_cases hlast : monthOf leap yearDay = 11
  · rw [hlast]
    exact hend
  · have hle := monthOf_le leap yearDay
    have hnext : monthOf leap yearDay + 1 ≤ 11 := by omega
    exact not_le.mp (Nat.findGreatest_is_greatest (P := fun month => monthStart leap month ≤ yearDay)
      (Nat.lt_succ_self _) hnext)

theorem monthOf_eq {leap : Bool} {month : ℕ} {yearDay : ℤ} (hmonth : month < 12)
    (hstart : monthStart leap month ≤ yearDay) (hend : yearDay < monthStart leap (month + 1)) :
    monthOf leap yearDay = month := by
  have hzero : 0 ≤ yearDay := by
    have hle := monthStart_le leap (Nat.zero_le month) (by omega)
    rw [monthStart_zero] at hle
    omega
  have htwelve : yearDay < monthStart leap 12 :=
    hend.trans_le (monthStart_le leap (Nat.succ_le_of_lt hmonth) (by decide))
  obtain ⟨hstart', hend'⟩ := monthOf_spec hzero htwelve
  have hle := monthOf_le leap yearDay
  rcases lt_trichotomy (monthOf leap yearDay) month with h | h | h
  · have hnext := monthStart_le leap (Nat.succ_le_of_lt h) (by omega)
    rw [Nat.succ_eq_add_one] at hnext
    omega
  · exact h
  · have hnext := monthStart_le leap (Nat.succ_le_of_lt h) (by omega)
    rw [Nat.succ_eq_add_one] at hnext
    omega

/-! ## Dates -/

/-- A date: the month from 0, the day from 1. -/
structure Date where
  year : ℤ
  month : ℕ
  day : ℤ
  month_lt : month < 12
  day_pos : 1 ≤ day
  day_le : day ≤ monthLength (isLeap year) month

/-- The day number of a year, month and day. Months beyond the year carry over to
other years, days beyond the month are counted on. -/
def makeDay (year month day : ℤ) : ℤ :=
  yearStart (year + month / 12) +
    monthStart (isLeap (year + month / 12)) (month % 12).toNat + (day - 1)

/-- The number of a date. -/
def Date.number (date : Date) : ℤ := makeDay date.year date.month date.day

theorem number_eq (date : Date) : date.number =
    yearStart date.year + monthStart (isLeap date.year) date.month + (date.day - 1) := by
  have hlt := date.month_lt
  have hyear : date.year + (date.month : ℤ) / 12 = date.year := by omega
  have hmonth : ((date.month : ℤ) % 12).toNat = date.month := by omega
  rw [Date.number, makeDay, hyear, hmonth]

theorem yearDay_lt (day : ℤ) :
    day - yearStart (yearOf day) < monthStart (isLeap (yearOf day)) 12 := by
  have hnext := yearStart_succ (yearOf day)
  have hspec := (yearOf_spec day).2
  rw [monthStart_twelve]
  omega

/-- The date of a day number. -/
def dateOf (day : ℤ) : Date where
  year := yearOf day
  month := monthOf (isLeap (yearOf day)) (day - yearStart (yearOf day))
  day := day - yearStart (yearOf day) -
    monthStart (isLeap (yearOf day)) (monthOf (isLeap (yearOf day)) (day - yearStart (yearOf day))) + 1
  month_lt := monthOf_le _ _
  day_pos := by
    have h := (monthOf_spec (by have := (yearOf_spec day).1; omega) (yearDay_lt day)).1
    omega
  day_le := by
    have h := (monthOf_spec (by have := (yearOf_spec day).1; omega) (yearDay_lt day)).2
    rw [monthLength]
    omega

theorem year_dateOf (day : ℤ) : (dateOf day).year = yearOf day := rfl

theorem month_dateOf (day : ℤ) : (dateOf day).month =
    monthOf (isLeap (yearOf day)) (day - yearStart (yearOf day)) := rfl

theorem day_dateOf (day : ℤ) : (dateOf day).day = day - yearStart (yearOf day) -
    monthStart (isLeap (yearOf day)) (dateOf day).month + 1 := rfl

@[simp] theorem number_dateOf (day : ℤ) : (dateOf day).number = day := by
  rw [number_eq, year_dateOf, day_dateOf]
  omega

/-- A date lies in its year. -/
theorem yearOf_number (date : Date) : yearOf date.number = date.year := by
  have hpos := date.day_pos
  have hle := date.day_le
  have hstart := monthStart_le (isLeap date.year) (Nat.zero_le date.month) (by have := date.month_lt; omega)
  have hend := monthStart_le (isLeap date.year) (Nat.succ_le_of_lt date.month_lt) (by decide)
  have hnext := yearStart_succ date.year
  rw [monthStart_zero] at hstart
  rw [monthStart_twelve, Nat.succ_eq_add_one] at hend
  rw [monthLength] at hle
  apply yearOf_eq
  · rw [number_eq]
    omega
  · rw [number_eq]
    omega

theorem Date.ext' {a b : Date} (hyear : a.year = b.year) (hmonth : a.month = b.month)
    (hday : a.day = b.day) : a = b := by
  cases a
  cases b
  simp only at hyear hmonth hday
  subst hyear hmonth hday
  rfl

/-- A date is known by its number. -/
@[simp] theorem dateOf_number (date : Date) : dateOf date.number = date := by
  have hyear := yearOf_number date
  have hday : date.number - yearStart date.year =
      monthStart (isLeap date.year) date.month + (date.day - 1) := by
    rw [number_eq]
    omega
  have hpos := date.day_pos
  have hle := date.day_le
  rw [monthLength] at hle
  have hmonth : monthOf (isLeap date.year) (date.number - yearStart date.year) = date.month := by
    apply monthOf_eq date.month_lt
    · omega
    · omega
  have hmonth' : (dateOf date.number).month = date.month := by
    rw [month_dateOf, hyear, hmonth]
  apply Date.ext' hyear hmonth'
  rw [day_dateOf, hmonth', hyear]
  omega

/-! ## Order -/

theorem yearStart_le {a b : ℤ} (h : a ≤ b) : yearStart a ≤ yearStart b := by
  rcases eq_or_lt_of_le h with rfl | hlt
  · exact le_rfl
  · have hstart := yearStart_lt hlt
    omega

theorem le_yearOf {year day : ℤ} (h : yearStart year ≤ day) : year ≤ yearOf day := by
  by_contra hless
  have hend := (yearOf_spec day).2
  have hle := yearStart_le (show yearOf day + 1 ≤ year by omega)
  omega

theorem yearOf_lt {year day : ℤ} (h : day < yearStart year) : yearOf day < year := by
  by_contra hless
  have hstart := (yearOf_spec day).1
  have hle := yearStart_le (show year ≤ yearOf day by omega)
  omega

theorem makeDay_month {year : ℤ} {month : ℕ} (hmonth : month < 12) (day : ℤ) :
    makeDay year month day = yearStart year + monthStart (isLeap year) month + (day - 1) := by
  have hyear : year + (month : ℤ) / 12 = year := by omega
  have hindex : ((month : ℤ) % 12).toNat = month := by omega
  rw [makeDay, hyear, hindex]

/-- The day of a year and month, counted on, has a date that is not before them. -/
theorem le_dateOf {year : ℤ} {month : ℕ} {day number : ℤ} (hmonth : month < 12) (hday : 1 ≤ day)
    (h : makeDay year month day ≤ number) :
    year < (dateOf number).year ∨ year = (dateOf number).year ∧
      (month < (dateOf number).month ∨ month = (dateOf number).month ∧ day ≤ (dateOf number).day) := by
  rw [makeDay_month hmonth] at h
  have hstart := monthStart_le (isLeap year) (Nat.zero_le month) (by omega)
  rw [monthStart_zero] at hstart
  have hle : year ≤ (dateOf number).year := le_yearOf (by omega)
  rcases eq_or_lt_of_le hle with hyear | hlt
  · refine Or.inr ⟨hyear, ?_⟩
    have hnumber := number_eq (dateOf number)
    have hlast := (dateOf number).day_le
    rw [number_dateOf, ← hyear] at hnumber
    rw [monthLength, ← hyear] at hlast
    rcases lt_trichotomy month (dateOf number).month with hless | hsame | hmore
    · exact Or.inl hless
    · refine Or.inr ⟨hsame, ?_⟩
      rw [← hsame] at hnumber
      omega
    · have hnext := monthStart_le (isLeap year) (Nat.succ_le_of_lt hmore) (by omega)
      rw [Nat.succ_eq_add_one] at hnext
      omega
  · exact Or.inl hlt

/-- A day before the first of a month has a date before that month. -/
theorem dateOf_lt {year : ℤ} {month : ℕ} {number : ℤ} (hmonth : month < 12)
    (h : number < makeDay year month 1) :
    (dateOf number).year < year ∨ (dateOf number).year = year ∧ (dateOf number).month < month := by
  by_contra hless
  have hfirst : (dateOf number).number = number := number_dateOf number
  rw [number_eq] at hfirst
  rw [makeDay_month hmonth] at h
  have hpos := (dateOf number).day_pos
  have hlt := (dateOf number).month_lt
  rcases lt_trichotomy (dateOf number).year year with hyear | hyear | hyear
  · exact hless (Or.inl hyear)
  · have hle : month ≤ (dateOf number).month := by
      by_contra hbefore
      exact hless (Or.inr ⟨hyear, not_le.mp hbefore⟩)
    have hmonths := monthStart_le (isLeap year) hle (by omega)
    rw [hyear] at hfirst
    omega
  · have hnext := yearStart_lt hyear
    have hstart := monthStart_le (isLeap (dateOf number).year) (Nat.zero_le _) (Nat.lt_succ_of_lt hlt)
    have hend := yearStart_succ year
    have htwelve := monthStart_le (isLeap year) hmonth.le (by decide)
    have hyears := yearStart_le (show year + 1 ≤ (dateOf number).year by omega)
    rw [monthStart_zero] at hstart
    rw [monthStart_twelve] at htwelve
    omega

/-! ## The last of a month -/

/-- No later day of the month is a date. -/
def Date.IsLast (date : Date) : Prop := date.day = monthLength (isLeap date.year) date.month

instance (date : Date) : Decidable date.IsLast := inferInstanceAs (Decidable (_ = _))

/-- The day after the last of a month, and no other, is followed by a first. -/
theorem day_succ (day : ℤ) : (dateOf (day + 1)).day = 1 ↔ (dateOf day).IsLast := by
  obtain ⟨date, rfl⟩ : ∃ date : Date, date.number = day := ⟨dateOf day, number_dateOf day⟩
  rw [dateOf_number]
  have hpos := date.day_pos
  have hle := date.day_le
  have hlt := date.month_lt
  constructor
  · intro hfirst
    by_contra hlast
    rw [Date.IsLast] at hlast
    let next : Date := ⟨date.year, date.month, date.day + 1, hlt, by omega, by omega⟩
    have hnext : next.number = date.number + 1 := by
      rw [number_eq, number_eq]
      dsimp only [next]
      omega
    rw [← hnext, dateOf_number] at hfirst
    dsimp only [next] at hfirst
    omega
  · intro hlast
    rw [Date.IsLast, monthLength] at hlast
    by_cases hyear : date.month = 11
    · have hsucc := yearStart_succ date.year
      have htwelve := monthStart_twelve (isLeap date.year)
      let next : Date := ⟨date.year + 1, 0, 1, by decide, le_rfl,
        by have := monthLength_pos (isLeap (date.year + 1)) 0 (by decide); omega⟩
      have hnext : next.number = date.number + 1 := by
        rw [number_eq, number_eq]
        dsimp only [next]
        rw [hyear] at hlast ⊢
        rw [monthStart_zero]
        norm_num at hlast
        omega
      rw [← hnext, dateOf_number]
    · let next : Date := ⟨date.year, date.month + 1, 1, by omega, le_rfl,
        by have := monthLength_pos (isLeap date.year) (date.month + 1) (by omega); omega⟩
      have hnext : next.number = date.number + 1 := by
        rw [number_eq, number_eq]
        dsimp only [next]
        omega
      rw [← hnext, dateOf_number]

/-! ## Weeks -/

/-- The day of the week, Sunday first. 1 January 1970 was a Thursday. -/
def weekday (day : ℤ) : ℤ := (day + 4) % 7

theorem weekday_bounds (day : ℤ) : 0 ≤ weekday day ∧ weekday day < 7 := by
  unfold weekday
  omega

end Sbarbase.Lib.Calendar
