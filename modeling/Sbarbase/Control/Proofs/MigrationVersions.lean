import Sbarbase.Control.Migrations
/-!
# Versions go forward

The version after the latest one is read off the second after it, carried over
as `Date.UTC` does it. That is a later text unless the carry goes backwards,
which only a month or a day that is zero makes it do, or leaves the years of four
digits.
-/

namespace Sbarbase.Control.Proofs.MigrationVersions

open Lib Lib.Calendar Control.Migrations

/-! ## Fields -/

/-- The number of a text with these six fields. -/
def joined (year month day hour minute second : ℕ) : ℕ :=
  ((((year * 100 + month) * 100 + day) * 100 + hour) * 100 + minute) * 100 + second

/-- Fields of two digits are compared one after another, those of the time of day
together. -/
theorem joined_lt {year month day hour minute second year' month' day' hour' minute' second' : ℕ}
    (hmonth : month < 100) (hday : day < 100) (hhour : hour < 100) (hminute : minute < 100)
    (hsecond : second < 100) (h : year < year' ∨ year = year' ∧ (month < month' ∨ month = month' ∧
      (day < day' ∨ day = day' ∧
        (hour * 100 + minute) * 100 + second < (hour' * 100 + minute') * 100 + second'))) :
    joined year month day hour minute second < joined year' month' day' hour' minute' second' := by
  unfold joined
  omega

/-- A slice is read as its parts are. -/
theorem field_split {text : List Char} {start middle stop : ℕ} (h : start ≤ middle) (h' : middle ≤ stop)
    (hstop : stop ≤ text.length) :
    field text start stop = field text start middle * 10 ^ (stop - middle) + field text middle stop := by
  have hparts : (text.drop start).take (stop - start) =
      (text.drop start).take (middle - start) ++ (text.drop middle).take (stop - middle) := by
    have hlength : stop - start = (middle - start) + (stop - middle) := by omega
    have hdrop : start + (middle - start) = middle := by omega
    rw [hlength, List.take_add, List.drop_drop, hdrop]
  have hlast : ((text.drop middle).take (stop - middle)).length = stop - middle := by
    rw [List.length_take, List.length_drop]
    omega
  rw [field, hparts, decimal_append, hlast, field, field]

theorem field_lt {text : List Char} (h : text.all isDigit = true) (start stop : ℕ) :
    field text start stop < 10 ^ (stop - start) := by
  have hdigits : ((text.drop start).take (stop - start)).all isDigit = true := by
    rw [List.all_eq_true] at h ⊢
    exact fun c hc => h c (List.mem_of_mem_drop (List.mem_of_mem_take hc))
  have hlt := decimal_lt hdigits
  rw [List.length_take, List.length_drop] at hlt
  exact hlt.trans_le (Nat.pow_le_pow_right (by decide) (Nat.min_le_left _ _))

/-- The six fields of a version. -/
structure Fields (text : List Char) (year month day hour minute second : ℕ) : Prop where
  year_eq : field text 0 4 = year
  month_eq : field text 4 6 = month
  day_eq : field text 6 8 = day
  hour_eq : field text 8 10 = hour
  minute_eq : field text 10 12 = minute
  second_eq : field text 12 14 = second
  year_lt : year < 10000
  month_lt : month < 100
  day_lt : day < 100
  hour_lt : hour < 100
  minute_lt : minute < 100
  second_lt : second < 100

theorem fields_of_isVersion {text : List Char} (h : isVersion text = true) :
    ∃ year month day hour minute second, Fields text year month day hour minute second ∧
      decimal text = joined year month day hour minute second := by
  rw [isVersion, Bool.and_eq_true, decide_eq_true_eq] at h
  obtain ⟨hlength, hdigits⟩ := h
  refine ⟨_, _, _, _, _, _, ⟨rfl, rfl, rfl, rfl, rfl, rfl, field_lt hdigits 0 4, field_lt hdigits 4 6,
    field_lt hdigits 6 8, field_lt hdigits 8 10, field_lt hdigits 10 12, field_lt hdigits 12 14⟩, ?_⟩
  have hwhole : decimal text = field text 0 14 := by
    rw [field, List.drop_zero, Nat.sub_zero, ← hlength, List.take_length]
  have hjoin : ∀ middle stop, middle ≤ stop → stop ≤ 14 →
      field text 0 stop = field text 0 middle * 10 ^ (stop - middle) + field text middle stop :=
    fun middle stop hmiddle hstop => field_split (Nat.zero_le _) hmiddle (by omega)
  rw [hwhole, hjoin 12 14 (by decide) (by decide), hjoin 10 12 (by decide) (by decide),
    hjoin 8 10 (by decide) (by decide), hjoin 6 8 (by decide) (by decide), hjoin 4 6 (by decide) (by decide)]
  rfl

/-! ## Stamps -/

theorem filter_padded (width n : ℕ) :
    (padded width n).filter (fun c => !(c = '-' || c = ':' || c = 'T')) = padded width n := by
  rw [List.filter_eq_self]
  intro c hc
  have hdigit := List.all_eq_true.mp (all_isDigit_padded width n) c hc
  have hnot : ∀ d, isDigit d = false → c ≠ d := by
    rintro d hd rfl
    rw [hd] at hdigit
    cases hdigit
  simp [hnot '-' (by decide), hnot ':' (by decide), hnot 'T' (by decide)]

theorem filter_isoYear_near {year : ℤ} (h : 0 ≤ year ∧ year ≤ 9999) :
    (isoYear year).filter (fun c => !(c = '-' || c = ':' || c = 'T')) = padded 4 year.toNat := by
  rw [isoYear, if_pos h, filter_padded]

theorem filter_isoYear_before {year : ℤ} (h : year < 0) :
    (isoYear year).filter (fun c => !(c = '-' || c = ':' || c = 'T')) = padded 6 year.natAbs := by
  rw [isoYear, if_neg (by omega), if_pos h, List.filter_cons_of_neg (by decide), filter_padded]

/-- The month, the day and the time of day. -/
def tail (time : Instant) : List Char :=
  padded 2 ((dateOf time.day).month + 1) ++ (padded 2 (dateOf time.day).day.toNat ++
    (padded 2 (time.ms / 3600000 % 24).toNat ++ (padded 2 (time.ms / 60000 % 60).toNat ++
    padded 2 (time.ms / 1000 % 60).toNat)))

/-- What is left of `toISOString` without its punctuation. -/
theorem stamp_eq (time : Instant) : ∃ rest, stamp time =
    (((isoYear (dateOf time.day).year).filter (fun c => !(c = '-' || c = ':' || c = 'T')) ++ tail time) ++
      rest).take 14 := by
  refine ⟨'.' :: (padded 3 (time.ms % 1000).toNat ++ ['Z']), ?_⟩
  rw [stamp, toISOString, tail]
  simp only [List.filter_append, List.filter_cons, filter_padded, List.append_assoc]
  rfl

theorem day_bounds (date : Date) : 1 ≤ date.day.toNat ∧ date.day.toNat < 100 := by
  have hpos := date.day_pos
  have hday := date.day_le
  have hlong := (monthLength_pos (isLeap date.year) _ date.month_lt).2
  omega

theorem length_tail (time : Instant) : (tail time).length = 10 := by
  have hmonth := (dateOf time.day).month_lt
  have hday := day_bounds (dateOf time.day)
  have htwo : ∀ n < 100, (padded 2 n).length = 2 := fun n hn => length_padded (by decide) hn
  rw [tail, List.length_append, List.length_append, List.length_append, List.length_append,
    htwo _ (by omega), htwo _ (by omega), htwo _ (by omega), htwo _ (by omega), htwo _ (by omega)]

theorem all_isDigit_tail (time : Instant) : (tail time).all isDigit = true := by
  simp only [tail, List.all_append, all_isDigit_padded, Bool.and_self]

/-- Years before 10000 leave fourteen digits. -/
theorem isVersion_stamp {time : Instant} (h : (dateOf time.day).year ≤ 9999) :
    isVersion (stamp time) = true := by
  have hhead : ∃ head : List Char, head.all isDigit = true ∧ 4 ≤ head.length ∧
      (isoYear (dateOf time.day).year).filter (fun c => !(c = '-' || c = ':' || c = 'T')) = head := by
    by_cases hnear : 0 ≤ (dateOf time.day).year
    · refine ⟨_, all_isDigit_padded _ _, ?_, filter_isoYear_near ⟨hnear, h⟩⟩
      rw [length_padded (by decide) (by omega)]
    · refine ⟨_, all_isDigit_padded _ _, ?_, filter_isoYear_before (not_le.mp hnear)⟩
      have hsoon : -999999 ≤ (dateOf time.day).year := by
        refine le_yearOf ?_
        have hwithin := time.within
        have hstart : yearStart (-999999) ≤ -100000000 := by decide
        unfold maxTime at hwithin
        rw [Instant.day]
        omega
      rw [length_padded (by decide) (by omega)]
      decide
  obtain ⟨head, hdigits, hfour, hyear⟩ := hhead
  obtain ⟨rest, hstamp⟩ := stamp_eq time
  have hlength := length_tail time
  rw [hstamp, hyear, List.take_append_of_le_length (by rw [List.length_append]; omega), isVersion,
    Bool.and_eq_true, decide_eq_true_eq]
  constructor
  · rw [List.length_take, List.length_append]
    omega
  · have hall : (head ++ tail time).all isDigit = true := by
      rw [List.all_append, hdigits, all_isDigit_tail]
      rfl
    rw [List.all_eq_true] at hall ⊢
    exact fun c hc => hall c (List.mem_of_mem_take hc)

/-- Years from 10000 on begin with their sign. -/
theorem head_stamp {time : Instant} (h : 9999 < (dateOf time.day).year) :
    ∃ rest, stamp time = '+' :: rest := by
  obtain ⟨rest, hstamp⟩ := stamp_eq time
  rw [isoYear, if_neg (by omega), if_neg (by omega), List.filter_cons_of_pos (by decide), List.cons_append,
    List.cons_append, List.take_succ_cons] at hstamp
  exact ⟨_, hstamp⟩

theorem isVersion_stamp_iff (time : Instant) :
    isVersion (stamp time) = true ↔ (dateOf time.day).year ≤ 9999 := by
  constructor
  · intro h
    by_contra hfar
    obtain ⟨rest, hhead⟩ := head_stamp (not_le.mp hfar)
    rw [hhead, isVersion, List.all_cons, show isDigit '+' = false from rfl] at h
    simp at h
  · exact isVersion_stamp

/-- A sign stands before every digit. -/
theorem stamp_le_of_far {time : Instant} (h : 9999 < (dateOf time.day).year) {last : List Char}
    (hlast : isVersion last = true) : stamp time ≤ last := by
  obtain ⟨rest, hhead⟩ := head_stamp h
  rw [isVersion, Bool.and_eq_true, decide_eq_true_eq] at hlast
  obtain ⟨hlength, hdigits⟩ := hlast
  cases last with
  | nil => cases hlength
  | cons c last =>
      rw [List.all_cons, Bool.and_eq_true] at hdigits
      have hless : '+' < c := by
        have hdigit := hdigits.1
        simp only [isDigit, Bool.and_eq_true, decide_eq_true_eq] at hdigit
        exact lt_of_lt_of_le (by decide) hdigit.1
      rw [hhead]
      exact (List.cons_lt_cons_iff.mpr (Or.inl hless)).le

/-- The number of the stamp of a time in the years of four digits. -/
theorem decimal_stamp {time : Instant} (h : 0 ≤ (dateOf time.day).year ∧ (dateOf time.day).year ≤ 9999) :
    decimal (stamp time) = joined (dateOf time.day).year.toNat ((dateOf time.day).month + 1)
      (dateOf time.day).day.toNat (time.ms / 3600000 % 24).toNat (time.ms / 60000 % 60).toNat
      (time.ms / 1000 % 60).toNat := by
  have hmonth := (dateOf time.day).month_lt
  have hday := day_bounds (dateOf time.day)
  have htwo : ∀ n < 100, (padded 2 n).length = 2 := fun n hn => length_padded (by decide) hn
  obtain ⟨rest, hstamp⟩ := stamp_eq time
  have hlength := length_tail time
  have hwhole : (padded 4 (dateOf time.day).year.toNat ++ tail time).length = 14 := by
    rw [List.length_append, length_padded (by decide) (by omega), hlength]
  rw [hstamp, filter_isoYear_near h, List.take_append_of_le_length hwhole.ge, ← hwhole, List.take_length, tail]
  simp only [decimal_append, decimal_padded, List.length_append, joined]
  rw [htwo _ (by omega), htwo _ (by omega), htwo _ (by omega), htwo _ (by omega), htwo _ (by omega)]
  omega

/-! ## The second after a version -/

/-- The year that `Date.UTC` takes a field for. -/
def century (year : ℕ) : ℤ := if year ≤ 99 then 1900 + year else year

/-- The seconds behind the day of a version, with one more. -/
def seconds (text : List Char) : ℕ := 3600 * field text 8 10 + 60 * field text 10 12 + field text 12 14 + 1

/-- The day of the second after a version: what the time of day is too long by is
counted on. -/
def nextDay (text : List Char) : ℤ :=
  makeDay (century (field text 0 4)) ((field text 4 6 : ℤ) - 1) (field text 6 8) + (seconds text / 86400 : ℕ)

theorem timeOf_succ (text : List Char) : timeOf text + 1000 =
    86400000 * makeDay (century (field text 0 4)) ((field text 4 6 : ℤ) - 1) (field text 6 8) +
      1000 * seconds text := by
  have hcentury : (if 0 ≤ (field text 0 4 : ℤ) ∧ (field text 0 4 : ℤ) ≤ 99 then 1900 + (field text 0 4 : ℤ)
      else field text 0 4) = century (field text 0 4) := by
    rw [century]
    by_cases h : field text 0 4 ≤ 99
    · rw [if_pos h, if_pos ⟨by omega, by omega⟩]
    · rw [if_neg h, if_neg (by omega)]
  rw [timeOf, dateUtc, hcentury, seconds]
  push_cast
  ring

theorem le_makeDay (year month day : ℤ) : yearStart (year + month / 12) + (day - 1) ≤ makeDay year month day := by
  have hstart := monthStart_le (isLeap (year + month / 12)) (Nat.zero_le (month % 12).toNat) (by omega)
  rw [monthStart_zero] at hstart
  rw [makeDay]
  omega

theorem makeDay_lt (year month day : ℤ) : makeDay year month day < yearStart (year + month / 12 + 1) + (day - 1) := by
  have hend := monthStart_lt (isLeap (year + month / 12)) 12 (by decide) (month % 12).toNat (by omega)
  have hnext := yearStart_succ (year + month / 12)
  rw [monthStart_twelve] at hend
  rw [makeDay]
  omega

theorem century_bounds {year : ℕ} (h : year < 10000) : 100 ≤ century year ∧ century year ≤ 9999 := by
  unfold century
  split_ifs <;> omega

/-- The second after a version is within the range of a `Date`. -/
theorem newDate_succ {text : List Char} (h : isVersion text = true) :
    ∃ time, newDate (timeOf text + 1000) = .ok time ∧
      time.ms = 86400000 * makeDay (century (field text 0 4)) ((field text 4 6 : ℤ) - 1) (field text 6 8) +
        1000 * seconds text := by
  obtain ⟨year, month, day, hour, minute, second, hf, -⟩ := fields_of_isVersion h
  have hcentury := century_bounds hf.year_lt
  have hlow := le_makeDay (century year) ((month : ℤ) - 1) day
  have hhigh := makeDay_lt (century year) ((month : ℤ) - 1) day
  have hmonth := hf.month_lt
  have hday := hf.day_lt
  have hhour := hf.hour_lt
  have hminute := hf.minute_lt
  have hsecond := hf.second_lt
  have hfirst := yearStart_le (show 98 ≤ century year + ((month : ℤ) - 1) / 12 by omega)
  have hlast := yearStart_le (show century year + ((month : ℤ) - 1) / 12 + 1 ≤ 10010 by omega)
  have hfirst' : -700000 ≤ yearStart 98 := by decide
  have hlast' : yearStart 10010 ≤ 3000000 := by decide
  have hwithin : -maxTime ≤ timeOf text + 1000 ∧ timeOf text + 1000 ≤ maxTime := by
    rw [timeOf_succ, seconds, hf.year_eq, hf.month_eq, hf.day_eq, hf.hour_eq, hf.minute_eq, hf.second_eq]
    unfold maxTime
    omega
  refine ⟨⟨_, hwithin⟩, ?_, timeOf_succ text⟩
  rw [newDate, dif_pos hwithin]

/-- The carry of a version goes back: its month is zero and its day does not lead
into the year, or its day is zero in a month that has one before it and its time
of day does not lead into the month. -/
def Behind (text : List Char) : Prop :=
  (field text 4 6 = 0 ∧ field text 6 8 + seconds text / 86400 < 32) ∨
    (1 ≤ field text 4 6 ∧ field text 4 6 ≤ 13 ∧ field text 6 8 + seconds text / 86400 = 0)

/-- The second after a version is in the years of four digits, and the carry does
not go back unless it leads into the twentieth century. -/
def Ahead (text : List Char) : Prop :=
  yearOf (nextDay text) ≤ 9999 ∧ (field text 0 4 ≤ 99 ∨ ¬ Behind text)

/-- A later time of day. -/
theorem clock_succ {hour minute second total : ℕ} (hminute : minute < 100) (hsecond : second < 100)
    (htotal : total = 3600 * hour + 60 * minute + second + 1) (hday : total < 86400) :
    (hour * 100 + minute) * 100 + second <
      (total / 3600 % 24 * 100 + total / 60 % 60) * 100 + total % 60 := by
  omega

/-- The month before the first one of a year, and the day before a day of it. -/
theorem makeDay_zero (year : ℤ) (day : ℤ) : makeDay year (-1) day = yearStart year + day - 32 := by
  have hnext := yearStart_succ (year - 1)
  have hyear : year + (-1 : ℤ) / 12 = year - 1 := by omega
  have hmonth : ((-1 : ℤ) % 12).toNat = 11 := by decide
  rw [sub_add_cancel] at hnext
  rw [makeDay, hyear, hmonth, hnext]
  cases isLeap (year - 1) <;> simp [monthStart] <;> omega

/-- Where the carry does not go back, the date is the fields', or later. -/
theorem date_ahead (year : ℤ) (month day extra : ℕ) (hzero : month = 0 → 32 ≤ day + extra)
    (hfirst : 1 ≤ month → month ≤ 13 → 1 ≤ day + extra) :
    year < (dateOf (makeDay year ((month : ℤ) - 1) day + extra)).year ∨
      year = (dateOf (makeDay year ((month : ℤ) - 1) day + extra)).year ∧
        (month < (dateOf (makeDay year ((month : ℤ) - 1) day + extra)).month + 1 ∨
          month = (dateOf (makeDay year ((month : ℤ) - 1) day + extra)).month + 1 ∧
            (day + extra : ℤ) ≤ (dateOf (makeDay year ((month : ℤ) - 1) day + extra)).day) := by
  rcases Nat.eq_zero_or_pos month with rfl | hpos
  · have hday := hzero rfl
    have hle : year ≤ (dateOf (makeDay year (((0 : ℕ) : ℤ) - 1) day + extra)).year := by
      refine le_yearOf ?_
      rw [Nat.cast_zero, zero_sub, makeDay_zero]
      omega
    rcases eq_or_lt_of_le hle with heq | hlt
    · exact Or.inr ⟨heq, Or.inl (Nat.succ_pos _)⟩
    · exact Or.inl hlt
  by_cases hyear : month ≤ 12
  · have hday := hfirst hpos (by omega)
    have hindex : ((month : ℤ) - 1) = ((month - 1 : ℕ) : ℤ) := by omega
    have hstart : makeDay year (month - 1 : ℕ) (day + extra) ≤ makeDay year ((month : ℤ) - 1) day + extra := by
      rw [hindex, makeDay_month (by omega), makeDay_month (by omega)]
      omega
    have hle := le_dateOf (by omega) (by omega) hstart
    omega
  · -- beyond the year the day cannot lead back into it
    refine Or.inl ?_
    have hlater : yearStart (year + 1) ≤ makeDay year ((month : ℤ) - 1) day + extra := by
      have hlow := le_makeDay year ((month : ℤ) - 1) day
      by_cases hthirteen : month = 13
      · have hday := hfirst hpos (by omega)
        have hone : ((month : ℤ) - 1) / 12 = 1 := by omega
        rw [hone] at hlow
        omega
      by_cases htwo : month ≤ 24
      · have hone : ((month : ℤ) - 1) / 12 = 1 := by omega
        have hindex := monthStart_lt (isLeap (year + 1)) (((month : ℤ) - 1) % 12).toNat (by omega) 0 (by omega)
        rw [monthStart_zero] at hindex
        rw [makeDay, hone]
        omega
      · have hstart := yearStart_lt (show year + 1 < year + ((month : ℤ) - 1) / 12 by omega)
        omega
    exact lt_of_lt_of_le (lt_add_one year) (le_yearOf hlater)

/-- Where the carry goes back, the date is in an earlier month. -/
theorem date_behind (year : ℤ) {month day extra : ℕ}
    (h : (month = 0 ∧ day + extra < 32) ∨ (1 ≤ month ∧ month ≤ 13 ∧ day + extra = 0)) :
    (dateOf (makeDay year ((month : ℤ) - 1) day + extra)).year < year ∨
      (dateOf (makeDay year ((month : ℤ) - 1) day + extra)).year = year ∧
        (dateOf (makeDay year ((month : ℤ) - 1) day + extra)).month + 1 < month := by
  rcases h with ⟨rfl, hday⟩ | ⟨hpos, hlast, hday⟩
  · refine Or.inl (yearOf_lt ?_)
    rw [Nat.cast_zero, zero_sub, makeDay_zero]
    omega
  obtain ⟨rfl, rfl⟩ : day = 0 ∧ extra = 0 := ⟨by omega, by omega⟩
  by_cases hyear : month ≤ 12
  · have hindex : ((month : ℤ) - 1) = ((month - 1 : ℕ) : ℤ) := by omega
    have hend : makeDay year ((month : ℤ) - 1) (0 : ℕ) + (0 : ℕ) < makeDay year (month - 1 : ℕ) 1 := by
      rw [hindex, makeDay_month (by omega), makeDay_month (by omega)]
      omega
    have hlt := dateOf_lt (by omega) hend
    omega
  · obtain rfl : month = 13 := by omega
    have hend : (dateOf (makeDay year (((13 : ℕ) : ℤ) - 1) (0 : ℕ) + (0 : ℕ))).year < year + 1 := by
      have hhigh : makeDay year 12 (0 : ℕ) = yearStart (year + 1) - 1 := by
        rw [makeDay]
        norm_num
        rw [monthStart_zero]
        omega
      refine yearOf_lt ?_
      norm_num
      rw [show (0 : ℤ) = ((0 : ℕ) : ℤ) from rfl, hhigh]
      omega
    have hmonth := (dateOf (makeDay year (((13 : ℕ) : ℤ) - 1) (0 : ℕ) + (0 : ℕ))).month_lt
    omega

/-- The time of the second after a version. -/
structure IsNext (text : List Char) (time : Instant) : Prop where
  day_eq : time.day = nextDay text
  hour_eq : (time.ms / 3600000 % 24).toNat = seconds text / 3600 % 24
  minute_eq : (time.ms / 60000 % 60).toNat = seconds text / 60 % 60
  second_eq : (time.ms / 1000 % 60).toNat = seconds text % 60

theorem next_spec {text : List Char} (h : isVersion text = true) :
    ∃ time, newDate (timeOf text + 1000) = .ok time ∧ IsNext text time := by
  obtain ⟨time, hdate, hms⟩ := newDate_succ h
  refine ⟨time, hdate, ?_, ?_, ?_, ?_⟩
  · rw [Instant.day, nextDay, hms]
    omega
  · rw [hms]
    omega
  · rw [hms]
    omega
  · rw [hms]
    omega

/-- The second after a version is written as a later version exactly when the
version is one that is led ahead. -/
theorem stamp_next {text : List Char} (h : isVersion text = true) {time : Instant} (hnext : IsNext text time) :
    (isVersion (stamp time) = true ∧ text < stamp time) ↔ Ahead text := by
  rw [isVersion_stamp_iff, hnext.day_eq, year_dateOf, Ahead]
  refine and_congr_right fun hnear => ?_
  obtain ⟨year, month, day, hour, minute, second, hf, hdecimal⟩ := fields_of_isVersion h
  have hcentury := century_bounds hf.year_lt
  have hmonth := hf.month_lt
  have hday := hf.day_lt
  have hhour := hf.hour_lt
  have hminute := hf.minute_lt
  have hsecond := hf.second_lt
  have hnext' : nextDay text = makeDay (century year) ((month : ℤ) - 1) day + (seconds text / 86400 : ℕ) := by
    rw [nextDay, hf.year_eq, hf.month_eq, hf.day_eq]
  have hseconds : seconds text = 3600 * hour + 60 * minute + second + 1 := by
    rw [seconds, hf.hour_eq, hf.minute_eq, hf.second_eq]
  have hdates := (dateOf time.day).month_lt
  have hdays := day_bounds (dateOf time.day)
  have hyear : (dateOf time.day).year = yearOf (nextDay text) := by rw [hnext.day_eq, year_dateOf]
  have hlow := le_makeDay (century year) ((month : ℤ) - 1) day
  have hsoon : 97 ≤ (dateOf time.day).year := by
    have hstart := yearStart_lt (show 97 < century year + ((month : ℤ) - 1) / 12 by omega)
    rw [hyear, hnext']
    exact le_yearOf (by omega)
  rw [← hyear] at hnear
  have hstamp := isVersion_stamp hnear
  have hrows := h
  rw [isVersion, Bool.and_eq_true, decide_eq_true_eq] at hstamp hrows
  rw [lt_iff_decimal (hrows.1.trans hstamp.1.symm) hrows.2 hstamp.2, hdecimal,
    decimal_stamp ⟨by omega, hnear⟩, hnext.hour_eq, hnext.minute_eq, hnext.second_eq, Behind, hf.year_eq,
    hf.month_eq, hf.day_eq]
  by_cases hold : year ≤ 99
  · -- the twentieth century is later than any year of two digits
    have hlater : 1898 ≤ (dateOf time.day).year := by
      have hyears : century year = 1900 + year := if_pos hold
      have hstart := yearStart_lt (show 1898 < century year + ((month : ℤ) - 1) / 12 by omega)
      rw [hyear, hnext']
      exact le_yearOf (by omega)
    refine iff_of_true ?_ (Or.inl hold)
    exact joined_lt hmonth hday hhour hminute hsecond (Or.inl (by omega))
  have hyears : century year = year := if_neg hold
  rw [hyears] at hnext'
  rw [or_iff_right hold]
  by_cases hback : (month = 0 ∧ day + seconds text / 86400 < 32) ∨
      (1 ≤ month ∧ month ≤ 13 ∧ day + seconds text / 86400 = 0)
  · have hdate := date_behind year hback
    rw [← hnext', ← hnext.day_eq] at hdate
    refine iff_of_false (not_lt.mpr (le_of_lt ?_)) (not_not.mpr hback)
    refine joined_lt (by omega) (by omega) (by omega) (by omega) (by omega) ?_
    rcases hdate with hless | ⟨hsame, hless⟩
    · exact Or.inl (by omega)
    · exact Or.inr ⟨by omega, Or.inl hless⟩
  · obtain ⟨hzero, hfirst⟩ := not_or.mp hback
    have hdate := date_ahead year month day (seconds text / 86400) (by omega) (by omega)
    rw [← hnext', ← hnext.day_eq] at hdate
    refine iff_of_true ?_ hback
    refine joined_lt hmonth hday hhour hminute hsecond ?_
    rcases hdate with hless | ⟨hsame, hless | ⟨hsame', hless⟩⟩
    · exact Or.inl (by omega)
    · exact Or.inr ⟨by omega, Or.inl hless⟩
    refine Or.inr ⟨by omega, Or.inr ⟨hsame', ?_⟩⟩
    by_cases hextra : seconds text < 86400
    · have hclock := clock_succ hminute hsecond hseconds hextra
      omega
    · exact Or.inl (by omega)

/-! ## The law -/

/-- A version behind everything a history has of its kind. -/
def Follows (history : List (List Char)) (chosen : List Char) : Prop :=
  isVersion chosen = true ∧ ∀ recorded ∈ history, isVersion recorded = true → recorded < chosen

theorem latest_none {history : List (List Char)} (h : latest history = none) :
    ∀ recorded ∈ history, ¬ isVersion recorded = true := by
  rw [latest, List.max?_eq_none_iff] at h
  intro recorded hmem hversion
  have hin := List.mem_filter.mpr ⟨hmem, hversion⟩
  rw [h] at hin
  cases hin

theorem latest_some {history : List (List Char)} {last : List Char} (h : latest history = some last) :
    (last ∈ history ∧ isVersion last = true) ∧
      ∀ recorded ∈ history, isVersion recorded = true → recorded ≤ last := by
  obtain ⟨hin, hmax⟩ := List.max?_eq_some_iff.mp h
  exact ⟨List.mem_filter.mp hin, fun recorded hmem hversion => hmax recorded (List.mem_filter.mpr ⟨hmem, hversion⟩)⟩

theorem follows_iff {history : List (List Char)} {last chosen : List Char} (h : latest history = some last) :
    Follows history chosen ↔ isVersion chosen = true ∧ last < chosen := by
  obtain ⟨⟨hin, hversion⟩, hmax⟩ := latest_some h
  constructor
  · rintro ⟨hchosen, hall⟩
    exact ⟨hchosen, hall last hin hversion⟩
  · rintro ⟨hchosen, hlt⟩
    exact ⟨hchosen, fun recorded hmem hkind => (hmax recorded hmem hkind).trans_lt hlt⟩

/-- The clock is behind every version of the history, or the latest of them is one
that is led ahead. With no version the clock has to be in the years of four digits. -/
def Sound (history : List (List Char)) (clock : Instant) : Prop :=
  match latest history with
  | none => (dateOf clock.day).year ≤ 9999
  | some last => last < stamp clock ∨ Ahead last

theorem version_follows (history : List (List Char)) (clock : Instant) :
    (∃ chosen, version history clock = .ok chosen ∧ Follows history chosen) ↔ Sound history clock := by
  rw [version, Sound]
  cases hlast : latest history with
  | none =>
      dsimp only
      rw [← isVersion_stamp_iff]
      constructor
      · rintro ⟨chosen, hchosen, hversion, -⟩
        cases hchosen
        exact hversion
      · exact fun h => ⟨_, rfl, h, fun recorded hmem hkind => absurd hkind (latest_none hlast recorded hmem)⟩
  | some last =>
      dsimp only
      have hversion := (latest_some hlast).1.2
      by_cases hle : stamp clock ≤ last
      · obtain ⟨time, hdate, hnext⟩ := next_spec hversion
        rw [if_pos hle, hdate, or_iff_right (not_lt.mpr hle), ← stamp_next hversion hnext,
          ← follows_iff hlast]
        constructor
        · rintro ⟨chosen, hchosen, hfollows⟩
          cases hchosen
          exact hfollows
        · exact fun h => ⟨_, rfl, h⟩
      · have hlt := not_le.mp hle
        have hnear : (dateOf clock.day).year ≤ 9999 := by
          by_contra hfar
          exact hle (stamp_le_of_far (not_le.mp hfar) hversion)
        rw [if_neg hle]
        refine iff_of_true ⟨_, rfl, ?_⟩ (Or.inl hlt)
        rw [follows_iff hlast]
        exact ⟨isVersion_stamp hnear, hlt⟩

/-- Every migration of a run finds a sound history. -/
def AllSound : List (List Char) → List Instant → Prop
  | _, [] => True
  | history, clock :: clocks => Sound history clock ∧
    ∀ chosen, version history clock = .ok chosen → AllSound (chosen :: history) clocks

theorem versions_follow {history : List (List Char)} {clocks : List Instant} (h : AllSound history clocks) :
    ∃ chosen, versions history clocks = .ok chosen ∧ chosen.Pairwise (· < ·) ∧
      ∀ first ∈ chosen, Follows history first := by
  induction clocks generalizing history with
  | nil => exact ⟨[], rfl, List.Pairwise.nil, by simp⟩
  | cons clock clocks ih =>
      obtain ⟨hsound, hrest⟩ := h
      obtain ⟨first, hfirst, hfollows⟩ := (version_follows history clock).mpr hsound
      obtain ⟨later, hlater, hsorted, hafter⟩ := ih (hrest first hfirst)
      refine ⟨first :: later, ?_, ?_, ?_⟩
      · rw [versions, hfirst]
        change (versions (first :: history) clocks >>= fun later => pure (first :: later)) = _
        rw [hlater]
        rfl
      · exact List.Pairwise.cons (fun next hmem => (hafter next hmem).2 first (List.mem_cons_self ..) hfollows.1)
          hsorted
      · intro next hmem
        rcases List.mem_cons.mp hmem with rfl | hmem
        · exact hfollows
        · exact ⟨(hafter next hmem).1, fun recorded hin => (hafter next hmem).2 recorded (List.mem_cons_of_mem _ hin)⟩

/-- `migrate` chooses a version behind all of the history exactly when the history
is sound, and migrations that all find it so are recorded in their order. -/
theorem migrate_law (history : List (List Char)) (clock : Instant) :
    ((∃ chosen, version history clock = .ok chosen ∧ Follows history chosen) ↔
      Sound history clock) ∧
    ∀ clocks, AllSound history clocks → ∃ chosen, versions history clocks = .ok chosen ∧
      chosen.Pairwise (· < ·) ∧ ∀ first ∈ chosen, Follows history first :=
  ⟨version_follows history clock, fun _ => versions_follow⟩

/-- Two migrations of one second. -/
theorem migrate_law_twice : ∃ chosen, versions []
    [⟨1767225599000, by decide⟩, ⟨1767225599000, by decide⟩] = .ok chosen ∧
      chosen.Pairwise (· < ·) ∧ ∀ first ∈ chosen, Follows [] first := by
  have hfirst : version [] ⟨1767225599000, by decide⟩ = .ok "20251231235959".toList := by decide
  have hahead : Ahead "20251231235959".toList :=
    ⟨by decide, Or.inr (by unfold Behind; decide)⟩
  refine (migrate_law _ ⟨1767225599000, by decide⟩).2 _ ⟨(by decide : _ ≤ _), fun chosen hchosen => ⟨?_, fun _ _ => trivial⟩⟩
  rw [hfirst] at hchosen
  cases hchosen
  exact Or.inr hahead

/-- The migration after a version whose day is zero takes an earlier one, and the
migration after that the same. -/
theorem day_zero : version ["20990100000000".toList] ⟨1767225599000, by decide⟩ = .ok "20981231000001".toList ∧
    ¬ Follows ["20990100000000".toList] "20981231000001".toList ∧
    version ["20981231000001".toList, "20990100000000".toList] ⟨1767225599000, by decide⟩ =
      .ok "20981231000001".toList := by
  refine ⟨by decide, fun h => ?_, by decide⟩
  exact absurd (h.2 _ (List.mem_singleton_self _) (by decide)) (by decide)

end Sbarbase.Control.Proofs.MigrationVersions
