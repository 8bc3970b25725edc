import Sbarbase.Scheduler.Cron
import Mathlib.Data.List.Basic
import Mathlib.Data.List.Nodup
/-!
# Each minute is looked at once

One reading either looks at nothing and keeps `last`, or looks past `last` and
moves it to the current minute. The minutes of a run therefore ascend, and only
a jump of more than three hours leaves minutes between them.
-/

namespace Sbarbase.Scheduler.Proofs.CatchUp

/-- The minutes looked at for one kind of jobs. -/
def minutesFor (kind : Look → Bool) (looks : List Look) : List ℕ :=
  (looks.filter kind).map Look.start

@[simp] theorem minutesFor_append (kind : Look → Bool) (looks more : List Look) :
    minutesFor kind (looks ++ more) = minutesFor kind looks ++ minutesFor kind more := by
  simp [minutesFor]

theorem minutesFor_map (wild fixed : Bool) (kind : Look → Bool)
    (hkind : ∀ start, kind ⟨start, wild, fixed⟩ = true) (minutes : List ℕ) :
    minutesFor kind (minutes.map fun start => ⟨start, wild, fixed⟩) = minutes := by
  induction minutes with
  | nil => rfl
  | cons start minutes ih =>
    simp only [minutesFor] at ih
    simp [minutesFor, hkind, ih]

/-! ## Minutes -/

theorem minuteStart_eq (ms : ℕ) : minuteStart ms = MINUTE * (ms / MINUTE) := by
  have hdiv := Nat.div_add_mod ms MINUTE
  unfold minuteStart
  omega

theorem dvd_minuteStart (ms : ℕ) : MINUTE ∣ minuteStart ms := by
  rw [minuteStart_eq]
  exact Nat.dvd_mul_right _ _

theorem minuteStart_le (ms : ℕ) : minuteStart ms ≤ ms :=
  Nat.sub_le _ _

theorem lt_minuteStart_add (ms : ℕ) : ms < minuteStart ms + MINUTE := by
  have hmod : ms % MINUTE < MINUTE := Nat.mod_lt _ (by decide)
  unfold minuteStart
  omega

theorem le_minuteStart {m ms : ℕ} (hm : MINUTE ∣ m) (hle : m ≤ ms) : m ≤ minuteStart ms := by
  rw [minuteStart_eq]
  obtain ⟨k, rfl⟩ := hm
  apply Nat.mul_le_mul_left
  exact (Nat.le_div_iff_mul_le (by decide)).mpr (by rwa [Nat.mul_comm])

section

variable {last current : ℕ}

theorem mem_minutesAfter (hlast : MINUTE ∣ last) (hcurrent : MINUTE ∣ current) {m : ℕ} :
    m ∈ minutesAfter last current ↔ MINUTE ∣ m ∧ last < m ∧ m ≤ current := by
  obtain ⟨k, rfl⟩ := hlast
  obtain ⟨n, rfl⟩ := hcurrent
  have hpassed : (MINUTE * n - MINUTE * k) / MINUTE = n - k := by
    rw [← Nat.mul_sub, Nat.mul_div_cancel_left _ (by decide)]
  simp only [minutesAfter, List.mem_map, List.mem_range, hpassed]
  constructor
  · rintro ⟨i, hi, rfl⟩
    refine ⟨⟨k + (i + 1), (Nat.mul_add _ _ _).symm⟩, ?_, ?_⟩
    · simp only [MINUTE]
      omega
    · simp only [MINUTE]
      omega
  · rintro ⟨⟨j, rfl⟩, hlt, hle⟩
    simp only [MINUTE] at hlt hle ⊢
    exact ⟨j - k - 1, by omega, by omega⟩

theorem pairwise_minutesAfter : (minutesAfter last current).Pairwise (· < ·) := by
  unfold minutesAfter
  rw [List.pairwise_map]
  refine List.pairwise_lt_range.imp ?_
  intro i j hij
  simp only [MINUTE]
  omega

end

/-! ## One reading -/

section

variable {last now : ℕ}

theorem passed_eq (h : last ≤ now) :
    ((now : ℤ) - last).tdiv MINUTE = ((now - last) / MINUTE : ℕ) := by
  rw [← Int.ofNat_sub h]
  rfl

theorem passed_nonpos (h : now < last) : ((now : ℤ) - last).tdiv MINUTE ≤ 0 := by
  have hneg : ((now : ℤ) - last) = -((last - now : ℕ) : ℤ) := by omega
  rw [hneg, Int.neg_tdiv]
  have hpos : 0 ≤ ((last - now : ℕ) : ℤ).tdiv MINUTE := by
    exact Int.tdiv_nonneg (by omega) (by decide)
  omega

/-- What one reading does. Only the third case leaves minutes out. -/
inductive Moves (last now : ℕ) : List Look × ℕ → Prop
  | waits (hnow : now < last + MINUTE) : Moves last now ([], last)
  | passes (looks : List Look) (hfrom : last + MINUTE ≤ now) (hto : now < last + 181 * MINUTE)
      (hfixed : minutesFor Look.fixed looks = minutesAfter last (minuteStart now))
      (hwild : minutesFor Look.wild looks = minutesAfter last (minuteStart now) ∨
        minutesFor Look.wild looks = [minuteStart now])
      (hall : ∀ look ∈ looks, look.start ∈ minutesAfter last (minuteStart now) ∨
        look.start = minuteStart now) :
      Moves last now (looks, minuteStart now)
  | jumps (hfrom : last + 181 * MINUTE ≤ now) :
      Moves last now ([⟨minuteStart now, true, true⟩], minuteStart now)

theorem catchUp_moves (last now : ℕ) : Moves last now (catchUp last now) := by
  simp only [catchUp]
  by_cases hback : now < last
  · have hpassed := passed_nonpos hback
    have hwaits : Moves last now ([], last) := .waits (by omega)
    by_cases hzero : ((now : ℤ) - last).tdiv MINUTE = 0
    · rw [if_pos hzero]
      exact hwaits
    · rw [if_neg hzero, if_neg (by omega), if_neg (by omega), if_pos (by omega)]
      exact hwaits
  rw [passed_eq (Nat.le_of_not_lt hback)]
  have hdiv := Nat.div_add_mod (now - last) MINUTE
  have hmod : (now - last) % MINUTE < MINUTE := Nat.mod_lt _ (by decide)
  generalize hpassed : (now - last) / MINUTE = passed at *
  simp only [MINUTE] at hdiv hmod
  by_cases hzero : passed = 0
  · rw [if_pos (by omega)]
    exact .waits (by simp only [MINUTE]; omega)
  rw [if_neg (by omega)]
  by_cases hshort : passed ≤ 5
  · rw [if_pos (by omega)]
    refine .passes _ (by simp only [MINUTE]; omega) (by simp only [MINUTE]; omega) ?_ (.inl ?_) ?_
    · exact minutesFor_map _ _ _ (fun _ => rfl) _
    · exact minutesFor_map _ _ _ (fun _ => rfl) _
    · simp only [List.mem_map]
      rintro look ⟨m, hm, rfl⟩
      exact .inl hm
  rw [if_neg (by omega)]
  by_cases hlong : passed ≤ 180
  · rw [if_pos (by omega)]
    refine .passes _ (by simp only [MINUTE]; omega) (by simp only [MINUTE]; omega) ?_ (.inr ?_) ?_
    · rw [minutesFor_append, minutesFor_map _ _ _ (fun _ => rfl)]
      exact List.append_nil _
    · simp [minutesFor]
    · simp only [List.mem_append, List.mem_map, List.mem_singleton]
      rintro look (⟨m, hm, rfl⟩ | rfl)
      · exact .inl hm
      · exact .inr rfl
  rw [if_neg (by omega), if_neg (by omega)]
  exact .jumps (by simp only [MINUTE]; omega)

/-- The minutes ascend, and all of them come after `last` and up to `next`. -/
def Ascends (last next : ℕ) (minutes : List ℕ) : Prop :=
  minutes.Pairwise (· < ·) ∧ ∀ m ∈ minutes, last < m ∧ m ≤ next

theorem ascends_nil (last next : ℕ) : Ascends last next [] :=
  ⟨List.Pairwise.nil, fun _ hm => nomatch hm⟩

theorem ascends_singleton {next : ℕ} (h : last < next) : Ascends last next [next] := by
  refine ⟨List.pairwise_singleton _ _, ?_⟩
  intro m hm
  rw [List.mem_singleton] at hm
  omega

theorem ascends_minutesAfter (hlast : MINUTE ∣ last) :
    Ascends last (minuteStart now) (minutesAfter last (minuteStart now)) := by
  refine ⟨pairwise_minutesAfter, ?_⟩
  intro m hm
  exact ((mem_minutesAfter hlast (dvd_minuteStart now)).mp hm).2

theorem Ascends.append {next final : ℕ} {minutes more : List ℕ} (h : Ascends last next minutes)
    (hmore : Ascends next final more) (hlast : last ≤ next) (hnext : next ≤ final) :
    Ascends last final (minutes ++ more) := by
  constructor
  · refine List.pairwise_append.mpr ⟨h.1, hmore.1, ?_⟩
    intro m hm n hn
    have hm := h.2 m hm
    have hn := hmore.2 n hn
    omega
  · intro m hm
    rcases List.mem_append.mp hm with hm | hm
    · have hm := h.2 m hm
      omega
    · have hm := hmore.2 m hm
      omega

theorem lt_minuteStart (hfrom : last + MINUTE ≤ now) : last < minuteStart now := by
  have hnow := lt_minuteStart_add now
  omega

theorem dvd_catchUp (hlast : MINUTE ∣ last) : MINUTE ∣ (catchUp last now).2 := by
  have hmoves := catchUp_moves last now
  generalize catchUp last now = moved at *
  cases hmoves with
  | waits => exact hlast
  | passes | jumps => exact dvd_minuteStart now

theorem le_catchUp (last now : ℕ) : last ≤ (catchUp last now).2 := by
  have hmoves := catchUp_moves last now
  generalize catchUp last now = moved at *
  cases hmoves with
  | waits => exact Nat.le_refl _
  | passes _ hfrom => exact Nat.le_of_lt (lt_minuteStart hfrom)
  | jumps hfrom =>
    apply Nat.le_of_lt
    apply lt_minuteStart
    simp only [MINUTE] at hfrom ⊢
    omega

theorem lt_catchUp_add (last now : ℕ) : now < (catchUp last now).2 + MINUTE := by
  have hmoves := catchUp_moves last now
  generalize catchUp last now = moved at *
  cases hmoves with
  | waits hnow => exact hnow
  | passes | jumps => exact lt_minuteStart_add now

/-- A reading never looks past the current minute of the clock. -/
theorem look_le (hlast : MINUTE ∣ last) :
    ∀ look ∈ (catchUp last now).1, MINUTE ∣ look.start ∧ look.start ≤ minuteStart now := by
  intro look hlook
  have hmoves := catchUp_moves last now
  generalize catchUp last now = moved at *
  cases hmoves with
  | waits => nomatch hlook
  | passes _ _ _ _ _ hall =>
    rcases hall look hlook with hstart | hstart
    · have hstart := (mem_minutesAfter hlast (dvd_minuteStart now)).mp hstart
      exact ⟨hstart.1, hstart.2.2⟩
    · rw [hstart]
      exact ⟨dvd_minuteStart now, Nat.le_refl _⟩
  | jumps =>
    rw [List.mem_singleton] at hlook
    subst hlook
    exact ⟨dvd_minuteStart now, Nat.le_refl _⟩

/-- The minutes one reading looks at, for the fixed-time jobs and for the wildcard ones. -/
theorem ascends_catchUp (hlast : MINUTE ∣ last) {kind : Look → Bool}
    (hkind : kind = Look.fixed ∨ kind = Look.wild) :
    Ascends last (catchUp last now).2 (minutesFor kind (catchUp last now).1) := by
  have hmoves := catchUp_moves last now
  generalize catchUp last now = moved at *
  cases hmoves with
  | waits => exact ascends_nil _ _
  | passes _ hfrom _ hfixed hwild =>
    have hafter : Ascends last (minuteStart now) _ := ascends_minutesAfter hlast
    rcases hkind with rfl | rfl
    · rw [hfixed]
      exact hafter
    · rcases hwild with hwild | hwild
      · rw [hwild]
        exact hafter
      · rw [hwild]
        exact ascends_singleton (lt_minuteStart hfrom)
  | jumps hfrom =>
    have hlater : last < minuteStart now := by
      apply lt_minuteStart
      simp only [MINUTE] at hfrom ⊢
      omega
    rcases hkind with rfl | rfl
    · exact ascends_singleton hlater
    · exact ascends_singleton hlater

/-- A minute that a reading passes is looked at, or the reading jumped over it. -/
theorem looked_or_jumped (hlast : MINUTE ∣ last) {m : ℕ} (hm : MINUTE ∣ m) (hlt : last < m)
    (hle : m ≤ now) :
    m ∈ minutesFor Look.fixed (catchUp last now).1 ∨
      (m < minuteStart now ∧ last + 181 * MINUTE ≤ now) := by
  have hcurrent := le_minuteStart hm hle
  have hmoves := catchUp_moves last now
  generalize catchUp last now = moved at *
  cases hmoves with
  | waits hnow =>
    obtain ⟨k, rfl⟩ := hlast
    obtain ⟨n, rfl⟩ := hm
    simp only [MINUTE] at hlt hle hnow
    omega
  | passes _ _ _ hfixed =>
    left
    rw [hfixed]
    exact (mem_minutesAfter hlast (dvd_minuteStart now)).mpr ⟨hm, hlt, hcurrent⟩
  | jumps hfrom =>
    rcases Nat.lt_or_eq_of_le hcurrent with hbefore | hat
    · exact .inr ⟨hbefore, hfrom⟩
    · left
      simp [minutesFor, hat]

end

/-! ## A run of readings -/

section

variable {last : ℕ}

@[simp] theorem catchUps_nil (last : ℕ) : catchUps last [] = ([], last) := rfl

@[simp] theorem catchUps_cons (last now : ℕ) (readings : List ℕ) : catchUps last (now :: readings) =
      ((catchUp last now).1 ++ (catchUps (catchUp last now).2 readings).1,
        (catchUps (catchUp last now).2 readings).2) := rfl

theorem dvd_catchUps (hlast : MINUTE ∣ last) (readings : List ℕ) :
    MINUTE ∣ (catchUps last readings).2 := by
  induction readings generalizing last with
  | nil => exact hlast
  | cons now readings ih => exact ih (dvd_catchUp hlast)

theorem le_catchUps (last : ℕ) (readings : List ℕ) : last ≤ (catchUps last readings).2 := by
  induction readings generalizing last with
  | nil => exact Nat.le_refl _
  | cons now readings ih => exact Nat.le_trans (le_catchUp last now) (ih _)

theorem reading_lt (last : ℕ) (readings : List ℕ) :
    ∀ now ∈ readings, now < (catchUps last readings).2 + MINUTE := by
  induction readings generalizing last with
  | nil => exact fun _ hnow => nomatch hnow
  | cons first readings ih =>
    intro now hnow
    rcases List.mem_cons.mp hnow with rfl | hnow
    · have hfirst := lt_catchUp_add last now
      have hrest := le_catchUps (catchUp last now).2 readings
      simp only [catchUps_cons]
      omega
    · exact ih _ now hnow

theorem ascends_catchUps (hlast : MINUTE ∣ last) {kind : Look → Bool}
    (hkind : kind = Look.fixed ∨ kind = Look.wild) (readings : List ℕ) :
    Ascends last (catchUps last readings).2 (minutesFor kind (catchUps last readings).1) := by
  induction readings generalizing last with
  | nil => exact ascends_nil _ _
  | cons now readings ih =>
    simp only [catchUps_cons, minutesFor_append]
    have hnow : Ascends last (catchUp last now).2 _ := ascends_catchUp hlast hkind
    exact hnow.append (ih (dvd_catchUp hlast)) (le_catchUp last now) (le_catchUps _ _)

/-- Every minute of a run that is not looked at was jumped over by one reading. -/
theorem looked_or_jumped_run (hlast : MINUTE ∣ last) {m : ℕ} (hm : MINUTE ∣ m) (hlt : last < m)
    (readings : List ℕ) (hpassed : ∃ now ∈ readings, m ≤ now) :
    m ∈ minutesFor Look.fixed (catchUps last readings).1 ∨
      ∃ before now after, readings = before ++ now :: after ∧ (catchUps last before).2 < m ∧
        m < minuteStart now ∧ (catchUps last before).2 + 181 * MINUTE ≤ now := by
  induction readings generalizing last with
  | nil =>
    obtain ⟨now, hnow, _⟩ := hpassed
    nomatch hnow
  | cons first readings ih =>
    obtain ⟨now, hnow, hle⟩ := hpassed
    rw [catchUps_cons, minutesFor_append, List.mem_append]
    by_cases hfirst : m ≤ first
    · rcases looked_or_jumped hlast hm hlt hfirst with hlooked | ⟨hbefore, hjump⟩
      · exact .inl (.inl hlooked)
      · exact .inr ⟨[], first, readings, rfl, hlt, hbefore, hjump⟩
    · -- the reading did not reach the minute: a later one does, from the new `last`
      have hlater : now ∈ readings := by
        rcases List.mem_cons.mp hnow with rfl | hnow
        · exact absurd hle hfirst
        · exact hnow
      have hlast' : (catchUp last first).2 < m := by
        have hmoves := catchUp_moves last first
        generalize catchUp last first = moved at *
        cases hmoves with
        | waits => exact hlt
        | passes | jumps =>
          have hstart := minuteStart_le first
          omega
      rcases ih (dvd_catchUp hlast) hlast' ⟨now, hlater, hle⟩ with hlooked | hjumped
      · exact .inl (.inr hlooked)
      · obtain ⟨before, at', after, hsplit, hbelow, hbefore, hjump⟩ := hjumped
        refine .inr ⟨first :: before, at', after, ?_, hbelow, hbefore, hjump⟩
        rw [hsplit, List.cons_append]

end

/-! ## The starts of a job -/

section

variable {calendar : Calendar} {schedule : CronSchedule}

theorem due_fixed (hwild : schedule.wild = false) {look : Look}
    (hdue : due calendar schedule look.start look.wild look.fixed = true) :
    matchesMinute calendar schedule look.start = true ∧ look.fixed = true := by
  simp only [due, hwild, Bool.and_eq_true, Bool.or_eq_true, Bool.not_false, and_true,
    Bool.false_eq_true, and_false, or_false] at hdue
  exact hdue

/-- Every due minute a job starts for is a minute it was waiting for, or one of the run. -/
theorem starts_sublist (calendar : Calendar) (hwild : schedule.wild = false) (last : ℕ) (pending : List ℕ)
    (readings : List (ℕ × Bool)) :
    (starts calendar schedule last pending readings).flatten.Sublist
      (pending ++ minutesFor Look.fixed (catchUps last (readings.map Prod.fst)).1) := by
  induction readings generalizing last pending with
  | nil => exact List.nil_sublist _
  | cons reading readings ih =>
    obtain ⟨now, free⟩ := reading
    have hlooked : (((catchUp last now).1.filter fun look =>
        due calendar schedule look.start look.wild look.fixed).map Look.start).Sublist
        (minutesFor Look.fixed (catchUp last now).1) := by
      apply List.Sublist.map
      apply List.monotone_filter_right
      intro look hdue
      exact (due_fixed hwild hdue).2
    simp only [starts, List.map_cons, catchUps_cons, minutesFor_append]
    rw [← List.append_assoc]
    have hpending := (List.Sublist.refl pending).append hlooked
    split
    · rw [List.flatten_cons]
      exact hpending.append (by simpa using ih (catchUp last now).2 [])
    · exact (ih (catchUp last now).2 _).trans (hpending.append (List.Sublist.refl _))

theorem starts_due (hwild : schedule.wild = false) (last : ℕ) (pending : List ℕ)
    (hpending : ∀ m ∈ pending, matchesMinute calendar schedule m = true)
    (readings : List (ℕ × Bool)) :
    ∀ minutes ∈ starts calendar schedule last pending readings,
      minutes ≠ [] ∧ ∀ m ∈ minutes, matchesMinute calendar schedule m = true := by
  induction readings generalizing last pending with
  | nil => exact fun _ hminutes => nomatch hminutes
  | cons reading readings ih =>
    obtain ⟨now, free⟩ := reading
    have hdue : ∀ m ∈ pending ++ ((catchUp last now).1.filter fun look =>
        due calendar schedule look.start look.wild look.fixed).map Look.start,
        matchesMinute calendar schedule m = true := by
      intro m hm
      rcases List.mem_append.mp hm with hm | hm
      · exact hpending m hm
      · simp only [List.mem_map, List.mem_filter] at hm
        obtain ⟨look, ⟨_, hdue⟩, rfl⟩ := hm
        exact (due_fixed hwild hdue).1
    simp only [starts]
    split
    next hstarts =>
      intro minutes hminutes
      rcases List.mem_cons.mp hminutes with rfl | hminutes
      · exact ⟨hstarts.2, hdue⟩
      · exact ih _ [] (fun _ hm => nomatch hm) minutes hminutes
    next => exact ih _ _ hdue

end

/-- Readings in any order, from any minute start: `last` stays a minute start and
never goes back, no kind of jobs sees a minute twice, none sees a minute the clock
has not reached, and the fixed-time jobs miss only what one jump passed over. -/
theorem catchUp_law (s : ℕ) (readings : List ℕ) :
    (∀ before now after, readings = before ++ now :: after →
      MINUTE ∣ (catchUps (minuteStart s) before).2 ∧
      (catchUps (minuteStart s) before).2 ≤ (catchUp (catchUps (minuteStart s) before).2 now).2 ∧
      MINUTE ∣ (catchUp (catchUps (minuteStart s) before).2 now).2 ∧
      ∀ look ∈ (catchUp (catchUps (minuteStart s) before).2 now).1,
        MINUTE ∣ look.start ∧ look.start ≤ minuteStart now) ∧
    (minutesFor Look.fixed (catchUps (minuteStart s) readings).1).Nodup ∧
    (minutesFor Look.wild (catchUps (minuteStart s) readings).1).Nodup ∧
    (∀ m, MINUTE ∣ m → minuteStart s < m → (∃ now ∈ readings, m ≤ now) →
      m ∈ minutesFor Look.fixed (catchUps (minuteStart s) readings).1 ∨
      ∃ before now after, readings = before ++ now :: after ∧
        (catchUps (minuteStart s) before).2 < m ∧ m < minuteStart now ∧
        ∀ earlier ∈ s :: before, earlier + 180 * MINUTE < now) ∧
    ∀ calendar schedule, schedule.wild = false → ∀ ticks : List (ℕ × Bool),
      ticks.map Prod.fst = readings →
      (starts calendar schedule (minuteStart s) [] ticks).flatten.Nodup ∧
      ∀ minutes ∈ starts calendar schedule (minuteStart s) [] ticks,
        minutes ≠ [] ∧ ∀ m ∈ minutes, matchesMinute calendar schedule m = true := by
  have hstart := dvd_minuteStart s
  have hnodup : ∀ {kind : Look → Bool}, kind = Look.fixed ∨ kind = Look.wild →
      (minutesFor kind (catchUps (minuteStart s) readings).1).Nodup := by
    intro kind hkind
    exact (ascends_catchUps hstart hkind readings).1.imp fun hlt => Nat.ne_of_lt hlt
  refine ⟨?_, hnodup (.inl rfl), hnodup (.inr rfl), ?_, ?_⟩
  · intro before now after _
    have hlast := dvd_catchUps hstart before
    exact ⟨hlast, le_catchUp _ _, dvd_catchUp hlast, look_le hlast⟩
  · intro m hm hlt hpassed
    rcases looked_or_jumped_run hstart hm hlt readings hpassed with hlooked | hjumped
    · exact .inl hlooked
    · obtain ⟨before, now, after, hsplit, hbelow, hbefore, hjump⟩ := hjumped
      refine .inr ⟨before, now, after, hsplit, hbelow, hbefore, ?_⟩
      intro earlier hearlier
      have hreached : earlier < (catchUps (minuteStart s) before).2 + MINUTE := by
        rcases List.mem_cons.mp hearlier with rfl | hearlier
        · have hs := lt_minuteStart_add earlier
          have hle := le_catchUps (minuteStart earlier) before
          omega
        · exact reading_lt _ _ earlier hearlier
      omega
  · intro calendar schedule hwild ticks hticks
    constructor
    · have hsublist := starts_sublist calendar hwild (minuteStart s) [] ticks
      rw [hticks, List.nil_append] at hsublist
      exact hsublist.nodup (hnodup (.inl rfl))
    · exact starts_due hwild _ _ (fun _ hm => absurd hm List.not_mem_nil) ticks

end Sbarbase.Scheduler.Proofs.CatchUp
