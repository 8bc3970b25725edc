import Sbarbase.Scheduler.Meaning
import Sbarbase.Scheduler.Proofs.ScheduleSyntax
/-!
# A schedule means its fields

A part turns on the bits of its item, so a field turns on the union of its
items. What is due then follows from the bits of the five fields.
-/

namespace Sbarbase.Scheduler.Proofs.CronLaw

open Lib Lib.Calendar Scheduler.Proofs.ScheduleSyntax

/-! ## Bits -/

theorem getD_set (set : List Bool) (i j : ℕ) :
    (set.set i true).getD j false = true ↔ set.getD j false = true ∨ j < set.length ∧ i = j := by
  simp only [List.getD_eq_getElem?_getD, List.getElem?_set]
  by_cases hij : i = j
  · subst hij
    by_cases hlt : i < set.length
    · simp [hlt]
    · simp [hlt]
  · simp [hij]

theorem getD_bits (size : ℕ) (on : Bool) (x : ℕ) :
    (bits size on).getD x false = (on && decide (x < size)) := by
  simp only [bits, List.getD_eq_getElem?_getD, List.getElem?_replicate]
  by_cases hlt : x < size
  · simp [hlt]
  · simp [hlt]

/-- A loop that turns bits on. -/
theorem getD_foldl_set (f : ℕ → ℕ) (ks : List ℕ) (set : List Bool) (j : ℕ) :
    (ks.foldl (fun set k => set.set (f k) true) set).getD j false = true ↔
      set.getD j false = true ∨ j < set.length ∧ ∃ k ∈ ks, f k = j := by
  induction ks generalizing set with
  | nil => simp
  | cons k ks ih =>
      rw [List.foldl_cons, ih, getD_set, List.length_set]
      simp only [List.mem_cons, exists_eq_or_imp]
      tauto

theorem length_foldl_set (f : ℕ → ℕ) (ks : List ℕ) (set : List Bool) :
    (ks.foldl (fun set k => set.set (f k) true) set).length = set.length := by
  induction ks generalizing set with
  | nil => rfl
  | cons k ks ih => rw [List.foldl_cons, ih, List.length_set]

theorem length_mark (low first last step : ℕ) (set : List Bool) :
    (mark low first last step set).length = set.length :=
  length_foldl_set ..

/-- A range turns on every step of it. -/
theorem getD_mark {low first last step : ℕ} {set : List Bool} (hlow : low ≤ first)
    (hlast : last < low + set.length) (x : ℕ) :
    (mark low first last step set).getD x false = true ↔
      set.getD x false = true ∨ first ≤ x + low ∧ x + low ≤ last ∧ step ∣ x + low - first := by
  rw [mark, getD_foldl_set (fun k => first + k - low)]
  simp only [List.mem_filter, List.mem_range, decide_eq_true_eq]
  refine or_congr_right ⟨?_, ?_⟩
  · rintro ⟨_, k, ⟨hk, hstep⟩, rfl⟩
    refine ⟨by omega, by omega, ?_⟩
    have heq : first + k - low + low - first = k := by omega
    rw [heq]
    exact Nat.dvd_of_mod_eq_zero hstep
  · rintro ⟨hfirst, hle, hstep⟩
    exact ⟨by omega, x + low - first, ⟨by omega, Nat.mod_eq_zero_of_dvd hstep⟩, by omega⟩

/-! ## Parts -/

section

variable (js : Lowering) {low high : ℕ} {names : Option (List (List Char))}

/-- A word is read as the number it spells. -/
theorem spells_number {word : List Char} {n : ℕ} (h : number js names low word = some n) :
    Spells names low word n := by
  unfold number at h
  cases hword : isWord word with
  | false => simp [hword] at h
  | true =>
      rw [hword, Bool.not_true, if_neg Bool.false_ne_true, js.ascii word (word_ascii hword)] at h
      cases hfind : names.bind fun names => names.findIdx? (· = word.map Char.toLower) with
      | some index =>
          rw [hfind] at h
          obtain rfl := Option.some.inj h
          exact .inl ⟨by rw [hfind, Nat.add_sub_cancel], Nat.le_add_left _ _⟩
      | none =>
          rw [hfind] at h
          dsimp only at h
          split_ifs at h with hnumber
          refine .inr ⟨?_, hnumber, (Option.some.inj h).symm⟩
          intro list hlist hmem
          rw [hlist, Option.bind_some, List.findIdx?_eq_none_iff] at hfind
          simpa using hfind _ hmem

theorem join_splitOn (text : List Char) (c : Char) : [c].intercalate (text.splitOn c) = text :=
  List.intercalate_splitOn c

theorem stepped_partMatch {part range : List Char} {step : Option (List Char)}
    (h : partMatch part = some (range, step)) :
    Stepped part range ((step.map decimal).getD 1) ∧ isRange range = true := by
  refine ⟨?_, partMatch_range h⟩
  have hjoin := join_splitOn part '/'
  unfold partMatch at h
  split at h
  next range' hsplit =>
    split at h
    next hrange =>
      obtain ⟨rfl, rfl⟩ := Prod.mk.inj (Option.some.inj h)
      rw [hsplit] at hjoin
      exact .inl ⟨by simpa using hjoin.symm, rfl⟩
    next => nomatch h
  next range' step' hsplit =>
    split at h
    next hboth =>
      obtain ⟨rfl, rfl⟩ := Prod.mk.inj (Option.some.inj h)
      rw [Bool.and_eq_true] at hboth
      rw [hsplit] at hjoin
      exact .inr ⟨step', hboth.2, by simpa using hjoin.symm, rfl⟩
    next => nomatch h
  next => nomatch h

/-- A part adds the numbers of its item to the bits. -/
theorem fieldPart_item {set marked : List Bool} {part : List Char} (hlow : low ≤ high)
    (hset : set.length = high - low + 1) (h : fieldPart js low high names set part = some marked) :
    ∃ item : Item, item.Writes names low part ∧ item.Within low high ∧
      marked.length = high - low + 1 ∧
      ∀ x, marked.getD x false = true ↔ set.getD x false = true ∨ item.Holds low high (x + low) := by
  unfold fieldPart at h
  cases hmatch : partMatch part with
  | none =>
      rw [hmatch] at h
      nomatch h
  | some found =>
      obtain ⟨range, stepText⟩ := found
      obtain ⟨hstepped, hrange⟩ := stepped_partMatch hmatch
      rw [hmatch] at h
      dsimp only at h
      generalize hstep : (stepText.map decimal).getD 1 = step at h hstepped
      rcases isRange_cases hrange with rfl | ⟨hstar, _, hwords⟩
      · rw [if_pos rfl] at h
        split_ifs at h with hzero
        obtain rfl := Option.some.inj h
        refine ⟨.star step, hstepped, Nat.pos_of_ne_zero hzero, by rw [length_mark, hset], ?_⟩
        intro x
        rw [getD_mark le_rfl (by omega)]
        exact Iff.rfl
      · rw [if_neg hstar] at h
        have hjoin := join_splitOn range '-'
        rcases hwords with ⟨a, hsplit, _⟩ | ⟨a, b, hsplit, _, _⟩
        · rw [hsplit] at h hjoin
          dsimp only [List.headD_cons] at h
          cases hnumber : number js names low a with
          | none =>
              rw [hnumber] at h
              nomatch h
          | some n =>
              rw [hnumber] at h
              dsimp only at h
              split_ifs at h with hnostep hbounds
              obtain rfl := Option.some.inj h
              have hone : part = a := by
                have hrangeText : range = a := by simpa using hjoin.symm
                rw [not_not.mp hnostep] at hmatch
                unfold partMatch at hmatch
                split at hmatch
                next piece hpiece =>
                  split at hmatch
                  next =>
                    obtain ⟨rfl, -⟩ := Prod.mk.inj (Option.some.inj hmatch)
                    have hpart := join_splitOn part '/'
                    rw [hpiece] at hpart
                    rw [← hrangeText]
                    simpa using hpart.symm
                  next => nomatch hmatch
                next =>
                  split at hmatch
                  next => simp at hmatch
                  next => nomatch hmatch
                next => nomatch hmatch
              refine ⟨.value n, hone ▸ spells_number js hnumber, by simp [Item.Within]; omega,
                by rw [List.length_set, hset], ?_⟩
              intro x
              rw [getD_set, Item.Holds]
              refine or_congr_right ⟨?_, ?_⟩
              · omega
              · omega
        · rw [hsplit] at h hjoin
          dsimp only at h
          have hrangeText : range = a ++ '-' :: b := by simpa using hjoin.symm
          cases hfirst : number js names low a with
          | none =>
              rw [hfirst] at h
              nomatch h
          | some first =>
              cases hlast : number js names low b with
              | none =>
                  rw [hfirst, hlast] at h
                  nomatch h
              | some last =>
                  rw [hfirst, hlast] at h
                  dsimp only at h
                  split_ifs at h with hzero hbounds
                  obtain rfl := Option.some.inj h
                  refine ⟨.range first last step, ⟨a, b, spells_number js hfirst, spells_number js hlast,
                    hrangeText ▸ hstepped⟩, ?_, by rw [length_mark, hset], ?_⟩
                  · simp only [Item.Within]
                    omega
                  · intro x
                    rw [getD_mark (by omega) (by omega)]
                    exact Iff.rfl

/-- A field turns on the union of its items. -/
theorem field_items {text : List Char} {set : List Bool} (hlow : low ≤ high)
    (h : field js text low high names = some set) :
    ∃ items, Reads names low high text items ∧ set.length = high - low + 1 ∧
      ∀ x, set.getD x false = true ↔ Stands low high items (x + low) := by
  have hparts : ∀ (parts : List (List Char)) (start set : List Bool), start.length = high - low + 1 →
      parts.foldlM (fieldPart js low high names) start = some set →
      ∃ items, List.Forall₂ (fun part item => item.Writes names low part) parts items ∧
        (∀ item ∈ items, item.Within low high) ∧ set.length = high - low + 1 ∧
        ∀ x, set.getD x false = true ↔
          start.getD x false = true ∨ Stands low high items (x + low) := by
    intro parts
    induction parts with
    | nil =>
        intro start set hstart hfold
        obtain rfl := Option.some.inj hfold
        exact ⟨[], .nil, by simp, hstart, by simp [Stands]⟩
    | cons part parts ih =>
        intro start set hstart hfold
        rw [List.foldlM_cons] at hfold
        obtain ⟨marked, hmarked, hrest⟩ := Option.bind_eq_some_iff.mp hfold
        obtain ⟨item, hwrites, hwithin, hlength, hbits⟩ := fieldPart_item js hlow hstart hmarked
        obtain ⟨items, hreads, hbounds, hset, hall⟩ := ih marked set hlength hrest
        refine ⟨item :: items, .cons hwrites hreads, ?_, hset, ?_⟩
        · rintro other hother
          rcases List.mem_cons.mp hother with rfl | hother
          · exact hwithin
          · exact hbounds other hother
        · intro x
          rw [hall x, hbits x]
          simp only [Stands, List.mem_cons, exists_eq_or_imp, or_assoc]
  obtain ⟨items, hreads, hbounds, hlength, hbits⟩ := hparts _ _ set (by simp [bits]) h
  refine ⟨items, ⟨hreads, hbounds⟩, hlength, fun x => ?_⟩
  rw [hbits x, getD_bits]
  simp

end

/-! ## The `@` words -/

section

variable {names : Option (List (List Char))} {low high : ℕ}

theorem reads_star : Reads names low high ['*'] [.star 1] :=
  ⟨.cons (.inl ⟨rfl, rfl⟩) .nil, by simp [Item.Within]⟩

theorem stands_star (low high size x : ℕ) (hsize : high + 1 = low + size) :
    (bits size true).getD x false = true ↔ Stands low high [.star 1] (x + low) := by
  rw [getD_bits]
  simp only [Stands, Item.Holds, List.mem_singleton, exists_eq_left, Nat.one_dvd, and_true,
    Bool.true_and, decide_eq_true_eq]
  omega

theorem reads_digit {c : Char} (hc : isDigit c = true) (hcomma : [c].splitOn ',' = [[c]])
    (hnames : ∀ list ∈ names, [c.toLower] ∉ list) {n : ℕ} (hn : decimal [c] = n) (hlow : low ≤ n)
    (hhigh : n ≤ high) : Reads names low high [c] [.value n] := by
  refine ⟨?_, by simp [Item.Within, hlow, hhigh]⟩
  rw [hcomma]
  exact .cons (.inr ⟨hnames, by simp [isNumber, hc], hn.symm⟩) .nil

theorem stands_one (low high size index : ℕ) (hindex : index < size) (x : ℕ) :
    (one size index).getD x false = true ↔ Stands low high [.value (index + low)] (x + low) := by
  rw [one, getD_set, getD_bits]
  simp only [Stands, Item.Holds, List.mem_singleton, exists_eq_left, bits, List.length_replicate,
    Bool.false_and, Bool.false_eq_true, false_or]
  omega

end

/-! ## Schedules -/

/-- A schedule that holds what five fields say. Where both days are any day the
flags of the days make no difference. -/
structure Parsed (m h dm mo dw : List Char) (items : Items) (schedule : CronSchedule) : Prop where
  lists : Lists m h dm mo dw items
  denotes : Denotes schedule items
  wild : schedule.wild = (startsWithStar m || startsWithStar h)
  last : schedule.domLast = decide (dm = ['$'])
  star : (schedule.domStar || schedule.dowStar) = (startsWithStar dm || startsWithStar dw) ∨
    schedule.dom = bits 31 true ∧ schedule.dow = bits 8 true

/-- Either Sunday turns both on. -/
theorem getD_sunday {dow : List Bool} (hlength : dow.length = 8) {x : ℕ} (hx : x ≤ 7) :
    (sunday dow).getD x false = true ↔ ∃ day ≤ 7, dow.getD day false = true ∧ day % 7 = x % 7 := by
  unfold sunday
  cases hsunday : dow.getD 0 false || dow.getD 7 false with
  | true =>
      rw [if_pos rfl, getD_set, getD_set, List.length_set, hlength]
      rw [Bool.or_eq_true] at hsunday
      constructor
      · rintro ((hon | ⟨_, rfl⟩) | ⟨_, rfl⟩)
        · exact ⟨x, hx, hon, rfl⟩
        · rcases hsunday with h | h
          · exact ⟨0, by omega, h, rfl⟩
          · exact ⟨7, le_rfl, h, rfl⟩
        · rcases hsunday with h | h
          · exact ⟨0, by omega, h, rfl⟩
          · exact ⟨7, le_rfl, h, rfl⟩
      · rintro ⟨day, hday, hon, hmod⟩
        by_cases heq : day = x
        · exact .inl (.inl (heq ▸ hon))
        · have hends : x = 0 ∨ x = 7 := by omega
          rcases hends with rfl | rfl
          · exact .inl (.inr ⟨by omega, rfl⟩)
          · exact .inr ⟨by omega, rfl⟩
  | false =>
      rw [if_neg Bool.false_ne_true]
      rw [Bool.or_eq_false_iff] at hsunday
      constructor
      · exact fun hon => ⟨x, hx, hon, rfl⟩
      · rintro ⟨day, hday, hon, hmod⟩
        have hzero : day ≠ 0 := by
          rintro rfl
          rw [hsunday.1] at hon
          cases hon
        have hseven : day ≠ 7 := by
          rintro rfl
          rw [hsunday.2] at hon
          cases hon
        have heq : day = x := by omega
        exact heq ▸ hon

theorem stands_le {low high : ℕ} {items : List Item} {x : ℕ}
    (hwithin : ∀ item ∈ items, item.Within low high) (h : Stands low high items x) : x ≤ high := by
  obtain ⟨item, hmem, hholds⟩ := h
  have hbounds := hwithin item hmem
  cases item with
  | value n => exact hholds ▸ hbounds.2
  | range first last step => exact hholds.2.1.trans hbounds.2.1.2
  | star step => exact hholds.2.1

/-- The weekdays of a field, with both Sundays. -/
theorem dow_sunday {dow : List Bool} {items : List Item} (hlength : dow.length = 8)
    (hwithin : ∀ item ∈ items, item.Within 0 7)
    (hbits : ∀ x, dow.getD x false = true ↔ Stands 0 7 items x) :
    ∀ x ≤ 7, (sunday dow).getD x false = true ↔ ∃ day, Stands 0 7 items day ∧ day % 7 = x % 7 := by
  intro x hx
  rw [getD_sunday hlength hx]
  constructor
  · rintro ⟨day, _, hon, hmod⟩
    exact ⟨day, (hbits day).mp hon, hmod⟩
  · rintro ⟨day, hstands, hmod⟩
    exact ⟨day, stands_le hwithin hstands, (hbits day).mpr hstands, hmod⟩

/-- Five fields are read as what they say. -/
theorem parsed_fields {js : Lowering} {m h dm mo dw : List Char} {schedule : CronSchedule}
    (hparse : parseFields js m h dm mo dw = some schedule) :
    ∃ items, Parsed m h dm mo dw items schedule := by
  simp only [parseFields, Option.bind_eq_bind, Option.bind_eq_some_iff] at hparse
  obtain ⟨minute, hminute, hour, hhour, month, hmonth, dow, hdow, hparse⟩ := hparse
  obtain ⟨minutes, hminutes, _, hminuteBits⟩ := field_items js (by decide) hminute
  obtain ⟨hours, hhours, _, hhourBits⟩ := field_items js (by decide) hhour
  obtain ⟨months, hmonths, _, hmonthBits⟩ := field_items js (by decide) hmonth
  obtain ⟨weekdays, hweekdays, hdowLength, hdowBits⟩ := field_items js (by decide) hdow
  have hdowBits := dow_sunday hdowLength hweekdays.2 hdowBits
  by_cases hlast : dm = ['$']
  · rw [if_pos hlast, Option.bind_some] at hparse
    obtain rfl := Option.some.inj hparse
    refine ⟨⟨minutes, hours, [], months, weekdays⟩, ⟨hminutes, hhours, ?_, hmonths, hweekdays⟩,
      ⟨hminuteBits, hhourBits, ?_, hmonthBits, hdowBits⟩, rfl, rfl, .inl rfl⟩
    · rw [if_pos hlast]
    · intro x
      rw [getD_bits]
      simp [Stands]
  · rw [if_neg hlast] at hparse
    obtain ⟨dom, hdom, hparse⟩ := Option.bind_eq_some_iff.mp hparse
    obtain rfl := Option.some.inj hparse
    obtain ⟨days, hdays, _, hdomBits⟩ := field_items js (by decide) hdom
    refine ⟨⟨minutes, hours, days, months, weekdays⟩, ⟨hminutes, hhours, ?_, hmonths, hweekdays⟩,
      ⟨hminuteBits, hhourBits, hdomBits, hmonthBits, hdowBits⟩, rfl, rfl, .inl rfl⟩
    rw [if_neg hlast]
    exact hdays

/-! ### The `@` words -/

/-- A field of one digit of the `@` words. -/
theorem reads_zero {names : Option (List (List Char))} {high : ℕ}
    (hnames : ∀ list ∈ names, ['0'] ∉ list) : Reads names 0 high ['0'] [.value 0] :=
  reads_digit rfl (by decide) hnames rfl le_rfl (Nat.zero_le high)

theorem reads_one {names : Option (List (List Char))} {high : ℕ}
    (hnames : ∀ list ∈ names, ['1'] ∉ list) (hhigh : 1 ≤ high) : Reads names 1 high ['1'] [.value 1] :=
  reads_digit rfl (by decide) hnames rfl le_rfl hhigh

theorem no_names (word : List Char) : ∀ list ∈ (none : Option (List (List Char))), word ∉ list :=
  fun _ h => nomatch h

theorem weekdays_star : ∀ x ≤ 7, (bits 8 true).getD x false = true ↔
    ∃ day, Stands 0 7 [.star 1] day ∧ day % 7 = x % 7 := by
  intro x hx
  have hstands := stands_star 0 7 8 x rfl
  have hon : (bits 8 true).getD x false = true := by
    rw [getD_bits]
    simp only [Bool.true_and, decide_eq_true_eq]
    omega
  exact ⟨fun h => ⟨x, hstands.mp h, rfl⟩, fun _ => hon⟩

theorem weekdays_zero : ∀ x ≤ 7, (sunday (one 8 0)).getD x false = true ↔
    ∃ day, Stands 0 7 [.value 0] day ∧ day % 7 = x % 7 :=
  dow_sunday (by decide) (by simp [Item.Within])
    (stands_one 0 7 8 0 (by decide))

/-- An `@` word is read as the fields it stands for. -/
theorem parsed_word {name : List Char} {schedule : CronSchedule} (h : macroSchedule name = some schedule) :
    ∃ fields m hr dm mo dw items, expansion (String.ofList name) = some fields ∧
      fields.map String.toList = [m, hr, dm, mo, dw] ∧ Parsed m hr dm mo dw items schedule := by
  have hminute := stands_one 0 59 60 0 (by decide)
  have hhour := stands_one 0 23 24 0 (by decide)
  have hday := stands_one 1 31 31 0 (by decide)
  have hdays := fun x => stands_star 1 31 31 x rfl
  have hmonths := fun x => stands_star 1 12 12 x rfl
  unfold macroSchedule at h
  dsimp only at h
  split_ifs at h with hyear hmonth hweek hdaily hhourly
  · obtain rfl := Option.some.inj h
    refine ⟨["0", "0", "1", "1", "*"], ['0'], ['0'], ['1'], ['1'], ['*'], ⟨[.value 0], [.value 0], [.value 1], [.value 1], [.star 1]⟩,
      ?_, rfl, ?_⟩
    · rcases hyear with rfl | rfl <;> decide
    · exact
        { lists := ⟨reads_zero (no_names _), reads_zero (no_names _), reads_one (no_names _) (by decide),
            reads_one (by decide) (by decide), reads_star⟩
          denotes := ⟨hminute, hhour, hday,
            stands_one 1 12 12 0 (by decide), weekdays_star⟩
          wild := rfl
          last := rfl
          star := .inl rfl }
  · obtain rfl := Option.some.inj h
    refine ⟨["0", "0", "1", "*", "*"], ['0'], ['0'], ['1'], ['*'], ['*'], ⟨[.value 0], [.value 0], [.value 1], [.star 1], [.star 1]⟩,
      ?_, rfl, ?_⟩
    · subst hmonth
      decide
    · exact
        { lists := ⟨reads_zero (no_names _), reads_zero (no_names _), reads_one (no_names _) (by decide),
            reads_star, reads_star⟩
          denotes := ⟨hminute, hhour, hday, hmonths, weekdays_star⟩
          wild := rfl
          last := rfl
          star := .inl rfl }
  · obtain rfl := Option.some.inj h
    refine ⟨["0", "0", "*", "*", "0"], ['0'], ['0'], ['*'], ['*'], ['0'], ⟨[.value 0], [.value 0], [.star 1], [.star 1], [.value 0]⟩,
      ?_, rfl, ?_⟩
    · subst hweek
      decide
    · exact
        { lists := ⟨reads_zero (no_names _), reads_zero (no_names _), reads_star, reads_star,
            reads_zero (by decide)⟩
          denotes := ⟨hminute, hhour, hdays, hmonths, weekdays_zero⟩
          wild := rfl
          last := rfl
          star := .inl rfl }
  · obtain rfl := Option.some.inj h
    refine ⟨["0", "0", "*", "*", "*"], ['0'], ['0'], ['*'], ['*'], ['*'], ⟨[.value 0], [.value 0], [.star 1], [.star 1], [.star 1]⟩,
      ?_, rfl, ?_⟩
    · rcases hdaily with rfl | rfl <;> decide
    · exact
        { lists := ⟨reads_zero (no_names _), reads_zero (no_names _), reads_star, reads_star, reads_star⟩
          denotes := ⟨hminute, hhour, hdays, hmonths, weekdays_star⟩
          wild := rfl
          last := rfl
          star := .inr ⟨rfl, rfl⟩ }
  · obtain rfl := Option.some.inj h
    refine ⟨["0", "*", "*", "*", "*"], ['0'], ['*'], ['*'], ['*'], ['*'], ⟨[.value 0], [.star 1], [.star 1], [.star 1], [.star 1]⟩,
      ?_, rfl, ?_⟩
    · subst hhourly
      decide
    · exact
        { lists := ⟨reads_zero (no_names _), reads_star, reads_star, reads_star, reads_star⟩
          denotes := ⟨hminute, fun x => stands_star 0 23 24 x rfl, hdays, hmonths,
            weekdays_star⟩
          wild := rfl
          last := rfl
          star := .inr ⟨rfl, rfl⟩ }

/-! ## What is due -/

theorem utcDate_pos (start : ℕ) : 1 ≤ utc.utcDate start := by
  have h := (dateOf (start / 86400000 : ℕ)).day_pos
  simp only [utc]
  omega

theorem utcDate_le (start : ℕ) : utc.utcDate start ≤ 31 := by
  have hle := (dateOf (start / 86400000 : ℕ)).day_le
  have hlength := (monthLength_pos (isLeap (dateOf (start / 86400000 : ℕ)).year) _
    (dateOf (start / 86400000 : ℕ)).month_lt).2
  simp only [utc]
  omega

theorem utcDay_lt (start : ℕ) : utc.utcDay start < 7 := by
  have h := weekday_bounds (start / 86400000 : ℕ)
  simp only [utc]
  omega

/-- The day after is a first exactly after the last of a month. -/
theorem tomorrow_first (start : ℕ) :
    utc.utcDate (start + 86400000) = 1 ↔ (dateOf (start / 86400000 : ℕ)).IsLast := by
  have hdiv : (start + 86400000) / 86400000 = start / 86400000 + 1 := by omega
  have hpos := (dateOf ((start / 86400000 : ℕ) + 1)).day_pos
  rw [← day_succ]
  simp only [utc, hdiv, Nat.cast_add, Nat.cast_one]
  omega

/-- The fields and the kind of runner a schedule is due to. -/
theorem joined_iff : ∀ minute hour month day kind wild fixed : Bool,
    (minute && hour && month && day && ((fixed && !kind) || (wild && kind))) = true ↔
      (if kind = true then wild else fixed) = true ∧
        minute = true ∧ hour = true ∧ month = true ∧ day = true := by
  decide

/-- What a schedule that holds five fields is due at. -/
theorem due_iff {m h dm mo dw : List Char} {items : Items} {schedule : CronSchedule}
    (hp : Parsed m h dm mo dw items schedule) (start : ℕ) (wild fixed : Bool) :
    due utc schedule start wild fixed = true ↔
      (if startsWithStar m ∨ startsWithStar h then wild else fixed) = true ∧ Meant dm dw items start := by
  have hminute := hp.denotes.minute (utc.utcMinutes start)
  have hhour := hp.denotes.hour (utc.utcHours start)
  have hmonth := hp.denotes.month (utc.utcMonth start)
  have hdom := hp.denotes.dom (utc.utcDate start - 1)
  rw [Nat.sub_add_cancel (utcDate_pos start)] at hdom
  have hdow := hp.denotes.dow (utc.utcDay start) (utcDay_lt start).le
  rw [Nat.mod_eq_of_lt (utcDay_lt start)] at hdow
  have htomorrow := tomorrow_first start
  unfold due matchesMinute
  generalize start + 86400000 = tomorrow at htomorrow ⊢
  have hmonthly : (schedule.domLast && decide (utc.utcDate tomorrow = 1) ||
      schedule.dom.getD (utc.utcDate start - 1) false) = true ↔ MonthDay dm items start := by
    rw [Bool.or_eq_true, Bool.and_eq_true, hp.last, decide_eq_true_eq, decide_eq_true_eq, htomorrow,
      hdom, MonthDay]
  have hweekly : schedule.dow.getD (utc.utcDay start) false = true ↔ WeekDay items start := hdow
  have hstar : (schedule.domStar || schedule.dowStar) = (startsWithStar dm || startsWithStar dw) ∨
      MonthDay dm items start ∧ WeekDay items start := by
    refine hp.star.imp_right ?_
    rintro ⟨hall, hall'⟩
    have hpos := utcDate_pos start
    have hle := utcDate_le start
    have hlt := utcDay_lt start
    refine ⟨.inr (hdom.mp ?_), hdow.mp ?_⟩
    · rw [hall, getD_bits, Bool.true_and, decide_eq_true_eq]
      omega
    · rw [hall', getD_bits, Bool.true_and, decide_eq_true_eq]
      omega
  rw [Meant, ← hminute, ← hhour, ← hmonth, hp.wild]
  dsimp only
  generalize (schedule.domLast && decide (utc.utcDate tomorrow = 1) ||
    schedule.dom.getD (utc.utcDate start - 1) false) = monthDay at hmonthly ⊢
  generalize schedule.dow.getD (utc.utcDay start) false = weekDay at hweekly ⊢
  rw [← hmonthly, ← hweekly] at hstar ⊢
  have hday : (if (schedule.domStar || schedule.dowStar) = true then monthDay && weekDay
      else monthDay || weekDay) = true ↔
      if startsWithStar dm = true ∨ startsWithStar dw = true then monthDay = true ∧ weekDay = true
      else monthDay = true ∨ weekDay = true := by
    rcases hstar with hsame | ⟨hmonthOn, hweekOn⟩
    · rw [hsame]
      simp only [Bool.or_eq_true]
      split_ifs
      · rw [Bool.and_eq_true]
      · rw [Bool.or_eq_true]
    · rw [hmonthOn, hweekOn]
      simp
  rw [← hday]
  generalize (if (schedule.domStar || schedule.dowStar) = true then monthDay && weekDay
    else monthDay || weekDay) = day
  have hkind : (if startsWithStar m = true ∨ startsWithStar h = true then wild else fixed) =
      if (startsWithStar m || startsWithStar h) = true then wild else fixed := by
    simp only [Bool.or_eq_true]
  rw [hkind]
  exact joined_iff _ _ _ _ _ _ _

/-- A schedule that is read lists items in its five fields, written out or as an
`@` word: each part of a field is one item, all of them within the bounds, and
the bits of the field are the union of the items. What is due is what the items
mean, to the runner of the `*` minutes and hours or to that of the others. -/
theorem cron_law (js : Lowering) (text : String) (schedule : CronSchedule)
    (h : parseSchedule js text = some (.cron schedule)) :
    ∃ m hr dm mo dw items, FieldsOf text.toList m hr dm mo dw ∧ Lists m hr dm mo dw items ∧
      Denotes schedule items ∧
      ∀ start wild fixed, due utc schedule start wild fixed = true ↔
        (if startsWithStar m ∨ startsWithStar hr then wild else fixed) = true ∧
          Meant dm dw items start := by
  unfold parseSchedule at h
  split_ifs at h
  unfold parseText at h
  cases hinterval : intervalMatch (js.lower text.toList) with
  | some found =>
      rw [hinterval] at h
      dsimp only at h
      split_ifs at h <;> cases h
  | none =>
      rw [hinterval] at h
      dsimp only at h
      by_cases hword : (trimBlanks text.toList).head? = some '@'
      · rw [if_pos hword] at h
        split_ifs at h with hname
        obtain ⟨schedule', hmacro, heq⟩ := Option.map_eq_some_iff.mp h
        obtain rfl := Schedule.cron.inj heq
        obtain ⟨fields, m, hr, dm, mo, dw, items, hexpansion, hfields, hparsed⟩ := parsed_word hmacro
        refine ⟨m, hr, dm, mo, dw, items, .inr ⟨_, fields, ?_, hexpansion, hfields⟩, hparsed.lists,
          hparsed.denotes, due_iff hparsed⟩
        rw [String.toList_ofList]
        obtain ⟨rest, hrest⟩ := List.head?_eq_some_iff.mp hword
        rw [hrest, List.tail_cons]
      · rw [if_neg hword] at h
        split at h
        next m hr dm mo dw hsplit =>
          obtain ⟨schedule', hfields, heq⟩ := Option.map_eq_some_iff.mp h
          obtain rfl := Schedule.cron.inj heq
          obtain ⟨items, hparsed⟩ := parsed_fields hfields
          exact ⟨m, hr, dm, mo, dw, items, .inl hsplit, hparsed.lists, hparsed.denotes, due_iff hparsed⟩
        next => nomatch h

/-- Every second hour on Sundays in spring. -/
def springSundays : CronSchedule where
  minute := one 60 0
  hour := mark 0 0 23 2 (bits 24 false)
  dom := bits 31 true
  month := mark 1 3 5 1 (bits 12 false)
  dow := sunday (one 8 7)
  domStar := true
  dowStar := false
  domLast := false
  wild := true

theorem cron_law_springSundays :
    ∃ m hr dm mo dw items, FieldsOf "0 */2 * mar-May 7".toList m hr dm mo dw ∧
      Lists m hr dm mo dw items ∧ Denotes springSundays items ∧
      ∀ start wild fixed, due utc springSundays start wild fixed = true ↔
        (if startsWithStar m ∨ startsWithStar hr then wild else fixed) = true ∧
          Meant dm dw items start :=
  cron_law .plain "0 */2 * mar-May 7" springSundays (by decide)

end Sbarbase.Scheduler.Proofs.CronLaw
