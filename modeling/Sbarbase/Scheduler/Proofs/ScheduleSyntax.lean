import Sbarbase.Scheduler.ScheduleSql
import Mathlib.Data.List.Basic
import Mathlib.Data.List.TakeWhile
/-!
# One syntax in two languages

The reader of the scheduler and the check of the database accept the same texts.
Both lower letters of words only, which are ASCII; where they measure and lower
differently the text has another character, and both refuse it.
-/

namespace Sbarbase.Scheduler.Proofs.ScheduleSyntax

open Lib

/-! ## Words and numbers -/

theorem isLower_ascii {c : Char} (h : isLower c = true) : c.toNat < 128 := by
  simp only [isLower, Bool.and_eq_true, decide_eq_true_eq, Char.le_def,
    UInt32.le_iff_toNat_le] at h
  have hz : 'z'.val.toNat = 122 := rfl
  have hc : c.toNat = c.val.toNat := rfl
  omega

theorem isDigit_ascii {c : Char} (h : isDigit c = true) : c.toNat < 128 := by
  simp only [isDigit, Bool.and_eq_true, decide_eq_true_eq, Char.le_def,
    UInt32.le_iff_toNat_le] at h
  have hnine : '9'.val.toNat = 57 := rfl
  have hc : c.toNat = c.val.toNat := rfl
  omega

theorem isAlphanumeric_ascii {c : Char} (h : isAlphanumeric c = true) : c.toNat < 128 := by
  simp only [isAlphanumeric, Bool.or_eq_true] at h
  rcases h with (h | h) | h
  · exact isLower_ascii h
  · simp only [isUpper, Bool.and_eq_true, decide_eq_true_eq, Char.le_def,
      UInt32.le_iff_toNat_le] at h
    have hz : 'Z'.val.toNat = 90 := rfl
    have hc : c.toNat = c.val.toNat := rfl
    omega
  · exact isDigit_ascii h

theorem isWord_iff {text : List Char} :
    isWord text = true ↔ text ≠ [] ∧ ∀ c ∈ text, isAlphanumeric c = true := by
  simp [isWord]

theorem word_ascii {text : List Char} (h : isWord text = true) : ∀ c ∈ text, c.toNat < 128 :=
  fun c hc => isAlphanumeric_ascii ((isWord_iff.mp h).2 c hc)

section

variable (js pg : Lowering) {low high : ℕ} {names : Option (List (List Char))}

theorem number_eq {value : List Char} (h : isWord value = true) :
    number js names low value = Sql.endValue pg low names value := by
  have hlower : js.lower value = pg.lower value := by
    rw [js.ascii value (word_ascii h), pg.ascii value (word_ascii h)]
  unfold number Sql.endValue
  rw [h, hlower]
  rfl

/-- What a part of a field may be. -/
theorem isRange_cases {range : List Char} (h : isRange range = true) : range = ['*'] ∨
    range ≠ ['*'] ∧ range ≠ [] ∧
      ((∃ a, range.splitOn '-' = [a] ∧ isWord a = true) ∨
        ∃ a b, range.splitOn '-' = [a, b] ∧ isWord a = true ∧ isWord b = true) := by
  by_cases hstar : range = ['*']
  · exact .inl hstar
  · right
    refine ⟨hstar, ?_, ?_⟩
    · rintro rfl
      exact absurd h (by decide)
    · simp only [isRange, Bool.or_eq_true, decide_eq_true_eq, hstar, false_or] at h
      split at h
      next a hsplit => exact .inl ⟨a, hsplit, h⟩
      next a b hsplit =>
        rw [Bool.and_eq_true] at h
        exact .inr ⟨a, b, hsplit, h.1, h.2⟩
      next => nomatch h

theorem partMatch_range {part range : List Char} {step : Option (List Char)}
    (h : partMatch part = some (range, step)) : isRange range = true := by
  unfold partMatch at h
  split at h
  · split at h
    next hrange =>
      obtain ⟨rfl, _⟩ := Prod.mk.inj (Option.some.inj h)
      exact hrange
    next => nomatch h
  · split at h
    next hboth =>
      obtain ⟨rfl, _⟩ := Prod.mk.inj (Option.some.inj h)
      rw [Bool.and_eq_true] at hboth
      exact hboth.1
    next => nomatch h
  · nomatch h

theorem step_zero (step : Option (List Char)) :
    (step.map decimal).getD 1 = 0 ↔ (step.any fun step => decimal step = 0) = true := by
  cases step <;> simp

/-- A range is read when its ends and its step are in bounds. -/
theorem isSome_marked (step first last : ℕ) (set : List Bool) : (if step = 0 then none
      else if first < low ∨ high < first ∨ last < low ∨ high < last then none
      else some (mark low first last step set)).isSome =
      (if step = 0 then false
        else !(first < low ∨ high < first ∨ last < low ∨ high < last : Bool)) := by
  by_cases hstep : step = 0
  · rw [if_pos hstep, if_pos hstep]
    rfl
  · rw [if_neg hstep, if_neg hstep]
    by_cases hbounds : first < low ∨ high < first ∨ last < low ∨ high < last
    · rw [if_pos hbounds, decide_eq_true hbounds]
      rfl
    · rw [if_neg hbounds, decide_eq_false hbounds]
      rfl

/-- Whether a part is read does not depend on the bits that are on already. -/
theorem fieldPart_isSome (set : List Bool) (part : List Char) :
    (fieldPart js low high names set part).isSome = Sql.partValid pg low high names part := by
  unfold fieldPart Sql.partValid
  cases hmatch : partMatch part with
  | none => rfl
  | some found =>
    obtain ⟨range, step⟩ := found
    dsimp only
    rcases isRange_cases (partMatch_range hmatch) with rfl | ⟨hstar, hnil, hwords⟩
    · rw [if_pos rfl, isSome_marked]
      simp only [step_zero, if_pos]
    · rw [if_neg hstar, if_neg hstar, Sql.stringToArray, if_neg hnil]
      rcases hwords with ⟨a, hsplit, ha⟩ | ⟨a, b, hsplit, ha, hb⟩
      · simp only [hsplit, List.headD_cons, number_eq js pg ha, List.mapM_cons, List.mapM_nil]
        cases Sql.endValue pg low names a with
        | none => cases step <;> simp
        | some start =>
          cases step with
          | some step => by_cases hstep : decimal step = 0 <;> simp [hstep]
          | none =>
            by_cases hbounds : start < low ∨ high < start
            · simp [hbounds]
            · simp [hbounds]
      · simp only [hsplit, number_eq js pg ha, number_eq js pg hb, List.mapM_cons, List.mapM_nil]
        cases Sql.endValue pg low names a with
        | none => cases step <;> simp
        | some first =>
          cases Sql.endValue pg low names b with
          | none => cases step <;> simp
          | some last =>
            dsimp only
            rw [isSome_marked]
            simp only [step_zero]
            simp

/-- A field that is not empty is read by both or by neither. -/
theorem field_isSome {text : List Char} (hne : text ≠ []) :
    (field js text low high names).isSome = Sql._field_valid pg text low high names := by
  unfold field Sql._field_valid Sql.stringToArray
  rw [if_neg hne]
  generalize bits (high - low + 1) false = set
  induction text.splitOn ',' generalizing set with
  | nil => rfl
  | cons part parts ih =>
    rw [List.foldlM_cons, List.all_cons, ← fieldPart_isSome js pg set part]
    cases fieldPart js low high names set part with
    | none => rfl
    | some marked =>
      rw [Option.isSome_some, Bool.true_and, ← ih marked]
      rfl

end

/-! ## Pieces -/

section

variable {c : Char} {text : List Char}

theorem mem_splitOn {d : Char} (h : c ∈ text) : c = d ∨ ∃ part ∈ text.splitOn d, c ∈ part := by
  induction text with
  | nil => nomatch h
  | cons e text ih =>
    rw [List.splitOn_cons_eq_if_modifyHead]
    obtain ⟨first, rest, hsplit⟩ := List.exists_cons_of_ne_nil (List.splitOn_ne_nil d text)
    rw [hsplit] at ih ⊢
    split
    next he =>
      rcases List.mem_cons.mp h with rfl | h
      · exact .inl (by simpa using he)
      · rcases ih h with hd | ⟨part, hpart, hc⟩
        · exact .inl hd
        · exact .inr ⟨part, List.mem_cons_of_mem _ hpart, hc⟩
    next =>
      rw [List.modifyHead_cons]
      rcases List.mem_cons.mp h with rfl | h
      · exact .inr ⟨c :: first, List.mem_cons_self .., List.mem_cons_self ..⟩
      · rcases ih h with hd | ⟨part, hpart, hc⟩
        · exact .inl hd
        · rcases List.mem_cons.mp hpart with rfl | hpart
          · exact .inr ⟨e :: part, List.mem_cons_self .., List.mem_cons_of_mem _ hc⟩
          · exact .inr ⟨part, List.mem_cons_of_mem _ hpart, hc⟩

theorem splitRuns_ne_nil (after : Bool) (text : List Char) : splitRuns after text ≠ [] := by
  induction text generalizing after with
  | nil => exact List.cons_ne_nil _ _
  | cons c text ih =>
    simp only [splitRuns]
    split
    · split
      · exact ih true
      · exact List.cons_ne_nil _ _
    · intro h
      exact ih false (List.modifyHead_eq_nil_iff.mp h)

theorem mem_splitRuns (after : Bool) (h : c ∈ text) (hc : isBlank c = false) :
    ∃ piece ∈ splitRuns after text, c ∈ piece := by
  induction text generalizing after with
  | nil => nomatch h
  | cons d text ih =>
    simp only [splitRuns]
    cases hd : isBlank d with
    | true =>
      have hmem : c ∈ text := by
        rcases List.mem_cons.mp h with rfl | h
        · rw [hc] at hd
          nomatch hd
        · exact h
      obtain ⟨piece, hpiece, hin⟩ := ih true hmem
      cases after with
      | true => exact ⟨piece, hpiece, hin⟩
      | false => exact ⟨piece, List.mem_cons_of_mem _ hpiece, hin⟩
    | false =>
      simp only [Bool.false_eq_true, if_false]
      rcases List.mem_cons.mp h with rfl | h
      · obtain ⟨first, rest, hsplit⟩ := List.exists_cons_of_ne_nil (splitRuns_ne_nil false text)
        rw [hsplit]
        exact ⟨c :: first, List.mem_cons_self .., List.mem_cons_self ..⟩
      · obtain ⟨piece, hpiece, hin⟩ := ih false h
        cases hsplit : splitRuns false text with
        | nil => simp [hsplit] at hpiece
        | cons first rest =>
          rw [hsplit] at hpiece
          rcases List.mem_cons.mp hpiece with rfl | hpiece
          · exact ⟨d :: piece, List.mem_cons_self .., List.mem_cons_of_mem _ hin⟩
          · exact ⟨piece, List.mem_cons_of_mem _ hpiece, hin⟩

/-- A text that does not end in a blank has no empty piece but perhaps the first. -/
theorem pieces_ne_nil (hne : text ≠ []) (hlast : ∀ c, text.getLast? = some c → isBlank c = false) :
    (∀ piece ∈ splitRuns true text, piece ≠ []) ∧
      ∀ piece ∈ (splitRuns false text).tail, piece ≠ [] := by
  induction text with
  | nil => exact absurd rfl hne
  | cons c text ih =>
    simp only [splitRuns]
    cases hc : isBlank c with
    | true =>
      have htext : text ≠ [] := by
        rintro rfl
        rw [hlast c rfl] at hc
        nomatch hc
      have ih := ih htext fun d hd => hlast d (by rw [List.getLast?_cons, hd]; rfl)
      exact ⟨ih.1, ih.1⟩
    | false =>
      simp only [Bool.false_eq_true, if_false]
      obtain ⟨first, rest, hsplit⟩ := List.exists_cons_of_ne_nil (splitRuns_ne_nil false text)
      rw [hsplit, List.modifyHead_cons]
      have hrest : ∀ piece ∈ rest, piece ≠ [] := by
        rcases text with _ | ⟨d, text⟩
        · obtain ⟨_, rfl⟩ := List.cons.inj hsplit
          exact fun _ hpiece => nomatch hpiece
        · have ih := ih (List.cons_ne_nil _ _) fun e he => hlast e (by rw [List.getLast?_cons, he]; rfl)
          rw [hsplit] at ih
          exact ih.2
      refine ⟨?_, hrest⟩
      intro piece hpiece
      rcases List.mem_cons.mp hpiece with rfl | hpiece
      · exact List.cons_ne_nil _ _
      · exact hrest piece hpiece

theorem mem_dropWhile {p : Char → Bool} (h : c ∈ text) (hc : p c = false) :
    c ∈ text.dropWhile p := by
  rw [← List.takeWhile_append_dropWhile (p := p) (l := text), List.mem_append] at h
  rcases h with h | h
  · have hp : p c = true := List.mem_takeWhile_imp h
    rw [hc] at hp
    nomatch hp
  · exact h

theorem mem_trimBlanks (h : c ∈ text) (hc : isBlank c = false) : c ∈ trimBlanks text := by
  unfold trimBlanks
  rw [List.mem_reverse]
  apply mem_dropWhile _ hc
  rw [List.mem_reverse]
  exact mem_dropWhile h hc

theorem head?_dropWhile {p : Char → Bool} {d : Char} (h : (text.dropWhile p).head? = some d) :
    p d = false := by
  have hnot := List.head?_dropWhile_not p text
  rw [h] at hnot
  exact hnot

theorem trimBlanks_last {d : Char} (h : (trimBlanks text).getLast? = some d) : isBlank d = false := by
  unfold trimBlanks at h
  rw [List.getLast?_reverse] at h
  exact head?_dropWhile h

theorem trimBlanks_head {d : Char} (h : (trimBlanks text).head? = some d) : isBlank d = false := by
  obtain ⟨rest, hrest⟩ : ∃ rest, trimBlanks text ++ rest = text.dropWhile isBlank := by
    refine ⟨((text.dropWhile isBlank).reverse.takeWhile isBlank).reverse, ?_⟩
    unfold trimBlanks
    rw [← List.reverse_append, List.takeWhile_append_dropWhile, List.reverse_reverse]
  have hhead : (text.dropWhile isBlank).head? = some d := by
    rw [← hrest, List.head?_append, h]
    rfl
  exact head?_dropWhile hhead

/-- The pieces of a trimmed text are not empty. -/
theorem splitBlanks_trimBlanks (h : trimBlanks text ≠ []) :
    ∀ piece ∈ splitBlanks (trimBlanks text), piece ≠ [] := by
  have hpieces := (pieces_ne_nil h fun d hd => trimBlanks_last hd).1
  obtain ⟨c, rest, htrim⟩ := List.exists_cons_of_ne_nil h
  have hhead : (trimBlanks text).head? = some c := by rw [htrim, List.head?_cons]
  have hc := trimBlanks_head hhead
  have hsplit : splitBlanks (trimBlanks text) = splitRuns true (trimBlanks text) := by
    rw [splitBlanks, htrim]
    simp only [splitRuns, hc, Bool.false_eq_true, if_false]
  rw [hsplit]
  exact hpieces

end

/-! ## Characters outside ASCII -/

theorem isNumber_ascii {text : List Char} (h : isNumber text = true) :
    ∀ c ∈ text, c.toNat < 128 := by
  intro c hc
  simp only [isNumber, Bool.and_eq_true, List.all_eq_true] at h
  exact isDigit_ascii (h.2 c hc)

theorem isRange_ascii {range : List Char} (h : isRange range = true) :
    ∀ c ∈ range, c.toNat < 128 := by
  intro c hc
  rcases isRange_cases h with rfl | ⟨_, _, hwords⟩
  · obtain rfl := List.mem_singleton.mp hc
    decide
  rcases mem_splitOn (d := '-') hc with rfl | ⟨part, hpart, hc⟩
  · decide
  rcases hwords with ⟨a, hsplit, ha⟩ | ⟨a, b, hsplit, ha, hb⟩
  · rw [hsplit, List.mem_singleton] at hpart
    subst hpart
    exact word_ascii ha c hc
  · rw [hsplit, List.mem_cons, List.mem_singleton] at hpart
    rcases hpart with rfl | rfl
    · exact word_ascii ha c hc
    · exact word_ascii hb c hc

theorem partMatch_ascii {part : List Char} (h : (partMatch part).isSome = true) :
    ∀ c ∈ part, c.toNat < 128 := by
  intro c hc
  rcases mem_splitOn (d := '/') hc with rfl | ⟨piece, hpiece, hc⟩
  · decide
  unfold partMatch at h
  split at h
  next range hsplit =>
    split at h
    next hrange =>
      rw [hsplit, List.mem_singleton] at hpiece
      subst hpiece
      exact isRange_ascii hrange c hc
    next => nomatch h
  next range step hsplit =>
    split at h
    next hboth =>
      rw [Bool.and_eq_true] at hboth
      rw [hsplit, List.mem_cons, List.mem_singleton] at hpiece
      rcases hpiece with rfl | rfl
      · exact isRange_ascii hboth.1 c hc
      · exact isNumber_ascii hboth.2 c hc
    next => nomatch h
  next => nomatch h

theorem field_ascii {pg : Lowering} {low high : ℕ} {names : Option (List (List Char))}
    {text : List Char} (h : Sql._field_valid pg text low high names = true) :
    ∀ c ∈ text, c.toNat < 128 := by
  intro c hc
  have hne : text ≠ [] := List.ne_nil_of_mem hc
  rw [Sql._field_valid, Sql.stringToArray, if_neg hne, List.all_eq_true] at h
  rcases mem_splitOn (d := ',') hc with rfl | ⟨part, hpart, hc⟩
  · decide
  · apply partMatch_ascii _ c hc
    have hpart := h part hpart
    unfold Sql.partValid at hpart
    cases hmatch : partMatch part with
    | none =>
      rw [hmatch] at hpart
      nomatch hpart
    | some => rfl

/-- The characters of an interval. -/
theorem intervalMatch_chars {text digits : List Char} (h : intervalMatch text = some digits) :
    ∀ c ∈ text, isBlank c = true ∨ isDigit c = true ∨ c ∈ "seconds".toList := by
  simp only [intervalMatch, Option.ite_none_right_eq_some] at h
  obtain ⟨⟨_, hunit, hrest⟩, _⟩ := h
  rw [List.all_eq_true] at hrest
  intro c hc
  by_contra hother
  simp only [not_or, Bool.not_eq_true] at hother
  obtain ⟨hblank, hdigit, hletter⟩ := hother
  have hunits := mem_dropWhile (mem_dropWhile (mem_dropWhile hc hblank) hdigit) hblank
  generalize ((text.dropWhile isBlank).dropWhile isDigit).dropWhile isBlank = unit at *
  rw [← List.take_append_drop 6 unit, List.mem_append, hunit] at hunits
  rcases hunits with hunits | hunits
  · have hsub : "second".toList ⊆ "seconds".toList := List.take_subset 6 "seconds".toList
    exact hletter (hsub hunits)
  have hnot : isBlank c ≠ true := by simp [hblank]
  split at hrest
  next hs =>
    obtain ⟨tail, htail⟩ := List.head?_eq_some_iff.mp hs
    rw [htail] at hunits hrest
    rcases List.mem_cons.mp hunits with rfl | hunits
    · exact hletter (by decide)
    · exact hnot (hrest c hunits)
  next => exact hnot (hrest c hunits)

section

variable (js pg : Lowering) {text : List Char}

theorem interval_ascii {digits : List Char} (h : intervalMatch (js.lower text) = some digits) :
    ∀ c ∈ text, c.toNat < 128 := by
  intro c hc
  by_contra hlarge
  obtain ⟨d, hd, hother⟩ := js.other text c hc (by omega)
  have hchars := intervalMatch_chars h d hd
  rcases hother with hlarge | rfl | rfl
  · have hsmall : d.toNat < 128 := by
      rcases hchars with hblank | hdigit | hletter
      · simp only [isBlank, Bool.or_eq_true, Bool.and_eq_true, decide_eq_true_eq, Char.le_def,
          UInt32.le_iff_toNat_le] at hblank
        rcases hblank with rfl | ⟨_, hle⟩
        · decide
        · exact Nat.lt_of_le_of_lt hle (by decide)
      · exact isDigit_ascii hdigit
      · have hall : ("seconds".toList.all fun d => d.toNat < 128) = true := by decide
        exact of_decide_eq_true (List.all_eq_true.mp hall d hletter)
    omega
  · exact absurd hchars (by decide)
  · exact absurd hchars (by decide)

theorem parseFields_isSome {m h dm mo dw : List Char} (hm : m ≠ []) (hh : h ≠ []) (hdm : dm ≠ [])
    (hmo : mo ≠ []) (hdw : dw ≠ []) :
    (parseFields js m h dm mo dw).isSome =
      (Sql._field_valid pg m 0 59 none && Sql._field_valid pg h 0 23 none &&
        (dm = ['$'] || Sql._field_valid pg dm 1 31 none) &&
        Sql._field_valid pg mo 1 12 (some MONTHS) && Sql._field_valid pg dw 0 7 (some DAYS)) := by
  rw [← field_isSome js pg hm, ← field_isSome js pg hh, ← field_isSome js pg hdm,
    ← field_isSome js pg hmo, ← field_isSome js pg hdw]
  unfold parseFields
  cases field js m 0 59 none <;> cases field js h 0 23 none <;>
    cases field js mo 1 12 (some MONTHS) <;> cases field js dw 0 7 (some DAYS) <;>
    by_cases hlast : dm = ['$'] <;> cases field js dm 1 31 none <;> simp [hlast]

/-- Both languages find an interval in the same texts. -/
theorem interval_eq : intervalMatch (js.lower text) = intervalMatch (pg.lower text) := by
  by_cases hascii : ∀ c ∈ text, c.toNat < 128
  · rw [js.ascii text hascii, pg.ascii text hascii]
  · have hnone : ∀ language : Lowering, intervalMatch (language.lower text) = none := by
      intro language
      rw [Option.eq_none_iff_forall_ne_some]
      intro digits h
      exact hascii (interval_ascii language h)
    rw [hnone js, hnone pg]

/-- The names after the `@`. -/
def macroNames : List (List Char) :=
  ["yearly", "annually", "monthly", "weekly", "daily", "midnight", "hourly"].map String.toList

theorem isSome_ite_some {α : Type} {p : Prop} [Decidable p] (a : α) (other : Option α) :
    (if p then some a else other).isSome = (decide p || other.isSome) := by
  by_cases h : p <;> simp [h]

theorem macroSchedule_isSome (name : List Char) :
    (macroSchedule name).isSome = decide (name ∈ macroNames) := by
  unfold macroSchedule macroNames
  simp only [isSome_ite_some, Option.isSome_none, List.map_cons, List.map_nil, List.mem_cons,
    List.not_mem_nil, Bool.decide_or, Bool.or_assoc, decide_false]

theorem macro_isSome (name : List Char) :
    (if name ≠ [] ∧ name.all isLower = true then (macroSchedule name).map Schedule.cron
      else none).isSome =
      decide ('@' :: name ∈ ["@yearly", "@annually", "@monthly", "@weekly", "@daily", "@midnight",
        "@hourly"].map String.toList) := by
  have hmem : ('@' :: name ∈ ["@yearly", "@annually", "@monthly", "@weekly", "@daily", "@midnight",
      "@hourly"].map String.toList) ↔ name ∈ macroNames := by
    have hnames : ["@yearly", "@annually", "@monthly", "@weekly", "@daily", "@midnight",
        "@hourly"].map String.toList = macroNames.map ('@' :: ·) := by decide
    rw [hnames, List.mem_map]
    constructor
    · rintro ⟨other, hother, heq⟩
      rwa [← (List.cons.inj heq).2]
    · exact fun h => ⟨name, h, rfl⟩
  have hletters : ∀ name ∈ macroNames, name ≠ [] ∧ name.all isLower = true := by decide
  simp only [hmem]
  by_cases h : name ∈ macroNames
  · rw [if_pos (hletters name h), Option.isSome_map, macroSchedule_isSome]
  · split
    · rw [Option.isSome_map, macroSchedule_isSome]
    · rw [decide_eq_false h]
      rfl

/-- Without a limit on the length the two read the same texts. -/
theorem parseText_isSome (text : List Char) :
    (parseText js text).isSome = Sql.text_valid pg text := by
  unfold parseText Sql.text_valid
  rw [interval_eq js pg]
  cases intervalMatch (pg.lower text) with
  | some found =>
    dsimp only
    generalize found.dropWhile (· = '0') = digits
    by_cases hshort : digits.length ≤ 2
    · have hempty : digits.length = 0 → decimal digits = 0 := by
        intro hnil
        rw [List.length_eq_zero_iff.mp hnil]
        rfl
      rw [if_pos hshort]
      by_cases hseconds : 0 < decimal digits ∧ decimal digits < 60
      · rw [if_pos hseconds, Option.isSome_some, eq_comm, decide_eq_true_eq]
        omega
      · rw [if_neg hseconds, Option.isSome_none, eq_comm, decide_eq_false_iff_not]
        omega
    · rw [if_neg hshort, if_neg (by omega), Option.isSome_none, eq_comm, decide_eq_false_iff_not]
      omega
  | none =>
    dsimp only
    by_cases hat : (trimBlanks text).head? = some '@'
    · rw [if_pos hat, if_pos hat]
      obtain ⟨name, hname⟩ := List.head?_eq_some_iff.mp hat
      rw [hname, List.tail_cons]
      exact macro_isSome name
    · rw [if_neg hat, if_neg hat]
      generalize hsplit : splitBlanks (trimBlanks text) = pieces
      match pieces, hsplit with
      | [m, h, dm, mo, dw], hsplit =>
        have hne : trimBlanks text ≠ [] := by
          intro hnil
          rw [hnil] at hsplit
          nomatch hsplit
        have hpieces := splitBlanks_trimBlanks hne
        simp only [hsplit, List.mem_cons, List.not_mem_nil, or_false, forall_eq_or_imp,
          forall_eq] at hpieces
        obtain ⟨hm, hh, hdm, hmo, hdw⟩ := hpieces
        rw [Option.isSome_map]
        exact parseFields_isSome js pg hm hh hdm hmo hdw
      | [], _ | [_], _ | [_, _], _ | [_, _, _], _ | [_, _, _, _], _
      | _ :: _ :: _ :: _ :: _ :: _ :: _, _ => rfl

theorem text_ascii (h : Sql.text_valid pg text = true) : ∀ c ∈ text, c.toNat < 128 := by
  unfold Sql.text_valid at h
  cases hinterval : intervalMatch (pg.lower text) with
  | some digits => exact interval_ascii pg hinterval
  | none =>
    rw [hinterval] at h
    intro c hc
    by_contra hlarge
    have hblank : isBlank c = false := by
      rw [← Bool.not_eq_true]
      intro hblank
      simp only [isBlank, Bool.or_eq_true, Bool.and_eq_true, decide_eq_true_eq, Char.le_def,
        UInt32.le_iff_toNat_le] at hblank
      rcases hblank with rfl | ⟨_, hle⟩
      · exact hlarge (by decide)
      · exact hlarge (Nat.lt_of_le_of_lt hle (by decide))
    have htrim := mem_trimBlanks hc hblank
    dsimp only at h
    split at h
    · have hall : ∀ name ∈ ["@yearly", "@annually", "@monthly", "@weekly", "@daily", "@midnight",
          "@hourly"].map String.toList, (name.all fun c => c.toNat < 128) = true := by decide
      exact hlarge (of_decide_eq_true (List.all_eq_true.mp (hall _ (of_decide_eq_true h)) c htrim))
    · obtain ⟨piece, hpiece, hin⟩ := mem_splitRuns false htrim hblank
      split at h
      next m hr dm mo dw hsplit =>
        simp only [Bool.and_eq_true, Bool.or_eq_true, decide_eq_true_eq] at h
        obtain ⟨⟨⟨⟨hm, hh⟩, hdm⟩, hmo⟩, hdw⟩ := h
        rw [← splitBlanks, hsplit] at hpiece
        simp only [List.mem_cons, List.not_mem_nil, or_false] at hpiece
        rcases hpiece with rfl | rfl | rfl | rfl | rfl
        · exact hlarge (field_ascii hm c hin)
        · exact hlarge (field_ascii hh c hin)
        · rcases hdm with rfl | hdm
          · obtain rfl := List.mem_singleton.mp hin
            exact hlarge (by decide)
          · exact hlarge (field_ascii hdm c hin)
        · exact hlarge (field_ascii hmo c hin)
        · exact hlarge (field_ascii hdw c hin)
      next => nomatch h

end

theorem utf16Length_ascii {text : String} (h : ∀ c ∈ text.toList, c.toNat < 128) :
    utf16Length text = text.toList.length := by
  unfold utf16Length
  generalize text.toList = chars at h
  induction chars with
  | nil => rfl
  | cons c chars ih =>
    have hc := h c (List.mem_cons_self ..)
    rw [List.map_cons, List.sum_cons, if_pos (by omega), List.length_cons,
      ih fun d hd => h d (List.mem_cons_of_mem _ hd)]
    omega

/-- The scheduler reads a text exactly when the database stores it. -/
theorem parseSchedule_isSome (js pg : Lowering) (text : String) :
    (parseSchedule js text).isSome = Sql.schedule_valid pg text := by
  unfold parseSchedule Sql.schedule_valid
  have htext := parseText_isSome js pg text.toList
  by_cases hascii : ∀ c ∈ text.toList, c.toNat < 128
  · rw [utf16Length_ascii hascii]
    unfold MAX_SCHEDULE
    split
    · rfl
    · exact htext
  · have hrefused : Sql.text_valid pg text.toList = false := by
      rw [← Bool.not_eq_true]
      exact fun hvalid => hascii (text_ascii pg hvalid)
    rw [hrefused] at htext ⊢
    rw [ite_self]
    split
    · rfl
    · exact htext

end Sbarbase.Scheduler.Proofs.ScheduleSyntax
