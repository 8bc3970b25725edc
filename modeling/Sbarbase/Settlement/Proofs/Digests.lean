import Sbarbase.Settlement.Proofs.Keys
/-!
# Two encoders of one inventory

What each side admits is told apart from what it writes. They write the same
text for what both admit, and they admit the same values up to two ways of
writing a number.
-/

namespace Sbarbase.Settlement.Proofs.Digests

open Lib Keys

/-! ## Numbers -/

def signed (n : Numeral) : ℤ := if n.negative then -(n.whole : ℤ) else n.whole

/-- `-0`. -/
def isMinusZero (n : Numeral) : Bool := n.isWhole && n.negative && n.whole = 0

theorem toPython_of_isWhole {n : Numeral} (h : n.isWhole) : n.toPython = .int (signed n) := by
  rw [Numeral.toPython, if_pos h, signed]

/-- What `jsonClone` makes of a number without fraction and exponent. -/
theorem safeNumber_of_isWhole {n : Numeral} (h : n.isWhole) : TypeScript.safeNumber n.toDouble =
      if n.whole ≤ 9007199254740991 ∧ isMinusZero n = false then some (signed n) else none := by
  have hdouble : n.toDouble = .ofRat n.negative n.whole := by
    rw [Numeral.toDouble, Numeral.magnitude_of_isWhole h]
  rw [TypeScript.safeNumber, hdouble, Double.safeInteger_ofRat]
  by_cases hrange : n.whole ≤ 9007199254740991
  · rw [Double.isNegativeZero_ofRat _ hrange, if_pos hrange]
    simp only [isMinusZero, h, Bool.true_and, hrange, true_and, signed]
    cases n.negative && decide (n.whole = 0) <;> simp
  · rw [if_neg hrange, ite_self]
    exact (if_neg fun hand => hrange hand.1).symm

theorem signed_range (n : Numeral) :
    (-MAX_INTEGER ≤ signed n ∧ signed n ≤ MAX_INTEGER) ↔ n.whole ≤ 9007199254740991 := by
  rw [signed, MAX_INTEGER]
  split <;> omega

/-! ## What each side admits -/

/-- A property of every number. -/
def allNumbers (p : Numeral → Bool) : Json → Bool :=
  Value.fold
    { null := true
      flag := fun _ => true
      number := p
      text := fun _ => true
      array := fun items => items.all id
      object := fun members => members.all fun member => member.2 }

def clean (text : CodePoints) : Bool := !text.any isSurrogate

/-- No text of the value has a surrogate. -/
def cleanTexts : Json → Bool :=
  Value.fold
    { null := true
      flag := fun _ => true
      number := fun _ => true
      text := clean
      array := fun items => items.all id
      object := fun members => members.all fun member => member.2 }

/-- The shape that both sides ask for, with the test of a number and of a text. -/
def admits (number : Numeral → Bool) (text : CodePoints → Bool) : Json → ℕ → Bool :=
  Value.fold
    { null := fun depth => depth ≤ 100
      flag := fun _ depth => depth ≤ 100
      number := fun value depth => depth ≤ 100 && number value
      text := fun value depth => depth ≤ 100 && text value
      array := fun items depth => depth ≤ 100 && items.all fun item => item (depth + 1)
      object := fun members depth =>
        depth ≤ 100 && members.all fun member => clean member.1 && member.2 (depth + 1) }

def pythonNumber (n : Numeral) : Bool := n.isWhole && n.whole ≤ 9007199254740991

def typescriptNumber (n : Numeral) : Bool := (TypeScript.safeNumber n.toDouble).isSome

theorem isSome_encodeUtf8 (text : CodePoints) : (encodeUtf8 text).isSome = clean text := by
  rw [encodeUtf8, clean]
  split <;> simp_all

theorem all_congr_mem {α : Type} {p q : α → Bool} {l : List α} (h : ∀ a ∈ l, p a = q a) :
    l.all p = l.all q := by
  rw [Bool.eq_iff_iff, List.all_eq_true, List.all_eq_true]
  constructor
  · intro hp a ha
    rw [← h a ha]
    exact hp a ha
  · intro hq a ha
    rw [h a ha]
    exact hq a ha

section

variable (number : Numeral → Bool) (text : CodePoints → Bool)

@[simp] theorem check_array (items : List (Value PyNumber)) (depth : ℕ) :
    Python.check (.array items) depth =
      (depth ≤ 100 && items.all fun item => Python.check item (depth + 1)) := by
  simp only [Python.check, Value.fold_array, List.all_map]
  rfl

@[simp] theorem check_object (members : List (CodePoints × Value PyNumber)) (depth : ℕ) :
    Python.check (.object members) depth = (depth ≤ 100 && members.all fun member =>
      (encodeUtf8 member.1).isSome && Python.check member.2 (depth + 1)) := by
  simp only [Python.check, Value.fold_object, List.all_map]
  rfl

@[simp] theorem admits_array (items : List Json) (depth : ℕ) :
    admits number text (.array items) depth =
      (depth ≤ 100 && items.all fun item => admits number text item (depth + 1)) := by
  simp only [admits, Value.fold_array, List.all_map]
  rfl

@[simp] theorem admits_object (members : List (CodePoints × Json)) (depth : ℕ) :
    admits number text (Value.object members) depth = (depth ≤ 100 && members.all fun member =>
      clean member.1 && admits number text member.2 (depth + 1)) := by
  simp only [admits, Value.fold_object, List.all_map]
  rfl

@[simp] theorem allNumbers_array (items : List Json) :
    allNumbers number (.array items) = items.all fun item => allNumbers number item := by
  simp only [allNumbers, Value.fold_array, List.all_map]
  rfl

@[simp] theorem allNumbers_object (members : List (CodePoints × Json)) :
    allNumbers number (Value.object members) =
      members.all fun member => allNumbers number member.2 := by
  simp only [allNumbers, Value.fold_object, List.all_map]
  rfl

@[simp] theorem cleanTexts_array (items : List Json) :
    cleanTexts (.array items) = items.all fun item => cleanTexts item := by
  simp only [cleanTexts, Value.fold_array, List.all_map]
  rfl

@[simp] theorem cleanTexts_object (members : List (CodePoints × Json)) :
    cleanTexts (Value.object members) = members.all fun member => cleanTexts member.2 := by
  simp only [cleanTexts, Value.fold_object, List.all_map]
  rfl

end

theorem check_eq (w : Json) (depth : ℕ) :
    Python.check (w.map Numeral.toPython) depth = admits pythonNumber (fun _ => true) w depth := by
  induction w using Value.induct generalizing depth with
  | hnull => simp [Python.check, admits]
  | hflag value => simp [Python.check, admits]
  | hnumber n =>
      simp only [Python.check, admits, Value.map_number, Value.fold_number, pythonNumber]
      congr 1
      by_cases h : n.isWhole
      · rw [toPython_of_isWhole h]
        simp only [h, Bool.true_and]
        rw [← Bool.decide_and, decide_eq_decide]
        exact signed_range n
      · simp [Numeral.toPython, h]
  | htext value => simp [Python.check, admits]
  | harray items ih =>
      rw [Value.map_array, check_array, admits_array, List.all_map]
      congr 1
      exact all_congr_mem fun item hitem => ih item hitem (depth + 1)
  | hobject members ih =>
      rw [Value.map_object, check_object, admits_object, List.all_map]
      congr 1
      refine all_congr_mem fun member hmember => ?_
      rw [← isSome_encodeUtf8, ← ih member hmember (depth + 1)]
      rfl

/-! ## The clone -/

/-- What `jsonClone` returns. -/
def cloned : Json → Value ℤ :=
  Value.fold ⟨.null, .flag, fun n => .number ((TypeScript.safeNumber n.toDouble).getD 0), .text,
    .array, fun members => .object (Python.javascriptKeys members)⟩

theorem mapM_if {α β : Type} {f : α → Option β} {p : α → Bool} {g : α → β} {l : List α}
    (h : ∀ a ∈ l, f a = if p a then some (g a) else none) :
    l.mapM f = if l.all p then some (l.map g) else none := by
  induction l with
  | nil => rfl
  | cons a l ih =>
      rw [List.mapM_cons, h a List.mem_cons_self, ih fun b hb => h b (List.mem_cons_of_mem _ hb)]
      cases hp : p a <;> cases hall : l.all p <;> simp [hp, hall]

@[simp] theorem cloned_array (items : List Json) :
    cloned (.array items) = .array (items.map cloned) := Value.fold_array _ _

@[simp] theorem cloned_object (members : List (CodePoints × Json)) : cloned (Value.object members) =
      .object ((Python.javascriptKeys members).map fun member => (member.1, cloned member.2)) := by
  rw [← javascriptKeys_map (fun member : CodePoints × Json => (member.1, cloned member.2))
    (fun _ => rfl)]
  exact Value.fold_object _ _

theorem jsonClone_array (items : List (Value Double)) (depth : ℕ) :
    TypeScript.jsonClone (.array items) depth =
      if 100 < depth then none
      else (items.mapM fun item => TypeScript.jsonClone item (depth + 1)).map .array := by
  simp only [TypeScript.jsonClone, Value.fold_array, List.mapM_map]
  rfl

theorem jsonClone_object (members : List (CodePoints × Value Double)) (depth : ℕ) :
    TypeScript.jsonClone (.object members) depth =
      if 100 < depth then none
      else ((Python.javascriptKeys members).mapM fun member =>
        TypeScript.cloneMember (depth + 1) (member.1, TypeScript.jsonClone member.2)).map .object := by
  calc TypeScript.jsonClone (.object members) depth =
      if 100 < depth then none
      else ((TypeScript.ownEntries (members.map fun member =>
        (member.1, TypeScript.jsonClone member.2))).mapM (TypeScript.cloneMember (depth + 1))).map
          .object := congrFun (Value.fold_object _ _) depth
    _ = _ := by
      rw [ownEntries_eq, javascriptKeys_map (fun member : CodePoints × Value Double =>
        (member.1, TypeScript.jsonClone member.2)) fun _ => rfl, List.mapM_map]
      rfl

theorem ite_depth {α : Type} (depth : ℕ) (x : Option α) :
    (if 100 < depth then none else x) = if depth ≤ 100 then x else none := by
  split_ifs <;> first | rfl | omega

theorem jsonClone_eq (w : Json) (depth : ℕ) : TypeScript.jsonClone (w.map Numeral.toDouble) depth =
      if admits typescriptNumber clean w depth then some (cloned w) else none := by
  induction w using Value.induct generalizing depth with
  | hnull => simp [TypeScript.jsonClone, admits, cloned, ite_depth]
  | hflag value => simp [TypeScript.jsonClone, admits, cloned, ite_depth]
  | hnumber n =>
      simp only [Value.map_number, TypeScript.jsonClone, admits, cloned, Value.fold_number, ite_depth,
        typescriptNumber]
      cases TypeScript.safeNumber n.toDouble <;> simp
  | htext value =>
      simp only [Value.map_text, TypeScript.jsonClone, admits, cloned, Value.fold_text, ite_depth,
        TypeScript.unicodeString, clean]
      cases value.any isSurrogate <;> simp
  | harray items ih =>
      have hparts : (items.map (Value.map Numeral.toDouble)).mapM
          (fun item => TypeScript.jsonClone item (depth + 1)) =
          if items.all (fun item => admits typescriptNumber clean item (depth + 1)) then
            some (items.map cloned) else none := by
        rw [List.mapM_map]
        exact mapM_if fun item hitem => ih item hitem (depth + 1)
      rw [Value.map_array, jsonClone_array, hparts, ite_depth, admits_array, cloned_array]
      by_cases hdepth : depth ≤ 100 <;>
        cases items.all (fun item => admits typescriptNumber clean item (depth + 1)) <;> simp [hdepth]
  | hobject members ih =>
      have hmember : ∀ member ∈ members,
          TypeScript.cloneMember (depth + 1)
            (member.1, TypeScript.jsonClone (member.2.map Numeral.toDouble)) =
          if clean member.1 && admits typescriptNumber clean member.2 (depth + 1) then
            some (member.1, cloned member.2) else none := by
        intro member hmember
        simp only [TypeScript.cloneMember, TypeScript.unicodeString, ih member hmember (depth + 1), clean]
        by_cases hdirty : member.1.any isSurrogate <;>
          by_cases hadmits : admits typescriptNumber clean member.2 (depth + 1) <;>
            simp [hdirty, hadmits]
      have hall : (Python.javascriptKeys members).all (fun member =>
          clean member.1 && admits typescriptNumber clean member.2 (depth + 1)) =
          members.all fun member =>
            clean member.1 && admits typescriptNumber clean member.2 (depth + 1) := by
        rw [Bool.eq_iff_iff, List.all_eq_true, List.all_eq_true]
        simp only [mem_javascriptKeys]
      have hparts : (Python.javascriptKeys
          (members.map fun member => (member.1, member.2.map Numeral.toDouble))).mapM (fun member =>
            TypeScript.cloneMember (depth + 1) (member.1, TypeScript.jsonClone member.2)) =
          if members.all (fun member =>
            clean member.1 && admits typescriptNumber clean member.2 (depth + 1)) then
            some ((Python.javascriptKeys members).map fun member => (member.1, cloned member.2))
          else none := by
        rw [javascriptKeys_map (fun member : CodePoints × Json =>
          (member.1, member.2.map Numeral.toDouble)) fun _ => rfl, List.mapM_map, ← hall]
        exact mapM_if fun member hmem => hmember member (mem_javascriptKeys.mp hmem)
      rw [Value.map_object, jsonClone_object, hparts, ite_depth, admits_object, cloned_object]
      by_cases hdepth : depth ≤ 100 <;>
        cases members.all (fun member =>
          clean member.1 && admits typescriptNumber clean member.2 (depth + 1)) <;> simp [hdepth]

/-! ## The texts -/

section

variable (floatRepr : Double → CodePoints)

@[simp] theorem javascriptOrder_array (items : List (Value PyNumber)) :
    Python.javascriptOrder (.array items) = .array (items.map Python.javascriptOrder) :=
  Value.fold_array _ _

@[simp] theorem javascriptOrder_object (members : List (CodePoints × Value PyNumber)) :
    Python.javascriptOrder (.object members) =
      .object ((Python.javascriptKeys members).map fun member =>
        (member.1, Python.javascriptOrder member.2)) := by
  rw [← javascriptKeys_map (fun member : CodePoints × Value PyNumber =>
    (member.1, Python.javascriptOrder member.2)) fun _ => rfl]
  exact Value.fold_object _ _

@[simp] theorem dumps_array (items : List (Value PyNumber)) :
    Python.dumps floatRepr (.array items) = enclose 91 93 (items.map (Python.dumps floatRepr)) :=
  Value.fold_array _ _

@[simp] theorem dumps_object (members : List (CodePoints × Value PyNumber)) :
    Python.dumps floatRepr (.object members) = enclose 123 125 (members.map fun member =>
      Python.encodeString member.1 ++ [58] ++ Python.dumps floatRepr member.2) := by
  simp only [Python.dumps, Value.fold_object, List.map_map]
  rfl

@[simp] theorem stringify_array (items : List (Value ℤ)) :
    TypeScript.stringify (.array items) = enclose 91 93 (items.map TypeScript.stringify) :=
  Value.fold_array _ _

@[simp] theorem stringify_object (members : List (CodePoints × Value ℤ)) :
    TypeScript.stringify (.object members) =
      enclose 123 125 ((Python.javascriptKeys members).map fun member =>
        TypeScript.quoteString member.1 ++ [58] ++ TypeScript.stringify member.2) := by
  calc TypeScript.stringify (.object members) =
      enclose 123 125 ((TypeScript.ownEntries (members.map fun member =>
        (member.1, TypeScript.stringify member.2))).map fun member =>
          TypeScript.quoteString member.1 ++ [58] ++ member.2) := Value.fold_object _ _
    _ = _ := by
      rw [ownEntries_eq, javascriptKeys_map (fun member : CodePoints × Value ℤ =>
        (member.1, TypeScript.stringify member.2)) fun _ => rfl, List.map_map]
      rfl

end

/-- Both escape the same characters, each in the same way. -/
theorem encodeString_eq {text : CodePoints} (h : clean text) :
    Python.encodeString text = TypeScript.quoteString text := by
  rw [Python.encodeString, TypeScript.quoteString]
  congr 1
  have hchars : ∀ c ∈ text, isSurrogate c = false := by
    simpa [clean] using h
  refine List.flatMap_congr fun c hc => ?_
  have hsurrogate := hchars c hc
  split
  all_goals first | rfl | skip
  next h8 h9 h10 h12 h13 h34 h92 =>
    rw [Python.escape, if_neg h34, if_neg h92, if_neg h10, if_neg h13, if_neg h9, if_neg h12,
      if_neg h8]
    simp [hsurrogate]

/-- What both sides admit they write alike. -/
theorem dumps_eq (floatRepr : Double → CodePoints) (w : Json) (depth : ℕ)
    (hpython : admits pythonNumber (fun _ => true) w depth)
    (htypescript : admits typescriptNumber clean w depth) :
    Python.dumps floatRepr (Python.javascriptOrder (w.map Numeral.toPython)) =
      TypeScript.stringify (cloned w) := by
  induction w using Value.induct generalizing depth with
  | hnull => simp [Python.dumps, Python.javascriptOrder, TypeScript.stringify, cloned]
  | hflag value => simp [Python.dumps, Python.javascriptOrder, TypeScript.stringify, cloned]
  | hnumber n =>
      simp only [admits, Value.fold_number, Bool.and_eq_true, pythonNumber, typescriptNumber]
        at hpython htypescript
      have hwhole : n.isWhole = true := hpython.2.1
      have hsafe := htypescript.2
      rw [safeNumber_of_isWhole hwhole] at hsafe
      have hvalue : TypeScript.safeNumber n.toDouble = some (signed n) := by
        rw [safeNumber_of_isWhole hwhole]
        by_contra hnone
        rw [if_neg fun hand => hnone (if_pos hand)] at hsafe
        cases hsafe
      simp [Python.dumps, Python.javascriptOrder, TypeScript.stringify, cloned,
        toPython_of_isWhole hwhole, hvalue]
  | htext value =>
      simp only [admits, Value.fold_text, Bool.and_eq_true] at htypescript
      simp [Python.dumps, Python.javascriptOrder, TypeScript.stringify, cloned,
        encodeString_eq htypescript.2]
  | harray items ih =>
      rw [admits_array, Bool.and_eq_true, List.all_eq_true] at hpython htypescript
      rw [Value.map_array, javascriptOrder_array, dumps_array, cloned_array, stringify_array,
        List.map_map, List.map_map, List.map_map]
      congr 1
      exact List.map_congr_left fun item hitem =>
        ih item hitem (depth + 1) (hpython.2 item hitem) (htypescript.2 item hitem)
  | hobject members ih =>
      simp only [admits_object, Bool.and_eq_true, List.all_eq_true] at hpython htypescript
      have hkeys : Python.javascriptKeys
          (members.map fun member => (member.1, member.2.map Numeral.toPython)) =
          (Python.javascriptKeys members).map fun member => (member.1, member.2.map Numeral.toPython) :=
        javascriptKeys_map (fun member : CodePoints × Json => (member.1, member.2.map Numeral.toPython))
          (fun _ => rfl) _
      have hcloned : Python.javascriptKeys
          ((Python.javascriptKeys members).map fun member => (member.1, cloned member.2)) =
          (Python.javascriptKeys members).map fun member => (member.1, cloned member.2) := by
        rw [javascriptKeys_map (fun member : CodePoints × Json => (member.1, cloned member.2))
          fun _ => rfl, javascriptKeys_idem]
      rw [Value.map_object, javascriptOrder_object, hkeys, dumps_object, cloned_object,
        stringify_object, hcloned, List.map_map, List.map_map, List.map_map]
      congr 1
      refine List.map_congr_left fun member hmem => ?_
      have hmember := mem_javascriptKeys.mp hmem
      have hname := (htypescript.2 member hmember).1
      have hvalue := ih member hmember (depth + 1) (hpython.2 member hmember).2
        (htypescript.2 member hmember).2
      simp only [Function.comp_apply, encodeString_eq hname, hvalue]

end Sbarbase.Settlement.Proofs.Digests
