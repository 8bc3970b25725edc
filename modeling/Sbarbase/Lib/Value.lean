import Mathlib.Data.Nat.Notation
import Mathlib.Data.List.Basic
import Sbarbase.Lib.Binary64
/-!
# JSON values

A value is a tree over numbers of some kind: as they are written, or as a
language reads them. A text is the list of its code points, where a surrogate
that is not part of a pair stands for itself. Functions over values are folds.
-/

namespace Sbarbase.Lib

abbrev CodePoints := List ℕ

instance : LawfulBEq CodePoints := inferInstance

def codePoints (text : String) : CodePoints := text.toList.map Char.toNat

def isSurrogate (c : ℕ) : Bool := 0xD800 ≤ c && c ≤ 0xDFFF

inductive Value (ν : Type)
  | null
  | flag (value : Bool)
  | number (value : ν)
  | text (value : CodePoints)
  | array (items : List (Value ν))
  | object (members : List (CodePoints × Value ν))

/-- What a function makes of each kind of value, given what it makes of the parts. -/
structure Algebra (ν α : Type) where
  null : α
  flag : Bool → α
  number : ν → α
  text : CodePoints → α
  array : List α → α
  object : List (CodePoints × α) → α

namespace Value

variable {ν ν' α : Type}

mutual

def fold (A : Algebra ν α) : Value ν → α
  | .null => A.null
  | .flag value => A.flag value
  | .number value => A.number value
  | .text value => A.text value
  | .array items => A.array (foldItems A items)
  | .object members => A.object (foldMembers A members)

def foldItems (A : Algebra ν α) : List (Value ν) → List α
  | [] => []
  | item :: items => fold A item :: foldItems A items

def foldMembers (A : Algebra ν α) : List (CodePoints × Value ν) → List (CodePoints × α)
  | [] => []
  | (name, value) :: members => (name, fold A value) :: foldMembers A members

end

theorem foldItems_eq (A : Algebra ν α) (items : List (Value ν)) :
    foldItems A items = items.map (fold A) := by
  induction items with
  | nil => rfl
  | cons item items ih => exact congrArg (fold A item :: ·) ih

theorem foldMembers_eq (A : Algebra ν α) (members : List (CodePoints × Value ν)) :
    foldMembers A members = members.map fun member => (member.1, fold A member.2) := by
  induction members with
  | nil => rfl
  | cons member members ih => exact congrArg ((member.1, fold A member.2) :: ·) ih

section

variable (A : Algebra ν α)

@[simp] theorem fold_null : fold A .null = A.null := rfl

@[simp] theorem fold_flag (value : Bool) : fold A (.flag value) = A.flag value := rfl

@[simp] theorem fold_number (value : ν) : fold A (.number value) = A.number value := by rw [fold]

@[simp] theorem fold_text (value : CodePoints) : fold A (.text value) = A.text value := by
  rw [fold]

@[simp] theorem fold_array (items : List (Value ν)) :
    fold A (.array items) = A.array (items.map (fold A)) :=
  congrArg A.array (foldItems_eq A items)

@[simp] theorem fold_object (members : List (CodePoints × Value ν)) : fold A (.object members) =
      A.object (members.map fun member => (member.1, fold A member.2)) :=
  congrArg A.object (foldMembers_eq A members)

end

/-- Induction over a value, with the statement for every part of a list or an object. -/
theorem induct {P : Value ν → Prop} (hnull : P .null) (hflag : ∀ value, P (.flag value))
    (hnumber : ∀ value, P (.number value)) (htext : ∀ value, P (.text value))
    (harray : ∀ items, (∀ item ∈ items, P item) → P (.array items))
    (hobject : ∀ members, (∀ member ∈ members, P member.2) → P (.object members)) :
    ∀ value, P value :=
  @Value.rec ν P (fun items => ∀ item ∈ items, P item) (fun members => ∀ member ∈ members, P member.2)
    (fun member => P member.2) hnull hflag hnumber htext harray hobject (by simp)
    (fun _ _ hitem hitems => List.forall_mem_cons.mpr ⟨hitem, hitems⟩) (by simp)
    (fun _ _ hmember hmembers => List.forall_mem_cons.mpr ⟨hmember, hmembers⟩)
    (fun _ _ hvalue => hvalue)

/-! ## Reading -/

/-- A later member takes the place of an earlier one of its name. -/
def put (name : CodePoints) (value : α) : List (CodePoints × α) → List (CodePoints × α)
  | [] => [(name, value)]
  | member :: members =>
    if member.1 = name then (name, value) :: members else member :: put name value members

def asDict (members : List (CodePoints × α)) : List (CodePoints × α) :=
  members.foldl (fun dict member => put member.1 member.2 dict) []

/-- The numbers of a value read one by one. -/
def map (f : ν → ν') : Value ν → Value ν' :=
  fold ⟨.null, .flag, fun value => .number (f value), .text, .array, .object⟩

section

variable (f : ν → ν')

@[simp] theorem map_null : map f .null = .null := fold_null _

@[simp] theorem map_flag (value : Bool) : map f (.flag value) = .flag value := fold_flag _ _

@[simp] theorem map_number (value : ν) : map f (.number value) = .number (f value) :=
  fold_number _ _

@[simp] theorem map_text (value : CodePoints) : map f (.text value) = .text value := fold_text _ _

@[simp] theorem map_array (items : List (Value ν)) :
    map f (.array items) = .array (items.map (map f)) := fold_array _ _

@[simp] theorem map_object (members : List (CodePoints × Value ν)) :
    map f (.object members) = .object (members.map fun member => (member.1, map f member.2)) :=
  fold_object _ _

end

/-- The objects of a text, each with the last of the members of one name. -/
def collapse : Value ν → Value ν :=
  fold ⟨.null, .flag, .number, .text, .array, fun members => .object (asDict members)⟩

theorem keys_put (name : CodePoints) (value : α) (members : List (CodePoints × α)) :
    (put name value members).map Prod.fst =
      if name ∈ members.map Prod.fst then members.map Prod.fst else members.map Prod.fst ++ [name] := by
  induction members with
  | nil => simp [put]
  | cons member members ih =>
      by_cases h : member.1 = name
      · simp [put, h]
      · rw [put, if_neg h, List.map_cons, ih, List.map_cons]
        have hne : name ≠ member.1 := fun heq => h heq.symm
        split_ifs <;> simp_all

theorem nodup_put {members : List (CodePoints × α)} (name : CodePoints) (value : α)
    (h : (members.map Prod.fst).Nodup) : ((put name value members).map Prod.fst).Nodup := by
  rw [keys_put]
  split_ifs with hmem
  · exact h
  · rw [List.nodup_append]
    refine ⟨h, List.nodup_singleton name, ?_⟩
    intro key hkey last hlast heq
    rw [List.mem_singleton] at hlast
    rw [heq, hlast] at hkey
    exact hmem hkey

/-- A dictionary has every name once. -/
theorem nodup_asDict (members : List (CodePoints × α)) : ((asDict members).map Prod.fst).Nodup := by
  have hfold : ∀ dict : List (CodePoints × α), (dict.map Prod.fst).Nodup →
      ((members.foldl (fun dict member => put member.1 member.2 dict) dict).map Prod.fst).Nodup := by
    induction members with
    | nil => exact fun _ h => h
    | cons member members ih => exact fun dict h => ih _ (nodup_put _ _ h)
  exact hfold [] (by simp)

/-- Every object of a value has each of its names once. -/
def Distinct : Value ν → Prop :=
  fold
    { null := True
      flag := fun _ => True
      number := fun _ => True
      text := fun _ => True
      array := fun items => ∀ item ∈ items, item
      object := fun members => (members.map Prod.fst).Nodup ∧ ∀ member ∈ members, member.2 }

@[simp] theorem distinct_number (value : ν) : Distinct (.number value) := by
  rw [Distinct, fold_number]
  trivial

@[simp] theorem distinct_text (value : CodePoints) : Distinct (.text value : Value ν) := by
  rw [Distinct, fold_text]
  trivial

@[simp] theorem distinct_array (items : List (Value ν)) :
    Distinct (.array items) ↔ ∀ item ∈ items, Distinct item := by
  rw [Distinct, fold_array]
  exact List.forall_mem_map

@[simp] theorem distinct_object (members : List (CodePoints × Value ν)) :
    Distinct (.object members) ↔
      (members.map Prod.fst).Nodup ∧ ∀ member ∈ members, Distinct member.2 := by
  rw [Distinct, fold_object]
  refine and_congr ?_ List.forall_mem_map
  rw [List.map_map]
  exact Iff.rfl

theorem mem_put {name : CodePoints} {value : α} {member : CodePoints × α}
    {members : List (CodePoints × α)} (h : member ∈ put name value members) :
    member = (name, value) ∨ member ∈ members := by
  induction members with
  | nil => exact .inl (by simpa [put] using h)
  | cons first members ih =>
      rw [put] at h
      split at h
      · rcases List.mem_cons.mp h with h | h
        · exact .inl h
        · exact .inr (List.mem_cons_of_mem _ h)
      · rcases List.mem_cons.mp h with h | h
        · exact .inr (h ▸ List.mem_cons_self)
        · exact (ih h).imp id (List.mem_cons_of_mem _)

/-- A dictionary has no other members than the list it was made of. -/
theorem mem_of_mem_asDict {member : CodePoints × α} {members : List (CodePoints × α)}
    (h : member ∈ asDict members) : member ∈ members := by
  have hfold : ∀ dict : List (CodePoints × α),
      member ∈ members.foldl (fun dict member => put member.1 member.2 dict) dict →
        member ∈ dict ∨ member ∈ members := by
    clear h
    induction members with
    | nil => exact fun _ h => .inl h
    | cons first members ih =>
        intro dict h
        rcases ih _ h with h | h
        · rcases mem_put h with h | h
          · exact .inr (h ▸ List.mem_cons_self)
          · exact .inl h
        · exact .inr (List.mem_cons_of_mem _ h)
  exact (hfold [] h).resolve_left (by simp)

theorem put_of_notMem {name : CodePoints} {value : α} {members : List (CodePoints × α)}
    (h : name ∉ members.map Prod.fst) : put name value members = members ++ [(name, value)] := by
  induction members with
  | nil => rfl
  | cons member members ih =>
      rw [List.map_cons, List.mem_cons, not_or] at h
      rw [put, if_neg (Ne.symm h.1), ih h.2, List.cons_append]

theorem asDict_of_nodup {members : List (CodePoints × α)} (h : (members.map Prod.fst).Nodup) :
    asDict members = members := by
  have hfold : ∀ dict : List (CodePoints × α), ((dict ++ members).map Prod.fst).Nodup →
      members.foldl (fun dict member => put member.1 member.2 dict) dict = dict ++ members := by
    clear h
    induction members with
    | nil => exact fun dict _ => by simp
    | cons member members ih =>
        intro dict hnodup
        have hmem : member.1 ∉ dict.map Prod.fst := by
          rw [List.map_append, List.nodup_append] at hnodup
          exact fun hin => hnodup.2.2 member.1 hin member.1 (by simp) rfl
        rw [List.foldl_cons, put_of_notMem hmem, ih (dict ++ [member]) (by simpa using hnodup)]
        simp
  exact hfold [] (by simpa using h)

@[simp] theorem collapse_array (items : List (Value ν)) :
    collapse (.array items) = .array (items.map collapse) := fold_array _ _

@[simp] theorem collapse_object (members : List (CodePoints × Value ν)) :
    collapse (.object members) =
      .object (asDict (members.map fun member => (member.1, collapse member.2))) := fold_object _ _

theorem distinct_collapse (value : Value ν) : Distinct (collapse value) := by
  induction value using induct with
  | hnull => simp [collapse, Distinct]
  | hflag value => simp [collapse, Distinct]
  | hnumber value => simp [collapse, Distinct]
  | htext value => simp [collapse, Distinct]
  | harray items ih =>
      rw [collapse_array, distinct_array]
      intro item hitem
      obtain ⟨part, hpart, rfl⟩ := List.mem_map.mp hitem
      exact ih part hpart
  | hobject members ih =>
      rw [collapse_object, distinct_object]
      refine ⟨nodup_asDict _, fun member hmember => ?_⟩
      obtain ⟨part, hpart, rfl⟩ := List.mem_map.mp (mem_of_mem_asDict hmember)
      exact ih part hpart

/-- What has no repeated names is read as it is. -/
theorem collapse_of_distinct {value : Value ν} (h : Distinct value) : collapse value = value := by
  induction value using induct with
  | hnull => simp [collapse]
  | hflag value => simp [collapse]
  | hnumber value => simp [collapse]
  | htext value => simp [collapse]
  | harray items ih =>
      rw [distinct_array] at h
      rw [collapse_array]
      congr 1
      calc items.map collapse = items.map id :=
            List.map_congr_left fun item hitem => ih item hitem (h item hitem)
        _ = items := List.map_id items
  | hobject members ih =>
      rw [distinct_object] at h
      have hsame : (members.map fun member => (member.1, collapse member.2)) = members := by
        calc (members.map fun member => (member.1, collapse member.2)) = members.map id :=
              List.map_congr_left fun member hmember => by
                rw [ih member hmember (h.2 member hmember)]
                rfl
          _ = members := List.map_id members
      rw [collapse_object, hsame, asDict_of_nodup h.1]

theorem distinct_map (f : ν → ν') {value : Value ν} (h : Distinct value) : Distinct (map f value) := by
  induction value using induct with
  | hnull => simp [Distinct]
  | hflag value => simp [Distinct]
  | hnumber value => simp [Distinct]
  | htext value => simp [Distinct]
  | harray items ih =>
      rw [distinct_array] at h
      rw [map_array, distinct_array]
      intro item hitem
      obtain ⟨part, hpart, rfl⟩ := List.mem_map.mp hitem
      exact ih part hpart (h part hpart)
  | hobject members ih =>
      rw [distinct_object] at h
      rw [map_object, distinct_object, List.map_map]
      refine ⟨h.1, fun member hmember => ?_⟩
      obtain ⟨part, hpart, rfl⟩ := List.mem_map.mp hmember
      exact ih part hpart (h.2 part hpart)

theorem map_map {ν'' : Type} (f : ν → ν') (g : ν' → ν'') (value : Value ν) :
    map g (map f value) = map (g ∘ f) value := by
  induction value using induct with
  | hnull => simp
  | hflag value => simp
  | hnumber value => simp
  | htext value => simp
  | harray items ih =>
      rw [map_array, map_array, map_array, List.map_map]
      congr 1
      exact List.map_congr_left fun item hitem => ih item hitem
  | hobject members ih =>
      rw [map_object, map_object, map_object, List.map_map]
      congr 1
      exact List.map_congr_left fun member hmember => by
        rw [Function.comp_apply, ih member hmember]

end Value

/-! ## Numbers as they are written -/

/-- The whole part, and the digits and the exponent that may follow. -/
structure Numeral where
  negative : Bool
  whole : ℕ
  fraction : Option (List (Fin 10))
  exponent : Option ℤ

namespace Numeral

def isWhole (n : Numeral) : Bool := n.fraction.isNone && n.exponent.isNone

/-- What the digits say, without the sign. -/
def magnitude (n : Numeral) : ℚ :=
  let digits := n.fraction.getD []
  (n.whole + (digits.foldl (fun sum digit => 10 * sum + digit.val) 0 : ℕ) / 10 ^ digits.length) *
    10 ^ n.exponent.getD 0

/-- A JavaScript number. -/
def toDouble (n : Numeral) : Double := .ofRat n.negative n.magnitude

theorem magnitude_of_isWhole {n : Numeral} (h : n.isWhole) : n.magnitude = n.whole := by
  obtain ⟨negative, whole, fraction, exponent⟩ := n
  simp only [isWhole, Bool.and_eq_true, Option.isNone_iff_eq_none] at h
  simp [magnitude, h.1, h.2]

end Numeral

/-- A JSON text. -/
abbrev Json := Value Numeral

/-- What `json.loads` makes of a number: an `int`, or a `float` for one with a fraction or
an exponent. -/
inductive PyNumber
  | int (value : ℤ)
  | float (value : Double)

def Numeral.toPython (n : Numeral) : PyNumber :=
  if n.isWhole then .int (if n.negative then -(n.whole : ℤ) else n.whole) else .float n.toDouble

def Json.loads (text : Json) : Value PyNumber := text.collapse.map Numeral.toPython

def Json.parse (text : Json) : Value Double := text.collapse.map Numeral.toDouble

end Sbarbase.Lib
