import Sbarbase.Settlement.Proofs.Digests
/-!
# Where the two digests agree

For every JSON text both sides hash the same bytes, or both refuse, unless a
number is written in one of the two ways on which the languages differ.
-/

namespace Sbarbase.Settlement.Proofs.InventoryLaw

open Lib Keys Digests

/-! ## What refuses -/

theorem mem_enclose {first last c : ℕ} {part : CodePoints} {parts : List CodePoints}
    (hpart : part ∈ parts) (hc : c ∈ part) : c ∈ enclose first last parts := by
  rw [enclose, List.intercalate, List.mem_append, List.mem_append, List.mem_flatten]
  refine .inl (.inr ⟨part, ?_, hc⟩)
  induction parts with
  | nil => cases hpart
  | cons p parts ih =>
      cases parts with
      | nil => simpa using hpart
      | cons q parts =>
          rw [List.intersperse_cons_cons]
          rcases List.mem_cons.mp hpart with rfl | hmem
          · exact List.mem_cons_self
          · exact List.mem_cons_of_mem _ (List.mem_cons_of_mem _ (ih hmem))

theorem clean_of_encodeString {text : CodePoints} (h : clean (Python.encodeString text)) :
    clean text := by
  have hall : ∀ c ∈ Python.encodeString text, isSurrogate c = false := by
    simpa [clean] using h
  have hchars : ∀ c ∈ text, isSurrogate c = false := by
    intro c hc
    by_contra hsurrogate
    rw [Bool.not_eq_false] at hsurrogate
    have hrange : 0xD800 ≤ c := by
      simp only [isSurrogate, Bool.and_eq_true, decide_eq_true_eq] at hsurrogate
      exact hsurrogate.1
    have hescape : Python.escape c = [c] := by
      unfold Python.escape
      split_ifs <;> first | rfl | omega
    have hmem : c ∈ Python.encodeString text := by
      rw [Python.encodeString, quoted, List.mem_append, List.mem_append, List.mem_flatMap]
      exact .inl (.inr ⟨c, hc, by rw [hescape]; exact List.mem_singleton_self c⟩)
    rw [hall c hmem] at hsurrogate
    cases hsurrogate
  simpa [clean] using hchars

theorem clean_of_enclose {first last : ℕ} {part : CodePoints} {parts : List CodePoints}
    (h : clean (enclose first last parts)) (hpart : part ∈ parts) : clean part := by
  simp only [clean, Bool.not_eq_true', List.any_eq_false] at h ⊢
  exact fun c hc => h c (mem_enclose hpart hc)

theorem clean_of_append {a b : CodePoints} (h : clean (a ++ b)) : clean a ∧ clean b := by
  simpa [clean] using h

/-- What Python can encode has no surrogate in any text. -/
theorem cleanTexts_of_dumps (floatRepr : Double → CodePoints) (w : Json)
    (h : clean (Python.dumps floatRepr (Python.javascriptOrder (w.map Numeral.toPython)))) :
    cleanTexts w := by
  induction w using Value.induct with
  | hnull => simp [cleanTexts]
  | hflag value => simp [cleanTexts]
  | hnumber n => simp [cleanTexts]
  | htext value =>
      have htext : cleanTexts (Value.text value) = clean value := by simp [cleanTexts]
      rw [htext]
      refine clean_of_encodeString ?_
      simpa [Python.dumps, Python.javascriptOrder] using h
  | harray items ih =>
      rw [Value.map_array, javascriptOrder_array, dumps_array, List.map_map, List.map_map] at h
      rw [cleanTexts_array, List.all_eq_true]
      intro item hitem
      exact ih item hitem (clean_of_enclose h (List.mem_map_of_mem hitem))
  | hobject members ih =>
      rw [Value.map_object, javascriptOrder_object,
        javascriptKeys_map (fun member : CodePoints × Json => (member.1, member.2.map Numeral.toPython))
          fun _ => rfl, dumps_object, List.map_map, List.map_map] at h
      rw [cleanTexts_object, List.all_eq_true]
      intro member hmember
      have hpart := clean_of_enclose h (List.mem_map_of_mem (mem_javascriptKeys.mpr hmember))
      exact ih member hmember (clean_of_append hpart).2

/-- What only Python admits has a `-0`. -/
theorem admits_typescript (w : Json) (depth : ℕ)
    (hpython : admits pythonNumber (fun _ => true) w depth) (hclean : cleanTexts w)
    (hzero : allNumbers (fun n => !isMinusZero n) w) : admits typescriptNumber clean w depth := by
  induction w using Value.induct generalizing depth with
  | hnull => simpa [admits] using hpython
  | hflag value => simpa [admits] using hpython
  | hnumber n =>
      simp only [admits, Value.fold_number, Bool.and_eq_true, pythonNumber, decide_eq_true_eq,
        allNumbers, Bool.not_eq_true'] at hpython hzero ⊢
      obtain ⟨hdepth, hwhole, hrange⟩ := hpython
      rw [typescriptNumber, safeNumber_of_isWhole hwhole, if_pos ⟨hrange, hzero⟩]
      exact ⟨hdepth, rfl⟩
  | htext value =>
      simp only [admits, Value.fold_text, cleanTexts, Bool.and_eq_true] at hpython hclean ⊢
      exact ⟨hpython.1, hclean⟩
  | harray items ih =>
      simp only [admits_array, cleanTexts_array, allNumbers_array, Bool.and_eq_true,
        List.all_eq_true] at hpython hclean hzero ⊢
      exact ⟨hpython.1, fun item hitem =>
        ih item hitem (depth + 1) (hpython.2 item hitem) (hclean item hitem) (hzero item hitem)⟩
  | hobject members ih =>
      simp only [admits_object, cleanTexts_object, allNumbers_object, Bool.and_eq_true,
        List.all_eq_true] at hpython hclean hzero ⊢
      exact ⟨hpython.1, fun member hmember => ⟨(hpython.2 member hmember).1,
        ih member hmember (depth + 1) (hpython.2 member hmember).2 (hclean member hmember)
          (hzero member hmember)⟩⟩

/-- What only TypeScript admits has a number with a fraction or an exponent. -/
theorem admits_python (w : Json) (depth : ℕ) (htypescript : admits typescriptNumber clean w depth)
    (hwhole : allNumbers Numeral.isWhole w) : admits pythonNumber (fun _ => true) w depth := by
  induction w using Value.induct generalizing depth with
  | hnull => simpa [admits] using htypescript
  | hflag value => simpa [admits] using htypescript
  | hnumber n =>
      simp only [admits, Value.fold_number, Bool.and_eq_true, pythonNumber, decide_eq_true_eq,
        allNumbers] at htypescript hwhole ⊢
      refine ⟨htypescript.1, hwhole, ?_⟩
      have hsafe := htypescript.2
      rw [typescriptNumber, safeNumber_of_isWhole hwhole] at hsafe
      by_contra hrange
      rw [if_neg fun hand => hrange hand.1] at hsafe
      cases hsafe
  | htext value =>
      simp only [admits, Value.fold_text, Bool.and_eq_true] at htypescript ⊢
      exact ⟨htypescript.1, trivial⟩
  | harray items ih =>
      simp only [admits_array, allNumbers_array, Bool.and_eq_true, List.all_eq_true]
        at htypescript hwhole ⊢
      exact ⟨htypescript.1, fun item hitem =>
        ih item hitem (depth + 1) (htypescript.2 item hitem) (hwhole item hitem)⟩
  | hobject members ih =>
      simp only [admits_object, allNumbers_object, Bool.and_eq_true, List.all_eq_true]
        at htypescript hwhole ⊢
      exact ⟨htypescript.1, fun member hmember => ⟨(htypescript.2 member hmember).1,
        ih member hmember (depth + 1) (htypescript.2 member hmember).2 (hwhole member hmember)⟩⟩

/-! ## The two inventories -/

theorem isObject_cloned (w : Json) :
    TypeScript.isObject (cloned w) = Python.isDict (w.map Numeral.toPython) := by
  cases w with
  | object members => rw [cloned_object, Value.map_object]; rfl
  | array items => rw [cloned_array, Value.map_array]; rfl
  | null => simp [cloned, TypeScript.isObject, Python.isDict]
  | flag value => simp [cloned, TypeScript.isObject, Python.isDict]
  | number value => simp [cloned, TypeScript.isObject, Python.isDict]
  | text value => simp [cloned, TypeScript.isObject, Python.isDict]

/-- The shape of an inventory: up to 100 objects in a list. -/
def isInventory : Json → Bool
  | .array items =>
    0 < items.length && items.length ≤ 100 &&
      items.all fun item => Python.isDict (item.map Numeral.toPython)
  | _ => false

theorem orderedInventoryBytes_eq (floatRepr : Double → CodePoints) (w : Json) :
    Python.orderedInventoryBytes floatRepr (w.map Numeral.toPython) =
      if isInventory w && admits pythonNumber (fun _ => true) w 0 then
        encodeUtf8 (Python.dumps floatRepr (Python.javascriptOrder (w.map Numeral.toPython)))
      else none := by
  cases w with
  | array items =>
      have hcheck := check_eq (.array items) 0
      rw [Value.map_array] at hcheck ⊢
      simp only [Python.orderedInventoryBytes, isInventory, hcheck, List.length_map, List.all_map,
        Bool.and_eq_true, decide_eq_true_eq, and_assoc]
      rfl
  | object members => rw [Value.map_object]; rfl
  | null => rw [Value.map_null]; rfl
  | flag value => rw [Value.map_flag]; rfl
  | number value => rw [Value.map_number]; rfl
  | text value => rw [Value.map_text]; rfl

theorem inventoryBytes_eq (w : Json) : TypeScript.inventoryBytes (w.map Numeral.toDouble) =
      if isInventory w && admits typescriptNumber clean w 0 then
        encodeUtf8 (TypeScript.stringify (cloned w))
      else none := by
  cases w with
  | array items =>
      have hclone := jsonClone_eq (.array items) 0
      have hobjects : (items.map cloned).all TypeScript.isObject =
          items.all fun item => Python.isDict (item.map Numeral.toPython) := by
        rw [List.all_map]
        exact all_congr_mem fun item _ => isObject_cloned item
      rw [Value.map_array, cloned_array] at hclone
      rw [Value.map_array, TypeScript.inventoryBytes, TypeScript.inventory, List.length_map, hclone,
        cloned_array]
      by_cases hlength : items.length = 0 ∨ 100 < items.length
      · have hshape : isInventory (.array items) = false := by
          simp only [isInventory, Bool.and_eq_false_iff, decide_eq_false_iff_not]
          omega
        rw [if_pos hlength, hshape]
        rfl
      · have hshape : isInventory (.array items) =
            items.all fun item => Python.isDict (item.map Numeral.toPython) := by
          have hrange : 0 < items.length ∧ items.length ≤ 100 := by omega
          simp [isInventory, hrange]
        rw [if_neg hlength, hshape]
        by_cases hadmits : admits typescriptNumber clean (.array items) 0
        · simp only [hadmits, if_true, hobjects, Bool.and_true]
          split <;> rfl
        · simp [hadmits]
  | object members => rw [Value.map_object]; rfl
  | null => rw [Value.map_null]; rfl
  | flag value => rw [Value.map_flag]; rfl
  | number value => rw [Value.map_number]; rfl
  | text value => rw [Value.map_text]; rfl

/-! ## The law -/

theorem allNumbers_mono {p q : Numeral → Bool} (h : ∀ n, p n = true → q n = true) (w : Json)
    (hw : allNumbers p w) : allNumbers q w := by
  induction w using Value.induct with
  | hnull => rfl
  | hflag value => rfl
  | hnumber n =>
      simp only [allNumbers, Value.fold_number] at hw ⊢
      exact h n hw
  | htext value => rfl
  | harray items ih =>
      simp only [allNumbers_array, List.all_eq_true] at hw ⊢
      exact fun item hitem => ih item hitem (hw item hitem)
  | hobject members ih =>
      simp only [allNumbers_object, List.all_eq_true] at hw ⊢
      exact fun member hmember => ih member hmember (hw member hmember)

theorem cond_isSome {b : Bool} {x : Option Bytes} (h : (if b then x else none).isSome) :
    b = true ∧ x.isSome := by
  cases b with
  | true => exact ⟨rfl, h⟩
  | false => cases h


/-- Both sides hash the same bytes or both refuse, if no number is written as `-0` or with a
fraction or an exponent. Whenever both hash they hash the same bytes; where only Python
hashes there is a `-0`, and where only TypeScript hashes there is a number with a fraction
or an exponent. -/
theorem inventory_digest_law (floatRepr : Double → CodePoints) (text : Json) :
    let python := Python.orderedInventoryBytes floatRepr text.loads
    let typescript := TypeScript.inventoryBytes text.parse
    (allNumbers (fun n => n.isWhole && !isMinusZero n) text.collapse → python = typescript) ∧
      (python.isSome → typescript.isSome → python = typescript) ∧
      (python.isSome → typescript = none →
        allNumbers (fun n => !isMinusZero n) text.collapse = false) ∧
      (typescript.isSome → python = none → allNumbers Numeral.isWhole text.collapse = false) := by
  intro python typescript
  set w : Json := text.collapse
  set textP := Python.dumps floatRepr (Python.javascriptOrder (w.map Numeral.toPython)) with htextP
  set P := admits pythonNumber (fun _ => true) w 0 with hP
  set T := admits typescriptNumber clean w 0 with hT
  have hpython : python = if isInventory w && P then encodeUtf8 textP else none :=
    orderedInventoryBytes_eq floatRepr w
  have htypescript : typescript =
      if isInventory w && T then encodeUtf8 (TypeScript.stringify (cloned w)) else none :=
    inventoryBytes_eq w
  have hadmitted : python.isSome → isInventory w = true ∧ P = true ∧ (encodeUtf8 textP).isSome := by
    intro hsome
    rw [hpython] at hsome
    obtain ⟨hand, hsome⟩ := cond_isSome hsome
    rw [Bool.and_eq_true] at hand
    exact ⟨hand.1, hand.2, hsome⟩
  have hadmitted' : typescript.isSome → isInventory w = true ∧ T = true := by
    intro hsome
    rw [htypescript] at hsome
    exact Bool.and_eq_true_iff.mp (cond_isSome hsome).1
  -- Where both admit the inventory there is one text.
  have hsame : isInventory w = true → P = true → T = true → python = typescript := by
    intro hshape hp ht
    rw [hpython, htypescript, htextP, dumps_eq floatRepr w 0 hp ht, hp, ht]
  have hzero : python.isSome → typescript = none →
      allNumbers (fun n => !isMinusZero n) w = false := by
    intro hsome hnone
    obtain ⟨hshape, hp, hencoded⟩ := hadmitted hsome
    by_contra hall
    rw [Bool.not_eq_false] at hall
    rw [isSome_encodeUtf8] at hencoded
    have ht : T = true := admits_typescript w 0 hp (cleanTexts_of_dumps floatRepr w hencoded) hall
    rw [hsame hshape hp ht, hnone] at hsome
    cases hsome
  have hwhole : typescript.isSome → python = none → allNumbers Numeral.isWhole w = false := by
    intro hsome hnone
    obtain ⟨hshape, ht⟩ := hadmitted' hsome
    by_contra hall
    rw [Bool.not_eq_false] at hall
    have hp : P = true := admits_python w 0 ht hall
    rw [← hsame hshape hp ht, hnone] at hsome
    cases hsome
  have hboth : python.isSome → typescript.isSome → python = typescript := by
    intro hsome hsome'
    obtain ⟨hshape, hp, -⟩ := hadmitted hsome
    exact hsame hshape hp (hadmitted' hsome').2
  refine ⟨fun hall => ?_, hboth, hzero, hwhole⟩
  cases hp : python with
  | none =>
      cases ht : typescript with
      | none => rfl
      | some bytes =>
          have hmissing := hwhole (by rw [ht]; rfl) hp
          rw [allNumbers_mono (fun n hn => (Bool.and_eq_true_iff.mp hn).1) w hall] at hmissing
          cases hmissing
  | some bytes =>
      cases ht : typescript with
      | none =>
          have hmissing := hzero (by rw [hp]; rfl) ht
          rw [allNumbers_mono (fun n hn => (Bool.and_eq_true_iff.mp hn).2) w hall] at hmissing
          cases hmissing
      | some bytes' =>
          rw [← hp, ← ht]
          exact hboth (by rw [hp]; rfl) (by rw [ht]; rfl)

/-- `[{"n":-0}]` -/
def minusZero : Json := .array [.object [(codePoints "n", .number ⟨true, 0, none, none⟩)]]

theorem inventoryBytes_minusZero (floatRepr : Double → CodePoints) :
    Python.orderedInventoryBytes floatRepr minusZero.loads ≠
      TypeScript.inventoryBytes minusZero.parse := by
  have hcollapse : minusZero.collapse = minusZero := rfl
  have hkeys : ∀ value : Value PyNumber,
      Python.javascriptKeys [(codePoints "n", value)] = [(codePoints "n", value)] := by
    intro value
    have hname : Python.isIndex (codePoints "n") = false := by decide
    simp [Python.javascriptKeys, hname]
  have hnumber : typescriptNumber ⟨true, 0, none, none⟩ = false := by
    rw [typescriptNumber, safeNumber_of_isWhole rfl, if_neg (by decide)]
    rfl
  have hpython : (Python.orderedInventoryBytes floatRepr minusZero.loads).isSome := by
    have hadmits : admits pythonNumber (fun _ => true) minusZero 0 = true := by decide
    have hshape : isInventory minusZero = true := by decide
    have htext : Python.dumps floatRepr (Python.javascriptOrder (minusZero.map Numeral.toPython)) =
        codePoints "[\x7b\"n\":0\x7d]" := by
      simp only [minusZero, Value.map_array, Value.map_object, List.map_cons, List.map_nil,
        javascriptOrder_array, javascriptOrder_object, hkeys, dumps_array, dumps_object]
      rfl
    rw [Json.loads, hcollapse, orderedInventoryBytes_eq, hshape, hadmits, htext]
    decide
  have htypescript : TypeScript.inventoryBytes minusZero.parse = none := by
    have hadmits : admits typescriptNumber clean minusZero 0 = false := by
      simp [minusZero, admits, hnumber]
    rw [Json.parse, hcollapse, inventoryBytes_eq, hadmits, Bool.and_false]
    rfl
  intro heq
  rw [heq, htypescript] at hpython
  cases hpython

/-- Python reads the number as 0 and hashes the inventory, TypeScript refuses it. -/
theorem minusZero_refused :
    Python.orderedInventoryBytes (fun _ => codePoints "0.0") minusZero.loads ≠
      TypeScript.inventoryBytes minusZero.parse :=
  inventoryBytes_minusZero fun _ => codePoints "0.0"

end Sbarbase.Settlement.Proofs.InventoryLaw
