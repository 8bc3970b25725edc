import Sbarbase.Hba.Authority
/-!
# What a registry text says

What `decode` accepts is in order, with one active operation at most, and what
`encode` wrote is read back. The operations keep the order of their tokens.
-/

namespace Sbarbase.Hba.Proofs

open Lib Lib.Checked

/-! ## Operations by token -/

theorem lookup_cons (key name : CodePoints) (operation : Operation) (operations : Operations) :
    ((name, operation) :: operations).lookup key =
      if key = name then some operation else operations.lookup key := by
  rw [List.lookup_cons]
  by_cases h : key = name
  · rw [if_pos h, beq_iff_eq.mpr h]
  · rw [if_neg h, beq_false_of_ne h]

theorem assign_nil (token : CodePoints) (operation : Operation) :
    assign token operation [] = [(token, operation)] := rfl

theorem assign_cons (token : CodePoints) (operation : Operation)
    (entry : CodePoints × Operation) (operations : Operations) :
    assign token operation (entry :: operations) =
      if token = entry.1 then (token, operation) :: operations
      else if token < entry.1 then (token, operation) :: entry :: operations
      else entry :: assign token operation operations := rfl

theorem lookup_assign (token key : CodePoints) (operation : Operation) (operations : Operations) :
    (assign token operation operations).lookup key =
      if key = token then some operation else operations.lookup key := by
  induction operations with
  | nil => rw [assign_nil, lookup_cons]
  | cons entry operations ih =>
      obtain ⟨name, value⟩ := entry
      rw [assign_cons]
      split
      next heq =>
        have hname : token = name := heq
        rw [lookup_cons, lookup_cons, hname]
        split_ifs <;> rfl
      next hne =>
        split
        · rw [lookup_cons]
        · rw [lookup_cons, ih, lookup_cons]
          by_cases h : key = name
          · have hkey : key ≠ token := fun hkey => hne (hkey.symm.trans h)
            rw [if_pos h, if_neg hkey, if_pos h]
          · rw [if_neg h, if_neg h]

theorem mem_assign {token : CodePoints} {operation : Operation} {operations : Operations}
    {entry : CodePoints × Operation} (h : entry ∈ assign token operation operations) :
    entry = (token, operation) ∨ entry ∈ operations := by
  induction operations with
  | nil => exact .inl (by simpa [assign_nil] using h)
  | cons first operations ih =>
      rw [assign_cons] at h
      split at h
      · exact (List.mem_cons.mp h).imp_right (List.mem_cons_of_mem _)
      · split at h
        · exact List.mem_cons.mp h
        · rcases List.mem_cons.mp h with h | h
          · exact .inr (h ▸ List.mem_cons_self)
          · exact (ih h).imp_right (List.mem_cons_of_mem _)

/-- The tokens of the operations, in order. -/
def Sorted (operations : Operations) : Prop := operations.Pairwise fun a b => a.1 < b.1

theorem sorted_assign {operations : Operations} (token : CodePoints) (operation : Operation)
    (h : Sorted operations) : Sorted (assign token operation operations) := by
  induction operations with
  | nil => exact List.pairwise_singleton _ _
  | cons entry operations ih =>
      have hcons := List.pairwise_cons.mp h
      rw [assign_cons]
      split
      next heq =>
        refine List.pairwise_cons.mpr ⟨fun other hother => ?_, hcons.2⟩
        rw [heq]
        exact hcons.1 other hother
      next hne =>
        split
        next hlt =>
          refine List.pairwise_cons.mpr ⟨fun other hother => ?_, h⟩
          rcases List.mem_cons.mp hother with rfl | hother
          · exact hlt
          · exact lt_trans hlt (hcons.1 other hother)
        next hnlt =>
          refine List.pairwise_cons.mpr ⟨fun other hother => ?_, ih hcons.2⟩
          rcases mem_assign hother with rfl | hother
          · exact lt_of_le_of_ne (not_lt.mp hnlt) (Ne.symm hne)
          · exact hcons.1 other hother

theorem assign_of_lt {token : CodePoints} {operation : Operation} {operations : Operations}
    (h : ∀ entry ∈ operations, token < entry.1) :
    assign token operation operations = (token, operation) :: operations := by
  cases operations with
  | nil => rfl
  | cons entry operations =>
      have hlt := h entry List.mem_cons_self
      rw [assign_cons, if_neg (ne_of_lt hlt), if_pos hlt]

/-! ## Active operations -/

theorem activeCount_assign_le (token : CodePoints) (operation : Operation)
    (operations : Operations) :
    activeCount (assign token operation operations) ≤
      activeCount operations + if operation.isActive then 1 else 0 := by
  induction operations with
  | nil => simp [assign_nil, activeCount, List.countP_cons]
  | cons entry operations ih =>
      rw [assign_cons]
      simp only [activeCount, List.countP_cons] at ih ⊢
      split
      · simp only [List.countP_cons]
        omega
      · split
        · simp only [List.countP_cons]
          omega
        · simp only [List.countP_cons]
          omega

/-- Where one token at most is active, one operation is. -/
theorem activeCount_le_one {operations : Operations} (hsorted : Sorted operations)
    {token : CodePoints} (h : ∀ entry ∈ operations, entry.2.isActive = true → entry.1 = token) :
    activeCount operations ≤ 1 := by
  induction operations with
  | nil => exact Nat.zero_le 1
  | cons first operations ih =>
      have hcons := List.pairwise_cons.mp hsorted
      have hrest := ih hcons.2 fun entry hentry => h entry (List.mem_cons_of_mem _ hentry)
      rw [activeCount, List.countP_cons]
      split
      next hactive =>
        have hfirst := h first List.mem_cons_self hactive
        have hnone : operations.countP (fun entry => entry.2.isActive) = 0 := by
          rw [List.countP_eq_zero]
          intro entry hentry hentryActive
          have hsame := h entry (List.mem_cons_of_mem _ hentry) hentryActive
          exact absurd (hcons.1 entry hentry) (by rw [hfirst, hsame]; exact lt_irrefl token)
        omega
      next => exact hrest

/-! ## Reading -/

/-- The checks that a record passes before it is returned. -/
structure WellFormed (record : Record) : Prop where
  generation : matchesText UUID record.generation = true
  revision : matchesText UUID record.revision = true
  sorted : Sorted record.operations
  entries : ∀ entry ∈ record.operations,
    matchesText UUID entry.1 = true ∧ matchesText HEX entry.2.binding = true
  active : activeCount record.operations ≤ 1

theorem exact_eq_ok {value : CodePoints} {pattern : String → Bool} {u : Unit} :
    exact value pattern = .ok u ↔ matchesText pattern value = true := require_eq_ok

theorem exactValue_eq_ok {value : Value PyNumber} {pattern : String → Bool} {text : CodePoints}
    (h : exactValue value pattern = .ok text) :
    value = .text text ∧ matchesText pattern text = true := by
  cases value with
  | text found =>
      rw [exactValue] at h
      obtain ⟨_, hexact, hreturn⟩ := bind_eq_ok.mp h
      cases pure_eq_ok.mp hreturn
      exact ⟨rfl, exact_eq_ok.mp hexact⟩
  | null | flag | number | array | object => nomatch h

theorem operationOf_eq_ok {token : CodePoints} {item : Value PyNumber} {operation : Operation}
    (h : operationOf token item = .ok operation) :
    matchesText UUID token = true ∧ matchesText HEX operation.binding = true := by
  cases item with
  | object members =>
      rw [operationOf] at h
      obtain ⟨_, htoken, h⟩ := bind_eq_ok.mp h
      refine ⟨exact_eq_ok.mp htoken, ?_⟩
      obtain ⟨_, _, h⟩ := bind_eq_ok.mp h
      obtain ⟨state, _, h⟩ := bind_eq_ok.mp h
      obtain ⟨value, _, h⟩ := bind_eq_ok.mp h
      obtain ⟨binding, hbinding, h⟩ := bind_eq_ok.mp h
      rw [← pure_eq_ok.mp h]
      exact (exactValue_eq_ok hbinding).2
  | null | flag | number | array | text =>
      obtain ⟨_, _, h⟩ := bind_eq_ok.mp h
      nomatch h

theorem operationsOf_eq_ok {members : Members} {operations : Operations}
    (h : operationsOf members = .ok operations) :
    Sorted operations ∧ ∀ entry ∈ operations,
      matchesText UUID entry.1 = true ∧ matchesText HEX entry.2.binding = true := by
  induction members generalizing operations with
  | nil =>
      cases pure_eq_ok.mp h
      exact ⟨List.Pairwise.nil, fun entry hentry => by nomatch hentry⟩
  | cons item members ih =>
      rw [operationsOf] at h
      obtain ⟨operation, hoperation, h⟩ := bind_eq_ok.mp h
      obtain ⟨rest, hrest, h⟩ := bind_eq_ok.mp h
      rw [← pure_eq_ok.mp h]
      obtain ⟨hsorted, hentries⟩ := ih hrest
      refine ⟨sorted_assign _ _ hsorted, fun entry hentry => ?_⟩
      rcases mem_assign hentry with rfl | hentry
      · exact operationOf_eq_ok hoperation
      · exact hentries entry hentry

section

variable {T : Type} {X : Texts T}

/-- What is read is in order, and of the generation that was asked for. -/
theorem decode_wellFormed {text : T} {generation : CodePoints} {record : Record}
    (h : decode X text generation = .ok record) :
    WellFormed record ∧ record.generation = generation := by
  rw [decode] at h
  obtain ⟨_, hgeneration, h⟩ := bind_eq_ok.mp h
  obtain ⟨value, _, h⟩ := bind_eq_ok.mp h
  obtain ⟨⟨inner, checksum⟩, _, h⟩ := bind_eq_ok.mp h
  obtain ⟨_, _, h⟩ := bind_eq_ok.mp h
  obtain ⟨⟨revision, members⟩, _, h⟩ := bind_eq_ok.mp h
  obtain ⟨text, hrevision, h⟩ := bind_eq_ok.mp h
  obtain ⟨operations, hoperations, h⟩ := bind_eq_ok.mp h
  obtain ⟨_, hactive, h⟩ := bind_eq_ok.mp h
  rw [← pure_eq_ok.mp h]
  obtain ⟨hsorted, hentries⟩ := operationsOf_eq_ok hoperations
  exact ⟨⟨exact_eq_ok.mp hgeneration, (exactValue_eq_ok hrevision).2, hsorted, hentries,
    require_eq_ok.mp hactive⟩, rfl⟩

theorem envelopeOf_envelope (record : Record) : envelopeOf (envelope X record) =
      .ok (record.value, .text (X.digest (X.canonical record.value))) := rfl

theorem shapeOf_value (record : Record) : shapeOf record.generation record.value =
      .ok (.text record.revision,
        record.operations.map fun entry => (entry.1, entry.2.value)) := by
  have hnamed : isText (.text record.generation) record.generation = true := by simp [isText]
  calc shapeOf record.generation record.value
      = (require (isText (.text record.generation) record.generation) mismatch >>= fun _ =>
          .ok (.text record.revision,
            record.operations.map fun entry => (entry.1, entry.2.value))) := rfl
    _ = _ := by rw [require_pos hnamed, ok_bind]

theorem operationOf_value {token : CodePoints} {operation : Operation}
    (htoken : matchesText UUID token = true)
    (hbinding : matchesText HEX operation.binding = true) :
    operationOf token operation.value = .ok operation := by
  obtain ⟨binding, state⟩ := operation
  have hexact : exact token UUID = .ok () := exact_eq_ok.mpr htoken
  have hvalue : exactValue (.text binding) HEX = .ok binding := by
    rw [exactValue, (exact_eq_ok (u := ())).mpr hbinding, ok_bind]
    rfl
  calc operationOf token (Operation.value ⟨binding, state⟩)
      = (exact token UUID >>= fun _ =>
          found (stateOf (.text (stateText state))) "HBA registry operation invalid" >>=
            fun state => exactValue (.text binding) HEX >>= fun binding =>
              .ok ⟨binding, state⟩) := rfl
    _ = .ok ⟨binding, state⟩ := by
        rw [hexact, ok_bind, hvalue]
        cases state <;> rfl

theorem operationsOf_value {operations : Operations} (hsorted : Sorted operations)
    (hentries : ∀ entry ∈ operations,
      matchesText UUID entry.1 = true ∧ matchesText HEX entry.2.binding = true) :
    operationsOf (operations.map fun entry => (entry.1, entry.2.value)) = .ok operations := by
  induction operations with
  | nil => rfl
  | cons entry operations ih =>
      have hcons := List.pairwise_cons.mp hsorted
      have hentry := hentries entry List.mem_cons_self
      rw [List.map_cons, operationsOf, operationOf_value hentry.1 hentry.2, ok_bind,
        ih hcons.2 fun other hother => hentries other (List.mem_cons_of_mem _ hother), ok_bind,
        assign_of_lt hcons.1]
      rfl

/-- `json.loads` reads an envelope back as `canonical` wrote it. -/
def ReadsBack (X : Texts T) : Prop :=
  ∀ record, WellFormed record → X.loads (encode X record) = .ok (envelope X record)

theorem decode_encode (hloads : ReadsBack X) {record : Record} (h : WellFormed record) :
    decode X (encode X record) record.generation = .ok record := by
  have hchecksum : isText (.text (X.digest (X.canonical record.value)))
      (X.digest (X.canonical record.value)) = true := by simp [isText]
  have hrevision : exactValue (.text record.revision) UUID = .ok record.revision := by
    rw [exactValue, (exact_eq_ok (u := ())).mpr h.revision, ok_bind]
    rfl
  rw [decode, (exact_eq_ok (u := ())).mpr h.generation, ok_bind, hloads record h, ok_bind,
    envelopeOf_envelope, ok_bind]
  dsimp only
  rw [require_pos hchecksum, ok_bind, shapeOf_value, ok_bind]
  dsimp only
  rw [hrevision, ok_bind, operationsOf_value h.sorted h.entries, ok_bind, require_pos h.active,
    ok_bind]
  rfl

/-- The generation that a text names is part of it. -/
theorem shapeOf_generation {generation generation' : CodePoints} {record : Value PyNumber}
    {shape shape' : Value PyNumber × Members} (h : shapeOf generation record = .ok shape)
    (h' : shapeOf generation' record = .ok shape') : generation = generation' := by
  have hnamed : ∀ {generation shape}, shapeOf generation record = .ok shape →
      ∃ members, record = .object members ∧
        member "generation" members = some (.text generation) := by
    intro generation shape h
    cases record with
    | object members =>
        refine ⟨members, rfl, ?_⟩
        rw [shapeOf] at h
        obtain ⟨_, _, h⟩ := bind_eq_ok.mp h
        obtain ⟨_, _, h⟩ := bind_eq_ok.mp h
        obtain ⟨_, _, h⟩ := bind_eq_ok.mp h
        obtain ⟨named, hnamed, h⟩ := bind_eq_ok.mp h
        obtain ⟨_, htext, _⟩ := bind_eq_ok.mp h
        have htext := require_eq_ok.mp htext
        cases named with
        | text value =>
            have hvalue : value = generation := by simpa [isText] using htext
            rw [found_eq_ok.mp hnamed, hvalue]
        | null | flag | number | array | object => nomatch htext
    | null | flag | number | array | text => nomatch h
  obtain ⟨members, hmembers, hgeneration⟩ := hnamed h
  obtain ⟨members', hmembers', hgeneration'⟩ := hnamed h'
  cases hmembers.symm.trans hmembers'
  cases hgeneration.symm.trans hgeneration'
  rfl

/-- A text says one thing, whatever generation it is read for. -/
theorem decode_unique {text : T} {generation generation' : CodePoints} {record record' : Record}
    (h : decode X text generation = .ok record) (h' : decode X text generation' = .ok record') :
    record = record' := by
  have hsame : generation = generation' := by
    rw [decode] at h h'
    obtain ⟨_, _, h⟩ := bind_eq_ok.mp h
    obtain ⟨value, hvalue, h⟩ := bind_eq_ok.mp h
    obtain ⟨inner, hinner, h⟩ := bind_eq_ok.mp h
    obtain ⟨_, _, h⟩ := bind_eq_ok.mp h
    obtain ⟨shape, hshape, _⟩ := bind_eq_ok.mp h
    obtain ⟨_, _, h'⟩ := bind_eq_ok.mp h'
    obtain ⟨value', hvalue', h'⟩ := bind_eq_ok.mp h'
    obtain ⟨inner', hinner', h'⟩ := bind_eq_ok.mp h'
    obtain ⟨_, _, h'⟩ := bind_eq_ok.mp h'
    obtain ⟨shape', hshape', _⟩ := bind_eq_ok.mp h'
    cases hvalue.symm.trans hvalue'
    cases hinner.symm.trans hinner'
    exact shapeOf_generation hshape hshape'
  subst hsame
  cases h.symm.trans h'
  rfl

end

end Sbarbase.Hba.Proofs
