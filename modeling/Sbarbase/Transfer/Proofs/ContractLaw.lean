import Sbarbase.Transfer.Proofs.ContractTexts
/-!
# One contract for a binding

Both sides take the same bindings, but for a counter that is written with a
fraction or an exponent: it is no `int` in Python, and may be an integer in
JavaScript. `JSON.stringify` writes none.
-/

namespace Sbarbase.Transfer.Proofs.ContractLaw

open Lib Contract ContractTexts

/-! ## Field by field -/

/-- A field as either side sees it. -/
def pyField (x : Option Json) : Value PyNumber := (x.map (Value.map Numeral.toPython)).getD .null

def tsField (x : Option Json) : Option (Value Double) := x.map (Value.map Numeral.toDouble)

@[simp] theorem pyField_none : pyField none = .null := rfl

@[simp] theorem pyField_some (v : Json) : pyField (some v) = v.map Numeral.toPython := rfl

@[simp] theorem tsField_none : tsField none = none := rfl

@[simp] theorem tsField_some (v : Json) : tsField (some v) = some (v.map Numeral.toDouble) := rfl

/-- A number is written without fraction and exponent. -/
def isWholeField : Option Json → Bool
  | some (Value.number n) => n.isWhole
  | _ => true

theorem get_map {α β : Type} (f : α → β) (members : List (CodePoints × α)) (name : CodePoints) :
    Contract.get (members.map fun member => (member.1, f member.2)) name =
      (Contract.get members name).map f := by
  induction members with
  | nil => rfl
  | cons member members ih =>
      simp only [Contract.get, List.map_cons, List.find?_cons] at ih ⊢
      by_cases h : member.1 = name
      · simp [h]
      · simpa [h] using ih

theorem names_map {α β : Type} (f : α → β) (members : List (CodePoints × α)) :
    names (members.map fun member => (member.1, f member.2)) = names members := by
  rw [names, names, List.map_map]
  rfl

theorem asText_eq (x : Option Json) : Python.asText (pyField x) = TypeScript.asText (tsField x) := by
  cases x with
  | none => rfl
  | some v =>
      cases v with
      | object members => simp [Python.asText, TypeScript.asText]
      | array items => simp [Python.asText, TypeScript.asText]
      | null => simp [Python.asText, TypeScript.asText]
      | flag value => simp [Python.asText, TypeScript.asText]
      | number value => simp [Python.asText, TypeScript.asText]
      | text value => simp [Python.asText, TypeScript.asText]

/-- A check that looks at the text of a field only. -/
theorem text_check_eq {py : Value PyNumber → Bool} {ts : Option (Value Double) → Bool}
    (hpy : ∀ v, Python.asText v = none → py v = false)
    (hts : ∀ v, TypeScript.asText v = none → ts v = false)
    (htext : ∀ text, py (Value.text text) = ts (some (Value.text text))) (x : Option Json) :
    py (pyField x) = ts (tsField x) := by
  cases h : Python.asText (pyField x) with
  | none =>
      rw [hpy _ h, hts _ ((asText_eq x).symm.trans h)]
  | some text =>
      have hv : ∃ text, x = some (Value.text text) := by
        match x with
        | some (Value.text text) => exact ⟨text, rfl⟩
        | none => simp [Python.asText] at h
        | some .null => simp [Python.asText] at h
        | some (Value.flag _) => simp [Python.asText] at h
        | some (Value.number _) => simp [Python.asText] at h
        | some (.array _) => simp [Python.asText] at h
        | some (Value.object _) => simp [Python.asText] at h
      obtain ⟨text, rfl⟩ := hv
      simpa using htext text

theorem uuid_field_eq (unicode : Python.Unicode) (x : Option Json) :
    Python._uuid unicode (pyField x) = TypeScript.uuid (tsField x) := by
  refine text_check_eq ?_ ?_ (uuid_eq unicode) x
  · intro v hv
    cases v <;> first | rfl | cases hv
  · intro v hv
    simp [TypeScript.uuid, TypeScript.matchesPattern, hv]

theorem digest_field_eq (x : Option Json) :
    Python._digest (pyField x) = TypeScript.matchesPattern DIGEST (tsField x) := by
  refine text_check_eq ?_ ?_ (fun text => rfl) x
  · intro v hv
    cases v <;> first | rfl | cases hv
  · intro v hv
    simp [TypeScript.matchesPattern, hv]

theorem oid_field_eq (x : Option Json) : Python._oid (pyField x) = TypeScript.oid (tsField x) := by
  refine text_check_eq ?_ ?_ oid_eq x
  · intro v hv
    cases v <;> first | rfl | cases hv
  · intro v hv
    simp [TypeScript.oid, hv]

/-- A counter: an `int` in range is a safe integer, and the other way round if it is
written as a whole number. -/
theorem integer_field_iff (positive : Bool) (x : Option Json) :
    (Python._integer (pyField x) = true ∧ (positive = true → Python.atLeastOne (pyField x) = true)) ↔
      TypeScript.boundedInteger positive (tsField x) = true ∧ isWholeField x = true := by
  match x with
  | none => simp [Python._integer, TypeScript.boundedInteger]
  | some .null => simp [Python._integer, TypeScript.boundedInteger]
  | some (Value.flag _) => simp [Python._integer, TypeScript.boundedInteger]
  | some (Value.text _) => simp [Python._integer, TypeScript.boundedInteger]
  | some (.array _) => simp [Python._integer, TypeScript.boundedInteger]
  | some (Value.object _) => simp [Python._integer, TypeScript.boundedInteger]
  | some (Value.number n) =>
      simp only [pyField_some, tsField_some, Value.map_number, isWholeField]
      by_cases h : n.isWhole
      · have hdouble : n.toDouble = .ofRat n.negative n.whole := by
          rw [Numeral.toDouble, Numeral.magnitude_of_isWhole h]
        set k : ℤ := if n.negative then -(n.whole : ℤ) else n.whole with hk
        have hpython : n.toPython = .int k := by rw [Numeral.toPython, if_pos h]
        have hsafe : n.toDouble.safeInteger = if n.whole ≤ 9007199254740991 then some k else none := by
          rw [hdouble, Double.safeInteger_ofRat]
        have hbound : n.whole ≤ 9007199254740991 ↔ -9007199254740991 ≤ k ∧ k ≤ 9007199254740991 := by
          rw [hk]
          split <;> omega
        simp only [hpython, Python._integer, Python.atLeastOne, TypeScript.boundedInteger, hsafe,
          h, Bool.and_eq_true, decide_eq_true_eq, and_true]
        by_cases hrange : n.whole ≤ 9007199254740991
        · rw [if_pos hrange]
          rw [hbound] at hrange
          cases positive <;> simp <;> omega
        · rw [if_neg hrange]
          rw [hbound] at hrange
          simp only [Bool.false_eq_true, iff_false]
          omega
      · simp [Numeral.toPython, h, Python._integer]

/-! ## Names -/

theorem fields_perm : Python.BINDING_FIELDS.Perm TypeScript.FIELDS := by decide

theorem fields_nodup : TypeScript.FIELDS.Nodup := by decide

/-- Exactly the names of the fields, on either side. -/
theorem field_names_iff {keys : List CodePoints} (hnodup : keys.Nodup) :
    ((∀ key ∈ keys, key ∈ Python.BINDING_FIELDS) ∧ ∀ key ∈ Python.BINDING_FIELDS, key ∈ keys) ↔
      keys.length = TypeScript.FIELDS.length ∧ ∀ key ∈ keys, key ∈ TypeScript.FIELDS := by
  have hfields : ∀ key, key ∈ Python.BINDING_FIELDS ↔ key ∈ TypeScript.FIELDS :=
    fun key => fields_perm.mem_iff
  simp only [hfields]
  constructor
  · rintro ⟨hsub, hsup⟩
    have hperm := (List.perm_ext_iff_of_nodup hnodup fields_nodup).mpr
      fun key => ⟨hsub key, hsup key⟩
    exact ⟨hperm.length_eq, hsub⟩
  · rintro ⟨hlength, hsub⟩
    have hperm := (List.subperm_of_subset hnodup hsub).perm_of_length_le hlength.ge
    exact ⟨hsub, fun key hkey => hperm.mem_iff.mpr hkey⟩

theorem roleName_inj {runtime : CodePoints} {a b : String}
    (h : roleName runtime a = roleName runtime b) : codePoints a = codePoints b := by
  rw [roleName, roleName] at h
  exact List.append_cancel_left h

theorem roles_nodup (runtime : CodePoints) :
    (["auth", "rest", "storage"].map (roleName runtime)).Nodup := by
  refine List.Nodup.map_on ?_ (by decide)
  intro a ha b hb heq
  have hinj : ∀ a ∈ ["auth", "rest", "storage"], ∀ b ∈ ["auth", "rest", "storage"],
      codePoints a = codePoints b → a = b := by decide
  exact hinj a ha b hb (roleName_inj heq)

theorem roles_field_eq (runtime : CodePoints) {x : Option Json} (hdistinct : ∀ v ∈ x, v.Distinct) :
    Python.validRoles runtime (pyField x) = TypeScript.validRoles runtime (tsField x) := by
  match x with
  | none => rfl
  | some .null => simp [Python.validRoles, TypeScript.validRoles]
  | some (Value.flag _) => simp [Python.validRoles, TypeScript.validRoles]
  | some (Value.text _) => simp [Python.validRoles, TypeScript.validRoles]
  | some (.array _) => simp [Python.validRoles, TypeScript.validRoles]
  | some (Value.number _) => simp [Python.validRoles, TypeScript.validRoles]
  | some (Value.object roles) =>
      have hnodup : (names roles).Nodup := ((Value.distinct_object roles).mp (hdistinct _ rfl)).1
      have hpairs : ∀ role ∈ roles,
          Python._oid (role.2.map Numeral.toPython) =
            TypeScript.oid (some (role.2.map Numeral.toDouble)) :=
        fun role _ => oid_field_eq (some role.2)
      have htexts : (roles.map fun role => Python.asText (role.2.map Numeral.toPython)) =
          roles.map fun role => TypeScript.asText (some (role.2.map Numeral.toDouble)) :=
        List.map_congr_left fun role _ => asText_eq (some role.2)
      have hallowed : (["auth", "rest", "storage"].map (roleName runtime) ++
          ["realtime", "developer", "studio"].map (roleName runtime)) =
          TypeScript.ROLE_SUFFIXES.map (roleName runtime) := rfl
      simp only [pyField_some, tsField_some, Value.map_object, Python.validRoles,
        TypeScript.validRoles, names_map, List.map_map, List.all_map, List.length_map,
        Function.comp_def, hallowed, htexts]
      rw [Bool.eq_iff_iff]
      simp only [Bool.and_eq_true, List.all_eq_true, List.contains_iff_mem, decide_eq_true_eq]
      constructor
      · rintro ⟨⟨⟨hrequired, hsub⟩, hoids⟩, hdistinct⟩
        have hmany := (List.subperm_of_subset (roles_nodup runtime) fun name hname => by
          obtain ⟨kind, hkind, rfl⟩ := List.mem_map.mp hname
          exact hrequired kind hkind).length_le
        have hfew := (List.subperm_of_subset hnodup hsub).length_le
        have hlength : (names roles).length = roles.length := List.length_map _
        rw [hlength] at hmany hfew
        refine ⟨⟨⟨⟨hmany, hfew⟩, fun role hrole => ⟨?_, ?_⟩⟩, hrequired⟩, hdistinct⟩
        · exact hsub role.1 (List.mem_map_of_mem hrole)
        · rw [← hpairs role hrole]
          exact hoids role hrole
      · rintro ⟨⟨⟨-, hall⟩, hrequired⟩, hdistinct⟩
        refine ⟨⟨⟨hrequired, fun name hname => ?_⟩, fun role hrole => ?_⟩, hdistinct⟩
        · obtain ⟨role, hrole, rfl⟩ := List.mem_map.mp hname
          exact (hall role hrole).1
        · rw [hpairs role hrole]
          exact (hall role hrole).2

/-! ## The law -/

/-- The three counters are written without fraction and exponent. -/
def countersWhole : Json → Bool
  | Value.object members =>
    ["runtime_epoch", "management_epoch", "routing_revision"].all fun key =>
      isWholeField (Contract.get members (codePoints key))
  | _ => true

theorem validate_iff (unicode : Python.Unicode) {w : Json} (hdistinct : w.Distinct) :
    Python.validateBinding unicode (w.map Numeral.toPython) = true ↔
      TypeScript.validateTransferBinding (w.map Numeral.toDouble) = true ∧
        countersWhole w = true := by
  cases w with
  | null => simp [Python.validateBinding, TypeScript.validateTransferBinding]
  | flag _ => simp [Python.validateBinding, TypeScript.validateTransferBinding]
  | text _ => simp [Python.validateBinding, TypeScript.validateTransferBinding]
  | array _ => simp [Python.validateBinding, TypeScript.validateTransferBinding]
  | number _ => simp [Python.validateBinding, TypeScript.validateTransferBinding]
  | object members =>
      obtain ⟨hnodup, hparts⟩ := (Value.distinct_object members).mp hdistinct
      set field := fun name : String => Contract.get members (codePoints name) with hfield
      have hpy : ∀ name : String, (Contract.get (members.map fun member =>
          (member.1, member.2.map Numeral.toPython)) (codePoints name)).getD .null =
          pyField (field name) := by
        intro name
        rw [get_map]
        rfl
      have hts : ∀ name : String, Contract.get (members.map fun member =>
          (member.1, member.2.map Numeral.toDouble)) (codePoints name) = tsField (field name) := by
        intro name
        rw [get_map]
        rfl
      have hroles : ∀ v ∈ field "roles", v.Distinct := by
        intro v hv
        obtain ⟨member, hmember, rfl⟩ := Option.map_eq_some_iff.mp hv
        exact hparts member (List.mem_of_find?_eq_some hmember)
      have hnames := (field_names_iff hnodup : _ ↔ (names members).length = _ ∧ _)
      have hlength : (names members).length = members.length := List.length_map _
      rw [hlength] at hnames
      have hepoch := integer_field_iff true (field "runtime_epoch")
      have hmanagement := integer_field_iff false (field "management_epoch")
      have hrevision := integer_field_iff false (field "routing_revision")
      simp only [Bool.false_eq_true, false_implies, and_true, forall_const] at hepoch hmanagement hrevision
      simp only [Value.map_object, Python.validateBinding, TypeScript.validateTransferBinding, hpy, hts,
        names_map, List.length_map, countersWhole, asText_eq, uuid_field_eq, digest_field_eq,
        oid_field_eq, List.all_cons, List.all_nil, Bool.and_true]
      rw [TypeScript.matchesPattern.eq_1 RUNTIME]
      cases TypeScript.asText (tsField (field "runtime")) with
      | none => simp
      | some runtime =>
          simp only [roles_field_eq runtime hroles, Option.getD_some, Bool.and_eq_true, List.all_eq_true,
            List.contains_iff_mem, decide_eq_true_eq]
          rw [hnames]
          constructor
          · rintro ⟨⟨hkeys, hoperation, henvironment, hproject, hsource, hdestination, hactor,
              hinstallation⟩, ⟨⟨⟨⟨⟨hruntime, hparties⟩, hints⟩, hpositive⟩, hdigests⟩, hoid⟩, hvalid⟩
            obtain ⟨hfirst, hwhole⟩ := hepoch.mp ⟨hints.1, hpositive⟩
            obtain ⟨hsecond, hwhole'⟩ := hmanagement.mp hints.2.1
            obtain ⟨hthird, hwhole''⟩ := hrevision.mp hints.2.2
            exact ⟨⟨⟨⟨⟨⟨⟨⟨⟨⟨⟨hkeys, hoperation, hproject, hsource, hdestination, henvironment,
              hinstallation⟩, hparties⟩, hactor⟩, hruntime⟩, hdigests⟩, hfirst⟩, hsecond⟩, hthird⟩,
              hoid⟩, hvalid⟩, hwhole, hwhole', hwhole''⟩
          · rintro ⟨⟨⟨⟨⟨⟨⟨⟨⟨⟨⟨hkeys, hoperation, hproject, hsource, hdestination, henvironment,
              hinstallation⟩, hparties⟩, hactor⟩, hruntime⟩, hdigests⟩, hfirst⟩, hsecond⟩, hthird⟩,
              hoid⟩, hvalid⟩, hwhole, hwhole', hwhole''⟩
            obtain ⟨hint, hpositive⟩ := hepoch.mpr ⟨hfirst, hwhole⟩
            have hint' := hmanagement.mpr ⟨hsecond, hwhole'⟩
            have hint'' := hrevision.mpr ⟨hthird, hwhole''⟩
            exact ⟨⟨hkeys, hoperation, henvironment, hproject, hsource, hdestination, hactor,
              hinstallation⟩, ⟨⟨⟨⟨⟨hruntime, hparties⟩, hint, hint', hint''⟩, hpositive⟩, hdigests⟩,
              hoid⟩, hvalid⟩

/-! ## What is written out again -/

/-- TypeScript looks at texts and at safe integers only. -/
theorem boundedInteger_map {g : Double → Double}
    (hg : ∀ d n, d.safeInteger = some n → (g d).safeInteger = some n) (positive : Bool)
    {x : Option (Value Double)} (h : TypeScript.boundedInteger positive x = true) :
    TypeScript.boundedInteger positive (x.map (Value.map g)) = true := by
  match x with
  | some (.number d) =>
      simp only [TypeScript.boundedInteger, Option.map_some, Value.map_number] at h ⊢
      cases hsafe : d.safeInteger with
      | none => simp [hsafe] at h
      | some n =>
          rw [hg d n hsafe]
          simpa [hsafe] using h

theorem asText_map (g : Double → Double) (x : Option (Value Double)) :
    TypeScript.asText (x.map (Value.map g)) = TypeScript.asText x := by
  match x with
  | none => rfl
  | some .null => simp [TypeScript.asText]
  | some (.flag _) => simp [TypeScript.asText]
  | some (.text _) => simp [TypeScript.asText]
  | some (.array _) => simp [TypeScript.asText]
  | some (.object _) => simp [TypeScript.asText]
  | some (.number _) => simp [TypeScript.asText]

theorem validRoles_map (g : Double → Double) (runtime : CodePoints) (x : Option (Value Double)) :
    TypeScript.validRoles runtime (x.map (Value.map g)) = TypeScript.validRoles runtime x := by
  match x with
  | none => rfl
  | some .null => simp [TypeScript.validRoles]
  | some (.flag _) => simp [TypeScript.validRoles]
  | some (.text _) => simp [TypeScript.validRoles]
  | some (.array _) => simp [TypeScript.validRoles]
  | some (.number _) => simp [TypeScript.validRoles]
  | some (.object entries) =>
      have htext : ∀ v : Value Double, TypeScript.asText (some (v.map g)) = TypeScript.asText (some v) :=
        fun v => asText_map g (some v)
      simp only [Option.map_some, Value.map_object, TypeScript.validRoles, TypeScript.oid, names_map,
        List.length_map, List.all_map, List.map_map, Function.comp_def, htext]

theorem validate_map {g : Double → Double}
    (hg : ∀ d n, d.safeInteger = some n → (g d).safeInteger = some n) {value : Value Double}
    (h : TypeScript.validateTransferBinding value = true) :
    TypeScript.validateTransferBinding (value.map g) = true := by
  match value with
  | .object members =>
      simp only [Value.map_object, TypeScript.validateTransferBinding, get_map, names_map,
        List.length_map, TypeScript.uuid, TypeScript.oid, TypeScript.matchesPattern, asText_map,
        validRoles_map] at h ⊢
      simp only [Bool.and_eq_true] at h ⊢
      obtain ⟨⟨⟨⟨⟨hbefore, hepoch⟩, hmanagement⟩, hrevision⟩, hoid⟩, hroles⟩ := h
      exact ⟨⟨⟨⟨⟨hbefore, boundedInteger_map hg true hepoch⟩, boundedInteger_map hg false hmanagement⟩,
        boundedInteger_map hg false hrevision⟩, hoid⟩, hroles⟩

/-- A safe integer is written so that it is read as itself. -/
theorem safeInteger_writeNumber (other : Double → Numeral) {d : Double} {n : ℤ}
    (h : d.safeInteger = some n) :
    (TypeScript.writeNumber other d).toDouble.safeInteger = some n ∧
      (TypeScript.writeNumber other d).isWhole = true := by
  have hwrite : TypeScript.writeNumber other d = ⟨n < 0, n.natAbs, none, none⟩ := by
    simp only [TypeScript.writeNumber, h]
  have hbound := Double.natAbs_le_of_safeInteger h
  have hmagnitude : Numeral.magnitude ⟨n < 0, n.natAbs, none, none⟩ = (n.natAbs : ℕ) :=
    Numeral.magnitude_of_isWhole rfl
  rw [hwrite, Numeral.toDouble, hmagnitude, Double.safeInteger_ofRat, if_pos hbound]
  refine ⟨?_, rfl⟩
  by_cases hn : n < 0
  · simp only [hn, decide_true, if_true]
    congr 1
    omega
  · simp only [hn, decide_false, Bool.false_eq_true, if_false]
    congr 1
    omega

theorem isWholeField_written (other : Double → Numeral) {positive : Bool} {x : Option (Value Double)}
    (h : TypeScript.boundedInteger positive x = true) :
    isWholeField (x.map (Value.map (TypeScript.writeNumber other))) = true := by
  match x with
  | some (.number d) =>
      simp only [TypeScript.boundedInteger, Option.map_some, Value.map_number] at h ⊢
      cases hsafe : d.safeInteger with
      | none => simp [hsafe] at h
      | some n => exact (safeInteger_writeNumber other hsafe).2

theorem countersWhole_written (other : Double → Numeral) {value : Value Double}
    (h : TypeScript.validateTransferBinding value = true) :
    countersWhole (value.map (TypeScript.writeNumber other)) = true := by
  match value with
  | .object members =>
      simp only [TypeScript.validateTransferBinding, Bool.and_eq_true] at h
      obtain ⟨⟨⟨⟨⟨-, hepoch⟩, hmanagement⟩, hrevision⟩, -⟩, -⟩ := h
      simp only [Value.map_object, countersWhole, get_map, List.all_cons, List.all_nil, Bool.and_true,
        Bool.and_eq_true]
      exact ⟨isWholeField_written other hepoch, isWholeField_written other hmanagement,
        isWholeField_written other hrevision⟩

/-- Both sides take the same bindings, except for a counter that Python reads as a `float`;
and Python takes what `JSON.stringify` makes of any binding that TypeScript takes. -/
theorem binding_law (unicode : Python.Unicode) (other : Double → Numeral) (text : Json) :
    (Python.validateBinding unicode text.loads = true ↔
        TypeScript.validateTransferBinding text.parse = true ∧ countersWhole text.collapse = true) ∧
      (TypeScript.validateTransferBinding text.parse = true →
        Python.validateBinding unicode
          (Json.loads (text.parse.map (TypeScript.writeNumber other))) = true) := by
  have hdistinct : Value.Distinct (Value.collapse text) := Value.distinct_collapse text
  refine ⟨validate_iff unicode hdistinct, fun hvalid => ?_⟩
  set written : Json := text.parse.map (TypeScript.writeNumber other) with hwritten
  have hwell : written.Distinct := Value.distinct_map _ (Value.distinct_map _ hdistinct)
  have hloads : written.loads = written.map Numeral.toPython := by
    rw [Json.loads, Value.collapse_of_distinct hwell]
  rw [hloads, validate_iff unicode hwell]
  constructor
  · rw [hwritten, Value.map_map]
    exact validate_map (fun d n hsafe => (safeInteger_writeNumber other hsafe).1) hvalid
  · exact countersWhole_written other hvalid

/-- A binding whose runtime epoch is the number given. -/
def sample (epoch : Numeral) : Json :=
  let id (digit : Char) : Json :=
    Value.text (codePoints "1111111" ++ [digit.toNat] ++ codePoints "-1111-4111-8111-111111111111")
  let digest : Json := Value.text (List.replicate 64 97)
  let runtime : CodePoints := codePoints "e_aaaaaaaaaaaaaaaaaaaaaaaa"
  let counter : Json := Value.number ⟨false, 1, none, none⟩
  Value.object ([("operation", id '1'), ("project", id '2'), ("source", id '3'), ("destination", id '4'),
    ("environment", id '5'), ("runtime", Value.text runtime), ("actor", id '6'),
    ("management_epoch", counter), ("runtime_epoch", Value.number epoch), ("inventory_digest", digest),
    ("installation", id '7'), ("daemon_digest", digest), ("engine_id", digest),
    ("database_oid", Value.text (codePoints "16384")),
    ("roles", Value.object ([("_auth", "16385"), ("_rest", "16386"), ("_storage", "16387")].map
      fun role => (runtime ++ codePoints role.1, Value.text (codePoints role.2)))),
    ("routing_revision", counter)].map fun member => (codePoints member.1, member.2))

/-- An epoch written as `1.0` is an integer for TypeScript and a `float` for Python. -/
theorem fraction_differs :
    TypeScript.validateTransferBinding (sample ⟨false, 1, some [0], none⟩).parse = true ∧
      Python.validateBinding ⟨fun _ => false, fun _ => none⟩
        (sample ⟨false, 1, some [0], none⟩).loads = false := by
  have hone : Numeral.toDouble ⟨false, 1, some [0], none⟩ = Numeral.toDouble ⟨false, 1, none, none⟩ := by
    simp [Numeral.toDouble, Numeral.magnitude]
  have hcollapse : ∀ epoch, (sample epoch).collapse = sample epoch := by
    intro epoch
    apply Value.collapse_of_distinct
    simp only [sample, List.map_cons, List.map_nil, Value.distinct_object, List.forall_mem_cons,
      Value.distinct_text, Value.distinct_number, true_and, List.not_mem_nil, false_implies,
      implies_true, and_true]
    decide
  have hsame : (sample ⟨false, 1, some [0], none⟩).parse = (sample ⟨false, 1, none, none⟩).parse := by
    rw [Json.parse, Json.parse, hcollapse, hcollapse]
    simp [sample, hone]
  have hvalid : Python.validateBinding ⟨fun _ => false, fun _ => none⟩
      (sample ⟨false, 1, none, none⟩).loads = true := by
    decide
  refine ⟨?_, by decide⟩
  rw [hsame]
  rw [Json.loads, validate_iff _ (Value.distinct_collapse _)] at hvalid
  exact hvalid.1

end Sbarbase.Transfer.Proofs.ContractLaw
