import Sbarbase.Functions.Stores
/-!
# What a call leaves of a store

A call that gets to its write keeps exactly the entries that it read.
-/

namespace Sbarbase.Functions.Stores.StoreLaw

open Lib

variable {ν : Type} {js : Numbers ν}

/-! ## Entries -/

/-- The entry of a name in an object or an array. -/
def lookup (value : Value ν) (name : Name) : Option (Value ν) :=
  match value with
  | .object members => memberOf name members
  | .array items =>
    match slotOf name with
    | .index i => items[i]?
    | _ => none
  | _ => none

/-- The entry of a name in the value of a file. -/
def entryIn (file : File) (value : Value ν) (name : Name) : Option (Value ν) :=
  match file, value with
  | .secretsJson, value => lookup value name
  | .functionsJson, .object members =>
    (memberOf (codePoints "functions") members).bind (lookup · name)
  | .functionsJson, _ => none

/-- The entry of a name that a file holds. -/
def held (file : File) (content : Option (Content ν)) (name : Name) : Option (Value ν) :=
  match content with
  | some (.json value) => entryIn file value name
  | some (.torn shows) => memberOf name shows
  | none => none

section

variable {name other : Name} {members : List (Name × Value ν)} {value entry : Value ν}

theorem memberOf_put_ne (hne : other ≠ name) :
    memberOf other (Value.put name value members) = memberOf other members := by
  induction members with
  | nil => simp [Value.put, memberOf, Ne.symm hne]
  | cons member members ih =>
      rw [Value.put]
      by_cases hname : member.1 = name
      · have hother : member.1 ≠ other := fun h => hne (h.symm.trans hname)
        simp [memberOf, hname, Ne.symm hne]
      · rw [if_neg hname]
        by_cases hother : member.1 = other
        · simp [memberOf, hother]
        · simpa [memberOf, hother] using ih

theorem memberOf_put_self : memberOf name (Value.put name value members) = some value := by
  induction members with
  | nil => simp [Value.put, memberOf]
  | cons member members ih =>
      rw [Value.put]
      by_cases hname : member.1 = name
      · simp [memberOf, hname]
      · simpa [memberOf, hname] using ih

theorem memberOf_filter_ne (hne : other ≠ name) :
    memberOf other (members.filter fun member => member.1 ≠ name) = memberOf other members := by
  rw [memberOf, memberOf, List.find?_filter]
  congr 2
  funext member
  by_cases hother : member.1 = other
  · simp [hother, hne]
  · simp [hother]

theorem memberOf_map (f : Value ν → Value ν) :
    memberOf name (members.map fun member => (member.1, f member.2)) =
      (memberOf name members).map f := by
  rw [memberOf, List.find?_map, memberOf, Option.map_map, Option.map_map]
  rfl

/-- Two names of one index are one name. -/
theorem slotOf_inj {i : ℕ} (h : slotOf name = .index i) (hother : slotOf other = .index i) :
    other = name := by
  have hname : ∀ {name : Name}, slotOf name = .index i → name = codePoints (toString i) := by
    intro name h
    unfold slotOf at h
    by_cases hlength : name = codePoints "length"
    · rw [if_pos hlength] at h
      exact (nomatch h)
    · rw [if_neg hlength] at h
      by_cases hindex : codePoints (toString (numeral name)) = name ∧ numeral name < 4294967295
      · rw [if_pos hindex] at h
        rw [← Slot.index.inj h]
        exact hindex.1.symm
      · rw [if_neg hindex] at h
        exact (nomatch h)
  rw [hname h, hname hother]

theorem getElem?_setItem {items : List (Value ν)} {i j : ℕ} (hne : j ≠ i) {old : Value ν}
    (h : items[j]? = some old) : (setItem items i entry)[j]? = some old := by
  unfold setItem
  have hj : j < items.length := (List.getElem?_eq_some_iff.mp h).1
  by_cases hi : i < items.length
  · rw [if_pos hi, List.getElem?_set_ne (Ne.symm hne), h]
  · rw [if_neg hi, List.append_assoc, List.getElem?_append_left hj, h]

theorem lookup_assign {functions changed : Value ν} (h : assign functions name entry = some changed)
    (hne : other ≠ name) (hold : lookup functions other = some value) :
    lookup changed other = some value := by
  unfold assign at h
  split at h
  · split_ifs at h
    · obtain rfl := Option.some.inj h
      exact hold
    · obtain rfl := Option.some.inj h
      exact (memberOf_put_ne hne).trans hold
  · rename_i items
    split at h
    · rename_i i hslot
      obtain rfl := Option.some.inj h
      unfold lookup at hold ⊢
      dsimp only at hold ⊢
      split at hold
      · rename_i j hother
        have hij : j ≠ i := by
          rintro rfl
          exact hne (slotOf_inj hslot hother)
        exact getElem?_setItem hij hold
      · exact (nomatch hold)
    · exact (nomatch h)
    · obtain rfl := Option.some.inj h
      exact hold
  · exact (nomatch h)

theorem lookup_drop {functions changed : Value ν} (h : drop functions name = some changed)
    (hne : other ≠ name) (hold : lookup functions other = some value) :
    lookup changed other = some value := by
  unfold drop at h
  split at h
  · obtain rfl := Option.some.inj h
    exact (memberOf_filter_ne hne).trans hold
  · rename_i items
    split at h
    · rename_i i hslot
      obtain rfl := Option.some.inj h
      unfold lookup at hold ⊢
      dsimp only at hold ⊢
      split at hold
      · rename_i j hother
        have hij : i ≠ j := by
          rintro rfl
          exact hne (slotOf_inj hslot hother)
        rw [List.getElem?_set_ne hij]
        exact hold
      · exact (nomatch hold)
    · exact (nomatch h)
    · obtain rfl := Option.some.inj h
      exact hold
  · exact (nomatch h)

/-- An entry that is set in an empty object is its only one. -/
theorem lookup_assign_empty {changed : Value ν} (h : assign (.object []) name entry = some changed)
    (hne : other ≠ name) : lookup changed other = none := by
  unfold assign at h
  dsimp only at h
  split_ifs at h
  · obtain rfl := Option.some.inj h
    rfl
  · obtain rfl := Option.some.inj h
    exact memberOf_put_ne hne

theorem lookup_writtenBack (value : Value ν) (name : Name) :
    lookup (js.writtenBack value) name = (lookup value name).map js.writtenBack := by
  unfold Numbers.writtenBack
  cases value with
  | null => rw [Value.fold_null]; rfl
  | flag value => rw [Value.fold_flag]; rfl
  | number value =>
      rw [Value.fold_number]
      dsimp only
      cases js.back value <;> rfl
  | text value => rw [Value.fold_text]; rfl
  | array items =>
      rw [Value.fold_array]
      unfold lookup
      dsimp only
      split
      · exact List.getElem?_map
      · rfl
  | object members =>
      rw [Value.fold_object]
      exact memberOf_map _

theorem entryIn_writtenBack (file : File) (value : Value ν) (name : Name) :
    entryIn file (js.writtenBack value) name = (entryIn file value name).map js.writtenBack := by
  cases file with
  | secretsJson => exact lookup_writtenBack value name
  | functionsJson =>
      cases value with
      | object members =>
          have hobject : js.writtenBack (.object members) =
              .object (members.map fun member => (member.1, js.writtenBack member.2)) :=
            Value.fold_object _ _
          rw [hobject]
          unfold entryIn
          dsimp only
          rw [memberOf_map, Option.bind_map, Option.map_bind]
          congr 1
          funext functions
          exact lookup_writtenBack functions name
      | null => unfold Numbers.writtenBack; rw [Value.fold_null]; rfl
      | flag value => unfold Numbers.writtenBack; rw [Value.fold_flag]; rfl
      | number value =>
          unfold Numbers.writtenBack
          rw [Value.fold_number]
          dsimp only
          cases js.back value <;> rfl
      | text value => unfold Numbers.writtenBack; rw [Value.fold_text]; rfl
      | array items => unfold Numbers.writtenBack; rw [Value.fold_array]; rfl

end

/-! ## The manifest -/

section

variable {name other : Name} {value entry : Value ν}

theorem entryIn_value (manifest : Manifest ν) (functions : Value ν) (name : Name) :
    entryIn .functionsJson (manifest.value functions) name = lookup functions name := by
  unfold Manifest.value entryIn
  dsimp only
  rw [memberOf_put_self]
  rfl

/-- The functions that are read are those of the file. -/
theorem lookup_readManifest (value : Value ν) (name : Name) :
    lookup (readManifest (some value)).functions name = entryIn .functionsJson value name := by
  cases value with
  | object members =>
      unfold readManifest entryIn
      dsimp only
      cases hfunctions : memberOf (codePoints "functions") members with
      | none => rfl
      | some functions => cases functions <;> rfl
  | null => rfl
  | flag value => rfl
  | number value => rfl
  | text value => rfl
  | array items => rfl

end

/-! ## The secrets -/

section

variable {name : Name} {current changed : Current ν} {change : Name × Value ν}

theorem lookup_set {text : CodePoints} (h : current.set change.1 text = some changed)
    (hne : name ≠ change.1) : lookup changed.value name = lookup current.value name := by
  unfold Current.set at h
  split at h
  · rename_i members hvalue
    obtain rfl := Option.some.inj h
    rw [hvalue]
    exact memberOf_put_ne hne
  · obtain rfl := Option.some.inj h
    rfl
  · exact (nomatch h)

theorem lookup_currentDrop (h : current.drop change.1 = some changed) (hne : name ≠ change.1) :
    lookup changed.value name = lookup current.value name := by
  unfold Current.drop at h
  split at h
  · rename_i members hvalue
    obtain rfl := Option.some.inj h
    rw [hvalue]
    exact memberOf_filter_ne hne
  · exact (nomatch h)
  · obtain rfl := Option.some.inj h
    rfl

theorem ok_of_elim {α ε β : Type} {option : Option α} {error : ε} {result : β} {f : α → β}
    (h : option.elim (Except.error error) (fun a => .ok (f a)) = .ok result) :
    ∃ a, option = some a ∧ f a = result := by
  cases option with
  | none => exact (nomatch h)
  | some a => exact ⟨a, rfl, Except.ok.inj h⟩

/-- A change leaves the entries of other names alone. -/
theorem lookup_changeSecret (h : changeSecret current change = .ok changed)
    (hne : name ≠ change.1) : lookup changed.value name = lookup current.value name := by
  unfold changeSecret at h
  by_cases hname : (!isSecretName change.1) = true
  · rw [if_pos hname] at h
    exact (nomatch h)
  · rw [if_neg hname] at h
    split at h
    · obtain ⟨dropped, hdrop, rfl⟩ := ok_of_elim h
      exact lookup_currentDrop hdrop hne
    · rename_i text _
      by_cases hlong : units text > MAX_SECRET
      · rw [if_pos hlong] at h
        exact (nomatch h)
      · rw [if_neg hlong] at h
        obtain ⟨set, hset, rfl⟩ := ok_of_elim h
        exact lookup_set hset hne
    · exact (nomatch h)

theorem lookup_foldlM {changes : List (Name × Value ν)}
    (h : changes.foldlM changeSecret current = .ok changed)
    (hne : name ∉ changes.map Prod.fst) :
    lookup changed.value name = lookup current.value name := by
  induction changes generalizing current with
  | nil =>
      obtain rfl := Except.ok.inj h
      rfl
  | cons change changes ih =>
      rw [List.map_cons, List.mem_cons, not_or] at hne
      rw [List.foldlM_cons] at h
      cases hfirst : changeSecret current change with
      | error outcome =>
          rw [hfirst] at h
          exact (nomatch h)
      | ok next =>
          rw [hfirst] at h
          rw [ih h hne.2]
          exact lookup_changeSecret hfirst hne.1

end

/-! ## What a call stores -/

section

variable {runtime : String} {read : Option (Value ν)} {name other : Name}
  {entry : Own ν → Value ν} {new value v : Value ν} {answer : Outcome ν} {input : Value ν}
  {operation : Operation ν}

theorem commitVersion_save (h : commitVersion js runtime read name entry = .save new answer) :
    (isRuntime runtime = true ∧ answer.failed = false) ∧ ∃ before functions,
      assign (readManifest read).functions name (entry before) = some functions ∧
        new = (readManifest read).value functions := by
  unfold commitVersion at h
  by_cases hruntime : (!isRuntime runtime) = true
  · rw [if_pos hruntime] at h
    exact (nomatch h)
  · rw [if_neg hruntime] at h
    dsimp only at h
    split at h
    · exact (nomatch h)
    · rename_i before _
      split_ifs at h
      split at h
      · exact (nomatch h)
      · rename_i functions hassign
        obtain ⟨rfl, rfl⟩ := Plan.save.inj h
        exact ⟨⟨by simpa using hruntime, rfl⟩, before, functions, hassign, rfl⟩

theorem setVerifyJwt_save (h : setVerifyJwt js read name entry = .save new answer) :
    answer.failed = false ∧ ∃ before functions,
      entryOf (readManifest read).functions name = some before ∧ before.truthy js = true ∧
      assign (readManifest read).functions name (entry before) = some functions ∧
        new = (readManifest read).value functions := by
  unfold setVerifyJwt at h
  dsimp only at h
  split at h
  · exact (nomatch h)
  · rename_i before hbefore
    split_ifs at h with hfalsy
    split at h
    · exact (nomatch h)
    · rename_i functions hassign
      obtain ⟨rfl, rfl⟩ := Plan.save.inj h
      exact ⟨rfl, before, functions, hbefore, by simpa using hfalsy, hassign, rfl⟩

theorem remove_save (h : remove js runtime read name = .save new answer) :
    (isRuntime runtime = true ∧ answer.failed = false) ∧ ∃ before functions,
      entryOf (readManifest read).functions name = some before ∧ before.truthy js = true ∧
      drop (readManifest read).functions name = some functions ∧
        new = (readManifest read).value functions := by
  unfold remove at h
  by_cases hruntime : (!isRuntime runtime) = true
  · rw [if_pos hruntime] at h
    exact (nomatch h)
  · rw [if_neg hruntime] at h
    dsimp only at h
    split at h
    · exact (nomatch h)
    · rename_i before hbefore
      split_ifs at h with hfalsy
      split at h
      · exact (nomatch h)
      · rename_i functions hdrop
        obtain ⟨rfl, rfl⟩ := Plan.save.inj h
        exact ⟨⟨by simpa using hruntime, rfl⟩, before, functions, hbefore,
          by simpa using hfalsy, hdrop, rfl⟩

theorem changeSecrets_save (h : changeSecrets runtime read input = .save new answer) :
    (isRuntime runtime = true ∧ answer.failed = false) ∧
      ∃ changes current, secretsOf input = some changes ∧
      changes.foldlM changeSecret (⟨readSecrets read, []⟩ : Current ν) = .ok current ∧
        new = current.value := by
  unfold changeSecrets at h
  split at h
  · exact (nomatch h)
  · rename_i changes hchanges
    split at h
    · exact (nomatch h)
    · rename_i current hcurrent
      split at h
      · exact (nomatch h)
      · split_ifs at h with hmany hruntime
        obtain ⟨rfl, rfl⟩ := Plan.save.inj h
        exact ⟨⟨by simpa using hruntime, rfl⟩, changes, current, hchanges, hcurrent, rfl⟩

/-- In a manifest that was not read there is no entry. -/
theorem falsy_of_empty {before : Own ν}
    (h : entryOf (readManifest (none : Option (Value ν))).functions name = some before) :
    before.truthy js = false := by
  obtain rfl := Option.some.inj h
  rfl

theorem not_setVerifyJwt_none : setVerifyJwt js none name entry ≠ .save new answer := by
  intro h
  obtain ⟨-, before, functions, hbefore, htruthy, -⟩ := setVerifyJwt_save h
  rw [falsy_of_empty hbefore] at htruthy
  exact (nomatch htruthy)

theorem not_remove_none : remove js runtime none name ≠ .save new answer := by
  intro h
  obtain ⟨-, before, functions, hbefore, htruthy, -⟩ := remove_save h
  rw [falsy_of_empty hbefore] at htruthy
  exact (nomatch htruthy)

/-- An entry that was read and is not named is in the store that is written. -/
theorem plan_keeps (hplan : operation.plan js runtime (some value) = .save new answer)
    (hname : other ∉ operation.named) (hold : entryIn operation.file value other = some v) :
    entryIn operation.file new other = some v := by
  cases operation with
  | changeSecrets input =>
      obtain ⟨-, changes, current, hchanges, hcurrent, rfl⟩ := changeSecrets_save hplan
      have hne : other ∉ changes.map Prod.fst := by
        simpa only [Operation.named, hchanges, Option.getD_some] using hname
      exact (lookup_foldlM hcurrent hne).trans hold
  | commitVersion name entry =>
      obtain ⟨-, before, functions, hassign, rfl⟩ := commitVersion_save hplan
      have hne : other ≠ name := fun h => hname (List.mem_singleton.mpr h)
      have hread := (lookup_readManifest value other).trans hold
      exact (entryIn_value _ _ _).trans (lookup_assign hassign hne hread)
  | setVerifyJwt name entry =>
      obtain ⟨-, before, functions, -, -, hassign, rfl⟩ := setVerifyJwt_save hplan
      have hne : other ≠ name := fun h => hname (List.mem_singleton.mpr h)
      have hread := (lookup_readManifest value other).trans hold
      exact (entryIn_value _ _ _).trans (lookup_assign hassign hne hread)
  | remove name =>
      obtain ⟨-, before, functions, -, -, hdrop, rfl⟩ := remove_save hplan
      have hne : other ≠ name := fun h => hname (List.mem_singleton.mpr h)
      have hread := (lookup_readManifest value other).trans hold
      exact (entryIn_value _ _ _).trans (lookup_drop hdrop hne hread)

/-- Where nothing was read, only what is named is in the store that is written. -/
theorem plan_forgets (hplan : operation.plan js runtime none = .save new answer)
    (hname : other ∉ operation.named) : entryIn operation.file new other = none := by
  cases operation with
  | commitVersion name entry =>
      have hcommit : commitVersion js runtime none name entry = .save new answer := hplan
      obtain ⟨-, before, functions, hassign, rfl⟩ := commitVersion_save hcommit
      have hne : other ≠ name := fun h => hname (List.mem_singleton.mpr h)
      exact (entryIn_value _ _ _).trans (lookup_assign_empty hassign hne)
  | setVerifyJwt name entry =>
      have hswitch : setVerifyJwt js none name entry = .save new answer := hplan
      exact absurd hswitch not_setVerifyJwt_none
  | remove name =>
      have hremove : remove js runtime none name = .save new answer := hplan
      exact absurd hremove not_remove_none
  | changeSecrets input =>
      obtain ⟨-, changes, current, hchanges, hcurrent, rfl⟩ := changeSecrets_save hplan
      have hne : other ∉ changes.map Prod.fst := by
        simpa only [Operation.named, hchanges, Option.getD_some] using hname
      exact (lookup_foldlM hcurrent hne).trans rfl

/-- A call that gets to its write is of a runtime, and its answer is no failure. -/
theorem plan_save {moment : Moment} {content : Option (Content ν)}
    (hplan : operation.plan js runtime (parsed runtime moment content) = .save new answer) :
    isRuntime runtime = true ∧ answer.failed = false := by
  cases operation with
  | commitVersion name entry => exact (commitVersion_save hplan).1
  | setVerifyJwt name entry =>
      refine ⟨?_, (setVerifyJwt_save hplan).1⟩
      by_contra hruntime
      have hnone : parsed runtime moment content = none := by
        unfold parsed
        split
        · exact if_neg (by simp [hruntime])
        · rfl
      rw [hnone] at hplan
      have hswitch : setVerifyJwt js none name entry = .save new answer := hplan
      exact not_setVerifyJwt_none hswitch
  | remove name => exact (remove_save hplan).1
  | changeSecrets input => exact (changeSecrets_save hplan).1

end

/-! ## The law -/

section

variable (js : Numbers ν) (runtime : String) (moment : Moment) (files : Files ν)
  (operation : Operation ν)

/-- The claimed of one call: it keeps the entries that it does not name, or fails and
leaves the file as it was; and where it is refused it writes nothing. -/
structure Meets : Prop where
  kept :
    (∀ name v, held operation.file (files.get operation.file) name = some v →
      name ∉ operation.named →
        held operation.file
          (((call js runtime moment files operation).after files).get operation.file) name =
            some v) ∨
    ((call js runtime moment files operation).outcome.failed = true ∧
      ((call js runtime moment files operation).after files).get operation.file =
        files.get operation.file)
  refused : ∀ message, (call js runtime moment files operation).outcome = .refused message →
    (call js runtime moment files operation).writes = []

/-- The call passes its checks, and its write comes to its end. -/
def Rewrites : Prop :=
  moment.writes = true ∧ ∃ new answer,
    operation.plan js runtime (parsed runtime moment (files.get operation.file)) = .save new answer

/-- The read gives the file, and the file is a JSON text. -/
def Understood : Prop :=
  moment.reads = true ∧ ∃ value, files.get operation.file = some (.json value)

/-- Where the call rewrites the file and the file holds an entry that it does not name, the
file was understood, and JavaScript writes the entry back as it is. -/
def Safe : Prop :=
  Rewrites js runtime moment files operation → ∀ name v,
    held operation.file (files.get operation.file) name = some v → name ∉ operation.named →
      Understood moment files operation ∧ js.writtenBack v = v

variable {js runtime moment files operation}

theorem get_after_stored {outcome : Outcome ν} {content : Content ν}
    (h : call js runtime moment files operation =
      ⟨outcome, .stored operation.file content :: operation.afterwards⟩) :
    ((call js runtime moment files operation).after files).get operation.file = some content := by
  rw [h]
  cases operation <;> rfl

theorem call_ended {outcome : Outcome ν}
    (h : operation.plan js runtime (parsed runtime moment (files.get operation.file)) =
      .ended outcome) :
    call js runtime moment files operation = ⟨outcome, []⟩ := by
  rw [call, h]

theorem call_save {new : Value ν} {answer : Outcome ν}
    (h : operation.plan js runtime (parsed runtime moment (files.get operation.file)) =
      .save new answer) :
    call js runtime moment files operation =
      if moment.writes = true then
        ⟨if moment.ends then answer else .thrown,
          .stored operation.file (.json (js.writtenBack new)) :: operation.afterwards⟩
      else ⟨.thrown, [.pending operation.file]⟩ := by
  rw [call, h]
  cases moment.writes <;> rfl

/-- A call without a write leaves the file, and is refused before anything is written. -/
theorem meets_of_not_rewrites (h : ¬ Rewrites js runtime moment files operation) :
    Meets js runtime moment files operation := by
  cases hplan : operation.plan js runtime (parsed runtime moment (files.get operation.file)) with
  | ended outcome =>
      have hcall := call_ended hplan
      refine ⟨.inl fun name v hheld _ => ?_, fun message _ => ?_⟩
      · rw [hcall]
        exact hheld
      · rw [hcall]
  | save new answer =>
      have hwrites : ¬ moment.writes = true := fun hwrites => h ⟨hwrites, new, answer, hplan⟩
      have hcall := call_save hplan
      rw [if_neg hwrites] at hcall
      refine ⟨.inl fun name v hheld _ => ?_, fun message hrefused => ?_⟩
      · rw [hcall]
        exact hheld
      · rw [hcall] at hrefused
        exact (nomatch hrefused)

theorem parsed_of_understood (hruntime : isRuntime runtime = true)
    (h : Understood moment files operation) :
    ∃ value, files.get operation.file = some (.json value) ∧
      parsed runtime moment (files.get operation.file) = some value := by
  obtain ⟨hreads, value, hfile⟩ := h
  refine ⟨value, hfile, ?_⟩
  rw [hfile]
  unfold parsed
  dsimp only
  rw [hruntime, hreads]
  rfl

theorem parsed_of_not_understood (h : ¬ Understood moment files operation) :
    parsed runtime moment (files.get operation.file) = none := by
  unfold parsed
  split
  · rename_i value hfile
    apply if_neg
    intro hboth
    exact h ⟨(Bool.and_eq_true_iff.mp hboth).2, value, hfile⟩
  · rfl

/-- What the file holds after a write. -/
theorem held_after {name : Name} {v : Value ν} {new : Value ν} {answer : Outcome ν}
    (hwrites : moment.writes = true)
    (hplan : operation.plan js runtime (parsed runtime moment (files.get operation.file)) =
      .save new answer)
    (hheld : held operation.file (files.get operation.file) name = some v)
    (hname : name ∉ operation.named) :
    (held operation.file
        (((call js runtime moment files operation).after files).get operation.file) name =
      some v) ↔ Understood moment files operation ∧ js.writtenBack v = v := by
  have hcall := call_save hplan
  rw [if_pos hwrites] at hcall
  have hafter : held operation.file
      (((call js runtime moment files operation).after files).get operation.file) name =
        (entryIn operation.file new name).map js.writtenBack := by
    rw [get_after_stored hcall, ← entryIn_writtenBack]
    rfl
  rw [hafter]
  by_cases hunderstood : Understood moment files operation
  · obtain ⟨value, hfile, hparsed⟩ := parsed_of_understood (plan_save hplan).1 hunderstood
    rw [hparsed] at hplan
    rw [hfile] at hheld
    rw [plan_keeps hplan hname hheld, Option.map_some]
    exact ⟨fun h => ⟨hunderstood, Option.some.inj h⟩, fun h => congrArg some h.2⟩
  · rw [parsed_of_not_understood hunderstood] at hplan
    rw [plan_forgets hplan hname]
    exact ⟨fun h => (nomatch h), fun h => absurd h.1 hunderstood⟩

theorem store_law (js : Numbers ν) (runtime : String) (moment : Moment) (files : Files ν)
    (operation : Operation ν) :
    Meets js runtime moment files operation ↔ Safe js runtime moment files operation := by
  constructor
  · rintro hmeets ⟨hwrites, new, answer, hplan⟩ name v hheld hname
    apply (held_after hwrites hplan hheld hname).mp
    rcases hmeets.kept with hkept | ⟨-, hsame⟩
    · exact hkept name v hheld hname
    · rw [hsame]
      exact hheld
  · intro hsafe
    by_cases hrewrites : Rewrites js runtime moment files operation
    · have hsafe' := hsafe hrewrites
      obtain ⟨hwrites, new, answer, hplan⟩ := hrewrites
      refine ⟨.inl fun name v hheld hname => ?_, fun message hrefused => ?_⟩
      · exact (held_after hwrites hplan hheld hname).mpr (hsafe' name v hheld hname)
      · -- the answer of a write is no refusal
        have hcall := call_save hplan
        rw [if_pos hwrites] at hcall
        rw [hcall] at hrefused
        dsimp only at hrefused
        have hanswer := (plan_save hplan).2
        split_ifs at hrefused
        rw [hrefused] at hanswer
        exact (nomatch hanswer)
    · exact meets_of_not_rewrites hrewrites

end

/-- Two deployed functions, of which one is deployed again while `functions.json` cannot be
read: the other is gone. -/
theorem unread_manifest :
    ¬ Meets (⟨some, (· = 0)⟩ : Numbers ℤ) "e_0123456789abcdef01234567" ⟨false, true, true⟩
      ⟨some (.json (.object [(codePoints "functions", .object
        [(codePoints "mail", .text (codePoints "v1-00000001")),
         (codePoints "pay", .text (codePoints "v1-00000002"))])])), none⟩
      (.commitVersion (codePoints "mail") fun _ => .text (codePoints "v2-00000003")) := by
  intro h
  rcases h.kept with hkept | ⟨hfailed, -⟩
  · have hpay := hkept (codePoints "pay") (.text (codePoints "v1-00000002")) (by rfl) (by decide)
    exact (nomatch hpay)
  · exact (nomatch hfailed)

end Sbarbase.Functions.Stores.StoreLaw
