import Sbarbase.Hba.Proofs.Files
/-!
# The authority of an HBA file

Over any run of any clients, with every command delivered late, once, never or
again: what a registry says of a token only follows what it said, and an HBA file
changes by active permits alone, once by each.
-/

namespace Sbarbase.Hba.Proofs.AuthorityLaw

open Lib

variable {T : Type} {X : Texts T}

/-- What the registry of a container says of a token. -/
def Holds (X : Texts T) (s : World T) (cid token : CodePoints) (operation : Operation) : Prop :=
  ∃ text generation record, (s.backends cid).registry = some text ∧
    decode X text generation = .ok record ∧ record.operations.lookup token = some operation

theorem Holds.unique {s : World T} {cid token : CodePoints} {operation operation' : Operation}
    (h : Holds X s cid token operation) (h' : Holds X s cid token operation') :
    operation = operation' := by
  obtain ⟨text, generation, record, htext, hrecord, hlookup⟩ := h
  obtain ⟨text', generation', record', htext', hrecord', hlookup'⟩ := h'
  cases htext.symm.trans htext'
  cases decode_unique hrecord hrecord'
  exact Option.some.inj (hlookup.symm.trans hlookup')

/-! ## Registries -/

def Decodes (X : Texts T) (text : T) : Prop :=
  ∃ generation record, decode X text generation = .ok record

structure Sound (X : Texts T) (s : World T) : Prop where
  commands : ∀ command ∈ s.commands, SentWell X command
  permits : ∀ permit ∈ s.permits, Granted X permit
  registries : ∀ cid text, (s.backends cid).registry = some text → Decodes X text

theorem sound_initial {s : World T} (h : s.Initial) : Sound X s where
  commands := by simp [h.commands]
  permits := by simp [h.permits]
  registries := by
    intro cid text htext
    rw [(h.backends cid).1] at htext
    nomatch htext

theorem Follows.refl (record : Record) : Follows record record :=
  fun _ operation h => ⟨operation, h, Keeps.refl operation⟩

/-- A script leaves a registry that decodes, and that follows the one it found. -/
theorem script_follows (hloads : ReadsBack X) (hdigest : Function.Injective X.digest)
    {b next : Backend T} {cut : Bool} {command : Command T} (hsent : SentWell X command)
    (h : script X b cut command = some next) :
    (∀ text, next.registry = some text → b.registry = some text ∨ Decodes X text) ∧
    ∀ text generation record, b.registry = some text → decode X text generation = .ok record →
      ∃ text' generation' record', next.registry = some text' ∧
        decode X text' generation' = .ok record' ∧ Follows record record' := by
  rcases script_cases h with ⟨cid, text, rfl, habsent, _, hregistry⟩ |
    ⟨cid, text, expected, current, rfl, hcurrent, hexpected, rfl⟩ |
    ⟨permit, current, rfl, hcurrent, _, _, rfl⟩
  · obtain ⟨record, hwell, rfl⟩ := hsent
    constructor
    · intro text htext
      rcases hregistry with hregistry | hregistry
      · rw [hregistry] at htext
        nomatch htext
      · cases hregistry.symm.trans htext
        exact .inr ⟨_, record, decode_encode hloads hwell⟩
    · intro text generation record htext
      rw [habsent] at htext
      nomatch htext
  · obtain ⟨earlier, later, before, generation, hearlier, hbefore, hlater, rfl, hfollows⟩ := hsent
    have hdecodes := decode_encode hloads hlater
    constructor
    · intro text htext
      cases Option.some.inj htext
      exact .inr ⟨_, later, hdecodes⟩
    · intro text generation' record htext hrecord
      -- The registry is the very text that the update was made from.
      have hsame : before = current := hdigest (hbefore.trans hexpected.symm)
      cases hcurrent.symm.trans htext
      subst hsame
      cases decode_unique hrecord hearlier
      exact ⟨_, _, later, rfl, hdecodes, hfollows⟩
  · exact ⟨fun text htext => .inl htext,
      fun text generation record htext hrecord =>
        ⟨text, generation, record, htext, hrecord, Follows.refl record⟩⟩

theorem Sound.change (hloads : ReadsBack X) (hdigest : Function.Injective X.digest)
    {s t : World T} (hsound : Sound X s) (h : Change X s t) : Sound X t := by
  have happend : ∀ command, SentWell X command →
      ∀ other ∈ s.commands ++ [command], SentWell X other := by
    intro command hcommand other hother
    rcases List.mem_append.mp hother with hother | hother
    · exact hsound.commands other hother
    · rw [List.mem_singleton.mp hother]
      exact hcommand
  cases h with
  | none | issue | prepare => exact ⟨hsound.commands, hsound.permits, hsound.registries⟩
  | send revision command _ hsent _ =>
      exact ⟨happend command hsent, hsound.permits, hsound.registries⟩
  | grant permit _ hgranted =>
      refine ⟨hsound.commands, fun other hother => ?_, hsound.registries⟩
      rcases List.mem_append.mp hother with hother | hother
      · exact hsound.permits other hother
      · rw [List.mem_singleton.mp hother]
        exact hgranted
  | apply permit hpermit =>
      exact ⟨happend _ (hsound.permits permit hpermit), hsound.permits, hsound.registries⟩
  | deliver command cut next hmem hscript =>
      refine ⟨hsound.commands, hsound.permits, fun cid text htext => ?_⟩
      by_cases hcid : cid = command.containerId
      · subst hcid
        rw [backends_replace] at htext
        have hfollows := script_follows hloads hdigest (hsound.commands command hmem) hscript
        exact (hfollows.1 text htext).elim (hsound.registries _ text) id
      · rw [backends_replace_of_ne hcid] at htext
        exact hsound.registries cid text htext

/-- What was said of a token, and what is said of it later. -/
def Later (X : Texts T) (s t : World T) : Prop :=
  ∀ cid token operation, Holds X s cid token operation →
    ∃ operation', Holds X t cid token operation' ∧ Keeps operation operation'

theorem Later.refl (s : World T) : Later X s s :=
  fun _ _ operation h => ⟨operation, h, Keeps.refl operation⟩

theorem Later.trans {r s t : World T} (hrs : Later X r s) (hst : Later X s t) : Later X r t := by
  intro cid token operation h
  obtain ⟨next, hnext, hkeeps⟩ := hrs cid token operation h
  obtain ⟨last, hlast, hkeeps'⟩ := hst cid token next hnext
  exact ⟨last, hlast, hkeeps.trans hkeeps'⟩

theorem later_change (hloads : ReadsBack X) (hdigest : Function.Injective X.digest)
    {s t : World T} (hsound : Sound X s) (h : Change X s t) : Later X s t := by
  cases h with
  | none | issue | send | prepare | grant | apply => exact Later.refl s
  | deliver command cut next hmem hscript =>
      rintro cid token operation ⟨text, generation, record, htext, hrecord, hlookup⟩
      by_cases hcid : cid = command.containerId
      · subst hcid
        obtain ⟨text', generation', record', htext', hrecord', hfollows⟩ :=
          (script_follows hloads hdigest (hsound.commands command hmem) hscript).2
            text generation record htext hrecord
        obtain ⟨operation', hlookup', hkeeps⟩ := hfollows token operation hlookup
        refine ⟨operation', ⟨text', generation', record', ?_, hrecord', hlookup'⟩, hkeeps⟩
        rw [backends_replace]
        exact htext'
      · refine ⟨operation, ⟨text, generation, record, ?_, hrecord, hlookup⟩, Keeps.refl operation⟩
        rw [backends_replace_of_ne hcid]
        exact htext

/-! ## Changes of a file -/

theorem send_backends (s : World T) (command : Except String (Command T)) :
    (s.send command).backends = s.backends := by
  cases command <;> rfl

/-- Only a delivery touches a container. -/
theorem step_backends {s : World T} {e : Event T} (h : ∀ i cut, e ≠ .deliver i cut) :
    (step X s e).backends = s.backends := by
  cases e with
  | initializeRegistry | update =>
      simp only [step]
      split
      · exact send_backends _ _
      · rfl
  | prepare =>
      simp only [step]
      split
      · split <;> rfl
      · rfl
  | authorize =>
      simp only [step]
      split
      · split <;> rfl
      · rfl
  | apply =>
      simp only [step]
      split
      · exact send_backends _ _
      · rfl
  | deliver i cut => exact absurd rfl (h i cut)

theorem deliver_hba {s : World T} {command : Command T} {cut : Bool} {cid : CodePoints}
    (h : ((s.deliver X command cut).backends cid).hba ≠ (s.backends cid).hba) :
    ∃ permit current, command = .apply permit ∧ permit.prepared.containerId = cid ∧
      (s.backends cid).registry = some current ∧ X.digest current = permit.registryDigest ∧
      X.fileDigest (s.backends cid).hba = permit.prepared.expectedDigest ∧
      s.deliver X command cut =
        s.replace cid { s.backends cid with hba := permit.prepared.content } := by
  rw [World.deliver] at h ⊢
  split at h
  next next hscript =>
    by_cases hcid : cid = command.containerId
    · subst hcid
      rw [backends_replace] at h
      rcases script_cases hscript with ⟨_, _, _, _, hhba, _⟩ | ⟨_, _, _, _, _, _, _, hnext⟩ |
        ⟨permit, current, rfl, hcurrent, hregistry, hexpected, hnext⟩
      · exact absurd hhba h
      · exact absurd (by rw [hnext]) h
      · refine ⟨permit, current, rfl, rfl, hcurrent, hregistry, hexpected, ?_⟩
        rw [hnext]
    · rw [backends_replace_of_ne hcid] at h
      exact absurd rfl h
  next => exact absurd rfl h

/-- A file changes only by a permit, which was active in the registry at that moment. -/
theorem step_hba (hdigest : Function.Injective X.digest) {s : World T} (hsound : Sound X s)
    {e : Event T} {cid : CodePoints}
    (h : ((step X s e).backends cid).hba ≠ (s.backends cid).hba) :
    ∃ i cut permit, e = .deliver i cut ∧ s.commands[i]? = some (.apply permit) ∧
      permit.prepared.containerId = cid ∧
      (∃ identity, operationBinding X permit.prepared identity = .ok permit.binding) ∧
      Holds X s cid permit.token ⟨permit.binding, .active⟩ ∧
      X.fileDigest (s.backends cid).hba = permit.prepared.expectedDigest ∧
      step X s e = s.replace cid { s.backends cid with hba := permit.prepared.content } := by
  by_cases hdeliver : ∀ i cut, e ≠ .deliver i cut
  · rw [step_backends hdeliver] at h
    exact absurd rfl h
  · push Not at hdeliver
    obtain ⟨i, cut, rfl⟩ := hdeliver
    cases hcommand : s.commands[i]? with
    | none =>
        rw [step, hcommand] at h
        exact absurd rfl h
    | some command =>
        have hstep : step X s (.deliver i cut) = s.deliver X command cut := by
          rw [step, hcommand]
        rw [hstep] at h ⊢
        obtain ⟨permit, current, rfl, hcid, hcurrent, hregistry, hexpected, hreplace⟩ :=
          deliver_hba h
        obtain ⟨hbinding, text, generation, record, hrecord, htext, hlookup⟩ :=
          hsound.commands _ (List.mem_of_getElem? hcommand)
        have hsame : text = current := hdigest (htext.trans hregistry.symm)
        exact ⟨i, cut, permit, rfl, hcommand, hcid, hbinding,
          ⟨text, generation, record, hsame ▸ hcurrent, hrecord, hlookup⟩, hexpected, hreplace⟩

/-! ## Runs -/

section

variable (hloads : ReadsBack X) (hdigest : Function.Injective X.digest)
  (hfile : Function.Injective X.fileDigest)

include hloads hdigest hfile in
theorem runFrom_good (initial : World T) {s : World T} (hsound : Sound X s) (hfiles : Files X s)
    (events : List (Event T)) :
    Sound X ((machine X initial).runFrom s events) ∧
      Files X ((machine X initial).runFrom s events) := by
  refine (machine X initial).runFrom_invariant (I := fun t => Sound X t ∧ Files X t) ?_
    ⟨hsound, hfiles⟩ events
  intro t e h
  exact ⟨h.1.change hloads hdigest (step_change t e), h.2.change hfile (step_change t e)⟩

include hloads hdigest in
theorem runFrom_later (initial : World T) {s : World T} (hsound : Sound X s) (events : List (Event T)) :
    Later X s ((machine X initial).runFrom s events) := by
  have hrun := (machine X initial).runFrom_invariant (I := fun t => Sound X t ∧ Later X s t)
    (fun t e h => ⟨h.1.change hloads hdigest (step_change t e),
      h.2.trans (later_change hloads hdigest h.1 (step_change t e))⟩)
    ⟨hsound, Later.refl s⟩ events
  exact hrun.2

theorem runFrom_past (X : Texts T) (initial : World T) {s : World T} {cid text : CodePoints} (htext : text ∈ s.past cid)
    (events : List (Event T)) : text ∈ ((machine X initial).runFrom s events).past cid :=
  (machine X initial).runFrom_invariant (I := fun t => text ∈ t.past cid)
    (fun t e h => past_change (step_change t e) h) htext events

include hloads hdigest hfile in
/-- A permit that changed its file finds that file's text nowhere again. -/
theorem applied_once (initial : World T) {s : World T} (hsound : Sound X s) (hfiles : Files X s)
    {i : ℕ} {cut : Bool} {permit : Permit} {cid : CodePoints}
    (hcommand : s.commands[i]? = some (.apply permit))
    (hchanged : ((step X s (.deliver i cut)).backends cid).hba ≠ (s.backends cid).hba)
    (events : List (Event T)) {j : ℕ} {cut' : Bool}
    (hagain : ((machine X initial).runFrom (step X s (.deliver i cut)) events).commands[j]? =
      some (.apply permit)) (cid' : CodePoints) :
    ((step X ((machine X initial).runFrom (step X s (.deliver i cut)) events)
        (.deliver j cut')).backends cid').hba =
      (((machine X initial).runFrom (step X s (.deliver i cut)) events).backends cid').hba := by
  obtain ⟨i', _, permit', hevent, hcommand', rfl, _, _, hexpected, hreplace⟩ :=
    step_hba hdigest hsound hchanged
  cases hevent
  cases hcommand.symm.trans hcommand'
  have hpast : (s.backends permit.prepared.containerId).hba ∈
      (step X s (.deliver i cut)).past permit.prepared.containerId := by
    have hne : permit.prepared.content ≠ (s.backends permit.prepared.containerId).hba := by
      intro hsame
      rw [hreplace, backends_replace] at hchanged
      exact hchanged hsame
    rw [hreplace, past_replace hne]
    exact List.mem_append_right _ List.mem_cons_self
  have hgood := runFrom_good hloads hdigest hfile initial
    (hsound.change hloads hdigest (step_change s (.deliver i cut)))
    (hfiles.change hfile (step_change s (.deliver i cut))) events
  have hlater := runFrom_past X initial hpast events
  by_contra hne
  obtain ⟨j', _, permit'', hevent, hcommand'', rfl, _, _, hexpected', _⟩ :=
    step_hba hdigest hgood.1 hne
  cases hevent
  cases hagain.symm.trans hcommand''
  have hsame := hfile (hexpected'.trans hexpected.symm)
  exact hgood.2.current _ (hsame ▸ hlater)

end

/-! ## Texts that are records

Where a text is the record it stands for, its digest is the record written out. -/

/-- A part, after its length. -/
def framed (part : CodePoints) : CodePoints := part.length :: part

theorem framed_append_inj {a b x y : CodePoints} (h : framed a ++ x = framed b ++ y) :
    a = b ∧ x = y := by
  obtain ⟨hlength, happend⟩ := List.cons.inj h
  exact List.append_inj happend hlength

def writtenOperations : Operations → CodePoints
  | [] => []
  | (token, ⟨binding, state⟩) :: operations =>
    framed token ++ (framed binding ++ (framed (stateText state) ++ writtenOperations operations))

theorem writtenOperations_injective : Function.Injective writtenOperations := by
  intro a
  induction a with
  | nil =>
      intro b h
      cases b with
      | nil => rfl
      | cons entry b => nomatch h
  | cons entry a ih =>
      intro b h
      cases b with
      | nil => nomatch h
      | cons other b =>
          obtain ⟨htoken, hafter⟩ := framed_append_inj h
          obtain ⟨hbinding, hafter⟩ := framed_append_inj hafter
          obtain ⟨hstate, hrest⟩ := framed_append_inj hafter
          have hstates : Function.Injective stateText := by
            intro x y hxy
            cases x <;> cases y <;> first | rfl | exact absurd hxy (by decide)
          obtain ⟨token, binding, state⟩ := entry
          obtain ⟨token', binding', state'⟩ := other
          rw [show token = token' from htoken, show binding = binding' from hbinding,
            show state = state' from hstates hstate, ih hrest]

def written : Option Record → CodePoints
  | none => []
  | some record =>
    framed record.generation ++ (framed record.revision ++ writtenOperations record.operations)

theorem written_injective : Function.Injective written := by
  rintro (_ | ⟨generation, revision, operations⟩) (_ | ⟨generation', revision', operations'⟩) h
  · rfl
  · nomatch h
  · nomatch h
  · obtain ⟨hgeneration, hrest⟩ := framed_append_inj h
    obtain ⟨hrevision, hrest⟩ := framed_append_inj hrest
    rw [show generation = generation' from hgeneration, show revision = revision' from hrevision,
      show operations = operations' from writtenOperations_injective hrest]

/-- The record of an envelope. -/
def recordOf (value : Value PyNumber) : Option Record := do
  let (inner, _) ← (envelopeOf value).toOption
  let generation ← match inner with
    | .object members =>
      match member "generation" members with
      | some (.text generation) => some generation
      | _ => none
    | _ => none
  let (revision, members) ← (shapeOf generation inner).toOption
  let revision ← (exactValue revision UUID).toOption
  let operations ← (operationsOf members).toOption
  return ⟨generation, revision, operations⟩

def recordTexts : Texts (Option Record) where
  canonical := recordOf
  line := id
  loads
    | some record => .ok (.object [(codePoints "checksum", .text (written (recordOf record.value))),
        (codePoints "record", record.value)])
    | none => .error "Expecting value"
  digest := written
  fileDigest := id

theorem recordTexts_readsBack : ReadsBack recordTexts := by
  intro record h
  have hrecord : recordOf (envelope recordTexts record) = some record := by
    have hrevision : exactValue (.text record.revision) UUID = .ok record.revision := by
      rw [exactValue, (exact_eq_ok (u := ())).mpr h.revision]
      rfl
    calc recordOf (envelope recordTexts record)
        = ((shapeOf record.generation record.value).toOption >>= fun shape =>
            (exactValue shape.1 UUID).toOption >>= fun revision =>
              (operationsOf shape.2).toOption >>= fun operations =>
                some ⟨record.generation, revision, operations⟩) := rfl
      _ = some record := by
          rw [shapeOf_value]
          simp only [Except.toOption, Option.bind_eq_bind, Option.bind_some]
          rw [hrevision]
          simp only [Option.bind_some]
          rw [operationsOf_value h.sorted h.entries]
          rfl
  have hencode : encode recordTexts record = some record := hrecord
  rw [hencode]
  rfl

/-- Two containers of one file, and a registry that is stored in one of them. -/
def exampleWorld : World (Option Record) where
  backends _ := ⟨false, none, codePoints "local all all peer\n"⟩
  past _ := []
  commands := []
  prepared := []
  permits := []
  issued := []

def exampleContainer : CodePoints := List.replicate 64 97

def exampleEvents : List (Event (Option Record)) :=
  [.initializeRegistry exampleContainer (codePoints "0f8fad5b-d9cb-469f-a165-70867728950e")
      (codePoints "7c9e6679-7425-40de-944b-e07fc1f90ae7"),
    .deliver 0 false]

end Sbarbase.Hba.Proofs.AuthorityLaw
