import Sbarbase.Updates.System
/-!
# The one request

What every single write keeps: a request that was created is in the slot or has its
last form recorded, and no request has two final states. A list of writes is cut at
any place, so each write has its own condition and a list has one for each prefix.
-/

namespace Sbarbase.Updates.Proofs.Slot

open Lib Updates

/-- `later` is a form of the request `first`. -/
structure Follows (first later : Request) : Prop where
  id : later.id = first.id
  kind : later.kind = first.kind
  trigger : later.trigger = first.trigger
  version : later.version = first.version
  tag : later.tag = first.tag
  acknowledged : later.acknowledged = first.acknowledged
  requestedAt : later.requestedAt = first.requestedAt

theorem Follows.refl (request : Request) : Follows request request :=
  ⟨rfl, rfl, rfl, rfl, rfl, rfl, rfl⟩

theorem Follows.trans {a b c : Request} (h : Follows a b) (h' : Follows b c) : Follows a c :=
  ⟨h'.id.trans h.id, h'.kind.trans h.kind, h'.trigger.trans h.trigger,
    h'.version.trans h.version, h'.tag.trans h.tag, h'.acknowledged.trans h.acknowledged,
    h'.requestedAt.trans h.requestedAt⟩

/-- Changing the state, the times and the detail leaves the request the same. -/
theorem Follows.update (request : Request) (state : Progress) (started finished : Option ℕ)
    (detail : Option String) :
    Follows request
      { request with state, startedAt := started, finishedAt := finished, detail } :=
  ⟨rfl, rfl, rfl, rfl, rfl, rfl, rfl⟩

/-- The identity of a request that was created. -/
def Made.id (made : Made) : ℕ := made.asked.request.id

/-- The one request at a time, as the files and the history show it. -/
structure Slots (s : System) : Prop where
  distinct : (s.made.map Made.id).Nodup
  below : ∀ made ∈ s.made, Made.id made < s.drawn
  slot : ∀ request, s.slot = some request → ∃ made ∈ s.made, Follows made.asked.request request
  finals : ∀ final ∈ s.finals, final.state.final = true ∧
    ∃ made ∈ s.made, Follows made.asked.request final
  recorded : ∀ final ∈ s.recorded, final ∈ s.finals
  once : ∀ final ∈ s.finals, ∀ other ∈ s.finals, final.id = other.id → final.state = other.state
  opened : ∀ request, s.slot = some request → request.state.final = false →
    ∀ final ∈ s.finals, final.id ≠ request.id
  closed : ∀ request, s.slot = some request → request.state.final = true → request ∈ s.finals
  kept : ∀ made ∈ s.made, (∃ request, s.slot = some request ∧ request.id = Made.id made) ∨
    ∃ final ∈ s.recorded, final.id = Made.id made

/-! ## One write -/

/-- What a write needs to keep `Slots`. -/
def Allowed (s : System) : Act → Prop
  | .slot request => ∃ old, s.slot = some old ∧ Follows old request ∧ old.state.final = false
      ∨ s.slot = some old ∧ Follows old request ∧ request.state = old.state
  | .last request => request.state.final = true ∧
      ∃ held ∈ s.finals, held.state = request.state ∧ Follows held request
  | .unlink => ∀ request, s.slot = some request → ∃ final ∈ s.recorded, final.id = request.id
  | _ => True

theorem slots_of_eq {s s' : System} (h : Slots s) (slot : s'.slot = s.slot)
    (made : s'.made = s.made) (finals : s'.finals = s.finals)
    (recorded : s'.recorded = s.recorded) (drawn : s.drawn ≤ s'.drawn) : Slots s' where
  distinct := by rw [made]; exact h.distinct
  below := by rw [made]; exact fun m hm => (h.below m hm).trans_le drawn
  slot := by rw [slot, made]; exact h.slot
  finals := by rw [finals, made]; exact h.finals
  recorded := by rw [recorded, finals]; exact h.recorded
  once := by rw [finals]; exact h.once
  opened := by rw [slot, finals]; exact h.opened
  closed := by rw [slot, finals]; exact h.closed
  kept := by rw [made, slot, recorded]; exact h.kept

/-- Another form of the request in the slot. -/
theorem slots_slot {s : System} {request old : Request} (h : Slots s) (hslot : s.slot = some old)
    (hfollows : Follows old request)
    (hstate : old.state.final = false ∨ request.state = old.state) :
    Slots ((Act.slot request).perform s) := by
  obtain ⟨made, hmade, hfirst⟩ := h.slot old hslot
  have hsame : request.state.final = true → ∀ final ∈ s.finals, final.id = request.id →
      final.state = request.state := by
    intro hfinal final hmem hid
    rcases hstate with hopen | hstate
    · exact absurd (hid.trans hfollows.id) (h.opened old hslot hopen final hmem)
    · rw [hstate] at hfinal ⊢
      exact h.once final hmem old (h.closed old hslot hfinal) (hid.trans hfollows.id)
  -- a final form enters the history, an open one does not
  have hmem : ∀ final, final ∈ ((Act.slot request).perform s).finals →
      final ∈ s.finals ∨ final = request ∧ request.state.final = true := by
    intro final hfinal
    simp only [Act.perform] at hfinal
    split_ifs at hfinal with hstate
    · rcases List.mem_cons.mp hfinal with rfl | hold
      · exact .inr ⟨rfl, hstate⟩
      · exact .inl hold
    · exact .inl hfinal
  have hold : ∀ final ∈ s.finals, final ∈ ((Act.slot request).perform s).finals := by
    intro final hfinal
    simp only [Act.perform]
    split_ifs
    · exact List.mem_cons_of_mem _ hfinal
    · exact hfinal
  refine ⟨h.distinct, h.below, ?_, ?_, ?_, ?_, ?_, ?_, ?_⟩
  · rintro _ ⟨⟩
    exact ⟨made, hmade, hfirst.trans hfollows⟩
  · intro final hfinal
    rcases hmem final hfinal with hfinal | ⟨rfl, hfinal⟩
    · exact h.finals final hfinal
    · exact ⟨hfinal, made, hmade, hfirst.trans hfollows⟩
  · exact fun final hfinal => hold final (h.recorded final hfinal)
  · intro final hfinal other hother hid
    rcases hmem final hfinal with hkept | ⟨hnew, hclosed⟩
    · rcases hmem other hother with hkept' | ⟨hnew', hclosed'⟩
      · exact h.once final hkept other hkept' hid
      · rw [hnew'] at hid ⊢
        exact hsame hclosed' final hkept hid
    · rcases hmem other hother with hkept' | ⟨hnew', -⟩
      · rw [hnew] at hid ⊢
        exact (hsame hclosed other hkept' hid.symm).symm
      · rw [hnew, hnew']
  · rintro _ ⟨⟩ hopen final hfinal
    rcases hmem final hfinal with hfinal | ⟨-, hfinal⟩
    · rcases hstate with hwas | hwas
      · exact fun hid => h.opened old hslot hwas final hfinal (hid.trans hfollows.id)
      · rw [hwas] at hopen
        exact fun hid => h.opened old hslot hopen final hfinal (hid.trans hfollows.id)
    · exact absurd (hopen.symm.trans hfinal) Bool.false_ne_true
  · rintro _ ⟨⟩ hfinal
    simp only [Act.perform, hfinal, if_pos]
    exact List.mem_cons_self
  · intro m hm
    rcases h.kept m hm with ⟨held, hheld, hid⟩ | hrecorded
    · obtain rfl : old = held := Option.some.inj (hslot.symm.trans hheld)
      exact .inl ⟨request, rfl, hfollows.id.trans hid⟩
    · exact .inr hrecorded

/-- A form that the history has is written as the last request. -/
theorem slots_last {s : System} {request held : Request} (h : Slots s)
    (hfinal : request.state.final = true) (hheld : held ∈ s.finals)
    (hstate : held.state = request.state) (hfollows : Follows held request) :
    Slots ((Act.last request).perform s) := by
  have hsame : ∀ final ∈ s.finals, final.id = request.id → final.state = request.state :=
    fun final hmem hid => (h.once final hmem held hheld (hid.trans hfollows.id)).trans hstate
  refine ⟨h.distinct, h.below, h.slot, ?_, ?_, ?_, ?_, ?_, ?_⟩
  · intro final hmem
    rcases List.mem_cons.mp hmem with rfl | hmem
    · obtain ⟨-, made, hmade, hfirst⟩ := h.finals held hheld
      exact ⟨hfinal, made, hmade, hfirst.trans hfollows⟩
    · exact h.finals final hmem
  · intro final hmem
    rcases List.mem_cons.mp hmem with rfl | hmem
    · exact List.mem_cons_self
    · exact List.mem_cons_of_mem _ (h.recorded final hmem)
  · intro final hmem other hother hid
    rcases List.mem_cons.mp hmem with hnew | hkept
    · rcases List.mem_cons.mp hother with hnew' | hkept'
      · rw [hnew, hnew']
      · rw [hnew] at hid ⊢
        exact (hsame other hkept' hid.symm).symm
    · rcases List.mem_cons.mp hother with hnew' | hkept'
      · rw [hnew'] at hid ⊢
        exact hsame final hkept hid
      · exact h.once final hkept other hkept' hid
  · intro r hr hopen final hmem
    rcases List.mem_cons.mp hmem with rfl | hmem
    · exact fun hid => h.opened r hr hopen held hheld (hfollows.id.symm.trans hid)
    · exact h.opened r hr hopen final hmem
  · exact fun r hr hclosed => List.mem_cons_of_mem _ (h.closed r hr hclosed)
  · intro m hm
    rcases h.kept m hm with hslot | ⟨final, hrecorded, hid⟩
    · exact .inl hslot
    · exact .inr ⟨final, List.mem_cons_of_mem _ hrecorded, hid⟩

theorem slots_unlink {s : System} (h : Slots s)
    (hdone : ∀ request, s.slot = some request → ∃ final ∈ s.recorded, final.id = request.id) :
    Slots (Act.unlink.perform s) := by
  refine ⟨h.distinct, h.below, ?_, h.finals, h.recorded, h.once, ?_, ?_, ?_⟩
  · exact fun _ hnone => (nomatch hnone)
  · exact fun _ hnone => (nomatch hnone)
  · exact fun _ hnone => (nomatch hnone)
  · intro m hm
    rcases h.kept m hm with ⟨request, hslot, hid⟩ | hrecorded
    · obtain ⟨final, hfinal, hsame⟩ := hdone request hslot
      exact .inr ⟨final, hfinal, hsame.trans hid⟩
    · exact .inr hrecorded

theorem slots_perform (s : System) (act : Act) (hallowed : Allowed s act) (h : Slots s) :
    Slots (act.perform s) := by
  cases act with
  | slot request =>
      obtain ⟨old, ⟨hslot, hfollows, hopen⟩ | ⟨hslot, hfollows, hstate⟩⟩ := hallowed
      · exact slots_slot h hslot hfollows (.inl hopen)
      · exact slots_slot h hslot hfollows (.inr hstate)
  | last request =>
      obtain ⟨hfinal, held, hheld, hstate, hfollows⟩ := hallowed
      exact slots_last h hfinal hheld hstate hfollows
  | unlink => exact slots_unlink h hallowed
  | mark version change => exact slots_of_eq h rfl rfl rfl rfl le_rfl
  | told version => exact slots_of_eq h rfl rfl rfl rfl le_rfl
  | upgrade record => exact slots_of_eq h rfl rfl rfl rfl le_rfl
  | checkout commit => exact slots_of_eq h rfl rfl rfl rfl le_rfl
  | aside => exact slots_of_eq h rfl rfl rfl rfl le_rfl
  | current record => exact slots_of_eq h rfl rfl rfl rfl le_rfl

/-! ## Lists of writes -/

/-- Every write of the list satisfies `P` where it comes. -/
def Each (P : System → Act → Prop) : System → List Act → Prop
  | _, [] => True
  | s, act :: acts => P s act ∧ Each P (act.perform s) acts

@[simp] theorem perform_nil (s : System) : s.perform [] = s := rfl

@[simp] theorem perform_cons (s : System) (act : Act) (acts : List Act) :
    s.perform (act :: acts) = (act.perform s).perform acts := rfl

section

variable {P : System → Act → Prop} {s : System} {acts more : List Act}

theorem Each.append (h : Each P s acts) (h' : Each P (s.perform acts) more) :
    Each P s (acts ++ more) := by
  induction acts generalizing s with
  | nil => exact h'
  | cons act acts ih => exact ⟨h.1, ih h.2 h'⟩

/-- A cut list of such writes is one. -/
theorem Each.cut (h : Each P s acts) (cut : Option ℕ) : Each P s (cutActs cut acts) := by
  cases cut with
  | none => exact h
  | some k =>
      change Each P s (acts.take k)
      induction acts generalizing s k with
      | nil => rw [List.take_nil]; trivial
      | cons act acts ih =>
          cases k with
          | zero => trivial
          | succ k => exact ⟨h.1, ih h.2 k⟩

/-- What every such write keeps, the list keeps. -/
theorem Each.keep {I : System → Prop} (hstep : ∀ s act, P s act → I s → I (act.perform s))
    (h : Each P s acts) (hI : I s) : I (s.perform acts) := by
  induction acts generalizing s with
  | nil => exact hI
  | cons act acts ih => exact ih h.2 (hstep s act h.1 hI)

theorem Each.of_all (h : ∀ s, ∀ act ∈ acts, P s act) : Each P s acts := by
  induction acts generalizing s with
  | nil => trivial
  | cons act acts ih =>
      exact ⟨h s act List.mem_cons_self, ih fun s a ha => h s a (List.mem_cons_of_mem _ ha)⟩

end

/-- A write that has nothing to do with requests. -/
def Act.free : Act → Prop
  | .slot _ | .last _ | .unlink => False
  | _ => True

theorem Act.free.allowed {act : Act} (h : Act.free act) (s : System) : Allowed s act := by
  cases act with
  | slot | last | unlink => exact absurd h id
  | mark | told | upgrade | checkout | aside | current => trivial

theorem allowed_free {s : System} {acts : List Act} (h : ∀ act ∈ acts, Act.free act) :
    Each Allowed s acts := Each.of_all fun s act hact => (h act hact).allowed s

/-! ## The lists of the code -/

theorem filter_own {request : Request} :
    (some request).filter (fun current => current.id = request.id) = some request := by
  simp [Option.filter]

/-- `finish_request` of the request in the slot. -/
theorem finishRequest_own {slot : Option Request} {request own : Request}
    (hslot : slot = some own) (hid : own.id = request.id) (state : Progress)
    (detail : Option String) (moment : Moment) :
    finishRequest slot request state detail moment =
      [.slot { own with state, detail, finishedAt := some (stamp moment) },
        .last { own with state, detail, finishedAt := some (stamp moment) }, .unlink] := by
  rw [finishRequest, hslot, ← hid, filter_own]

theorem allowed_finish {s : System} {request own : Request} (hslot : s.slot = some own)
    (hid : own.id = request.id) {state : Progress} (hfinal : state.final = true)
    (hstate : own.state.final = false ∨ state = own.state) (detail : Option String)
    (moment : Moment) : Each Allowed s (finishRequest s.slot request state detail moment) := by
  rw [finishRequest_own hslot hid]
  have hfollows : Follows own { own with state, detail, finishedAt := some (stamp moment) } :=
    Follows.update own state own.startedAt _ detail
  refine ⟨?_, ⟨hfinal, _, ?_, rfl, Follows.refl _⟩, ?_, trivial⟩
  · rcases hstate with hopen | hsame
    · exact ⟨own, .inl ⟨hslot, hfollows, hopen⟩⟩
    · exact ⟨own, .inr ⟨hslot, hfollows, hsame⟩⟩
  · simp only [Act.perform, hfinal, if_pos]
    exact List.mem_cons_self
  · rintro _ ⟨⟩
    exact ⟨_, List.mem_cons_self, rfl⟩

theorem updateRequest_own {slot : Option Request} {request own : Request}
    (hslot : slot = some own) (hid : own.id = request.id) (moment : Moment) :
    updateRequest slot request moment =
      some { own with state := .running, startedAt := some (stamp moment) } := by
  rw [updateRequest, hslot, ← hid, filter_own]
  rfl

theorem free_spend {request : Request} {result : Option Outcome} {moved : Bool} :
    ∀ act ∈ spendActs request result moved, Act.free act := by
  intro act hmem
  obtain ⟨version, -, rfl⟩ := List.mem_map.mp hmem
  trivial

theorem free_announce {was : Phase} {record : Upgrade} :
    ∀ act ∈ announceOutcome was record, Act.free act := by
  intro act hmem
  unfold announceOutcome at hmem
  split_ifs at hmem
  · simp only [List.mem_cons, List.not_mem_nil, or_false] at hmem
    rcases hmem with rfl | rfl <;> trivial
  · exact absurd hmem List.not_mem_nil

/-- Writes without requests leave the slot alone. -/
theorem slot_free {s : System} {acts : List Act} (h : ∀ act ∈ acts, Act.free act) :
    (s.perform acts).slot = s.slot := by
  induction acts generalizing s with
  | nil => rfl
  | cons act acts ih =>
      rw [perform_cons, ih fun a ha => h a (List.mem_cons_of_mem _ ha)]
      have hfree := h act List.mem_cons_self
      cases act with
      | slot | last | unlink => exact absurd hfree id
      | mark | told | upgrade | checkout | aside | current => rfl

theorem free_cut {acts : List Act} (h : ∀ act ∈ acts, Act.free act) (cut : Option ℕ) :
    ∀ act ∈ cutActs cut acts, Act.free act := by
  cases cut with
  | none => exact h
  | some k => exact fun act hmem => h act (List.mem_of_mem_take hmem)

/-! ## A new request -/

theorem link_taken {s : System} {request : Request} (h : s.slot = some request) (asked : Asked) :
    s.link asked = s := by
  rw [System.link, h]

theorem link_free {s : System} (h : s.slot = none) (asked : Asked) : s.link asked = { s with
      slot := some asked.request
      made := ⟨asked, s.lost.map Prod.snd, s.back⟩ :: s.made } := by
  rw [System.link, h]

theorem slots_link {s : System} {asked : Asked} (h : Slots s) (hid : asked.request.id < s.drawn)
    (hnew : ∀ made ∈ s.made, Made.id made ≠ asked.request.id)
    (hopen : asked.request.state.final = false) : Slots (s.link asked) := by
  cases hslot : s.slot with
  | some request => rwa [link_taken hslot]
  | none =>
      rw [link_free hslot]
      have hfinals : ∀ final ∈ s.finals, final.id ≠ asked.request.id := by
        intro final hfinal heq
        obtain ⟨-, made, hmade, hfollows⟩ := h.finals final hfinal
        exact hnew made hmade (hfollows.id.symm.trans heq)
      refine ⟨?_, ?_, ?_, ?_, h.recorded, h.once, ?_, ?_, ?_⟩
      · rw [List.map_cons, List.nodup_cons]
        refine ⟨?_, h.distinct⟩
        rintro hmem
        obtain ⟨made, hmade, heq⟩ := List.mem_map.mp hmem
        exact hnew made hmade heq
      · intro made hmade
        rcases List.mem_cons.mp hmade with rfl | hmade
        · exact hid
        · exact h.below made hmade
      · rintro _ ⟨⟩
        exact ⟨_, List.mem_cons_self, Follows.refl _⟩
      · intro final hfinal
        obtain ⟨hstate, made, hmade, hfollows⟩ := h.finals final hfinal
        exact ⟨hstate, made, List.mem_cons_of_mem _ hmade, hfollows⟩
      · rintro _ ⟨⟩ - final hfinal
        exact hfinals final hfinal
      · rintro _ ⟨⟩ hclosed
        exact absurd (hopen.symm.trans hclosed) Bool.false_ne_true
      · intro made hmade
        rcases List.mem_cons.mp hmade with rfl | hmade
        · exact .inl ⟨_, rfl, rfl⟩
        · rcases h.kept made hmade with ⟨request, hheld, -⟩ | hrecorded
          · rw [hslot] at hheld
            exact (nomatch hheld)
          · exact .inr hrecorded

end Sbarbase.Updates.Proofs.Slot
