import Sbarbase.Updates.Proofs.Tries
/-!
# The contract of the update channel

One request at a time that ends once, tries of automatic mode that are counted and
inside the window, and the versions it never asks for again. The last part rests on
`spend`, which only two of the three ends of a running request go through.
-/

namespace Sbarbase.Updates.Proofs.Promises

open Lib Updates Updates.Proofs.Slot Updates.Proofs.Turns
open Updates.Proofs.Channel Updates.Proofs.Tries

/-! ## What is promised -/

/-- The request was created and has no final form yet. -/
def Open (s : System) (made : Made) : Prop :=
  made ∈ s.made ∧ ∀ final ∈ s.finals, final.id ≠ Made.id made

/-- At most one request is open, and every request is in the slot or recorded in its
final form as the last one. -/
def OneRequest (s : System) : Prop :=
  (∀ made made', Open s made → Open s made' → made = made') ∧
    ∀ made ∈ s.made,
      (∃ request, s.slot = some request ∧ Follows made.asked.request request) ∨
        ∃ final ∈ s.recorded, Follows made.asked.request final ∧ final.state.final = true

/-- The forms a request ended in are all done or all failed. -/
def EndsOnce (s : System) : Prop :=
  ∀ final ∈ s.finals, final.state.final = true ∧
    ∀ other ∈ s.finals, other.id = final.id → other.state = final.state

/-- An automatic request for a version. -/
def isTry (version : String) (request : Request) : Bool :=
  request.trigger = .automatic && request.version = some version

def tries (s : System) (version : String) : ℕ :=
  s.made.countP fun made => isTry version made.asked.request

/-- Decided with automatic updates on, inside the maintenance window. -/
def Timely (asked : Asked) : Prop :=
  asked.settings.check = true ∧ asked.settings.automatic = true ∧
    inWindow asked.settings.window asked.moment = true ∧
    asked.request.requestedAt = stamp asked.moment

def BoundedTries (s : System) : Prop :=
  (∀ version, tries s version ≤ automaticTries) ∧
    ∀ made ∈ s.made, made.asked.request.trigger = .automatic → Timely made.asked

/-- No automatic request was created for a version with a lost try or an announced way
back. -/
def NeverAgain (s : System) : Prop :=
  ∀ made ∈ s.made, ∀ version, isTry version made.asked.request = true →
    version ∉ made.lost ∧ version ∉ made.back

/-! ## When it is kept -/

/-- The slot holds a running request whose try is lost. -/
def owed (s : System) : Bool :=
  s.slot.any fun request => request.state = .running && s.lost.any fun lost => lost.1 = request.id

/-- A turn or a start that finds a lost try in the slot goes through `spend`: the turn
knows the child and does not take the try for one that moved, the start does not take
the upgrade record for the try's, and no exception comes before the ledger's write. -/
def spends (s : System) : Event → Bool
  | .turn _ cut =>
    match s.process with
    | none => true
    | some p =>
      !(p.serving && owed s) ||
        (p.update.any fun job => !s.movedForGood p job.kind) && cut != some 0
  | .settle _ cut =>
    !owed s || (s.slot.all fun request => !progressed request s.upgrade) && cut != some 0
  | _ => true

/-! ## Tries over a history -/

/-- The try that is counted and not linked yet. -/
def pendingTries (s : System) (version : String) : ℕ :=
  if ((s.process.bind Process.creating).any fun asked => isTry version asked.request) = true then 1
  else 0

structure History (s : System) : Prop where
  ledgers : Ledgers s
  counted : ∀ version, tries s version + pendingTries s version ≤ (s.ledger.entry version).tries
  made : ∀ made ∈ s.made, made.asked.request.trigger = .automatic → Timely made.asked
  creating : ∀ p asked, s.process = some p → p.creating = some asked → Timely asked

/-- The lost try of the request in the slot, which the outcome still tells. -/
def Owed (s : System) (run : ℕ) (version : String) : Prop :=
  ∃ request, s.slot = some request ∧ request.id = run ∧ request.state = .running ∧
    request.kind = .apply ∧ request.trigger = .automatic ∧ request.version = some version ∧
    ((outcome s.outcome run).any fun value => value.passed) = true

structure Barred (s : System) : Prop where
  lost : ∀ run version, (run, version) ∈ s.lost →
    (s.ledger.entry version).spent = true ∨ Owed s run version
  linked : ∀ lost ∈ s.lost, ∃ made ∈ s.made, Made.id made = lost.1
  slot : ∀ request, s.slot = some request → request.state = .requested →
    ∀ lost ∈ s.lost, lost.1 ≠ request.id
  child : ∀ child, s.child = some child →
    (∀ lost ∈ s.lost, lost.1 = child.run → child.status = some false) ∧
    (child.passed = true → ((outcome s.outcome child.run).any fun value => value.passed) = true)
  creating : ∀ p asked, s.process = some p → p.creating = some asked →
    ∀ version, isTry version asked.request = true →
      version ∉ s.lost.map Prod.snd ∧ version ∉ s.back
  made : NeverAgain s

/-! ## Events that leave the requests alone -/

/-- Nothing was created, started, lost or recorded by a child. -/
structure Still (s s' : System) : Prop where
  grows : Grows s s'
  slot : s'.slot = s.slot
  outcome : s'.outcome = s.outcome
  lost : s'.lost = s.lost
  made : s'.made = s.made
  child : s'.child = s.child ∨ s'.child = none
  creating : ∀ p, s'.process = some p → p.creating = none ∨
    s'.back = s.back ∧ ∃ p', s.process = some p' ∧ p'.creating = p.creating

theorem pendingTries_of_none {s : System} (h : ∀ p, s.process = some p → p.creating = none)
    (version : String) : pendingTries s version = 0 := by
  have hnone : s.process.bind Process.creating = none := by
    cases hp : s.process with
    | none => rfl
    | some p => exact h p hp
  rw [pendingTries, hnone]
  rfl

/-- What is not linked yet was decided before. -/
def Waits (s s' : System) : Prop :=
  ∀ p, s'.process = some p → p.creating = none ∨
    ∃ p', s.process = some p' ∧ p'.creating = p.creating

theorem pendingTries_le {s s' : System} (h : Waits s s') (version : String) :
    pendingTries s' version ≤ pendingTries s version := by
  cases hp : s'.process with
  | none =>
      rw [pendingTries_of_none fun p hp' => (nomatch hp.symm.trans hp')]
      exact Nat.zero_le _
  | some p =>
      rcases h p hp with hnone | ⟨p', hp', hsame⟩
      · rw [pendingTries_of_none fun q hq => by
          obtain rfl := Option.some.inj (hp.symm.trans hq)
          exact hnone]
        exact Nat.zero_le _
      · rw [pendingTries, pendingTries, hp, hp', Option.bind_some, Option.bind_some, hsame]

/-- Without a new request, the counts stay below the tries. -/
theorem history_of_made {s s' : System} (h : History s) (hgrows : Grows s s')
    (hmade : s'.made = s.made) (hwaits : Waits s s') (hbound : Bounded s')
    (hledgers : Ledgers s') : History s' where
  ledgers := hledgers
  counted version := by
    have hold := h.counted version
    have hpending := pendingTries_le hwaits version
    have htried := hgrows.tries hbound version
    have hsame : tries s' version = tries s version := by rw [tries, tries, hmade]
    omega
  made := by rw [hmade]; exact h.made
  creating p asked hp hasked := by
    rcases hwaits p hp with hnone | ⟨p', hp', hsame⟩
    · exact (nomatch hnone.symm.trans hasked)
    · exact h.creating p' asked hp' (hsame.trans hasked)

theorem Still.waits {s s' : System} (h : Still s s') : Waits s s' := fun p hp =>
  (h.creating p hp).imp_right And.right

theorem Owed.of_eq {s s' : System} {run : ℕ} {version : String} (h : Owed s run version)
    (slot : s'.slot = s.slot) (outcome : s'.outcome = s.outcome) : Owed s' run version := by
  obtain ⟨request, hslot, hrest⟩ := h
  exact ⟨request, slot.trans hslot, by rw [outcome]; exact hrest⟩

theorem barred_still {s s' : System} (h : Barred s) (hstill : Still s s') (hbound : Bounded s') :
    Barred s' where
  lost run version hmem := by
    rw [hstill.lost] at hmem
    rcases h.lost run version hmem with hspent | howed
    · exact .inl (hstill.grows.spent hbound version hspent)
    · exact .inr (howed.of_eq hstill.slot hstill.outcome)
  linked := by rw [hstill.lost, hstill.made]; exact h.linked
  slot := by rw [hstill.slot, hstill.lost]; exact h.slot
  child child hchild := by
    rcases hstill.child with hsame | hnone
    · rw [hsame] at hchild
      rw [hstill.lost, hstill.outcome]
      exact h.child child hchild
    · exact (nomatch hnone.symm.trans hchild)
  creating p asked hp hasked version htry := by
    rcases hstill.creating p hp with hnone | ⟨hback, p', hp', hsame⟩
    · exact (nomatch hnone.symm.trans hasked)
    · rw [hstill.lost, hback]
      exact h.creating p' asked hp' (hsame.trans hasked) version htry
  made := by
    unfold NeverAgain
    rw [hstill.made]
    exact h.made

theorem still_perform {s : System} {acts : List Act} (hcounted : Each Counted s acts)
    (hledgers : Bounded s → Ledgers s) (hfree : ∀ act ∈ acts, Act.free act)
    (hcreating : ∀ p, s.process = some p → p.creating = none) : Still s (s.perform acts) := by
  have hframe := frame_perform s acts
  refine ⟨(ledgers_performAll hcounted hledgers).2, slot_free hfree, hframe.outcome, hframe.lost,
    hframe.made, .inl hframe.child, fun p hp => .inl (hcreating p ?_)⟩
  rw [← hframe.process]
  exact hp

/-! ## The child -/

theorem outcome_record (recorded : Option Outcome) (run : ℕ) (f : Outcome → Outcome)
    (hf : ∀ old, (f old).request = old.request) :
    outcome (some (recordOutcome recorded run f)) run =
      some (f ((outcome recorded run).getD ⟨run, false, [], none⟩)) := by
  have hrequest : ((outcome recorded run).getD ⟨run, false, [], none⟩).request = run := by
    cases h : outcome recorded run with
    | none => rfl
    | some value =>
        have hfilter := (Option.filter_eq_some_iff.mp h).2
        exact of_decide_eq_true hfilter
  rw [recordOutcome, outcome, Option.filter_some, hf, hrequest]
  simp

/-- What a step of a live child reports. -/
structure Reports (s s' : System) (child : Child) : Prop where
  kept : ((outcome s.outcome child.run).any fun value => value.passed) = true →
    ((outcome s'.outcome child.run).any fun value => value.passed) = true
  passed : ∀ child', s'.child = some child' → child'.passed = true →
    child.passed = true ∨ ((outcome s'.outcome child.run).any fun value => value.passed) = true
  lost : s'.lost = s.lost ∨ s'.lost = child.loses.toList ++ s.lost ∧
    (child.loses.isSome = true → ∀ child', s'.child = some child' → child'.status = some false)

theorem loses_eq_some {child : Child} {lost : ℕ × String} (h : child.loses = some lost) :
    child.kind = .apply ∧ child.automatic = true ∧ child.passed = true ∧ child.moved = false ∧
      lost.1 = child.run ∧ child.version = some lost.2 := by
  unfold Child.loses at h
  split_ifs at h with hready
  obtain ⟨version, hversion, rfl⟩ := Option.map_eq_some_iff.mp h
  exact ⟨hready.1, hready.2.1, hready.2.2.1, hready.2.2.2, rfl, hversion⟩

theorem childStep_reports {s : System} {child : Child} (step : ChildStep)
    (hchild : s.child = some child) : Reports s (childStep s child step) child := by
  have hown : ∀ child', s.child = some child' → child'.passed = true → child.passed = true := by
    intro child' hchild'
    obtain rfl := Option.some.inj (hchild.symm.trans hchild')
    exact id
  have hidle : Reports s s child := ⟨id, fun child' h h' => .inl (hown child' h h'), .inl rfl⟩
  unfold childStep
  split
  · split_ifs
    · exact hidle
    · have hpassed : ((outcome (some (recordOutcome s.outcome child.run fun old =>
          { old with passed := true })) child.run).any fun value => value.passed) = true := by
        rw [outcome_record s.outcome child.run (fun old => { old with passed := true }) fun _ => rfl]
        rfl
      exact ⟨fun _ => hpassed, fun _ _ _ => .inr hpassed, .inl rfl⟩
  · by_cases hready : child.passed = false ∨ child.saved
    · rw [if_pos hready]
      exact hidle
    · rw [if_neg hready]
      refine ⟨id, ?_, .inl rfl⟩
      rintro _ ⟨⟩ hpassed
      exact .inl hpassed
  · split_ifs
    · exact ⟨id, fun child' h h' => .inl (hown child' h h'), .inl rfl⟩
    · exact hidle
  · split_ifs
    · refine ⟨id, ?_, .inl rfl⟩
      rintro _ ⟨⟩ hpassed
      exact .inl hpassed
    · exact hidle
  · split_ifs
    · exact ⟨id, fun child' h h' => .inl (hown child' h h'), .inl rfl⟩
    · exact hidle
  · split_ifs
    · exact ⟨id, fun child' h h' => .inl (hown child' h h'), .inl rfl⟩
    · exact hidle
  · split_ifs
    · exact ⟨id, fun child' h h' => .inl (hown child' h h'), .inl rfl⟩
    · exact hidle
  · exact ⟨id, fun child' h h' => .inl (hown child' h h'), .inl rfl⟩
  · rename_i ok report
    simp only
    split_ifs with hready
    · exact hidle
    · refine ⟨fun hpassed => ?_, ?_, .inr ⟨rfl, fun hloses => ?_⟩⟩
      · cases report with
        | none => exact hpassed
        | some report =>
            simp only [Option.map_some, Option.some_or]
            rw [outcome_record s.outcome child.run
              (fun old => { old with refusals := report.1, error := report.2 }) fun _ => rfl]
            cases hold : outcome s.outcome child.run with
            | none =>
                rw [hold] at hpassed
                exact (nomatch hpassed)
            | some old =>
                rw [hold] at hpassed
                exact hpassed
      · rintro _ ⟨⟩ hpassed
        exact .inl hpassed
      · rintro _ ⟨⟩
        obtain ⟨lost, hlost⟩ := Option.isSome_iff_exists.mp hloses
        obtain ⟨hkind, -, -, hmoved, -⟩ := loses_eq_some hlost
        cases ok with
        | false => rfl
        | true => exact absurd ⟨rfl, by rw [hkind]; exact hmoved⟩ hready
  · exact hidle

/-- A child that is there works for the running request, if the slot has one. -/
theorem run_of_running {s : System} (hmemory : Memory s) {child : Child} {request : Request}
    (hchild : s.child = some child) (hslot : s.slot = some request)
    (hstate : request.state = .running) : child.run = request.id := by
  obtain ⟨p, job, hp, hjob, hrun, -, -⟩ := hmemory.child child hchild
  obtain ⟨-, hown, hnone⟩ := hmemory.job p job hp hjob
  cases hrequest : job.request with
  | none =>
      have hasked := (hnone hrequest).2 request hslot
      rw [hstate] at hasked
      exact (nomatch hasked)
  | some own =>
      obtain ⟨hslot', -, hid, -⟩ := hown own hrequest
      obtain rfl := Option.some.inj (hslot.symm.trans hslot')
      exact hrun.trans hid

/-- The try that a child loses is the one of the request in the slot. -/
theorem owed_of_loses {s : System} (hmemory : Memory s) (hbarred : Barred s) {child : Child}
    {lost : ℕ × String} (hchild : s.child = some child) (hloses : child.loses = some lost) :
    Owed s lost.1 lost.2 := by
  obtain ⟨hkind, hautomatic, hpassed, -, hrun, hversion⟩ := loses_eq_some hloses
  obtain ⟨p, job, hp, hjob, hrun', hkind', happly⟩ := hmemory.child child hchild
  obtain ⟨request, hrequest, hv, ha⟩ := happly (hkind'.symm.trans hkind)
  obtain ⟨hslot, hstate, hid, hjobKind⟩ :=
    (hmemory.job p job hp hjob).2.1 request hrequest
  refine ⟨request, hslot, ?_, hstate, ?_, ?_, ?_, ?_⟩
  · rw [hrun, hrun', hid]
  · rw [← hjobKind, ← hkind', hkind]
  · rw [hautomatic] at ha
    exact of_decide_eq_true ha.symm
  · rw [← hv, hversion]
  · rw [hrun]
    exact (hbarred.child child hchild).2 hpassed

theorem Owed.linked {s : System} (hslots : Slots s) {run : ℕ} {version : String}
    (h : Owed s run version) : ∃ made ∈ s.made, Made.id made = run := by
  obtain ⟨request, hslot, hid, -⟩ := h
  obtain ⟨made, hmade, hfollows⟩ := hslots.slot request hslot
  exact ⟨made, hmade, hfollows.id.symm.trans hid⟩

theorem creating_none_of_child {s : System} (hmemory : Memory s) {child : Child}
    (hchild : s.child = some child) : ∀ p, s.process = some p → p.creating = none := by
  intro p hp
  cases hasked : p.creating with
  | none => rfl
  | some asked =>
      have hnone := (hmemory.creating p asked hp hasked).2.2.2.2
      exact (nomatch hchild.symm.trans hnone)

theorem barred_child {s : System} {child : Child} (hcore : Core s) (h : Barred s)
    (hchild : s.child = some child) (halive : child.status = none) (step : ChildStep) :
    Barred (childStep s child step) := by
  have hframe := childStep_frame s child step hchild
  have hreports := childStep_reports step hchild
  have hnotLost : ∀ lost ∈ s.lost, lost.1 ≠ child.run := by
    intro lost hmem heq
    have hended := (h.child child hchild).1 lost hmem heq
    rw [halive] at hended
    exact (nomatch hended)
  have howed : ∀ run version, Owed s run version → Owed (childStep s child step) run version := by
    rintro run version ⟨request, hslot, hid, hstate, hkind, htrigger, hversion, hpassed⟩
    have hrun : child.run = run := (run_of_running hcore.memory hchild hslot hstate).trans hid
    rw [← hrun] at hpassed ⊢
    exact ⟨request, hframe.slot.trans hslot, hid.trans hrun.symm, hstate, hkind, htrigger,
      hversion, hreports.kept hpassed⟩
  have hmem : ∀ lost ∈ (childStep s child step).lost, lost ∈ s.lost ∨ child.loses = some lost ∧
      ∀ child', (childStep s child step).child = some child' → child'.status = some false := by
    intro lost hmem
    rcases hreports.lost with hsame | ⟨happend, hended⟩
    · rw [hsame] at hmem
      exact .inl hmem
    · rw [happend] at hmem
      rcases List.mem_append.mp hmem with hnew | hold
      · have hloses := Option.mem_toList.mp hnew
        exact .inr ⟨hloses, hended (by rw [hloses]; rfl)⟩
      · exact .inl hold
  have hcreating := creating_none_of_child hcore.memory hchild
  refine ⟨fun run version hlost => ?_, fun lost hlost => ?_, ?_, fun child' hchild' => ⟨?_, ?_⟩,
    fun p asked hp hasked => ?_, ?_⟩
  · rw [hframe.ledger]
    rcases hmem _ hlost with hold | ⟨hloses, -⟩
    · exact (h.lost run version hold).imp_right (howed run version)
    · exact .inr (howed run version (owed_of_loses hcore.memory h hchild hloses))
  · rw [hframe.made]
    rcases hmem _ hlost with hold | ⟨hloses, -⟩
    · exact h.linked lost hold
    · exact (owed_of_loses hcore.memory h hchild hloses).linked hcore.slots
  · intro request hslot hstate lost hlost
    rw [hframe.slot] at hslot
    rcases hmem _ hlost with hold | ⟨hloses, -⟩
    · exact h.slot request hslot hstate lost hold
    · obtain ⟨own, hown, -, hrunning, -⟩ := owed_of_loses hcore.memory h hchild hloses
      obtain rfl := Option.some.inj (hslot.symm.trans hown)
      rw [hstate] at hrunning
      exact (nomatch hrunning)
  · intro lost hlost heq
    rw [(hframe.same child' hchild').1] at heq
    rcases hmem _ hlost with hold | ⟨-, hended⟩
    · exact absurd heq (hnotLost lost hold)
    · exact hended child' hchild'
  · intro hpassed
    rw [(hframe.same child' hchild').1]
    rcases hreports.passed child' hchild' hpassed with hbefore | hnow
    · exact hreports.kept ((h.child child hchild).2 hbefore)
    · exact hnow
  · rw [hframe.process] at hp
    exact (nomatch (hcreating p hp).symm.trans hasked)
  · unfold NeverAgain
    rw [hframe.made]
    exact h.made

theorem barred_stop {s : System} (hcore : Core s) (h : Barred s) : Barred s.stop := by
  have hmem : ∀ lost ∈ s.stop.lost, lost ∈ s.lost ∨ Owed s lost.1 lost.2 := by
    intro lost hlost
    rcases List.mem_append.mp hlost with hnew | hold
    · obtain ⟨child, hchild, hloses⟩ := Option.bind_eq_some_iff.mp (Option.mem_toList.mp hnew)
      exact .inr (owed_of_loses hcore.memory h (Option.filter_eq_some_iff.mp hchild).1 hloses)
    · exact .inl hold
  refine ⟨fun run version hlost => ?_, fun lost hlost => ?_, fun request hslot hstate lost hlost => ?_,
    fun _ hnone => (nomatch hnone), fun _ _ hnone => (nomatch hnone), h.made⟩
  · rcases hmem _ hlost with hold | howed
    · exact (h.lost run version hold).imp_right fun howed => howed.of_eq rfl rfl
    · exact .inr (howed.of_eq rfl rfl)
  · rcases hmem _ hlost with hold | howed
    · exact h.linked lost hold
    · exact howed.linked hcore.slots
  · rcases hmem _ hlost with hold | ⟨own, hown, -, hrunning, -⟩
    · exact h.slot request hslot hstate lost hold
    · obtain rfl := Option.some.inj (Eq.symm (Eq.trans (Eq.symm hown) hslot))
      rw [hstate] at hrunning
      exact (nomatch hrunning)

end Sbarbase.Updates.Proofs.Promises
