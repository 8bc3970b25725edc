import Sbarbase.Updates.Proofs.Promises
/-!
# Lost tries are spent

A turn or a start that ends a running request spends its try first, as long as it
does so through `spend`. From there the versions with a lost try stay barred.
-/

namespace Sbarbase.Updates.Proofs.UpdateLaw

open Lib Updates Updates.Proofs.Slot Updates.Proofs.Turns
open Updates.Proofs.Channel Updates.Proofs.Tries Updates.Proofs.Promises

/-! ## The ledger in a turn -/

theorem allows_of_chosen {s : System} {t : Turn} {release : Release}
    (h : automaticRelease s.settings s.available s.upgrade t.moment t.backup s.ledger =
      some release) :
    s.settings.check = true ∧ s.settings.automatic = true ∧
      inWindow s.settings.window t.moment = true ∧
      (s.ledger.entry release.version).allows t.moment = true := by
  unfold automaticRelease at h
  split_ifs at h with hoff hwindow
  split at h
  · exact (nomatch h)
  · split_ifs at h with hclass hallows
    obtain rfl := Option.some.inj h
    simp only [Bool.or_eq_true, Bool.not_eq_true', Bool.and_eq_false_iff, not_or,
      Bool.not_eq_false] at hoff hwindow
    exact ⟨hoff.1.1, hoff.1.2, hwindow, hallows⟩

theorem tries_lt_of_allows {entry : Entry} {moment : Moment} (h : entry.allows moment = true) :
    entry.tries < automaticTries := by
  simp only [Entry.allows, Bool.and_eq_true, Bool.or_eq_true, beq_iff_eq,
    decide_eq_true_eq] at h
  rcases h.2 with hzero | ⟨hlt, -⟩
  · rw [hzero]
    decide
  · exact hlt

theorem unbarred_of_allows {entry : Entry} {moment : Moment} (h : entry.allows moment = true) :
    entry.spent = false ∧ entry.rolledBack = false := by
  simp only [Entry.allows, Bool.and_eq_true, Bool.not_eq_true'] at h
  exact h.1

theorem counted_turned {s : System} {p : Process} {t : Turn} {plan : Plan}
    (h : Turned s p t plan) : Each Counted s plan.acts := by
  cases h with
  | ended => exact counted_plain (plain_updateFinished s p _ _ t)
  | finished => exact counted_plain plain_finish
  | began hupdate hslot hopen hacts =>
      rcases hacts with rfl | rfl
      · exact ⟨trivial, trivial⟩
      · exact ⟨trivial, trivial, trivial⟩
  | drained => exact ⟨trivial, trivial⟩
  | periodic => trivial
  | automatic hupdate hdrain hslot hchosen =>
      exact ⟨tries_lt_of_allows (allows_of_chosen hchosen).2.2.2, trivial⟩

/-! ## What is left after a turn -/

/-- The parts of `after` that the cut does not matter for. -/
theorem after_frame (s : System) (p : Process) (plan : Plan) (cut : Option ℕ) :
    (s.after p plan cut).ledger = (s.perform (cutActs cut plan.acts)).ledger ∧
    (s.after p plan cut).seen = (s.perform (cutActs cut plan.acts)).seen ∧
    (s.after p plan cut).slot = (s.perform (cutActs cut plan.acts)).slot ∧
    (s.after p plan cut).outcome = s.outcome ∧ (s.after p plan cut).lost = s.lost ∧
    (s.after p plan cut).made = s.made ∧
    (s.after p plan cut).back = (s.perform (cutActs cut plan.acts)).back := by
  have hframe := frame_perform s (cutActs cut plan.acts)
  cases cut with
  | none => exact ⟨rfl, rfl, rfl, hframe.outcome, hframe.lost, hframe.made, rfl⟩
  | some k => exact ⟨rfl, rfl, rfl, hframe.outcome, hframe.lost, hframe.made, rfl⟩

theorem ledgers_after {s : System} {p : Process} {t : Turn} {plan : Plan}
    (hledgers : Bounded s → Ledgers s) (h : Turned s p t plan) (cut : Option ℕ) :
    (Bounded (s.after p plan cut) → Ledgers (s.after p plan cut)) ∧
      Grows s (s.after p plan cut) := by
  obtain ⟨hsound, hgrows⟩ := ledgers_performAll ((counted_turned h).cut cut) hledgers
  obtain ⟨hledger, hseen, -, -, -, -, hback⟩ := after_frame s p plan cut
  refine ⟨fun hbound => ?_, ⟨?_, ?_, ?_⟩⟩
  · rw [Bounded, hseen] at hbound
    have hold := hsound hbound
    exact ⟨by rw [hledger, hseen]; exact hold.versions, by rw [hledger, hback]; exact hold.back,
      by rw [hledger]; exact hold.tries⟩
  · rw [hseen]
    exact hgrows.seen
  · rw [Bounded, hseen, hledger]
    exact hgrows.tries
  · rw [Bounded, hseen, hledger]
    exact hgrows.spent

/-- The process after a turn has nothing to link, unless it decided on a try. -/
theorem creating_after {s : System} {p : Process} {t : Turn} {plan : Plan}
    (hcreating : p.creating = none) (h : Turned s p t plan) (cut : Option ℕ) :
    (∀ q, (s.after p plan cut).process = some q → q.creating = none) ∨
      cut = none ∧ ∃ release, p.update = none ∧ s.slot = none ∧
        automaticRelease s.settings s.available s.upgrade t.moment t.backup s.ledger =
          some release ∧
        plan.acts = [.mark release.version (.tried (stamp t.moment))] ∧
        plan.process.creating = some ⟨createRequest s.drawn .apply (some release.version)
          .automatic (stamp t.moment), t.moment, s.settings⟩ ∧ plan.child = none := by
  cases cut with
  | some k =>
      refine .inl fun q hq => ?_
      obtain rfl := Option.some.inj hq
      rfl
  | none =>
      cases h with
      | @ended job ok =>
          obtain ⟨-, -, -, -, -, -, stopping, hafter, -⟩ := @updateFinished_acts s p job ok t
          refine .inl fun q hq => ?_
          obtain rfl := Option.some.inj hq
          rw [hafter]
          exact hcreating
      | finished | began | drained | periodic =>
          refine .inl fun q hq => ?_
          obtain rfl := Option.some.inj hq
          exact hcreating
      | @automatic release hupdate hdrain hslot hchosen =>
          exact .inr ⟨rfl, release, hupdate, hslot, hchosen, rfl, rfl, rfl⟩

theorem isTry_create {id now : ℕ} {version other : String} :
    isTry other (createRequest id .apply (some version) .automatic now) = true ↔
      version = other := by
  simp [isTry, createRequest]

theorem history_after {s : System} {p : Process} {t : Turn} {plan : Plan} (h : History s)
    (hbefore : Bounded s → Ledgers s) (hcreating : p.creating = none)
    (hturned : Turned s p t plan) (cut : Option ℕ) (hbound : Bounded (s.after p plan cut)) :
    History (s.after p plan cut) := by
  obtain ⟨hledgers, hgrows⟩ := ledgers_after hbefore hturned cut
  obtain ⟨hledger, hseen, -, -, -, hmade, -⟩ := after_frame s p plan cut
  have htries : ∀ version, tries (s.after p plan cut) version = tries s version := fun version => by
    rw [tries, tries, hmade]
  rcases creating_after hcreating hturned cut with hnone | ⟨rfl, release, hupdate, hslot, hchosen, hacts, hasked, -⟩
  · refine ⟨hledgers hbound, fun version => ?_, by rw [hmade]; exact h.made, fun q asked hq hasked => ?_⟩
    · rw [htries, pendingTries_of_none hnone, Nat.add_zero]
      have hcounted := h.counted version
      have htried := hgrows.tries hbound version
      omega
    · cases (hnone q hq).symm.trans hasked
  · obtain ⟨hcheck, hautomatic, hwindow, -⟩ := allows_of_chosen hchosen
    refine ⟨hledgers hbound, fun version => ?_, by rw [hmade]; exact h.made, fun q asked hq hasked' => ?_⟩
    · have hcounted := h.counted version
      have hpending : pendingTries (s.after p plan none) version =
          if release.version = version then 1 else 0 := by
        have hprocess' : (s.after p plan none).process.bind Process.creating = some
            ⟨createRequest s.drawn .apply (some release.version) .automatic (stamp t.moment),
              t.moment, s.settings⟩ := hasked
        rw [pendingTries, hprocess', Option.any_some]
        simp only [isTry_create]
      have hentry : (s.after p plan none).ledger.entry version =
          if release.version = version then (Change.tried (stamp t.moment)).of
            (s.ledger.entry release.version) else s.ledger.entry version := by
        rw [Bounded, hseen] at hbound
        rw [hledger]
        simp only [cutActs, hacts] at hbound ⊢
        exact entry_perform_mark h.ledgers hbound version
      rw [htries, hpending, hentry]
      split_ifs with hsame
      · rw [← hsame] at hcounted ⊢
        change _ ≤ (s.ledger.entry release.version).tries + 1
        omega
      · omega
    · obtain rfl := Option.some.inj hq
      obtain rfl := Option.some.inj (hasked.symm.trans hasked')
      exact ⟨hcheck, hautomatic, hwindow, rfl⟩

/-! ## Spending -/

theorem cutActs_cons {cut : Option ℕ} (h : cut ≠ some 0) (act : Act) (acts : List Act) :
    ∃ rest, cutActs cut (act :: acts) = act :: rest := by
  cases cut with
  | none => exact ⟨acts, rfl⟩
  | some k =>
      cases k with
      | zero => exact absurd rfl h
      | succ k => exact ⟨acts.take k, rfl⟩

/-- A cut that lets the first write through leaves the version spent. -/
theorem spent_of_cut {s : System} {rest : List Act} {version : String} {cut : Option ℕ}
    (hcut : cut ≠ some 0) (hcounted : Each Counted s (.mark version .spent :: rest))
    (hledgers : Bounded s → Ledgers s)
    (hbound : Bounded (s.perform (cutActs cut (.mark version .spent :: rest)))) :
    ((s.perform (cutActs cut (.mark version .spent :: rest))).ledger.entry version).spent =
      true := by
  have hcounted' := hcounted.cut cut
  obtain ⟨rest', hrest⟩ := cutActs_cons hcut (.mark version .spent) rest
  rw [hrest] at hbound hcounted' ⊢
  rw [perform_cons] at hbound ⊢
  have hafter : Bounded ((Act.mark version .spent).perform s) →
      Ledgers ((Act.mark version .spent).perform s) := ledgers_perform trivial hledgers
  obtain ⟨-, hgrows⟩ := ledgers_performAll hcounted'.2 hafter
  have hmarked : Bounded ((Act.mark version .spent).perform s) := hgrows.seen.trans hbound
  refine hgrows.spent hbound version ?_
  rw [entry_perform_mark (hledgers ((seen_perform s _).trans hmarked)) hmarked, if_pos rfl]
  rfl

theorem spendActs_owed {request : Request} {result : Option Outcome} {version : String}
    (hkind : request.kind = .apply) (htrigger : request.trigger = .automatic)
    (hversion : request.version = some version)
    (hpassed : (result.any fun value => value.passed) = true) :
    spendActs request result false = [.mark version .spent] := by
  rw [spendActs, spend, if_pos ⟨htrigger, hkind, rfl, hpassed⟩, hversion]
  rfl

theorem owed_of_mem {s : System} {run : ℕ} {version : String} (hmem : (run, version) ∈ s.lost)
    (h : Owed s run version) : owed s = true := by
  obtain ⟨request, hslot, hid, hstate, -⟩ := h
  rw [owed, hslot, Option.any_some, hstate, decide_eq_true rfl, Bool.true_and, List.any_eq_true]
  exact ⟨_, hmem, decide_eq_true hid.symm⟩

/-- Where no lost try is owed, every lost try is spent. -/
theorem spent_of_not_owed {s : System} (h : Barred s) (howed : owed s = false) :
    ∀ run version, (run, version) ∈ s.lost → (s.ledger.entry version).spent = true := by
  intro run version hmem
  rcases h.lost run version hmem with hspent | hnot
  · exact hspent
  · exact absurd ((owed_of_mem hmem hnot).symm.trans howed) nofun

/-- A turn that goes through `spend` leaves every lost try spent. -/
theorem spent_after {s : System} {p : Process} {t : Turn} {plan : Plan} {cut : Option ℕ}
    (hcore : Core s) (h : Barred s) (hledgers : Bounded s → Ledgers s)
    (hprocess : s.process = some p) (hserving : p.serving = true) (hturned : Turned s p t plan)
    (hspends : spends s (.turn t cut) = true) (hbound : Bounded (s.after p plan cut)) :
    ∀ run version, (run, version) ∈ s.lost →
      ((s.after p plan cut).ledger.entry version).spent = true := by
  intro run version hmem
  have hgrows := (ledgers_after hledgers hturned cut).2
  cases howed : owed s with
  | false => exact hgrows.spent hbound version (spent_of_not_owed h howed run version hmem)
  | true =>
      simp only [spends, hprocess, hserving, howed, Bool.and_self, Bool.not_true, Bool.false_or,
        Bool.and_eq_true, bne_iff_ne, ne_eq] at hspends
      obtain ⟨hupdate, hcut⟩ := hspends
      obtain ⟨job, hjob, hmoved⟩ := (Option.any_eq_true _ _).mp hupdate
      rcases h.lost run version hmem with hspent |
        ⟨request, hslot, hid, hstate, hkind, htrigger, hversion, hpassed⟩
      · exact hgrows.spent hbound version hspent
      · obtain ⟨-, hown, hnone⟩ := hcore.memory.job p job hprocess hjob
        have hrequest : job.request = some request := by
          cases hrequest : job.request with
          | none =>
              have hasked := (hnone hrequest).2 request hslot
              exact (nomatch hstate.symm.trans hasked)
          | some own => rw [Option.some.inj (hslot.symm.trans (hown own hrequest).1)]
        obtain ⟨-, -, hrun, hjobKind⟩ := hown request hrequest
        cases hturned with
        | @ended job' ok hupdate' hstatus =>
            obtain rfl := Option.some.inj (hjob.symm.trans hupdate')
            obtain ⟨child, hchild, hok⟩ := Option.bind_eq_some_iff.mp hstatus
            have hfalse := (h.child child hchild).1 _ hmem
              (hid.symm.trans (run_of_running hcore.memory hchild hslot hstate).symm)
            obtain rfl : ok = false := Option.some.inj (hok.symm.trans hfalse)
            have hcompleted : s.completed p job false = false := by
              rw [System.completed, Bool.false_or]
              simpa using hmoved
            have hacts : ∃ rest, (updateFinished s p job false t).acts =
                .mark version .spent :: rest := by
              unfold updateFinished
              rw [hjobKind, hkind]
              simp only [hcompleted, hrequest, Option.toList_some, List.map_cons, List.map_nil,
                List.flatten_cons, List.flatten_nil, List.append_nil, hrun]
              rw [hid, spendActs_owed hkind htrigger hversion hpassed]
              exact ⟨_, rfl⟩
            obtain ⟨rest, hrest⟩ := hacts
            obtain ⟨hledger, hseen, -⟩ := after_frame s p (updateFinished s p job false t) cut
            have hcounted : Each Counted s (updateFinished s p job false t).acts :=
              counted_plain (plain_updateFinished s p job false t)
            rw [Bounded, hseen] at hbound
            rw [hledger]
            rw [hrest] at hbound hcounted ⊢
            exact spent_of_cut hcut hcounted hledgers hbound
        | finished hnone' => exact (nomatch hjob.symm.trans hnone')
        | began hnone' => exact (nomatch hjob.symm.trans hnone')
        | drained hnone' => exact (nomatch hjob.symm.trans hnone')
        | periodic hnone' => exact (nomatch hjob.symm.trans hnone')
        | automatic hnone' => exact (nomatch hjob.symm.trans hnone')

/-! ## Requests that nobody picked up -/

/-- A write that leaves no request for a later turn to pick up. -/
def Unasked : Act → Prop
  | .slot request => request.state ≠ .requested
  | _ => True

theorem requested_perform {s : System} {acts : List Act} (h : ∀ act ∈ acts, Unasked act)
    {request : Request} (hslot : (s.perform acts).slot = some request)
    (hstate : request.state = .requested) : s.slot = some request := by
  induction acts generalizing s with
  | nil => exact hslot
  | cons act acts ih =>
      have hrest := ih (fun a ha => h a (List.mem_cons_of_mem _ ha)) hslot
      have hact := h act List.mem_cons_self
      cases act with
      | slot written =>
          obtain rfl := Option.some.inj hrest
          exact absurd hstate hact
      | unlink => exact (nomatch hrest)
      | last | mark | told | upgrade | checkout | aside | current => exact hrest

theorem unasked_free {acts : List Act} (h : ∀ act ∈ acts, Act.free act) :
    ∀ act ∈ acts, Unasked act := by
  intro act hmem
  have hfree := h act hmem
  cases act with
  | slot | last | unlink => exact absurd hfree id
  | mark | told | upgrade | checkout | aside | current => trivial

theorem unasked_finish {slot : Option Request} {request : Request} {state : Progress}
    (hfinal : state.final = true) {detail : Option String} {moment : Moment} :
    ∀ act ∈ finishRequest slot request state detail moment, Unasked act := by
  intro act hmem
  unfold finishRequest at hmem
  split at hmem
  · simp only [List.mem_cons, List.not_mem_nil, or_false] at hmem
    rcases hmem with rfl | rfl | rfl
    · rintro rfl
      exact (nomatch hfinal)
    · trivial
    · trivial
  · rw [List.mem_singleton.mp hmem]
    trivial

theorem unasked_turned {s : System} {p : Process} {t : Turn} {plan : Plan}
    (h : Turned s p t plan) : ∀ act ∈ plan.acts, Unasked act := by
  cases h with
  | @ended job ok =>
      obtain ⟨before, state, detail, hfree, hfinal, hacts, -⟩ := @updateFinished_acts s p job ok t
      intro act hmem
      rw [hacts] at hmem
      rcases List.mem_append.mp hmem with hmem | hmem
      · exact unasked_free hfree act hmem
      · unfold finishJob at hmem
        split at hmem
        · exact absurd hmem List.not_mem_nil
        · exact unasked_finish hfinal act hmem
  | finished hupdate hslot hfinal => exact unasked_finish hfinal
  | began hupdate hslot hopen hacts =>
      intro act hmem
      rcases hacts with rfl | rfl
      · rw [List.mem_singleton.mp hmem]
        exact fun hstate => (nomatch hstate)
      · simp only [List.mem_cons, List.not_mem_nil, or_false, or_self] at hmem
        rw [hmem]
        exact fun hstate => (nomatch hstate)
  | drained =>
      intro act hmem
      rw [List.mem_singleton.mp hmem]
      exact fun hstate => (nomatch hstate)
  | periodic => exact fun act hmem => absurd hmem List.not_mem_nil
  | automatic =>
      intro act hmem
      rw [List.mem_singleton.mp hmem]
      trivial

theorem mem_cutActs {cut : Option ℕ} {acts : List Act} {act : Act} (h : act ∈ cutActs cut acts) :
    act ∈ acts := by
  cases cut with
  | none => exact h
  | some k => exact List.mem_of_mem_take h

/-! ## The steps -/

theorem barred_after {s : System} {p : Process} {t : Turn} {plan : Plan} {cut : Option ℕ}
    (hcore : Core s) (h : Barred s) (hledgers : Bounded s → Ledgers s)
    (hprocess : s.process = some p) (hserving : p.serving = true) (hcreating : p.creating = none)
    (hturned : Turned s p t plan) (hspends : spends s (.turn t cut) = true)
    (hbound : Bounded (s.after p plan cut)) : Barred (s.after p plan cut) := by
  have hspent := spent_after hcore h hledgers hprocess hserving hturned hspends hbound
  have hgrows := (ledgers_after hledgers hturned cut).2
  obtain ⟨-, -, hslot', houtcome, hlost, hmade, hback⟩ := after_frame s p plan cut
  -- a new child works for a request without a lost try
  have hnotOwed : p.update = none → owed s = false := by
    intro hnone
    cases howed : owed s with
    | false => rfl
    | true =>
        simp [spends, hprocess, hserving, howed, hnone] at hspends
  have hchild : ∀ child, (s.after p plan cut).child = some child → child.passed = false ∧
      ∀ lost ∈ s.lost, lost.1 ≠ child.run := by
    intro child hchild
    cases cut with
    | some k => exact (nomatch hchild)
    | none =>
        cases hturned with
        | @ended job ok =>
            obtain ⟨-, -, -, -, -, -, -, -, hnone⟩ := @updateFinished_acts s p job ok t
            exact (nomatch hnone.symm.trans hchild)
        | finished => exact (nomatch hchild)
        | drained => exact (nomatch hchild)
        | automatic => exact (nomatch hchild)
        | @began request release acts hupdate hslot hopen =>
            obtain rfl := Option.some.inj hchild
            refine ⟨rfl, fun lost hmem heq => ?_⟩
            cases hstate : request.state with
            | requested => exact h.slot request hslot hstate lost hmem heq
            | running =>
                rcases h.lost lost.1 lost.2 hmem with hold | howed
                · have hno := hnotOwed hupdate
                  rw [owed, hslot, Option.any_some, hstate, decide_eq_true rfl, Bool.true_and,
                    List.any_eq_false] at hno
                  exact hno lost hmem (decide_eq_true heq)
                · exact absurd ((owed_of_mem hmem howed).symm.trans (hnotOwed hupdate)) nofun
            | done => rw [hstate] at hopen; exact (nomatch hopen)
            | failed => rw [hstate] at hopen; exact (nomatch hopen)
        | periodic =>
            obtain rfl := Option.some.inj hchild
            refine ⟨rfl, fun lost hmem heq => ?_⟩
            obtain ⟨made, hm, hid⟩ := h.linked lost hmem
            exact absurd (hid.trans heq) (hcore.slots.below made hm).ne
  refine ⟨fun run version hmem => ?_, ?_, fun request hslot hstate => ?_, fun child hnew => ⟨?_, ?_⟩,
    fun q asked hq hasked version htry => ?_, ?_⟩
  · rw [hlost] at hmem
    exact .inl (hspent run version hmem)
  · rw [hlost, hmade]
    exact h.linked
  · rw [hslot'] at hslot
    rw [hlost]
    exact h.slot request (requested_perform (fun act hact =>
      unasked_turned hturned act (mem_cutActs hact)) hslot hstate) hstate
  · rw [hlost]
    exact fun lost hmem heq => absurd heq ((hchild child hnew).2 lost hmem)
  · intro hpassed
    exact (nomatch (hchild child hnew).1.symm.trans hpassed)
  · rcases creating_after hcreating hturned cut with hnone |
      ⟨rfl, release, hupdate, hslot, hchosen, hacts, hplanned, -⟩
    · exact (nomatch (hnone q hq).symm.trans hasked)
    · obtain rfl := Option.some.inj hq
      obtain rfl := Option.some.inj (hplanned.symm.trans hasked)
      obtain rfl := isTry_create.mp htry
      have hbefore := hledgers (hgrows.seen.trans hbound)
      obtain ⟨hfresh, hforward⟩ := unbarred_of_allows (allows_of_chosen hchosen).2.2.2
      rw [hlost]
      refine ⟨fun hmem => ?_, fun hmem => ?_⟩
      · obtain ⟨⟨run, other⟩, hlostMem, hother⟩ := List.mem_map.mp hmem
        have hold := spent_of_not_owed h (hnotOwed hupdate) run other hlostMem
        rw [show other = release.version from hother] at hold
        exact (nomatch hold.symm.trans hfresh)
      · have hsame : (s.after p plan none).back = s.back := by
          rw [hback]
          simp only [cutActs, hacts]
          rfl
        rw [hsame] at hmem
        exact (nomatch (hbefore.back _ hmem).symm.trans hforward)
  · unfold NeverAgain
    rw [hmade]
    exact h.made

/-- The start that settles: its writes, then the console. -/
theorem barred_settle {s : System} {p : Process} {moment : Moment} {cut : Option ℕ}
    (hcore : Core s) (h : Barred s) (hledgers : Bounded s → Ledgers s)
    (hprocess : s.process = some p) (hserving : p.serving = false)
    (hspends : spends s (.settle moment cut) = true)
    (hbound : Bounded (s.perform (cutActs cut (settle s moment)))) :
    Barred { s.perform (cutActs cut (settle s moment)) with
      process := some { p with serving := true } } := by
  have hcounted : Each Counted s (settle s moment) := counted_plain (plain_settle s moment)
  obtain ⟨-, hgrows⟩ := ledgers_performAll (hcounted.cut cut) hledgers
  have hframe := frame_perform s (cutActs cut (settle s moment))
  have hunasked : ∀ act ∈ settle s moment, Unasked act := by
    intro act hmem
    unfold settle at hmem
    split at hmem
    · exact absurd hmem List.not_mem_nil
    · split_ifs at hmem with hfinal
      · exact unasked_finish hfinal act hmem
      · exact unasked_finish rfl act hmem
      · rcases List.mem_append.mp hmem with hmem | hmem
        · exact unasked_free free_spend act hmem
        · exact unasked_finish rfl act hmem
      · exact unasked_finish rfl act hmem
      · exact absurd hmem List.not_mem_nil
  have hspent : ∀ run version, (run, version) ∈ s.lost →
      ((s.perform (cutActs cut (settle s moment))).ledger.entry version).spent = true := by
    intro run version hmem
    cases howed : owed s with
    | false => exact hgrows.spent hbound version (spent_of_not_owed h howed run version hmem)
    | true =>
        simp only [spends, howed, Bool.not_true, Bool.false_or, Bool.and_eq_true, bne_iff_ne,
          ne_eq] at hspends
        obtain ⟨hprogressed, hcut⟩ := hspends
        rcases h.lost run version hmem with hold |
          ⟨request, hslot, hid, hstate, hkind, htrigger, hversion, hpassed⟩
        · exact hgrows.spent hbound version hold
        · rw [hslot, Option.all_some, Bool.not_eq_true'] at hprogressed
          have hopen : ¬ request.state.final = true := by rw [hstate]; exact Bool.false_ne_true
          have hacts : settle s moment = .mark version .spent ::
              finishRequest s.slot request .failed (some Messages.interrupted) moment := by
            simp only [settle, hslot]
            rw [if_neg hopen, if_pos hstate, hprogressed, if_neg Bool.false_ne_true, hid,
              spendActs_owed hkind htrigger hversion hpassed]
            rfl
          rw [hacts] at hbound hcounted ⊢
          exact spent_of_cut hcut hcounted hledgers hbound
  have hchild : s.child = none := by
    cases hchild : s.child with
    | none => rfl
    | some child =>
        obtain ⟨q, job, hq, hjob, -⟩ := hcore.memory.child child hchild
        obtain rfl := Option.some.inj (hprocess.symm.trans hq)
        exact (nomatch (hcore.memory.idle p hprocess hserving).1.symm.trans hjob)
  refine ⟨fun run version hmem => .inl (hspent run version (hframe.lost ▸ hmem)), ?_,
    fun request hslot hstate lost hmem => ?_, fun child hnew => ?_, ?_, ?_⟩
  · rw [show ({ s.perform (cutActs cut (settle s moment)) with
      process := some { p with serving := true } } : System).lost = s.lost from hframe.lost]
    change ∀ lost ∈ s.lost, ∃ made ∈ (s.perform (cutActs cut (settle s moment))).made, _
    rw [hframe.made]
    exact h.linked
  · exact h.slot request (requested_perform (fun act hact => hunasked act (mem_cutActs hact))
      hslot hstate) hstate lost (hframe.lost ▸ hmem)
  · exact (nomatch (hframe.child.trans hchild).symm.trans hnew)
  · rintro q asked ⟨⟩ hasked
    have hbusy := (hcore.memory.creating p asked hprocess hasked).2.2.1
    exact (nomatch hserving.symm.trans hbusy)
  · have hmade : ∀ made ∈ (s.perform (cutActs cut (settle s moment))).made, made ∈ s.made := by
      rw [hframe.made]
      exact fun _ => id
    exact fun made hmem => h.made made (hmade made hmem)

/-- A link of a request that is allowed where it comes. -/
theorem barred_link {s : System} {asked : Asked} (h : Barred s)
    (hnew : ∀ made ∈ s.made, Made.id made ≠ asked.request.id)
    (hallowed : ∀ version, isTry version asked.request = true →
      version ∉ s.lost.map Prod.snd ∧ version ∉ s.back) : Barred (s.link asked) := by
  rcases Option.eq_none_or_eq_some s.slot with hslot | ⟨request, hslot⟩
  · rw [link_free hslot]
    refine ⟨fun run version hmem => ?_, fun lost hmem => ?_, ?_, h.child, h.creating, ?_⟩
    · rcases h.lost run version hmem with hspent | ⟨own, hown, -⟩
      · exact .inl hspent
      · exact (nomatch hslot.symm.trans hown)
    · obtain ⟨made, hmade, hid⟩ := h.linked lost hmem
      exact ⟨made, List.mem_cons_of_mem _ hmade, hid⟩
    · rintro _ ⟨⟩ - lost hmem heq
      obtain ⟨made, hmade, hid⟩ := h.linked lost hmem
      exact hnew made hmade (hid.trans heq)
    · intro made hmade version htry
      rcases List.mem_cons.mp hmade with rfl | hmade
      · exact hallowed version htry
      · exact h.made made hmade version htry
  · rwa [link_taken hslot]

/-! ## Every event -/

/-- Every event but seven leaves the requests alone. -/
def Event.quiet : Event → Bool
  | .turn .. | .settle .. | .create | .link _ | .child _ | .killed | .failedStart .. => false
  | _ => true

theorem creating_none {s : System} (hcore : Core s) {p : Process} (hprocess : s.process = some p)
    (h : p.serving = false ∨ p.gated = true) :
    ∀ q, s.process = some q → q.creating = none := by
  intro q hq
  obtain rfl := Option.some.inj (hprocess.symm.trans hq)
  cases hasked : p.creating with
  | none => rfl
  | some asked =>
      obtain ⟨-, -, hserving, hgated, -⟩ := hcore.memory.creating p asked hprocess hasked
      rcases h with hnot | hnot
      · exact (nomatch hserving.symm.trans hnot)
      · exact (nomatch hgated.symm.trans hnot)

theorem still_refl (s : System) : Still s s :=
  ⟨Grows.refl s, rfl, rfl, rfl, rfl, .inl rfl, fun p hp => .inr ⟨rfl, p, hp, rfl⟩⟩

/-- A quiet event leaves the requests alone and the ledger sound. -/
theorem still_step {s : System} {event : Event} (hcore : Core s) (hledgers : Bounded s → Ledgers s)
    (hquiet : Event.quiet event = true) :
    Still s (step s event) ∧ (Bounded (step s event) → Ledgers (step s event)) := by
  have hidle : Still s s ∧ (Bounded s → Ledgers s) := ⟨still_refl s, hledgers⟩
  have hsame : ∀ s' : System, s'.ledger = s.ledger → s'.seen = s.seen → s'.back = s.back →
      Bounded s' → Ledgers s' := by
    intro s' hledger hseen hback hbound
    rw [Bounded, hseen] at hbound
    have hold := hledgers hbound
    exact ⟨by rw [hledger, hseen]; exact hold.versions, by rw [hledger, hback]; exact hold.back,
      by rw [hledger]; exact hold.tries⟩
  cases event with
  | turn | settle | create | link | child | killed | failedStart => exact (nomatch hquiet)
  | start decision =>
      rcases hprocess : s.process with _ | p
      · have hstep : step s (.start decision) = s.start decision := by simp only [step, hprocess]
        rw [hstep]
        refine ⟨⟨Grows.of_eq rfl rfl, rfl, rfl, rfl, rfl, .inl rfl, fun q hq => .inl ?_⟩,
          hsame _ rfl rfl rfl⟩
        simp only [System.start] at hq
        split_ifs at hq
        obtain rfl := Option.some.inj hq
        rfl
      · have hstep : step s (.start decision) = s := by simp only [step, hprocess]
        rwa [hstep]
  | notices cut =>
      rcases hprocess : s.process with _ | p
      · have hstep : step s (.notices cut) = s := by simp only [step, hprocess]
        rwa [hstep]
      · by_cases hserving : p.serving = true
        · have hstep : step s (.notices cut) = s := by simp only [step, hprocess, hserving, if_true]
          rwa [hstep]
        · have hstep : step s (.notices cut) = s.perform (cutActs cut (upgradeNotices s)) := by
            simp only [step, hprocess, if_neg hserving]
          rw [hstep]
          have hcounted := (counted_notices hledgers).cut cut
          exact ⟨still_perform hcounted hledgers (free_cut (free_notices s) cut)
            (creating_none hcore hprocess (.inl (by simpa using hserving))),
            (ledgers_performAll hcounted hledgers).1⟩
  | confirmed cut =>
      rcases hprocess : s.process with _ | p
      · have hstep : step s (.confirmed cut) = s := by simp only [step, hprocess]
        rwa [hstep]
      · by_cases hgated : p.gated = true
        · have hstep : step s (.confirmed cut) =
              { s.perform (cutActs cut (confirmActs s)) with
                process := some { p with gated := cut.isSome } } := by
            simp only [step, hprocess, hgated, if_true]
          rw [hstep]
          have hcounted := (counted_confirm hledgers).cut cut
          have hnone := creating_none hcore hprocess (.inr hgated)
          have hstill := still_perform hcounted hledgers (free_cut (free_confirm s) cut) hnone
          obtain ⟨hsound, -⟩ := ledgers_performAll hcounted hledgers
          refine ⟨⟨⟨hstill.grows.seen, hstill.grows.tries, hstill.grows.spent⟩, hstill.slot,
            hstill.outcome, hstill.lost, hstill.made, hstill.child, fun q hq => .inl ?_⟩,
            fun hbound => ?_⟩
          · obtain rfl := Option.some.inj hq
            exact hnone p hprocess
          · have hold := hsound hbound
            exact ⟨hold.versions, hold.back, hold.tries⟩
        · have hstep : step s (.confirmed cut) = s := by simp only [step, hprocess, if_neg hgated]
          rwa [hstep]
  | publish running refusal blockers cut =>
      rcases hprocess : s.process with _ | p
      · have hstep : step s (.publish running refusal blockers cut) = s := by
          simp only [step, hprocess]
        rwa [hstep]
      · have hstep : ∃ acts : List Act, (∀ act ∈ acts, act = .aside ∨ ∃ record, act = .current record) ∧
            step s (.publish running refusal blockers cut) = s.perform acts := by
          simp only [step, hprocess]
          refine ⟨_, fun act hmem => ?_, rfl⟩
          rcases List.mem_append.mp (mem_cutActs hmem) with hmem | hmem
          · split_ifs at hmem
            · exact absurd hmem List.not_mem_nil
            · exact .inl (List.mem_singleton.mp hmem)
          · exact .inr ⟨_, List.mem_singleton.mp hmem⟩
        obtain ⟨acts, hacts, hstep⟩ := hstep
        rw [hstep]
        have hparts : ∀ acts : List Act, (∀ act ∈ acts, act = .aside ∨ ∃ record, act = .current record) →
            ∀ s : System, (s.perform acts).ledger = s.ledger ∧ (s.perform acts).seen = s.seen ∧
              (s.perform acts).back = s.back ∧ (s.perform acts).slot = s.slot := by
          intro acts
          induction acts with
          | nil => exact fun _ s => ⟨rfl, rfl, rfl, rfl⟩
          | cons act acts ih =>
              intro hall s
              obtain ⟨hl, hs, hb, hslot⟩ := ih (fun a ha => hall a (List.mem_cons_of_mem _ ha))
                (act.perform s)
              rcases hall act List.mem_cons_self with rfl | ⟨record, rfl⟩
              · exact ⟨hl, hs, hb, hslot⟩
              · exact ⟨hl, hs, hb, hslot⟩
        obtain ⟨hl, hs, hb, hslot⟩ := hparts acts hacts s
        have hframe := frame_perform s acts
        refine ⟨⟨Grows.of_eq hl hs, hslot, hframe.outcome, hframe.lost, hframe.made,
          .inl hframe.child, fun q hq => .inr ⟨hb, q, ?_, rfl⟩⟩, hsame _ hl hs hb⟩
        rw [← hframe.process]
        exact hq
  | ask kind version acknowledged now =>
      rcases hprocess : s.process with _ | p
      · have hstep : step s (.ask kind version acknowledged now) = s := by
          simp only [step, hprocess]
        rwa [hstep]
      · simp only [step, hprocess]
        split_ifs
        · exact hidle
        · split
          · exact hidle
          · exact ⟨⟨Grows.of_eq rfl rfl, rfl, rfl, rfl, rfl, .inl rfl,
              fun q hq => .inr ⟨rfl, q, by rw [← hq, ← hprocess], rfl⟩⟩, hsame _ rfl rfl rfl⟩
  | saveSettings settings =>
      rcases hprocess : s.process with _ | p
      · have hstep : step s (.saveSettings settings) = s := by simp only [step, hprocess]
        rwa [hstep]
      · simp only [step, hprocess]
        split_ifs
        · exact ⟨⟨Grows.of_eq rfl rfl, rfl, rfl, rfl, rfl, .inl rfl,
            fun q hq => .inr ⟨rfl, q, by rw [← hq, ← hprocess], rfl⟩⟩, hsame _ rfl rfl rfl⟩
        · exact hidle
  | commandLine record commit =>
      simp only [step]
      split_ifs
      · exact hidle
      · exact ⟨⟨Grows.of_eq rfl rfl, rfl, rfl, rfl, rfl, .inl rfl,
          fun q hq => .inr ⟨rfl, q, hq, rfl⟩⟩, hsame _ rfl rfl rfl⟩

theorem waits_none {s s' : System} (h : ∀ p, s'.process = some p → p.creating = none) :
    Waits s s' := fun p hp => .inl (h p hp)

theorem tries_link {s : System} (asked : Asked) (hslot : s.slot = none) (version : String) :
    tries (s.link asked) version =
      tries s version + if isTry version asked.request = true then 1 else 0 := by
  rw [link_free hslot, tries, tries, List.countP_cons]

/-- The link of a counted try. -/
theorem history_create {s : System} {p : Process} {asked : Asked} (h : History s)
    (hprocess : s.process = some p) (hcreating : p.creating = some asked) :
    History ({ s with process := some { p with creating := none } }.link asked) := by
  have hpending : ∀ version, pendingTries s version =
      if isTry version asked.request = true then 1 else 0 := fun version => by
    rw [pendingTries, hprocess, Option.bind_some, hcreating, Option.any_some]
  have hnone : ∀ s' : System, s'.process = some { p with creating := none } →
      ∀ version, pendingTries s' version = 0 := fun s' hs' => pendingTries_of_none fun q hq => by
    obtain rfl := Option.some.inj (hs'.symm.trans hq)
    rfl
  have htimely := h.creating p asked hprocess hcreating
  have hempty : ∀ q other, some { p with creating := none } = some q → q.creating = some other →
      Timely other := by
    rintro q other ⟨⟩ hother
    cases hother
  rcases Option.eq_none_or_eq_some s.slot with hslot | ⟨request, hslot⟩
  · refine ⟨?_, fun version => ?_, ?_, ?_⟩
    · rw [link_free (s := { s with process := some { p with creating := none } }) hslot]
      exact ⟨h.ledgers.versions, h.ledgers.back, h.ledgers.tries⟩
    · have hcounted := h.counted version
      rw [hpending] at hcounted
      rw [tries_link (s := { s with process := some { p with creating := none } }) asked hslot,
        link_free (s := { s with process := some { p with creating := none } }) hslot,
        hnone _ rfl, Nat.add_zero]
      exact hcounted
    · rw [link_free (s := { s with process := some { p with creating := none } }) hslot]
      intro made hmade htrigger
      rcases List.mem_cons.mp hmade with rfl | hmade
      · exact htimely
      · exact h.made made hmade htrigger
    · rw [link_free (s := { s with process := some { p with creating := none } }) hslot]
      exact hempty
  · rw [link_taken (s := { s with process := some { p with creating := none } }) hslot]
    refine ⟨⟨h.ledgers.versions, h.ledgers.back, h.ledgers.tries⟩, fun version => ?_, h.made, hempty⟩
    have hcounted := h.counted version
    rw [hnone _ rfl, Nat.add_zero]
    exact (Nat.le_add_right _ _).trans hcounted

/-- The link of a request of the console is no try. -/
theorem history_link {s : System} {asked : Asked} (h : History s)
    (hconsole : asked.request.trigger = .console) : History (s.link asked) := by
  rcases Option.eq_none_or_eq_some s.slot with hslot | ⟨request, hslot⟩
  · refine ⟨?_, fun version => ?_, ?_, ?_⟩
    · rw [link_free hslot]
      exact ⟨h.ledgers.versions, h.ledgers.back, h.ledgers.tries⟩
    · have hno : isTry version asked.request = false := by rw [isTry, hconsole]; rfl
      rw [tries_link asked hslot, hno, if_neg Bool.false_ne_true, Nat.add_zero, link_free hslot]
      exact h.counted version
    · rw [link_free hslot]
      intro made hmade htrigger
      rcases List.mem_cons.mp hmade with rfl | hmade
      · exact (nomatch hconsole.symm.trans htrigger)
      · exact h.made made hmade htrigger
    · rw [link_free hslot]
      exact h.creating
  · rwa [link_taken hslot]

/-- What holds in every reachable state: the history while no version was dropped, and
the barred versions while every lost try goes through `spend`. -/
structure Invariant (barred : Bool) (s : System) : Prop where
  core : Core s
  history : Bounded s → History s
  barred : barred = true → Bounded s → Barred s

theorem Invariant.ledgers {barred : Bool} {s : System} (h : Invariant barred s) :
    Bounded s → Ledgers s := fun hbound => (h.history hbound).ledgers

theorem bounded_of_grows {s s' : System} (h : Grows s s') (hbound : Bounded s') : Bounded s :=
  h.seen.trans hbound

/-- An event that only ends processes after writes without requests. -/
theorem invariant_stop {barred : Bool} {s s' : System} (h : Invariant barred s) (hcore : Core s')
    (hgrows : Grows s s') (hledgers : Bounded s' → Ledgers s') (hmade : s'.made = s.made)
    (hbarred : barred = true → Bounded s' → Barred s') : Invariant barred s'.stop where
  core := core_stop hcore
  history hbound := by
    have hold := hledgers hbound
    exact history_of_made (h.history (bounded_of_grows hgrows hbound))
      ⟨hgrows.seen, hgrows.tries, hgrows.spent⟩ hmade (waits_none fun _ hnone => (nomatch hnone))
      hbound ⟨hold.versions, hold.back, hold.tries⟩
  barred hb hbound := barred_stop hcore (hbarred hb hbound)

theorem invariant_step {barred : Bool} (s : System) (event : Event)
    (hspends : barred = true → spends s event = true) (h : Invariant barred s) :
    Invariant barred (step s event) := by
  have hcore := core_step s event h.core
  by_cases hquiet : Event.quiet event = true
  · obtain ⟨hstill, hledgers⟩ := still_step h.core h.ledgers hquiet
    refine ⟨hcore, fun hbound => ?_, fun hb hbound => ?_⟩
    · exact history_of_made (h.history (bounded_of_grows hstill.grows hbound)) hstill.grows
        hstill.made hstill.waits hbound (hledgers hbound)
    · exact barred_still (h.barred hb (bounded_of_grows hstill.grows hbound)) hstill hbound
  · rcases hprocess : s.process with _ | p
    · have hstep : step s event = s := by
        cases event with
        | turn | settle | create | link | child | killed | failedStart =>
            simp only [step, hprocess]
        | start | notices | confirmed | publish | ask | saveSettings | commandLine =>
            exact absurd rfl hquiet
      rwa [hstep]
    · cases event with
      | start | notices | confirmed | publish | ask | saveSettings | commandLine =>
          exact absurd rfl hquiet
      | turn t cut =>
          have hstep : step s (.turn t cut) = s.turn p t cut := by simp only [step, hprocess]
          rw [hstep] at hcore ⊢
          by_cases hready : p.serving = false ∨ p.gated = true ∨ p.stopping = true ∨
              p.creating.isSome = true
          · rwa [System.turn, if_pos hready]
          · have hturn : s.turn p t cut = _ := if_neg hready
            simp only [not_or, Bool.not_eq_false, Bool.not_eq_true, Option.isSome_eq_false_iff,
              Option.isNone_iff_eq_none] at hready
            obtain ⟨hserving, hgated, -, hcreating⟩ := hready
            cases hplan : scheduleUpdates s p t with
            | none =>
                rw [hplan] at hturn
                rwa [hturn]
            | some plan =>
                rw [hplan] at hturn
                rw [hturn] at hcore ⊢
                have hturned := turned h.core.memory hprocess hplan
                have hgrows := (ledgers_after h.ledgers hturned cut).2
                exact ⟨hcore, fun hbound =>
                  history_after (h.history (bounded_of_grows hgrows hbound)) h.ledgers hcreating
                    hturned cut hbound, fun hb hbound =>
                  barred_after h.core (h.barred hb (bounded_of_grows hgrows hbound)) h.ledgers
                    hprocess hserving hcreating hturned (hspends hb) hbound⟩
      | settle moment cut =>
          by_cases hserving : p.serving = true
          · have hstep : step s (.settle moment cut) = s := by
              simp only [step, hprocess, hserving, if_true]
            rwa [hstep]
          · have hstep : step s (.settle moment cut) =
                { s.perform (cutActs cut (settle s moment)) with
                  process := some { p with serving := true } } := by
              simp only [step, hprocess, if_neg hserving]
            rw [hstep] at hcore ⊢
            have hnot : p.serving = false := by simpa using hserving
            have hcounted : Each Counted s (settle s moment) := counted_plain (plain_settle s moment)
            obtain ⟨hledgers, hgrows⟩ := ledgers_performAll (hcounted.cut cut) h.ledgers
            have hnone := creating_none h.core hprocess (.inl hnot) p hprocess
            refine ⟨hcore, fun hbound => ?_, fun hb hbound => ?_⟩
            · have hold := hledgers hbound
              exact history_of_made (h.history (bounded_of_grows hgrows hbound))
                ⟨hgrows.seen, hgrows.tries, hgrows.spent⟩ (frame_perform s _).made
                (waits_none fun q hq => by
                  obtain rfl := Option.some.inj hq
                  exact hnone) hbound ⟨hold.versions, hold.back, hold.tries⟩
            · exact barred_settle h.core (h.barred hb (bounded_of_grows hgrows hbound)) h.ledgers
                hprocess hnot (hspends hb) hbound
      | create =>
          cases hcreating : p.creating with
          | none =>
              have hstep : step s .create = s := by simp only [step, hprocess, hcreating]
              rwa [hstep]
          | some asked =>
              have hstep : step s .create =
                  { s with process := some { p with creating := none } }.link asked := by
                simp only [step, hprocess, hcreating]
              rw [hstep] at hcore ⊢
              have hseen : ({ s with process := some { p with creating := none } }.link asked).seen =
                  s.seen := by
                rcases Option.eq_none_or_eq_some s.slot with hslot | ⟨request, hslot⟩
                · rw [link_free (s := { s with process := some { p with creating := none } }) hslot]
                · rw [link_taken (s := { s with process := some { p with creating := none } }) hslot]
              have hsame : Bounded ({ s with process := some { p with creating := none } }.link asked) →
                  Bounded s := fun hbound => by rwa [Bounded, hseen] at hbound
              refine ⟨hcore, fun hbound => history_create (h.history (hsame hbound)) hprocess hcreating,
                fun hb hbound => ?_⟩
              have hbarred := h.barred hb (hsame hbound)
              obtain ⟨hunused, -⟩ := h.core.fresh.creating p asked hprocess hcreating
              refine barred_link ⟨hbarred.lost, hbarred.linked, hbarred.slot, hbarred.child, ?_,
                hbarred.made⟩ hunused.2 (hbarred.creating p asked hprocess hcreating)
              rintro q other ⟨⟩ hother
              cases hother
      | link request =>
          by_cases hmem : request ∈ s.asking
          · have hstep : step s (.link request) =
                { s with asking := s.asking.erase request }.link ⟨request, ⟨0, 0⟩, s.settings⟩ := by
              simp only [step, hprocess, if_pos hmem]
            rw [hstep] at hcore ⊢
            obtain ⟨hunused, htrigger, -⟩ := h.core.fresh.asking request hmem
            have hseen : ({ s with asking := s.asking.erase request }.link
                ⟨request, ⟨0, 0⟩, s.settings⟩).seen = s.seen := by
              rcases Option.eq_none_or_eq_some s.slot with hslot | ⟨held, hslot⟩
              · rw [link_free (s := { s with asking := s.asking.erase request }) hslot]
              · rw [link_taken (s := { s with asking := s.asking.erase request }) hslot]
            have hsame : Bounded ({ s with asking := s.asking.erase request }.link
                ⟨request, ⟨0, 0⟩, s.settings⟩) → Bounded s :=
              fun hbound => by rwa [Bounded, hseen] at hbound
            refine ⟨hcore, fun hbound => ?_, fun hb hbound => ?_⟩
            · have hold := h.history (hsame hbound)
              exact history_link ⟨⟨hold.ledgers.versions, hold.ledgers.back, hold.ledgers.tries⟩,
                hold.counted, hold.made, hold.creating⟩ htrigger
            · have hold := h.barred hb (hsame hbound)
              refine barred_link ⟨hold.lost, hold.linked, hold.slot, hold.child, hold.creating,
                hold.made⟩ hunused.2 fun version htry => ?_
              have hno : isTry version request = false := by rw [isTry, htrigger]; rfl
              cases hno.symm.trans htry
          · have hstep : step s (.link request) = s := by simp only [step, hprocess, if_neg hmem]
            rwa [hstep]
      | child next =>
          cases hchild : s.child with
          | none =>
              have hstep : step s (.child next) = s := by simp only [step, hprocess, hchild]
              rwa [hstep]
          | some child =>
              by_cases halive : child.status.isSome = true
              · have hstep : step s (.child next) = s := by
                  simp only [step, hprocess, hchild, if_pos halive]
                rwa [hstep]
              · have hstep : step s (.child next) = childStep s child next := by
                  simp only [step, hprocess, hchild, if_neg halive]
                rw [hstep] at hcore ⊢
                have hframe := childStep_frame s child next hchild
                have hgrows : Grows s (childStep s child next) :=
                  Grows.of_eq hframe.ledger hframe.seen
                refine ⟨hcore, fun hbound => ?_, fun hb hbound => ?_⟩
                · have hold := h.history (bounded_of_grows hgrows hbound)
                  refine history_of_made hold hgrows hframe.made
                    (fun q hq => .inr ⟨q, hframe.process ▸ hq, rfl⟩) hbound ⟨?_, ?_, ?_⟩
                  · rw [hframe.ledger, hframe.seen]
                    exact hold.ledgers.versions
                  · rw [hframe.ledger, hframe.back]
                    exact hold.ledgers.back
                  · rw [hframe.ledger]
                    exact hold.ledgers.tries
                · exact barred_child h.core (h.barred hb (bounded_of_grows hgrows hbound)) hchild
                    (by simpa using halive) next
      | killed =>
          have hstep : step s .killed = s.stop := by simp only [step, hprocess]
          rw [hstep]
          exact invariant_stop h h.core (Grows.refl s) h.ledgers rfl h.barred
      | failedStart retryable now cut =>
          by_cases hbusy : p.creating.isSome = true
          · have hstep : step s (.failedStart retryable now cut) = s := by
              simp only [step, hprocess, if_pos hbusy]
            rwa [hstep]
          · have hstep : step s (.failedStart retryable now cut) =
                (s.perform (cutActs cut (failedActs s retryable now))).stop := by
              simp only [step, hprocess, if_neg hbusy]
            rw [hstep]
            have hcounted := (counted_failed h.ledgers retryable now).cut cut
            obtain ⟨hledgers, hgrows⟩ := ledgers_performAll hcounted h.ledgers
            have hfree := free_cut (free_failed s retryable now) cut
            refine invariant_stop h (core_free h.core hfree) hgrows hledgers
              (frame_perform s _).made fun hb hbound =>
                barred_still (h.barred hb (bounded_of_grows hgrows hbound))
                  (still_perform hcounted h.ledgers hfree fun q hq => ?_) hbound
            obtain rfl := Option.some.inj (hprocess.symm.trans hq)
            simpa using hbusy

theorem invariant_initial (barred : Bool) (commit : String) : Invariant barred (initial commit) where
  core := core_initial commit
  history _ := ⟨⟨rfl, fun _ hnone => absurd hnone List.not_mem_nil, fun _ => Nat.zero_le _⟩,
    fun _ => le_rfl, fun _ hnone => absurd hnone List.not_mem_nil, fun _ _ hnone => (nomatch hnone)⟩
  barred _ _ := ⟨fun _ _ hnone => absurd hnone List.not_mem_nil,
    fun _ hnone => absurd hnone List.not_mem_nil, fun _ hnone => (nomatch hnone),
    fun _ hnone => (nomatch hnone), fun _ _ hnone => (nomatch hnone),
    fun _ hnone => absurd hnone List.not_mem_nil⟩

/-! ## The contract -/

theorem oneRequest {s : System} (h : Core s) : OneRequest s := by
  have hheld : ∀ made, Open s made → ∃ request, s.slot = some request ∧
      request.id = Made.id made := by
    rintro made ⟨hmade, hopen⟩
    rcases h.slots.kept made hmade with hslot | ⟨final, hfinal, hid⟩
    · exact hslot
    · exact absurd hid (hopen final (h.slots.recorded final hfinal))
  have hsame : ∀ request : Request, ∀ made ∈ s.made, ∀ made' ∈ s.made,
      request.id = Made.id made → Follows made'.asked.request request →
      Follows made.asked.request request := by
    intro request made hmade made' hmade' hid hfollows
    have heq : made' = made := List.inj_on_of_nodup_map h.slots.distinct hmade' hmade
      (hfollows.id.symm.trans hid)
    rwa [← heq]
  refine ⟨fun made made' hopen hopen' => ?_, fun made hmade => ?_⟩
  · obtain ⟨request, hslot, hid⟩ := hheld made hopen
    obtain ⟨request', hslot', hid'⟩ := hheld made' hopen'
    obtain rfl := Option.some.inj (hslot.symm.trans hslot')
    exact List.inj_on_of_nodup_map h.slots.distinct hopen.1 hopen'.1 (hid.symm.trans hid')
  · rcases h.slots.kept made hmade with ⟨request, hslot, hid⟩ | ⟨final, hfinal, hid⟩
    · obtain ⟨made', hmade', hfollows⟩ := h.slots.slot request hslot
      exact .inl ⟨request, hslot, hsame request made hmade made' hmade' hid hfollows⟩
    · obtain ⟨hstate, made', hmade', hfollows⟩ :=
        h.slots.finals final (h.slots.recorded final hfinal)
      exact .inr ⟨final, hfinal, hsame final made hmade made' hmade' hid hfollows, hstate⟩

/-- While no version was ever dropped from the ledger, requests come one at a time and
end once, and automatic mode tries a version a bounded number of times inside the
window; it never asks again for a version with a lost try or an announced way back as
long as every lost try goes through `spend`. -/
theorem update_law (commit : String) (events : List Event)
    (hkeep : ((machine commit).run events).seen.length ≤ ledgerKeep) :
    OneRequest ((machine commit).run events) ∧ EndsOnce ((machine commit).run events) ∧
      BoundedTries ((machine commit).run events) ∧
      ((machine commit).Along (fun s event => spends s event = true) (initial commit) events →
        NeverAgain ((machine commit).run events)) := by
  have hplain : Invariant false ((machine commit).run events) :=
    (machine commit).run_invariant (invariant_initial false commit)
      (fun s event h => invariant_step s event (fun hno => (nomatch hno)) h) events
  have hhistory := hplain.history hkeep
  refine ⟨oneRequest hplain.core, fun final hfinal => ?_, ⟨fun version => ?_, hhistory.made⟩,
    fun hspends => ?_⟩
  · exact ⟨(hplain.core.slots.finals final hfinal).1, fun other hother hid =>
      hplain.core.slots.once other hother final hfinal hid⟩
  · calc tries ((machine commit).run events) version
        ≤ (((machine commit).run events).ledger.entry version).tries :=
          (Nat.le_add_right _ _).trans (hhistory.counted version)
      _ ≤ automaticTries := hhistory.ledgers.tries version
  · have hbarred : Invariant true ((machine commit).run events) :=
      (machine commit).run_invariant_along (invariant_initial true commit)
        (fun s event hspend h => invariant_step s event (fun _ => hspend) h) events hspends
    exact (hbarred.barred rfl hkeep).made

/-! ## Two runs -/

section

/-- Some minutes after midnight, with nothing else running. -/
private def at_ (minutes : ℕ) : Moment := ⟨minutes * 60000000, minutes⟩

private def quiet (minutes : ℕ) : Turn :=
  ⟨at_ minutes, false, true, false, false, false, none, true⟩

/-- Automatic updates are on, a check finds a release, and at 03:10 a try for it passes
its point of no return. -/
private def passing : List Event :=
  [.start .proceed, .settle (at_ 170) none, .saveSettings ⟨true, true, ⟨180, 300⟩⟩,
    .turn { quiet 176 with due := true } none,
    .child (.wrote ⟨some ⟨"1.1.0", "v1.1.0", "b", .safe, true⟩, none, [], "a"⟩),
    .child (.ended true (some ([], none))), .turn (quiet 177) none,
    .turn (quiet 190) none, .create, .turn (quiet 190) none, .child .passed]

/-- The backup fails on a full disk, and so does the first write of the turn that sees
the child end. -/
private def diskFull : List Event :=
  passing ++ [.child (.ended false none), .turn (quiet 191) (some 0), .turn (quiet 192) none,
    .turn (quiet 203) none, .create]

/-- The move and the move back fail, the start's own way back and the confirmation are
cut short. -/
private def cutShort : List Event :=
  passing ++ [.child (.saved 11400 "b"), .child .checkedOut, .child (.ended false none),
    .failedStart false 11401 (some 1), .start .proceed, .settle (at_ 193) none,
    .confirmed (some 1), .killed, .start .proceed, .settle (at_ 194) none,
    .turn (quiet 203) none, .create]

/-- The try fails after its point of no return, and the supervisor spends it. -/
private def spent : List Event :=
  passing ++ [.child (.ended false none), .turn (quiet 191) none, .turn (quiet 203) none, .create]

theorem update_law_spent :
    (OneRequest ((machine "a").run spent) ∧ EndsOnce ((machine "a").run spent) ∧
      BoundedTries ((machine "a").run spent) ∧ NeverAgain ((machine "a").run spent)) ∧
      ((machine "a").run spent).lost = [(2, "1.1.0")] := by
  obtain ⟨hone, honce, htries, hnever⟩ := update_law "a" spent (by decide)
  exact ⟨⟨hone, honce, htries, hnever (by decide)⟩, by decide⟩

theorem tried_again : (((machine "a").run diskFull).seen.length ≤ ledgerKeep ∧
      ¬ NeverAgain ((machine "a").run diskFull)) ∧
    (((machine "a").run cutShort).seen.length ≤ ledgerKeep ∧
      ¬ NeverAgain ((machine "a").run cutShort)) := by
  have hagain : ∀ s : System, (s.made.any fun made =>
      isTry "1.1.0" made.asked.request && decide ("1.1.0" ∈ made.lost)) = true →
      ¬ NeverAgain s := by
    intro s hany hnever
    obtain ⟨made, hmade, hboth⟩ := List.any_eq_true.mp hany
    rw [Bool.and_eq_true, decide_eq_true_eq] at hboth
    exact (hnever made hmade "1.1.0" hboth.1).1 hboth.2
  exact ⟨⟨by decide, hagain _ (by decide)⟩,
    ⟨by decide, hagain _ (by decide)⟩⟩

end

end Sbarbase.Updates.Proofs.UpdateLaw
