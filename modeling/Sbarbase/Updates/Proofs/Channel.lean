import Sbarbase.Updates.Proofs.Turns
/-!
# The request channel over a whole history

Every event keeps the one request, the agreement of memory and slot, and the
freshness of the requests that are not linked yet.
-/

namespace Sbarbase.Updates.Proofs.Channel

open Lib Updates Updates.Proofs.Slot Updates.Proofs.Turns

/-! ## What writes leave alone -/

/-- The parts that no write of a turn touches. -/
structure Frame (s s' : System) : Prop where
  outcome : s'.outcome = s.outcome
  settings : s'.settings = s.settings
  child : s'.child = s.child
  process : s'.process = s.process
  asking : s'.asking = s.asking
  drawn : s'.drawn = s.drawn
  made : s'.made = s.made
  lost : s'.lost = s.lost

theorem frame_perform (s : System) (acts : List Act) : Frame s (s.perform acts) := by
  induction acts generalizing s with
  | nil => exact ⟨rfl, rfl, rfl, rfl, rfl, rfl, rfl, rfl⟩
  | cons act acts ih =>
      have hact : Frame s (act.perform s) := by
        cases act <;> exact ⟨rfl, rfl, rfl, rfl, rfl, rfl, rfl, rfl⟩
      have hrest := ih (act.perform s)
      exact ⟨hrest.outcome.trans hact.outcome, hrest.settings.trans hact.settings,
        hrest.child.trans hact.child, hrest.process.trans hact.process,
        hrest.asking.trans hact.asking, hrest.drawn.trans hact.drawn,
        hrest.made.trans hact.made, hrest.lost.trans hact.lost⟩

/-! ## Requests that are not linked yet -/

/-- A drawn identity that no created request has. -/
def Unused (s : System) (id : ℕ) : Prop := id < s.drawn ∧ ∀ made ∈ s.made, Made.id made ≠ id

structure Fresh (s : System) : Prop where
  asking : ∀ request ∈ s.asking, Unused s request.id ∧ request.trigger = .console ∧
    request.state = .requested
  distinct : (s.asking.map Request.id).Nodup
  creating : ∀ p asked, s.process = some p → p.creating = some asked →
    Unused s asked.request.id ∧ (∀ request ∈ s.asking, request.id ≠ asked.request.id) ∧
    asked.request.state = .requested ∧ asked.request.trigger = .automatic

theorem Unused.of_eq {s s' : System} {id : ℕ} (h : Unused s id) (made : s'.made = s.made)
    (drawn : s.drawn ≤ s'.drawn) : Unused s' id :=
  ⟨h.1.trans_le drawn, by rw [made]; exact h.2⟩

/-- Nothing was asked, made or decided since. -/
theorem fresh_of_eq {s s' : System} (h : Fresh s) (asking : s'.asking = s.asking)
    (made : s'.made = s.made) (drawn : s.drawn ≤ s'.drawn)
    (creating : ∀ p, s'.process = some p → p.creating = none ∨
      ∃ p', s.process = some p' ∧ p'.creating = p.creating) : Fresh s' where
  asking := by
    rw [asking]
    intro request hmem
    obtain ⟨hunused, htrigger, hstate⟩ := h.asking request hmem
    exact ⟨hunused.of_eq made drawn, htrigger, hstate⟩
  distinct := by rw [asking]; exact h.distinct
  creating := by
    intro p asked hp hasked
    rcases creating p hp with hnone | ⟨p', hp', hsame⟩
    · rw [hnone] at hasked
      exact (nomatch hasked)
    · obtain ⟨hunused, hasking, hrest⟩ := h.creating p' asked hp' (hsame.trans hasked)
      exact ⟨hunused.of_eq made drawn, by rw [asking]; exact hasking, hrest⟩

/-- A link uses one identity. -/
theorem fresh_link {s : System} {asked : Asked} (h : Fresh s)
    (hasking : ∀ request ∈ s.asking, request.id ≠ asked.request.id)
    (hcreating : ∀ p other, s.process = some p → p.creating = some other →
      other.request.id ≠ asked.request.id) : Fresh (s.link asked) := by
  cases hslot : s.slot with
  | some request => rwa [link_taken hslot]
  | none =>
      rw [link_free hslot]
      have hunused : ∀ id, Unused s id → id ≠ asked.request.id → ∀ made ∈
          (⟨asked, s.lost.map Prod.snd, s.back⟩ : Made) :: s.made, Made.id made ≠ id := by
        rintro id ⟨-, hold⟩ hne made hmade
        rcases List.mem_cons.mp hmade with rfl | hmade
        · exact fun heq => hne heq.symm
        · exact hold made hmade
      refine ⟨?_, h.distinct, ?_⟩
      · intro request hmem
        obtain ⟨hid, hrest⟩ := h.asking request hmem
        exact ⟨⟨hid.1, hunused _ hid (hasking request hmem)⟩, hrest⟩
      · intro p other hp hother
        obtain ⟨hid, hrest⟩ := h.creating p other hp hother
        exact ⟨⟨hid.1, hunused _ hid (hcreating p other hp hother)⟩, hrest⟩

/-! ## Memory -/

/-- Without jobs, drains and children there is nothing to agree. -/
theorem memory_empty {s : System} (hchild : s.child = none)
    (hprocess : ∀ p, s.process = some p → p.update = none ∧ p.drain = none ∧ p.creating = none) :
    Memory s where
  idle p hp _ := ⟨(hprocess p hp).1, (hprocess p hp).2.1⟩
  creating p asked hp hasked := by
    rw [(hprocess p hp).2.2] at hasked
    exact (nomatch hasked)
  job p job hp hjob := by
    rw [(hprocess p hp).1] at hjob
    exact (nomatch hjob)
  drain p drain hp hdrain := by
    rw [(hprocess p hp).2.1] at hdrain
    exact (nomatch hdrain)
  child child hchild' := by
    rw [hchild] at hchild'
    exact (nomatch hchild')

theorem memory_of_eq {s s' : System} (h : Memory s) (slot : s'.slot = s.slot)
    (child : s'.child = s.child) (process : s'.process = s.process) : Memory s' where
  idle := by rw [process]; exact h.idle
  creating := by rw [process, child]; exact h.creating
  job := by rw [process, slot]; exact h.job
  drain := by rw [process, slot]; exact h.drain
  child := by rw [process, child]; exact h.child

/-- A process that was not there yet has no child. -/
theorem child_none {s : System} (h : Memory s) (hprocess : s.process = none) : s.child = none := by
  cases hchild : s.child with
  | none => rfl
  | some child =>
      obtain ⟨p, -, hp, -⟩ := h.child child hchild
      rw [hprocess] at hp
      exact (nomatch hp)

/-- What a live child leaves as it is. -/
structure ChildFrame (s s' : System) (child : Child) : Prop where
  slot : s'.slot = s.slot
  process : s'.process = s.process
  asking : s'.asking = s.asking
  drawn : s'.drawn = s.drawn
  made : s'.made = s.made
  finals : s'.finals = s.finals
  recorded : s'.recorded = s.recorded
  ledger : s'.ledger = s.ledger
  seen : s'.seen = s.seen
  back : s'.back = s.back
  settings : s'.settings = s.settings
  same : ∀ child', s'.child = some child' → child'.run = child.run ∧ child'.kind = child.kind ∧
    child'.version = child.version ∧ child'.automatic = child.automatic

theorem childStep_frame (s : System) (child : Child) (step : ChildStep)
    (hchild : s.child = some child) : ChildFrame s (childStep s child step) child := by
  have hsame : ∀ child', s.child = some child' → child'.run = child.run ∧
      child'.kind = child.kind ∧ child'.version = child.version ∧
      child'.automatic = child.automatic := by
    intro child' hchild'
    obtain rfl := Option.some.inj (hchild.symm.trans hchild')
    exact ⟨rfl, rfl, rfl, rfl⟩
  have hidle : ChildFrame s s child := ⟨rfl, rfl, rfl, rfl, rfl, rfl, rfl, rfl, rfl, rfl, rfl, hsame⟩
  unfold childStep
  split
  · split_ifs
    · exact hidle
    · refine ⟨rfl, rfl, rfl, rfl, rfl, rfl, rfl, rfl, rfl, rfl, rfl, ?_⟩
      rintro _ ⟨⟩
      exact ⟨rfl, rfl, rfl, rfl⟩
  · by_cases hready : child.passed = false ∨ child.saved
    · rw [if_pos hready]
      exact hidle
    · rw [if_neg hready]
      refine ⟨rfl, rfl, rfl, rfl, rfl, rfl, rfl, rfl, rfl, rfl, rfl, ?_⟩
      rintro _ ⟨⟩
      exact ⟨rfl, rfl, rfl, rfl⟩
  · split_ifs
    · exact ⟨rfl, rfl, rfl, rfl, rfl, rfl, rfl, rfl, rfl, rfl, rfl, hsame⟩
    · exact hidle
  · split_ifs
    · refine ⟨rfl, rfl, rfl, rfl, rfl, rfl, rfl, rfl, rfl, rfl, rfl, ?_⟩
      rintro _ ⟨⟩
      exact ⟨rfl, rfl, rfl, rfl⟩
    · exact hidle
  · split_ifs
    · exact ⟨rfl, rfl, rfl, rfl, rfl, rfl, rfl, rfl, rfl, rfl, rfl, hsame⟩
    · exact hidle
  · split_ifs
    · exact ⟨rfl, rfl, rfl, rfl, rfl, rfl, rfl, rfl, rfl, rfl, rfl, hsame⟩
    · exact hidle
  · split_ifs
    · exact ⟨rfl, rfl, rfl, rfl, rfl, rfl, rfl, rfl, rfl, rfl, rfl, hsame⟩
    · exact hidle
  · exact ⟨rfl, rfl, rfl, rfl, rfl, rfl, rfl, rfl, rfl, rfl, rfl, hsame⟩
  · simp only
    split_ifs
    · exact hidle
    · refine ⟨rfl, rfl, rfl, rfl, rfl, rfl, rfl, rfl, rfl, rfl, rfl, ?_⟩
      rintro _ ⟨⟩
      exact ⟨rfl, rfl, rfl, rfl⟩
  · exact hidle

theorem memory_child {s s' : System} {child : Child} (h : Memory s) (hchild : s.child = some child)
    (hframe : ChildFrame s s' child) : Memory s' where
  idle := by rw [hframe.process]; exact h.idle
  creating p asked hp hasked := by
    rw [hframe.process] at hp
    obtain ⟨hupdate, hdrain, hserving, hgated, hnone⟩ := h.creating p asked hp hasked
    rw [hchild] at hnone
    exact (nomatch hnone)
  job := by rw [hframe.process, hframe.slot]; exact h.job
  drain := by rw [hframe.process, hframe.slot]; exact h.drain
  child child' hchild' := by
    obtain ⟨hrun, hkind, hversion, hautomatic⟩ := hframe.same child' hchild'
    obtain ⟨p, job, hp, hjob, hrun', hkind', happly⟩ := h.child child hchild
    refine ⟨p, job, by rw [hframe.process]; exact hp, hjob, hrun.trans hrun', hkind.trans hkind',
      fun hk => ?_⟩
    obtain ⟨request, hrequest, hv, ha⟩ := happly hk
    exact ⟨request, hrequest, hversion.trans hv, hautomatic.trans ha⟩

/-! ## The writes of a turn -/

/-- The two parts of `update_finished`: writes without requests, then the end of the
job. -/
theorem updateFinished_acts {s : System} {p : Process} {job : Job} {ok : Bool} {t : Turn} :
    ∃ before state detail, (∀ act ∈ before, Act.free act) ∧ state.final = true ∧
      (updateFinished s p job ok t).acts = before ++ finishJob s job state detail t.moment ∧
      ∃ stopping, (updateFinished s p job ok t).process = { p with update := none, stopping } ∧
      (updateFinished s p job ok t).child = none := by
  unfold updateFinished
  split
  · refine ⟨_, _, _, ?_, ?_, rfl, p.stopping, rfl, rfl⟩
    · intro act hmem
      split at hmem
      · unfold announceAvailable at hmem
        split_ifs at hmem
        · exact absurd hmem List.not_mem_nil
        · obtain ⟨version, -, rfl⟩ := List.mem_map.mp hmem
          trivial
      · exact absurd hmem List.not_mem_nil
    · split_ifs <;> rfl
  · have hfree : ∀ act ∈ (job.request.toList.map fun request =>
        spendActs request (outcome s.outcome job.run) (s.completed p job ok)).flatten,
        Act.free act := by
      intro act hmem
      obtain ⟨acts, hacts, hact⟩ := List.mem_flatten.mp hmem
      obtain ⟨request, -, rfl⟩ := List.mem_map.mp hacts
      exact free_spend act hact
    simp only
    split_ifs
    · exact ⟨_, _, _, hfree, rfl, rfl, true, rfl, rfl⟩
    · exact ⟨_, _, _, hfree, rfl, rfl, true, rfl, rfl⟩
    · exact ⟨_, _, _, hfree, rfl, rfl, _, rfl, rfl⟩
    · exact ⟨_, _, _, hfree, rfl, rfl, _, rfl, rfl⟩

theorem allowed_turned {s : System} {p : Process} {t : Turn} {plan : Plan} (hmemory : Memory s)
    (hprocess : s.process = some p) (h : Turned s p t plan) : Each Allowed s plan.acts := by
  cases h with
  | @ended job ok hupdate hstatus =>
      obtain ⟨before, state, detail, hfree, hfinal, hacts, -⟩ := @updateFinished_acts s p job ok t
      rw [hacts]
      refine (allowed_free hfree).append ?_
      unfold finishJob
      split
      · trivial
      · rename_i request hrequest
        obtain ⟨hslot, hstate, -⟩ := (hmemory.job p job hprocess hupdate).2.1 request hrequest
        rw [← slot_free hfree]
        refine allowed_finish ((slot_free hfree).trans hslot) rfl hfinal (.inl ?_) detail t.moment
        rw [hstate]
        rfl
  | finished hupdate hslot hfinal hsame => exact allowed_finish hslot rfl hfinal hsame _ _
  | began hupdate hslot hopen hacts hrelease =>
      rcases hacts with rfl | rfl
      · exact ⟨⟨_, .inl ⟨hslot, follows_begun _ _, hopen⟩⟩, trivial⟩
      · exact ⟨⟨_, .inl ⟨hslot, follows_begun _ _, hopen⟩⟩,
          ⟨_, .inl ⟨rfl, follows_begun _ t.moment, rfl⟩⟩, trivial⟩
  | drained hupdate hslot hopen hrelease =>
      exact ⟨⟨_, .inl ⟨hslot, follows_begun _ _, hopen⟩⟩, trivial⟩
  | periodic => trivial
  | automatic => exact ⟨trivial, trivial⟩

theorem allowed_settle (s : System) (moment : Moment) : Each Allowed s (settle s moment) := by
  unfold settle
  split
  · trivial
  · rename_i request hslot
    split_ifs with hfinal hrunning hprogressed hold
    · exact allowed_finish hslot rfl hfinal (.inr rfl) _ _
    · exact allowed_finish hslot rfl rfl (.inl (by simpa using hfinal)) _ _
    · refine (allowed_free free_spend).append ?_
      have hslot' :
          (s.perform (spendActs request (outcome s.outcome request.id) false)).slot =
            some request := (slot_free free_spend).trans hslot
      rw [hslot, ← hslot']
      exact allowed_finish hslot' rfl rfl (.inl (by simpa using hfinal)) _ _
    · exact allowed_finish hslot rfl rfl (.inl (by simpa using hfinal)) _ _
    · trivial

theorem free_notices (s : System) : ∀ act ∈ upgradeNotices s, Act.free act := by
  intro act hmem
  unfold upgradeNotices at hmem
  split at hmem
  · exact absurd hmem List.not_mem_nil
  · split_ifs at hmem
    · exact absurd hmem List.not_mem_nil
    · rcases List.mem_append.mp hmem with hmem | hmem
      · obtain ⟨note, -, hact⟩ := List.mem_flatMap.mp hmem
        exact free_announce act hact
      · rw [List.mem_singleton.mp hmem]
        trivial

theorem free_confirm (s : System) : ∀ act ∈ confirmActs s, Act.free act := by
  intro act hmem
  unfold confirmActs at hmem
  split at hmem
  · exact absurd hmem List.not_mem_nil
  · rename_i record _
    by_cases hpending : record.phase.pending = true
    · rw [if_pos hpending] at hmem
      rcases List.mem_cons.mp hmem with rfl | hmem
      · trivial
      · exact free_announce act hmem
    · rw [if_neg hpending] at hmem
      exact absurd hmem List.not_mem_nil

theorem free_failed (s : System) (retryable : Bool) (now : ℕ) :
    ∀ act ∈ failedActs s retryable now, Act.free act := by
  intro act hmem
  unfold failedActs at hmem
  split at hmem
  · exact absurd hmem List.not_mem_nil
  · simp only at hmem
    split at hmem
    · rcases List.mem_append.mp hmem with hmem | hmem
      · rcases List.mem_append.mp hmem with hmem | hmem
        · split_ifs at hmem
          · rw [List.mem_singleton.mp hmem]
            trivial
          · exact absurd hmem List.not_mem_nil
        · simp only [List.mem_cons, List.not_mem_nil, or_false] at hmem
          rcases hmem with rfl | rfl | rfl <;> trivial
      · exact free_announce act hmem
    · split at hmem
      · split_ifs at hmem
        · rcases List.mem_cons.mp hmem with rfl | hmem
          · trivial
          · exact free_announce act hmem
        · simp only [List.mem_cons, List.not_mem_nil, or_false] at hmem
          rcases hmem with rfl | rfl <;> trivial
      · exact absurd hmem List.not_mem_nil

/-! ## The invariant -/

structure Core (s : System) : Prop where
  slots : Slots s
  memory : Memory s
  fresh : Fresh s

theorem core_initial (commit : String) : Core (initial commit) where
  slots := ⟨List.nodup_nil, fun _ h => (nomatch h), fun _ h => (nomatch h), fun _ h => (nomatch h),
    fun _ h => (nomatch h), fun _ h => (nomatch h), fun _ h => (nomatch h),
    fun _ h => (nomatch h), fun _ h => (nomatch h)⟩
  memory := memory_empty rfl fun _ h => (nomatch h)
  fresh := ⟨fun _ h => (nomatch h), List.nodup_nil, fun _ _ h => (nomatch h)⟩

/-- Writes without requests keep everything. -/
theorem core_free {s : System} {acts : List Act} (h : Core s) (hfree : ∀ act ∈ acts, Act.free act) :
    Core (s.perform acts) := by
  have hframe := frame_perform s acts
  refine ⟨(allowed_free hfree).keep slots_perform h.slots,
    memory_of_eq h.memory (slot_free hfree) hframe.child hframe.process,
    fresh_of_eq h.fresh hframe.asking hframe.made hframe.drawn.ge fun p hp => .inr ⟨p, ?_, rfl⟩⟩
  rw [← hframe.process]
  exact hp

/-- The processes end. -/
theorem core_stop {s : System} (h : Core s) : Core s.stop where
  slots := slots_of_eq h.slots rfl rfl rfl rfl le_rfl
  memory := memory_empty rfl fun _ hnone => (nomatch hnone)
  fresh := ⟨fun _ hnone => (nomatch hnone), List.nodup_nil, fun _ _ hnone => (nomatch hnone)⟩

theorem memory_after {s : System} {p : Process} {t : Turn} {plan : Plan} (hmemory : Memory s)
    (hprocess : s.process = some p) (hcreating : p.creating = none) (hserving : p.serving = true)
    (hgated : p.gated = false) (h : Turned s p t plan) (cut : Option ℕ) :
    Memory (s.after p plan cut) := by
  cases cut with
  | some k =>
      refine memory_empty rfl fun q hq => ?_
      obtain rfl := Option.some.inj hq
      exact ⟨rfl, rfl, rfl⟩
  | none =>
      cases h with
      | @ended job ok hupdate hstatus =>
          obtain ⟨-, -, -, -, -, -, stopping, hafter, hchild⟩ := @updateFinished_acts s p job ok t
          refine memory_empty hchild fun q hq => ?_
          obtain rfl := Option.some.inj hq
          rw [hafter]
          exact ⟨rfl, (hmemory.job p job hprocess hupdate).1, hcreating⟩
      | finished hupdate =>
          refine memory_empty rfl fun q hq => ?_
          obtain rfl := Option.some.inj hq
          exact ⟨hupdate, rfl, hcreating⟩
      | @began request release acts hupdate hslot hopen hacts hrelease =>
          have hafter : (s.perform acts).slot = some (begun request t.moment) := by
            rcases hacts with rfl | rfl <;> rfl
          refine ⟨?_, ?_, ?_, ?_, ?_⟩
          · rintro q ⟨⟩ hnot
            exact absurd (hserving.symm.trans hnot) nofun
          · rintro q asked ⟨⟩ hasked
            exact (nomatch hcreating.symm.trans hasked)
          · rintro q job ⟨⟩ ⟨⟩
            refine ⟨rfl, ?_, fun hnone => (nomatch hnone)⟩
            rintro _ ⟨⟩
            exact ⟨hafter, rfl, rfl, rfl⟩
          · rintro q drain ⟨⟩ hdrain
            exact (nomatch hdrain)
          · rintro child ⟨⟩
            exact ⟨_, _, rfl, rfl, rfl, rfl, fun hk => ⟨_, rfl, hrelease hk, rfl⟩⟩
      | @drained request release hupdate hslot hopen hrelease =>
          refine ⟨?_, ?_, ?_, ?_, ?_⟩
          · rintro q ⟨⟩ hnot
            exact absurd (hserving.symm.trans hnot) nofun
          · rintro q asked ⟨⟩ hasked
            exact (nomatch hcreating.symm.trans hasked)
          · rintro q job ⟨⟩ hjob
            exact (nomatch hupdate.symm.trans hjob)
          · rintro q drain ⟨⟩ ⟨⟩
            exact ⟨rfl, rfl, rfl, hrelease⟩
          · exact fun child hchild => (nomatch hchild)
      | periodic hupdate hdrain hslot =>
          refine ⟨?_, ?_, ?_, ?_, ?_⟩
          · rintro q ⟨⟩ hnot
            exact absurd (hserving.symm.trans hnot) nofun
          · rintro q asked ⟨⟩ hasked
            exact (nomatch hcreating.symm.trans hasked)
          · rintro q job ⟨⟩ ⟨⟩
            refine ⟨rfl, fun _ hnone => (nomatch hnone), fun _ => ⟨rfl, fun request hrequest => ?_⟩⟩
            exact (nomatch hslot.symm.trans hrequest)
          · rintro q drain ⟨⟩ hdrain
            exact (nomatch hdrain)
          · rintro child ⟨⟩
            exact ⟨_, _, rfl, rfl, rfl, rfl, fun hk => (nomatch hk)⟩
      | automatic hupdate hdrain hslot hchosen =>
          refine ⟨?_, ?_, ?_, ?_, ?_⟩
          · rintro q ⟨⟩ hnot
            exact absurd (hserving.symm.trans hnot) nofun
          · rintro q asked ⟨⟩ -
            exact ⟨rfl, rfl, hserving, hgated, rfl⟩
          · rintro q job ⟨⟩ hjob
            exact (nomatch hjob)
          · rintro q drain ⟨⟩ hdrain
            exact (nomatch hdrain)
          · exact fun child hchild => (nomatch hchild)

theorem fresh_after {s : System} {p : Process} {t : Turn} {plan : Plan} (hslots : Slots s)
    (hfresh : Fresh s) (hcreating : p.creating = none) (h : Turned s p t plan) (cut : Option ℕ) :
    Fresh (s.after p plan cut) := by
  have hframe := frame_perform s (cutActs cut plan.acts)
  have hother : (∀ q, (s.after p plan cut).process = some q → q.creating = none) →
      Fresh (s.after p plan cut) := by
    intro hnone
    cases cut with
    | some k =>
        exact fresh_of_eq hfresh hframe.asking hframe.made (Nat.le_succ _) fun q hq =>
          .inl (hnone q hq)
    | none =>
        exact fresh_of_eq hfresh hframe.asking hframe.made (Nat.le_succ _) fun q hq =>
          .inl (hnone q hq)
  cases cut with
  | some k =>
      refine hother fun q hq => ?_
      obtain rfl := Option.some.inj hq
      rfl
  | none =>
      cases h with
      | @ended job ok hupdate hstatus =>
          obtain ⟨-, -, -, -, -, -, stopping, hafter, -⟩ := @updateFinished_acts s p job ok t
          refine hother fun q hq => ?_
          obtain rfl := Option.some.inj hq
          rw [hafter]
          exact hcreating
      | finished | began | drained | periodic =>
          refine hother fun q hq => ?_
          obtain rfl := Option.some.inj hq
          exact hcreating
      | automatic =>
          have hdrawn : ∀ request ∈ s.asking, request.id ≠ s.drawn := fun request hmem =>
            (hfresh.asking request hmem).1.1.ne
          refine ⟨?_, hfresh.distinct, ?_⟩
          · intro request hmem
            obtain ⟨hunused, hrest⟩ := hfresh.asking request hmem
            exact ⟨hunused.of_eq rfl (Nat.le_succ _), hrest⟩
          · rintro q asked ⟨⟩ ⟨⟩
            exact ⟨⟨Nat.lt_succ_self _, fun made hmade => (hslots.below made hmade).ne⟩, hdrawn,
              rfl, rfl⟩

theorem core_turn {s : System} {p : Process} (h : Core s) (hprocess : s.process = some p)
    (t : Turn) (cut : Option ℕ) : Core (s.turn p t cut) := by
  unfold System.turn
  split_ifs with hready
  · exact h
  · simp only [not_or, Bool.not_eq_false, Bool.not_eq_true, Option.isSome_eq_false_iff,
      Option.isNone_iff_eq_none] at hready
    obtain ⟨hserving, hgated, -, hcreating⟩ := hready
    cases hplan : scheduleUpdates s p t with
    | none => exact h
    | some plan =>
        have hturned := turned h.memory hprocess hplan
        have hslots := ((allowed_turned h.memory hprocess hturned).cut cut).keep slots_perform h.slots
        refine ⟨?_, memory_after h.memory hprocess hcreating hserving hgated hturned cut,
          fresh_after h.slots h.fresh hcreating hturned cut⟩
        have hdrawn := (frame_perform s (cutActs cut plan.acts)).drawn
        cases cut with
        | none => exact slots_of_eq hslots rfl rfl rfl rfl (by rw [hdrawn]; exact Nat.le_succ _)
        | some k => exact slots_of_eq hslots rfl rfl rfl rfl (by rw [hdrawn]; exact Nat.le_succ _)

theorem core_settle {s : System} {p : Process} (h : Core s) (hprocess : s.process = some p)
    (hserving : p.serving = false) (moment : Moment) (cut : Option ℕ) :
    Core { s.perform (cutActs cut (settle s moment)) with
      process := some { p with serving := true } } := by
  have hframe := frame_perform s (cutActs cut (settle s moment))
  obtain ⟨hupdate, hdrain⟩ := h.memory.idle p hprocess hserving
  have hcreating : p.creating = none := by
    cases hasked : p.creating with
    | none => rfl
    | some asked =>
        have hbusy := (h.memory.creating p asked hprocess hasked).2.2.1
        rw [hserving] at hbusy
        exact (nomatch hbusy)
  have hchild : s.child = none := by
    cases hchild : s.child with
    | none => rfl
    | some child =>
        obtain ⟨q, job, hq, hjob, -⟩ := h.memory.child child hchild
        obtain rfl := Option.some.inj (hprocess.symm.trans hq)
        exact (nomatch hupdate.symm.trans hjob)
  refine ⟨slots_of_eq (((allowed_settle s moment).cut cut).keep slots_perform h.slots)
      rfl rfl rfl rfl le_rfl, memory_empty (hframe.child.trans hchild) ?_,
    fresh_of_eq h.fresh hframe.asking hframe.made hframe.drawn.ge ?_⟩
  · rintro q ⟨⟩
    exact ⟨hupdate, hdrain, hcreating⟩
  · rintro q ⟨⟩
    exact .inl hcreating

theorem core_start {s : System} (h : Core s) (hprocess : s.process = none) (decision : Guard) :
    Core (s.start decision) := by
  have hchild : s.child = none := child_none h.memory hprocess
  have hempty : ∀ p, (s.start decision).process = some p →
      p.update = none ∧ p.drain = none ∧ p.creating = none := by
    intro p hp
    simp only [System.start] at hp
    split_ifs at hp
    obtain rfl := Option.some.inj hp
    exact ⟨rfl, rfl, rfl⟩
  exact ⟨slots_of_eq h.slots rfl rfl rfl rfl le_rfl, memory_empty hchild hempty,
    fresh_of_eq h.fresh rfl rfl le_rfl fun p hp => .inl (hempty p hp).2.2⟩

theorem core_create {s : System} {p : Process} {asked : Asked} (h : Core s)
    (hprocess : s.process = some p) (hcreating : p.creating = some asked) :
    Core ({ s with process := some { p with creating := none } }.link asked) := by
  obtain ⟨hunused, hasking, hstate, -⟩ := h.fresh.creating p asked hprocess hcreating
  obtain ⟨hupdate, hdrain, -, -, hchild⟩ := h.memory.creating p asked hprocess hcreating
  have hslots : Slots { s with process := some { p with creating := none } } :=
    slots_of_eq h.slots rfl rfl rfl rfl le_rfl
  have hfresh : Fresh { s with process := some { p with creating := none } } :=
    fresh_of_eq h.fresh rfl rfl le_rfl fun q hq => by
      obtain rfl := Option.some.inj hq
      exact .inl rfl
  refine ⟨slots_link hslots hunused.1 hunused.2 (by rw [hstate]; rfl), ?_,
    fresh_link hfresh hasking ?_⟩
  · have hempty : ∀ q : Process, q = { p with creating := none } →
        q.update = none ∧ q.drain = none ∧ q.creating = none := by
      rintro q rfl
      exact ⟨hupdate, hdrain, rfl⟩
    rcases Option.eq_none_or_eq_some s.slot with hslot | ⟨request, hslot⟩
    · rw [link_free (s := { s with process := some { p with creating := none } }) hslot]
      exact memory_empty hchild fun q hq => hempty q (Option.some.inj hq).symm
    · rw [link_taken (s := { s with process := some { p with creating := none } }) hslot]
      exact memory_empty hchild fun q hq => hempty q (Option.some.inj hq).symm
  · rintro q other ⟨⟩ hnone
    exact (nomatch hnone)

/-- A console links one of the requests it asks for. -/
theorem core_link {s : System} {request : Request} (h : Core s) (hmem : request ∈ s.asking)
    (moment : Moment) (settings : Settings) :
    Core ({ s with asking := s.asking.erase request }.link ⟨request, moment, settings⟩) := by
  obtain ⟨hunused, htrigger, hstate⟩ := h.fresh.asking request hmem
  have hslots : Slots { s with asking := s.asking.erase request } :=
    slots_of_eq h.slots rfl rfl rfl rfl le_rfl
  have herased : ∀ other ∈ s.asking.erase request, other ∈ s.asking ∧ other.id ≠ request.id := by
    intro other hother
    have hperm := List.perm_cons_erase hmem
    have hnodup := (hperm.map Request.id).nodup h.fresh.distinct
    rw [List.map_cons, List.nodup_cons] at hnodup
    exact ⟨List.mem_of_mem_erase hother, fun heq =>
      hnodup.1 (heq ▸ List.mem_map_of_mem hother)⟩
  have hcreating : ∀ p other, s.process = some p → p.creating = some other →
      other.request.id ≠ request.id := fun p other hp hother =>
    ((h.fresh.creating p other hp hother).2.1 request hmem).symm
  have hfresh : Fresh { s with asking := s.asking.erase request } := by
    refine ⟨fun other hother => ?_, ?_, fun p other hp hother => ?_⟩
    · obtain ⟨hid, hrest⟩ := h.fresh.asking other (herased other hother).1
      exact ⟨hid.of_eq rfl le_rfl, hrest⟩
    · exact h.fresh.distinct.sublist ((List.erase_sublist).map _)
    · obtain ⟨hid, hasking, hrest⟩ := h.fresh.creating p other hp hother
      exact ⟨hid.of_eq rfl le_rfl, fun r hr => hasking r (herased r hr).1, hrest⟩
  refine ⟨slots_link hslots hunused.1 hunused.2 (by rw [hstate]; rfl), ?_,
    fresh_link hfresh (fun other hother => (herased other hother).2) hcreating⟩
  rcases Option.eq_none_or_eq_some s.slot with hslot | ⟨held, hslot⟩
  · rw [link_free (s := { s with asking := s.asking.erase request }) hslot]
    refine ⟨h.memory.idle, h.memory.creating, fun p job hp hjob => ?_, fun p drain hp hdrain => ?_,
      h.memory.child⟩
    · obtain ⟨hdrain, hown, hother⟩ := h.memory.job p job hp hjob
      refine ⟨hdrain, fun own heq => ?_, fun hnone => ⟨(hother hnone).1, ?_⟩⟩
      · exact (nomatch hslot.symm.trans (hown own heq).1)
      · rintro _ ⟨⟩
        exact hstate
    · exact (nomatch hslot.symm.trans (h.memory.drain p drain hp hdrain).1)
  · rw [link_taken (s := { s with asking := s.asking.erase request }) hslot]
    exact memory_of_eq h.memory rfl rfl rfl

theorem core_step (s : System) (event : Event) (h : Core s) : Core (step s event) := by
  unfold step
  split
  · rename_i decision hprocess
    exact core_start h hprocess decision
  · split_ifs
    · exact h
    · exact core_free h (free_cut (free_notices s) _)
  · rename_i moment cut p hprocess
    by_cases hserving : p.serving = true
    · rw [if_pos hserving]
      exact h
    · rw [if_neg hserving]
      exact core_settle h hprocess (by simpa using hserving) moment cut
  · rename_i cut p hprocess
    by_cases hgated : p.gated = true
    · rw [if_pos hgated]
      have hcore := core_free h (free_cut (free_confirm s) cut)
      have hframe := frame_perform s (cutActs cut (confirmActs s))
      refine ⟨slots_of_eq hcore.slots rfl rfl rfl rfl le_rfl, ?_,
        fresh_of_eq hcore.fresh rfl rfl le_rfl fun q hq => .inr ⟨p, ?_, ?_⟩⟩
      · have hmemory := hcore.memory
        have hnone : p.creating = none := by
          cases hasked : p.creating with
          | none => rfl
          | some asked =>
              have hnot := (h.memory.creating p asked hprocess hasked).2.2.2.1
              exact (nomatch hgated.symm.trans hnot)
        have hold := hframe.process.trans hprocess
        refine ⟨?_, ?_, ?_, ?_, ?_⟩
        · rintro q ⟨⟩ hserving
          exact hmemory.idle p hold hserving
        · rintro q asked ⟨⟩ hasked
          exact (nomatch hnone.symm.trans hasked)
        · rintro q job ⟨⟩ hjob
          exact hmemory.job p job hold hjob
        · rintro q drain ⟨⟩ hdrain
          exact hmemory.drain p drain hold hdrain
        · intro child hchild
          obtain ⟨q, job, hq, hjob, hrest⟩ := hmemory.child child hchild
          obtain rfl := Option.some.inj (hold.symm.trans hq)
          exact ⟨_, job, rfl, hjob, hrest⟩
      · exact hframe.process.trans hprocess
      · obtain rfl := Option.some.inj hq
        rfl
    · rw [if_neg hgated]
      exact h
  · split_ifs
    · exact h
    · exact core_stop (core_free h (free_cut (free_failed s _ _) _))
  · rename_i t cut p hprocess
    exact core_turn h hprocess t cut
  · rename_i p hprocess
    cases hcreating : p.creating with
    | none => exact h
    | some asked => exact core_create h hprocess hcreating
  · refine core_free h (free_cut (fun act hmem => ?_) _)
    rcases List.mem_append.mp hmem with hmem | hmem
    · split_ifs at hmem
      · exact absurd hmem List.not_mem_nil
      · rw [List.mem_singleton.mp hmem]
        trivial
    · rw [List.mem_singleton.mp hmem]
      trivial
  · split_ifs
    · exact h
    · split
      · exact h
      · refine ⟨slots_of_eq h.slots rfl rfl rfl rfl (Nat.le_succ _),
          memory_of_eq h.memory rfl rfl rfl, ⟨?_, ?_, ?_⟩⟩
        · intro request hmem
          rcases List.mem_cons.mp hmem with rfl | hmem
          · exact ⟨⟨Nat.lt_succ_self _, fun made hmade => (h.slots.below made hmade).ne⟩, rfl, rfl⟩
          · obtain ⟨hid, hrest⟩ := h.fresh.asking request hmem
            exact ⟨hid.of_eq rfl (Nat.le_succ _), hrest⟩
        · rw [List.map_cons, List.nodup_cons]
          refine ⟨fun hmem => ?_, h.fresh.distinct⟩
          obtain ⟨request, hrequest, heq⟩ := List.mem_map.mp hmem
          exact absurd heq (h.fresh.asking request hrequest).1.1.ne
        · intro p asked hp hasked
          obtain ⟨hid, hasking, hrest⟩ := h.fresh.creating p asked hp hasked
          refine ⟨hid.of_eq rfl (Nat.le_succ _), fun request hmem => ?_, hrest⟩
          rcases List.mem_cons.mp hmem with rfl | hmem
          · exact hid.1.ne'
          · exact hasking request hmem
  · split_ifs with hmem
    · exact core_link h hmem _ _
    · exact h
  · split_ifs
    · exact ⟨slots_of_eq h.slots rfl rfl rfl rfl le_rfl, memory_of_eq h.memory rfl rfl rfl,
        fresh_of_eq h.fresh rfl rfl le_rfl fun p hp => .inr ⟨p, hp, rfl⟩⟩
    · exact h
  · rename_i next p hprocess
    split
    · exact h
    · rename_i child hchild
      split_ifs
      · exact h
      · have hframe := childStep_frame s child next hchild
        refine ⟨slots_of_eq h.slots hframe.slot hframe.made hframe.finals hframe.recorded
            hframe.drawn.ge, memory_child h.memory hchild hframe,
          fresh_of_eq h.fresh hframe.asking hframe.made hframe.drawn.ge fun q hq => .inr ⟨q, ?_, rfl⟩⟩
        rw [← hframe.process]
        exact hq
  · split_ifs
    · exact h
    · exact ⟨slots_of_eq h.slots rfl rfl rfl rfl le_rfl, memory_of_eq h.memory rfl rfl rfl,
        fresh_of_eq h.fresh rfl rfl le_rfl fun p hp => .inr ⟨p, hp, rfl⟩⟩
  · exact core_stop h
  · exact h

end Sbarbase.Updates.Proofs.Channel
