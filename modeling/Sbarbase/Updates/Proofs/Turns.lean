import Sbarbase.Updates.Proofs.Slot
/-!
# What a turn does

The memory of a supervisor names the request in the slot, and every turn of
`schedule_updates` has one of six forms.
-/

namespace Sbarbase.Updates.Proofs.Turns

open Lib Updates Updates.Proofs.Slot

/-- The request as a child is started for it. -/
def begun (request : Request) (moment : Moment) : Request :=
  { request with state := .running, startedAt := some (stamp moment) }

theorem follows_begun (request : Request) (moment : Moment) :
    Follows request (begun request moment) := ⟨rfl, rfl, rfl, rfl, rfl, rfl, rfl⟩

/-- A job, the drain before it and the child agree with the slot. -/
structure Memory (s : System) : Prop where
  idle : ∀ p, s.process = some p → p.serving = false → p.update = none ∧ p.drain = none
  creating : ∀ p asked, s.process = some p → p.creating = some asked →
    p.update = none ∧ p.drain = none ∧ p.serving = true ∧ p.gated = false ∧ s.child = none
  job : ∀ p job, s.process = some p → p.update = some job → p.drain = none ∧
    (∀ request, job.request = some request → s.slot = some request ∧
      request.state = .running ∧ job.run = request.id ∧ job.kind = request.kind) ∧
    (job.request = none → job.kind = .check ∧
      ∀ request, s.slot = some request → request.state = .requested)
  drain : ∀ p drain, s.process = some p → p.drain = some drain →
    s.slot = some drain.request ∧ drain.request.state = .running ∧
      drain.kind = drain.request.kind ∧
      (drain.kind = .apply → drain.release = drain.request.version)
  child : ∀ child, s.child = some child → ∃ p job, s.process = some p ∧ p.update = some job ∧
    child.run = job.run ∧ child.kind = job.kind ∧
    (job.kind = .apply → ∃ request, job.request = some request ∧
      child.version = request.version ∧
      child.automatic = decide (request.trigger = .automatic))

/-- The forms of a turn. -/
inductive Turned (s : System) (p : Process) (t : Turn) : Plan → Prop
  | ended {job : Job} {ok : Bool} (update : p.update = some job)
      (status : s.child.bind Child.status = some ok) : Turned s p t (updateFinished s p job ok t)
  | finished {request : Request} {state : Progress} {detail : Option String} {stopping : Bool}
      (update : p.update = none) (slot : s.slot = some request) (final : state.final = true)
      (same : request.state.final = false ∨ state = request.state) :
      Turned s p t ⟨finishRequest s.slot request state detail t.moment,
        { p with drain := none, stopping }, none⟩
  | began {request : Request} {release : Option String} {acts : List Act}
      (update : p.update = none) (slot : s.slot = some request)
      (opened : request.state.final = false)
      (acts_eq : acts = [.slot (begun request t.moment)] ∨
        acts = [.slot (begun request t.moment), .slot (begun request t.moment)])
      (release_eq : request.kind = .apply → release = request.version) :
      Turned s p t ⟨acts,
        { p with
          update := some ⟨request.kind, some (begun request t.moment), request.id⟩
          drain := none },
        some ⟨request.kind, request.id, release, decide (request.trigger = .automatic),
          false, false, false, none⟩⟩
  | drained {request : Request} {release : Option String}
      (update : p.update = none) (slot : s.slot = some request)
      (opened : request.state.final = false)
      (release_eq : request.kind = .apply → release = request.version) :
      Turned s p t ⟨[.slot (begun request t.moment)],
        { p with drain := some ⟨request.kind, begun request t.moment, release⟩ }, none⟩
  | periodic (update : p.update = none) (drain : p.drain = none) (slot : s.slot = none) :
      Turned s p t ⟨[], { p with update := some ⟨.check, none, s.drawn⟩, drain := none },
        some ⟨.check, s.drawn, none, false, false, false, false, none⟩⟩
  | automatic {release : Release} (update : p.update = none) (drain : p.drain = none)
      (slot : s.slot = none)
      (chosen : automaticRelease s.settings s.available s.upgrade t.moment t.backup s.ledger =
        some release) :
      Turned s p t ⟨[.mark release.version (.tried (stamp t.moment))],
        { p with
          update := none
          drain := none
          creating := some ⟨createRequest s.drawn .apply (some release.version) .automatic
            (stamp t.moment), t.moment, s.settings⟩ }, none⟩

theorem eq_withoutDrain {p : Process} (h : p.drain = none) :
    p = { p with drain := none, stopping := p.stopping } := by
  cases p
  simp only [Process.mk.injEq, and_true, true_and] at h ⊢
  exact h

theorem startUpdate_own {s : System} {p : Process} {request : Request} {release : Option String}
    {moment : Moment} (hslot : s.slot = some request) :
    startUpdate s p request.kind (some request) release moment =
      ⟨[.slot (begun request moment)],
        { p with
          update := some ⟨request.kind, some (begun request moment), request.id⟩
          drain := none },
        some ⟨request.kind, request.id, release, decide (request.trigger = .automatic),
          false, false, false, none⟩⟩ := by
  have hupdate : updateRequest s.slot request moment = some (begun request moment) :=
    updateRequest_own hslot rfl moment
  simp only [startUpdate, Option.bind_some, hupdate]
  rfl

/-- A drain whose request the slot holds. -/
theorem continueDrain_cases {s : System} {p : Process} {drain : Drain} {t : Turn} {plan : Plan}
    (hkind : drain.kind = drain.request.kind)
    (h : continueDrain s p drain t = some plan) :
    plan = startUpdate s p drain.request.kind (some drain.request) drain.release t.moment ∨
    plan = ⟨finishRequest s.slot drain.request .failed (some drainTimeout) t.moment,
      s.resumeWork { p with drain := none }, none⟩ ∧ t.expired = true := by
  unfold continueDrain at h
  split_ifs at h with hidle hexpired
  · obtain rfl := Option.some.inj h
    rw [hkind]
    exact .inl rfl
  · exact .inr ⟨(Option.some.inj h).symm, hexpired⟩

theorem beginDrain_turned {s : System} {p : Process} {t : Turn} {request : Request}
    {release : Option String} (hupdate : p.update = none)
    (hslot : s.slot = some request) (hopen : request.state.final = false)
    (hrelease : request.kind = .apply → release = request.version) :
    Turned s p t (beginDrain s p request.kind request release t) := by
  have hown : updateRequest s.slot request t.moment = some (begun request t.moment) :=
    updateRequest_own hslot rfl t.moment
  unfold beginDrain
  simp only [hown, Option.toList_some, List.map_cons, List.map_nil, Option.getD_some]
  cases hnext : continueDrain (s.perform [Act.slot (begun request t.moment)]) p
      ⟨request.kind, begun request t.moment, release⟩ { t with expired := false } with
  | none => exact .drained hupdate hslot hopen hrelease
  | some plan =>
      have hperformed : (s.perform [Act.slot (begun request t.moment)]).slot =
          some (begun request t.moment) := rfl
      rcases continueDrain_cases rfl hnext with rfl | ⟨-, hexpired⟩
      · rw [startUpdate_own hperformed]
        exact @Turned.began s p t request release _ hupdate hslot hopen (.inr rfl) hrelease
      · exact (nomatch hexpired)

theorem startRequest_turned {s : System} {p : Process} {t : Turn} {request : Request}
    {plan : Plan} (hupdate : p.update = none) (hdrain : p.drain = none)
    (hslot : s.slot = some request) (hstate : request.state = .requested)
    (h : startRequest s p request t = some plan) : Turned s p t plan := by
  have hopen : request.state.final = false := by rw [hstate]; rfl
  have hrefused : ∀ reason : Option String, Turned s p t
      ⟨finishRequest s.slot request .failed reason t.moment, p, none⟩ := by
    intro reason
    rw [eq_withoutDrain hdrain]
    exact .finished hupdate hslot rfl (.inl hopen)
  unfold startRequest at h
  split at h
  · rename_i hkind
    obtain rfl := Option.some.inj h
    rw [← hkind, startUpdate_own hslot]
    exact .began hupdate hslot hopen (.inl rfl) fun happly => by
      rw [hkind] at happly
      exact (nomatch happly)
  · rename_i hkind
    split_ifs at h
    simp only at h
    split at h
    · obtain rfl := Option.some.inj h
      exact hrefused _
    · obtain rfl := Option.some.inj h
      rw [← hkind]
      exact beginDrain_turned hupdate hslot hopen fun _ => rfl
  · rename_i hkind
    split_ifs at h
    simp only at h
    split at h
    · obtain rfl := Option.some.inj h
      exact hrefused _
    · obtain rfl := Option.some.inj h
      rw [← hkind]
      exact beginDrain_turned hupdate hslot hopen fun happly => by
        rw [hkind] at happly
        exact (nomatch happly)

/-- Every turn has one of the forms. -/
theorem turned {s : System} {p : Process} {t : Turn} {plan : Plan} (hmemory : Memory s)
    (hprocess : s.process = some p) (h : scheduleUpdates s p t = some plan) :
    Turned s p t plan := by
  unfold scheduleUpdates at h
  cases hupdate : p.update with
  | some job =>
      simp only [hupdate] at h
      cases hstatus : s.child.bind Child.status with
      | none => rw [hstatus] at h; exact (nomatch h)
      | some ok =>
          rw [hstatus] at h
          obtain rfl := Option.some.inj h
          exact .ended hupdate hstatus
  | none =>
      simp only [hupdate] at h
      cases hdrain : p.drain with
      | some drain =>
          simp only [hdrain] at h
          obtain ⟨hslot, hstate, hkind, hrelease⟩ := hmemory.drain p drain hprocess hdrain
          have hopen : drain.request.state.final = false := by rw [hstate]; rfl
          rcases continueDrain_cases hkind h with rfl | ⟨rfl, -⟩
          · rw [startUpdate_own hslot]
            exact .began hupdate hslot hopen (.inl rfl) fun happly =>
              hrelease (hkind.trans happly)
          · exact .finished hupdate hslot rfl (.inl hopen)
      | none =>
          simp only [hdrain] at h
          cases hslot : s.slot with
          | some request =>
              simp only [hslot] at h
              split_ifs at h with hstate hfinal
              · exact startRequest_turned hupdate hdrain hslot hstate h
              · obtain rfl := Option.some.inj h
                rw [← hslot]
                rw [eq_withoutDrain hdrain]
                exact .finished hupdate hslot hfinal (.inr rfl)
              · obtain rfl := Option.some.inj h
                rw [← hslot]
                rw [eq_withoutDrain hdrain]
                exact .finished hupdate hslot rfl (.inl (by simpa using hfinal))
          | none =>
              simp only [hslot] at h
              by_cases hdue : (s.settings.check && t.due) = true
              · rw [if_pos hdue] at h
                obtain rfl := Option.some.inj h
                exact .periodic hupdate hdrain hslot
              · rw [if_neg hdue] at h
                split at h
                · exact (nomatch h)
                · rename_i release hchosen
                  split_ifs at h
                  obtain rfl := Option.some.inj h
                  exact .automatic hupdate hdrain hslot hchosen

end Sbarbase.Updates.Proofs.Turns
