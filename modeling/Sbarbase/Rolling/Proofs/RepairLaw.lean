import Sbarbase.Rolling.Proofs.Repair
/-!
# Every repair ends with one container

The runs of the machine: what a crash leaves between any two effects, of a
replacement or of a repair, and what the next repair makes of it.
-/

namespace Sbarbase.Rolling.Proofs.RepairLaw

open Lib Shapes Repair

/-- What the process under way still has to do keeps `I`, for the answers in `A`. -/
def Guarded (I : World → Prop) (A : Bool → Prop) (s : State) : Prop :=
  Leads I A I s.world s.program

theorem guarded_of_idle {I : World → Prop} {A : Bool → Prop} {s : State}
    (hidle : s.program = []) (h : I s.world) : Guarded I A s := by
  rw [Guarded, hidle]
  exact h

/-- The step rule: what is left to show is that the two programs start well. -/
theorem guarded_step {I : World → Prop} {A : Bool → Prop} {s : State} (e : Event)
    (hreplace : ∀ old new, s.world.record = none → s.world.canonical = some old → new ≠ old.id →
      I s.world → Leads I A I s.world (replaceEffects old.id new))
    (hrepair : e = .repair → ∀ effects, repairEffects s.world = some effects → I s.world →
      Leads I A I s.world effects)
    (hanswer : ∀ running, e = .advance running → A running)
    (h : Guarded I A s) : Guarded I A (step s e) := by
  have hfirst : I s.world := h.first
  cases e with
  | replace new =>
      simp only [step]
      split
      next old _ hrecord _ hcanonical =>
        split
        next => exact h
        next hne => exact hreplace old new hrecord hcanonical hne hfirst
      next => exact h
  | repair =>
      simp only [step]
      split
      next effects _ heffects => exact hrepair rfl effects heffects hfirst
      next => exact h
  | advance running =>
      cases hprogram : s.program with
      | nil =>
          simp only [step, hprogram]
          exact h
      | cons effect rest =>
          rw [Guarded, hprogram] at h
          obtain ⟨w', happly, hleads⟩ := h.2 running (hanswer running rfl)
          simp only [step, hprogram, happly]
          exact hleads
  | abandon => exact hfirst

/-- The steps that carry a list of effects out. -/
theorem runFrom_advance {first : String} {address : Option String} {I P : World → Prop}
    {running : Bool} {w : World} {effects rest : List Effect}
    (h : Leads I (· = running) P w effects) :
    ∃ w', (machine first address).runFrom ⟨w, effects ++ rest⟩
      (effects.map fun _ => .advance running) = ⟨w', rest⟩ ∧ P w' := by
  induction effects generalizing w with
  | nil => exact ⟨w, rfl, h⟩
  | cons effect effects ih =>
      obtain ⟨w', happly, hleads⟩ := h.2 running rfl
      obtain ⟨last, hrun, hlast⟩ := ih hleads
      refine ⟨last, ?_, hlast⟩
      have hstep : (machine first address).step ⟨w, effect :: effects ++ rest⟩ (.advance running) =
          ⟨w', effects ++ rest⟩ := by
        simp only [machine, step, List.cons_append, happly]
      rw [List.map_cons, Machine.runFrom_cons, hstep, hrun]

/-- On the way every world satisfies the invariant. -/
theorem runFrom_advance_take {first : String} {address : Option String} {I P : World → Prop}
    {running : Bool} {w : World} {effects rest : List Effect} (hP : ∀ w, P w → I w)
    (h : Leads I (· = running) P w effects) (k : ℕ) :
    I ((machine first address).runFrom ⟨w, effects ++ rest⟩
      ((effects.map fun _ => .advance running).take k)).world := by
  induction effects generalizing w k with
  | nil =>
      rw [List.map_nil, List.take_nil]
      exact hP w h
  | cons effect effects ih =>
      cases k with
      | zero => exact h.1
      | succ k =>
          obtain ⟨w', happly, hleads⟩ := h.2 running rfl
          have hstep : (machine first address).step ⟨w, effect :: effects ++ rest⟩
              (.advance running) = ⟨w', effects ++ rest⟩ := by
            simp only [machine, step, List.cons_append, happly]
          rw [List.map_cons, List.take_succ_cons, Machine.runFrom_cons, hstep]
          exact ih hleads k

/-! ## Every reachable state -/

/-- Without a record the address is the container's own, if it always ran when asked. -/
def Aligned (w : World) : Prop :=
  w.record = none → ∃ id, Single id w ∧ ∀ p ∈ w.published, p = id

/-- `G` says that every container ran when `inspect` asked. -/
def Sound (G : Prop) (w : World) : Prop := Sane w ∧ (G → Aligned w)

theorem eq_of_mem_pointed {id p : String} {address : Option String}
    (h : p ∈ address.map fun _ => id) : p = id := by
  cases address with
  | none => cases h
  | some _ => exact (Option.mem_some.mp h).symm

theorem aligned_of_record {w : World} {r : Record} (h : w.record = some r) : Aligned w := by
  intro hnone
  rw [h] at hnone
  cases hnone

theorem sound_step (G : Prop) (s : State) (e : Event) (he : G → e ≠ .advance false)
    (h : Guarded (Sound G) (fun running => G → running = true) s) :
    Guarded (Sound G) (fun running => G → running = true) (step s e) := by
  refine guarded_step e ?_ ?_ ?_ h
  · rintro old new hrecord hcanonical hne ⟨hsane, haligned⟩
    obtain ⟨⟨id, hsingle⟩, hraised⟩ := (sane_none hrecord).mp hsane
    have hold : old = ⟨id, false⟩ := by
      have := hcanonical.symm.trans hsingle.canonical
      simpa using this
    subst hold
    refine leads_replace _ (fun w' hsane' hstage => ⟨hsane', fun hG => ?_⟩) hne hrecord hsingle
      hraised rfl
    cases hstage with
    | before _ hsingle' hpublished =>
        obtain ⟨id', hsingle'', haddress⟩ := haligned hG hrecord
        have hid : id' = id := by
          have := hsingle''.canonical.symm.trans hsingle.canonical
          simpa using this
        intro _
        exact ⟨id, hsingle', by rw [hpublished, ← hid]; exact haddress⟩
    | beside r hrecord' => exact aligned_of_record hrecord'
    | switched hrecord' => exact aligned_of_record hrecord'
    | retiring hrecord' => exact aligned_of_record hrecord'
    | after _ hsingle' hpublished =>
        intro _
        refine ⟨new, hsingle', fun p hp => ?_⟩
        rw [hpublished] at hp
        exact eq_of_mem_pointed hp
  · rintro - effects heffects ⟨hsane, haligned⟩
    cases hrecord : s.world.record with
    | none =>
        simp only [repairEffects, hrecord] at heffects
        rw [← Option.some.inj heffects]
        exact ⟨hsane, haligned⟩
    | some r =>
        obtain ⟨id, hkept⟩ := exists_kept hrecord hsane
        obtain ⟨before, hbefore, hleads⟩ :=
          leads_repair (fun running => G → running = true) hkept
            (fun w' h => (⟨h.sane, fun _ => aligned_of_record h.record⟩ : Sound G w')) hrecord hsane rfl
        rw [hbefore] at heffects
        rw [← Option.some.inj heffects]
        refine Leads.append (hleads.mono fun w' hrepaired => ?_)
        obtain ⟨running, hrunning, hrepaired⟩ := hrepaired
        refine Leads.cons ⟨hrepaired.sane, fun _ => aligned_of_record hrepaired.record⟩
          (fun _ => rfl) ⟨sane_settled hrepaired, fun hG _ => ?_⟩
        have hsingle := hrepaired.single
        refine ⟨id, ⟨hsingle.canonical, hsingle.temporary, hsingle.settings, hsingle.nextSettings⟩, ?_⟩
        intro p hp
        have hpointed : w'.published = s.world.published.map fun _ => id :=
          hrepaired.pointed (hrunning hG)
        have hp' : p ∈ w'.published := hp
        rw [hpointed] at hp'
        exact eq_of_mem_pointed hp'
  · rintro running rfl hG
    cases running with
    | true => rfl
    | false => exact absurd rfl (he hG)

theorem guarded_run (first : String) (address : Option String) (events : List Event) :
    Guarded (Sound ((∀ e ∈ events, e ≠ .advance false) ∧ ∀ p ∈ address, p = first))
      (fun running => ((∀ e ∈ events, e ≠ .advance false) ∧ ∀ p ∈ address, p = first) →
        running = true) ((machine first address).run events) := by
  set G := (∀ e ∈ events, e ≠ .advance false) ∧ ∀ p ∈ address, p = first
  have hsingle : Single first (machine first address).initial.world := ⟨rfl, rfl, rfl, rfl⟩
  refine Machine.run_invariant_of _ (I := Guarded (Sound G) fun running => G → running = true)
    (A := fun e => G → e ≠ .advance false) ?_ (fun s e he h => sound_step G s e he h) events
    (fun e he hG => hG.1 e he)
  exact guarded_of_idle rfl ⟨(sane_none rfl).mpr ⟨⟨first, hsingle⟩, rfl⟩, fun hG _ => ⟨first, hsingle, hG.2⟩⟩

/-! ## The law -/

/-- `id` is the only container, has its own settings and the ordinary limits, and is
the published one if it runs. -/
structure Restored (id : String) (before : World) (running : Bool) (w : World) : Prop where
  single : Single id w
  raised : w.raised = false
  published : running → w.published = before.published.map fun _ => id

/-- A repair of any state a run was cut off in: it recognises the state, none of its
commands fails, and the record is removed after everything else. -/
theorem repair_law (first : String) (address : Option String) (events : List Event) :
    let M := machine first address
    let s := M.run (events ++ [.abandon])
    ∃ effects, repairEffects s.world = some effects ∧
      (s.world.record = none → effects = [] ∧ s.world.raised = false ∧ ∃ id, Single id s.world ∧
        ((∀ e ∈ events, e ≠ .advance false) → (∀ p ∈ address, p = first) →
          ∀ p ∈ s.world.published, p = id)) ∧
      ∀ r, s.world.record = some r →
        ∃ id before, effects = before ++ [.settle] ∧
          (r.phase = .starting ∨ r.phase = .switched → id = r.old) ∧
          (r.phase = .retiring → r.new = some id) ∧
          ∀ running, ∃ w,
            M.runFrom s (.repair :: before.map fun _ => .advance running) = ⟨w, [.settle]⟩ ∧
            w.record = some r ∧ Restored id s.world running w ∧
            M.runFrom s (.repair :: effects.map fun _ => .advance running) =
              ⟨{ w with record := none }, []⟩ ∧
            ∀ k, (M.runFrom s
              (.repair :: (before.map fun _ => .advance running).take k)).world.record = some r := by
  intro M s
  have hguarded := guarded_run first address (events ++ [.abandon])
  obtain ⟨hsane, haligned⟩ := Leads.first hguarded
  have hidle : s.program = [] := by
    have hs : s = M.step (M.run events) .abandon := M.run_snoc events .abandon
    rw [hs]
    rfl
  cases hrecord : s.world.record with
  | none =>
      obtain ⟨⟨id, hsingle⟩, hraised⟩ := (sane_none hrecord).mp hsane
      refine ⟨[], by simp only [repairEffects, hrecord], fun _ => ⟨rfl, hraised, id, hsingle, ?_⟩,
        fun _ h => by cases h⟩
      intro hrunning hfirst
      have hall : ∀ e ∈ events ++ [.abandon], e ≠ Event.advance false := by
        intro e he
        rcases List.mem_append.mp he with h | h
        · exact hrunning e h
        · rw [List.mem_singleton.mp h]
          exact fun h => by cases h
      obtain ⟨id', hsingle', hpublished⟩ := haligned ⟨hall, hfirst⟩ hrecord
      have hid : id' = id := by
        have := hsingle'.canonical.symm.trans hsingle.canonical
        simpa using this
      exact hid ▸ hpublished
  | some r =>
      obtain ⟨id, hkept⟩ := exists_kept hrecord hsane
      have hbranch := fun A => leads_repair (I := Under r id s.world.published) A hkept
        (fun _ h => h) hrecord hsane rfl
      obtain ⟨before, hbefore, -⟩ := hbranch fun _ => True
      refine ⟨before ++ [.settle], hbefore, fun h => (by cases h), ?_⟩
      rintro _ ⟨⟩
      refine ⟨id, before, rfl, ?_, ?_, fun running => ?_⟩
      · intro hphase
        have hundo : r.phase ≠ .retiring := by
          rcases hphase with h | h <;> simp [h]
        rw [kept, if_neg hundo] at hkept
        exact (Option.some.inj hkept).symm
      · intro hphase
        rwa [kept, if_pos hphase] at hkept
      · obtain ⟨before', hbefore', hleads⟩ := hbranch (· = running)
        have heq : before' = before := by
          have := hbefore'.symm.trans hbefore
          simpa using this
        subst heq
        have hstart : M.step s .repair = ⟨s.world, before' ++ [.settle]⟩ := by
          have hstep : M.step = step := rfl
          simp only [hstep, step, hidle, hbefore]
        have hbefore_run : ∃ w, M.runFrom ⟨s.world, before' ++ [.settle]⟩
            (before'.map fun _ => .advance running) = ⟨w, [.settle]⟩ ∧
            ∃ answer, answer = running ∧ Repaired r id s.world.published answer w :=
          runFrom_advance hleads
        obtain ⟨w, hrun, answer, rfl, hrepaired⟩ := hbefore_run
        have hsettle : M.step ⟨w, [.settle]⟩ (.advance answer) = ⟨{ w with record := none }, []⟩ := rfl
        refine ⟨w, ?_, hrepaired.record, ⟨hrepaired.single, hrepaired.raised, hrepaired.pointed⟩, ?_, ?_⟩
        · rw [Machine.runFrom_cons, hstart, hrun]
        · rw [Machine.runFrom_cons, hstart, List.map_append, Machine.runFrom_append, hrun]
          exact hsettle
        · intro k
          rw [Machine.runFrom_cons, hstart]
          have hunder : Under r id s.world.published (M.runFrom ⟨s.world, before' ++ [.settle]⟩
              ((before'.map fun _ => .advance answer).take k)).world :=
            runFrom_advance_take (fun _ h => h.choose_spec.2.toUnder) hleads k
          exact hunder.record

end Sbarbase.Rolling.Proofs.RepairLaw
