import Sbarbase.Rolling.Proofs.RepairLaw
/-!
# Where the published address leads

The address names a container that serves, except after a repair that begins
once the address is the new container's: that repair removes the new container
first and publishes the old one's address last.
-/

namespace Sbarbase.Rolling.Proofs.Address

open Lib Shapes Repair RepairLaw

/-- The published address is that of a container that is there and was not stopped. -/
def Serves (w : World) : Prop :=
  ∀ p ∈ w.published, w.canonical = some ⟨p, false⟩ ∨ w.temporary = some ⟨p, false⟩

instance (w : World) : Decidable (Serves w) := by unfold Serves; infer_instance

/-- The record says `switched`, and the address is the new container's already. -/
def Exposed (w : World) : Prop :=
  ∃ r ∈ w.record, r.phase = .switched ∧ r.new.isSome ∧ w.published = r.new

instance (w : World) : Decidable (Exposed w) := by unfold Exposed; infer_instance

/-- What the address may be under each record. -/
inductive Fit (w : World) : Prop
  | single (id : String) (hrecord : w.record = none) (hsingle : Single id w)
      (hpublished : ∀ p ∈ w.published, p = id)
  | kept (r : Record) (id : String) (hrecord : w.record = some r) (hkept : kept r = some id)
      (hpublished : ∀ p ∈ w.published, p = id)
  | watched (r : Record) (new : String) (hrecord : w.record = some r) (hphase : r.phase = .switched)
      (hnew : r.new = some new) (htemporary : w.temporary = some ⟨new, false⟩)
      (hpublished : ∀ p ∈ w.published, p = new)

/-- The container that keeps the name is there all along. -/
theorem kept_serves {w : World} {r : Record} {id : String} (hrecord : w.record = some r)
    (hsane : Sane w) (hkept : kept r = some id) :
    w.canonical = some ⟨id, false⟩ ∨ w.temporary = some ⟨id, false⟩ := by
  by_cases hphase : r.phase = .retiring
  · obtain ⟨new, hnew, -, hretiring⟩ := (sane_retiring hrecord hphase).mp hsane
    rw [kept, if_pos hphase, hnew] at hkept
    obtain rfl := Option.some.inj hkept
    cases hretiring with
    | both _ _ htemporary => exact .inr htemporary
    | removed _ htemporary => exact .inr htemporary
    | renamed hcanonical => exact .inl hcanonical
    | taken hsingle => exact .inl hsingle.canonical
  · have hbeside := (sane_beside hrecord hphase).mp hsane
    rw [kept, if_neg hphase] at hkept
    obtain rfl := Option.some.inj hkept
    exact .inl hbeside.canonical

theorem serves_of_fit {w : World} (hsane : Sane w) (h : Fit w) : Serves w := by
  intro p hp
  cases h with
  | single id _ hsingle hpublished =>
      rw [hpublished p hp]
      exact .inl hsingle.canonical
  | kept r id hrecord hkept hpublished =>
      rw [hpublished p hp]
      exact kept_serves hrecord hsane hkept
  | watched r new _ _ _ htemporary hpublished =>
      rw [hpublished p hp]
      exact .inr htemporary

/-- A replacement keeps the address on a container that serves. -/
theorem fit_of_stage {w w' : World} {old new : String} (hpublished : ∀ p ∈ w.published, p = old)
    (h : Stage old new w.published w') : Fit w' := by
  cases h with
  | before hrecord hsingle heq => exact .single old hrecord hsingle (heq ▸ hpublished)
  | beside r hrecord hphase hold heq =>
      exact .kept r old hrecord (by rw [kept, if_neg hphase, hold]) (heq ▸ hpublished)
  | switched hrecord htemporary heq =>
      exact .watched _ new hrecord rfl rfl htemporary fun p hp => eq_of_mem_pointed (heq ▸ hp)
  | retiring hrecord heq =>
      exact .kept _ new hrecord rfl fun p hp => eq_of_mem_pointed (heq ▸ hp)
  | after hrecord hsingle heq =>
      exact .single new hrecord hsingle fun p hp => eq_of_mem_pointed (heq ▸ hp)

theorem fit_of_under {w : World} {r : Record} {id : String} {address : Option String}
    (hkept : kept r = some id) (hpublished : ∀ p ∈ address, p = id) (h : Under r id address w) :
    Fit w := by
  refine .kept r id h.record hkept fun p hp => ?_
  rcases h.published with heq | heq
  · exact hpublished p (heq ▸ hp)
  · exact eq_of_mem_pointed (heq ▸ hp)

/-- Nothing but a repair of an exposed world lets go of the address. -/
def Careful (s : State) (e : Event) : Prop := e = .repair → s.program = [] → ¬ Exposed s.world

theorem fit_step (s : State) (e : Event) (he : Careful s e)
    (h : Guarded (fun w => Sane w ∧ Fit w) (fun _ => True) s) :
    Guarded (fun w => Sane w ∧ Fit w) (fun _ => True) (step s e) := by
  by_cases hidle : e = .repair ∧ s.program ≠ []
  · have hbusy : step s e = s := by
      rw [hidle.1]
      cases hprogram : s.program with
      | nil => exact absurd hprogram hidle.2
      | cons effect rest => simp only [step, hprogram]
    rw [hbusy]
    exact h
  refine guarded_step e ?_ ?_ (fun _ _ => trivial) h
  · rintro old new hrecord hcanonical hne ⟨hsane, hfit⟩
    cases hfit with
    | single id _ hsingle hpublished =>
        have hold : old = ⟨id, false⟩ := by
          have := hcanonical.symm.trans hsingle.canonical
          simpa using this
        subst hold
        exact leads_replace _ (fun w' hsane' hstage => ⟨hsane', fit_of_stage hpublished hstage⟩) hne
          hrecord hsingle ((sane_none hrecord).mp hsane).2 rfl
    | kept r _ hrecord' => rw [hrecord] at hrecord'; cases hrecord'
    | watched r _ hrecord' => rw [hrecord] at hrecord'; cases hrecord'
  · rintro hrepair effects heffects ⟨hsane, hfit⟩
    have hprogram : s.program = [] := by
      by_contra hbusy
      exact hidle ⟨hrepair, hbusy⟩
    have hclosed : ¬ Exposed s.world := he hrepair hprogram
    cases hrecord : s.world.record with
    | none =>
        simp only [repairEffects, hrecord] at heffects
        rw [← Option.some.inj heffects]
        exact ⟨hsane, hfit⟩
    | some r =>
        have hkept : ∃ id, kept r = some id ∧ ∀ p ∈ s.world.published, p = id := by
          cases hfit with
          | single _ hnone => rw [hrecord] at hnone; cases hnone
          | kept r' id hrecord' hkept hpublished =>
              rw [hrecord] at hrecord'
              obtain rfl := Option.some.inj hrecord'
              exact ⟨id, hkept, hpublished⟩
          | watched r' new hrecord' hphase hnew _ hpublished =>
              rw [hrecord] at hrecord'
              obtain rfl := Option.some.inj hrecord'
              cases haddress : s.world.published with
              | none =>
                  obtain ⟨id, hid⟩ := exists_kept hrecord hsane
                  exact ⟨id, hid, by simp⟩
              | some p =>
                  have hp : p = new := hpublished p (by rw [haddress]; rfl)
                  refine absurd ⟨r, by rw [hrecord]; rfl, hphase, by rw [hnew]; rfl, ?_⟩ hclosed
                  rw [haddress, hnew, hp]
        obtain ⟨id, hkept, hpublished⟩ := hkept
        have hunder : ∀ w, Under r id s.world.published w → Sane w ∧ Fit w :=
          fun w hw => ⟨hw.sane, fit_of_under hkept hpublished hw⟩
        obtain ⟨before, hbefore, hleads⟩ :=
          leads_repair (fun _ => True) hkept hunder hrecord hsane rfl
        rw [hbefore] at heffects
        rw [← Option.some.inj heffects]
        refine Leads.append (hleads.mono fun w' hrepaired => ?_)
        obtain ⟨_, -, hrepaired⟩ := hrepaired
        refine Leads.cons (hunder w' hrepaired.toUnder) (fun _ => rfl) ⟨sane_settled hrepaired, ?_⟩
        have hsingle := hrepaired.single
        refine .single id rfl
          ⟨hsingle.canonical, hsingle.temporary, hsingle.settings, hsingle.nextSettings⟩ ?_
        intro p hp
        rcases hrepaired.published with heq | heq
        · exact hpublished p (heq ▸ hp)
        · have hp' : p ∈ w'.published := hp
          exact eq_of_mem_pointed (heq ▸ hp')

/-- The first effect of a repair of an exposed world takes the published container away. -/
theorem not_serves_repair {first : String} {address : Option String} {s : State} (running : Bool)
    (hsane : Sane s.world) (hidle : s.program = []) (hexposed : Exposed s.world) :
    ¬ Serves ((machine first address).runFrom s [.repair, .advance running]).world := by
  obtain ⟨r, hr, hphase, hsome, haddress⟩ := hexposed
  have hrecord : s.world.record = some r := hr
  have hundo : r.phase ≠ .retiring := by simp [hphase]
  have hbeside := (sane_beside hrecord hundo).mp hsane
  obtain ⟨new, hnew⟩ := Option.isSome_iff_exists.mp hsome
  have hother : new ≠ r.old := hbeside.other new hnew
  -- What is left cannot serve: only the old container is there.
  have hgone : ∀ w : World, w.canonical = some ⟨r.old, false⟩ → w.temporary = none →
      w.published = r.new → ¬ Serves w := by
    intro w hcanonical htemporary hpublished hserves
    rcases hserves new (by rw [hpublished]; exact hnew) with h | h
    · rw [hcanonical] at h
      exact hother (congrArg Container.id (Option.some.inj h)).symm
    · rw [htemporary] at h
      cases h
  have heffects : repairEffects s.world =
      some (((s.world.temporary.map fun c => Effect.remove c.id).toList ++ [.dropSettings]) ++
        [.publish, .narrow, .settle]) := by
    simp only [repairEffects, hrecord, steps_beside hundo hbeside, Option.map_some]
  have hstep : (machine first address).step = step := rfl
  simp only [Machine.runFrom_cons, Machine.runFrom_nil, hstep, step, hidle, heffects]
  cases htemporary : s.world.temporary with
  | none => exact hgone _ hbeside.canonical htemporary haddress
  | some c =>
      have hremove := remove_beside hbeside htemporary
      simp only [Option.map_some, Option.toList_some, List.cons_append, List.nil_append,
        World.apply, hremove]
      exact hgone _ hbeside.canonical rfl haddress

/-- The address leads to a container that serves in every run whose repairs never start
in an exposed world, and a repair that does start there takes the container away. -/
theorem address_law (first : String) (published : Bool) : (∀ events,
      (machine first (if published then some first else none)).Along Careful
        (machine first (if published then some first else none)).initial events →
      Serves ((machine first (if published then some first else none)).run events).world) ∧
    ∀ events running,
      ¬ Careful ((machine first (if published then some first else none)).run events) .repair →
      ¬ Serves ((machine first (if published then some first else none)).run
        (events ++ [.repair, .advance running])).world := by
  constructor
  · intro events halong
    have hinitial : Guarded (fun w => Sane w ∧ Fit w) (fun _ => True)
        (machine first (if published then some first else none)).initial := by
      have hsingle : Single first
          (machine first (if published then some first else none)).initial.world :=
        ⟨rfl, rfl, rfl, rfl⟩
      refine guarded_of_idle rfl ⟨(sane_none rfl).mpr ⟨⟨first, hsingle⟩, rfl⟩, ?_⟩
      refine .single first rfl hsingle fun p hp => ?_
      cases published with
      | true => exact (Option.mem_some.mp hp).symm
      | false => cases hp
    have hguarded := Machine.run_invariant_along _ hinitial (fun s e he h => fit_step s e he h)
      events halong
    obtain ⟨hsane, hfit⟩ := Leads.first hguarded
    exact serves_of_fit hsane hfit
  · intro events running hcareless
    obtain ⟨hsane, -⟩ := Leads.first (guarded_run first (if published then some first else none) events)
    obtain ⟨hidle, hexposed⟩ :
        ((machine first (if published then some first else none)).run events).program = [] ∧
          Exposed ((machine first (if published then some first else none)).run events).world := by
      by_contra h
      exact hcareless fun _ hidle hexposed => h ⟨hidle, hexposed⟩
    rw [Machine.run_append]
    exact not_serves_repair running hsane hidle hexposed

/-- The new container misses a health answer in the watch window. -/
theorem missed_answer_unpublished :
    ∃ events : List Event, ¬ Serves ((machine "old" (some "old")).run events).world :=
  ⟨.replace "new" :: List.replicate 7 (.advance true) ++ [.abandon, .repair, .advance true],
    by decide⟩

end Sbarbase.Rolling.Proofs.Address
