import Sbarbase.Rolling.Proofs.Shapes
/-!
# What a repair finds and leaves

Every effect of `replace` and of `repair` keeps `Sane`. A repair therefore
always finds one of its shapes, and each of them leads to a single container.
-/

namespace Sbarbase.Rolling.Proofs.Repair

open Lib Shapes

/-! ## A repair -/

/-- The container that keeps the name. -/
def kept (r : Record) : Option String := if r.phase = .retiring then r.new else some r.old

/-- What holds all along a repair that keeps `id`. -/
structure Under (r : Record) (id : String) (address : Option String) (w : World) : Prop where
  sane : Sane w
  record : w.record = some r
  published : w.published = address ∨ w.published = address.map fun _ => id

/-- The world once only `id` is left. -/
structure Left (r : Record) (id : String) (address : Option String) (w : World) : Prop
    extends Under r id address w where
  single : Single id w

/-- What a repair has done before it removes the record. -/
structure Repaired (r : Record) (id : String) (address : Option String) (running : Bool)
    (w : World) : Prop extends Left r id address w where
  raised : w.raised = false
  pointed : running → w.published = address.map fun _ => id

/-- `point`, `narrow`: nothing that `Sane` reads under a record. -/
theorem sane_of_single {id : String} {w w' : World} {r : Record} (hrecord : w.record = some r)
    (hsane : Sane w) (hsingle : Single id w) (hsingle' : Single id w') (hrecord' : w'.record = some r) :
    Sane w' := by
  by_cases hphase : r.phase = .retiring
  · obtain ⟨new, hnew, hne, hretiring⟩ := (sane_retiring hrecord hphase).mp hsane
    rw [sane_retiring hrecord' hphase]
    have hcanonical := hsingle.canonical
    have htemporary := hsingle.temporary
    have hnext := hsingle.nextSettings
    refine ⟨new, hnew, hne, ?_⟩
    cases hretiring with
    | both _ _ h => simp [htemporary] at h
    | removed _ h => simp [htemporary] at h
    | renamed _ _ h => simp [hnext] at h
    | taken h =>
        have hid : id = new := by
          have := hcanonical.symm.trans h.canonical
          simpa using this
        exact .taken (hid ▸ hsingle')
  · have hbeside := (sane_beside hrecord hphase).mp hsane
    have hid : id = r.old := by
      have := hsingle.canonical.symm.trans hbeside.canonical
      simpa using this
    rw [sane_beside hrecord' hphase]
    exact ⟨hid ▸ hsingle'.canonical, by simp [hsingle'.temporary], hid ▸ hsingle'.settings,
      hbeside.other⟩

theorem single_published {id : String} {w : World} (h : Single id w) (address : Option String) :
    Single id { w with published := address } :=
  ⟨h.canonical, h.temporary, h.settings, h.nextSettings⟩

theorem single_raised {id : String} {w : World} (h : Single id w) (raised : Bool) :
    Single id { w with raised := raised } :=
  ⟨h.canonical, h.temporary, h.settings, h.nextSettings⟩

theorem publish_eq {id : String} {w : World} (hcanonical : w.canonical = some ⟨id, false⟩)
    (running : Bool) : w.publish running = if running then w.point id else w := by
  simp [World.publish, hcanonical]

section

variable {I : World → Prop} {w : World} {r : Record} {id new : String} {address : Option String}

theorem Under.with_published (h : Under r id address w) (hsingle : Single id w)
    {published : Option String}
    (hpublished : published = address ∨ published = address.map fun _ => id) :
    Left r id address { w with published := published } where
  sane := sane_of_single h.record h.sane hsingle (single_published hsingle published) h.record
  record := h.record
  published := hpublished
  single := single_published hsingle published

/-- The end every branch of `repair` shares, up to the record. -/
theorem leads_closing (A : Bool → Prop) (hI : ∀ w, Under r id address w → I w)
    (h : Left r id address w) :
    Leads I A (fun w' => ∃ running, A running ∧ Repaired r id address running w') w
      [.publish, .narrow] := by
  refine ⟨hI w h.toUnder, fun running hrunning => ?_⟩
  have hpublish : ∃ published, w.publish running = { w with published := published } ∧
      (published = address ∨ published = address.map fun _ => id) ∧
      (running → published = address.map fun _ => id) := by
    rw [publish_eq h.single.canonical]
    cases running with
    | true =>
        have hpoint : (w.published.map fun _ => id) = address.map fun _ => id := by
          rcases h.published with heq | heq
          · rw [heq]
          · rw [heq, Option.map_map]
            rfl
        exact ⟨_, rfl, .inr hpoint, fun _ => hpoint⟩
    | false => exact ⟨w.published, rfl, h.published, nofun⟩
  obtain ⟨published, heq, haddress, hpointed⟩ := hpublish
  have hleft : Left r id address { w with published := published } :=
    h.toUnder.with_published h.single haddress
  refine ⟨_, congrArg some heq, hI _ hleft.toUnder, fun _ _ => ⟨_, rfl, running, hrunning, ?_⟩⟩
  have hsingle := single_raised hleft.single false
  have hsane := sane_of_single hleft.record hleft.sane hleft.single hsingle hleft.record
  exact ⟨⟨⟨hsane, hleft.record, haddress⟩, hsingle⟩, rfl, hpointed⟩

theorem remove_beside {c : Container} (hbeside : Beside r w) (htemporary : w.temporary = some c) :
    w.remove c.id = some { w with temporary := none } := by
  have hother : c.id ≠ r.old := (hbeside.temporary c htemporary).2.1
  have hfirst : ¬ (w.canonical.map Container.id = some c.id) := by
    simpa [hbeside.canonical] using Ne.symm hother
  rw [World.remove, if_neg hfirst, if_pos (by simp [htemporary])]

theorem steps_beside (hphase : r.phase ≠ .retiring) (hbeside : Beside r w) :
    repairSteps r w.canonical w.temporary =
      some ((w.temporary.map fun c => Effect.remove c.id).toList ++ [.dropSettings]) := by
  have hknown : ¬ ∃ c ∈ w.temporary, ∃ new ∈ r.new, c.id ≠ new := by
    rintro ⟨c, hc, new, hnew, hne⟩
    exact hne ((hbeside.temporary c hc).2.2 new hnew)
  have hearly : r.phase = .starting ∨ r.phase = .switched := by
    cases h : r.phase with
    | starting => exact .inl rfl
    | switched => exact .inr rfl
    | retiring => exact absurd h hphase
  have hcurrent : w.canonical.map Container.id = some r.old := by rw [hbeside.canonical]; rfl
  rw [repairSteps, if_neg hknown, if_pos ⟨hearly, hcurrent⟩]

/-- The branch taken before the switch, and after it while the new one is watched. -/
theorem leads_undo (A : Bool → Prop) (hI : ∀ w, Under r r.old address w → I w)
    (hrecord : w.record = some r) (hphase : r.phase ≠ .retiring) (hbeside : Beside r w)
    (hpublished : w.published = address) :
    Leads I A (Left r r.old address) w
      ((w.temporary.map fun c => Effect.remove c.id).toList ++ [.dropSettings]) := by
  have hunder : ∀ w' : World, w'.record = some r → w'.published = address → Beside r w' →
      Under r r.old address w' := by
    intro w' hrecord' hpublished' hbeside'
    exact ⟨sane_of_beside hrecord' hphase hbeside', hrecord', .inl hpublished'⟩
  have hdrop : ∀ w' : World, w'.record = some r → w'.published = address →
      w'.temporary = none → Beside r w' → Leads I A (Left r r.old address) w' [.dropSettings] := by
    intro w' hrecord' hpublished' htemporary hbeside'
    refine Leads.cons (hI w' (hunder w' hrecord' hpublished' hbeside')) (fun _ => rfl) ?_
    have hbeside'' : Beside r { w' with nextSettings := none } :=
      ⟨hbeside'.canonical, hbeside'.temporary, hbeside'.settings, hbeside'.other⟩
    exact ⟨hunder _ hrecord' hpublished' hbeside'',
      ⟨hbeside'.canonical, htemporary, hbeside'.settings, rfl⟩⟩
  cases htemporary : w.temporary with
  | none => exact hdrop w hrecord hpublished htemporary hbeside
  | some c =>
      have hremove := remove_beside hbeside htemporary
      refine Leads.cons (hI w (hunder w hrecord hpublished hbeside)) (fun _ => hremove) ?_
      exact hdrop _ hrecord hpublished rfl
        ⟨hbeside.canonical, by simp, hbeside.settings, hbeside.other⟩

/-- The settings file of the container that took the name. -/
theorem leads_take (A : Bool → Prop) (hI : ∀ w, Under r new address w → I w)
    (hrecord : w.record = some r) (hphase : r.phase = .retiring) (hnew : r.new = some new)
    (hne : new ≠ r.old) (hpublished : w.published = address)
    (hcanonical : w.canonical = some ⟨new, false⟩) (htemporary : w.temporary = none)
    (hnext : w.nextSettings = some new ∨ w.nextSettings = none ∧ w.settings = some new) :
    Leads I A (Left r new address) w [.takeSettings] := by
  have hsane : Sane w := by
    rcases hnext with hnext | ⟨hnext, hsettings⟩
    · exact sane_of_retiring hrecord hphase hnew hne (.renamed hcanonical htemporary hnext)
    · exact sane_of_retiring hrecord hphase hnew hne
        (.taken ⟨hcanonical, htemporary, hsettings, hnext⟩)
  have hsingle : Single new w.takeSettings := by
    rcases hnext with hnext | ⟨hnext, hsettings⟩
    · simp only [World.takeSettings, hnext]
      exact ⟨hcanonical, htemporary, rfl, rfl⟩
    · simp only [World.takeSettings, hnext]
      exact ⟨hcanonical, htemporary, hsettings, hnext⟩
  have hrest : w.takeSettings.record = w.record ∧ w.takeSettings.published = w.published := by
    unfold World.takeSettings
    split
    · exact ⟨rfl, rfl⟩
    · exact ⟨rfl, rfl⟩
  have hrecord' : w.takeSettings.record = some r := hrest.1.trans hrecord
  have hsane' : Sane w.takeSettings := sane_of_retiring hrecord' hphase hnew hne (.taken hsingle)
  exact Leads.cons (hI w ⟨hsane, hrecord, .inl hpublished⟩) (fun _ => rfl)
    ⟨⟨hsane', hrecord', .inl (hrest.2.trans hpublished)⟩, hsingle⟩

/-- The old container is gone, and the new one takes the name. -/
theorem leads_rename (A : Bool → Prop) (hI : ∀ w, Under r new address w → I w)
    (hrecord : w.record = some r) (hphase : r.phase = .retiring) (hnew : r.new = some new)
    (hne : new ≠ r.old) (hpublished : w.published = address) (hcanonical : w.canonical = none)
    (htemporary : w.temporary = some ⟨new, false⟩) (hnext : w.nextSettings = some new) :
    Leads I A (Left r new address) w [.rename, .takeSettings] := by
  have hsane : Sane w :=
    sane_of_retiring hrecord hphase hnew hne (.removed hcanonical htemporary hnext)
  have hrename : w.rename =
      some { w with canonical := some ⟨new, false⟩, temporary := none } := by
    simp only [World.rename, hcanonical, htemporary]
  exact Leads.cons (hI w ⟨hsane, hrecord, .inl hpublished⟩) (fun _ => hrename)
    (leads_take A hI hrecord hphase hnew hne hpublished rfl rfl (.inl hnext))

/-- The old container is still there while the new one is to take its place. -/
theorem leads_retire {stopped : Bool} (A : Bool → Prop) (hI : ∀ w, Under r new address w → I w)
    (hrecord : w.record = some r) (hphase : r.phase = .retiring) (hnew : r.new = some new)
    (hne : new ≠ r.old) (hpublished : w.published = address)
    (hcanonical : w.canonical = some ⟨r.old, stopped⟩)
    (htemporary : w.temporary = some ⟨new, false⟩) (hnext : w.nextSettings = some new) :
    Leads I A (Left r new address) w [.stop r.old, .remove r.old, .rename, .takeSettings] := by
  have hsane : Sane w :=
    sane_of_retiring hrecord hphase hnew hne (.both stopped hcanonical htemporary hnext)
  have hstop : w.stop r.old = some { w with canonical := some ⟨r.old, true⟩ } := by
    rw [World.stop, if_pos (by rw [hcanonical]; rfl)]
  have hsane' : Sane { w with canonical := some ⟨r.old, true⟩ } :=
    sane_of_retiring hrecord hphase hnew hne (.both true rfl htemporary hnext)
  have hremove : ({ w with canonical := some ⟨r.old, true⟩ } : World).remove r.old =
      some { w with canonical := none } := by
    rw [World.remove, if_pos (by rfl)]
  refine Leads.cons (hI w ⟨hsane, hrecord, .inl hpublished⟩) (fun _ => hstop) ?_
  refine Leads.cons (hI _ ⟨hsane', hrecord, .inl hpublished⟩) (fun _ => hremove) ?_
  exact leads_rename (w := { w with canonical := none }) A hI hrecord hphase hnew hne hpublished
    rfl htemporary hnext

/-- Every sane state under a record is one `repair` recognises, and its branch
leaves the container that the record says. -/
theorem leads_steps (A : Bool → Prop) (hkept : kept r = some id)
    (hI : ∀ w, Under r id address w → I w) (hrecord : w.record = some r) (hsane : Sane w)
    (hpublished : w.published = address) :
    ∃ steps, repairSteps r w.canonical w.temporary = some steps ∧
      Leads I A (Left r id address) w steps := by
  by_cases hphase : r.phase = .retiring
  · obtain ⟨new, hnew, hne, hretiring⟩ := (sane_retiring hrecord hphase).mp hsane
    have hid : new = id := by
      rw [kept, if_pos hphase, hnew] at hkept
      exact Option.some.inj hkept
    subst hid
    cases hretiring with
    | both stopped hcanonical htemporary hnext =>
        refine ⟨_, ?_, leads_retire A hI hrecord hphase hnew hne hpublished hcanonical htemporary hnext⟩
        simp [repairSteps, hphase, hnew, hcanonical, htemporary]
    | removed hcanonical htemporary hnext =>
        refine ⟨_, ?_, leads_rename A hI hrecord hphase hnew hne hpublished hcanonical htemporary hnext⟩
        simp [repairSteps, hphase, hnew, hcanonical, htemporary]
    | renamed hcanonical htemporary hnext =>
        refine ⟨_, ?_, leads_take A hI hrecord hphase hnew hne hpublished hcanonical htemporary
          (.inl hnext)⟩
        simp [repairSteps, hphase, hnew, hcanonical, htemporary, hne]
    | taken hsingle =>
        refine ⟨_, ?_, leads_take A hI hrecord hphase hnew hne hpublished hsingle.canonical
          hsingle.temporary (.inr ⟨hsingle.nextSettings, hsingle.settings⟩)⟩
        simp [repairSteps, hphase, hnew, hsingle.canonical, hsingle.temporary, hne]
  · have hbeside := (sane_beside hrecord hphase).mp hsane
    have hid : r.old = id := by
      rw [kept, if_neg hphase] at hkept
      exact Option.some.inj hkept
    subst hid
    exact ⟨_, steps_beside hphase hbeside, leads_undo A hI hrecord hphase hbeside hpublished⟩

/-- A repair, up to the removal of the record. -/
theorem leads_repair (A : Bool → Prop) (hkept : kept r = some id)
    (hI : ∀ w, Under r id address w → I w) (hrecord : w.record = some r) (hsane : Sane w)
    (hpublished : w.published = address) :
    ∃ before, repairEffects w = some (before ++ [.settle]) ∧
      Leads I A (fun w' => ∃ running, A running ∧ Repaired r id address running w') w before := by
  obtain ⟨steps, hsteps, hleads⟩ := leads_steps A hkept hI hrecord hsane hpublished
  refine ⟨steps ++ [.publish, .narrow], ?_, ?_⟩
  · simp [repairEffects, hrecord, hsteps]
  · exact (hleads.mono fun _ => leads_closing A hI).append

end

/-- A record names the container that keeps the name. -/
theorem exists_kept {w : World} {r : Record} (hrecord : w.record = some r) (hsane : Sane w) :
    ∃ id, kept r = some id := by
  by_cases hphase : r.phase = .retiring
  · obtain ⟨new, hnew, -⟩ := (sane_retiring hrecord hphase).mp hsane
    exact ⟨new, by rw [kept, if_pos hphase, hnew]⟩
  · exact ⟨r.old, by rw [kept, if_neg hphase]⟩

/-- The record goes last, and leaves a sane world. -/
theorem sane_settled {r : Record} {id : String} {address : Option String} {running : Bool}
    {w : World} (h : Repaired r id address running w) : Sane { w with record := none } :=
  (sane_none rfl).mpr
    ⟨⟨id, h.single.canonical, h.single.temporary, h.single.settings, h.single.nextSettings⟩,
      h.raised⟩

/-! ## A replacement -/

/-- How far a replacement got, and what it did to the address. -/
inductive Stage (old new : String) (address : Option String) (w : World) : Prop
  | before (hrecord : w.record = none) (hsingle : Single old w) (hpublished : w.published = address)
  | beside (r : Record) (hrecord : w.record = some r) (hphase : r.phase ≠ .retiring)
      (hold : r.old = old) (hpublished : w.published = address)
  | switched (hrecord : w.record = some ⟨.switched, old, some new⟩)
      (htemporary : w.temporary = some ⟨new, false⟩)
      (hpublished : w.published = address.map fun _ => new)
  | retiring (hrecord : w.record = some ⟨.retiring, old, some new⟩)
      (hpublished : w.published = address.map fun _ => new)
  | after (hrecord : w.record = none) (hsingle : Single new w)
      (hpublished : w.published = address.map fun _ => new)

section

variable {I : World → Prop} {old new : String} {address : Option String} {w : World}

/-- From the record of `retiring` to the end. -/
theorem leads_retirement (A : Bool → Prop)
    (hI : ∀ w, Sane w → Stage old new address w → I w) (hne : new ≠ old)
    (hrecord : w.record = some ⟨.retiring, old, some new⟩)
    (hcanonical : w.canonical = some ⟨old, false⟩) (htemporary : w.temporary = some ⟨new, false⟩)
    (hnext : w.nextSettings = some new) (hpublished : w.published = address.map fun _ => new) :
    Leads I A I w
      [.stop old, .remove old, .rename, .takeSettings, .narrow, .settle] := by
  have hunder : ∀ w', Under ⟨.retiring, old, some new⟩ new (address.map fun _ => new) w' → I w' := by
    intro w' h
    have haddress : w'.published = address.map fun _ => new := by
      rcases h.published with heq | heq
      · exact heq
      · rw [heq, Option.map_map]
        rfl
    exact hI w' h.sane (.retiring h.record haddress)
  have hfirst := leads_retire A hunder hrecord rfl rfl hne hpublished hcanonical htemporary hnext
  refine Leads.append (hfirst.mono fun w' hleft => ?_)
  have hsingle := single_raised hleft.single false
  have hsane := sane_of_single hleft.record hleft.sane hleft.single hsingle hleft.record
  refine Leads.cons (hunder w' hleft.toUnder) (fun _ => rfl) ?_
  refine Leads.cons (hunder _ ⟨hsane, hleft.record, hleft.published⟩) (fun _ => rfl) ?_
  have hsettled : Single new { w' with raised := false, record := none } :=
    ⟨hsingle.canonical, hsingle.temporary, hsingle.settings, hsingle.nextSettings⟩
  refine hI _ ((sane_none rfl).mpr ⟨⟨new, hsettled⟩, rfl⟩) (.after rfl hsettled ?_)
  rcases hleft.published with heq | heq
  · exact heq
  · exact heq.trans (by rw [Option.map_map]; rfl)

/-- `replace` on a single container. -/
theorem leads_replace (A : Bool → Prop) (hI : ∀ w, Sane w → Stage old new address w → I w)
    (hne : new ≠ old) (hrecord : w.record = none) (hsingle : Single old w)
    (hraised : w.raised = false) (hpublished : w.published = address) :
    Leads I A I w (replaceEffects old new) := by
  have hcanonical := hsingle.canonical
  have htemporary := hsingle.temporary
  have hsettings := hsingle.settings
  -- The worlds before the switch differ in what does not concern the old container.
  have hbeside : ∀ (w' : World) (r : Record), w'.record = some r → r.phase ≠ .retiring →
      r.old = old → w'.canonical = some ⟨old, false⟩ → w'.settings = some old →
      w'.published = address →
      (∀ n ∈ r.new, new = n) →
      (w'.temporary = none ∨ w'.temporary = some ⟨new, false⟩) → I w' := by
    intro w' r hrecord' hphase hold hcanonical' hsettings' hpublished' hnew htemporary'
    have hother : ∀ n ∈ r.new, n ≠ r.old := fun n hn => hnew n hn ▸ hold ▸ hne
    refine hI w' (sane_of_beside hrecord' hphase ⟨hold ▸ hcanonical', ?_, hold ▸ hsettings', hother⟩)
      (.beside r hrecord' hphase hold hpublished')
    intro c hc
    rcases htemporary' with hnone | hsome
    · simp [hnone] at hc
    · have hid : c = ⟨new, false⟩ := by
        rw [hsome] at hc
        exact (Option.mem_some.mp hc).symm
      rw [hid, hold]
      exact ⟨rfl, hne, hnew⟩
  have hstart : I w := hI w ((sane_none hrecord).mpr ⟨⟨old, hsingle⟩, hraised⟩)
    (.before hrecord hsingle hpublished)
  have hearly : Phase.starting ≠ .retiring := by decide
  have hlate : Phase.switched ≠ .retiring := by decide
  have hmem : ∀ n ∈ some new, new = n := fun n hn => Option.mem_some.mp hn
  have hpoint : (w.published.map fun _ => new) = address.map fun _ => new := by rw [hpublished]
  refine Leads.cons hstart (fun _ => rfl) ?_
  refine Leads.cons (hbeside _ _ rfl hearly rfl hcanonical hsettings hpublished nofun
    (.inl htemporary))
    (fun _ => rfl) ?_
  refine Leads.cons (hbeside _ _ rfl hearly rfl hcanonical hsettings hpublished nofun
    (.inl htemporary))
    (fun _ => rfl) ?_
  refine Leads.cons (hbeside _ _ rfl hearly rfl hcanonical hsettings hpublished nofun
    (.inl htemporary))
    (fun _ => if_pos htemporary) ?_
  refine Leads.cons (hbeside _ _ rfl hearly rfl hcanonical hsettings hpublished nofun
    (.inr rfl))
    (fun _ => rfl) ?_
  refine Leads.cons (hbeside _ _ rfl hearly rfl hcanonical hsettings hpublished hmem
    (.inr rfl))
    (fun _ => rfl) ?_
  refine Leads.cons (hbeside _ _ rfl hlate rfl hcanonical hsettings hpublished hmem
    (.inr rfl))
    (fun _ => rfl) ?_
  refine Leads.cons (hI _ ?_ (.switched rfl rfl hpoint)) (fun _ => rfl) ?_
  · exact sane_of_beside rfl hlate ⟨hcanonical, fun c hc => Option.mem_some.mp hc ▸ ⟨rfl, hne, hmem⟩,
      hsettings, fun n hn => hmem n hn ▸ hne⟩
  · exact leads_retirement A hI hne rfl hcanonical rfl rfl hpoint

end

end Sbarbase.Rolling.Proofs.Repair
