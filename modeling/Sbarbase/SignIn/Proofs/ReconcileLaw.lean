import Sbarbase.SignIn.Proofs.Reconcile
/-!
# What a run of `reconcile_auth` that is cut short leaves

The run raises or is killed at any of its steps. What it leaves is settled in
exactly the cases that `Host.Settles` lists.
-/

namespace Sbarbase.SignIn

open Lib Lib.Steps

/-- A later start uses what the container was started with. -/
def World.Keeps (w : World) (auth : Container) : Prop := w.laterStart = auth.started.copies

section

variable {w : World} {old : Container} {address : String} {again : Place → String}

theorem not_settled_of_previous (h : w.previous = some old) : ¬ w.Settled := by
  rintro ⟨auth, address, hauth, hprevious, -⟩
  rw [h] at hprevious
  cases hprevious

theorem settled_broughtBack : (w.broughtBack old address).Settled ↔ w.Keeps old := by
  constructor
  · rintro ⟨auth, address', hauth, -, -, -, hkeeps⟩
    cases hauth
    exact hkeeps
  · exact fun hkeeps => ⟨_, address, rfl, rfl, rfl, rfl, hkeeps⟩

theorem settled_renamedBack : World.Settled { w with auth := some old, previous := none } ↔
    old.address.isSome = true ∧ w.published = old.address ∧ w.Keeps old := by
  constructor
  · rintro ⟨auth, address, hauth, -, haddress, hpublished, hkeeps⟩
    cases hauth
    exact ⟨by simp [haddress], hpublished.trans haddress.symm, hkeeps⟩
  · rintro ⟨hsome, hpublished, hkeeps⟩
    obtain ⟨address, haddress⟩ := Option.isSome_iff_exists.mp hsome
    exact ⟨old, address, rfl, rfl, haddress, hpublished.trans haddress, hkeeps⟩

theorem settled_runsAgain :
    (w.runsAgain old address).Settled ↔ w.published = some address ∧ w.Keeps old := by
  constructor
  · rintro ⟨auth, address', hauth, -, haddress, hpublished, hkeeps⟩
    cases hauth
    cases haddress
    exact ⟨hpublished, hkeeps⟩
  · exact fun ⟨hpublished, hkeeps⟩ => ⟨_, address, rfl, rfl, rfl, hpublished, hkeeps⟩

theorem finish_killed_of_none (h : w.previous = none) : finish again (.error .killed, w) = w := by
  have hlook : (look (.calm again) .strayInspect World.previous).alone w = (.ok none, w) := by
    rw [alone_look, h]
    rfl
  rw [finish, restoreStrayPrevious, alone_bind_ok hlook]
  rfl

/-- A kill is made good when the previous Auth is kept and the copies are its own. -/
theorem settled_finish_killed (h : w.previous = some old) (hpublished : w.published.isSome = true) :
    (finish again (.error .killed, w)).Settled ↔ w.Keeps old := by
  have hlook : (look (.calm again) .strayInspect World.previous).alone w = (.ok (some old), w) := by
    rw [alone_look, h]
    rfl
  have hback : (bringBack (.calm again) .stray).alone w =
      (.ok (), w.broughtBack old (again (.stray .start))) := by
    have htakes : Takes (.calm again) .stray _ w _ _ := bringBack_takes h hpublished
    rw [Takes] at htakes
    have hcalm : ∀ course : List (Back × World), (Host.calm again).stopAt .stray course = none :=
      fun course => List.findSome?_eq_none_iff.mpr fun _ _ => rfl
    rwa [hcalm] at htakes
  rw [finish, restoreStrayPrevious, alone_bind_ok hlook, Option.isSome_some, whenever_pos rfl, hback]
  exact settled_broughtBack

end

/-! ## Bringing the previous Auth back -/

def backPlaces (inTheWay : Bool) : List Back :=
  .inspect :: (if inTheWay then [.remove] else []) ++ [.rename, .start, .wait, .publish]

/-- When bringing the previous Auth back leaves the environment settled: `after`
says it of the run that gets to the end. -/
def Host.BackSettles (host : Host) (p : Back → Place) (inTheWay : Bool) (w : World)
    (old : Container) (after : Prop) : Prop :=
  match host.firstStop p (backPlaces inTheWay) with
  | none => after
  | some (.start, _) =>
    old.address.isSome = true ∧ w.published = old.address ∧ w.Keeps old
  | some (.wait, _) | some (.publish, _) =>
    w.published = some (host.address (p .start)) ∧ w.Keeps old
  | some (_, how) => how = .killed ∧ w.Keeps old

theorem backCourse_map (w : World) (old : Container) (address : String) :
    (backCourse w old address).map Prod.fst = backPlaces w.auth.isSome := by
  unfold backCourse backPlaces
  cases w.auth.isSome <;> rfl

theorem mem_backCourse {w left : World} {old : Container} {address : String} {back : Back}
    (h : (back, left) ∈ backCourse w old address) :
    ((back = .inspect ∨ back = .remove) ∧ left = w) ∨
      (back = .rename ∧ left = { w with auth := none }) ∨
      (back = .start ∧ left = { w with auth := some old, previous := none }) ∨
      ((back = .wait ∨ back = .publish) ∧ left = w.runsAgain old address) := by
  unfold backCourse at h
  cases hauth : w.auth.isSome <;>
    simp only [hauth, if_true, Bool.false_eq_true, if_false, List.cons_append, List.nil_append,
      List.mem_cons, Prod.mk.injEq, List.not_mem_nil, or_false] at h <;>
    grind

/-- The end of a run that has a previous Auth still beside it. -/
theorem settled_finish_beside {w : World} {old : Container} {again : Place → String}
    (hprevious : w.previous = some old) (hpublished : w.published.isSome = true) (how : Stopped) :
    (finish again (.error how, w)).Settled ↔ how = .killed ∧ w.Keeps old := by
  cases how with
  | raised => exact ⟨fun h => absurd h (not_settled_of_previous hprevious), fun h => nomatch h.1⟩
  | killed => exact (settled_finish_killed hprevious hpublished).trans (by simp)

theorem finish_of_none {w : World} {again : Place → String} (h : w.previous = none)
    (how : Stopped) : finish again (.error how, w) = w := by
  cases how with
  | raised => rfl
  | killed => exact finish_killed_of_none h

theorem back_settles {host : Host} {again : Place → String} {p : Back → Place} {w : World}
    {old : Container} {k : Unit → Process Unit} (hprevious : w.previous = some old)
    (hpublished : w.published.isSome = true) :
    (finish again ((bringBack host p >>= k).alone w)).Settled ↔
      host.BackSettles p w.auth.isSome w old
        (finish again ((k ()).alone (w.broughtBack old (host.address (p .start))))).Settled := by
  have htakes : Takes host p _ w _ _ := bringBack_takes hprevious hpublished
  rw [Takes] at htakes
  rw [Host.BackSettles, ← backCourse_map w old (host.address (p .start)), Host.firstStop_map]
  cases hstop : host.stopAt p (backCourse w old (host.address (p .start))) with
  | none =>
      rw [hstop] at htakes
      rw [alone_bind_ok htakes]
      exact Iff.rfl
  | some stop =>
      obtain ⟨⟨back, left⟩, how⟩ := stop
      rw [hstop] at htakes
      rw [alone_bind_error htakes]
      have hmem := (Host.mem_of_stopAt hstop).1
      dsimp only [Option.map_some]
      rcases mem_backCourse hmem with ⟨rfl | rfl, rfl⟩ | ⟨rfl, rfl⟩ | ⟨rfl, rfl⟩ | ⟨rfl | rfl, rfl⟩
      · exact settled_finish_beside hprevious hpublished how
      · exact settled_finish_beside hprevious hpublished how
      · exact settled_finish_beside (w := { w with auth := none }) hprevious hpublished how
      · rw [finish_of_none rfl]
        exact settled_renamedBack
      · rw [finish_of_none rfl]
        exact settled_runsAgain
      · rw [finish_of_none rfl]
        exact settled_runsAgain

/-! ## The new Auth -/

def startPlaces : List Place :=
  [.prepare, .run, .join, .egress, .wait, .keepSettings, .keepTemplates, .keepPhone]

/-- The steps of `recreate`, less those of an undo. -/
def recreatePlaces (saved : Files) : List Place :=
  readPlaces saved ++ ([.inspectPrevious, .stop, .rename] ++
    (startPlaces ++ [.remove, .publish, .mailRecord]))

/-- The copies as they are where a step is not done. -/
def World.keptBefore (w : World) : Place → World
  | .keepTemplates => w.keptSettings
  | .keepPhone => w.keptTemplates
  | .remove => w.keptPhone
  | _ => w

/-- When `recreate` leaves the environment settled that had the Auth `old`, by the
step that ends it. -/
def Host.StopSettles (host : Host) (w : World) (old : Container) : Option (Place × Stopped) → Prop
  | none | some (.mailRecord, _) => True
  | some (.rename, _) => False
  | some (.publish, _) => w.published = some (host.address .run)
  | some (.remove, how) => how = .killed ∧ (w.keptBefore .remove).Keeps old
  | some (place, how) =>
    if place ∈ startPlaces then
      match how with
      | .killed => (w.keptBefore place).Keeps old
      | .raised =>
        host.BackSettles .undo (place ∉ [.prepare, .run]) (w.keptBefore place) old.aside
          ((w.keptBefore place).Keeps old)
    else w.Settled

/-- When `recreate` leaves the environment settled. -/
def Host.RecreateSettles (host : Host) (w : World) : Prop :=
  match w.auth with
  | none => False
  | some old => host.StopSettles w old (host.firstStop id (recreatePlaces w.saved))

/-- When a run of `reconcile_auth` leaves the environment settled. -/
def Host.Settles (host : Host) (w : World) : Prop :=
  w.published.isSome = true ∧
    match host.firstStop id [.check, .strayInspect] with
    | some (_, how) =>
      match w.previous with
      | none => w.Settled
      | some old => how = .killed ∧ w.Keeps old
    | none =>
      match w.previous with
      | none => host.RecreateSettles w
      | some old =>
        host.BackSettles .stray w.auth.isSome w old
          (host.RecreateSettles (w.broughtBack old (host.address (.stray .start))))

theorem World.Settled.published {w : World} (h : w.Settled) : w.published.isSome = true := by
  obtain ⟨auth, address, -, -, -, hpublished, -⟩ := h
  rw [hpublished]
  rfl

/-- Nothing publishes an environment that is not published. -/
theorem not_settled_of_published {w : World} (h : w.published = none) : ¬ w.Settled := by
  intro hsettled
  have hpublished := hsettled.published
  rw [h] at hpublished
  cases hpublished

/-- The container that a new start uses is the one the copies were kept from. -/
theorem keeps_new (w : World) (address : Option String) : w.keptPhone.Keeps ⟨w.saved, address⟩ := by
  unfold World.Keeps World.laterStart World.keptPhone Files.copies
  cases w.saved.settings <;> rfl

theorem readPlaces_settle {host : Host} {w : World} {old : Container} {saved : Files}
    {place : Place} (h : place ∈ readPlaces saved) (how : Stopped) :
    host.StopSettles w old (some (place, how)) ↔ w.Settled := by
  have hearly : place ∈ [.inspectAuth, .loadSettings, .loadMail, .loadTemplates, .loadPhone,
      .publishRoute, .configurePhone, Place.configureTemplates] := by
    unfold readPlaces at h
    cases saved.templates.isSome <;> cases saved.mail.isNone <;> simp_all <;> grind
  simp only [List.mem_cons, List.not_mem_nil, or_false] at hearly
  rcases hearly with rfl | rfl | rfl | rfl | rfl | rfl | rfl | rfl <;> exact Iff.rfl

theorem backSettles_congr {host : Host} {p : Back → Place} {inTheWay inTheWay' : Bool}
    {w w' : World} {old : Container} {after after' : Prop} (hinTheWay : inTheWay = inTheWay')
    (hpublished : w.published = w'.published) (hlater : w.laterStart = w'.laterStart)
    (hafter : after ↔ after') :
    host.BackSettles p inTheWay w old after ↔ host.BackSettles p inTheWay' w' old after' := by
  unfold Host.BackSettles World.Keeps
  rw [hinTheWay, hpublished, hlater, propext hafter]

/-- The end of the new Auth's start that raises or is killed. -/
theorem start_settles {host : Host} {again : Place → String} {w left : World} {old : Container}
    {place : Place} {how : Stopped} (hpublished : w.published.isSome = true)
    (h : (place, left) ∈ startCourse (w.steppedAside old) (host.address .run)) :
    (finish again ((undoing host how).alone left)).Settled ↔
      host.StopSettles w old (some (place, how)) := by
  obtain ⟨hprevious, hkept, hlater, hinTheWay, hstart⟩ :
      left.previous = some old.aside ∧ left.published = w.published ∧
        left.laterStart = (w.keptBefore place).laterStart ∧
        left.auth.isSome = decide (place ∉ [.prepare, .run]) ∧ place ∈ startPlaces := by
    simp only [startCourse, List.mem_cons, Prod.mk.injEq, List.not_mem_nil, or_false] at h
    rcases h with ⟨rfl, rfl⟩ | ⟨rfl, rfl⟩ | ⟨rfl, rfl⟩ | ⟨rfl, rfl⟩ | ⟨rfl, rfl⟩ | ⟨rfl, rfl⟩ |
      ⟨rfl, rfl⟩ | ⟨rfl, rfl⟩ <;> exact ⟨rfl, rfl, rfl, rfl, by decide⟩
  have hpublished' : left.published.isSome = true := by rwa [hkept]
  have hbefore : (w.keptBefore place).published = w.published := by
    unfold World.keptBefore
    split <;> rfl
  have hkeeps : left.Keeps old.aside ↔ (w.keptBefore place).Keeps old := by
    rw [World.Keeps, World.Keeps, hlater]
    rfl
  have hstop : host.StopSettles w old (some (place, how)) ↔ match how with
      | .killed => (w.keptBefore place).Keeps old
      | .raised =>
        host.BackSettles .undo (place ∉ [.prepare, .run]) (w.keptBefore place) old.aside
          ((w.keptBefore place).Keeps old) := by
    simp only [startPlaces, List.mem_cons, List.not_mem_nil, or_false] at hstart
    rcases hstart with rfl | rfl | rfl | rfl | rfl | rfl | rfl | rfl <;> exact Iff.rfl
  rw [hstop]
  cases how with
  | killed => exact (settled_finish_killed hprevious hpublished').trans hkeeps
  | raised =>
      refine (back_settles hprevious hpublished').trans ?_
      refine backSettles_congr hinTheWay (hkept.trans hbefore.symm) hlater ?_
      exact settled_broughtBack.trans hkeeps

/-- An undo never returns. -/
theorem undoing_fails (host : Host) (how : Stopped) (w : World) :
    ∃ e w', (undoing host how).alone w = (.error e, w') := by
  cases how with
  | killed => exact ⟨.killed, w, rfl⟩
  | raised =>
      unfold undoing
      rw [alone_bind]
      rcases (bringBack host .undo).alone w with ⟨e | a, w'⟩
      · exact ⟨e, w', rfl⟩
      · exact ⟨.raised, w', rfl⟩

/-- The new Auth beside the old one, with the copies kept. -/
def World.startedBeside (w : World) (old : Container) (address : String) : World :=
  (w.steppedAside old).keptPhone.startedNew w.saved address

theorem keeps_startedBeside {w : World} {old : Container} {address : String} :
    (w.startedBeside old address).Keeps ⟨w.saved, some address⟩ := keeps_new w (some address)

theorem settled_new {w : World} {old : Container} {address : String} {published : Option String}
    {mailState : Option MailState} :
    World.Settled { w.startedBeside old address with previous := none, published, mailState } ↔
      published = some address := by
  constructor
  · rintro ⟨auth, address', hauth, -, haddress, hpublished, -⟩
    cases hauth
    cases haddress
    exact hpublished
  · exact fun hpublished =>
      ⟨_, address, rfl, rfl, rfl, hpublished, keeps_startedBeside⟩

/-- The end of `recreate`, from the new Auth running beside the old one. -/
theorem end_settles {host : Host} {again : Place → String} {w : World} {old : Container}
    (hpublished : w.published.isSome = true) :
    (finish again ((do
      act host .remove fun w => { w with previous := none }
      publishAuth host .publish
      recordMail host w.saved.mail).alone (w.startedBeside old (host.address .run)))).Settled ↔
    host.StopSettles w old (host.firstStop id [.remove, .publish, .mailRecord]) := by
  rw [alone_bind, alone_act]
  cases hremove : host.stops .remove with
  | some how =>
      have hfirst : host.firstStop id [.remove, .publish, .mailRecord] = some (.remove, how) := by
        simp [Host.firstStop, hremove]
      rw [hfirst]
      exact settled_finish_beside (w := w.startedBeside old (host.address .run)) rfl hpublished how
  | none =>
      have hpublish : (publishAuth host .publish).alone _ = _ := alone_publishAuth (w := { w.startedBeside old (host.address .run) with previous := none }) rfl rfl hpublished
      dsimp only
      rw [alone_bind, hpublish]
      cases hstops : host.stops .publish with
      | some how =>
          have hfirst : host.firstStop id [.remove, .publish, .mailRecord] =
              some (.publish, how) := by
            simp [Host.firstStop, hremove, hstops]
          rw [hfirst]
          dsimp only
          rw [finish_of_none rfl]
          exact settled_new
      | none =>
          dsimp only
          rw [recordMail, alone_act]
          cases hrecord : host.stops .mailRecord with
          | some how =>
              have hfirst : host.firstStop id [.remove, .publish, .mailRecord] =
                  some (.mailRecord, how) := by
                simp [Host.firstStop, hremove, hstops, hrecord]
              rw [hfirst]
              dsimp only
              rw [finish_of_none rfl]
              exact settled_new.trans (by simp [Host.StopSettles])
          | none =>
              have hfirst : host.firstStop id [.remove, .publish, .mailRecord] = none := by
                simp [Host.firstStop, hremove, hstops, hrecord]
              rw [hfirst]
              exact settled_new.trans (by simp [Host.StopSettles])

/-- The new Auth's start and what follows it, from the old one kept beside it. -/
theorem started_settles {host : Host} {again : Place → String} {w : World} {old : Container}
    (hpublished : w.published.isSome = true) :
    (finish again ((do
      (startNew host w.saved w.saved.templates w.saved.phone).orElse (undoing host)
      act host .remove fun w => { w with previous := none }
      publishAuth host .publish
      recordMail host w.saved.mail).alone (w.steppedAside old))).Settled ↔
    host.StopSettles w old
      (((host.stopAt id (startCourse (w.steppedAside old) (host.address .run))).map
          fun stop => (stop.1.1, stop.2)).or
        (host.firstStop id [.remove, .publish, .mailRecord])) := by
  have hstart : Takes host id (startNew host w.saved w.saved.templates w.saved.phone)
      (w.steppedAside old) _ _ := startNew_takes (w := w.steppedAside old)
  rw [Takes] at hstart
  rw [alone_bind, alone_orElse, hstart]
  cases hstop : host.stopAt id (startCourse (w.steppedAside old) (host.address .run)) with
  | some stop =>
      obtain ⟨⟨place, left⟩, how⟩ := stop
      obtain ⟨hmem, -⟩ := Host.mem_of_stopAt hstop
      have hsettles := @start_settles host again _ _ _ _ how hpublished hmem
      obtain ⟨e, w', hundone⟩ := undoing_fails host how left
      dsimp only
      rw [hundone] at hsettles ⊢
      exact hsettles
  | none =>
      exact end_settles hpublished

theorem recreate_settles {host : Host} {again : Place → String} {w : World}
    (hprevious : w.previous = none) (hpublished : w.published.isSome = true) :
    (finish again ((recreate host).alone w)).Settled ↔ host.RecreateSettles w := by
  unfold Host.RecreateSettles
  cases hauth : w.auth with
  | none =>
      obtain ⟨how, hends⟩ : ∃ how, (readFiles host).alone w = (.error how, w) := by
        unfold readFiles
        rw [alone_bind, alone_look]
        cases host.stops .inspectAuth with
        | some how => exact ⟨how, rfl⟩
        | none =>
            refine ⟨.raised, ?_⟩
            dsimp only
            rw [require, if_neg (by simp [hauth])]
            rfl
      rw [recreate, alone_bind_error hends, finish_of_none hprevious]
      refine iff_of_false ?_ id
      rintro ⟨auth, address, hsome, -⟩
      rw [hauth] at hsome
      cases hsome
  | some old =>
      have hreads : Takes host id _ w _ _ := readFiles_takes (by rw [hauth]; rfl)
      have haside : Takes host id _ w _ _ := stepAside_takes hauth hprevious
      rw [Takes] at hreads haside
      have hplaces : recreatePlaces w.saved = ((readPlaces w.saved).map (·, w)).map Prod.fst ++
          ((asideCourse w old).map Prod.fst ++
            ((startCourse (w.steppedAside old) (host.address .run)).map Prod.fst ++
              [.remove, .publish, .mailRecord])) := by
        simp [recreatePlaces, asideCourse, startCourse, startPlaces, Function.comp_def]
      rw [hplaces, Host.firstStop_append, Host.firstStop_map, Host.firstStop_append,
        Host.firstStop_map, Host.firstStop_append, Host.firstStop_map, recreate]
      cases hread : host.stopAt id ((readPlaces w.saved).map (·, w)) with
      | some stop =>
          obtain ⟨⟨place, left⟩, how⟩ := stop
          rw [hread] at hreads
          obtain ⟨hmem, -⟩ := Host.mem_of_stopAt hread
          obtain ⟨place', hplace, heq⟩ := List.mem_map.mp hmem
          cases heq
          rw [alone_bind_error hreads, finish_of_none hprevious]
          exact (readPlaces_settle hplace how).symm
      | none =>
          rw [hread] at hreads
          rw [alone_bind_ok hreads]
          cases hstep : host.stopAt id (asideCourse w old) with
          | some stop =>
              obtain ⟨⟨place, left⟩, how⟩ := stop
              rw [hstep] at haside
              rw [alone_bind_error haside]
              obtain ⟨hmem, -⟩ := Host.mem_of_stopAt hstep
              simp only [asideCourse, List.mem_cons, Prod.mk.injEq, List.not_mem_nil,
                or_false] at hmem
              rcases hmem with ⟨rfl, rfl⟩ | ⟨rfl, rfl⟩ | ⟨rfl, rfl⟩
              · rw [finish_of_none hprevious]
                exact Iff.rfl
              · rw [finish_of_none hprevious]
                exact Iff.rfl
              · rw [finish_of_none (w := { w with auth := some old.aside }) hprevious]
                refine iff_of_false ?_ id
                rintro ⟨auth, address, hsome, -, haddress, -⟩
                cases hsome
                cases haddress
          | none =>
              rw [hstep] at haside
              rw [alone_bind_ok haside]
              exact started_settles hpublished

/-- A kill before anything was published leaves nothing published. -/
theorem not_settled_unpublished {w : World} {again : Place → String} (hpublished : w.published = none)
    (how : Stopped) : ¬ (finish again (.error how, w)).Settled := by
  apply not_settled_of_published
  cases how with
  | raised => exact hpublished
  | killed =>
      rcases w with ⟨auth, previous, saved, copies, published, mailState, prior, row⟩
      cases hpublished
      cases auth <;> cases previous <;> rfl

/-- A run that ends before it changes anything. -/
theorem untouched_settles {w : World} {again : Place → String}
    (hpublished : w.published.isSome = true) (how : Stopped) :
    (finish again (.error how, w)).Settled ↔ match w.previous with
      | none => w.Settled
      | some old => how = .killed ∧ w.Keeps old := by
  cases hprevious : w.previous with
  | none =>
      rw [finish_of_none hprevious]
  | some old => exact settled_finish_beside hprevious hpublished how

/-- `reconcile_auth` of a published environment, up to the previous Auth. -/
theorem alone_reconcileAuth {host : Host} {w : World} (hpublished : w.published.isSome = true) :
    (reconcileAuth host).alone w = match host.firstStop id [.check, .strayInspect] with
      | some (_, how) => (.error how, w)
      | none =>
        match w.previous with
        | none => (recreate host).alone w
        | some _ => (bringBack host .stray >>= fun _ => recreate host).alone w := by
  have hrequire : (require (w.published.isSome = true) Stopped.raised : Process Unit).alone w =
      (.ok (), w) := by
    rw [require, if_pos hpublished]
    rfl
  unfold reconcileAuth restoreStrayPrevious
  rw [alone_bind, alone_look]
  cases hcheck : host.stops .check with
  | some how =>
      have hfirst : host.firstStop id [.check, .strayInspect] = some (.check, how) := by
        simp [Host.firstStop, hcheck]
      rw [hfirst]
  | none =>
      dsimp only
      rw [alone_bind_ok hrequire, alone_bind, alone_bind, alone_look]
      cases hinspect : host.stops .strayInspect with
      | some how =>
          have hfirst : host.firstStop id [.check, .strayInspect] = some (.strayInspect, how) := by
            simp [Host.firstStop, hcheck, hinspect]
          rw [hfirst]
      | none =>
          have hfirst : host.firstStop id [.check, .strayInspect] = none := by
            simp [Host.firstStop, hcheck, hinspect]
          rw [hfirst]
          cases w.previous with
          | none => rfl
          | some old =>
              dsimp only
              rw [Option.isSome_some, whenever_pos rfl, alone_bind]

/-- `reconcile_auth` of an environment that is not published. -/
theorem reconcileAuth_unpublished {host : Host} {w : World} (hpublished : w.published = none) :
    ∃ how, (reconcileAuth host).alone w = (.error how, w) := by
  unfold reconcileAuth
  rw [alone_bind, alone_look]
  cases host.stops .check with
  | some how => exact ⟨how, rfl⟩
  | none =>
      refine ⟨.raised, ?_⟩
      dsimp only
      rw [hpublished]
      rfl

/-- A run leaves one Auth container, under its own name and at the published address,
with the copies it was started with, in exactly the cases of `Settles`. -/
theorem variables_law (host : Host) (again : Place → String) (w : World) :
    (leftBy host again w).Settled ↔ host.Settles w := by
  unfold leftBy Host.Settles
  cases hsome : w.published.isSome with
  | false =>
      have hpublished : w.published = none := by simpa using hsome
      obtain ⟨how, hends⟩ := @reconcileAuth_unpublished host _ hpublished
      rw [hends]
      exact iff_of_false (not_settled_unpublished hpublished how) (by simp)
  | true =>
      rw [alone_reconcileAuth hsome, eq_self_iff_true, true_and]
      cases host.firstStop id [.check, .strayInspect] with
      | some stop => exact untouched_settles hsome stop.2
      | none =>
          cases hprevious : w.previous with
          | none => exact recreate_settles hprevious hsome
          | some old =>
              refine (back_settles hprevious hsome).trans ?_
              rw [propext (recreate_settles (w := w.broughtBack old (host.address (.stray .start)))
                rfl rfl)]

/-! ## Where it is not settled -/

/-- An Auth at `10.0.0.2`, with sign-in settings applied and others saved. -/
def savedOver : World where
  auth := some ⟨⟨some ⟨1, "first"⟩, none, none, none⟩, some "10.0.0.2"⟩
  previous := none
  saved := ⟨some ⟨2, "second"⟩, none, none, none⟩
  copies := ⟨some ⟨1, "first"⟩, none, none⟩
  published := some "10.0.0.2"
  mailState := none
  prior := none
  row := some ⟨2, some 1, .pending, none⟩

/-- The process is killed before the old Auth is removed. -/
def killedBeforeRemove : Host where
  fate place := if place = .remove then .killed else .done
  address _ := "10.0.0.3"

/-- The old Auth comes back, and a later start uses settings it was not started with. -/
theorem killed_keeps_copies : savedOver.Settled ∧
    ¬ (leftBy killedBeforeRemove (fun _ => "10.0.0.4") savedOver).Settled := by
  refine ⟨⟨_, "10.0.0.2", rfl, rfl, rfl, rfl, rfl⟩, ?_⟩
  rintro ⟨auth, address, hauth, -, -, -, hkeeps⟩
  have hold : (leftBy killedBeforeRemove (fun _ => "10.0.0.4") savedOver).auth =
      some ⟨⟨some ⟨1, "first"⟩, none, none, none⟩, some "10.0.0.4"⟩ := by
    decide
  rw [hold] at hauth
  cases hauth
  revert hkeeps
  decide

end Sbarbase.SignIn
