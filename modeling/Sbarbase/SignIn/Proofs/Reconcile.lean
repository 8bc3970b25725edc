import Sbarbase.SignIn.Auth
/-!
# A run of `reconcile_auth` with nothing beside it

Where the run stops is read off the fates in the order of the steps. Each part
of the program is followed to the step that stops it.
-/

namespace Sbarbase.SignIn

open Lib Lib.Steps

namespace Host

variable {host : Host} {κ : Type} {p : κ → Place}

/-- How a step ends the program, if it does. -/
def stops (host : Host) (place : Place) : Option Stopped :=
  match host.fate place with
  | .done => none
  | .raises => some .raised
  | .killed => some .killed

/-- The first step of a course that ends the program, with the world it leaves. -/
def stopAt (host : Host) (p : κ → Place) (course : List (κ × World)) :
    Option ((κ × World) × Stopped) :=
  course.findSome? fun step => (host.stops (p step.1)).map fun how => (step, how)

theorem stopAt_cons_of_done {step : κ × World} {course : List (κ × World)}
    (h : host.stops (p step.1) = none) :
    host.stopAt p (step :: course) = host.stopAt p course := by
  simp [stopAt, h]

theorem stopAt_cons_of_stops {step : κ × World} {course : List (κ × World)} {how : Stopped}
    (h : host.stops (p step.1) = some how) :
    host.stopAt p (step :: course) = some (step, how) := by
  simp [stopAt, h]

/-- The first of the places that ends the program, and how. -/
def firstStop (host : Host) (p : κ → Place) (places : List κ) : Option (κ × Stopped) :=
  places.findSome? fun place => (host.stops (p place)).map fun how => (place, how)

theorem firstStop_append (places places' : List κ) : host.firstStop p (places ++ places') =
      (host.firstStop p places).or (host.firstStop p places') :=
  List.findSome?_append

theorem firstStop_map (course : List (κ × World)) : host.firstStop p (course.map Prod.fst) =
      (host.stopAt p course).map fun stop => (stop.1.1, stop.2) := by
  induction course with
  | nil => rfl
  | cons step course ih =>
      cases hstops : host.stops (p step.1) with
      | none =>
          rw [stopAt_cons_of_done hstops, ← ih]
          simp [firstStop, hstops]
      | some how =>
          rw [stopAt_cons_of_stops hstops]
          simp [firstStop, hstops]

theorem mem_of_stopAt {course : List (κ × World)} {step : κ × World} {how : Stopped}
    (h : host.stopAt p course = some (step, how)) :
    step ∈ course ∧ host.stops (p step.1) = some how := by
  obtain ⟨step', hmem, hstep⟩ := List.exists_of_findSome?_eq_some h
  rw [Option.map_eq_some_iff] at hstep
  obtain ⟨how', hstops, heq⟩ := hstep
  cases heq
  exact ⟨hmem, hstops⟩

end Host

/-- From `w` the program takes the steps of the course: one that is not done ends
it and leaves the world beside it, and after the last comes `result`. -/
def Takes {κ α : Type} (host : Host) (p : κ → Place) (c : Process α) (w : World)
    (course : List (κ × World)) (result : Except Stopped α × World) : Prop :=
  c.alone w = match host.stopAt p course with
    | none => result
    | some ((_, left), how) => (.error how, left)

section

variable {host : Host} {κ α β : Type} {p : κ → Place} {w : World} {course : List (κ × World)}
  {result : Except Stopped β × World}

theorem alone_look {place : Place} {f : World → α} :
    (look host place f).alone w = match host.stops place with
      | none => (.ok (f w), w)
      | some how => (.error how, w) := by
  unfold look Host.stops
  cases host.fate place <;> rfl

theorem alone_act {place : Place} {f : World → World} :
    (act host place f).alone w = match host.stops place with
      | none => (.ok (), f w)
      | some how => (.error how, w) := by
  unfold act Host.stops
  cases host.fate place <;> rfl

theorem takes_pure {a : β} : Takes host p (pure a : Process β) w [] (.ok a, w) := rfl

/-- A step in front of a program. -/
theorem Takes.cons {c : Process α} {f : α → Process β} {step : κ} {a : α} {w' : World}
    (hc : c.alone w = match host.stops (p step) with
      | none => (.ok a, w')
      | some how => (.error how, w)) (hf : Takes host p (f a) w' course result) :
    Takes host p (c >>= f) w ((step, w) :: course) result := by
  unfold Takes
  cases hstops : host.stops (p step) with
  | none =>
      rw [hstops] at hc
      rw [Host.stopAt_cons_of_done hstops, alone_bind_ok hc]
      exact hf
  | some how =>
      rw [hstops] at hc
      rw [Host.stopAt_cons_of_stops hstops]
      exact alone_bind_error hc

theorem Takes.look {f : World → α} {g : α → Process β} {step : κ}
    (hg : Takes host p (g (f w)) w course result) :
    Takes host p (look host (p step) f >>= g) w ((step, w) :: course) result :=
  .cons alone_look hg

theorem Takes.act {f : World → World} {g : Unit → Process β} {step : κ}
    (hg : Takes host p (g ()) (f w) course result) :
    Takes host p (act host (p step) f >>= g) w ((step, w) :: course) result :=
  .cons alone_act hg

/-- The last step of a program. -/
theorem Takes.last {c : Process Unit} {step : κ} {w' : World}
    (hc : c.alone w = match host.stops (p step) with
      | none => (.ok (), w')
      | some how => (.error how, w)) : Takes host p c w [(step, w)] (.ok (), w') := by
  unfold Takes
  cases hstops : host.stops (p step) with
  | none =>
      rw [hstops] at hc
      rw [Host.stopAt_cons_of_done hstops]
      exact hc
  | some how =>
      rw [hstops] at hc
      rw [Host.stopAt_cons_of_stops hstops]
      exact hc

theorem whenever_pos {q : Prop} [Decidable q] {c : Process Unit} (h : q) : whenever q c = c :=
  if_pos h

/-- `if q: c` where `q` holds. -/
theorem Takes.enter {q : Prop} [Decidable q] {c : Process Unit} {g : Unit → Process β} (h : q)
    (hg : Takes host p (c >>= g) w course result) :
    Takes host p (whenever q c >>= g) w course result := by
  rwa [whenever_pos h]

/-- `if q: c` where `q` does not hold. -/
theorem Takes.skip {q : Prop} [Decidable q] {c : Process Unit} {g : Unit → Process β} (h : ¬ q)
    (hg : Takes host p (g ()) w course result) :
    Takes host p (whenever q c >>= g) w course result := by
  rw [whenever, if_neg h]
  exact hg

/-- A wait for a running Auth. -/
theorem alone_waitHealthy {place : Place} {auth : Container} {address : String}
    (hauth : w.auth = some auth) (haddress : auth.address = some address) :
    (waitHealthy host place).alone w = match host.stops place with
      | none => (.ok (), w)
      | some how => (.error how, w) := by
  unfold waitHealthy endpoint
  cases hstops : host.stops place with
  | none =>
      apply alone_bind_ok (a := address)
      rw [alone_bind, alone_look, hstops]
      simp [hauth, haddress, found, alone]
  | some how =>
      apply alone_bind_error
      rw [alone_bind, alone_look, hstops]

/-- The published address becomes the one of the running Auth. -/
theorem alone_publishAuth {place : Place} {auth : Container} {address : String}
    (hauth : w.auth = some auth) (haddress : auth.address = some address)
    (hpublished : w.published.isSome = true) :
    (publishAuth host place).alone w = match host.stops place with
      | none => (.ok (), { w with published := some address })
      | some how => (.error how, w) := by
  unfold publishAuth endpoint
  rw [alone_bind, alone_look]
  cases hstops : host.stops place with
  | none =>
      simp [whenever_pos hpublished, alone_bind, alone_look, alone_act, hstops, hauth, haddress,
        found, alone]
  | some how => rfl

end

/-! ## Bringing the previous Auth back -/

/-- The previous container runs again under the name. -/
def World.runsAgain (w : World) (old : Container) (address : String) : World :=
  { w with auth := some { old with address := some address }, previous := none }

/-- The previous container runs again, at a published address. -/
def World.broughtBack (w : World) (old : Container) (address : String) : World :=
  { w.runsAgain old address with published := some address }

/-- The course of `bringBack`. -/
def backCourse (w : World) (old : Container) (address : String) : List (Back × World) :=
  (.inspect, w) :: (if w.auth.isSome then [(.remove, w)] else []) ++
    [(.rename, { w with auth := none }), (.start, { w with auth := some old, previous := none }),
      (.wait, w.runsAgain old address), (.publish, w.runsAgain old address)]

theorem bringBack_takes {host : Host} {p : Back → Place} {w : World} {old : Container}
    (hprevious : w.previous = some old) (hpublished : w.published.isSome = true) :
    Takes host p (bringBack host p) w (backCourse w old (host.address (p .start)))
      (.ok (), w.broughtBack old (host.address (p .start))) := by
  have hrest : Takes host p
      (do
        act host (p .rename) World.renamedBack
        act host (p .start) fun w => w.startedAt (host.address (p .start))
        waitHealthy host (p .wait)
        publishAuth host (p .publish)) { w with auth := none }
      [(.rename, { w with auth := none }), (.start, { w with auth := some old, previous := none }),
        (.wait, w.runsAgain old (host.address (p .start))),
        (.publish, w.runsAgain old (host.address (p .start)))]
      (.ok (), w.broughtBack old (host.address (p .start))) := by
    refine .act ?_
    have hrenamed : World.renamedBack { w with auth := none } =
        { w with auth := some old, previous := none } := by
      rw [World.renamedBack, hprevious]
    rw [hrenamed]
    refine .act (.cons (alone_waitHealthy rfl rfl) (.last (alone_publishAuth rfl rfl hpublished)))
  unfold bringBack backCourse
  refine .look ?_
  cases hauth : w.auth with
  | none =>
      refine .skip (by simp) ?_
      have hsame : { w with auth := none } = w := by
        rw [← hauth]
      rwa [hsame] at hrest ⊢
  | some auth => exact .enter rfl (.act hrest)

/-! ## The parts of `recreate` -/

def readPlaces (saved : Files) : List Place :=
  [.inspectAuth, .loadSettings, .loadMail, .loadTemplates, .loadPhone] ++
    ((if saved.templates.isSome then [.publishRoute] else []) ++
      (.configurePhone :: if saved.mail.isNone then [] else [.configureTemplates]))

/-- The checks and reads change nothing, and give the saved files. -/
theorem readFiles_takes {host : Host} {w : World} (hauth : w.auth.isSome = true) :
    Takes host id (readFiles host) w ((readPlaces w.saved).map (·, w))
      (.ok (w.saved, w.saved.templates, w.saved.phone), w) := by
  have hlast : Takes host id
      (do
        let configuredPhone ← look host .configurePhone fun w => w.saved.phone
        let configuredTemplates ←
          if w.saved.mail.isNone then pure w.saved.templates
          else look host .configureTemplates fun w => w.saved.templates
        return ((⟨w.saved.settings, w.saved.mail, configuredTemplates, configuredPhone⟩ : Files),
          w.saved.templates, w.saved.phone)) w
      ((.configurePhone :: if w.saved.mail.isNone then [] else [.configureTemplates]).map (·, w))
      (.ok (w.saved, w.saved.templates, w.saved.phone), w) := by
    refine .look (p := id) ?_
    cases w.saved.mail.isNone with
    | true => exact takes_pure
    | false => exact .look (p := id) takes_pure
  unfold readFiles
  refine .look (p := id) ?_
  rw [require, if_pos hauth]
  refine .look (p := id) (.look (p := id) (.look (p := id) (.look (p := id) ?_)))
  cases htemplates : w.saved.templates.isSome with
  | true =>
      refine .enter rfl ?_
      exact .act (p := id) hlast
  | false => exact .skip (by simp) hlast

/-- The old Auth as it is kept beside the new one. -/
def Container.aside (old : Container) : Container := { old with address := none }

def asideCourse (w : World) (old : Container) : List (Place × World) :=
  [(.inspectPrevious, w), (.stop, w), (.rename, { w with auth := some old.aside })]

def World.steppedAside (w : World) (old : Container) : World :=
  { w with auth := none, previous := some old.aside }

theorem stepAside_takes {host : Host} {w : World} {old : Container} (hauth : w.auth = some old)
    (hprevious : w.previous = none) :
    Takes host id (stepAside host) w (asideCourse w old) (.ok (), w.steppedAside old) := by
  unfold stepAside
  refine .look (p := id) (.skip (by simp [hprevious]) (.act (p := id) ?_))
  rw [hauth]
  exact .last (p := id) alone_act

/-- The new Auth runs beside the old one. -/
def World.startedNew (w : World) (started : Files) (address : String) : World :=
  { w with auth := some ⟨started, some address⟩ }

def World.keptSettings (w : World) : World :=
  { w with copies := { w.copies with settings := w.saved.settings } }

def World.keptTemplates (w : World) : World :=
  { w.keptSettings with copies := { w.keptSettings.copies with templates := w.saved.templates } }

def World.keptPhone (w : World) : World := { w with copies := w.saved.copies }

def startCourse (w : World) (address : String) : List (Place × World) :=
  [(.prepare, w), (.run, w), (.join, w.startedNew w.saved address),
    (.egress, w.startedNew w.saved address), (.wait, w.startedNew w.saved address),
    (.keepSettings, w.startedNew w.saved address),
    (.keepTemplates, w.keptSettings.startedNew w.saved address),
    (.keepPhone, w.keptTemplates.startedNew w.saved address)]

theorem startNew_takes {host : Host} {w : World} :
    Takes host id (startNew host w.saved w.saved.templates w.saved.phone) w
      (startCourse w (host.address .run))
      (.ok (), w.keptPhone.startedNew w.saved (host.address .run)) :=
  .act (p := id) (.act (p := id) (.act (p := id) (.act (p := id)
    (.cons (p := id) (alone_waitHealthy rfl rfl) (.act (p := id) (.act (p := id)
      (.last (p := id) alone_act)))))))

end Sbarbase.SignIn
