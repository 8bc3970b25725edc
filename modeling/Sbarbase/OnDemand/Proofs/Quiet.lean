import Sbarbase.Gateway.Proofs.Slots
import Sbarbase.OnDemand.Activity
import Sbarbase.OnDemand.Proofs.Records
/-!
# The quiet period

Every use of a service leaves a mark where it ends, except an Edge Functions
call: it is marked when it starts, and the gate that releases it marks nothing.
So what the sweep knows of the past is the last mark, the start of the process
and what is in use now, and a call that ended is missing from it.
-/

namespace Sbarbase.OnDemand.Proofs.Quiet

open Lib Control Gateway OnDemand.Proofs.Rows OnDemand.Proofs.Records

/-! ## Use -/

/-- An Edge Functions call of the runtime that the gate has not released. -/
def isRunning (runtime : String) (call : Concurrency.Call) : Prop :=
  call.environment = runtime ∧ call.budget.map Concurrency.Budget.service = some "functions" ∧
    call.released = false

/-- A socket of the service is open, or a call of it is in flight. -/
def Busy (s : Console) : Key → Prop
  | (.realtime, runtime) => ∃ socket ∈ s.opened, socket.runtime = runtime ∧ socket.closed = false
  | (.functions, runtime) => ∃ call ∈ s.gate.calls, isRunning runtime call

section

variable (options : Options) (config : Concurrency.Config)

/-- The service was in use at a moment between `s` and the state that `e` leads to. -/
def UsedBy (s : Console) (e : ConsoleEvent) (key : Key) (moment : ℤ) : Prop :=
  (Busy s key ∧ s.clock ≤ moment ∧ moment ≤ ((consoleMachine options config).step s e).clock) ∨
    (e = .touch key ∧ moment = s.clock)

def UsedAt (events : List ConsoleEvent) (key : Key) (moment : ℤ) : Prop :=
  ∃ before e, before ++ [e] <+: events ∧
    UsedBy options config ((consoleMachine options config).run before) e key moment

/-- The gate released an Edge Functions call of the runtime. -/
def Ends (s : Console) (e : ConsoleEvent) (runtime : String) : Prop :=
  ∃ event, e = .gate event ∧
    ((consoleMachine options config).step s e).inFlightCalls runtime < s.inFlightCalls runtime

def EndedAt (events : List ConsoleEvent) (runtime : String) (moment : ℤ) : Prop :=
  ∃ before e, before ++ [e] <+: events ∧
    ((consoleMachine options config).run before).clock = moment ∧
    Ends options config ((consoleMachine options config).run before) e runtime

/-! ## What a console keeps -/

def socketKey (socket : Socket) : Option String :=
  if socket.closed then none else some socket.runtime

/-- The counters count, and the process began in the past. -/
structure Sound (s : Console) : Prop where
  sockets : Tallies socketKey s.opened s.activity.sockets
  gate : ∃ events, s.gate = (Concurrency.machine config).run events
  startedAt_nonneg : 0 ≤ s.activity.startedAt
  startedAt_le : s.activity.startedAt ≤ s.clock

end

/-! ### Marks -/

section

variable {a : Activity} {now moment : ℤ} {key other : Key}

/-- The last mark of a service is not before a moment. -/
def Marked (a : Activity) (key : Key) (moment : ℤ) : Prop :=
  ∃ last, a.last.get key = some last ∧ moment ≤ last

@[simp] theorem mark_sockets : (a.mark now key).sockets = a.sockets := rfl

@[simp] theorem mark_startedAt : (a.mark now key).startedAt = a.startedAt := rfl

theorem marked_self (hmoment : moment ≤ now) : Marked (a.mark now key) key moment :=
  ⟨now, by rw [Activity.mark, Dict.get_set, if_pos rfl], hmoment⟩

theorem Marked.mark (h : Marked a key moment) (hmoment : moment ≤ now) :
    Marked (a.mark now other) key moment := by
  by_cases heq : key = other
  · subst heq
    exact marked_self hmoment
  · obtain ⟨last, hlast, hle⟩ := h
    exact ⟨last, by rw [Activity.mark, Dict.get_set, if_neg heq, hlast], hle⟩

/-- The marks of the open sockets leave the rest alone. -/
theorem refresh_frame (now : ℤ) (runtimes : List String) (a : Activity) :
    let after := runtimes.foldl (fun a runtime => a.mark now (.realtime, runtime)) a
    after.sockets = a.sockets ∧ after.startedAt = a.startedAt ∧
      ∀ key moment, Marked a key moment → moment ≤ now → Marked after key moment := by
  induction runtimes generalizing a with
  | nil => exact ⟨rfl, rfl, fun _ _ h _ => h⟩
  | cons runtime runtimes ih =>
      obtain ⟨hsockets, hstarted, hmarked⟩ := ih (a.mark now (.realtime, runtime))
      exact ⟨hsockets, hstarted,
        fun key moment h hmoment => hmarked key moment (h.mark hmoment) hmoment⟩

theorem flush_frame (a : Activity) (now : ℤ) (stored : Dict Key ℤ) (saved : Bool) :
    (a.flush now stored saved).1.sockets = a.sockets ∧
      (a.flush now stored saved).1.startedAt = a.startedAt ∧
      ∀ key moment, Marked a key moment → moment ≤ now →
        Marked (a.flush now stored saved).1 key moment := by
  have h := refresh_frame now a.sockets.keys a
  unfold Activity.flush Activity.refresh
  cases saved <;> exact h

/-- A socket that was open is taken out of the count. -/
theorem socketClosed_tallies {opened : List Socket} {id : ℕ} {socket : Socket}
    (h : Tallies socketKey opened a.sockets) (hget : opened[id]? = some socket)
    (hopen : socket.closed = false) :
    Tallies socketKey (opened.set id { socket with closed := true })
      (a.socketClosed now socket.runtime).sockets := by
  have hkey : socketKey socket = some socket.runtime := by simp [socketKey, hopen]
  have hne := h.get_ne_none.mpr ⟨socket, List.mem_of_getElem? hget, hkey⟩
  obtain ⟨n, hn⟩ := Option.ne_none_iff_exists'.mp hne
  have hpos := h.one_le hn
  have hlower : (a.socketClosed now socket.runtime).sockets = a.sockets.lower socket.runtime := by
    simp only [Activity.socketClosed, mark_sockets, Dict.lower, hn, Option.getD_some]
    by_cases hone : n - 1 = 0
    · rw [if_neg (by omega), if_pos hone]
    · rw [if_pos (by omega), if_neg hone]
  rw [hlower]
  exact h.drop hget hkey (by simp [socketKey])

end

/-! ### The steps -/

section

variable (options : Options) (config : Concurrency.Config) {s : Console}

/-- The function that closes a socket does nothing, or takes an open socket out of
the count. -/
theorem close_cases (s : Console) (id : ℕ) :
    s.close id = s ∨ ∃ socket, s.opened[id]? = some socket ∧ socket.closed = false ∧
      s.close id = { s with
        opened := s.opened.set id { socket with closed := true }
        activity := s.activity.socketClosed s.clock socket.runtime } := by
  unfold Console.close
  split
  · exact .inl rfl
  · rename_i socket hget
    split_ifs with hclosed
    · exact .inl rfl
    · exact .inr ⟨socket, hget, by simpa using hclosed, rfl⟩

/-- How far an event moves the clock. -/
def elapsed : ConsoleEvent → ℤ
  | .pass ms => ms
  | _ => 0

theorem clock_step (s : Console) (e : ConsoleEvent) :
    ((consoleMachine options config).step s e).clock = s.clock + elapsed e := by
  cases e with
  | pass ms => rfl
  | socketClosed id =>
      change (s.close id).clock = s.clock + 0
      rcases close_cases s id with hsame | ⟨socket, -, -, hclosed⟩
      · rw [hsame, add_zero]
      · rw [hclosed, add_zero]
  | onDemand event => cases event <;> exact (add_zero s.clock).symm
  | _ => exact (add_zero s.clock).symm

theorem elapsed_nonneg (e : ConsoleEvent) : 0 ≤ elapsed e := by
  cases e <;> simp [elapsed]

theorem Sound.step (h : Sound config s) (e : ConsoleEvent) :
    Sound config ((consoleMachine options config).step s e) := by
  obtain ⟨hsockets, hgate, hnonneg, hle⟩ := h
  cases e with
  | pass ms =>
      refine ⟨hsockets, hgate, hnonneg, ?_⟩
      change s.activity.startedAt ≤ s.clock + ms
      omega
  | touch key => exact ⟨hsockets, hgate, hnonneg, hle⟩
  | socketOpened runtime => exact ⟨hsockets.push rfl, hgate, hnonneg, hle⟩
  | socketClosed id =>
      change Sound config (s.close id)
      rcases close_cases s id with hsame | ⟨socket, hget, hopen, hclosed⟩
      · rw [hsame]
        exact ⟨hsockets, hgate, hnonneg, hle⟩
      · rw [hclosed]
        exact ⟨socketClosed_tallies hsockets hget hopen, hgate, hnonneg, hle⟩
  | gate event =>
      obtain ⟨events, hevents⟩ := hgate
      refine ⟨hsockets, ⟨events ++ [event], ?_⟩, hnonneg, hle⟩
      rw [(Concurrency.machine config).run_snoc, ← hevents]
      rfl
  | flush saved =>
      obtain ⟨hkept, hstarted, -⟩ := flush_frame s.activity s.clock s.stored saved
      refine ⟨?_, hgate, ?_, ?_⟩
      · change Tallies _ _ (s.activity.flush s.clock s.stored saved).1.sockets
        rw [hkept]
        exact hsockets
      · change 0 ≤ (s.activity.flush s.clock s.stored saved).1.startedAt
        rw [hstarted]
        exact hnonneg
      · change (s.activity.flush s.clock s.stored saved).1.startedAt ≤ s.clock
        rw [hstarted]
        exact hle
  | restart => exact ⟨.nil, ⟨[], rfl⟩, hnonneg.trans hle, le_refl s.clock⟩
  | sweep ctx running loaded => exact ⟨hsockets, hgate, hnonneg, hle⟩
  | onDemand event => cases event <;> exact ⟨hsockets, hgate, hnonneg, hle⟩

theorem sound_run (events : List ConsoleEvent) :
    Sound config ((consoleMachine options config).run events) :=
  (consoleMachine options config).run_invariant ⟨.nil, ⟨[], rfl⟩, le_refl _, le_refl _⟩
    (fun _ e h => h.step options config e) events

theorem partKey_holder (call : Concurrency.Call) (runtime : String) :
    (Gateway.Proofs.Slots.rules config.toSettings).partKey (Gateway.Proofs.Slots.holder call) =
      some (runtime, "functions") ↔ isRunning runtime call := by
  unfold isRunning Pool.Rules.partKey Pool.Rules.partOf
  cases hreleased : call.released <;>
    simp [Gateway.Proofs.Slots.holder, Gateway.Proofs.Slots.rules, hreleased, and_left_comm]

/-- The gate counts the calls of each service. -/
theorem gate_tallies (h : Sound config s) :
    Tallies (Gateway.Proofs.Slots.rules config.toSettings).partKey
      (s.gate.calls.map Gateway.Proofs.Slots.holder) s.gate.services := by
  obtain ⟨events, hgate⟩ := h.gate
  rw [hgate]
  exact (Gateway.Proofs.Slots.sound_pool config events).parts

theorem inFlightCalls_nonneg (h : Sound config s) (runtime : String) :
    0 ≤ s.inFlightCalls runtime :=
  (Int.natCast_nonneg _).trans_eq ((gate_tallies config h).getD (runtime, "functions")).symm

/-- The count of the gate is above zero exactly while a call is in flight. -/
theorem inFlightCalls_pos (h : Sound config s) (runtime : String) :
    0 < s.inFlightCalls runtime ↔ Busy s (.functions, runtime) := by
  refine ((gate_tallies config h).getD_pos (k := (runtime, "functions"))).trans ?_
  simp only [List.mem_map, exists_exists_and_eq_and, partKey_holder]
  rfl

theorem openSockets_pos (h : Sound config s) (runtime : String) :
    0 < s.activity.openSockets runtime ↔ Busy s (.realtime, runtime) := by
  refine h.sockets.getD_pos.trans (exists_congr fun socket => and_congr_right fun _ => ?_)
  unfold socketKey
  cases socket.closed <;> simp

/-- What a console knows of a use at a moment: it precedes the process, or it goes
on, or a mark follows it. -/
def Noted (s : Console) (key : Key) (moment : ℤ) : Prop :=
  moment ≤ s.activity.startedAt ∨ Busy s key ∨ Marked s.activity key moment

/-- What is in use stays so, or leaves a mark, or is a call that ends. -/
theorem busy_step (h : Sound config s) (e : ConsoleEvent) {key : Key} {moment : ℤ}
    (hbusy : Busy s key) (hmoment : moment ≤ ((consoleMachine options config).step s e).clock) :
    Noted ((consoleMachine options config).step s e) key moment ∨
      (key.1 = .functions ∧ Ends options config s e key.2) := by
  obtain ⟨service, runtime⟩ := key
  cases e with
  | socketOpened opened =>
      left
      right
      left
      cases service with
      | realtime =>
          obtain ⟨socket, hsocket, hopen⟩ := hbusy
          exact ⟨socket, List.mem_append_left _ hsocket, hopen⟩
      | functions => exact hbusy
  | socketClosed id =>
      left
      right
      have hnow : moment ≤ s.clock := by simpa [clock_step, elapsed] using hmoment
      change Busy (s.close id) (service, runtime) ∨ Marked (s.close id).activity _ _
      rcases close_cases s id with hsame | ⟨closing, hget, -, hclosed⟩
      · rw [hsame]
        exact .inl hbusy
      rw [hclosed]
      cases service with
      | functions => exact .inl hbusy
      | realtime =>
          obtain ⟨socket, hsocket, hruntime, hopen⟩ := hbusy
          obtain ⟨i, hi⟩ := List.getElem?_of_mem hsocket
          by_cases hid : id = i
          · subst hid
            obtain rfl : closing = socket := Option.some.inj (hget.symm.trans hi)
            rw [← hruntime]
            exact .inr (marked_self hnow)
          · left
            refine ⟨socket, List.mem_of_getElem? (i := i) ?_, hruntime, hopen⟩
            rw [List.getElem?_set_ne hid, hi]
  | gate event =>
      cases service with
      | realtime => exact .inl (.inr (.inl hbusy))
      | functions =>
          by_cases hends : Ends options config s (.gate event) runtime
          · exact .inr ⟨rfl, hends⟩
          · left
            right
            left
            have hbefore := (inFlightCalls_pos config h runtime).mpr hbusy
            rw [← inFlightCalls_pos config (h.step options config (.gate event))]
            exact hbefore.trans_le (not_lt.mp fun hlt => hends ⟨event, rfl, hlt⟩)
  | restart => exact .inl (.inl hmoment)
  | onDemand event => left; right; left; cases event <;> exact hbusy
  | pass _ | touch _ | flush _ | sweep _ _ _ => exact .inl (.inr (.inl hbusy))

/-- What a console knows is forgotten by the end of a call only. -/
theorem noted_step (h : Sound config s) (e : ConsoleEvent) {key : Key} {moment : ℤ}
    (hnoted : Noted s key moment) (hmoment : moment ≤ s.clock) :
    Noted ((consoleMachine options config).step s e) key moment ∨
      (key.1 = .functions ∧ Ends options config s e key.2) := by
  have hclock : moment ≤ ((consoleMachine options config).step s e).clock := by
    rw [clock_step]
    exact hmoment.trans (le_add_of_nonneg_right (elapsed_nonneg e))
  rcases hnoted with hstarted | hbusy | hmarked
  · left
    left
    cases e with
    | restart => exact hmoment
    | socketClosed id =>
        change moment ≤ (s.close id).activity.startedAt
        rcases close_cases s id with hsame | ⟨closing, -, -, hclosed⟩
        · rwa [hsame]
        · rwa [hclosed]
    | flush saved =>
        exact hstarted.trans_eq
          (flush_frame s.activity s.clock s.stored saved).2.1.symm
    | onDemand event => cases event <;> exact hstarted
    | _ => exact hstarted
  · exact busy_step options config h e hbusy hclock
  · left
    cases e with
    | restart => exact .inl hmoment
    | touch other => exact .inr (.inr (hmarked.mark hmoment))
    | socketOpened runtime => exact .inr (.inr (hmarked.mark hmoment))
    | socketClosed id =>
        right
        right
        change Marked (s.close id).activity key moment
        rcases close_cases s id with hsame | ⟨closing, -, -, hclosed⟩
        · rwa [hsame]
        · rw [hclosed]
          exact hmarked.mark hmoment
    | flush saved =>
        exact .inr (.inr
          ((flush_frame s.activity s.clock s.stored saved).2.2 key moment hmarked hmoment))
    | onDemand event => right; right; cases event <;> exact hmarked
    | _ => exact .inr (.inr hmarked)

end

/-! ## The sweep -/

section

variable (ctx : Context) (killed sleepDue : Bool) (running quiet : Target → Bool)

/-- A service that was not quiet is not put to sleep. -/
theorem sweepTarget_restless (s : Sweep) {target : Target} (hquiet : quiet target = false) :
    (sweepTarget ctx false sleepDue running quiet s target).catalog = s.catalog := by
  unfold sweepTarget
  simp only [hquiet, Bool.false_eq_true, false_and, and_false, if_false]
  split_ifs <;> rfl

/-- What the sweep writes wakes a service, or puts a target that was quiet to sleep. -/
def Decided (targets : List Target) (row : ServiceSwitch) : Prop :=
  row.desired = true ∨
    ∃ target ∈ targets, quiet target = true ∧
      row = requestRow ctx (key target) false "system:idle"

theorem sweepTargets_decided (targets : List Target) (s : Sweep) :
    Asks (Decided ctx quiet targets) s.catalog
      (targets.foldl (sweepTarget ctx killed sleepDue running quiet) s).catalog := by
  induction targets generalizing s with
  | nil => exact asks_refl _
  | cons target targets ih =>
      rw [List.foldl_cons]
      refine Asks.trans ?_ ((ih _).mono fun row hrow => hrow.imp_right ?_)
      · rcases sweepTarget_cases ctx killed sleepDue running quiet s target with
          ⟨hsame, -⟩ | ⟨-, -, -, -, hasked⟩ | ⟨rfl, hasked⟩
        · rw [hsame]
          exact asks_refl _
        · exact hasked.asks (.inl rfl)
        · cases hquiet : quiet target with
          | false =>
              rw [sweepTarget_restless ctx sleepDue running quiet s hquiet]
              exact asks_refl _
          | true => exact hasked.asks (.inr ⟨target, List.mem_cons_self, hquiet, rfl⟩)
      · rintro ⟨other, hother, hrest⟩
        exact ⟨other, List.mem_cons_of_mem target hother, hrest⟩

end

/-- The row of a service names it. -/
theorem settings_key {c : Catalog} {service : Key} {row : ServiceSwitch}
    (h : settings c service.2 service.1 = some row) :
    row.key = (settingsTable service.1, service.2) :=
  (Table.get_eq_some.mp h).2

theorem idleMinutes_of_mem {c : Catalog} {target : Target} (h : target ∈ onDemandTargets c) :
    target.idleMinutes = (c.serviceMode target.runtime target.service).2 := by
  obtain ⟨row, -, rfl⟩ := List.mem_map.mp h
  rfl

section

variable (options : Options) (config : Concurrency.Config)

/-- A sweep writes a stop of the service. -/
def Sleeps (s : Console) (ctx : Context) (running loaded : Target → Bool) (service : Key) : Prop :=
  (written s.installation.catalog
    ((consoleMachine options config).step s
      (.sweep ctx running loaded)).installation.catalog service).any (fun row => !row.desired) = true

/-- The quiet period of the service. -/
def idleMs (s : Console) (service : Key) : ℤ :=
  (s.installation.catalog.serviceMode service.2 service.1).2 * 60000

/-- A service is put to sleep only if it was found quiet. -/
theorem quietFor_of_sleeps {s : Console} {ctx : Context} {running loaded : Target → Bool}
    {service : Key} (h : Sleeps options config s ctx running loaded service) :
    ∃ stored, s.activity.quietFor s.clock s.inFlightCalls stored service (idleMs s service) =
      true := by
  unfold Sleeps at h
  obtain ⟨row, hwritten, hoff⟩ := Option.any_eq_true _ _ |>.mp h
  rw [written, Option.filter_eq_some_iff] at hwritten
  obtain ⟨hrow, hnew⟩ := hwritten
  change settings (sweep { ctx with now := s.clock } s.installation.policy s.installation.catalog
    running (s.quiet loaded)).1.catalog service.2 service.1 = some row at hrow
  rcases sweepTargets_decided { ctx with now := s.clock } (killSwitch s.installation.catalog) _
      running (s.quiet loaded) (onDemandTargets s.installation.catalog)
      ⟨s.installation.catalog, false, 0, 0⟩ service with hsame | ⟨-, row', hrow', -, hdecided⟩
  · have hold : settings s.installation.catalog service.2 service.1 = some row := by
      rw [← hrow]
      exact hsame.symm
    simp [hold] at hnew
  · obtain rfl : row = row' := Option.some.inj (hrow.symm.trans hrow')
    rcases hdecided with hon | ⟨target, htarget, hquiet, rfl⟩
    · simp [hon] at hoff
    · have hkey := settings_key hrow
      obtain rfl : service = key target := by
        rw [ServiceSwitch.key, Prod.mk.injEq] at hkey
        exact (Prod.ext (settingsTable_injective hkey.1) hkey.2).symm
      unfold Console.quiet at hquiet
      rw [idleMinutes_of_mem htarget] at hquiet
      exact ⟨_, hquiet⟩

/-! ## Every run -/

theorem UsedAt.append {events : List ConsoleEvent} {service : Key} {moment : ℤ}
    (h : UsedAt options config events service moment) (later : List ConsoleEvent) :
    UsedAt options config (events ++ later) service moment := by
  obtain ⟨before, e, hprefix, hused⟩ := h
  exact ⟨before, e, hprefix.trans (List.prefix_append events later), hused⟩

theorem EndedAt.append {events : List ConsoleEvent} {runtime : String} {moment : ℤ}
    (h : EndedAt options config events runtime moment) (later : List ConsoleEvent) :
    EndedAt options config (events ++ later) runtime moment := by
  obtain ⟨before, e, hprefix, hended⟩ := h
  exact ⟨before, e, hprefix.trans (List.prefix_append events later), hended⟩

theorem usedAt_snoc {events : List ConsoleEvent} {e : ConsoleEvent} {service : Key} {moment : ℤ}
    (h : UsedAt options config (events ++ [e]) service moment) :
    UsedAt options config events service moment ∨
      UsedBy options config ((consoleMachine options config).run events) e service moment := by
  obtain ⟨before, last, hprefix, hused⟩ := h
  rcases List.prefix_concat_iff.mp hprefix with heq | hprefix
  · obtain ⟨rfl, hlast⟩ := List.append_inj' heq rfl
    obtain rfl := List.singleton_inj.mp hlast
    exact .inr hused
  · exact .inl ⟨before, last, hprefix, hused⟩

/-- Every use so far is noted, or was a call that has ended since. -/
theorem noted_of_used (events : List ConsoleEvent) {service : Key} {moment : ℤ}
    (h : UsedAt options config events service moment) :
    moment ≤ ((consoleMachine options config).run events).clock ∧
      (Noted ((consoleMachine options config).run events) service moment ∨
        (service.1 = .functions ∧
          ∃ last, moment ≤ last ∧ EndedAt options config events service.2 last)) := by
  induction events using List.reverseRecOn with
  | nil =>
      obtain ⟨before, e, hprefix, -⟩ := h
      simp at hprefix
  | append_singleton events e ih =>
      have hsound := sound_run options config events
      have hends : moment ≤ ((consoleMachine options config).run events).clock →
          (service.1 = .functions ∧
            Ends options config ((consoleMachine options config).run events) e service.2) →
          service.1 = .functions ∧
            ∃ last, moment ≤ last ∧ EndedAt options config (events ++ [e]) service.2 last :=
        fun hmoment hend => ⟨hend.1, _, hmoment, events, e, List.prefix_rfl, rfl, hend.2⟩
      rw [(consoleMachine options config).run_snoc]
      rcases usedAt_snoc options config h with hearlier | ⟨hbusy, -, hmoment⟩ | ⟨rfl, rfl⟩
      · obtain ⟨hmoment, hnoted | ⟨hfunctions, last, hlast, hended⟩⟩ := ih hearlier
        all_goals
          refine ⟨?_, ?_⟩
          · rw [clock_step]
            exact hmoment.trans (le_add_of_nonneg_right (elapsed_nonneg e))
        · exact (noted_step options config hsound e hnoted hmoment).imp_right (hends hmoment)
        · exact .inr ⟨hfunctions, last, hlast, hended.append options config [e]⟩
      · refine ⟨hmoment, (busy_step options config hsound e hbusy hmoment).imp_right fun hend => ?_⟩
        -- the clock stands still while a call ends
        obtain ⟨-, event, rfl, -⟩ := id hend
        exact hends (by simpa [clock_step, elapsed] using hmoment) hend
      · exact ⟨le_refl _, .inl (.inr (.inr (marked_self (le_refl _))))⟩

/-- No socket was open, no call was in flight and nothing touched the service at
any moment of its quiet period, up to the sweep. -/
def Rested (events : List ConsoleEvent) (sweep : ConsoleEvent) (service : Key) : Prop :=
  let s := (consoleMachine options config).run events
  ∀ moment, s.clock - idleMs s service < moment → moment ≤ s.clock →
    ¬ UsedAt options config (events ++ [sweep]) service moment

/-- An Edge Functions call ended in the quiet period. -/
def CallEnded (events : List ConsoleEvent) (service : Key) : Prop :=
  let s := (consoleMachine options config).run events
  service.1 = .functions ∧
    ∃ moment, s.clock - idleMs s service < moment ∧ EndedAt options config events service.2 moment

/-- A quiet service is not in use, and its last mark, and the start of the process,
lie a quiet period back. -/
theorem quietFor_spec {a : Activity} {now : ℤ} {calls : String → ℤ} {stored : Option ℤ}
    {service : Key} {idle : ℤ} (h : a.quietFor now calls stored service idle = true) :
    (if service.1 = .realtime then a.openSockets service.2 else calls service.2) ≤ 0 ∧
      idle ≤ now - a.startedAt ∧
      ∀ last, a.last.get service = some last → 0 < last → idle ≤ now - last := by
  unfold Activity.quietFor at h
  dsimp only at h
  split_ifs at h with huse hstarted
  all_goals
    refine ⟨by simp_all, by omega, fun last hlast hpos => ?_⟩
    simp only [Activity.lastUsed, hlast, Option.getD_some] at h
    rw [if_pos (hpos.trans_le (le_max_left _ _)), Option.all_some, decide_eq_true_eq] at h
    have hmax : last ≤ max last (stored.getD 0) := le_max_left _ _
    omega

/-- A sleep that a sweep writes comes after a whole quiet period without use,
exactly if no Edge Functions call of the service ended in that period. -/
theorem quiet_law (events : List ConsoleEvent) (ctx : Context) (running loaded : Target → Bool)
    (service : Key)
    (h : Sleeps options config ((consoleMachine options config).run events) ctx running loaded
      service) :
    Rested options config events (.sweep ctx running loaded) service ↔
      ¬ CallEnded options config events service := by
  have hsound := sound_run options config events
  obtain ⟨stored, hquiet⟩ := quietFor_of_sleeps options config h
  obtain ⟨hidle, hstarted, hlast⟩ := quietFor_spec hquiet
  have hfree : ¬ Busy ((consoleMachine options config).run events) service := by
    obtain ⟨kind, runtime⟩ := service
    cases kind with
    | realtime =>
        rw [if_pos rfl] at hidle
        rw [← openSockets_pos config hsound]
        exact hidle.not_gt
    | functions =>
        rw [if_neg (by simp)] at hidle
        rw [← inFlightCalls_pos config hsound]
        exact hidle.not_gt
  constructor
  · rintro hrested ⟨hfunctions, moment, hmoment, before, e, hprefix, rfl, event, rfl, hless⟩
    have hbefore := sound_run options config before
    have hcount :=
      inFlightCalls_nonneg config (hbefore.step options config (.gate event)) service.2
    have hbusy := (inFlightCalls_pos config hbefore service.2).mp (hcount.trans_lt hless)
    have hused : UsedAt options config events service
        ((consoleMachine options config).run before).clock := by
      refine ⟨before, _, hprefix, .inl ⟨?_, le_refl _, ?_⟩⟩
      · rw [← hfunctions] at hbusy
        exact hbusy
      · simp [clock_step, elapsed]
    exact hrested _ hmoment (noted_of_used options config events hused).1
      (hused.append options config _)
  · intro hnone moment hafter hbefore hused
    rcases usedAt_snoc options config hused with hearlier | ⟨hbusy, -, -⟩ | ⟨htouch, -⟩
    · obtain ⟨-, (hfirst | hbusy | ⟨last, hget, hle⟩) | ⟨hfunctions, last, hle, hended⟩⟩ :=
        noted_of_used options config events hearlier
      · omega
      · exact hfree hbusy
      · have hpos : 0 < last := by
          have := hsound.startedAt_nonneg
          omega
        have := hlast last hget hpos
        omega
      · exact hnone ⟨hfunctions, last, hafter.trans_le hle, hended⟩
    · exact hfree hbusy
    · cases htouch

end

/-! ## Two runs -/

/-- A request wakes Edge Functions of the first environment, On demand with a quiet
period of fifteen minutes. -/
def wakes : List Event :=
  [.elsewhere installed, .ensure (callAt 10) functionsKey false, .wake (callAt 10) false,
      .schedule functionsKey] ++
    operate [.desired, .busy false, .requestedBy, .result 0, .record true 12, .audit true 1 12] ++
    [.wake (callAt 13) true]

/-- It is counted as a use. -/
def woken : List ConsoleEvent :=
  wakes.map .onDemand ++ [.pass 1000, .touch functionsKey]

theorem rested_woken : Rested {} .defaults (woken ++ [.pass 920000])
      (.sweep (callAt 0) (fun _ => true) fun _ => true) functionsKey := by
  have hsleeps : Sleeps {} .defaults
      ((consoleMachine {} .defaults).run (woken ++ [.pass 920000])) (callAt 0) (fun _ => true)
      (fun _ => true) functionsKey := by
    unfold Sleeps
    decide +kernel
  rw [quiet_law {} .defaults _ _ _ _ _ hsleeps]
  rintro ⟨-, moment, -, before, e, hprefix, -, event, rfl, -⟩
  have hmem : ConsoleEvent.gate event ∈ woken ++ [.pass 920000] := hprefix.subset (by simp)
  simp [woken, wakes, operate] at hmem

/-- The call of that request. -/
def called : List ConsoleEvent :=
  woken ++ [.gate (.arrive firstRuntime false (some ⟨"functions", 4, false, some 150000⟩) 1000)]

/-- It runs for two minutes and ends. -/
def answered : List ConsoleEvent :=
  called ++ [.pass 120000, .gate (.upstreamSettles 0 (.response .none)), .gate (.continueRun 0),
    .pass 800000]

/-- Edge Functions go to sleep less than fifteen minutes after a call of them ended. -/
theorem answered_sleeps :
    Sleeps {} .defaults ((consoleMachine {} .defaults).run answered) (callAt 0) (fun _ => true)
        (fun _ => true) functionsKey ∧
      ¬ Rested {} .defaults answered (.sweep (callAt 0) (fun _ => true) fun _ => true)
        functionsKey := by
  refine ⟨by unfold Sleeps; decide +kernel, fun hrested => ?_⟩
  refine hrested 121000 (by decide +kernel) (by decide +kernel) ⟨called, .pass 120000, ?_, .inl ?_⟩
  · rw [answered, List.append_assoc]
    exact (List.prefix_append_right_inj called).mpr (by simp)
  · exact ⟨by unfold Busy isRunning functionsKey; decide, by decide,
      by decide⟩

end Sbarbase.OnDemand.Proofs.Quiet
