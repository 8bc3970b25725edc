import Sbarbase.Control.Proofs.Studio
/-!
# Where a Studio session comes from

A session descends from a ticket of the console through enters, renewals and
switches. Its expiry bounds its age since the last enter, and since the opening
only while no ticket of a switch was entered: an enter starts the age again.
-/

namespace Sbarbase.Control.Proofs.StudioLaw

open Lib Control.Studio Control.Proofs.Studio

/-- `session` descends from the ticket `root` of the console: it was opened at
`opened`, last entered at `entered` and last entered or renewed at `last`. -/
inductive Session (made : List Made) (root : Claim) : Claim → ℤ → ℤ → ℤ → Prop
  | entered {session : Claim} {time : ℤ} (issued : .issued root ∈ made)
      (entered : .entered root session time ∈ made) : Session made root session time time time
  | renewed {old session : Claim} {opened entered last time : ℤ}
      (before : Session made root old opened entered last)
      (renewed : .renewed old session time ∈ made) :
      Session made root session opened entered time
  | switched {old ticket session : Claim} {opened entered last time : ℤ}
      (before : Session made root old opened entered last)
      (switched : .switched old ticket ∈ made) (entered : .entered ticket session time ∈ made) :
      Session made root session opened time time

theorem Session.mono {made made' : List Made} {root session : Claim} {opened entered last : ℤ}
    (hsub : ∀ m ∈ made, m ∈ made') (h : Session made root session opened entered last) :
    Session made' root session opened entered last := by
  induction h with
  | entered issued entered => exact .entered (hsub _ issued) (hsub _ entered)
  | renewed _ renewed ih => exact .renewed ih (hsub _ renewed)
  | switched _ switched entered ih => exact .switched ih (hsub _ switched) (hsub _ entered)

/-! ## Every session has a chain -/

/-- Where a signed claim comes from. -/
def Descends (made : List Made) (claim : Claim) : Prop :=
  match claim.kind with
  | .session => ∃ root opened entered last, Session made root claim opened entered last
  | .ticket => .issued claim ∈ made ∨ ∃ root old opened entered last,
      Session made root old opened entered last ∧ .switched old claim ∈ made

theorem Descends.mono {made made' : List Made} {claim : Claim} (hsub : ∀ m ∈ made, m ∈ made')
    (h : Descends made claim) : Descends made' claim := by
  unfold Descends at h ⊢
  split at h
  · obtain ⟨root, opened, entered, last, hsession⟩ := h
    exact ⟨root, opened, entered, last, hsession.mono hsub⟩
  · rcases h with hissued | ⟨root, old, opened, entered, last, hsession, hswitched⟩
    · exact .inl (hsub _ hissued)
    · exact .inr ⟨root, old, opened, entered, last, hsession.mono hsub, hsub _ hswitched⟩

theorem Descends.session {made : List Made} {claim : Claim} (h : Descends made claim)
    (hkind : claim.kind = .session) :
    ∃ root opened entered last, Session made root claim opened entered last := by
  unfold Descends at h
  rw [hkind] at h
  exact h

theorem Descends.ticket {made : List Made} {claim : Claim} (h : Descends made claim)
    (hkind : claim.kind = .ticket) :
    .issued claim ∈ made ∨ ∃ root old opened entered last,
      Session made root old opened entered last ∧ .switched old claim ∈ made := by
  unfold Descends at h
  rw [hkind] at h
  exact h

theorem descends_of_session {made : List Made} {root claim : Claim} {opened entered last : ℤ}
    (hkind : claim.kind = .session) (h : Session made root claim opened entered last) :
    Descends made claim := by
  unfold Descends
  rw [hkind]
  exact ⟨root, opened, entered, last, h⟩

/-- Entering a ticket with a chain gives a session with a chain. -/
theorem Descends.entered {made : List Made} {ticket session : Claim} {time : ℤ}
    (h : Descends made ticket) (hkind : ticket.kind = .ticket)
    (hentered : .entered ticket session time ∈ made) :
    ∃ root opened entered last, Session made root session opened entered last := by
  rcases h.ticket hkind with hissued | ⟨root, old, opened, entered, last, hold, hswitched⟩
  · exact ⟨ticket, time, time, time, .entered hissued hentered⟩
  · exact ⟨root, opened, time, time, .switched hold hswitched hentered⟩

theorem renewedSession_eq_some {claim next : Claim} {now : ℤ}
    (h : renewedSession claim now = some next) :
    next = { claim with
      started := some claim.opened
      expires := min (now + sessionMs) (claim.opened + sessionLimitMs) } := by
  unfold renewedSession at h
  simp only at h
  split_ifs at h
  exact (Option.some.inj h).symm

/-- Every signed claim has a chain. -/
def Rooted (s : State) : Prop := ∀ claim ∈ s.signed, Descends s.made claim

theorem rooted_move (s s' : State) (_ : Held s) (hmove : Move s s') (h : Rooted s) : Rooted s' := by
  have hold : ∀ claim ∈ s.signed, Descends s'.made claim := fun claim hmem =>
    (h claim hmem).mono fun _ => hmove.made_subset
  have hcons : ∀ claim : Claim, Descends s'.made claim → ∀ other ∈ claim :: s.signed,
      Descends s'.made other := by
    rintro claim hclaim other hother
    rcases List.mem_cons.mp hother with rfl | hmem
    · exact hclaim
    · exact hold other hmem
  cases hmove with
  | idle signed => rw [Rooted, signed]; exact hold
  | issued kind =>
      refine hcons _ ?_
      unfold Descends
      rw [kind]
      exact .inl List.mem_cons_self
  | entered signed kind next made =>
      rw [Rooted, next]
      refine hcons _ ?_
      obtain ⟨root, opened, entered, last, hsession⟩ :=
        (hold _ signed).entered kind (by rw [made]; exact List.mem_cons_self)
      exact descends_of_session rfl hsession
  | accepted => exact hold
  | arrived => exact hold
  | renewed verified due =>
      refine hcons _ ?_
      obtain ⟨root, opened, entered, last, hsession⟩ := (hold _ verified.signed).session verified.kind
      refine descends_of_session ?_ (.renewed hsession List.mem_cons_self)
      rw [renewedSession_eq_some due]
      exact verified.kind
  | switched verified =>
      refine hcons _ ?_
      obtain ⟨root, opened, entered, last, hsession⟩ := (hold _ verified.signed).session verified.kind
      unfold Descends
      exact .inr ⟨root, _, opened, entered, last, hsession, List.mem_cons_self⟩

/-- The accepted sessions were signed. -/
def Passed (s : State) : Prop :=
  ∀ session time, .accepted session time ∈ s.made → session ∈ s.signed

theorem passed_move (s s' : State) (_ : Held s) (hmove : Move s s') (h : Passed s) : Passed s' := by
  intro session time hmem
  have hold : .accepted session time ∈ s.made → session ∈ s'.signed :=
    fun hmade => hmove.signed_subset (h session time hmade)
  cases hmove with
  | idle _ made => exact hold (by rwa [← made])
  | entered _ _ _ made =>
      rw [made] at hmem
      exact hold (by simpa using hmem)
  | accepted verified =>
      rcases List.mem_cons.mp hmem with hfirst | hmade
      · cases hfirst
        exact verified.signed
      · exact hold hmade
  | arrived => exact hold hmem
  | issued | renewed | switched =>
      rcases List.mem_cons.mp hmem with hfirst | hmade
      · cases hfirst
      · exact hold hmade

/-! ## What a link of the chain carries on -/

/-- When a session says it was opened. -/
def startedOf (claim : Claim) : ℤ := claim.started.getD (claim.expires - sessionMs)

theorem opened_of_verified {s : State} {session : Claim} (h : Verified s session) :
    session.opened = startedOf session := by
  unfold Claim.opened startedOf
  cases hstarted : session.started with
  | none => rfl
  | some started => simp [h.started started hstarted]

theorem startedOf_entered (older : Bool) (ticket : Claim) (runtime : String) (time : ℤ) :
    startedOf (enteredSession older ticket runtime time) = time := by
  cases older
  · rfl
  · simp [startedOf, enteredSession]

/-- What an entry of the record says of the claims in it. -/
def Sound (made : Made) : Prop :=
  match made with
  | .issued _ => True
  | .entered ticket session time =>
    session.actor = ticket.actor ∧ session.expires = time + sessionMs ∧ startedOf session = time
  | .renewed session next time =>
    next.actor = session.actor ∧ next.expires ≤ time + sessionMs ∧
      next.expires ≤ startedOf session + sessionLimitMs ∧ startedOf next = startedOf session
  | .switched session ticket => ticket.actor = session.actor
  | .accepted session time => session.kind = .session ∧ time < session.expires

theorem sound_move (s s' : State) (_ : Held s) (hmove : Move s s')
    (h : ∀ made ∈ s.made, Sound made) : ∀ made ∈ s'.made, Sound made := by
  have hcons : ∀ made, Sound made → ∀ other ∈ made :: s.made, Sound other := by
    rintro made hmade other hother
    rcases List.mem_cons.mp hother with rfl | hmem
    · exact hmade
    · exact h other hmem
  cases hmove with
  | idle _ made => rw [made]; exact h
  | issued => exact hcons _ trivial
  | entered _ _ _ made =>
      rw [made]
      exact hcons _ ⟨rfl, rfl, startedOf_entered _ _ _ _⟩
  | accepted verified live => exact hcons _ ⟨verified.kind, live⟩
  | arrived => exact h
  | renewed verified due =>
      refine hcons _ ?_
      rw [renewedSession_eq_some due]
      refine ⟨rfl, min_le_left _ _, ?_, opened_of_verified verified⟩
      rw [← opened_of_verified verified]
      exact min_le_right _ _
  | switched => exact hcons _ rfl

theorem sound_run (start : ℤ) (events : List Event) :
    ∀ made ∈ ((machine start).run events).made, Sound made :=
  run_moves (I := fun s => ∀ made ∈ s.made, Sound made)
    (fun _ hmem => absurd hmem List.not_mem_nil) sound_move events

theorem sessionMs_le_limit (time : ℤ) : time + sessionMs ≤ time + sessionLimitMs := by
  simp only [sessionMs, sessionLimitMs]
  omega

/-- The chain of a session bounds its expiry and keeps its actor. -/
theorem Session.bounds {made : List Made} (hsound : ∀ m ∈ made, Sound m) {root session : Claim}
    {opened entered last : ℤ} (h : Session made root session opened entered last) :
    session.actor = root.actor ∧ session.expires ≤ last + sessionMs ∧
      session.expires ≤ entered + sessionLimitMs ∧ startedOf session = entered := by
  induction h with
  | @entered session time issued entered =>
      obtain ⟨hactor, hexpires, hstarted⟩ := hsound _ entered
      exact ⟨hactor, le_of_eq hexpires, hexpires.trans_le (sessionMs_le_limit time), hstarted⟩
  | renewed _ renewed ih =>
      obtain ⟨hactor, hlast, hlimit, hstarted⟩ := hsound _ renewed
      obtain ⟨hroot, -, -, hentered⟩ := ih
      rw [hentered] at hlimit hstarted
      exact ⟨hactor.trans hroot, hlast, hlimit, hstarted⟩
  | @switched old ticket session opened entered last time _ switched entered ih =>
      have hticket : ticket.actor = old.actor := hsound _ switched
      obtain ⟨hactor, hexpires, hstarted⟩ := hsound _ entered
      exact ⟨(hactor.trans hticket).trans ih.1, le_of_eq hexpires,
        hexpires.trans_le (sessionMs_le_limit time), hstarted⟩

/-- No ticket that a switch made was entered. -/
def NoSwitchEntered (made : List Made) : Prop :=
  ∀ old ticket session time, .switched old ticket ∈ made → .entered ticket session time ∉ made

theorem Session.entered_eq_opened {made : List Made} (hnone : NoSwitchEntered made)
    {root session : Claim} {opened entered last : ℤ}
    (h : Session made root session opened entered last) : entered = opened := by
  induction h with
  | entered => rfl
  | renewed _ _ ih => exact ih
  | switched _ switched entered => exact absurd entered (hnone _ _ _ _ switched)

/-! ## Each ticket opens one session -/

/-- The sessions that `ticket` opened. -/
def opens (ticket : Claim) (made : List Made) : ℕ :=
  made.countP fun m =>
    match m with
    | .entered found _ _ => found = ticket
    | _ => false

/-- The tickets that were entered, in that order. -/
def used (made : List Made) : List (String × ℤ) :=
  made.reverse.filterMap fun m =>
    match m with
    | .entered ticket _ _ => ticket.nonce.map fun nonce => (nonce, ticket.expires)
    | _ => none

/-- The ticket of an enter, and what the clock is when `spend` reads it. -/
def spending (s : State) : Event → Option (Claim × ℤ)
  | .enter _ token _ toCurrent toSpend _ => some (token, s.clock + toCurrent + toSpend)
  | _ => none

/-- The clock of `spend` has not reached the expiry of the ticket. -/
def Timely (s : State) (e : Event) : Prop := ∀ given ∈ spending s e, given.2 < given.1.expires

/-- Fewer unexpired tickets than the bound have been spent when `spend` runs. -/
def Few (s : State) (e : Event) : Prop :=
  ∀ given ∈ spending s e, (kept given.2 (used s.made)).length < spentLimit

instance (s : State) (e : Event) : Decidable (Timely s e) :=
  inferInstanceAs (Decidable (∀ given ∈ spending s e, _))

instance (s : State) (e : Event) : Decidable (Few s e) :=
  inferInstanceAs (Decidable (∀ given ∈ spending s e, _))

/-- `spend` remembers the unexpired tickets that were entered, and only those. -/
structure Remembers (s : State) : Prop where
  sublist : s.spent.Sublist (used s.made)
  unexpired : ∀ entry ∈ used s.made, s.clock < entry.2 → entry ∈ s.spent
  nonce : ∀ ticket session time, .entered ticket session time ∈ s.made →
    ∃ nonce, ticket.nonce = some nonce
  once : ∀ ticket, opens ticket s.made ≤ 1

theorem used_cons (m : Made) (made : List Made) : used (m :: made) = used made ++ used [m] := by
  simp [used, List.filterMap_append]

theorem Remembers.of_same {s s' : State} (h : Remembers s) (hspent : s'.spent = s.spent)
    (hclock : s.clock ≤ s'.clock) (hused : used s'.made = used s.made)
    (hopens : ∀ ticket, opens ticket s'.made = opens ticket s.made)
    (hentered : ∀ ticket session time,
      .entered ticket session time ∈ s'.made → .entered ticket session time ∈ s.made) :
    Remembers s' where
  sublist := by rw [hspent, hused]; exact h.sublist
  unexpired := by
    rw [hspent, hused]
    exact fun entry hmem hlt => h.unexpired entry hmem (lt_of_le_of_lt hclock hlt)
  nonce := fun ticket session time hmem => h.nonce ticket session time (hentered _ _ _ hmem)
  once := fun ticket => by rw [hopens]; exact h.once ticket

theorem remembers_initial (start : ℤ) : Remembers (machine start).initial where
  sublist := List.nil_sublist _
  unexpired := fun _ hmem => absurd hmem List.not_mem_nil
  nonce := fun _ _ _ hmem => absurd hmem List.not_mem_nil
  once := fun _ => Nat.zero_le _

theorem used_entered {made : List Made} {ticket session : Claim} {time : ℤ} {nonce : String}
    (hmem : .entered ticket session time ∈ made) (hnonce : ticket.nonce = some nonce) :
    (nonce, ticket.expires) ∈ used made := by
  rw [used, List.mem_filterMap]
  exact ⟨_, List.mem_reverse.mpr hmem, by simp [hnonce]⟩

theorem opens_pos {made : List Made} {ticket : Claim} (h : 0 < opens ticket made) :
    ∃ session time, .entered ticket session time ∈ made := by
  obtain ⟨m, hmem, hm⟩ := List.countP_pos_iff.mp h
  cases m with
  | entered found session time =>
      obtain rfl := of_decide_eq_true hm
      exact ⟨session, time, hmem⟩
  | issued | renewed | switched | accepted => cases hm

/-- The tickets `spend` keeps are those that were entered and are not expired. -/
theorem Remembers.kept_sublist {s : State} (h : Remembers s) (now : ℤ) :
    (kept now s.spent).Sublist (kept now (used s.made)) :=
  h.sublist.filter _

theorem Remembers.enter {s s' : State} {older : Bool} {token : Claim} {runtime : String}
    {a b c : ℕ} (h : Remembers s) (hs' : s' = enter older token runtime a b c s)
    (htimely : s.clock + a + b < token.expires)
    (hfew : (kept (s.clock + a + b) (used s.made)).length < spentLimit) : Remembers s' := by
  rcases enter_cases older token runtime a b c s s' hs' with
    ⟨hmade, -, -, hclock, hspent | ⟨hspent, hnow⟩⟩ |
    ⟨hsigned, hkind, -, hnow, hspend, -, hmade⟩
  · exact h.of_same hspent hclock (by rw [hmade]) (fun _ => by rw [hmade])
      fun _ _ _ hmem => by rwa [hmade] at hmem
  · -- the ticket was used: only the expired ones are forgotten
    refine ⟨?_, ?_, ?_, ?_⟩
    · rw [hspent, hmade]
      exact List.filter_sublist.trans h.sublist
    · rw [hspent, hmade, hnow]
      intro entry hmem hlt
      refine List.mem_filter.mpr ⟨h.unexpired entry hmem ?_, decide_eq_true hlt⟩
      omega
    · rw [hmade]
      exact h.nonce
    · rw [hmade]
      exact h.once
  · -- the ticket was not among the ones kept, so it had opened nothing
    obtain ⟨nonce, hnonce, hfresh, hspent⟩ : ∃ nonce, token.nonce = some nonce ∧
        nonce ∉ (kept (s.clock + a + b) s.spent).map Prod.fst ∧
        s'.spent = kept (s.clock + a + b) s.spent ++ [(nonce, token.expires)] := by
      rcases spend_cases token (s.clock + a + b) s.spent with hcase | hcase | ⟨nonce, hnonce, hfresh, hcase⟩
      · rw [hcase] at hspend
        cases hspend
      · rw [hcase] at hspend
        cases hspend
      · rw [hcase] at hspend
        have hlength := (h.kept_sublist (s.clock + a + b)).length_le
        have hdrop : (kept (s.clock + a + b) s.spent).length + 1 - spentLimit = 0 := by omega
        rw [hdrop, List.drop_zero] at hspend
        exact ⟨nonce, hnonce, hfresh, (Prod.mk.inj hspend).2.symm⟩
    have hused : used s'.made = used s.made ++ [(nonce, token.expires)] := by
      rw [hmade, used_cons]
      simp [used, hnonce]
    refine ⟨?_, ?_, ?_, ?_⟩
    · rw [hspent, hused]
      exact (List.filter_sublist.trans h.sublist).append (List.Sublist.refl _)
    · rw [hspent, hused]
      intro entry hmem hlt
      rcases List.mem_append.mp hmem with hold | hlast
      · apply List.mem_append_left
        refine List.mem_filter.mpr ⟨h.unexpired entry hold ?_, decide_eq_true ?_⟩
        · omega
        · omega
      · exact List.mem_append_right _ hlast
    · rw [hmade]
      intro ticket session time hmem
      rcases List.mem_cons.mp hmem with hfirst | hold
      · cases hfirst
        exact ⟨nonce, hnonce⟩
      · exact h.nonce ticket session time hold
    · intro ticket
      rw [hmade, opens, List.countP_cons]
      have hold := h.once ticket
      by_cases hticket : token = ticket
      · have hzero : opens ticket s.made = 0 := by
          by_contra hpos
          obtain ⟨session, time, hmem⟩ := opens_pos (Nat.pos_of_ne_zero hpos)
          subst hticket
          have hentry := h.unexpired _ (used_entered hmem hnonce) (by simp only; omega)
          apply hfresh
          exact List.mem_map.mpr ⟨_, List.mem_filter.mpr ⟨hentry, decide_eq_true htimely⟩, rfl⟩
        rw [opens] at hzero
        rw [hzero]
        split_ifs <;> omega
      · rw [opens] at hold
        simpa [hticket] using hold

/-- A move that opens no session leaves what is remembered. -/
theorem Remembers.cons {s : State} {signed : List Claim} {made : Made} (h : Remembers s)
    (hmade : ∀ ticket session time, made ≠ .entered ticket session time) :
    Remembers { s with signed := signed, made := made :: s.made } := by
  cases made with
  | entered ticket session time => exact absurd rfl (hmade ticket session time)
  | issued | renewed | switched | accepted =>
      refine h.of_same rfl (le_refl _) ?_ (fun ticket => ?_) fun _ _ _ hmem => ?_
      · rw [used_cons]
        simp [used]
      · simp [opens]
      · simpa using hmem

theorem Remembers.same {s s' : State} (h : Remembers s) (hspent : s'.spent = s.spent)
    (hclock : s.clock ≤ s'.clock) (hmade : s'.made = s.made) : Remembers s' :=
  h.of_same hspent hclock (by rw [hmade]) (fun _ => by rw [hmade])
    fun _ _ _ hmem => by rwa [hmade] at hmem

theorem Remembers.tick {s : State} (h : Remembers s) (milliseconds : ℕ) :
    Remembers (s.tick milliseconds) :=
  h.same rfl (by simp only [State.tick]; omega) rfl

theorem Remembers.renew {s : State} {found : Request} {toRenew : ℕ} (h : Remembers s) :
    Remembers (renew found toRenew s) := by
  unfold Studio.renew
  simp only
  split
  · exact h.tick toRenew
  · exact (h.tick toRenew).cons (by simp)

theorem Remembers.switch {s : State} {found : Request} {selected nonce : String}
    {toCurrent toSign : ℕ} (h : Remembers s) :
    Remembers (switch found selected nonce toCurrent toSign s) := by
  unfold Studio.switch
  simp only
  split_ifs
  · exact ((h.tick toCurrent).tick toSign).cons (by simp)
  · exact h.tick toCurrent
  · exact h.tick toCurrent

theorem Remembers.check {s : State} {request : ℕ} {next : Request → State → State}
    (h : Remembers s) (hnext : ∀ found t, Remembers t → Remembers (next found t)) :
    Remembers (check request next s) := by
  unfold Studio.check
  split
  · exact h
  · rename_i found hfound
    split_ifs
    · exact hnext found _ (h.cons (by simp))
    · exact h.same rfl (le_refl _) rfl

theorem Remembers.arrive {s : State} {request : ℕ} {token : Claim} {runtime : String}
    {toCurrent : ℕ} (h : Remembers s) : Remembers (arrive request token runtime toCurrent s) := by
  unfold Studio.arrive
  split
  · exact h
  · rename_i claim hverify
    have haccepted : Remembers ((s.tick toCurrent).accept claim) :=
      (h.tick toCurrent).cons (by simp)
    simp only
    split_ifs
    · exact haccepted.same rfl (le_refl _) rfl
    · exact h.tick toCurrent

theorem remembers_step (s : State) (e : Event) (he : Timely s e ∧ Few s e) (h : Remembers s) :
    Remembers (step s e) := by
  cases e with
  | tick milliseconds => exact h.tick milliseconds
  | setEpoch actor epoch => exact h.same rfl (le_refl _) rfl
  | setRuntimeEpoch runtime epoch => exact h.same rfl (le_refl _) rfl
  | setAllowed actor runtime allowed => exact h.same rfl (le_refl _) rfl
  | setRunning runtime running => exact h.same rfl (le_refl _) rfl
  | console actor runtime nonce =>
      simp only [step]
      split_ifs
      · exact h.cons (by simp)
      · exact h
  | enter older token runtime a b c => exact h.enter rfl (he.1 _ rfl) (he.2 _ rfl)
  | arrive request token runtime toCurrent => exact h.arrive
  | check request => exact h.check fun _ _ ht => ht
  | answer request toRenew => exact h.check fun _ _ ht => ht.renew
  | switch request selected nonce toCurrent toSign => exact h.check fun _ _ ht => ht.switch

/-! ## The law -/

/-- Where an accepted session comes from and how old it can be, and that a
ticket opens one session. -/
theorem studio_law (start : ℤ) (events : List Event) :
    (∀ session time, .accepted session time ∈ ((machine start).run events).made →
      (∃ root opened entered last,
        Session ((machine start).run events).made root session opened entered last) ∧
      ∀ root opened entered last,
        Session ((machine start).run events).made root session opened entered last →
        session.actor = root.actor ∧ time < last + sessionMs ∧ time < entered + sessionLimitMs ∧
          (NoSwitchEntered ((machine start).run events).made → time < opened + sessionLimitMs)) ∧
    ((machine start).Along (fun s e => Timely s e ∧ Few s e) (machine start).initial events →
      ∀ ticket, opens ticket ((machine start).run events).made ≤ 1) := by
  have hsound := sound_run start events
  have hrooted : Rooted ((machine start).run events) :=
    run_moves (fun _ hmem => absurd hmem List.not_mem_nil) rooted_move events
  have hpassed : Passed ((machine start).run events) :=
    run_moves (fun _ _ hmem => absurd hmem List.not_mem_nil) passed_move events
  constructor
  · intro session time haccepted
    obtain ⟨hkind, hlive⟩ := hsound _ haccepted
    refine ⟨(hrooted session (hpassed session time haccepted)).session hkind, ?_⟩
    intro root opened entered last hsession
    obtain ⟨hactor, hlast, hentered, -⟩ := hsession.bounds hsound
    refine ⟨hactor, hlive.trans_le hlast, hlive.trans_le hentered, fun hnone => ?_⟩
    rw [← hsession.entered_eq_opened hnone]
    exact hlive.trans_le hentered
  · intro halong
    exact ((machine start).run_invariant_along (I := Remembers) (remembers_initial start)
      remembers_step events halong).once

/-! A session carried from one environment to the other, each time just before it
ends, passes more than seven days after it was opened from the console. -/

def hop : ℤ := sessionMs - 1

def runtimeAt (k : ℕ) : String :=
  if k % 2 = 0 then "e_aaaaaaaaaaaaaaaaaaaaaaaa" else "e_bbbbbbbbbbbbbbbbbbbbbbbb"

def nonceAt (k : ℕ) : String := String.ofList (List.replicate (12 + k) 'n')

def ticketAt (k : ℕ) : Claim :=
  ⟨runtimeAt k, "ada", k * hop + ticketMs, .ticket, 0, some 0, some (nonceAt k), none⟩

def sessionAt (k : ℕ) : Claim := enteredSession false (ticketAt k) (runtimeAt k) (k * hop)

def opening : List Event :=
  [.setAllowed "ada" (runtimeAt 0) true, .setAllowed "ada" (runtimeAt 1) true,
    .setRunning (runtimeAt 0) true, .setRunning (runtimeAt 1) true,
    .console "ada" (runtimeAt 0) (nonceAt 0), .enter false (ticketAt 0) (runtimeAt 0) 0 0 0]

def hopping (k : ℕ) : List Event :=
  [.tick 28799999, .arrive k (sessionAt k) (runtimeAt k) 0,
    .switch k (runtimeAt (k + 1)) (nonceAt (k + 1)) 0 0,
    .enter false (ticketAt (k + 1)) (runtimeAt (k + 1)) 0 0 0]

def endless : List Event :=
  opening ++ (List.range 21).flatMap hopping ++
    [.tick 28799999, .arrive 21 (sessionAt 21) (runtimeAt 21) 0]

theorem endless_passes_limit :
    .accepted (sessionAt 21) (22 * hop) ∈ ((machine 0).run endless).made ∧
      Session ((machine 0).run endless).made (ticketAt 0) (sessionAt 21) 0 (21 * hop) (21 * hop) ∧
      0 + sessionLimitMs < 22 * hop := by
  have hmade : (.issued (ticketAt 0) ∈ ((machine 0).run endless).made ∧
      .entered (ticketAt 0) (sessionAt 0) 0 ∈ ((machine 0).run endless).made) ∧
      (∀ k < 21, .switched (sessionAt k) (ticketAt (k + 1)) ∈ ((machine 0).run endless).made ∧
        .entered (ticketAt (k + 1)) (sessionAt (k + 1)) ((k + 1 : ℕ) * hop) ∈
          ((machine 0).run endless).made) ∧
      .accepted (sessionAt 21) (22 * hop) ∈ ((machine 0).run endless).made := by
    decide +kernel
  obtain ⟨hopened, hhops, haccepted⟩ := hmade
  have hchain : ∀ k ≤ 21, Session ((machine 0).run endless).made (ticketAt 0) (sessionAt k)
      0 (k * hop) (k * hop) := by
    intro k hk
    induction k with
    | zero => exact .entered hopened.1 hopened.2
    | succ k ih =>
        obtain ⟨hswitched, hentered⟩ := hhops k (by omega)
        exact .switched (ih (by omega)) hswitched hentered
  exact ⟨haccepted, hchain 21 (le_refl 21), by decide⟩

def opened : List Event := opening ++ [.arrive 0 (sessionAt 0) (runtimeAt 0) 0]

theorem studio_law_opened : (∃ root opening entered last,
      Session ((machine 0).run opened).made root (sessionAt 0) opening entered last) ∧
      opens (ticketAt 0) ((machine 0).run opened).made ≤ 1 :=
  ⟨((studio_law 0 opened).1 (sessionAt 0) 0 (by decide)).1,
    (studio_law 0 opened).2 (by decide) (ticketAt 0)⟩

/-- A ticket is used twice if its expiry falls between the check and `spend`. -/
example : opens (ticketAt 0) ((machine 0).run (opening ++
    [.tick 59999, .enter false (ticketAt 0) (runtimeAt 0) 0 1 0])).made = 2 := by decide

end Sbarbase.Control.Proofs.StudioLaw
