import Mathlib.Data.Int.Order.Basic
import Mathlib.Logic.Relation
import Sbarbase.Control.Studio
/-!
# What a step of Studio does

Every event is a chain of a few moves: time passes, something is signed, or a
session is let pass. The requests that go on hold sessions that were verified.
-/

namespace Sbarbase.Control.Proofs.Studio

open Lib Control.Studio

/-- A session that `verifyStudio` returned. -/
structure Verified (s : State) (session : Claim) : Prop where
  signed : session ∈ s.signed
  kind : session.kind = .session
  started : ∀ started, session.started = some started → isSafeInteger started = true

/-- The sessions of the requests were verified. -/
def Held (s : State) : Prop := ∀ n found, s.requests n = some found → Verified s found.session

/-- What one step can do to what is signed and to the record of it. -/
inductive Move (s : State) : State → Prop
  | idle {s' : State} (signed : s'.signed = s.signed) (made : s'.made = s.made)
      (requests : ∀ n found, s'.requests n = some found → s.requests n = some found) : Move s s'
  | issued {ticket : Claim} (kind : ticket.kind = .ticket) :
      Move s (s.sign ticket (.issued ticket))
  | entered {s' : State} {older : Bool} {ticket : Claim} {runtime : String} {time : ℤ}
      (signed : ticket ∈ s.signed) (kind : ticket.kind = .ticket)
      (next : s'.signed = enteredSession older ticket runtime time :: s.signed)
      (made : s'.made =
        .entered ticket (enteredSession older ticket runtime time) time :: s.made)
      (requests : s'.requests = s.requests) : Move s s'
  | accepted {session : Claim} (verified : Verified s session) (live : s.clock < session.expires) :
      Move s (s.accept session)
  | arrived {n : ℕ} {found : Request} (verified : Verified s found.session) :
      Move s { s with requests := Function.update s.requests n (some found) }
  | renewed {session next : Claim} (verified : Verified s session)
      (due : renewedSession session s.clock = some next) :
      Move s (s.sign next (.renewed session next s.clock))
  | switched {session : Claim} {selected nonce : String} (verified : Verified s session) :
      Move s (s.sign (switchTicket s session selected nonce s.clock)
        (.switched session (switchTicket s session selected nonce s.clock)))

/-! ## Checks -/

theorem verifyStudio_eq_some {signed : List Claim} {token claim : Claim} {runtime : String}
    {kind : Kind} {now : ℤ} (h : verifyStudio signed token runtime kind now = some claim) :
    claim = token ∧ token ∈ signed ∧ token.valid runtime kind now = true := by
  unfold verifyStudio at h
  split_ifs at h with hvalid
  exact ⟨(Option.some.inj h).symm, hvalid⟩

theorem valid_kind {claim : Claim} {runtime : String} {kind : Kind} {now : ℤ}
    (h : claim.valid runtime kind now = true) : claim.kind = kind := by
  simp only [Claim.valid, Bool.and_eq_true, decide_eq_true_eq] at h
  exact h.1.1.1.1.1.1

theorem valid_started {claim : Claim} {runtime : String} {kind : Kind} {now : ℤ}
    (h : claim.valid runtime kind now = true) {started : ℤ} (hsome : claim.started = some started) :
    isSafeInteger started = true := by
  simp only [Claim.valid, Bool.and_eq_true] at h
  have hall := h.2
  rw [hsome, Option.all_some] at hall
  simp only [Bool.and_eq_true] at hall
  exact hall.1.1

theorem verified_of_verifyStudio {s : State} {token claim : Claim} {runtime : String} {now : ℤ}
    (h : verifyStudio s.signed token runtime .session now = some claim) : Verified s claim := by
  obtain ⟨rfl, hsigned, hvalid⟩ := verifyStudio_eq_some h
  exact ⟨hsigned, valid_kind hvalid, fun _ => valid_started hvalid⟩

theorem current_live {s : State} {claim : Claim} {runtime : String} {now : ℤ}
    (h : s.current claim runtime now = true) : now < claim.expires := by
  simp only [State.current, Bool.and_eq_true, decide_eq_true_eq] at h
  exact h.1.1.1

/-- The tickets that `spend` still remembers. -/
def kept (now : ℤ) (spent : List (String × ℤ)) : List (String × ℤ) :=
  spent.filter fun entry => now < entry.2

theorem spend_cases (claim : Claim) (now : ℤ) (spent : List (String × ℤ)) :
    spend claim now spent = (false, spent) ∨ spend claim now spent = (false, kept now spent) ∨
      ∃ nonce, claim.nonce = some nonce ∧ nonce ∉ (kept now spent).map Prod.fst ∧
        spend claim now spent = (true,
          (kept now spent).drop ((kept now spent).length + 1 - spentLimit) ++
            [(nonce, claim.expires)]) := by
  unfold spend
  cases claim.nonce with
  | none => exact .inl rfl
  | some nonce =>
      simp only
      split_ifs with hnonce hspent
      · exact .inr (.inl rfl)
      · exact .inr (.inr ⟨nonce, rfl, hspent, rfl⟩)
      · exact .inl rfl

/-! ## Steps -/

theorem tick_idle (s : State) (milliseconds : ℕ) : Move s (s.tick milliseconds) :=
  .idle rfl rfl fun _ _ h => h

theorem requests_update_none {s : State} {n m : ℕ} {found : Request}
    (h : Function.update s.requests n none m = some found) : s.requests m = some found := by
  rw [Function.update_apply] at h
  split_ifs at h
  exact h

/-- What an enter did: nothing but spend, or it opened a session. -/
theorem enter_cases (older : Bool) (token : Claim) (runtime : String) (a b c : ℕ) (s s' : State)
    (hs' : s' = enter older token runtime a b c s) :
    (s'.made = s.made ∧ s'.signed = s.signed ∧ s'.requests = s.requests ∧ s.clock ≤ s'.clock ∧
        (s'.spent = s.spent ∨
          s'.spent = kept (s.clock + a + b) s.spent ∧ s'.clock = s.clock + a + b)) ∨
      (token ∈ s.signed ∧ token.kind = .ticket ∧ s'.requests = s.requests ∧
        s'.clock = s.clock + a + b + c ∧
        spend token (s.clock + a + b) s.spent = (true, s'.spent) ∧
        s'.signed = enteredSession older token runtime s'.clock :: s.signed ∧
        s'.made =
          .entered token (enteredSession older token runtime s'.clock) s'.clock :: s.made) := by
  unfold enter at hs'
  split at hs'
  · rw [hs']
    exact .inl ⟨rfl, rfl, rfl, le_refl _, .inl rfl⟩
  · rename_i claim hverify
    obtain ⟨rfl, hsigned, hvalid⟩ := verifyStudio_eq_some hverify
    simp only at hs'
    split_ifs at hs' with hcurrent
    · have hclock : s.clock ≤ ((s.tick a).tick b).clock := by
        simp only [State.tick]
        omega
      unfold openSession at hs'
      rcases spend_cases claim ((s.tick a).tick b).clock ((s.tick a).tick b).spent with
        h | h | ⟨nonce, -, -, h⟩
      · rw [h] at hs'
        rw [hs']
        exact .inl ⟨rfl, rfl, rfl, hclock, .inl rfl⟩
      · rw [h] at hs'
        rw [hs']
        exact .inl ⟨rfl, rfl, rfl, hclock, .inr ⟨rfl, rfl⟩⟩
      · rw [h] at hs'
        rw [hs']
        exact .inr ⟨hsigned, valid_kind hvalid, rfl, rfl, h, rfl, rfl⟩
    · rw [hs']
      refine .inl ⟨rfl, rfl, rfl, ?_, .inl rfl⟩
      simp only [State.tick]
      omega

theorem enter_moves (older : Bool) (token : Claim) (runtime : String) (a b c : ℕ) (s : State) :
    Move s (enter older token runtime a b c s) := by
  rcases enter_cases older token runtime a b c s _ rfl with
    ⟨hmade, hsigned, hrequests, -, -⟩ | ⟨hsigned, hkind, hrequests, -, -, hnext, hmade⟩
  · exact .idle hsigned hmade fun n found h => by rwa [← hrequests]
  · exact .entered hsigned hkind hnext hmade hrequests

theorem renew_moves {s : State} {found : Request} (toRenew : ℕ) (h : Verified s found.session) :
    Relation.ReflTransGen Move s (renew found toRenew s) := by
  have htick : Relation.ReflTransGen Move s (s.tick toRenew) := .single (tick_idle s toRenew)
  unfold renew
  simp only
  split
  · exact htick
  · rename_i next hnext
    exact htick.tail (.renewed ⟨h.signed, h.kind, h.started⟩ hnext)

theorem switch_moves {s : State} {found : Request} (selected nonce : String)
    (toCurrent toSign : ℕ) (h : Verified s found.session) :
    Relation.ReflTransGen Move s (switch found selected nonce toCurrent toSign s) := by
  have hfirst : Relation.ReflTransGen Move s (s.tick toCurrent) := .single (tick_idle s toCurrent)
  have hsecond := hfirst.tail (tick_idle (s.tick toCurrent) toSign)
  unfold switch
  simp only
  split_ifs
  · exact hsecond.tail (.switched ⟨h.signed, h.kind, h.started⟩)
  · exact hfirst
  · exact hfirst

theorem check_moves {s : State} (hheld : Held s) (request : ℕ) (next : Request → State → State)
    (hnext : ∀ found, Verified (s.accept found.session) found.session →
      Relation.ReflTransGen Move (s.accept found.session)
        (next found (s.accept found.session))) :
    Relation.ReflTransGen Move s (check request next s) := by
  unfold check
  split
  · exact .refl
  · rename_i found hfound
    have hverified := hheld request found hfound
    split_ifs with hcurrent
    · exact .head (.accepted hverified (current_live hcurrent))
        (hnext found ⟨hverified.signed, hverified.kind, hverified.started⟩)
    · exact .single (.idle rfl rfl fun _ _ => requests_update_none)

theorem arrive_moves (request : ℕ) (token : Claim) (runtime : String) (toCurrent : ℕ) (s : State) :
    Relation.ReflTransGen Move s (arrive request token runtime toCurrent s) := by
  unfold arrive
  split
  · exact .refl
  · rename_i claim hverify
    have hverified := verified_of_verifyStudio hverify
    have htick : Relation.ReflTransGen Move s (s.tick toCurrent) := .single (tick_idle s toCurrent)
    simp only
    split_ifs with hcurrent
    · have hlater : Verified (s.tick toCurrent) claim :=
        ⟨hverified.signed, hverified.kind, hverified.started⟩
      refine (htick.tail (.accepted hlater (current_live hcurrent))).tail ?_
      exact .arrived (n := request) (show Verified _ (Request.mk claim runtime).session from
        ⟨hlater.signed, hlater.kind, hlater.started⟩)
    · exact htick

/-- Every event is a chain of moves. -/
theorem step_moves {s : State} (hheld : Held s) (e : Event) :
    Relation.ReflTransGen Move s (step s e) := by
  cases e with
  | tick milliseconds => exact .single (tick_idle s milliseconds)
  | setEpoch actor epoch => exact .single (.idle rfl rfl fun _ _ h => h)
  | setRuntimeEpoch runtime epoch => exact .single (.idle rfl rfl fun _ _ h => h)
  | setAllowed actor runtime allowed => exact .single (.idle rfl rfl fun _ _ h => h)
  | setRunning runtime running => exact .single (.idle rfl rfl fun _ _ h => h)
  | console actor runtime nonce =>
      simp only [step]
      split_ifs
      · exact .single (.issued rfl)
      · exact .refl
  | enter older token runtime a b c => exact .single (enter_moves older token runtime a b c s)
  | arrive request token runtime toCurrent => exact arrive_moves request token runtime toCurrent s
  | check request => exact check_moves hheld request (fun _ s => s) fun _ _ => .refl
  | answer request toRenew => exact check_moves hheld request _ fun found => renew_moves toRenew
  | switch request selected nonce toCurrent toSign =>
      exact check_moves hheld request _ fun found => switch_moves selected nonce toCurrent toSign

/-! ## Runs -/

theorem Move.signed_subset {s s' : State} (h : Move s s') {claim : Claim} (hmem : claim ∈ s.signed) :
    claim ∈ s'.signed := by
  cases h with
  | idle signed => rwa [signed]
  | entered _ _ next => rw [next]; exact List.mem_cons_of_mem _ hmem
  | accepted | arrived => exact hmem
  | issued | renewed | switched => exact List.mem_cons_of_mem _ hmem

theorem Move.made_subset {s s' : State} (h : Move s s') {made : Made} (hmem : made ∈ s.made) :
    made ∈ s'.made := by
  cases h with
  | idle _ same => rwa [same]
  | entered _ _ _ next => rw [next]; exact List.mem_cons_of_mem _ hmem
  | arrived => exact hmem
  | issued | renewed | switched | accepted => exact List.mem_cons_of_mem _ hmem

theorem Verified.move {s s' : State} (h : Move s s') {session : Claim} (hv : Verified s session) :
    Verified s' session := ⟨h.signed_subset hv.signed, hv.kind, hv.started⟩

theorem Held.move {s s' : State} (h : Move s s') (hheld : Held s) : Held s' := by
  have hsame : (∀ n found, s'.requests n = some found → s.requests n = some found) → Held s' :=
    fun hrequests n found hfound => (hheld n found (hrequests n found hfound)).move h
  cases h with
  | idle _ _ requests => exact hsame requests
  | entered _ _ _ _ requests => exact hsame fun n found hfound => by rwa [← requests]
  | arrived verified =>
      intro n found hfound
      simp only [Function.update_apply] at hfound
      split_ifs at hfound with hn
      · obtain rfl := Option.some.inj hfound
        exact ⟨verified.signed, verified.kind, verified.started⟩
      · have hold := hheld n found hfound
        exact ⟨hold.signed, hold.kind, hold.started⟩
  | issued | accepted | renewed | switched => exact hsame fun _ _ h => h

/-- What every move keeps holds in every reachable state. -/
theorem run_moves {I : State → Prop} {start : ℤ} (hinit : I (machine start).initial)
    (hmove : ∀ s s', Held s → Move s s' → I s → I s') (events : List Event) :
    I ((machine start).run events) := by
  have hchain : ∀ s s', Relation.ReflTransGen Move s s' → Held s ∧ I s → Held s' ∧ I s' := by
    intro s s' h hI
    induction h with
    | refl => exact hI
    | tail _ hlast ih => exact ⟨ih.1.move hlast, hmove _ _ ih.1 hlast ih.2⟩
  have hrun := (machine start).run_invariant (I := fun s => Held s ∧ I s)
    ⟨nofun, hinit⟩ (fun s e hI => hchain _ _ (step_moves hI.1 e) hI) events
  exact hrun.2

end Sbarbase.Control.Proofs.Studio
