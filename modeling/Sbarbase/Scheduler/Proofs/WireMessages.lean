import Mathlib.Algebra.GroupWithZero.Nat
import Sbarbase.Scheduler.Proofs.WireChunks
/-!
# The messages of a stream

Every run of a reader comes to the results of the same calls on the same stream in
one chunk, and each byte of the stream is part of one result, or still unread.
-/

namespace Sbarbase.Scheduler.Proofs.WireMessages

open Lib Wire WireChunks

structure Inv (s : State) (p : ℕ) : Prop where
  decodes : Decodes s.closed s.stream s.results p
  sits : Sits s.reader s.stream (p + taken s.pending)
  /-- The head that the waiting call took. -/
  waits : ∀ drop type length, s.pending = .body drop type length →
    5 ≤ (s.stream.drop p).length ∧ type = typeOf ((s.stream.drop p).take 5) ∧
      (length : ℤ) = readInt32BE ((s.stream.drop p).take 5) - 4 ∧ dropped drop type length = false

/-- No byte that the reader has moves the call that waits. -/
def Settled (s : State) (p : ℕ) : Prop :=
  s.pending = .idle ∨ ∃ drop, s.pending = waitsAt drop (s.stream.drop p) ∧
    decode s.closed drop (s.stream.drop p) = none

section

variable {s s' : State} {p : ℕ}

/-- A call that waits after five bytes knows the head of a message that is kept. -/
theorem body_of_waitsAt {closed drop : Bool} {rest : Bytes} (hnone : decode closed drop rest = none)
    {drop' : Bool} {type : Char} {length : ℕ} (h : waitsAt drop rest = .body drop' type length) :
    5 ≤ rest.length ∧ type = typeOf (rest.take 5) ∧
      (length : ℤ) = readInt32BE (rest.take 5) - 4 ∧ dropped drop' type length = false := by
  unfold waitsAt at h
  split at h
  next => nomatch h
  next hhead =>
    obtain ⟨rfl, rfl, rfl⟩ := Pending.body.inj h
    unfold decode at hnone
    simp only [hhead, if_false] at hnone
    split at hnone
    next => nomatch hnone
    next hneg =>
      have hlength : ((readInt32BE (rest.take 5) - 4).toNat : ℤ) = readInt32BE (rest.take 5) - 4 := by
        omega
      split at hnone
      next => nomatch hnone
      next hkept =>
        refine ⟨by omega, rfl, hlength, ?_⟩
        rw [hlength]
        exact (Bool.not_eq_true _).mp hkept

theorem inv_comes {drop : Bool} (hdecodes : Decodes s.closed s.stream s.results p)
    (h : Comes s p drop s') : ∃ p', Inv s' p' ∧ Settled s' p' := by
  unfold Comes at h
  cases hdecode : decode s.closed drop (s.stream.drop p) with
  | some result =>
    obtain ⟨result, n⟩ := result
    rw [hdecode] at h
    obtain ⟨r, rfl, hsits⟩ := h
    refine ⟨p + n, ⟨hdecodes.snoc hdecode, hsits, ?_⟩, .inl rfl⟩
    intro _ _ _ hbody
    nomatch hbody
  | none =>
    rw [hdecode] at h
    obtain ⟨r, rfl, hsits⟩ := h
    refine ⟨p, ⟨hdecodes, hsits, ?_⟩, .inr ⟨drop, rfl, hdecode⟩⟩
    intro _ _ _ hbody
    exact body_of_waitsAt hdecode hbody

/-- The call that waits is woken. -/
theorem inv_wake (h : Inv s p) : ∃ p', Inv s.wake p' ∧ Settled s.wake p' := by
  have hsits := h.sits
  unfold State.wake
  cases hpending : s.pending with
  | idle => exact ⟨p, h, .inl hpending⟩
  | head drop =>
    rw [hpending] at hsits
    exact inv_comes h.decodes (comes_readHead hsits)
  | body drop type length =>
    rw [hpending] at hsits
    obtain ⟨hrest, htype, hlength, hkept⟩ := h.waits drop type length hpending
    exact inv_comes h.decodes (comes_readBody hsits hrest htype hlength hkept)

theorem inv_feed (h : Inv s p) (hopen : s.closed = false) (chunk : Bytes) :
    Inv { s with reader := s.reader.feed chunk, stream := s.stream ++ chunk } p where
  decodes := by
    have hdecodes := h.decodes
    rw [hopen] at hdecodes
    exact hdecodes.append s.closed chunk
  sits := sits_feed h.sits chunk
  waits := by
    intro drop type length hbody
    obtain ⟨hrest, htype, hlength, hkept⟩ := h.waits drop type length hbody
    have hbound : (s.stream.drop p).length = s.stream.length - p := List.length_drop
    have happend : (s.stream ++ chunk).drop p = s.stream.drop p ++ chunk :=
      List.drop_append_of_le_length (by omega)
    have hhead : ((s.stream ++ chunk).drop p).take 5 = (s.stream.drop p).take 5 := by
      rw [happend]
      exact List.take_append_of_le_length hrest
    simp only [hhead]
    refine ⟨?_, htype, hlength, hkept⟩
    rw [happend, List.length_append]
    omega

theorem inv_step (h : ∃ p, Inv s p) (e : Event) : ∃ p, Inv (step s e) p := by
  obtain ⟨p, h⟩ := h
  cases e with
  | feed chunk =>
    simp only [step]
    split
    · exact ⟨p, h⟩
    next hopen => exact ⟨p, inv_feed h ((Bool.not_eq_true _).mp hopen) chunk⟩
  | close => exact ⟨p, h.decodes.close, h.sits, h.waits⟩
  | call drop =>
    simp only [step]
    split
    next hidle =>
      have hsits := h.sits
      rw [hidle] at hsits
      have hcomes : Comes s p drop (s.readHead drop) := comes_readHead hsits
      obtain ⟨p', hinv, _⟩ := inv_comes h.decodes hcomes
      exact ⟨p', hinv⟩
    next => exact ⟨p, h⟩
  | wake =>
    obtain ⟨p', hinv, _⟩ := inv_wake h
    exact ⟨p', hinv⟩

theorem inv_run (events : List Event) : ∃ p, Inv (machine.run events) p := by
  refine machine.run_invariant (I := fun s => ∃ p, Inv s p) ?_ (fun s e h => inv_step h e) events
  refine ⟨0, .nil, ⟨rfl, rfl, rfl⟩, ?_⟩
  intro _ _ _ hbody
  nomatch hbody

end

/-! ## The stream in one chunk -/

/-- The calls that came to a result come to it again. -/
theorem replay {s : State} (hidle : s.pending = .idle) (hresults : s.results = [])
    (hsits : Sits s.reader s.stream 0) {results : List (Bool × Result)} {p : ℕ}
    (h : Decodes s.closed s.stream results p) :
    ∃ r, machine.runFrom s (results.map fun result => .call result.1) =
      { s with reader := r, results := results } ∧ Sits r s.stream p := by
  induction h with
  | nil =>
    have hsame : { s with reader := s.reader, results := [] } = s := by rw [← hresults]
    exact ⟨s.reader, hsame.symm, hsits⟩
  | @snoc results p drop result n _ hcall ih =>
    obtain ⟨r, hrun, hafter⟩ := ih
    have hcomes : Comes { s with reader := r, results := results } p drop
        ({ s with reader := r, results := results }.readHead drop) := comes_readHead hafter
    unfold Comes at hcomes
    rw [hcall] at hcomes
    obtain ⟨r', hread, hnext⟩ := hcomes
    refine ⟨r', ?_, hnext⟩
    rw [List.map_append, machine.runFrom_append, hrun]
    have hstep : machine.step = step := rfl
    rw [List.map_singleton, machine.runFrom_cons, machine.runFrom_nil, hstep]
    simp only [step, hidle, if_true] at hread ⊢
    rw [hread]

/-- The results, the call that waits and what is unread are the same. -/
structure Same (s s' : State) : Prop where
  results : s.results = s'.results
  pending : s.pending = s'.pending
  unread : s.reader.chunks.flatten = s'.reader.chunks.flatten
  skipping : s.reader.skipping = s'.reader.skipping

theorem run_first (stream : Bytes) (closed : Bool) :
    machine.runFrom .initial (.feed stream :: if closed then [.close] else []) =
      { State.initial with
        reader := State.initial.reader.feed stream, stream := stream, closed := closed } := by
  cases closed <;> rfl

theorem choice_waitsAt (drop : Bool) (rest : Bytes) : (waitsAt drop rest).choice = [drop] := by
  unfold waitsAt
  split_ifs <;> rfl

theorem same_whole {s : State} {p : ℕ} (h : Inv s p) (hsettled : Settled s p) :
    Same s (machine.run s.whole) := by
  have hfirst := run_first s.stream s.closed
  set first : State := { State.initial with
    reader := State.initial.reader.feed s.stream, stream := s.stream, closed := s.closed } with hdef
  have hsits : Sits first.reader first.stream 0 := by
    have hnone : Sits State.initial.reader State.initial.stream 0 := ⟨rfl, rfl, rfl⟩
    exact sits_feed hnone s.stream
  obtain ⟨r, hrun, hafter⟩ := replay (s := first) rfl rfl hsits h.decodes
  have hall : machine.run s.whole = machine.runFrom { first with reader := r, results := s.results }
      (s.pending.choice.map .call) := by
    rw [← hrun, ← hfirst, ← machine.runFrom_append, ← machine.runFrom_append]
    simp only [State.whole, State.calls, List.map_append, List.map_map]
    rfl
  have hwas := h.sits
  rcases hsettled with hidle | ⟨drop, hpending, hnone⟩
  · rw [hidle] at hwas
    rw [hall, hidle]
    exact ⟨rfl, hidle, hwas.unread.trans hafter.unread.symm, hwas.skipping.trans hafter.skipping.symm⟩
  · have hcomes : Comes { first with reader := r, results := s.results } p drop
        ({ first with reader := r, results := s.results }.readHead drop) := comes_readHead hafter
    unfold Comes at hcomes
    simp only [hdef, hnone] at hcomes
    obtain ⟨r', hread, hnext⟩ := hcomes
    have hstep : machine.step = step := rfl
    have hwhole : machine.run s.whole = { first with
        reader := r', results := s.results, pending := waitsAt drop (s.stream.drop p) } := by
      rw [hall, hpending, choice_waitsAt, List.map_singleton, machine.runFrom_cons, machine.runFrom_nil, hstep]
      simp only [hdef, step, State.initial, if_true] at hread ⊢
      exact hread
    rw [hpending] at hwas
    rw [hwhole]
    exact ⟨rfl, hpending, hwas.unread.trans hnext.unread.symm,
      hwas.skipping.trans hnext.skipping.symm⟩

/-! ## Where each byte goes -/

/-- The part of the stream that a result stands for, and how many of its bytes are still to be
skipped. -/
def Covers : Result → Bytes → ℕ → Prop
  | .message type (some body), piece, missing => ∃ head : Bytes, head.length = 5 ∧
      piece = head ++ body ∧ type = typeOf head ∧ readInt32BE head = body.length + 4 ∧ missing = 0
  | .message type none, piece, missing => ∃ head skipped : Bytes, head.length = 5 ∧
      piece = head ++ skipped ∧ type = typeOf head ∧
      readInt32BE head = skipped.length + missing + 4
  | .malformed, piece, missing => piece.length = 5 ∧ readInt32BE piece < 4 ∧ missing = 0
  | .closed, piece, missing => (piece = [] ∨ piece.length = 5) ∧ missing = 0

/-- The stream is what the results stand for, one after the other, then the head that the waiting
call took, then the unread bytes. -/
def Accounted (s : State) : Prop :=
  ∃ (parts : List (Result × Bytes × ℕ)) (head : Bytes),
    s.results.map Prod.snd = parts.map Prod.fst ∧
    (∀ part ∈ parts, Covers part.1 part.2.1 part.2.2) ∧
    head.length = taken s.pending ∧
    s.stream = (parts.map fun part => part.2.1).flatten ++ head ++ s.reader.chunks.flatten ∧
    s.reader.skipping = (parts.map fun part => part.2.2).sum

theorem covers_of_decode {closed drop : Bool} {rest : Bytes} {result : Result} {n : ℕ}
    (h : decode closed drop rest = some (result, n)) :
    Covers result (rest.take n) (n - rest.length) := by
  unfold decode at h
  by_cases hhead : rest.length < 5
  · rw [if_pos hhead] at h
    cases closed with
    | false => nomatch h
    | true =>
      obtain ⟨rfl, rfl⟩ := Prod.mk.inj (Option.some.inj h)
      exact ⟨.inl rfl, Nat.zero_sub _⟩
  · have htake : (rest.take 5).length = 5 := by
      rw [List.length_take]
      omega
    have hsplit : ∀ length, rest.take (5 + length) = rest.take 5 ++ (rest.drop 5).take length :=
      fun length => List.take_add
    rw [if_neg hhead] at h
    simp only at h
    split at h
    next hneg =>
      obtain ⟨rfl, rfl⟩ := Prod.mk.inj (Option.some.inj h)
      exact ⟨htake, by omega, by omega⟩
    next hneg =>
      split at h
      next hdropped =>
        obtain ⟨rfl, rfl⟩ := Prod.mk.inj (Option.some.inj h)
        refine ⟨rest.take 5, _, htake, hsplit _, rfl, ?_⟩
        rw [List.length_take, List.length_drop]
        omega
      next hkept =>
        split at h
        next hbody =>
          cases closed with
          | false => nomatch h
          | true =>
            obtain ⟨rfl, rfl⟩ := Prod.mk.inj (Option.some.inj h)
            exact ⟨.inr htake, by omega⟩
        next hbody =>
          obtain ⟨rfl, rfl⟩ := Prod.mk.inj (Option.some.inj h)
          refine ⟨rest.take 5, htake, hsplit _, rfl, ?_, by omega⟩
          rw [List.length_take, List.length_drop]
          omega

theorem parts_of_decodes {closed : Bool} {stream : Bytes} {results : List (Bool × Result)} {p : ℕ}
    (h : Decodes closed stream results p) :
    ∃ parts : List (Result × Bytes × ℕ), results.map Prod.snd = parts.map Prod.fst ∧
      (∀ part ∈ parts, Covers part.1 part.2.1 part.2.2) ∧
      stream.take p = (parts.map fun part => part.2.1).flatten ∧
      p - stream.length = (parts.map fun part => part.2.2).sum := by
  induction h with
  | nil => exact ⟨[], rfl, (fun _ hmem => nomatch hmem), by simp, by simp⟩
  | @snoc results p drop result n _ hcall ih =>
    obtain ⟨parts, hresults, hcovers, hstream, hmissing⟩ := ih
    have hlength : (stream.drop p).length = stream.length - p := List.length_drop
    have hpast : stream.length < p → n = 0 := by
      intro hlt
      have hnone : stream.drop p = [] := List.drop_of_length_le hlt.le
      rw [hnone] at hcall
      cases closed with
      | false => nomatch hcall
      | true =>
        obtain ⟨_, rfl⟩ := Prod.mk.inj (Option.some.inj hcall)
        rfl
    refine ⟨parts ++ [(result, (stream.drop p).take n, n - (stream.drop p).length)], ?_, ?_, ?_, ?_⟩
    · simp [hresults]
    · intro part hmem
      rcases List.mem_append.mp hmem with hold | hnew
      · exact hcovers part hold
      · rw [List.mem_singleton.mp hnew]
        exact covers_of_decode hcall
    · simp [hstream, List.take_add]
    · rw [List.map_append, List.sum_append, ← hmissing]
      simp only [List.map_cons, List.map_nil, List.sum_cons, List.sum_nil]
      by_cases hlt : stream.length < p
      · rw [hpast hlt]
        omega
      · omega

theorem accounted {s : State} {p : ℕ} (h : Inv s p) : Accounted s := by
  obtain ⟨parts, hresults, hcovers, hstream, hmissing⟩ := parts_of_decodes h.decodes
  have hlength : (s.stream.drop p).length = s.stream.length - p := List.length_drop
  have htaken : taken s.pending ≤ (s.stream.drop p).length := by
    cases hpending : s.pending with
    | idle => exact Nat.zero_le _
    | head drop => exact Nat.zero_le _
    | body drop type length => exact (h.waits drop type length hpending).1
  refine ⟨parts, (s.stream.drop p).take (taken s.pending), hresults, hcovers, ?_, ?_, ?_⟩
  · rw [List.length_take, Nat.min_eq_left htaken]
  · rw [← hstream, h.sits.unread, ← List.drop_drop, List.append_assoc, List.take_append_drop,
      List.take_append_drop]
  · rw [← hmissing, h.sits.skipping]
    omega

/-! ## The law -/

/-- The bytes of the chunks that are fed before the socket closes. -/
def fed : List Event → Bytes
  | [] => []
  | .feed chunk :: events => chunk ++ fed events
  | .close :: _ => []
  | _ :: events => fed events

/-- A call reads: it leaves the stream and the socket alone. -/
theorem readBody_frame (s : State) (drop : Bool) (type : Char) (length : ℕ) :
    (s.readBody drop type length).stream = s.stream ∧
      (s.readBody drop type length).closed = s.closed := by
  unfold State.readBody
  split
  · split <;> exact ⟨rfl, rfl⟩
  · split <;> exact ⟨rfl, rfl⟩

theorem readHead_frame (s : State) (drop : Bool) :
    (s.readHead drop).stream = s.stream ∧ (s.readHead drop).closed = s.closed := by
  unfold State.readHead
  split
  · split
    · exact ⟨rfl, rfl⟩
    · simp only
      split
      · exact ⟨rfl, rfl⟩
      · split
        · exact ⟨rfl, rfl⟩
        · exact readBody_frame _ drop _ _
  · split <;> exact ⟨rfl, rfl⟩

theorem wake_frame (s : State) : s.wake.stream = s.stream ∧ s.wake.closed = s.closed := by
  unfold State.wake
  split
  · exact ⟨rfl, rfl⟩
  · exact readHead_frame s _
  · exact readBody_frame s _ _ _

theorem call_frame (s : State) (drop : Bool) :
    (step s (.call drop)).stream = s.stream ∧ (step s (.call drop)).closed = s.closed := by
  simp only [step]
  split
  · exact readHead_frame s drop
  · exact ⟨rfl, rfl⟩

theorem stream_of_closed (s : State) (events : List Event) (hclosed : s.closed = true) :
    (machine.runFrom s events).stream = s.stream := by
  have hkept := machine.runFrom_invariant
    (I := fun t => t.closed = true ∧ t.stream = s.stream) (fun t e ⟨htrue, hstream⟩ => by
      cases e with
      | feed chunk =>
        change (if t.closed then t else _).closed = true ∧ _ = _
        simp only [htrue]
        exact ⟨htrue, by simp [machine, step, htrue, hstream]⟩
      | close => exact ⟨rfl, hstream⟩
      | call drop =>
        obtain ⟨hsame, hclosed⟩ := call_frame t drop
        exact ⟨hclosed.trans htrue, hsame.trans hstream⟩
      | wake =>
        obtain ⟨hsame, hclosed⟩ := wake_frame t
        exact ⟨hclosed.trans htrue, hsame.trans hstream⟩) ⟨hclosed, rfl⟩ events
  exact hkept.2

theorem stream_runFrom (s : State) (events : List Event) (hopen : s.closed = false) :
    (machine.runFrom s events).stream = s.stream ++ fed events := by
  induction events generalizing s with
  | nil => exact (List.append_nil _).symm
  | cons e events ih =>
    rw [machine.runFrom_cons]
    cases e with
    | feed chunk =>
      have hstep : machine.step s (.feed chunk) =
          { s with reader := s.reader.feed chunk, stream := s.stream ++ chunk } := by
        simp [machine, step, hopen]
      have hrest := ih (machine.step s (.feed chunk)) (by rw [hstep]; exact hopen)
      calc (machine.runFrom (machine.step s (.feed chunk)) events).stream
          = (machine.step s (.feed chunk)).stream ++ fed events := hrest
        _ = s.stream ++ chunk ++ fed events := by rw [hstep]
        _ = s.stream ++ (chunk ++ fed events) := List.append_assoc _ _ _
    | close => exact (stream_of_closed _ events rfl).trans (List.append_nil _).symm
    | call drop =>
      obtain ⟨hstream, hclosed⟩ := call_frame s drop
      exact (ih _ (hclosed.trans hopen)).trans (congrArg (· ++ fed events) hstream)
    | wake =>
      obtain ⟨hstream, hclosed⟩ := wake_frame s
      exact (ih _ (hclosed.trans hopen)).trans (congrArg (· ++ fed events) hstream)

/-- However the stream is cut and the calls fall between the chunks: the buffered count is exact, each
byte is accounted for, and once the waiting call is woken everything is as for one chunk. -/
theorem next_law (events : List Event) : let s := machine.run events
    s.stream = fed events ∧ s.reader.buffered = (s.reader.chunks.map List.length).sum ∧
      Accounted s ∧ Same s.wake (machine.run s.wake.whole) := by
  obtain ⟨p, hinv⟩ := inv_run events
  obtain ⟨p', hwoken, hsettled⟩ := inv_wake hinv
  refine ⟨?_, ?_, accounted hinv, same_whole hwoken hsettled⟩
  · exact stream_runFrom .initial events rfl
  · have hexact := hinv.sits.exact
    rwa [Exact, List.length_flatten] at hexact

end Sbarbase.Scheduler.Proofs.WireMessages
