import Sbarbase.Database.Proofs.Startup
/-!
# What reaches PostgreSQL

The client's stream is requests that were declined, a message, and what follows it.
Nothing is forwarded but a message that may pass and, for a startup, every byte after
it.
-/

namespace Sbarbase.Database.Proofs.Forwarding

open Lib Proxy Startup

/-- `SSLRequest` or `GSSENCRequest`. -/
def Request (packet : Bytes) : Prop :=
  packet.length = 8 ∧ int32BE (packet.take 4) = 8 ∧
    (int32BE (packet.drop 4) = SSL_REQUEST ∨ int32BE (packet.drop 4) = GSS_REQUEST)

/-- A message that is as long as it says. -/
def Complete (message : Bytes) : Prop :=
  8 ≤ message.length ∧ int32BE (message.take 4) = message.length

def code (message : Bytes) : ℤ := int32BE ((message.drop 4).take 4)

/-- A message that may reach PostgreSQL. -/
def Passes (message : Bytes) (startup : Bool) : Prop :=
  Complete message ∧
    if startup then code message = PROTOCOL_3 ∧ ∃ runtime : List Char,
      isRuntime (String.ofList runtime) = true ∧
      field (startupFields (message.drop 8)) "user".toList = some (runtime ++ "_developer".toList) ∧
      field (startupFields (message.drop 8)) "database".toList = some runtime ∧
      ∀ user database, postgres message = some (user, database) →
        user = asciiBytes (runtime ++ "_developer".toList) ∧ database = asciiBytes runtime
    else code message = CANCEL_REQUEST

/-- What the stream begins with: requests, unless the proxy refused the client before. -/
def Before (s : State) (packets : List Bytes) : Prop :=
  s.refusals = [] → ∀ packet ∈ packets, Request packet

/-- A message was taken off the stream, and `rest` is what the client sent after it. -/
structure Taken (s : State) (first : Bytes) (startup : Bool) (rest : Bytes) : Prop where
  passes : Passes first startup
  stream : ∃ packets, s.stream = packets.flatten ++ first ++ rest ∧ Before s packets

/-- Before TLS the client sent requests only. -/
def Cleared (s : State) : Prop :=
  ∃ packets, s.clear = packets.flatten ∧ Before s packets

/-- The bytes that reached PostgreSQL. -/
def Forwards (s : State) : Prop :=
  s.forwarded = [] ∨ ∃ first startup rest, Taken s first startup rest ∧
    s.forwarded = if startup then first ++ rest else first

/-- The proxy reads: the buffer is what the client sent after the packets that were taken. -/
structure Reads (s : State) : Prop where
  cleared : Cleared s
  none : s.forwarded = []
  stream : ∃ packets, s.stream = packets.flatten ++ s.buffer ∧ Before s packets

def Inv (s : State) : Prop :=
  match s.phase with
  | .reading => Reads s
  | .handshaking => Reads s ∧ Request s.buffer
  | .connecting first startup => Cleared s ∧ s.forwarded = [] ∧ ∃ rest, Taken s first startup rest ∧
      (startup = true → rest = s.buffer)
  | .piping startup => Cleared s ∧ ∃ first rest, Taken s first startup rest ∧
      s.forwarded = if startup then first ++ rest else first
  | .over => Cleared s ∧ Forwards s

section

variable {s : State} {options : Options} {answers : Answers}

theorem inv_refuse (h : Reads s) (hphase : s.phase = .reading) (message : String) :
    Inv (s.refuse message) := by
  have hbefore : ∀ packets, Before (s.refuse message) packets := by
    intro packets hnone
    simp [State.refuse] at hnone
  obtain ⟨packets, hclear, _⟩ := h.cleared
  obtain ⟨packets', hstream, _⟩ := h.stream
  have hreads : Reads (s.refuse message) :=
    ⟨⟨packets, hclear, hbefore _⟩, h.none, packets', hstream, hbefore _⟩
  have hreading : (s.refuse message).phase = .reading := hphase
  unfold Inv
  rw [hreading]
  exact hreads

theorem inv_forward {first : Bytes} {startup : Bool} {rest : Bytes} (hcleared : Cleared s)
    (hnone : s.forwarded = []) (htaken : Taken s first startup rest)
    (hbuffer : startup = true → rest = s.buffer) : Inv (s.forward answers first startup) := by
  unfold State.forward
  split
  · exact ⟨hcleared, hnone, rest, ⟨htaken.passes, htaken.stream⟩, hbuffer⟩
  · obtain ⟨packets, hclear, _⟩ := hcleared
    refine ⟨⟨packets, hclear, ?_⟩, .inl hnone⟩
    intro hempty
    simp [State.refuse] at hempty

/-- A message is taken off the buffer. -/
theorem inv_admitMessage {packets : List Bytes} {message : Bytes} (hphase : s.phase = .reading)
    (hcleared : Cleared s) (hnone : s.forwarded = [])
    (hstream : s.stream = packets.flatten ++ message ++ s.buffer) (hbefore : Before s packets)
    (hcomplete : Complete message) : Inv (s.admitMessage options answers message) := by
  have hrefuse : ∀ text, Inv (s.refuse text) := by
    intro text
    have hlater : ∀ packets, Before (s.refuse text) packets := by
      intro packets hempty
      simp [State.refuse] at hempty
    obtain ⟨before, hclear, _⟩ := hcleared
    have hreads : Reads (s.refuse text) := by
      refine ⟨⟨before, hclear, hlater _⟩, hnone, packets ++ [message], ?_, hlater _⟩
      rw [List.flatten_append, List.flatten_singleton]
      exact hstream
    have hreading : (s.refuse text).phase = .reading := hphase
    unfold Inv
    rw [hreading]
    exact hreads
  simp only [State.admitMessage]
  split
  next hcancel =>
    split
    · exact ⟨hcleared, .inl hnone⟩
    · have hpasses : Passes message false := ⟨hcomplete, hcancel⟩
      have htaken : Taken { s with buffer := [] } message false s.buffer :=
        ⟨hpasses, packets, hstream, hbefore⟩
      refine inv_forward hcleared hnone htaken ?_
      intro hfalse
      nomatch hfalse
  next =>
    split
    next => exact hrefuse _
    next hprotocol =>
      split
      next => exact hrefuse _
      next =>
        split
        next => exact hrefuse _
        next user database hdecide =>
          obtain ⟨huser, hdatabase, hlogin, hruntime, _⟩ := decide_eq_ok hdecide
          rw [hlogin] at huser
          split
          next => exact hrefuse _
          next =>
            refine inv_forward hcleared hnone ⟨⟨hcomplete, ?_⟩, packets, hstream, hbefore⟩
              (fun _ => rfl)
            rw [if_pos rfl]
            refine ⟨not_not.mp hprotocol, database, hruntime, huser, hdatabase, ?_⟩
            intro user' database' hread
            rw [← hlogin]
            exact postgres_eq hdecide hread

theorem request_take {buffer : Bytes} (h : 8 ≤ buffer.length) (hlength : int32BE (buffer.take 4) = 8)
    (hcode : int32BE ((buffer.drop 4).take 4) = SSL_REQUEST ∨
      int32BE ((buffer.drop 4).take 4) = GSS_REQUEST) : Request (buffer.take 8) := by
  refine ⟨by rw [List.length_take]; omega, ?_, ?_⟩
  · rw [List.take_take]
    exact hlength
  · rw [List.drop_take]
    exact hcode

theorem complete_take {buffer : Bytes} {length : ℤ} (hlength : int32BE (buffer.take 4) = length)
    (hlow : 8 ≤ length) (hwhole : length ≤ buffer.length) :
    Complete (buffer.take length.toNat) := by
  have htake : (buffer.take length.toNat).length = length.toNat := by
    rw [List.length_take]
    omega
  have hfour : min 4 length.toNat = 4 := by omega
  refine ⟨by omega, ?_⟩
  rw [List.take_take, hfour, htake, hlength]
  omega

/-- The listener reads until it waits for more, refuses, begins TLS or forwards. -/
theorem inv_readMessages (h : Reads s) (hphase : s.phase = .reading) :
    Inv (s.readMessages options answers) := by
  fun_induction State.readMessages options answers s with
  | case1 s hshort => simpa only [Inv, hphase] using h
  | case2 s hlong length hbad => exact inv_refuse h hphase _
  | case3 s hlong length hgood hpartial => simpa only [Inv, hphase] using h
  | case4 s hlong length code hgood hwhole hssl hmore => exact inv_refuse h hphase _
  | case5 s hlong length code hgood hwhole hssl honly =>
    have hrequest := request_take (by omega) hssl.1 (.inl hssl.2.1)
    rw [List.take_of_length_le (by omega)] at hrequest
    exact ⟨⟨h.cleared, h.none, h.stream⟩, hrequest⟩
  | case6 s hlong length code hgood hwhole hssl hrequest ih =>
    refine ih ⟨h.cleared, h.none, ?_⟩ hphase
    obtain ⟨packets, hstream, hbefore⟩ := h.stream
    refine ⟨packets ++ [s.buffer.take 8], ?_, ?_⟩
    · rw [List.flatten_append, List.flatten_singleton, List.append_assoc, List.take_append_drop]
      exact hstream
    · intro hempty packet hmem
      rcases List.mem_append.mp hmem with hold | hnew
      · exact hbefore hempty packet hold
      · rw [List.mem_singleton.mp hnew]
        exact request_take (by omega) hrequest.1 hrequest.2
  | case7 s hlong length code hgood hwhole hssl hrequest =>
    obtain ⟨packets, hstream, hbefore⟩ := h.stream
    have hcomplete : Complete (s.buffer.take length.toNat) :=
      complete_take rfl (by omega) (by omega)
    have hsplit : s.stream = packets.flatten ++ s.buffer.take length.toNat ++
        s.buffer.drop length.toNat := by
      rw [List.append_assoc, List.take_append_drop]
      exact hstream
    exact inv_admitMessage (s := { s with buffer := s.buffer.drop length.toNat }) hphase h.cleared
      h.none hsplit hbefore hcomplete

theorem forwards_of_inv {s : State} (h : Inv s) : Cleared s ∧ Forwards s := by
  unfold Inv at h
  split at h
  next => exact ⟨h.cleared, .inl h.none⟩
  next => exact ⟨h.1.cleared, .inl h.1.none⟩
  next => exact ⟨h.1, .inl h.2.1⟩
  next =>
    obtain ⟨hcleared, first, rest, htaken, hforwarded⟩ := h
    exact ⟨hcleared, .inr ⟨first, _, rest, htaken, hforwarded⟩⟩
  next => exact h

theorem inv_step (h : Inv s) (e : Event) : Inv (step options s e) := by
  have hinv := h
  unfold Inv at h
  cases e with
  | data chunk answers =>
    simp only [step]
    split
    next hphase =>
      rw [hphase] at h
      obtain ⟨packets, hstream, hbefore⟩ := h.stream
      refine inv_readMessages ⟨h.cleared, h.none, packets, ?_, hbefore⟩ hphase
      simp only [hstream, List.append_assoc]
    next startup hphase =>
      rw [hphase] at h
      obtain ⟨hcleared, first, rest, htaken, hforwarded⟩ := h
      obtain ⟨packets, hstream, hbefore⟩ := htaken.stream
      have hafter : Inv { s with
          stream := s.stream ++ chunk
          forwarded := if startup then s.forwarded ++ chunk else s.forwarded } := by
        unfold Inv
        simp only [hphase]
        refine ⟨hcleared, first, rest ++ chunk, ⟨htaken.passes, packets, ?_, hbefore⟩, ?_⟩
        · simp only [hstream, List.append_assoc]
        · cases startup with
          | true => simp [hforwarded]
          | false => simp [hforwarded]
      exact hafter
    next => exact h
  | secured =>
    simp only [step]
    split
    next hphase =>
      rw [hphase] at h
      obtain ⟨hreads, hrequest⟩ := h
      obtain ⟨packets, hstream, hbefore⟩ := hreads.stream
      refine ⟨⟨packets ++ [s.buffer], ?_, ?_⟩, hreads.none, [], rfl, fun _ _ hmem => nomatch hmem⟩
      · rw [List.flatten_append, List.flatten_singleton]
        exact hstream
      · intro hempty packet hmem
        rcases List.mem_append.mp hmem with hold | hnew
        · exact hbefore hempty packet hold
        · rw [List.mem_singleton.mp hnew]
          exact hrequest
    next => exact h
  | connected =>
    simp only [step]
    split
    next first startup hphase =>
      rw [hphase] at h
      obtain ⟨hcleared, _, rest, htaken, hbuffer⟩ := h
      refine ⟨hcleared, first, rest, ⟨htaken.passes, htaken.stream⟩, ?_⟩
      cases startup with
      | true => simp [hbuffer rfl]
      | false => rfl
    next => exact h
  | closed =>
    obtain ⟨hcleared, hforwards⟩ := forwards_of_inv hinv
    refine ⟨hcleared, hforwards.imp_right ?_⟩
    rintro ⟨first, startup, rest, htaken, hforwarded⟩
    exact ⟨first, startup, rest, ⟨htaken.passes, htaken.stream⟩, hforwarded⟩

end

/-- However the stream is cut: what reached PostgreSQL is a complete cancel request, or a startup of
a developer login for its own database and every byte the client sent after it; before it the
client sent requests for encryption only, if the proxy refused it nothing. -/
theorem proxy_law (options : Options) (events : List Event) :
    Cleared ((machine options).run events) ∧ Forwards ((machine options).run events) := by
  apply forwards_of_inv
  refine (machine options).run_invariant (I := Inv) ?_ (fun s e h => inv_step h e) events
  exact ⟨⟨[], rfl, fun _ _ hmem => nomatch hmem⟩, rfl, [], rfl, fun _ _ hmem => nomatch hmem⟩

/-! ## Bytes after a cancel request -/

/-- What reached PostgreSQL is a message that may pass and every byte after it, also of a cancel. -/
def ForwardsAll (s : State) : Prop :=
  s.forwarded = [] ∨ ∃ first startup rest, Taken s first startup rest ∧ s.forwarded = first ++ rest

def cancel : Bytes := [0, 0, 0, 16, 4, 210, 22, 46, 0, 0, 0, 7, 0, 0, 0, 9]

def cancelAndMore : List Event :=
  [.data (cancel ++ [88]) ⟨fun _ => none, true⟩, .connected]

theorem readMessages_cancel (stream : Bytes) :
    State.readMessages ⟨false, false⟩ ⟨fun _ => none, true⟩
      ⟨.reading, false, cancel ++ [88], [], [], [], stream⟩ =
    ⟨.connecting cancel false, false, [], [], [], [], stream⟩ := by
  have hsize : cancel.length = 16 := rfl
  have hlength : int32BE ((cancel ++ [88]).take 4) = 16 := by decide
  have hcode : int32BE ((cancel.drop 4).take 4) = CANCEL_REQUEST := by decide
  have hcode' : int32BE (((cancel ++ [88]).drop 4).take 4) = CANCEL_REQUEST := by decide
  have htake : (cancel ++ [88]).take 16 = cancel := by decide
  rw [State.readMessages]
  simp [hsize, hlength, hcode, hcode', htake, State.admitMessage, State.forward, MAX_STARTUP]

/-- Nothing is forwarded after a cancel request. -/
theorem cancelAndMore_dropped : ¬ ForwardsAll ((machine ⟨false, false⟩).run cancelAndMore) := by
  have hrun : (machine ⟨false, false⟩).run cancelAndMore =
      ⟨.piping false, false, [], cancel, [], [], cancel ++ [88]⟩ := by
    have hread := readMessages_cancel (cancel ++ [88])
    simp only [cancelAndMore, Machine.run, Machine.runFrom_cons, Machine.runFrom_nil, machine, step,
      State.initial, List.nil_append, hread]
    rfl
  rw [hrun]
  rintro (hnone | ⟨first, startup, rest, htaken, hforwarded⟩)
  · nomatch hnone
  · obtain ⟨packets, hstream, _⟩ := htaken.stream
    have hsuffix : cancel <:+ cancel ++ [88] := by
      have hall : cancel ++ [88] = packets.flatten ++ first ++ rest := hstream
      have hsame : cancel = first ++ rest := hforwarded
      exact ⟨packets.flatten, by rw [hall, List.append_assoc, ← hsame]⟩
    revert hsuffix
    decide

end Sbarbase.Database.Proofs.Forwarding
