import Sbarbase.Scheduler.Wire
/-!
# Chunks do not matter

A reader that consumed `p` bytes holds the bytes after them, however they were cut,
and what a call comes to is a function of these bytes.
-/

namespace Sbarbase.Scheduler.Proofs.WireChunks

open Lib Wire

/-! ## The chunk queue -/

theorem gather_eq (size : ℕ) (chunks : List Bytes) (h : size ≤ chunks.flatten.length) :
    (Reader.gather size chunks).1 = chunks.flatten.take size ∧
      (Reader.gather size chunks).2.flatten = chunks.flatten.drop size := by
  induction chunks generalizing size with
  | nil => simp [Reader.gather]
  | cons chunk chunks ih =>
    rw [List.flatten_cons, List.length_append] at h
    unfold Reader.gather
    split
    next hzero => simp [hzero]
    next hzero =>
      by_cases hwhole : chunk.length ≤ size
      · have hpart : min chunk.length size = chunk.length := by omega
        obtain ⟨hout, hrest⟩ := ih (size - chunk.length) (by omega)
        simp only [hpart, if_true, hout, hrest, List.flatten_cons]
        rw [List.take_append, List.take_of_length_le hwhole, List.drop_append,
          List.drop_of_length_le hwhole]
        exact ⟨rfl, rfl⟩
      · have hpart : min chunk.length size = size := by omega
        have hne : size ≠ chunk.length := by omega
        have hrest : size - chunk.length = 0 := by omega
        simp only [hpart, hne, if_false, List.flatten_cons]
        rw [List.take_append, List.drop_append, hrest]
        simp

theorem flatten_release (left : ℕ) (chunks : List Bytes) :
    (Reader.release left chunks).flatten = chunks.flatten.drop left := by
  induction chunks generalizing left with
  | nil => simp [Reader.release]
  | cons chunk chunks ih =>
    unfold Reader.release
    split
    next hzero => simp [hzero]
    next hzero =>
      split
      next hwhole =>
        rw [ih, List.flatten_cons, List.drop_append, List.drop_of_length_le hwhole]
        rfl
      next hpart =>
        have hrest : left - chunk.length = 0 := by omega
        rw [List.flatten_cons, List.flatten_cons, List.drop_append, hrest]
        rfl

/-- The buffered count is that of the unread bytes. -/
def Exact (r : Reader) : Prop := r.buffered = r.chunks.flatten.length

section

variable {r : Reader}

theorem take_eq (h : Exact r) {size : ℕ} (hsize : size ≤ r.buffered) :
    ∃ r', r.take size = some (r.chunks.flatten.take size, r') ∧
      r'.chunks.flatten = r.chunks.flatten.drop size ∧ Exact r' ∧ r'.skipping = r.skipping := by
  unfold Exact at h
  unfold Reader.take
  rw [if_neg (Nat.not_lt.mpr hsize)]
  cases hchunks : r.chunks with
  | nil =>
    rw [hchunks] at h
    refine ⟨{ r with chunks := [], buffered := r.buffered - size }, by simp, by simp, ?_, rfl⟩
    simp [Exact, h]
  | cons first rest =>
    rw [hchunks, List.flatten_cons, List.length_append] at h
    by_cases hfirst : size ≤ first.length
    · have hrest : size - first.length = 0 := by omega
      have hunread : (if first.length = size then rest else first.drop size :: rest).flatten =
          (first :: rest).flatten.drop size := by
        rw [List.flatten_cons, List.drop_append, hrest]
        split
        next hall => rw [List.drop_of_length_le hall.le, List.nil_append, List.drop_zero]
        next => rfl
      simp only [hfirst, if_true]
      refine ⟨{ r with
        chunks := if first.length = size then rest else first.drop size :: rest
        buffered := r.buffered - size }, ?_, hunread, ?_, rfl⟩
      · rw [List.flatten_cons, List.take_append, hrest, List.take_zero, List.append_nil]
      · unfold Exact
        simp only [hunread]
        rw [List.length_drop, List.flatten_cons, List.length_append, h]
    · have hlength : size ≤ (first :: rest).flatten.length := by
        rw [List.flatten_cons, List.length_append]
        omega
      obtain ⟨hout, hunread⟩ := gather_eq size (first :: rest) hlength
      simp only [hfirst, if_false]
      refine ⟨{ r with
        chunks := (Reader.gather size (first :: rest)).2
        buffered := r.buffered - size }, by rw [hout], hunread, ?_, rfl⟩
      unfold Exact
      simp only [hunread]
      rw [List.length_drop, List.flatten_cons, List.length_append, h]

theorem discard_eq (h : Exact r) {size : ℕ} (hsize : size ≤ r.buffered) :
    (r.discard size).chunks.flatten = r.chunks.flatten.drop size ∧ Exact (r.discard size) := by
  have hunread : (r.discard size).chunks.flatten = r.chunks.flatten.drop size := by
    simp only [Reader.discard, flatten_release, Nat.min_eq_left hsize]
  refine ⟨hunread, ?_⟩
  unfold Exact at h ⊢
  rw [hunread, List.length_drop, ← h]
  simp only [Reader.discard, Nat.min_eq_left hsize]

theorem feed_eq (h : Exact r) (hskip : 0 < r.skipping → r.chunks.flatten = []) (chunk : Bytes) :
    (r.feed chunk).chunks.flatten = r.chunks.flatten ++ chunk.drop r.skipping ∧
      (r.feed chunk).skipping = r.skipping - chunk.length ∧ Exact (r.feed chunk) := by
  unfold Exact at h ⊢
  unfold Reader.feed
  by_cases hskipping : 0 < r.skipping
  · have hnone := hskip hskipping
    rw [hnone] at h
    have hdrop : chunk.drop (min r.skipping chunk.length) = chunk.drop r.skipping := by
      by_cases hle : r.skipping ≤ chunk.length
      · rw [Nat.min_eq_left hle]
      · rw [Nat.min_eq_right (by omega), List.drop_length, List.drop_of_length_le (by omega)]
    have hleft : r.skipping - min r.skipping chunk.length = r.skipping - chunk.length := by omega
    simp only [hskipping, if_true, hdrop, hleft]
    split
    next hempty =>
      rw [List.length_eq_zero_iff] at hempty
      simp [hempty, h, hnone]
    next => simp [h, hnone]
  · have hzero : r.skipping = 0 := by omega
    simp [hzero, h]

end

/-! ## What a call comes to -/

/-- A call that finds `rest`: its result and the bytes it consumes, or none while it waits. -/
def decode (closed drop : Bool) (rest : Bytes) : Option (Result × ℕ) :=
  if rest.length < 5 then if closed then some (.closed, 0) else none
  else
    let type := typeOf (rest.take 5)
    let length := readInt32BE (rest.take 5) - 4
    if length < 0 then some (.malformed, 5)
    else if dropped drop type length then some (.message type none, 5 + length.toNat)
    else if rest.length < 5 + length.toNat then if closed then some (.closed, 5) else none
    else some (.message type (some ((rest.drop 5).take length.toNat)), 5 + length.toNat)

/-- More bytes change nothing that a call came to while the socket was open. -/
theorem decode_append {drop : Bool} {rest : Bytes} {result : Result × ℕ}
    (h : decode false drop rest = some result) (closed : Bool) (more : Bytes) :
    decode closed drop (rest ++ more) = some result := by
  unfold decode at h ⊢
  by_cases hhead : rest.length < 5
  · rw [if_pos hhead] at h
    nomatch h
  · have hhead' : ¬ (rest ++ more).length < 5 := by
      rw [List.length_append]
      omega
    have htake : (rest ++ more).take 5 = rest.take 5 := List.take_append_of_le_length (by omega)
    rw [if_neg hhead] at h
    rw [if_neg hhead', htake]
    simp only at h ⊢
    split
    next hneg => rwa [if_pos hneg] at h
    next hneg =>
      rw [if_neg hneg] at h
      split
      next hdrop => rwa [if_pos hdrop] at h
      next hdrop =>
        rw [if_neg hdrop] at h
        by_cases hbody : rest.length < 5 + (readInt32BE (rest.take 5) - 4).toNat
        · rw [if_pos hbody] at h
          nomatch h
        · have hbody' : ¬ (rest ++ more).length < 5 + (readInt32BE (rest.take 5) - 4).toNat := by
            rw [List.length_append]
            omega
          rw [if_neg hbody] at h
          rw [if_neg hbody', ← h]
          have hdrop5 : (rest ++ more).drop 5 = rest.drop 5 ++ more :=
            List.drop_append_of_le_length (by omega)
          rw [hdrop5, List.take_append_of_le_length]
          rw [List.length_drop]
          omega

/-- The calls that came to a result, one after the other, and the bytes they consumed. -/
inductive Decodes (closed : Bool) (stream : Bytes) : List (Bool × Result) → ℕ → Prop
  | nil : Decodes closed stream [] 0
  | snoc {results : List (Bool × Result)} {p : ℕ} {drop : Bool} {result : Result} {n : ℕ}
      (hbefore : Decodes closed stream results p)
      (hcall : decode closed drop (stream.drop p) = some (result, n)) :
      Decodes closed stream (results ++ [(drop, result)]) (p + n)

theorem Decodes.append {stream : Bytes} {results : List (Bool × Result)} {p : ℕ}
    (h : Decodes false stream results p) (closed : Bool) (more : Bytes) :
    Decodes closed (stream ++ more) results p := by
  induction h with
  | nil => exact .nil
  | @snoc results p drop result n _ hcall ih =>
    refine .snoc ih ?_
    rw [List.drop_append]
    exact decode_append hcall closed _

theorem Decodes.close {stream : Bytes} {results : List (Bool × Result)} {p : ℕ} {closed : Bool}
    (h : Decodes closed stream results p) : Decodes true stream results p := by
  cases closed with
  | true => exact h
  | false => simpa using h.append true []

/-! ## A reader that consumed `p` bytes -/

structure Sits (r : Reader) (stream : Bytes) (p : ℕ) : Prop where
  unread : r.chunks.flatten = stream.drop p
  skipping : r.skipping = p - stream.length
  exact : Exact r

theorem Sits.buffered {r : Reader} {stream : Bytes} {p : ℕ} (h : Sits r stream p) :
    r.buffered = stream.length - p := by
  have hexact := h.exact
  unfold Exact at hexact
  rw [hexact, h.unread, List.length_drop]

theorem sits_feed {r : Reader} {stream : Bytes} {p : ℕ} (h : Sits r stream p) (chunk : Bytes) :
    Sits (r.feed chunk) (stream ++ chunk) p := by
  have hskip : 0 < r.skipping → r.chunks.flatten = [] := by
    intro hpos
    rw [h.skipping] at hpos
    rw [h.unread, List.drop_of_length_le (by omega)]
  obtain ⟨hunread, hskipping, hexact⟩ := feed_eq h.exact hskip chunk
  refine ⟨?_, ?_, hexact⟩
  · rw [hunread, h.unread, h.skipping, List.drop_append]
  · rw [hskipping, h.skipping, List.length_append]
    omega

theorem sits_take {r : Reader} {stream : Bytes} {p size : ℕ} (h : Sits r stream p)
    (hsize : p + size ≤ stream.length) :
    ∃ r', r.take size = some ((stream.drop p).take size, r') ∧ Sits r' stream (p + size) := by
  have hbuffered := h.buffered
  have hle : size ≤ r.buffered := by omega
  obtain ⟨r', htake, hunread, hexact, hskipping⟩ := take_eq h.exact hle
  refine ⟨r', by rw [htake, h.unread], ?_, ?_, hexact⟩
  · rw [hunread, h.unread, List.drop_drop]
  · rw [hskipping, h.skipping]
    omega

/-- The rest of a dropped message is skipped when it streams in. -/
theorem sits_discard {r : Reader} {stream : Bytes} {p length : ℕ} (h : Sits r stream p)
    (hp : p ≤ stream.length) :
    Sits { r.discard (min length r.buffered) with skipping := length - min length r.buffered } stream
      (p + length) := by
  have hbuffered := h.buffered
  obtain ⟨hunread, hexact⟩ := discard_eq h.exact (Nat.min_le_right length r.buffered)
  refine ⟨?_, ?_, hexact⟩
  · rw [hunread, h.unread, List.drop_drop]
    by_cases hle : length ≤ r.buffered
    · rw [Nat.min_eq_left hle]
    · rw [List.drop_of_length_le (by omega), List.drop_of_length_le (by omega)]
  · simp only
    omega

/-- What a call that finds `rest` waits for. -/
def waitsAt (drop : Bool) (rest : Bytes) : Pending :=
  if rest.length < 5 then .head drop
  else .body drop (typeOf (rest.take 5)) (readInt32BE (rest.take 5) - 4).toNat

/-- The bytes that the waiting call took already. -/
def taken : Pending → ℕ
  | .body _ _ _ => 5
  | _ => 0

/-- `s'` is where a call leaves `s`, of which `p` bytes are consumed. -/
def Comes (s : State) (p : ℕ) (drop : Bool) (s' : State) : Prop :=
  match decode s.closed drop (s.stream.drop p) with
  | some (result, n) => ∃ r, s' = { s with
      reader := r, pending := .idle, results := s.results ++ [(drop, result)] } ∧ Sits r s.stream (p + n)
  | none => ∃ r, s' = { s with reader := r, pending := waitsAt drop (s.stream.drop p) } ∧
      Sits r s.stream (p + taken (waitsAt drop (s.stream.drop p)))

section

variable {s : State} {p : ℕ} {drop : Bool}

theorem comes_readBody {type : Char} {length : ℕ} (hsits : Sits s.reader s.stream (p + 5))
    (hrest : 5 ≤ (s.stream.drop p).length) (htype : type = typeOf ((s.stream.drop p).take 5))
    (hlength : (length : ℤ) = readInt32BE ((s.stream.drop p).take 5) - 4)
    (hkept : dropped drop type length = false) : Comes s p drop (s.readBody drop type length) := by
  have hbuffered := hsits.buffered
  have hstream : (s.stream.drop p).length = s.stream.length - p := List.length_drop
  have hhead : ¬ (s.stream.drop p).length < 5 := by omega
  have hnat : (readInt32BE ((s.stream.drop p).take 5) - 4).toNat = length := by
    rw [← hlength]
    rfl
  have hdecode : decode s.closed drop (s.stream.drop p) =
      if (s.stream.drop p).length < 5 + length then if s.closed then some (.closed, 5) else none
      else some (.message type (some (((s.stream.drop p).drop 5).take length)), 5 + length) := by
    have hneg : ¬ (length : ℤ) < 0 := by omega
    unfold decode
    simp only [← hlength, ← htype, hkept, hneg, hhead, if_false, Bool.false_eq_true]
    rfl
  have hwaits : waitsAt drop (s.stream.drop p) = .body drop type length := by
    unfold waitsAt
    rw [if_neg hhead, ← htype, hnat]
  unfold Comes State.readBody
  rw [hdecode, hwaits]
  by_cases hbody : (s.stream.drop p).length < 5 + length
  · have hshort : s.reader.buffered < length := by omega
    rw [if_pos hbody, if_pos hshort]
    by_cases hclosed : s.closed = true
    · rw [if_pos hclosed, if_pos hclosed]
      exact ⟨s.reader, rfl, hsits⟩
    · rw [if_neg hclosed, if_neg hclosed]
      exact ⟨s.reader, rfl, hsits⟩
  · have hwhole : ¬ s.reader.buffered < length := by omega
    have hsize : p + 5 + length ≤ s.stream.length := by omega
    obtain ⟨r, htake, hafter⟩ := sits_take hsits hsize
    rw [if_neg hbody, if_neg hwhole, htake, List.drop_drop]
    rw [Nat.add_assoc] at hafter
    exact ⟨r, rfl, hafter⟩

theorem comes_readHead (hsits : Sits s.reader s.stream p) : Comes s p drop (s.readHead drop) := by
  have hbuffered := hsits.buffered
  have hstream : (s.stream.drop p).length = s.stream.length - p := List.length_drop
  by_cases hhead : (s.stream.drop p).length < 5
  · have hshort : ¬ 5 ≤ s.reader.buffered := by omega
    have hdecode : decode s.closed drop (s.stream.drop p) =
        if s.closed then some (.closed, 0) else none := if_pos hhead
    have hwaits : waitsAt drop (s.stream.drop p) = .head drop := if_pos hhead
    unfold Comes State.readHead
    rw [hdecode, hwaits, if_neg hshort]
    by_cases hclosed : s.closed = true
    · rw [if_pos hclosed, if_pos hclosed]
      exact ⟨s.reader, rfl, hsits⟩
    · rw [if_neg hclosed, if_neg hclosed]
      exact ⟨s.reader, rfl, hsits⟩
  · have hwhole : 5 ≤ s.reader.buffered := by omega
    have hsize : p + 5 ≤ s.stream.length := by omega
    obtain ⟨r, htake, hafter⟩ := sits_take hsits hsize
    unfold State.readHead
    rw [if_pos hwhole, htake]
    simp only
    split
    next hneg =>
      have hdecode : decode s.closed drop (s.stream.drop p) = some (.malformed, 5) := by
        unfold decode
        simp only [hhead, hneg, if_false, if_true]
      unfold Comes
      rw [hdecode]
      exact ⟨r, rfl, hafter⟩
    next hneg =>
      split
      next hdropped =>
        have hdecode : decode s.closed drop (s.stream.drop p) =
            some (.message (typeOf ((s.stream.drop p).take 5)) none,
              5 + (readInt32BE ((s.stream.drop p).take 5) - 4).toNat) := by
          unfold decode
          simp only [hhead, hneg, hdropped, if_false, if_true]
        have hp : p + 5 ≤ s.stream.length := by omega
        unfold Comes
        rw [hdecode]
        refine ⟨_, rfl, ?_⟩
        rw [← Nat.add_assoc]
        exact sits_discard hafter hp
      next hkept =>
        have hlength : ((readInt32BE ((s.stream.drop p).take 5) - 4).toNat : ℤ) =
            readInt32BE ((s.stream.drop p).take 5) - 4 := by omega
        have hrest : 5 ≤ (s.stream.drop p).length := by omega
        have hnot : dropped drop (typeOf ((s.stream.drop p).take 5))
            ((readInt32BE ((s.stream.drop p).take 5) - 4).toNat : ℤ) = false := by
          rw [hlength]
          exact (Bool.not_eq_true _).mp hkept
        exact comes_readBody (s := { s with reader := r }) hafter hrest rfl hlength hnot

end

end Sbarbase.Scheduler.Proofs.WireChunks
