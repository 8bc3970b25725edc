import Mathlib.Data.List.Basic
import Sbarbase.Offsite.Stream
/-!
# Chunks of a copy

The index and the final flag of a chunk can be read off its nonce and its
associated data, and a copy is as long as `encrypted_size` says.
-/

namespace Sbarbase.Offsite.Proofs.Chunks

theorem chunk_pos : 0 < CHUNK := by decide

theorem tag_pos : 0 < TAG := by decide

/-- The index does not run out before a plaintext of the largest size does. -/
theorem room_next {index count : ℕ} (hlarge : ¬ count ≤ CHUNK)
    (hroom : index * CHUNK + count ≤ CHUNK * 2 ^ 32) :
    index + 1 < 2 ^ 32 ∧ (index + 1) * CHUNK + (count - CHUNK) ≤ CHUNK * 2 ^ 32 := by
  have hchunk : CHUNK = 4194304 := rfl
  simp only [hchunk] at hlarge hroom ⊢
  omega

/-! ## Indices -/

theorem pack_injective {i j : ℕ} (hi : i < 2 ^ 32) (hj : j < 2 ^ 32) (h : pack i = pack j) :
    i = j := by
  simp only [pack, List.cons.injEq, and_true] at h
  obtain ⟨h1, h2, h3, h4⟩ := h
  have h1 := congrArg UInt8.toNat h1
  have h2 := congrArg UInt8.toNat h2
  have h3 := congrArg UInt8.toNat h3
  have h4 := congrArg UInt8.toNat h4
  simp only [UInt8.toNat_ofNat'] at h1 h2 h3 h4
  omega

theorem nonce_injective {p q : Bytes} {i j : ℕ} (hlength : p.length = q.length)
    (h : nonce p i = nonce q j) : p = q ∧ pack i = pack j :=
  List.append_inj h hlength

theorem associated_injective {i j : ℕ} {a b : Bool} (h : associated i a = associated j b) :
    a = b := by
  have hflag := (List.append_inj h rfl).2
  revert hflag
  cases a <;> cases b <;> decide

/-! ## Pieces -/

theorem pieces_small {data : Bytes} (h : data.length ≤ CHUNK) : pieces data = [data] := by
  rw [pieces, if_pos h]

theorem pieces_large {data : Bytes} (h : ¬ data.length ≤ CHUNK) :
    pieces data = data.take CHUNK :: pieces (data.drop CHUNK) := by
  rw [pieces, if_neg h]

theorem pieces_ne_nil (data : Bytes) : pieces data ≠ [] := by
  rw [pieces]
  split <;> exact List.cons_ne_nil _ _

theorem flatten_pieces (data : Bytes) : (pieces data).flatten = data := by
  induction data using pieces.induct with
  | case1 data h => rw [pieces_small h, List.flatten_singleton]
  | case2 data h ih =>
    rw [pieces_large h, List.flatten_cons, ih, List.take_append_drop]

/-- `max(1, -(-plain // CHUNK))` -/
theorem length_pieces (data : Bytes) :
    ((pieces data).length : ℤ) = max 1 (-(-(data.length : ℤ) / CHUNK)) := by
  have hchunk : (CHUNK : ℤ) = 4194304 := rfl
  induction data using pieces.induct with
  | case1 data h =>
    have hnat : CHUNK = 4194304 := rfl
    rw [pieces_small h, List.length_singleton, hchunk]
    omega
  | case2 data h ih =>
    have hnat : CHUNK = 4194304 := rfl
    rw [List.length_drop, hchunk] at ih
    rw [pieces_large h, List.length_cons, hchunk, Int.natCast_add, ih]
    omega

theorem length_pieces_le {data : Bytes} (h : data.length ≤ CHUNK * 2 ^ 32) :
    (pieces data).length ≤ 2 ^ 32 := by
  have hlength := length_pieces data
  have hchunk : CHUNK = 4194304 := rfl
  simp only [hchunk] at h hlength
  omega

section

variable {aead : Aead} {key noncePrefix : Bytes}

theorem length_sealedFrom (h : aead.Correct) (index : ℕ) (ps : List Bytes) :
    (sealedFrom aead key noncePrefix index ps).length = ps.flatten.length + ps.length * TAG := by
  induction ps generalizing index with
  | nil => rfl
  | cons piece rest ih =>
    rw [sealedFrom, List.length_append, h.length, ih, List.flatten_cons, List.length_append,
      List.length_cons, Nat.succ_mul]
    omega

theorem sealedFrom_ne_nil (h : aead.Correct) (index : ℕ) (data : Bytes) :
    sealedFrom aead key noncePrefix index (pieces data) ≠ [] := by
  rw [← List.length_pos_iff, length_sealedFrom h]
  have hpieces := List.length_pos_iff.mpr (pieces_ne_nil data)
  have htag := Nat.mul_pos hpieces tag_pos
  omega

theorem length_header (copy : Copy) : copy.header.length = 28 := by
  rw [Copy.header, List.length_append, List.length_append, copy.salt_length,
    copy.noncePrefix_length]
  rfl

theorem encryptedSize_eq (h : aead.Correct) (derive : String → Bytes → Bytes) (copy : Copy) :
    encryptedSize copy.plaintext.length = .ok ((copy.encrypted derive aead).length : ℤ) := by
  have hbound := copy.plaintext_length
  have hlength : (sealedFrom aead (copy.key derive) copy.noncePrefix 0
      (pieces copy.plaintext)).length = (pieces copy.plaintext).flatten.length +
        (pieces copy.plaintext).length * TAG := length_sealedFrom h 0 _
  rw [flatten_pieces] at hlength
  have hpieces := length_pieces copy.plaintext
  have hsize : size copy.plaintext.length "Plaintext size" = .ok copy.plaintext.length := by
    rw [size, if_neg (by omega)]
  have hmagic : MAGIC.length = 4 := rfl
  simp only [encryptedSize, hsize]
  rw [Copy.encrypted, List.length_append, length_header, hlength, ← hpieces, hmagic]
  push_cast
  congr 1
  omega

end

end Sbarbase.Offsite.Proofs.Chunks

/-!
# What the reader emits

Whatever parts the source and the consumer read in, the parts that were emitted
and what is still to come are the copy.
-/

namespace Sbarbase.Offsite.Proofs.Encryption

open Lib Chunks

variable {aead : Aead}

/-- The reader will emit `stream`, with the source as it was found. -/
structure Ready (aead : Aead) (current : Stat) (reader : EncryptingReader) (stream : Bytes) :
    Prop where
  legal : reader.handle.Legal
  remaining : reader.remaining = reader.handle.rest.length
  same : current.same reader.snapshot = true
  admitted : reader.failed = false
  opened : reader.closed = false
  /-- The index does not run out before the source does. -/
  room : reader.finished = false →
    reader.index * CHUNK + reader.handle.rest.length ≤ CHUNK * 2 ^ 32 ∧ reader.index < 2 ^ 32
  stream : stream = reader.pending ++ (if reader.finished then [] else
    sealedFrom aead reader.key reader.noncePrefix reader.index (pieces reader.handle.rest))

variable {current : Stat} {reader : EncryptingReader} {stream : Bytes}

/-- The last byte was read, so a read finds nothing more. -/
theorem not_grown {handle : Source UInt8} (hlegal : handle.Legal) (hend : handle.rest = []) :
    grown handle = false := by
  obtain ⟨part, next, hread⟩ := hlegal.read_isSome 1
  have hpart := (Source.read_eq_some hread).1
  rw [hend, eq_comm, List.append_eq_nil_iff] at hpart
  rw [grown, hread, hpart.1]
  rfl

/-- The last chunk. -/
theorem ready_last (hcorrect : aead.Correct) (h : Ready aead current reader stream)
    (hpending : reader.pending = []) (hfinished : reader.finished = false)
    (hsmall : reader.handle.rest.length ≤ CHUNK) :
    ∃ reader', reader.next aead current = .ok reader' ∧ Ready aead current reader' stream ∧
      reader'.pending ≠ [] := by
  obtain ⟨_, hindex⟩ := h.room hfinished
  have hstream := h.stream
  rw [hpending, List.nil_append, hfinished, if_neg Bool.false_ne_true, pieces_small hsmall,
    sealedFrom, sealedFrom, List.append_nil, List.isEmpty_nil] at hstream
  obtain ⟨handle, hblock, hrest, hlegal⟩ := h.legal.readBlock reader.handle.rest.length
  rw [List.take_length] at hblock
  rw [List.drop_length] at hrest
  refine ⟨{ reader with
    handle := handle, remaining := 0, pending := stream, index := reader.index + 1
    finished := true }, ?_, ?_, ?_⟩
  · rw [EncryptingReader.next, if_neg (by rw [h.admitted]; decide), if_neg (by omega)]
    simp only [h.remaining, Nat.min_eq_right hsmall, hblock, ne_eq, not_true_eq_false, if_false,
      Nat.sub_self, decide_true, Bool.true_and, not_grown hlegal hrest, h.same, Bool.not_true,
      Bool.or_self, Bool.false_eq_true, hstream]
  · exact {
      legal := hlegal
      remaining := by rw [hrest]; rfl
      same := h.same
      admitted := h.admitted
      opened := h.opened
      room := fun hnot => by cases hnot
      stream := by rw [if_pos rfl, List.append_nil] }
  · intro hempty
    have hlength := congrArg List.length (hstream.symm.trans hempty)
    rw [hcorrect.length, List.length_nil] at hlength
    have htag := tag_pos
    omega

/-- A chunk that is not the last. -/
theorem ready_full (hcorrect : aead.Correct) (h : Ready aead current reader stream)
    (hpending : reader.pending = []) (hfinished : reader.finished = false)
    (hlarge : ¬ reader.handle.rest.length ≤ CHUNK) :
    ∃ reader', reader.next aead current = .ok reader' ∧ Ready aead current reader' stream ∧
      reader'.pending ≠ [] := by
  obtain ⟨hroom, hindex⟩ := h.room hfinished
  have hstream := h.stream
  have hrests := pieces_ne_nil (reader.handle.rest.drop CHUNK)
  rw [hpending, List.nil_append, hfinished, if_neg Bool.false_ne_true, pieces_large hlarge,
    sealedFrom, List.isEmpty_eq_false_iff.mpr hrests] at hstream
  obtain ⟨handle, hblock, hrest, hlegal⟩ := h.legal.readBlock CHUNK
  have htake : (reader.handle.rest.take CHUNK).length = CHUNK := by
    rw [List.length_take]
    omega
  have hdrop : handle.rest.length = reader.handle.rest.length - CHUNK := by
    rw [hrest, List.length_drop]
  have hnotLast : ¬ reader.handle.rest.length - CHUNK = 0 := by omega
  refine ⟨{ reader with
    handle := handle, remaining := reader.handle.rest.length - CHUNK
    pending := aead.encrypt reader.key (nonce reader.noncePrefix reader.index)
      (reader.handle.rest.take CHUNK) (associated reader.index false)
    index := reader.index + 1, finished := false }, ?_, ?_, ?_⟩
  · rw [EncryptingReader.next, if_neg (by rw [h.admitted]; decide), if_neg (by omega)]
    simp only [h.remaining, Nat.min_eq_left (Nat.le_of_not_le hlarge), hblock, htake, ne_eq,
      not_true_eq_false, if_false, hnotLast, decide_false, Bool.false_and, Bool.false_eq_true]
  · exact {
      legal := hlegal
      remaining := hdrop.symm
      same := h.same
      admitted := h.admitted
      opened := h.opened
      room := by
        intro _
        obtain ⟨hindex', hroom'⟩ := room_next hlarge hroom
        rw [hdrop]
        exact ⟨hroom', hindex'⟩
      stream := by
        rw [if_neg Bool.false_ne_true, hstream, hrest] }
  · intro hempty
    have hlength := congrArg List.length hempty
    rw [hcorrect.length, List.length_nil] at hlength
    have htag := tag_pos
    omega

theorem ready_next (hcorrect : aead.Correct) (h : Ready aead current reader stream)
    (hpending : reader.pending = []) (hfinished : reader.finished = false) :
    ∃ reader', reader.next aead current = .ok reader' ∧ Ready aead current reader' stream ∧
      reader'.pending ≠ [] := by
  by_cases hsmall : reader.handle.rest.length ≤ CHUNK
  · exact ready_last hcorrect h hpending hfinished hsmall
  · exact ready_full hcorrect h hpending hfinished hsmall

/-- The consumer takes from what is pending. -/
theorem ready_take (h : Ready aead current reader stream) (count : ℕ) :
    ∃ left, stream = reader.pending.take count ++ left ∧
      Ready aead current { reader with pending := reader.pending.drop count } left := by
  refine ⟨reader.pending.drop count ++ (if reader.finished then [] else
    sealedFrom aead reader.key reader.noncePrefix reader.index (pieces reader.handle.rest)), ?_, ?_⟩
  · rw [← List.append_assoc, List.take_append_drop]
    exact h.stream
  · exact {
      legal := h.legal
      remaining := h.remaining
      same := h.same
      admitted := h.admitted
      opened := h.opened
      room := h.room
      stream := rfl }

/-- A read returns a part of the copy, and nothing at its end only. -/
theorem ready_readinto (hcorrect : aead.Correct) (h : Ready aead current reader stream)
    (count : ℕ) :
    ∃ part reader' left, reader.readinto aead count current = (.ok part, reader') ∧
      Ready aead current reader' left ∧ stream = part ++ left ∧ part.length ≤ count ∧
      (0 < count → part = [] → stream = []) := by
  rw [EncryptingReader.readinto, h.opened, if_neg Bool.false_ne_true]
  by_cases hcount : count = 0
  · rw [if_pos hcount]
    exact ⟨[], reader, stream, rfl, h, rfl, Nat.zero_le _, fun hpos => by omega⟩
  rw [if_neg hcount]
  by_cases hfill : reader.pending = [] ∧ !reader.finished
  · obtain ⟨hpending, hfinished⟩ := hfill
    rw [Bool.not_eq_true'] at hfinished
    obtain ⟨filled, hnext, hready, hne⟩ := ready_next hcorrect h hpending hfinished
    obtain ⟨left, hstream, hleft⟩ := ready_take hready count
    simp only [hpending, hfinished, Bool.not_false, and_self, if_true, hnext]
    refine ⟨_, _, left, rfl, hleft, hstream, List.length_take_le _ _, fun _ hempty => ?_⟩
    rw [List.take_eq_nil_iff] at hempty
    exact absurd hempty (not_or.mpr ⟨hcount, hne⟩)
  · obtain ⟨left, hstream, hleft⟩ := ready_take h count
    rw [if_neg hfill]
    refine ⟨_, _, left, rfl, hleft, hstream, List.length_take_le _ _, fun _ hempty => ?_⟩
    rw [List.take_eq_nil_iff] at hempty
    have hpending := hempty.resolve_left hcount
    have hfinished : reader.finished = true := by simpa [hpending] using hfill
    rw [h.stream, hpending, hfinished, if_pos rfl, List.append_nil]

/-- The reads of a consumer: the copy up to some byte, and all of it once a read that asked for
something returned nothing, or as many reads asked for something as the copy has bytes. -/
structure Emits (stream : Bytes) (counts : List ℕ) (parts : List Bytes) (left : Bytes) : Prop where
  stream : stream = parts.flatten ++ left
  sizes : List.Forall₂ (fun count part => part.length ≤ count) counts parts
  ended : (∃ pair ∈ counts.zip parts, 0 < pair.1 ∧ pair.2 = []) → left = []
  progress : counts.countP (0 < ·) ≤ parts.flatten.length ∨ left = []

theorem ready_reads (hcorrect : aead.Correct) (h : Ready aead current reader stream)
    (counts : List ℕ) :
    ∃ parts reader' left, reader.reads aead current counts = .ok (parts, reader') ∧
      Ready aead current reader' left ∧ Emits stream counts parts left := by
  induction counts generalizing reader stream with
  | nil =>
    refine ⟨[], reader, stream, rfl, h, rfl, .nil, ?_, .inl (Nat.zero_le _)⟩
    rintro ⟨_, hmem, _⟩
    nomatch hmem
  | cons count counts ih =>
    obtain ⟨part, reader₁, left₁, hread, hready, hstream, hlength, hend⟩ :=
      ready_readinto hcorrect h count
    obtain ⟨parts, reader', left, hreads, hready', hemits⟩ := ih hready
    refine ⟨part :: parts, reader', left, ?_, hready', ?_⟩
    · simp only [EncryptingReader.reads, hread, hreads]
    · have hdone : 0 < count → part = [] → left = [] := by
        intro hcount hpart
        have hempty := hend hcount hpart
        rw [hstream, hemits.stream, hpart, List.nil_append, List.append_eq_nil_iff] at hempty
        exact hempty.2
      exact {
        stream := by
          rw [hstream, hemits.stream, List.flatten_cons, List.append_assoc]
        sizes := .cons hlength hemits.sizes
        ended := by
          rintro ⟨pair, hmem, hcount, hempty⟩
          rw [List.zip_cons_cons, List.mem_cons] at hmem
          rcases hmem with rfl | hmem
          · exact hdone hcount hempty
          · exact hemits.ended ⟨pair, hmem, hcount, hempty⟩
        progress := by
          rcases hemits.progress with hprogress | hleft
          · by_cases hcount : 0 < count
            · by_cases hpart : part = []
              · exact .inr (hdone hcount hpart)
              · have hpos := List.length_pos_iff.mpr hpart
                left
                rw [List.countP_cons_of_pos (by simpa using hcount), List.flatten_cons,
                  List.length_append]
                omega
            · left
              rw [List.countP_cons_of_neg (by simpa using hcount), List.flatten_cons,
                List.length_append]
              omega
          · exact .inr hleft }

/-- A reader of a source that holds the plaintext of a copy. -/
theorem ready_init (derive : String → Bytes → Bytes) (copy : Copy) {source : Source UInt8}
    (hkey : (copy.key derive).length = 32) (hlegal : source.Legal)
    (hrest : source.rest = copy.plaintext) (hregular : current.regular = true)
    (hsize : current.size = copy.plaintext.length) :
    ∃ reader, EncryptingReader.init source current (copy.key derive) copy.salt
        copy.noncePrefix = .ok reader ∧
      Ready aead current reader (copy.encrypted derive aead) := by
  have hbound := copy.plaintext_length
  have hadmitted : size current.size "Plaintext size" = .ok (current.size : ℤ) := by
    rw [size, if_neg (by omega)]
  refine ⟨{
    handle := source, snapshot := current, key := copy.key derive
    noncePrefix := copy.noncePrefix, pending := copy.header, index := 0
    remaining := current.size, finished := false, failed := false, closed := false }, ?_, ?_⟩
  · rw [EncryptingReader.init, if_neg (by rw [hkey, copy.salt_length]; decide),
      hregular, if_neg (by decide), hadmitted]
    rfl
  · exact {
      legal := hlegal
      remaining := by simp only [hrest, hsize]
      same := by simp [Stat.same]
      admitted := rfl
      opened := rfl
      room := by
        intro _
        simp only [hrest]
        omega
      stream := by
        simp only [hrest]
        rw [if_neg Bool.false_ne_true]
        rfl }

end Sbarbase.Offsite.Proofs.Encryption
