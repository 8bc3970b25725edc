import Sbarbase.Offsite.Proofs.Decryption
/-!
# Copies there and back

What the reader emits is a copy of the size that was announced, which decrypts to
the plaintext, and no other stream publishes a file.
-/

namespace Sbarbase.Offsite.Proofs.Copies

open Lib Chunks Encryption Decryption

variable {aead : Aead} {derive : String → Bytes → Bytes} {digest : Bytes → String}

/-! ## The header -/

theorem header_parts (copy : Copy) :
    copy.header.take 4 = MAGIC ∧ (copy.header.drop 4).take 16 = copy.salt ∧
      copy.header.drop 20 = copy.noncePrefix := by
  have hsalt := copy.salt_length
  have hmagic : MAGIC.length = 4 := rfl
  refine ⟨?_, ?_, ?_⟩
  · rw [Copy.header, List.append_assoc, ← hmagic, List.take_left]
  · rw [Copy.header, List.append_assoc, ← hmagic, List.drop_left, ← hsalt, List.take_left]
  · have hlength : 20 = (MAGIC ++ copy.salt).length := by
      rw [List.length_append, hmagic, hsalt]
    rw [Copy.header, hlength, List.drop_left]

/-- A header is that of a copy with its salt and its prefix. -/
theorem header_eq {header : Bytes} {copy : Copy} (hmagic : header.take 4 = MAGIC)
    (hsalt : (header.drop 4).take 16 = copy.salt)
    (hleading : header.drop 20 = copy.noncePrefix) : header = copy.header := by
  have hrest : (header.drop 4).drop 16 = copy.noncePrefix := by
    rw [List.drop_drop, hleading]
  rw [Copy.header, ← hmagic, ← hsalt, ← hrest, List.append_assoc, List.take_append_drop,
    List.take_append_drop]

/-! ## The two halves of a decryption -/

variable {source : Source UInt8} {limits : Limits} {io : Io} {passphrase : String}
  {header block : Bytes}

theorem begin_eq_ok {next : Source UInt8} (h : begin source limits io = .ok (header, block, next)) :
    header.length = 28 ∧ header.take 4 = MAGIC ∧
      ∃ remaining, source.rest = header ++ remaining ∧ Cut remaining block next := by
  simp only [begin, Checked.bind_eq_ok, Checked.require_eq_ok, Checked.pure_eq_ok] at h
  obtain ⟨_, _, _, _, ⟨first, afterHeader⟩, hfirst, _, ⟨hlength, hmagic⟩, ⟨second, afterBlock⟩,
    hsecond, _, _, hpair⟩ := h
  obtain ⟨rfl, rfl, rfl⟩ := hpair
  obtain ⟨hheader, hrest⟩ := readBlock_eq_ok hfirst
  obtain ⟨hblock, hnext⟩ := readBlock_eq_ok hsecond
  refine ⟨hlength, hmagic, afterHeader.rest, ?_, hblock, hnext⟩
  rw [hheader, hrest, List.take_append_drop]

theorem destination_of_ne {found : Destination} (h : found ≠ .other) : destination found = .ok () := by
  cases found with
  | absent => rfl
  | regular => rfl
  | other => exact absurd rfl h

theorem begin_of_legal (hlegal : source.Legal) {remaining : Bytes}
    (hrest : source.rest = header ++ remaining) (hheader : header.length = 28)
    (hmagic : header.take 4 = MAGIC) (hlimits : limits.check = .ok ())
    (hbefore : io.before ≠ .other) (hstaged : io.staged = true) :
    ∃ block next, begin source limits io = .ok (header, block, next) ∧ next.Legal ∧
      Cut remaining block next := by
  obtain ⟨first, hfirst, hrest₁, hlegal₁⟩ := readBlock_of_legal hlegal 28
  obtain ⟨second, hsecond, hrest₂, hlegal₂⟩ := readBlock_of_legal hlegal₁ (CHUNK + TAG)
  rw [hrest, ← hheader, List.take_left] at hfirst
  rw [hrest, ← hheader, List.drop_left] at hrest₁
  rw [hrest₁] at hsecond hrest₂
  refine ⟨_, second, ?_, hlegal₂, rfl, hrest₂⟩
  rw [hheader] at hfirst
  simp only [begin, hlimits, destination_of_ne hbefore, hfirst, hsecond, Checked.ok_bind,
    Checked.require_pos (And.intro hheader hmagic), Checked.require_pos hstaged]
  rfl

/-- Every check of the limits passes for a plaintext. -/
structure Limits.Admit (digest : Bytes → String) (limits : Limits) (plaintext : Bytes) : Prop where
  check : limits.check = .ok ()
  expectedBytes : ∀ expected ∈ limits.expectedBytes, (plaintext.length : ℤ) = expected
  expectedSha256 : ∀ expected ∈ limits.expectedSha256, digest plaintext = expected
  maxBytes : ∀ most ∈ limits.maxBytes, (plaintext.length : ℤ) ≤ most

/-- Nothing of the operating system fails, and the destination is one. -/
structure Io.Works (io : Io) : Prop where
  before : io.before ≠ .other
  staged : io.staged = true
  written : io.written = true
  after : io.after ≠ .other
  replaced : io.replaced = true
  synced : io.synced = true
  cleaned : io.cleaned = true

theorem Limits.Admit.not_exceeded {plaintext : Bytes}
    (h : Limits.Admit digest limits plaintext) : limits.exceeded plaintext.length = false := by
  rw [Limits.exceeded, Bool.or_eq_false_iff, Option.any_eq_false, Option.any_eq_false]
  constructor
  · intro expected hexpected
    have hsame := h.expectedBytes expected hexpected
    simp [hsame]
  · intro most hmost
    have hle := h.maxBytes most hmost
    simpa using hle

theorem stage_eq_ok {next : Source UInt8} {plaintext : Bytes}
    (h : stage aead derive digest header block next passphrase limits io = .ok plaintext) :
    decryptChunks aead (derive passphrase ((header.drop 4).take 16)) (header.drop 20) limits 0
      block [] next = .ok plaintext := by
  simp only [stage, Checked.bind_eq_ok, Checked.require_eq_ok, Checked.pure_eq_ok] at h
  obtain ⟨found, hfound, _, _, _, _, _, _, _, _, _, _, rfl⟩ := h
  exact hfound

theorem stage_of_admit {next : Source UInt8} {plaintext : Bytes}
    (hchunks : decryptChunks aead (derive passphrase ((header.drop 4).take 16)) (header.drop 20)
      limits 0 block [] next = .ok plaintext)
    (hlimits : Limits.Admit digest limits plaintext) (hio : Io.Works io) :
    stage aead derive digest header block next passphrase limits io = .ok plaintext := by
  simp only [stage, hchunks, Checked.ok_bind, Checked.require_pos hlimits.expectedBytes,
    Checked.require_pos hlimits.expectedSha256, Checked.require_pos hio.written,
    destination_of_ne hio.after, Checked.require_pos hio.replaced]
  rfl

/-! ## The whole decryption -/

/-- A copy decrypts to its plaintext. -/
theorem decryptStream_encrypted (hcorrect : aead.Correct) (copy : Copy) (hlegal : source.Legal)
    (hrest : source.rest = copy.encrypted derive aead)
    (hlimits : Limits.Admit digest limits copy.plaintext) (hio : Io.Works io) :
    decryptStream aead derive digest source copy.passphrase limits io =
      ⟨.ok ⟨copy.plaintext.length, digest copy.plaintext⟩, some copy.plaintext⟩ := by
  obtain ⟨hmagic, hsalt, hleading⟩ := header_parts copy
  obtain ⟨block, next, hbegin, hnext, hcut⟩ := begin_of_legal hlegal hrest (length_header copy)
    hmagic hlimits.check hio.before hio.staged
  have hroom : 0 * CHUNK + copy.plaintext.length ≤ CHUNK * 2 ^ 32 := by
    rw [Nat.zero_mul, Nat.zero_add]
    exact copy.plaintext_length
  have hchunks : decryptChunks aead (copy.key derive) copy.noncePrefix limits 0 block [] next =
      .ok copy.plaintext :=
    decrypt_sealed hcorrect hnext (by decide) hroom hcut hlimits.not_exceeded
  have hstage : stage aead derive digest copy.header block next copy.passphrase limits io =
      .ok copy.plaintext := by
    refine stage_of_admit ?_ hlimits hio
    rw [hsalt, hleading]
    exact hchunks
  simp only [decryptStream, hbegin, hstage, hio.cleaned, hio.synced, Bool.not_true,
    Bool.false_eq_true, if_false]

/-- What is published is the plaintext of a copy, which the stream is. -/
theorem copy_of_published {copies : Set Copy} (hideal : aead.Ideal derive copies)
    (hfresh : Fresh derive copies) {plaintext : Bytes}
    (h : (decryptStream aead derive digest source passphrase limits io).published =
      some plaintext) :
    ∃ copy ∈ copies, source.rest = copy.encrypted derive aead ∧ plaintext = copy.plaintext := by
  unfold decryptStream at h
  split at h
  · nomatch h
  next header block next hbegin =>
    split at h
    · nomatch h
    next staged hstage =>
      have hstaged : plaintext = staged := by
        split_ifs at h <;> exact (Option.some.inj h).symm
      obtain ⟨hlength, hmagic, remaining, hrest, hcut⟩ := begin_eq_ok hbegin
      have hleading : (header.drop 20).length = 8 := by
        rw [List.length_drop, hlength]
      obtain ⟨copy, hmem, hkey, hsame, before, rest, hpieces, hbefore, hremaining, hplain⟩ :=
        sealed_of_decrypt hideal hfresh hleading hcut (stage_eq_ok hstage)
      obtain rfl := List.length_eq_zero_iff.mp hbefore
      have hsalt := hfresh.keys _ _ _ _ hkey.symm
      refine ⟨copy, hmem, ?_, ?_⟩
      · have hheader := header_eq hmagic hsalt hsame.symm
        rw [Copy.encrypted, hpieces, hkey, hsame, ← hheader, List.nil_append, hrest, hremaining]
      · rw [hstaged, hplain, List.nil_append, ← flatten_pieces copy.plaintext, hpieces,
          List.nil_append]

/-- A stream that is not a copy is refused. -/
theorem refused_of_not_published
    (h : (decryptStream aead derive digest source passphrase limits io).published = none) :
    ∃ error, decryptStream aead derive digest source passphrase limits io = ⟨.error error, none⟩ := by
  unfold decryptStream at h ⊢
  split
  next error _ => exact ⟨error, rfl⟩
  next header block next hbegin =>
    split
    next error hstage => exact ⟨_, rfl⟩
    next staged hstage =>
      simp only [hbegin, hstage] at h
      split_ifs at h

def sampleDerive (_ : String) (salt : Bytes) : Bytes := salt ++ List.replicate 16 0

def sampleCopy : Copy where
  passphrase := "passphrase"
  salt := List.replicate 16 7
  noncePrefix := List.replicate 8 9
  plaintext := []
  salt_length := rfl
  noncePrefix_length := rfl
  plaintext_length := Nat.zero_le _

def sampleAead : Aead where
  encrypt _ _ data _ := data ++ List.replicate TAG 0
  decrypt _ _ block _ := some (block.take (block.length - TAG))

def sampleIdeal : Aead where
  encrypt := sampleAead.encrypt
  decrypt key nonce block associated :=
    if key = sampleCopy.key sampleDerive ∧ nonce = Offsite.nonce sampleCopy.noncePrefix 0 ∧
        associated = Offsite.associated 0 true ∧ block = List.replicate TAG 0 then
      some []
    else none

theorem sampleAead_correct : sampleAead.Correct where
  decrypt_encrypt := by
    intro key nonce data associated
    have htag : (data ++ List.replicate TAG 0).length - TAG = data.length := by
      rw [List.length_append, List.length_replicate, Nat.add_sub_cancel]
    change some ((data ++ List.replicate TAG 0).take
      ((data ++ List.replicate TAG 0).length - TAG)) = some data
    rw [htag, List.take_left]
  length := by
    intro key nonce data associated
    change (data ++ List.replicate TAG 0).length = data.length + TAG
    rw [List.length_append, List.length_replicate]

theorem sampleIdeal_ideal : sampleIdeal.Ideal sampleDerive {sampleCopy} := by
  intro key nonce block associated data h
  obtain ⟨⟨rfl, rfl, rfl, rfl⟩, hdata⟩ := Option.ite_none_right_eq_some.mp h
  obtain rfl := Option.some.inj hdata
  exact ⟨sampleCopy, rfl, 0, true, ⟨[], [], pieces_small (Nat.zero_le _), rfl, rfl⟩, rfl, rfl, rfl,
    rfl⟩

theorem sampleDerive_fresh : Fresh sampleDerive {sampleCopy} where
  copies := by
    rintro a rfl b rfl _ _
    rfl
  keys := fun _ _ _ _ h => List.append_cancel_right h

def sampleIo : Io := ⟨.absent, true, true, .absent, true, true, true⟩

end Sbarbase.Offsite.Proofs.Copies
