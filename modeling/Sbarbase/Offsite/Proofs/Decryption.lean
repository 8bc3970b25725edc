import Sbarbase.Offsite.Proofs.Encryption
/-!
# What decryption accepts

A copy decrypts to its plaintext, however its source splits the reads. With a
cipher that decrypts nothing but what was encrypted for a copy, nothing but a
copy decrypts.
-/

namespace Sbarbase.Offsite.Proofs.Decryption

open Lib Chunks Encryption

variable {aead : Aead}

/-! ## Blocks -/

theorem readBlock_eq_ok {source next : Source UInt8} {limit : ℕ} {block : Bytes}
    (h : readBlock source limit = .ok (block, next)) :
    block = source.rest.take limit ∧ next.rest = source.rest.drop limit := by
  unfold readBlock at h
  split at h
  · nomatch h
  next hread =>
    cases h
    exact Source.readBlock_eq_some hread

theorem readBlock_of_legal {source : Source UInt8} (h : source.Legal) (limit : ℕ) :
    ∃ next, readBlock source limit = .ok (source.rest.take limit, next) ∧
      next.rest = source.rest.drop limit ∧ next.Legal := by
  obtain ⟨next, hread, hrest, hlegal⟩ := h.readBlock limit
  refine ⟨next, ?_, hrest, hlegal⟩
  rw [readBlock, hread]

/-- The block after a chunk, which is only looked for after a full one. -/
def follow (block : Bytes) (source : Source UInt8) : Except String (Bytes × Source UInt8) :=
  if block.length = CHUNK + TAG then readBlock source (CHUNK + TAG) else .ok ([], source)

/-- A chunk was cut off `remaining`. -/
structure Cut (remaining block : Bytes) (source : Source UInt8) : Prop where
  block : block = remaining.take (CHUNK + TAG)
  rest : source.rest = remaining.drop (CHUNK + TAG)

theorem Cut.append {remaining block : Bytes} {source : Source UInt8}
    (h : Cut remaining block source) : remaining = block ++ source.rest := by
  rw [h.block, h.rest, List.take_append_drop]

/-- The next block is cut off what is left. -/
theorem cut_follow {remaining block following : Bytes} {source next : Source UInt8}
    (h : Cut remaining block source) (hfollow : follow block source = .ok (following, next)) :
    Cut source.rest following next := by
  unfold follow at hfollow
  split at hfollow
  next =>
    obtain ⟨hblock, hrest⟩ := readBlock_eq_ok hfollow
    exact ⟨hblock, hrest⟩
  next hshort =>
    -- a short block is the last one
    cases hfollow
    have hlength := congrArg List.length h.block
    rw [List.length_take] at hlength
    have hrest : source.rest = [] := by
      rw [h.rest, List.drop_eq_nil_iff]
      omega
    rw [hrest]
    exact ⟨rfl, hrest⟩

theorem follow_of_legal {source : Source UInt8} (hlegal : source.Legal) (block : Bytes) :
    ∃ following next, follow block source = .ok (following, next) ∧ next.Legal := by
  unfold follow
  split
  next =>
    obtain ⟨next, hread, _, hnext⟩ := readBlock_of_legal hlegal (CHUNK + TAG)
    exact ⟨_, next, hread, hnext⟩
  next => exact ⟨_, source, rfl, hlegal⟩

/-- One chunk of the loop. -/
theorem decryptChunks_eq {key noncePrefix block written following data : Bytes} {limits : Limits}
    {index : ℕ} {source next : Source UInt8} (hindex : index < 2 ^ 32) (htag : TAG ≤ block.length)
    (hfollow : follow block source = .ok (following, next))
    (hdecrypt : aead.decrypt key (nonce noncePrefix index) block
      (associated index following.isEmpty) = some data)
    (hlimits : limits.exceeded (written ++ data).length = false) :
    decryptChunks aead key noncePrefix limits index block written source =
      if following.isEmpty then .ok (written ++ data)
      else decryptChunks aead key noncePrefix limits (index + 1) following (written ++ data)
        next := by
  rw [follow] at hfollow
  rw [decryptChunks, if_neg (by omega), hfollow]
  simp only [hdecrypt, hlimits, Bool.false_eq_true, if_false]

/-- What a successful loop did with its first chunk. -/
theorem decryptChunks_eq_ok {key noncePrefix block written plaintext : Bytes} {limits : Limits}
    {index : ℕ} {source : Source UInt8}
    (h : decryptChunks aead key noncePrefix limits index block written source = .ok plaintext) :
    index < 2 ^ 32 ∧ ∃ following next data, follow block source = .ok (following, next) ∧
      aead.decrypt key (nonce noncePrefix index) block (associated index following.isEmpty) =
        some data ∧
      (following.isEmpty = true ∧ plaintext = written ++ data ∨
        following.isEmpty = false ∧ decryptChunks aead key noncePrefix limits (index + 1)
          following (written ++ data) next = .ok plaintext) := by
  rw [decryptChunks] at h
  split at h
  · nomatch h
  next hguard =>
    rw [not_or, Nat.not_le] at hguard
    refine ⟨hguard.1, ?_⟩
    cases hfollow : follow block source with
    | error error =>
      rw [follow] at hfollow
      rw [hfollow] at h
      nomatch h
    | ok pair =>
      obtain ⟨following, next⟩ := pair
      have hsame := hfollow
      rw [follow] at hsame
      rw [hsame] at h
      refine ⟨following, next, ?_⟩
      cases hdecrypt : aead.decrypt key (nonce noncePrefix index) block
          (associated index following.isEmpty) with
      | none =>
        simp only [hdecrypt] at h
        nomatch h
      | some data =>
        simp only [hdecrypt] at h
        refine ⟨data, rfl, rfl, ?_⟩
        split at h
        · nomatch h
        split at h
        next hlast =>
          cases h
          exact .inl ⟨hlast, rfl⟩
        next hmore => exact .inr ⟨by simpa using hmore, h⟩

/-! ## A copy decrypts -/

theorem Limits.exceeded_mono {limits : Limits} {m n : ℕ} (hmn : m ≤ n)
    (h : limits.exceeded n = false) : limits.exceeded m = false := by
  unfold Limits.exceeded at h ⊢
  cases hexpected : limits.expectedBytes <;> cases hmost : limits.maxBytes <;>
    simp only [hexpected, hmost, Option.any_none, Option.any_some, Bool.or_eq_false_iff,
      Bool.false_or, Bool.or_false, decide_eq_false_iff_not] at h ⊢
  all_goals omega

section

variable {key noncePrefix block written data : Bytes} {limits : Limits} {index : ℕ}
  {source : Source UInt8}

/-- The last chunk. -/
theorem decrypt_last (hcorrect : aead.Correct) (hlegal : source.Legal) (hindex : index < 2 ^ 32)
    (hsmall : data.length ≤ CHUNK)
    (hcut : Cut (sealedFrom aead key noncePrefix index (pieces data)) block source)
    (hlimits : limits.exceeded (written ++ data).length = false) :
    decryptChunks aead key noncePrefix limits index block written source =
      .ok (written ++ data) := by
  rw [pieces_small hsmall, sealedFrom, sealedFrom, List.append_nil, List.isEmpty_nil] at hcut
  have hlength := hcorrect.length key (nonce noncePrefix index) data (associated index true)
  have hblock := hcut.block
  rw [List.take_of_length_le (by omega)] at hblock
  have hrest := hcut.rest
  rw [List.drop_of_length_le (by omega)] at hrest
  obtain ⟨following, next, hfollow, _⟩ := follow_of_legal hlegal block
  have hempty : following = [] := by
    have hnext := (cut_follow hcut hfollow).block
    rwa [hrest, List.take_nil] at hnext
  rw [hempty] at hfollow
  rw [decryptChunks_eq hindex (by rw [hblock]; omega) hfollow
    (by rw [hblock]; exact hcorrect.decrypt_encrypt _ _ _ _) hlimits]
  rfl

/-- A chunk before the last. -/
theorem decrypt_full (hcorrect : aead.Correct) (hlegal : source.Legal) (hindex : index < 2 ^ 32)
    (hlarge : ¬ data.length ≤ CHUNK)
    (hcut : Cut (sealedFrom aead key noncePrefix index (pieces data)) block source)
    (hlimits : limits.exceeded (written ++ data.take CHUNK).length = false) :
    ∃ following next, next.Legal ∧
      Cut (sealedFrom aead key noncePrefix (index + 1) (pieces (data.drop CHUNK))) following next ∧
      decryptChunks aead key noncePrefix limits index block written source =
        decryptChunks aead key noncePrefix limits (index + 1) following
          (written ++ data.take CHUNK) next := by
  have hrests := pieces_ne_nil (data.drop CHUNK)
  rw [pieces_large hlarge, sealedFrom, List.isEmpty_eq_false_iff.mpr hrests] at hcut
  have hlength := hcorrect.length key (nonce noncePrefix index) (data.take CHUNK)
    (associated index false)
  have htake : (data.take CHUNK).length = CHUNK := by
    rw [List.length_take]
    omega
  rw [htake] at hlength
  have hblock := hcut.block
  rw [← hlength, List.take_left] at hblock
  have hrest := hcut.rest
  rw [← hlength, List.drop_left] at hrest
  obtain ⟨following, next, hfollow, hnext⟩ := follow_of_legal hlegal block
  have hcut' := cut_follow hcut hfollow
  rw [hrest] at hcut'
  have hmore : following.isEmpty = false := by
    rw [List.isEmpty_eq_false_iff, hcut'.block, ne_eq, List.take_eq_nil_iff, not_or]
    exact ⟨by have := chunk_pos; omega, sealedFrom_ne_nil hcorrect _ _⟩
  refine ⟨following, next, hnext, hcut', ?_⟩
  rw [decryptChunks_eq hindex (by rw [hblock]; omega) hfollow
    (by rw [hblock, hmore]; exact hcorrect.decrypt_encrypt _ _ _ _) hlimits, hmore]
  rfl

theorem decrypt_sealed (hcorrect : aead.Correct) (hlegal : source.Legal) (hindex : index < 2 ^ 32)
    (hroom : index * CHUNK + data.length ≤ CHUNK * 2 ^ 32)
    (hcut : Cut (sealedFrom aead key noncePrefix index (pieces data)) block source)
    (hlimits : limits.exceeded (written ++ data).length = false) :
    decryptChunks aead key noncePrefix limits index block written source =
      .ok (written ++ data) := by
  induction data using pieces.induct generalizing index block written source with
  | case1 data hsmall => exact decrypt_last hcorrect hlegal hindex hsmall hcut hlimits
  | case2 data hlarge ih =>
    have hwritten : limits.exceeded (written ++ data.take CHUNK).length = false := by
      refine Limits.exceeded_mono ?_ hlimits
      rw [List.length_append, List.length_append, List.length_take]
      omega
    obtain ⟨following, next, hnext, hcut', heq⟩ :=
      decrypt_full hcorrect hlegal hindex hlarge hcut hwritten
    obtain ⟨hindex', hroom'⟩ := room_next hlarge hroom
    have hsplit : written ++ data.take CHUNK ++ data.drop CHUNK = written ++ data := by
      rw [List.append_assoc, List.take_append_drop]
    rw [← List.length_drop] at hroom'
    rw [heq, ih hnext hindex' hroom' hcut' (by rw [hsplit]; exact hlimits), hsplit]

end

/-! ## Nothing else decrypts -/

section

variable {derive : String → Bytes → Bytes} {copies : Set Copy}

theorem index_lt {copy : Copy} {index : ℕ} {data : Bytes} {last : Bool}
    (h : copy.Holds index data last) : index < 2 ^ 32 := by
  obtain ⟨before, after, hpieces, rfl, _⟩ := h
  have hlength := length_pieces_le copy.plaintext_length
  rw [hpieces, List.length_append, List.length_cons] at hlength
  omega

/-- A chunk that decrypts is the chunk of a copy, at its index. -/
theorem holds_of_decrypt (hideal : aead.Ideal derive copies) {key noncePrefix block data : Bytes}
    {index : ℕ} {last : Bool} (hindex : index < 2 ^ 32) (hleading : noncePrefix.length = 8)
    (h : aead.decrypt key (nonce noncePrefix index) block (associated index last) = some data) :
    ∃ copy ∈ copies, copy.key derive = key ∧ copy.noncePrefix = noncePrefix ∧
      copy.Holds index data last ∧
      block = aead.encrypt key (nonce noncePrefix index) data (associated index last) := by
  obtain ⟨copy, hmem, i, flag, hholds, rfl, hnonce, hassociated, hblock⟩ := hideal _ _ _ _ _ h
  obtain ⟨hsame, hpack⟩ :=
    nonce_injective (hleading.trans copy.noncePrefix_length.symm) hnonce
  obtain rfl := associated_injective hassociated
  obtain rfl : i = index := (pack_injective hindex (index_lt hholds) hpack).symm
  exact ⟨copy, hmem, rfl, hsame.symm, hholds, hblock⟩

/-- What the loop accepts is the rest of a copy. -/
theorem sealed_of_decrypt (hideal : aead.Ideal derive copies) (hfresh : Fresh derive copies)
    {key noncePrefix block written plaintext remaining : Bytes} {limits : Limits} {index : ℕ}
    {source : Source UInt8} (hleading : noncePrefix.length = 8)
    (hcut : Cut remaining block source)
    (h : decryptChunks aead key noncePrefix limits index block written source = .ok plaintext) :
    ∃ copy ∈ copies, copy.key derive = key ∧ copy.noncePrefix = noncePrefix ∧
      ∃ before rest, pieces copy.plaintext = before ++ rest ∧ before.length = index ∧
        remaining = sealedFrom aead key noncePrefix index rest ∧
        plaintext = written ++ rest.flatten := by
  induction hfuel : 2 ^ 32 - index generalizing index block written remaining source with
  | zero =>
    have hindex := (decryptChunks_eq_ok h).1
    omega
  | succ fuel ih =>
    obtain ⟨hindex, following, next, data, hfollow, hdecrypt, hcases⟩ := decryptChunks_eq_ok h
    obtain ⟨copy, hmem, hkey, hsame, ⟨before, after, hpieces, hbefore, hlast⟩, hblock⟩ :=
      holds_of_decrypt hideal hindex hleading hdecrypt
    have hcut' := cut_follow hcut hfollow
    refine ⟨copy, hmem, hkey, hsame, before, data :: after, hpieces, hbefore.symm, ?_⟩
    rw [hcut.append, hblock, sealedFrom, hlast, List.flatten_cons]
    rcases hcases with ⟨hempty, hplaintext⟩ | ⟨hmore, hrec⟩
    · -- nothing follows, in the source as in the copy
      have hafter : after = [] := by rwa [hempty, eq_comm, List.isEmpty_iff] at hlast
      have hrest : source.rest = [] := by
        have hnone := hcut'.block
        rw [List.isEmpty_iff.mp hempty, eq_comm, List.take_eq_nil_iff] at hnone
        exact hnone.resolve_left (by have := chunk_pos; omega)
      rw [hafter, hrest, sealedFrom, List.flatten_nil, List.append_nil, List.append_nil]
      exact ⟨rfl, hplaintext⟩
    · -- the chunks that follow are of the same copy
      obtain ⟨other, hother, hkey', hsame', before', rest, hpieces', hbefore', hrest,
        hplaintext⟩ := ih hcut' hrec (by omega)
      obtain rfl : other = copy := hfresh.copies other hother copy hmem
        (hkey'.trans hkey.symm) (hsame'.trans hsame.symm)
      have hsplit : before' ++ rest = (before ++ [data]) ++ after := by
        rw [← hpieces', hpieces, List.append_assoc, List.singleton_append]
      have hlength : before'.length = (before ++ [data]).length := by
        rw [hbefore', hbefore, List.length_append, List.length_singleton]
      obtain ⟨_, rfl⟩ := List.append_inj hsplit hlength
      rw [hrest, hplaintext, List.append_assoc]
      exact ⟨rfl, rfl⟩

end

end Sbarbase.Offsite.Proofs.Decryption
