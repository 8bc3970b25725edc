import Sbarbase.Lib.Decimal
import Sbarbase.SignIn.Environment
/-!
# The shared settings

What the environment of Auth has for a shared setting, read off the sign-in
settings and the mail file, and what the console reads of a mail file against
what the operator writes for it.
-/

namespace Sbarbase.SignIn.Proofs.SharedSettings

open Lib Lib.Checked

/-! ## Names -/

theorem mem_all (entry : Shared) : entry ∈ Shared.all := by
  cases entry <;> decide

theorem key_injective : Function.Injective Shared.key := by
  intro a b h
  cases a <;> cases b <;> first | rfl | (revert h; decide)

theorem file_injective : Function.Injective Shared.file := by
  intro a b h
  cases a <;> cases b <;> first | rfl | (revert h; decide)

theorem gotrue_injective {a b : String} (h : "GOTRUE_" ++ a = "GOTRUE_" ++ b) : a = b := by
  simpa using h

theorem envVariable_injective : Function.Injective Shared.envVariable := by
  intro a b h
  exact key_injective (gotrue_injective h)

theorem nodup_map_all {f : Shared → String} (hf : Function.Injective f) :
    (Shared.all.map f).Nodup :=
  List.Nodup.map hf (by decide)

/-! ## The environment -/

theorem get_configuration (settings : Option Config) (key : String) :
    (configuration settings).get ("GOTRUE_" ++ key) =
      ((settings.getD ∅).get key).map (emit key) := by
  unfold configuration
  generalize settings.getD ∅ = config
  have hother : ∀ (env : Dict String String) (entry : Sigma fun _ : String => ConfigValue) name,
      name ≠ "GOTRUE_" ++ entry.1 →
        (env.set ("GOTRUE_" ++ entry.1) (emit entry.1 entry.2)).get name = env.get name :=
    fun env entry name hname => by rw [Dict.get_set, if_neg hname]
  cases hget : config.get key with
  | some value =>
      have hmem := Dict.get_eq_some.mp hget
      have hnodup : (config.entries.map fun entry => "GOTRUE_" ++ entry.1).Nodup := by
        have hkeys : (config.entries.map Sigma.fst).Nodup := config.nodupKeys
        have hmap := List.Nodup.map (f := fun name => "GOTRUE_" ++ name)
          (fun a b h => gotrue_injective h) hkeys
        rwa [List.map_map] at hmap
      rw [Dict.get_foldl_of_mem hother hnodup ∅ hmem, Dict.get_set, if_pos rfl, Option.map_some]
      intro m m' _
      rw [Dict.get_set, Dict.get_set, if_pos rfl, if_pos rfl]
  | none =>
      rw [Dict.get_foldl_of_ne hother config.entries ∅]
      · rfl
      · intro entry hentry heq
        have hsome : config.get entry.1 = some entry.2 := Dict.get_eq_some.mpr hentry
        rw [← gotrue_injective heq, hget] at hsome
        cases hsome

/-- What the environment has for a shared setting. -/
theorem get_authConfiguration (settings : Option Config) (mail : Option SharedMail)
    (entry : Shared) :
    (authConfiguration settings mail).get entry.envVariable =
      (((settings.getD ∅).get entry.key).map (emit entry.key)).or
        (match mail with
          | some mail => some (mail.value entry)
          | none => if entry = .confirm then some "true" else none) := by
  have hsign := get_configuration settings entry.key
  unfold authConfiguration
  cases mail with
  | none =>
      rw [Dict.get_union]
      change ((configuration settings).get ("GOTRUE_" ++ entry.key)).or _ = _
      rw [hsign, Dict.get_set]
      congr 1
      by_cases h : entry = .confirm
      · rw [if_pos (by rw [h]), if_pos h]
      · rw [if_neg fun heq => h (envVariable_injective heq), if_neg h]
        rfl
  | some mail =>
      have hother : ∀ (env : Dict String String) (other : Shared) name,
          name ≠ other.envVariable →
            (env.set other.envVariable (mail.value other)).get name = env.get name :=
        fun env other name hname => by rw [Dict.get_set, if_neg hname]
      have hown : ∀ m m' : Dict String String, m.get entry.envVariable = m'.get entry.envVariable →
          (m.set entry.envVariable (mail.value entry)).get entry.envVariable =
            (m'.set entry.envVariable (mail.value entry)).get entry.envVariable :=
        fun m m' _ => by rw [Dict.get_set, Dict.get_set, if_pos rfl, if_pos rfl]
      dsimp only
      rw [Dict.get_union, Dict.get_filter, Dict.get_foldl_of_mem hother
        (nodup_map_all envVariable_injective) _ (mem_all entry) hown, Dict.get_set, if_pos rfl]
      have hmem : entry.envVariable ∈ sharedWithMail :=
        List.mem_map.mpr ⟨entry, mem_all entry, rfl⟩
      change (((configuration settings).get ("GOTRUE_" ++ entry.key)).filter _).or _ = _
      rw [hsign]
      cases (settings.getD ∅).get entry.key with
      | none => rfl
      | some value =>
          rw [Option.map_some, Option.filter_some, if_pos (decide_eq_true hmem)]

/-! ## Readings -/

/-- What a text of a shared variable stands for: a number, or itself. -/
inductive Reading
  | number (n : ℕ)
  | form (text : String)
  deriving DecidableEq

def reading (entry : Shared) (text : String) : Reading :=
  match entry with
  | .confirm => .form text
  | .gap =>
    match wholeSeconds text with
    | some n => .number n
    | none => .form text
  | .sent | .otp | .verify =>
    if isWhole text.toList then .number (decimal text.toList) else .form text

theorem isWhole_toString (n : ℕ) : isWhole (toString n).toList = true := by
  rw [toList_toString, isWhole, all_isDigit_toDigits]
  simp

theorem decimal_toString (n : ℕ) : decimal (toString n).toList = n := by
  rw [toList_toString, decimal_toDigits]

theorem wholeSeconds_toString (n : ℕ) : wholeSeconds (toString n ++ "s") = some n := by
  have htext : (toString n ++ "s").toList = (toString n).toList ++ ['s'] := by simp
  unfold wholeSeconds
  rw [htext, List.getLast?_append_of_ne_nil _ (by simp), List.getLast?_singleton,
    List.dropLast_concat]
  change (if isWhole (toString n).toList = true then some (decimal (toString n).toList) else none) = _
  rw [if_pos (isWhole_toString n), decimal_toString]

/-- A limit that the console writes is read back. -/
theorem reading_emit {entry : Shared} (h : entry ≠ .confirm) (n : ℕ) :
    reading entry (emit entry.key (.number n)) = .number n := by
  cases entry with
  | confirm => exact absurd rfl h
  | gap =>
      change (match wholeSeconds (toString n ++ "s") with
        | some n => Reading.number n
        | none => _) = _
      rw [wholeSeconds_toString]
  | sent | otp | verify =>
      change (if isWhole (toString n ++ "").toList then
        Reading.number (decimal (toString n ++ "").toList) else _) = _
      rw [String.append_empty, if_pos (isWhole_toString n), decimal_toString]

/-! ## The mail file -/

/-- What the operator writes for a member of a mail file, none where it refuses it. -/
def mailText (entry : Shared) (member : Member) : Option String :=
  match entry with
  | .confirm => (checkFlag member).map lowerBool
  | .sent => checkRate member
  | .otp | .verify => (checkPositive member).map fun n => toString n
  | .gap => checkDuration member

def fileMember (file : MailFile) (entry : Shared) : Member :=
  (file.get entry.file).getD (optional entry)

theorem validateMail_eq_some {file : MailFile} {mail : SharedMail} : validateMail file = some mail ↔
      checkDuration (fileMember file .gap) = some mail.maxFrequency ∧
      checkFlag (fileMember file .confirm) = some mail.autoconfirm ∧
      checkRate (fileMember file .sent) = some mail.rateLimitEmailSent ∧
      checkPositive (fileMember file .otp) = some mail.rateLimitOtp ∧
      checkPositive (fileMember file .verify) = some mail.rateLimitVerify := by
  unfold validateMail
  simp only [Option.bind_eq_bind, Option.bind_eq_some_iff, Option.pure_def, Option.some.injEq]
  constructor
  · rintro ⟨a, ha, b, hb, c, hc, d, hd, e, he, rfl⟩
    exact ⟨ha, hb, hc, hd, he⟩
  · rintro ⟨ha, hb, hc, hd, he⟩
    exact ⟨_, ha, _, hb, _, hc, _, hd, _, he, rfl⟩

theorem mailText_of_validate {file : MailFile} {mail : SharedMail}
    (h : validateMail file = some mail) (entry : Shared) :
    mailText entry (fileMember file entry) = some (mail.value entry) := by
  obtain ⟨hgap, hconfirm, hsent, hotp, hverify⟩ := validateMail_eq_some.mp h
  cases entry with
  | confirm => rw [mailText, hconfirm, Option.map_some, SharedMail.value]
  | sent => rw [mailText, hsent, SharedMail.value]
  | otp => rw [mailText, hotp, Option.map_some, SharedMail.value]
  | verify => rw [mailText, hverify, Option.map_some, SharedMail.value]
  | gap => rw [mailText, hgap, SharedMail.value]

/-- A mail file is read as soon as each of its shared members is. -/
theorem validate_of_mailText {file : MailFile}
    (h : ∀ entry, (mailText entry (fileMember file entry)).isSome = true) :
    ∃ mail, validateMail file = some mail := by
  have hgap := h .gap
  have hconfirm := h .confirm
  have hsent := h .sent
  have hotp := h .otp
  have hverify := h .verify
  simp only [mailText, Option.isSome_map, Option.isSome_iff_exists] at hgap hconfirm hsent hotp hverify
  obtain ⟨gap, hgap⟩ := hgap
  obtain ⟨confirm, hconfirm⟩ := hconfirm
  obtain ⟨sent, hsent⟩ := hsent
  obtain ⟨otp, hotp⟩ := hotp
  obtain ⟨verify, hverify⟩ := hverify
  exact ⟨⟨gap, confirm, sent, otp, verify⟩,
    validateMail_eq_some.mpr ⟨hgap, hconfirm, hsent, hotp, hverify⟩⟩

/-! ### Read by the console -/

theorem validShared_number {entry : Shared} (h : entry ≠ .confirm) {n : ℤ}
    (hrange : inRange entry n = true) : validShared entry (.number n) = true := by
  simp [validShared, h, hrange]

/-- A number in the range of a limit is not negative. -/
theorem natCast_of_inRange {entry : Shared} (h : entry ≠ .confirm) {n : ℤ}
    (hrange : inRange entry n = true) : ∃ k : ℕ, n = k := by
  rw [inRange, Bool.and_eq_true, decide_eq_true_eq] at hrange
  have hmin : entry.min = 1 := by
    cases entry <;> first | exact absurd rfl h | rfl
  exact ⟨n.toNat, (Int.toNat_of_nonneg (by omega)).symm⟩

theorem reading_toString {entry : Shared} (h : entry = .sent ∨ entry = .otp ∨ entry = .verify)
    (n : ℕ) : reading entry (toString n) = .number n := by
  rcases h with rfl | rfl | rfl <;>
    rw [reading, if_pos (isWhole_toString n), decimal_toString]

/-- A count in a mail file that the console can hold, where the operator reads it. -/
theorem wholeMember_reading {entry : Shared} (h : entry = .sent ∨ entry = .otp ∨ entry = .verify)
    {member : Member} {text : String} {k : ℕ} (htext : mailText entry member = some text)
    (hvalue : wholeMember member = some (k : ℤ)) : reading entry text = .number k := by
  cases member with
  | int n =>
      obtain rfl : n = k := by simpa [wholeMember, wholeNumber] using hvalue
      have hsame : text = toString (k : ℤ) := by
        rcases h with rfl | rfl | rfl
        · simp only [mailText, checkRate] at htext
          split_ifs at htext
          exact (Option.some.inj htext).symm
        all_goals
          simp only [mailText, checkPositive, Option.map_eq_some_iff] at htext
          obtain ⟨n, hn, rfl⟩ := htext
          split_ifs at hn
          rw [Option.some.inj hn]
      rw [hsame]
      exact reading_toString h k
  | text saved =>
      rcases h with rfl | rfl | rfl
      · simp only [mailText, checkRate] at htext
        split_ifs at htext
        obtain rfl := Option.some.inj htext
        simp only [wholeMember] at hvalue
        split_ifs at hvalue with hwhole
        rw [reading, if_pos hwhole, Int.natCast_inj.mp (Option.some.inj hvalue)]
      all_goals simp [mailText, checkPositive] at htext
  | null | flag _ | float _ | nested =>
      rcases h with rfl | rfl | rfl <;> simp [mailText, checkRate, checkPositive] at htext

/-- What the console makes of a limit that it can hold. -/
theorem fileValue_number {mail : Option MailFile} {entry : Shared} {member : Member} {text : String}
    {k : ℕ} (hentry : entry ≠ .confirm)
    (hget : mail.bind (fun mail => mail.get entry.file) = some member)
    (htext : mailText entry member = some text)
    (hvalue : fileValue mail entry = some (.number k)) : reading entry text = .number k := by
  cases entry with
  | confirm => exact absurd rfl hentry
  | gap =>
      cases member <;> simp [mailText, checkDuration] at htext
      rename_i saved
      obtain ⟨-, rfl⟩ := htext
      unfold fileValue at hvalue
      rw [hget] at hvalue
      simp only [Option.map_eq_some_iff, Option.filter_eq_some_iff] at hvalue
      obtain ⟨n, ⟨⟨seconds, hseconds, rfl⟩, -⟩, hn⟩ := hvalue
      obtain rfl : seconds = k := by simpa using hn
      rw [reading, hseconds]
  | sent | otp | verify =>
      unfold fileValue at hvalue
      simp only [hget, Option.bind_some, Option.map_eq_some_iff, Option.filter_eq_some_iff,
        ConfigValue.number.injEq] at hvalue
      obtain ⟨n, ⟨hwhole, -⟩, rfl⟩ := hvalue
      exact wholeMember_reading (by simp) htext hwhole

/-- A limit in a mail file is a number in its range for the console, or none. -/
theorem fileValue_cases (mail : Option MailFile) {entry : Shared} (hentry : entry ≠ .confirm) :
    fileValue mail entry = none ∨ ∃ k : ℕ, fileValue mail entry = some (.number k) ∧
      validShared entry (.number k) = true := by
  have hmap : ∀ value : Option ℤ, (value.filter (inRange entry)).map ConfigValue.number = none ∨
      ∃ k : ℕ, (value.filter (inRange entry)).map ConfigValue.number = some (.number k) ∧
        validShared entry (.number k) = true := by
    intro value
    cases hfilter : value.filter (inRange entry) with
    | none => exact .inl rfl
    | some n =>
        rw [Option.filter_eq_some_iff] at hfilter
        obtain ⟨k, rfl⟩ := natCast_of_inRange hentry hfilter.2
        exact .inr ⟨k, rfl, validShared_number hentry hfilter.2⟩
  cases entry with
  | confirm => exact absurd rfl hentry
  | sent | otp | verify => exact hmap _
  | gap =>
      unfold fileValue
      split
      · simp_all
      · simp_all
      · exact hmap _
      · exact .inl rfl
      · exact hmap _

/-- Confirm email in a mail file that the operator reads. -/
theorem fileValue_confirm {mail : Option MailFile} {member : Member} {text : String}
    (hget : mail.bind (fun mail => mail.get Shared.confirm.file) = some member)
    (htext : mailText .confirm member = some text) :
    ∃ value, fileValue mail .confirm = some (.flag value) ∧ text = lowerBool value := by
  cases member <;> simp [mailText, checkFlag] at htext
  rename_i value
  refine ⟨value, ?_, htext.symm⟩
  unfold fileValue
  rw [hget]

theorem fileValue_absent {mail : Option MailFile} {entry : Shared}
    (hget : mail.bind (fun mail => mail.get entry.file) = none) : fileValue mail entry = none := by
  unfold fileValue
  cases entry <;> simp [hget]

end Sbarbase.SignIn.Proofs.SharedSettings
