import Sbarbase.SignIn.Proofs.SharedSettings
/-!
# What a save of the mail settings changes

A shared setting has its value in one of three places, and a save moves it from
the mail file to the sign-in settings. The value that Auth gets stays, but for
Confirm email where custom SMTP is first turned on, and for a form the console
cannot hold where it is turned off.
-/

namespace Sbarbase.SignIn.Proofs.SmtpLaw

open Lib Lib.Checked SignIn.Proofs.SharedSettings

/-! ## The value of a setting -/

/-- The text of the default of a mail file, which an unset limit counts as. -/
def defaultText : Shared → String
  | .confirm => "false"
  | .sent | .otp | .verify => "30"
  | .gap => "60s"

/-- The text of a setting that nothing names, with a mail file or without. -/
def unnamedText (mail : Option MailFile) (entry : Shared) : String :=
  if entry = .confirm ∧ mail = none then "true" else defaultText entry

/-- The value of a shared setting in the environment of Auth. -/
def effective (settings : Option Config) (mail : Option MailFile) (entry : Shared) : String :=
  ((authConfiguration settings (mail.bind validateMail)).get entry.envVariable).getD
    (defaultText entry)

/-- The operator reads both files. -/
structure Readable (settings : Option Config) (mail : Option MailFile) : Prop where
  config : ValidConfig (settings.getD ∅)
  mail : ∀ file ∈ mail, ∃ read, validateMail file = some read

theorem mailText_optional (entry : Shared) :
    mailText entry (optional entry) = some (defaultText entry) := by
  cases entry <;> decide

section

variable {settings : Option Config} {mail : Option MailFile} {entry : Shared}

theorem effective_named {value : ConfigValue} (h : (settings.getD ∅).get entry.key = some value) :
    effective settings mail entry = emit entry.key value := by
  rw [effective, get_authConfiguration, h, Option.map_some, Option.some_or, Option.getD_some]

/-- A setting that neither file names. -/
theorem effective_unnamed (hmail : ∀ file ∈ mail, ∃ read, validateMail file = some read)
    (h : (settings.getD ∅).get entry.key = none)
    (hfile : mail.bind (fun mail => mail.get entry.file) = none) :
    effective settings mail entry = unnamedText mail entry := by
  rw [effective, get_authConfiguration, h, Option.map_none, Option.none_or, unnamedText]
  cases mail with
  | none => cases entry <;> rfl
  | some file =>
      obtain ⟨read, hread⟩ := hmail file rfl
      have htext := mailText_of_validate hread entry
      rw [fileMember, show file.get entry.file = none from hfile, Option.getD_none,
        mailText_optional] at htext
      have hnot : ¬ (entry = .confirm ∧ some file = none) := fun h => nomatch h.2
      rw [Option.bind_some, hread, if_neg hnot]
      exact (Option.some.inj htext).symm

/-- A setting that the mail file alone names. -/
theorem effective_file {file : MailFile} {member : Member} {text : String}
    (hmail : ∃ read, validateMail file = some read)
    (h : (settings.getD ∅).get entry.key = none) (hget : file.get entry.file = some member)
    (htext : mailText entry member = some text) :
    effective settings (some file) entry = text := by
  obtain ⟨read, hread⟩ := hmail
  have hvalue := mailText_of_validate hread entry
  rw [fileMember, hget, Option.getD_some, htext] at hvalue
  rw [effective, get_authConfiguration, h, Option.map_none, Option.none_or, Option.bind_some,
    hread]
  exact (Option.some.inj hvalue).symm

/-- A member of a mail file that the operator reads has a text. -/
theorem mailText_of_get {file : MailFile} {member : Member}
    (hmail : ∃ read, validateMail file = some read) (hget : file.get entry.file = some member) :
    ∃ text, mailText entry member = some text := by
  obtain ⟨read, hread⟩ := hmail
  have hvalue := mailText_of_validate hread entry
  rw [fileMember, hget, Option.getD_some] at hvalue
  exact ⟨_, hvalue⟩

end

/-! ## What a body names -/

/-- The given value of a setting: of the fold's start, or what the body's member stands for. -/
theorem get_foldlM_giveMember {body : Dict String Member} {entries : List Shared}
    (hnodup : entries.Nodup) {start given : Given}
    (h : entries.foldlM (giveMember body) start = .ok given) (entry : Shared) :
    (entry ∉ entries ∨ body.get entry.field = none → given.get entry.key = start.get entry.key) ∧
      ∀ member, entry ∈ entries → body.get entry.field = some member →
        ∃ value, givenMember entry member = .ok value ∧ given.get entry.key = some value := by
  induction entries generalizing start with
  | nil =>
      obtain rfl : start = given := by simpa [pure, Except.pure] using h
      exact ⟨fun _ => rfl, fun _ hmem => absurd hmem (List.not_mem_nil)⟩
  | cons first entries ih =>
      rw [List.nodup_cons] at hnodup
      rw [List.foldlM_cons, bind_eq_ok] at h
      obtain ⟨next, hfirst, hrest⟩ := h
      obtain ⟨hkept, hnamed⟩ := ih hnodup.2 hrest
      have hother : entry ≠ first → next.get entry.key = start.get entry.key := by
        intro hne
        unfold giveMember at hfirst
        split at hfirst
        · rw [Except.ok.inj hfirst]
        · rw [bind_eq_ok] at hfirst
          obtain ⟨value, -, hset⟩ := hfirst
          rw [← pure_eq_ok.mp hset, Dict.get_set, if_neg fun heq => hne (key_injective heq)]
      by_cases heq : entry = first
      · subst heq
        have hlater := hkept (.inl hnodup.1)
        unfold giveMember at hfirst
        cases hbody : body.get entry.field with
        | none =>
            rw [hbody] at hfirst
            refine ⟨fun _ => ?_, fun member _ hmember => by cases hmember⟩
            rw [hlater, ← Except.ok.inj hfirst]
        | some member =>
            rw [hbody] at hfirst
            simp only [bind_eq_ok] at hfirst
            obtain ⟨value, hvalue, hset⟩ := hfirst
            refine ⟨fun hnot => ?_, fun other _ hother => ?_⟩
            · rcases hnot with hnot | hnot
              · exact absurd List.mem_cons_self hnot
              · cases hnot
            · obtain rfl := Option.some.inj hother
              refine ⟨value, hvalue, ?_⟩
              rw [hlater, ← pure_eq_ok.mp hset, Dict.get_set, if_pos rfl]
      · refine ⟨fun hnot => ?_, fun member hmem hmember => ?_⟩
        · rw [hkept (hnot.imp_left fun hn hm => hn (List.mem_cons_of_mem first hm)), hother heq]
        · exact hnamed member ((List.mem_cons.mp hmem).resolve_left heq) hmember

theorem given_absent {body : Dict String Member} {given : Given}
    (h : sharedFromInput body = .ok given) {entry : Shared} (hbody : body.get entry.field = none) :
    given.get entry.key = none :=
  (get_foldlM_giveMember (by decide) h entry).1 (.inr hbody)

theorem given_member {body : Dict String Member} {given : Given}
    (h : sharedFromInput body = .ok given) {entry : Shared} {member : Member}
    (hbody : body.get entry.field = some member) :
    ∃ value, givenMember entry member = .ok value ∧ given.get entry.key = some value :=
  (get_foldlM_giveMember (by decide) h entry).2 member (mem_all entry) hbody

/-- The values that a body can give. -/
theorem givenMember_eq_ok {entry : Shared} {member : Member} {value : Option ConfigValue}
    (h : givenMember entry member = .ok value) :
    (member = .null ∧ value = none) ∨
      (entry = .confirm ∧ ∃ chosen, member = .flag chosen ∧ value = some (.flag !chosen)) ∨
      (entry ≠ .confirm ∧ ∃ n : ℕ, wholeNumber member = some (n : ℤ) ∧
        value = some (.number n) ∧ inRange entry n = true) := by
  unfold givenMember at h
  split at h
  · exact .inl ⟨rfl, (Except.ok.inj h).symm⟩
  split at h
  · exact .inr (.inl ⟨rfl, _, rfl, (Except.ok.inj h).symm⟩)
  · cases h
  · rename_i hconfirm _
    split at h
    · rename_i n hn
      rw [Option.filter_eq_some_iff] at hn
      have hentry : entry ≠ .confirm := fun heq => hconfirm heq
      obtain ⟨k, rfl⟩ := natCast_of_inRange hentry hn.2
      exact .inr (.inr ⟨hentry, k, hn.1, (Except.ok.inj h).symm, hn.2⟩)
    · cases h

/-! ## What a save writes -/

section

variable {ρ : Type} {baseSettings : ρ} {byteLength : MailFile → ℕ}

/-- The config of sign-in settings, if there are any. -/
def configOf (settings : Option (SignInSettings ρ)) : Option Config :=
  settings.map SignInSettings.config

theorem get_mailBase (entry : Shared) : mailBase.get entry.file = none := by
  cases entry <;> decide

/-- The mail file of a save has the shared members of the file before it. -/
theorem get_mailFromInput {body : Dict String Member} {current : Option MailFile} {file : MailFile}
    (h : mailFromInput byteLength body current = .ok file) (entry : Shared) :
    file.get entry.file = current.bind fun current => current.get entry.file := by
  unfold mailFromInput at h
  simp only [bind_eq_ok, require_eq_ok, pure_eq_ok] at h
  obtain ⟨-, -, -, -, admin, -, host, -, -, -, -, -, name, -, -, -, port, -, user, -, given, -, -, -,
    -, -, rfl⟩ := h
  have hother : ∀ field ∈ ["host", "port", "user", "pass", "admin_email", "sender_name"],
      entry.file ≠ field := by
    cases entry <;> decide
  simp only [Dict.get_set]
  rw [if_neg (hother _ (by simp)), if_neg (hother _ (by simp)), if_neg (hother _ (by simp)),
    if_neg (hother _ (by simp)), if_neg (hother _ (by simp)), if_neg (hother _ (by simp)),
    Dict.get_union, get_mailBase, Option.or_none]
  cases current <;> rfl

/-- The parts of a save: what it names, and the mail file it goes on with. -/
theorem smtpSave_eq_ok {body : Dict String Member} {settings : Option (SignInSettings ρ)}
    {before : Option MailFile} {plan : Plan ρ}
    (h : smtpSave baseSettings byteLength body settings before = .ok plan) :
    ∃ given after, sharedFromInput body = .ok given ∧
      (∀ file ∈ after, ∀ entry : Shared, file.get entry.file =
        before.bind fun before => before.get entry.file) ∧
      plan = sharedSettings baseSettings settings given before after := by
  unfold smtpSave at h
  simp only [bind_eq_ok, require_eq_ok, pure_eq_ok] at h
  obtain ⟨-, -, enabled, -, given, hgiven, after, hafter, rfl⟩ := h
  refine ⟨given, after, hgiven, ?_, rfl⟩
  intro file hfile entry
  unfold nextMail at hafter
  split_ifs at hafter
  · obtain ⟨saved, hsaved, rfl⟩ := map_eq_ok.mp hafter
    obtain rfl := Option.some.inj hfile
    exact get_mailFromInput hsaved entry
  · rw [← Except.ok.inj hafter] at hfile
    cases hfile

section

variable {given : Given} {before after : Option MailFile}

/-- Whether a save moves what the mail file holds. -/
def moves (settings : Option (SignInSettings ρ)) (given : Given) (before after : Option MailFile) :
    Bool :=
  settings.isSome || given.keys ≠ [] || (before.isNone && after.isSome) ||
    (before.isSome && after.isNone)

/-- The value that a save writes down for a setting neither file names. -/
def chosen (before after : Option MailFile) (entry : Shared) : Option ConfigValue :=
  if entry = .confirm ∧ before.isSome ≠ after.isSome then some (.flag false) else none

/-- A shared setting in the sign-in settings after a save. -/
def savedMember (moving : Bool) (given : Given) (before after : Option MailFile)
    (old : Option ConfigValue) (entry : Shared) : Option ConfigValue :=
  match given.get entry.key with
  | some value => value
  | none =>
    if moving = true ∧ old = none then (fileValue before entry).or (chosen before after entry)
    else old

theorem get_saveShared_self (moving : Bool) (config : Config) (entry : Shared) :
    (saveShared given before after moving config entry).get entry.key =
      savedMember moving given before after (config.get entry.key) entry := by
  have hchosen : (if entry = .confirm ∧ ((before.isSome && after.isNone) ||
      (before.isNone && after.isSome)) = true then some (ConfigValue.flag false) else none) =
        chosen before after entry := by
    unfold chosen
    cases before <;> cases after <;> simp
  unfold saveShared savedMember
  simp only [hchosen]
  split
  · rename_i hgiven
    rw [hgiven, Dict.get_delete, if_pos rfl]
  · rename_i value hgiven
    rw [hgiven, Dict.get_set, if_pos rfl]
  · rename_i hgiven
    rw [hgiven]
    dsimp only
    split_ifs with hmoving
    · split
      · rename_i kept hkept
        rw [Dict.get_set, if_pos rfl, hkept]
      · rename_i hkept
        rw [hkept, hmoving.2]
    · rfl

theorem get_saveShared_of_ne (moving : Bool) (config : Config) (entry : Shared) (key : String)
    (hkey : key ≠ entry.key) :
    (saveShared given before after moving config entry).get key = config.get key := by
  unfold saveShared
  dsimp only
  repeat' split
  · rw [Dict.get_delete, if_neg hkey]
  · rw [Dict.get_set, if_neg hkey]
  · rw [Dict.get_set, if_neg hkey]
  · rfl
  · rfl

theorem get_savedConfig (moving : Bool) (config : Config) (entry : Shared) :
    (Shared.all.foldl (saveShared given before after moving) config).get entry.key =
      savedMember moving given before after (config.get entry.key) entry := by
  rw [Dict.get_foldl_of_mem (fun config entry key => get_saveShared_of_ne moving config entry key)
    (nodup_map_all key_injective) config (mem_all entry), get_saveShared_self]
  intro m m' hsame
  rw [get_saveShared_self, get_saveShared_self, hsame]

theorem get_savedFile (config : Config) (file : MailFile) (entry : Shared) :
    (Shared.all.foldl (dropShared given config) file).get entry.file =
      if config.get entry.key ≠ none ∨ given.get entry.key ≠ none then none
      else file.get entry.file := by
  have hself : ∀ file : MailFile, (dropShared given config file entry).get entry.file =
      if config.get entry.key ≠ none ∨ given.get entry.key ≠ none then none
      else file.get entry.file := by
    intro file
    unfold dropShared
    split_ifs with hnamed
    · rw [Dict.get_delete, if_pos rfl]
    · rfl
  rw [Dict.get_foldl_of_mem (f := dropShared given config) ?_ (nodup_map_all file_injective) file
    (mem_all entry), hself]
  · intro m m' hsame
    rw [hself, hself, hsame]
  · intro file other name hname
    unfold dropShared
    split_ifs
    · rw [Dict.get_delete, if_neg hname]
    · rfl

/-- The sign-in settings and the mail file after a save, at a shared setting. -/
theorem get_plan (baseSettings : ρ) (settings : Option (SignInSettings ρ)) (given : Given)
    (before after : Option MailFile) (entry : Shared) :
    let plan := sharedSettings baseSettings settings given before after
    let old := ((configOf settings).getD ∅).get entry.key
    let saved := savedMember (moves settings given before after) given before after old entry
    ((configOf plan.settings).getD ∅).get entry.key = saved ∧
      plan.after.isSome = after.isSome ∧
      (saved ≠ none ∨ given.get entry.key ≠ none →
        plan.after.bind (fun file => file.get entry.file) = none) ∧
      (saved = none → given.get entry.key = none →
        plan.after.bind (fun file => file.get entry.file) =
          after.bind fun file => file.get entry.file) := by
  intro plan old saved
  set config := Shared.all.foldl (saveShared given before after (moves settings given before after))
    ((configOf settings).getD ∅) with hconfig
  have hsaved : config.get entry.key = saved := get_savedConfig _ _ entry
  have hafter : plan.after = after.map fun file => Shared.all.foldl (dropShared given config) file := by
    change (sharedSettings baseSettings settings given before after).after = _
    unfold sharedSettings
    dsimp only
    split_ifs <;> rfl
  have hfile : ∀ file, after = some file → plan.after.bind (fun file => file.get entry.file) =
      if config.get entry.key ≠ none ∨ given.get entry.key ≠ none then none
      else file.get entry.file := by
    intro file hsome
    rw [hafter, hsome]
    exact get_savedFile config file entry
  refine ⟨?_, by rw [hafter, Option.isSome_map], fun hnamed => ?_, fun hnone hgiven => ?_⟩
  · by_cases hkeys : (Shared.all.map Shared.key).filter
        (fun key => ((configOf settings).getD ∅).get key ≠ config.get key) = []
    · have hplan : plan.settings = settings := congrArg Plan.settings (if_pos hkeys)
      rw [List.filter_eq_nil_iff] at hkeys
      have hsame := hkeys entry.key (List.mem_map.mpr ⟨entry, mem_all entry, rfl⟩)
      rw [hplan, ← hsaved]
      simpa using hsame
    · have hplan : plan.settings =
          some ⟨config, (settings.map SignInSettings.rest).getD baseSettings⟩ :=
        congrArg Plan.settings (if_neg hkeys)
      rw [hplan, ← hsaved]
      rfl
  · cases after with
    | none => rw [hafter, Option.map_none, Option.bind_none]
    | some file => rw [hfile file rfl, if_pos (by rwa [hsaved])]
  · cases after with
    | none => rw [hafter, Option.map_none]
    | some file =>
        rw [hfile file rfl, if_neg (by rw [hsaved, hnone, hgiven]; simp), Option.bind_some]

end

end

/-! ## The law -/

/-- A save turns custom SMTP on while nothing names Confirm email. -/
def TurnsConfirmOn (settings : Option Config) (before after : Option MailFile) (entry : Shared) :
    Prop :=
  entry = .confirm ∧ before = none ∧ after ≠ none ∧ (settings.getD ∅).get entry.key = none

/-- A save turns custom SMTP off while the mail file alone names a limit, in a form
the console cannot hold. -/
def LosesForm (settings : Option Config) (before after : Option MailFile) (entry : Shared) : Prop :=
  after = none ∧ (settings.getD ∅).get entry.key = none ∧
    before.bind (fun file => file.get entry.file) ≠ none ∧ fileValue before entry = none

/-- What a save does to the environment of Auth. -/
structure SaveLaw (body : Dict String Member) (settings settings' : Option Config)
    (before after : Option MailFile) : Prop where
  readable : Readable settings' after
  confirm : ∀ value, body.get Shared.confirm.field = some (.flag value) →
    effective settings' after .confirm = lowerBool !value
  limit : ∀ entry, entry ≠ .confirm → ∀ member, body.get entry.field = some member →
    ∀ n : ℕ, wholeNumber member = some (n : ℤ) →
      effective settings' after entry = toString n ++ emitSuffix entry.key
  cleared : ∀ entry : Shared, body.get entry.field = some .null →
    effective settings' after entry = unnamedText after entry
  kept : ∀ entry : Shared, body.get entry.field = none →
    ¬ TurnsConfirmOn settings before after entry → ¬ LosesForm settings before after entry →
      reading entry (effective settings' after entry) =
        reading entry (effective settings before entry)
  turned : ∀ entry : Shared, body.get entry.field = none →
    TurnsConfirmOn settings before after entry → effective settings' after entry = "false"
  lost : ∀ entry : Shared, body.get entry.field = none → LosesForm settings before after entry →
    effective settings' after entry = defaultText entry

/-- The page shows what Auth gets, and no number for a form it cannot hold. -/
structure ViewLaw (settings : Option Config) (mail : Option MailFile) : Prop where
  confirm : effective settings mail .confirm =
    lowerBool !(smtpView mail (settings.getD ∅)).confirmEmail
  limit : ∀ entry, entry ≠ .confirm → ∀ n, (smtpView mail (settings.getD ∅)).limit entry = some n →
    ∃ k : ℕ, n = k ∧ reading entry (effective settings mail entry) = .number k
  unset : ∀ entry, entry ≠ .confirm → (smtpView mail (settings.getD ∅)).limit entry = none →
    (settings.getD ∅).get entry.key = none ∧
      mail.bind (fun file => file.get entry.file) ≠ none ∧ fileValue mail entry = none

section

variable {settings : Option Config} {mail : Option MailFile} {entry : Shared}

/-- A saved limit is a number in its range. -/
theorem number_of_valid (h : Readable settings mail) (hentry : entry ≠ .confirm)
    {value : ConfigValue} (hget : (settings.getD ∅).get entry.key = some value) :
    ∃ k : ℕ, value = .number k := by
  have hvalid := h.config entry value hget
  cases value with
  | flag value => simp [validShared, hentry] at hvalid
  | text text => simp [validShared] at hvalid
  | number n =>
      rw [validShared, Bool.and_eq_true] at hvalid
      obtain ⟨k, rfl⟩ := natCast_of_inRange hentry hvalid.2
      exact ⟨k, rfl⟩

theorem flag_of_valid (h : Readable settings mail)
    {value : ConfigValue} (hget : (settings.getD ∅).get Shared.confirm.key = some value) :
    ∃ chosen, value = .flag chosen := by
  have hvalid := h.config .confirm value hget
  cases value with
  | flag chosen => exact ⟨chosen, rfl⟩
  | number n => simp [validShared] at hvalid
  | text text => simp [validShared] at hvalid

theorem reading_unnamed (hentry : entry ≠ .confirm) :
    ∃ k : ℕ, entry.fallback = k ∧ reading entry (unnamedText mail entry) = .number k := by
  rw [unnamedText, if_neg fun h => hentry h.1]
  cases entry with
  | confirm => exact absurd rfl hentry
  | sent | otp | verify => exact ⟨30, rfl, by decide⟩
  | gap => exact ⟨60, rfl, by decide⟩

theorem view_law (h : Readable settings mail) : ViewLaw settings mail := by
  refine ⟨?_, fun entry hentry n hn => ?_, fun entry hentry hnone => ?_⟩
  · cases hget : (settings.getD ∅).get Shared.confirm.key with
    | some value =>
        obtain ⟨value, rfl⟩ := flag_of_valid h hget
        rw [effective_named hget]
        simp [smtpView, hget, emit]
    | none =>
        cases hfile : mail.bind fun file => file.get Shared.confirm.file with
        | none =>
            rw [effective_unnamed h.mail hget hfile]
            cases mail <;> simp [smtpView, hget, fileValue_absent hfile, unnamedText, defaultText,
              lowerBool]
        | some member =>
            cases mail with
            | none => cases hfile
            | some file =>
                obtain ⟨text, htext⟩ := mailText_of_get (h.mail file rfl) hfile
                obtain ⟨value, hvalue, rfl⟩ := fileValue_confirm hfile htext
                rw [effective_file (h.mail file rfl) hget hfile htext]
                cases value <;> simp [smtpView, hget, hvalue, lowerBool]
  · change viewLimit mail (settings.getD ∅) entry = some n at hn
    unfold viewLimit at hn
    cases hget : (settings.getD ∅).get entry.key with
    | some value =>
        obtain ⟨k, rfl⟩ := number_of_valid h hentry hget
        rw [hget] at hn
        obtain rfl := Option.some.inj hn
        exact ⟨k, rfl, by rw [effective_named hget, reading_emit hentry]⟩
    | none =>
        rw [hget] at hn
        cases hfile : mail.bind fun file => file.get entry.file with
        | none =>
            simp only [hfile, Option.isSome_none, Bool.false_eq_true, if_false,
              Option.some.injEq] at hn
            subst hn
            rw [effective_unnamed h.mail hget hfile]
            exact reading_unnamed hentry
        | some member =>
            cases mail with
            | none => cases hfile
            | some file =>
                obtain ⟨text, htext⟩ := mailText_of_get (h.mail file rfl) hfile
                simp only [hfile, Option.isSome_some, if_true] at hn
                rcases fileValue_cases (some file) hentry with hvalue | ⟨k, hvalue, -⟩
                · simp [hvalue] at hn
                · simp only [hvalue, Option.some.injEq] at hn
                  refine ⟨k, hn.symm, ?_⟩
                  rw [effective_file (h.mail file rfl) hget hfile htext]
                  exact fileValue_number hentry hfile htext hvalue
  · change viewLimit mail (settings.getD ∅) entry = none at hnone
    unfold viewLimit at hnone
    cases hget : (settings.getD ∅).get entry.key with
    | some value =>
        obtain ⟨k, rfl⟩ := number_of_valid h hentry hget
        rw [hget] at hnone
        cases hnone
    | none =>
        rw [hget] at hnone
        dsimp only at hnone
        split_ifs at hnone with hfile
        refine ⟨rfl, Option.ne_none_iff_isSome.mpr hfile, ?_⟩
        rcases fileValue_cases mail hentry with hvalue | ⟨k, hvalue, -⟩
        · exact hvalue
        · rw [hvalue] at hnone
          cases hnone

end

section

variable {ρ : Type} {baseSettings : ρ} {settings : Option (SignInSettings ρ)} {given : Given}
  {before after : Option MailFile}

/-- What a save takes from the mail file has the value it had there. -/
theorem reading_moved (h : Readable (configOf settings) before) {entry : Shared}
    (hold : ((configOf settings).getD ∅).get entry.key = none) {value : ConfigValue}
    (hvalue : fileValue before entry = some value) :
    validShared entry value = true ∧
      reading entry (emit entry.key value) =
        reading entry (effective (configOf settings) before entry) := by
  cases hfile : before.bind fun file => file.get entry.file with
  | none =>
      rw [fileValue_absent hfile] at hvalue
      cases hvalue
  | some member =>
      cases before with
      | none => cases hfile
      | some file =>
          obtain ⟨text, htext⟩ := mailText_of_get (h.mail file rfl) hfile
          rw [effective_file (h.mail file rfl) hold hfile htext]
          by_cases hentry : entry = .confirm
          · subst hentry
            obtain ⟨chosen, hchosen, rfl⟩ := fileValue_confirm hfile htext
            obtain rfl := Option.some.inj (hvalue.symm.trans hchosen)
            exact ⟨rfl, rfl⟩
          · rcases fileValue_cases (some file) hentry with hnone | ⟨k, hk, hvalid⟩
            · rw [hnone] at hvalue
              cases hvalue
            · obtain rfl := Option.some.inj (hvalue.symm.trans hk)
              exact ⟨hvalid, by
                rw [reading_emit hentry, fileValue_number hentry hfile htext hk]⟩

/-- A value that a body names can be saved. -/
theorem valid_of_given {body : Dict String Member} (hgiven : sharedFromInput body = .ok given)
    {entry : Shared} {value : ConfigValue} (h : given.get entry.key = some (some value)) :
    validShared entry value = true := by
  cases hbody : body.get entry.field with
  | none =>
      rw [given_absent hgiven hbody] at h
      cases h
  | some member =>
      obtain ⟨saved, hsaved, hget⟩ := given_member hgiven hbody
      obtain rfl : saved = some value := Option.some.inj (hget.symm.trans h)
      rcases givenMember_eq_ok hsaved with ⟨-, hnone⟩ | ⟨rfl, chosen, -, hvalue⟩ |
        ⟨hentry, n, -, hvalue, hrange⟩
      · cases hnone
      · obtain rfl := Option.some.inj hvalue
        rfl
      · obtain rfl := Option.some.inj hvalue
        exact validShared_number hentry hrange

theorem valid_savedMember {body : Dict String Member} (hgiven : sharedFromInput body = .ok given)
    (h : Readable (configOf settings) before) {entry : Shared} {value : ConfigValue}
    (hsaved : savedMember (moves settings given before after) given before after
      (((configOf settings).getD ∅).get entry.key) entry = some value) :
    validShared entry value = true := by
  unfold savedMember at hsaved
  split at hsaved
  · rename_i saved hget
    rw [hsaved] at hget
    exact valid_of_given hgiven hget
  · split_ifs at hsaved with hmoves
    · rcases Option.or_eq_some_iff.mp hsaved with hfile | ⟨-, hchosen⟩
      · exact (reading_moved h hmoves.2 hfile).1
      · unfold chosen at hchosen
        split_ifs at hchosen with hentry
        obtain rfl := Option.some.inj hchosen
        exact decide_eq_true hentry.1
    · exact h.config entry value hsaved

/-- What a mail file has after a save for a shared setting it had before. -/
theorem get_plan_file (hafter : ∀ file ∈ after, ∀ entry : Shared, file.get entry.file =
      before.bind fun before => before.get entry.file) (entry : Shared) {file : MailFile}
    (hfile : (sharedSettings baseSettings settings given before after).after = some file) :
    file.get entry.file = none ∨
      file.get entry.file = before.bind fun before => before.get entry.file := by
  obtain ⟨-, -, hdropped, hkept⟩ := get_plan baseSettings settings given before after entry
  rw [hfile, Option.bind_some] at hdropped hkept
  by_cases hnamed : savedMember (moves settings given before after) given before after
      (((configOf settings).getD ∅).get entry.key) entry ≠ none ∨ given.get entry.key ≠ none
  · exact .inl (hdropped hnamed)
  · rw [not_or, not_not, not_not] at hnamed
    rw [hkept hnamed.1 hnamed.2]
    cases after with
    | none => exact .inl rfl
    | some next => exact .inr (hafter next rfl entry)

/-- The files after a save are read as those before it were. -/
theorem readable_plan {body : Dict String Member} (hgiven : sharedFromInput body = .ok given)
    (h : Readable (configOf settings) before)
    (hafter : ∀ file ∈ after, ∀ entry : Shared, file.get entry.file =
      before.bind fun before => before.get entry.file) :
    let plan := sharedSettings baseSettings settings given before after
    Readable (configOf plan.settings) plan.after := by
  intro plan
  refine ⟨fun entry value hvalue => ?_, fun file hfile => validate_of_mailText fun entry => ?_⟩
  · rw [Option.mem_def, (get_plan baseSettings settings given before after entry).1] at hvalue
    exact valid_savedMember hgiven h hvalue
  · have habsent : file.get entry.file = none →
        (mailText entry (fileMember file entry)).isSome = true := by
      intro hnone
      rw [fileMember, hnone, Option.getD_none, mailText_optional]
      rfl
    rcases get_plan_file hafter entry hfile with hnone | hsame
    · exact habsent hnone
    · cases hmember : before.bind fun before => before.get entry.file with
      | none => exact habsent (hsame.trans hmember)
      | some member =>
          cases before with
          | none => cases hmember
          | some old =>
              obtain ⟨text, htext⟩ := mailText_of_get (h.mail old rfl) hmember
              rw [fileMember, hsame, hmember, Option.getD_some, htext]
              rfl

/-- What a save that turns custom SMTP on or off writes down for a setting nothing names. -/
theorem savedMember_turning {entry : Shared} (hgiven : given.get entry.key = none)
    (hturn : before.isSome ≠ after.isSome) :
    savedMember (moves settings given before after) given before after none entry =
      (fileValue before entry).or (chosen before after entry) := by
  have hmoves : moves settings given before after = true := by
    unfold moves
    cases before <;> cases after <;> simp_all
  unfold savedMember
  rw [hgiven]
  exact if_pos ⟨hmoves, rfl⟩

/-- Where custom SMTP is turned on or off, a save writes nothing for a limit only, and
only if the console holds no value of it. -/
theorem unsaved_turning {entry : Shared} (hgiven : given.get entry.key = none)
    (hsaved : savedMember (moves settings given before after) given before after none entry = none)
    (hturn : before.isSome ≠ after.isSome) : fileValue before entry = none ∧ entry ≠ .confirm := by
  rw [savedMember_turning hgiven hturn, Option.or_eq_none_iff] at hsaved
  refine ⟨hsaved.1, fun hentry => ?_⟩
  have hchosen := hsaved.2
  rw [chosen, if_pos ⟨hentry, hturn⟩] at hchosen
  cases hchosen

/-- A form that the console cannot hold is one of a limit. -/
theorem limit_of_lost (h : Readable (configOf settings) before) {entry : Shared}
    (hpresent : before.bind (fun file => file.get entry.file) ≠ none)
    (hvalue : fileValue before entry = none) : entry ≠ .confirm := by
  rintro rfl
  obtain ⟨member, hmember⟩ := Option.ne_none_iff_exists'.mp hpresent
  cases before with
  | none => cases hmember
  | some file =>
      obtain ⟨text, htext⟩ := mailText_of_get (h.mail file rfl) hmember
      obtain ⟨flag, hflag, -⟩ := fileValue_confirm hmember htext
      rw [hvalue] at hflag
      cases hflag

theorem unnamedText_limit {entry : Shared} (hentry : entry ≠ .confirm) (mail : Option MailFile) :
    unnamedText mail entry = defaultText entry :=
  if_neg fun h => hentry h.1

theorem unnamedText_file (file : MailFile) (entry : Shared) :
    unnamedText (some file) entry = defaultText entry :=
  if_neg fun h => nomatch h.2

/-- A setting that a save does not name, and the sign-in settings do not, keeps the
value that it writes down. -/
theorem kept_written (h : Readable (configOf settings) before) {entry : Shared}
    (hold : ((configOf settings).getD ∅).get entry.key = none)
    (hgiven : given.get entry.key = none) {value : ConfigValue}
    (hsaved : savedMember (moves settings given before after) given before after none entry =
      some value)
    (hturns : ¬ TurnsConfirmOn (configOf settings) before after entry) :
    reading entry (emit entry.key value) =
      reading entry (effective (configOf settings) before entry) := by
  unfold savedMember at hsaved
  rw [hgiven] at hsaved
  dsimp only at hsaved
  split_ifs at hsaved with hmoves
  rcases Option.or_eq_some_iff.mp hsaved with hfile | ⟨hnofile, hchosen⟩
  · exact (reading_moved h hold hfile).2
  · unfold chosen at hchosen
    split_ifs at hchosen with hconfirm
    obtain ⟨rfl, hturn⟩ := hconfirm
    obtain rfl := Option.some.inj hchosen
    cases before with
    | none =>
        have hon : after ≠ none := by
          rintro rfl
          exact hturn rfl
        exact absurd ⟨rfl, rfl, hon, hold⟩ hturns
    | some file =>
        -- a file that holds Confirm email holds a flag, which moves
        cases hmember : file.get Shared.confirm.file with
        | none => rw [effective_unnamed h.mail hold hmember, unnamedText_file]; rfl
        | some member =>
            obtain ⟨text, htext⟩ := mailText_of_get (h.mail file rfl) hmember
            obtain ⟨flag, hflag, -⟩ :=
              fileValue_confirm (show (some file).bind _ = some member from hmember) htext
            rw [hnofile] at hflag
            cases hflag

/-- A setting that neither a save nor the sign-in settings name, nor the save writes down. -/
theorem kept_unwritten {settings' : Option Config} {next : Option MailFile}
    (h : Readable (configOf settings) before) (h' : Readable settings' next) {entry : Shared}
    (hold : ((configOf settings).getD ∅).get entry.key = none)
    (hnew : (settings'.getD ∅).get entry.key = none)
    (hfile : next.bind (fun file => file.get entry.file) =
      if next.isSome then before.bind fun file => file.get entry.file else none)
    (hturning : before.isSome ≠ next.isSome → fileValue before entry = none ∧ entry ≠ .confirm)
    (hloses : ¬ LosesForm (configOf settings) before next entry) :
    effective settings' next entry = effective (configOf settings) before entry := by
  cases next with
  | none =>
      rw [effective_unnamed h'.mail hnew rfl]
      cases before with
      | none => rw [effective_unnamed h.mail hold rfl]
      | some file =>
          obtain ⟨hvalue, hentry⟩ := hturning (by simp)
          have habsent : (some file).bind (fun file => file.get entry.file) = none := by
            by_contra hpresent
            exact hloses ⟨rfl, hold, hpresent, hvalue⟩
          rw [effective_unnamed h.mail hold habsent, unnamedText_limit hentry,
            unnamedText_limit hentry]
  | some file' =>
      rw [Option.isSome_some, if_pos rfl] at hfile
      cases hmember : before.bind fun file => file.get entry.file with
      | none =>
          rw [effective_unnamed h'.mail hnew (hfile.trans hmember),
            effective_unnamed h.mail hold hmember, unnamedText_file]
          cases before with
          | none =>
              obtain ⟨-, hentry⟩ := hturning (by simp)
              rw [unnamedText_limit hentry]
          | some file => rw [unnamedText_file]
      | some member =>
          cases before with
          | none => cases hmember
          | some file =>
              obtain ⟨text, htext⟩ := mailText_of_get (h.mail file rfl) hmember
              rw [effective_file (h.mail file rfl) hold hmember htext,
                effective_file (h'.mail file' rfl) hnew (hfile.trans hmember) htext]

section

variable {body : Dict String Member} (hgiven : sharedFromInput body = .ok given)
  (hread : Readable (configOf (sharedSettings baseSettings settings given before after).settings)
    (sharedSettings baseSettings settings given before after).after)

include hgiven

/-- A value that a save names is the value that Auth gets. -/
theorem effective_given {entry : Shared} {member : Member} {value : ConfigValue}
    (hbody : body.get entry.field = some member)
    (hmember : givenMember entry member = .ok (some value)) :
    let plan := sharedSettings baseSettings settings given before after
    effective (configOf plan.settings) plan.after entry = emit entry.key value := by
  intro plan
  obtain ⟨saved, hsaved, hget⟩ := given_member hgiven hbody
  obtain rfl : some value = saved := Except.ok.inj (hmember.symm.trans hsaved)
  refine effective_named ?_
  rw [(get_plan baseSettings settings given before after entry).1, savedMember, hget]

include hread

/-- A setting that a save puts back has its default. -/
theorem effective_cleared {entry : Shared} (hbody : body.get entry.field = some .null) :
    let plan := sharedSettings baseSettings settings given before after
    effective (configOf plan.settings) plan.after entry = unnamedText plan.after entry := by
  intro plan
  obtain ⟨saved, hsaved, hget⟩ := given_member hgiven hbody
  obtain rfl : none = saved := Except.ok.inj hsaved
  obtain ⟨hnew, -, hdropped, -⟩ := get_plan baseSettings settings given before after entry
  refine effective_unnamed hread.mail ?_ (hdropped (.inr (by rw [hget]; simp)))
  rw [hnew, savedMember, hget]

end

/-- A save of the mail settings gives each shared setting that it names the value it
names, and keeps the others, but for Confirm email where custom SMTP is first turned
on and for a form the console cannot hold where it is turned off. The page shows what
Auth gets before and after. -/
theorem smtp_law {byteLength : MailFile → ℕ} {body : Dict String Member} {plan : Plan ρ}
    (h : Readable (configOf settings) before)
    (hsave : smtpSave baseSettings byteLength body settings before = .ok plan) :
    SaveLaw body (configOf settings) (configOf plan.settings) before plan.after ∧
      ViewLaw (configOf settings) before ∧ ViewLaw (configOf plan.settings) plan.after := by
  obtain ⟨given, after, hgiven, hafter, rfl⟩ := smtpSave_eq_ok hsave
  have hread : Readable
      (configOf (sharedSettings baseSettings settings given before after).settings)
      (sharedSettings baseSettings settings given before after).after :=
    readable_plan hgiven h hafter
  refine ⟨⟨hread, ?_, ?_, ?_, ?_, ?_, ?_⟩, view_law h, view_law hread⟩
  · intro value hbody
    exact effective_given hgiven hbody rfl
  · intro entry hentry member hbody n hwhole
    obtain ⟨value, hvalue, -⟩ := given_member hgiven hbody
    rcases givenMember_eq_ok hvalue with ⟨rfl, -⟩ | ⟨hconfirm, -⟩ | ⟨-, k, hk, rfl, -⟩
    · cases hwhole
    · exact absurd hconfirm hentry
    · obtain rfl : n = k := by simpa using hwhole.symm.trans hk
      exact effective_given hgiven hbody hvalue
  · intro entry hbody
    exact effective_cleared hgiven hread hbody
  · intro entry hbody hturns hloses
    have hnogive := given_absent hgiven hbody
    obtain ⟨hnew, hsome, hdropped, hkept⟩ :=
      get_plan baseSettings settings given before after entry
    cases hold : ((configOf settings).getD ∅).get entry.key with
    | some value =>
        have hsaved : ((configOf (sharedSettings baseSettings settings given before
            after).settings).getD ∅).get entry.key = some value := by
          rw [hnew, hold, savedMember, hnogive]
          simp
        rw [effective_named hsaved, effective_named hold]
    | none =>
        rw [hold] at hnew hkept
        cases hsaved : savedMember (moves settings given before after) given before after none
            entry with
        | some value =>
            rw [hsaved] at hnew
            rw [effective_named hnew]
            refine kept_written h hold hnogive hsaved fun hturns' => hturns ?_
            refine ⟨hturns'.1, hturns'.2.1, ?_, hold⟩
            rw [Option.ne_none_iff_isSome, hsome, ← Option.ne_none_iff_isSome]
            exact hturns'.2.2.1
        | none =>
            rw [hsaved] at hnew
            rw [kept_unwritten h hread hold hnew ?_ ?_ hloses]
            · rw [hkept hsaved hnogive, hsome]
              cases after with
              | none => rfl
              | some file => exact hafter file rfl entry
            · rw [hsome]
              exact unsaved_turning hnogive hsaved
  · rintro entry hbody ⟨rfl, rfl, hon, hold⟩
    have hnogive := given_absent hgiven hbody
    obtain ⟨hnew, hsome, -⟩ := get_plan baseSettings settings given none after .confirm
    rw [Option.ne_none_iff_isSome, hsome] at hon
    rw [hold, savedMember_turning hnogive (by simp [hon]), fileValue_absent rfl, chosen,
      if_pos ⟨rfl, by simp [hon]⟩, Option.none_or] at hnew
    exact effective_named hnew
  · rintro entry hbody ⟨hoff, hold, hpresent, hvalue⟩
    have hnogive := given_absent hgiven hbody
    have hentry := limit_of_lost h hpresent hvalue
    obtain ⟨hnew, hsome, -⟩ := get_plan baseSettings settings given before after entry
    have hturn : before.isSome ≠ after.isSome := by
      rw [← hsome, hoff]
      cases before with
      | none => exact absurd rfl hpresent
      | some file => simp
    rw [hold, savedMember_turning hnogive hturn, hvalue, chosen, if_neg fun h => hentry h.1,
      Option.none_or] at hnew
    rw [effective_unnamed hread.mail hnew (by rw [hoff]; rfl), unnamedText_limit hentry]

end

/-! ## A first save -/

/-- Custom SMTP turned on, with nothing said of the shared settings. -/
def firstSave : Dict String Member :=
  ((((∅ : Dict String Member).set "admin_email" (.text "mail@shop.test")).set "host"
    (.text "smtp.shop.test")).set "port" (.int 587)).set "password" (.text "secret")

/-- A save on top of it: fewer messages, and custom SMTP off. -/
def offSave : Dict String Member :=
  ((∅ : Dict String Member).set "enabled" (.flag false)).set "rate_limit_email_sent" (.int 10)

/-- A mail file of an earlier version. -/
def earlierFile : MailFile :=
  ((mailBase.set "autoconfirm" (.flag true)).set "rate_limit_email_sent" (.text "30/1h")).set
    "max_frequency" (.text "1h30m")

theorem validConfig_empty : ValidConfig ∅ := by
  intro entry value hvalue
  cases hvalue

theorem readable_earlierFile :
    Readable (configOf (none : Option (SignInSettings Unit))) (some earlierFile) := by
  refine ⟨validConfig_empty, fun file hfile => ?_⟩
  obtain rfl := Option.some.inj hfile
  exact Option.isSome_iff_exists.mp (by decide)

/-- A save that turns custom SMTP off keeps Confirm email off, and loses `1h30m`. -/
theorem smtp_law_off : ∃ plan, smtpSave () (fun _ => 0) offSave none (some earlierFile) = .ok plan ∧
    SaveLaw offSave none (configOf plan.settings) (some earlierFile) plan.after := by
  cases hsave : smtpSave () (fun _ => 0) offSave none (some earlierFile) with
  | ok plan => exact ⟨plan, rfl, (smtp_law readable_earlierFile hsave).1⟩
  | error field =>
      have hok : (smtpSave () (fun _ => 0) offSave none (some earlierFile)).isOk = true := by
        decide
      rw [hsave] at hok
      cases hok

/-- Turning custom SMTP on for the first time turns Confirm email on. -/
theorem first_save_confirms : firstSave.get Shared.confirm.field = none ∧
      effective none none .confirm = "true" ∧
      (smtpSave () (fun _ => 0) firstSave none none).toOption.map
        (fun plan => effective (configOf plan.settings) plan.after .confirm) = some "false" := by
  decide +kernel

end Sbarbase.SignIn.Proofs.SmtpLaw
