import Sbarbase.Database.Proxy
/-!
# One reading of the startup packet

Where PostgreSQL accepts the layout of a packet, the proxy finds the same parameters
in it, and a developer login and its database are the very bytes that PostgreSQL
takes for user and database.
-/

namespace Sbarbase.Database.Proofs.Startup

open Lib Proxy

theorem startupFields_end {body rest : Bytes} (h : splitNul body = some ([], rest)) :
    startupFields body = [] := by
  rw [startupFields]
  split
  next => rfl
  next => rfl
  next hne hkey =>
    rw [h] at hkey
    exact absurd (Prod.mk.inj (Option.some.inj hkey)).1.symm hne

theorem startupFields_pair {body key rest value rest' : Bytes} (hkey : splitNul body = some (key, rest))
    (hne : key ≠ []) (hvalue : splitNul rest = some (value, rest')) :
    startupFields body = (decodeUtf8 key, decodeUtf8 value) :: startupFields rest' := by
  rw [startupFields]
  split
  next hnone => rw [hkey] at hnone; cases hnone
  next hend =>
    rw [hkey] at hend
    exact absurd (Prod.mk.inj (Option.some.inj hend)).1 hne
  next hsame =>
    rw [hkey] at hsame
    obtain ⟨rfl, rfl⟩ := Prod.mk.inj (Option.some.inj hsame)
    split
    next hnone => rw [hvalue] at hnone; cases hnone
    next hsame =>
      rw [hvalue] at hsame
      obtain ⟨rfl, rfl⟩ := Prod.mk.inj (Option.some.inj hsame)
      rfl

theorem startupFields_eq {body : Bytes} {fields : List (Bytes × Bytes)}
    (h : parameters body = some fields) :
    startupFields body = fields.map fun pair => (decodeUtf8 pair.1, decodeUtf8 pair.2) := by
  fun_induction parameters body generalizing fields with
  | case1 body hnone => nomatch h
  | case2 body hend =>
    obtain rfl := Option.some.inj h
    exact startupFields_end hend
  | case3 body rest hend hrest => nomatch h
  | case4 body key rest hne hkey hnone => nomatch h
  | case5 body key rest hne hkey value rest' hvalue ih =>
    obtain ⟨more, hmore, rfl⟩ := Option.map_eq_some_iff.mp h
    rw [startupFields_pair hkey hne hvalue, ih hmore, List.map_cons]

theorem ascii_of_all {key : List Char} (h : (key.all fun c => c.toNat < 0x80) = true) :
    ∀ c ∈ key, c.toNat < 0x80 :=
  fun c hc => of_decide_eq_true (List.all_eq_true.mp h c hc)

/-- The field of a key of ASCII characters. -/
theorem field_decoded (fields : List (Bytes × Bytes)) {key : List Char}
    (hkey : ∀ c ∈ key, c.toNat < 0x80) :
    field (fields.map fun pair => (decodeUtf8 pair.1, decodeUtf8 pair.2)) key =
      (field fields (asciiBytes key)).map decodeUtf8 := by
  have hsame : ∀ pair : Bytes × Bytes,
      decide (decodeUtf8 pair.1 = key) = decide (pair.1 = asciiBytes key) := fun pair => by
    rw [decide_eq_decide]
    exact decodeUtf8_eq_iff hkey
  unfold field
  rw [← List.map_reverse, List.find?_map, Option.map_map, Option.map_map]
  simp only [Function.comp_def, hsame]

theorem isHex_lt {c : Char} (h : isHex c = true) : c.toNat < 0x80 := by
  simp only [isHex, isDigit, Bool.or_eq_true, Bool.and_eq_true, decide_eq_true_eq, Char.le_def,
    UInt32.le_iff_toNat_le] at h
  rcases h with ⟨_, hhigh⟩ | ⟨_, hhigh⟩
  · have hnine : c.val.toNat ≤ 57 := hhigh
    change c.val.toNat < 128
    omega
  · have hf : c.val.toNat ≤ 102 := hhigh
    change c.val.toNat < 128
    omega

theorem developerLogin_eq_some {user runtime : List Char} (h : developerLogin user = some runtime) :
    user = runtime ++ "_developer".toList ∧ isRuntime (String.ofList runtime) = true ∧
      ∀ c ∈ user, c.toNat < 0x80 := by
  unfold developerLogin at h
  simp only at h
  split at h
  next hmatch =>
    obtain rfl := Option.some.inj h
    obtain ⟨hlead, hlength, hhex, hrest⟩ := hmatch
    have huser : user = user.take 26 ++ "_developer".toList := by
      rw [← hrest, List.take_append_drop]
    refine ⟨huser, ?_, ?_⟩
    · have htwo : "e_".length = 2 := by decide
      simp only [isRuntime, matchesAfter, String.toList_ofList, hlead, htwo, hlength, hhex]
      decide
    · obtain ⟨rest, hrest'⟩ := List.isPrefixOf_iff_prefix.mp hlead
      have htail : (user.take 26).drop 2 = rest := by
        rw [← hrest']
        rfl
      rw [htail, List.all_eq_true] at hhex
      intro c hmem
      rw [huser, ← hrest'] at hmem
      rcases List.mem_append.mp hmem with hruntime | hsuffix
      · rcases List.mem_append.mp hruntime with hfirst | hlast
        · exact ascii_of_all (by decide) c hfirst
        · exact isHex_lt (hhex c hlast)
      · exact ascii_of_all (by decide) c hsuffix
  next => nomatch h

/-- What a decision for a developer login rests on. -/
theorem decide_eq_ok {fields : List (List Char × List Char)} {user database : List Char}
    (h : Proxy.decide fields = .ok user database) :
    field fields "user".toList = some user ∧ field fields "database".toList = some database ∧
      user = database ++ "_developer".toList ∧ isRuntime (String.ofList database) = true ∧
      ∀ c ∈ user, c.toNat < 0x80 := by
  unfold Proxy.decide at h
  simp only at h
  cases hlogin : developerLogin ((field fields "user".toList).getD []) with
  | none =>
    rw [hlogin] at h
    nomatch h
  | some runtime =>
    obtain ⟨huser, hruntime, hascii⟩ := developerLogin_eq_some hlogin
    have hfound : field fields "user".toList = some ((field fields "user".toList).getD []) := by
      cases hfield : field fields "user".toList with
      | none =>
        rw [hfield] at huser
        simp at huser
      | some found => rfl
    rw [hlogin] at h
    simp only at h
    split at h
    next hempty =>
      -- the database defaults to the user, which is no runtime
      split at h
      next => nomatch h
      next hdatabase =>
        rw [ne_eq, not_not] at hdatabase
        rw [hdatabase] at huser
        simp at huser
    next hnonempty =>
      split at h
      next => nomatch h
      next hdatabase =>
        obtain ⟨rfl, rfl⟩ := Decision.ok.inj h
        rw [ne_eq, not_not] at hdatabase
        cases hnamed : field fields "database".toList with
        | none => exact absurd (by rw [hnamed]; rfl) hnonempty
        | some named =>
          rw [hnamed, Option.getD_some] at hdatabase
          rw [Option.getD_some, hdatabase]
          exact ⟨hfound, rfl, huser, hruntime, hascii⟩

/-- A login that the proxy lets pass is the user and its database that PostgreSQL reads, if it
accepts the packet. -/
theorem postgres_eq {message user database : Bytes} {login runtime : List Char}
    (h : Proxy.decide (startupFields (message.drop 8)) = .ok login runtime)
    (hread : postgres message = some (user, database)) :
    user = asciiBytes login ∧ database = asciiBytes runtime := by
  obtain ⟨huser, hdatabase, hlogin, hruntime, hascii⟩ := decide_eq_ok h
  have hshort : ∀ c ∈ runtime, c.toNat < 0x80 := by
    intro c hmem
    apply hascii
    rw [hlogin]
    exact List.mem_append_left _ hmem
  unfold postgres at hread
  cases hfields : parameters (message.drop 8) with
  | none =>
    rw [hfields] at hread
    cases hread
  | some fields =>
    rw [startupFields_eq hfields, field_decoded fields (ascii_of_all (by decide))] at huser hdatabase
    obtain ⟨name, hname, hdecoded⟩ := Option.map_eq_some_iff.mp huser
    obtain ⟨db, hdb, hdecoded'⟩ := Option.map_eq_some_iff.mp hdatabase
    rw [decodeUtf8_eq_iff hascii] at hdecoded
    rw [decodeUtf8_eq_iff hshort] at hdecoded'
    have hnamed : name ≠ [] := by
      rw [hdecoded, hlogin]
      simp [asciiBytes]
    have hbound : db ≠ [] := by
      rintro rfl
      have hnil : runtime = [] := by simpa [asciiBytes] using hdecoded'.symm
      rw [hnil] at hruntime
      cases hruntime
    rw [hfields] at hread
    simp only [hname, hdb, Option.getD_some] at hread
    obtain ⟨rfl, rfl⟩ := Prod.mk.inj (Option.some.inj hread)
    exact ⟨hdecoded, hdecoded'⟩

end Sbarbase.Database.Proofs.Startup
