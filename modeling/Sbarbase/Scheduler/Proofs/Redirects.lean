import Sbarbase.Scheduler.Egress
import Mathlib.Data.List.Basic
/-!
# What a chain of redirects can reach

Every connection goes to an address that was checked for the URL of its own hop,
no hop leaves https, and a header that carries credentials is sent only while the
origin has not changed.
-/

namespace Sbarbase.Scheduler.Proofs.Redirects

open Lib

/-- The address is outside the special ranges, and is an own one only for the public origin. -/
def Permitted (rules : Policy) (origin : String) (address : String) : Prop :=
  ∃ parsed, parseAddress address.toList = some parsed ∧
    (∀ entry ∈ SPECIAL, inside entry (unmapped parsed) = false) ∧
    ((∃ entry ∈ rules.own, inside entry (unmapped parsed) = true) → rules.publicOrigin = some origin)

theorem permitted_of_refusal {rules : Policy} {origin address : String}
    (h : refusal address rules (rules.publicOrigin = some origin) = none) :
    Permitted rules origin address := by
  unfold refusal at h
  split at h
  · nomatch h
  next parsed hparsed =>
    split at h
    · nomatch h
    next hspecial =>
      refine ⟨parsed, hparsed, ?_, ?_⟩
      · intro entry hentry
        simpa using List.find?_eq_none.mp hspecial entry hentry
      · rintro ⟨entry, hentry, hinside⟩
        by_contra hpublic
        rw [if_neg (by simpa using hpublic), Option.map_eq_none_iff] at h
        exact List.find?_eq_none.mp h entry hentry hinside

/-- The headers hold credentials. -/
def Carries (headers : List (String × String)) : Prop :=
  ∃ header ∈ headers, isSensitive header.1 = true

section

variable {net : Net} {refuse : String → Policy → Bool → Option String} {rules : Policy}
  {timeoutMs : ℤ} {world : ℕ → Hop}

theorem target_ok {url : Url} {hop : Hop} {address : String}
    (h : target net refuse url rules hop = .ok address) :
    (url.protocol = "http:" ∨ url.protocol = "https:") ∧
      refuse address rules (rules.publicOrigin = some url.origin) = none := by
  simp only [target] at h
  split at h
  · nomatch h
  next hprotocol =>
  split at h
  · nomatch h
  split at h
  · nomatch h
  split at h
  · nomatch h
  split at h
  · nomatch h
  · nomatch h
  next first rest _ =>
  split at h
  · nomatch h
  next hchecked =>
  split at h
  · nomatch h
  next =>
    obtain rfl := Except.ok.inj h
    constructor
    · by_contra hneither
      rw [not_or] at hneither
      exact hprotocol hneither
    · exact List.findSome?_eq_none_iff.mp hchecked first (List.mem_cons_self ..)

theorem carries_once {request : HttpRequest} {url : Url} {address : String} :
    Carries (once request url address).headers ↔ Carries request.headers := by
  simp only [once]
  split
  · constructor
    · rintro ⟨header, hheader, hsensitive⟩
      rcases List.mem_append.mp hheader with hheader | hheader
      · exact ⟨header, hheader, hsensitive⟩
      · obtain rfl := List.mem_singleton.mp hheader
        have hlength : isSensitive "Content-Length" = false := by decide +kernel
        exact absurd (hlength.symm.trans hsensitive) (by decide)
    · rintro ⟨header, hheader, hsensitive⟩
      exact ⟨header, List.mem_append_left _ hheader, hsensitive⟩
  · exact Iff.rfl

/-- What a redirect leaves of the request. -/
theorem redirected_ok {current next : HttpRequest} {url nextUrl : Url} {answer : Answer}
    {location : String} (h : redirected net current url answer location = .ok (next, nextUrl)) :
    ¬(url.protocol = "https:" ∧ nextUrl.protocol = "http:") ∧
      (Carries next.headers → Carries current.headers ∧ nextUrl.origin = url.origin) := by
  simp only [redirected] at h
  split at h
  · nomatch h
  next parsed _ =>
  split at h
  · nomatch h
  next hdowngrade =>
    obtain ⟨rfl, rfl⟩ := Prod.mk.inj (Except.ok.inj h)
    refine ⟨hdowngrade, ?_⟩
    rintro ⟨header, hheader, hsensitive⟩
    dsimp only at hheader
    split at hheader
    · simp [hsensitive] at hheader
    next horigin => exact ⟨⟨header, hheader, hsensitive⟩, not_not.mp horigin⟩

/-- What holds of the connections of a request from one hop on. -/
structure Guarded (refuse : String → Policy → Bool → Option String) (rules : Policy)
    (remaining : ℕ) (current : HttpRequest) (url : Url) (made : List Connection) : Prop where
  length : made.length ≤ remaining + 1
  checked : ∀ connection ∈ made,
    refuse connection.address rules (rules.publicOrigin = some connection.url.origin) = none
  scheme : made ≠ [] → url.protocol = "http:" ∨ url.protocol = "https:"
  first : ∀ connection ∈ made, url.protocol = "https:" → connection.url.protocol = "https:"
  secure : made.Pairwise fun a b => a.url.protocol = "https:" → b.url.protocol = "https:"
  origin : ∀ connection ∈ made, Carries connection.headers →
    Carries current.headers ∧ connection.url.origin = url.origin
  kept : made.Pairwise fun a b => Carries b.headers → a.url.origin = b.url.origin

theorem guarded_nil (remaining : ℕ) (current : HttpRequest) (url : Url) :
    Guarded refuse rules remaining current url [] where
  length := Nat.zero_le _
  checked := fun _ h => nomatch h
  scheme := fun h => absurd rfl h
  first := fun _ h => nomatch h
  secure := .nil
  origin := fun _ h => nomatch h
  kept := .nil

theorem guarded_once (remaining : ℕ) {current : HttpRequest} {url : Url} {hop : Hop}
    {address : String} (h : target net refuse url rules hop = .ok address) :
    Guarded refuse rules remaining current url [once current url address] := by
  obtain ⟨hprotocol, hchecked⟩ := target_ok h
  constructor
  case length => simp
  case secure => exact List.pairwise_singleton _ _
  case kept => exact List.pairwise_singleton _ _
  case scheme => exact fun _ => hprotocol
  all_goals
    intro connection hconnection
    obtain rfl := List.mem_singleton.mp hconnection
  case checked => exact hchecked
  case first => exact fun hsecure => hsecure
  case origin => exact fun hcarries => ⟨carries_once.mp hcarries, rfl⟩

/-- A hop that redirects, followed by the hops after it. -/
theorem guarded_cons {remaining : ℕ} {current next : HttpRequest} {url nextUrl : Url} {hop : Hop}
    {address location : String} {answer : Answer} {rest : List Connection}
    (h : target net refuse url rules hop = .ok address)
    (hnext : redirected net current url answer location = .ok (next, nextUrl))
    (hrest : Guarded refuse rules remaining next nextUrl rest) :
    Guarded refuse rules (remaining + 1) current url (once current url address :: rest) := by
  obtain ⟨hprotocol, hchecked⟩ := target_ok h
  obtain ⟨hdowngrade, hcarries⟩ := redirected_ok hnext
  have hsecure : ∀ connection ∈ rest, url.protocol = "https:" →
      connection.url.protocol = "https:" := by
    intro connection hconnection hhttps
    apply hrest.first connection hconnection
    rcases hrest.scheme (List.ne_nil_of_mem hconnection) with hhttp | hsame
    · exact absurd ⟨hhttps, hhttp⟩ hdowngrade
    · exact hsame
  have hkept : ∀ connection ∈ rest, Carries connection.headers →
      Carries current.headers ∧ connection.url.origin = url.origin := by
    intro connection hconnection hcarried
    obtain ⟨hstart, horigin⟩ := hrest.origin connection hconnection hcarried
    obtain ⟨hcurrent, hsame⟩ := hcarries hstart
    exact ⟨hcurrent, horigin.trans hsame⟩
  constructor
  case length =>
    have hlength := hrest.length
    rw [List.length_cons]
    omega
  case scheme => exact fun _ => hprotocol
  case secure => exact List.pairwise_cons.mpr ⟨hsecure, hrest.secure⟩
  case kept =>
    refine List.pairwise_cons.mpr ⟨?_, hrest.kept⟩
    intro connection hconnection hcarried
    exact (hkept connection hconnection hcarried).2.symm
  all_goals
    intro connection hconnection
    rcases List.mem_cons.mp hconnection with rfl | hconnection
  case checked.inl => exact hchecked
  case checked.inr => exact hrest.checked connection hconnection
  case first.inl => exact fun hhttps => hhttps
  case first.inr => exact hsecure connection hconnection
  case origin.inl => exact fun hcarried => ⟨carries_once.mp hcarried, rfl⟩
  case origin.inr => exact hkept connection hconnection

/-- The whole chain, by induction on the redirects that may still follow. -/
theorem guarded_follow (remaining : ℕ) (current : HttpRequest) (url : Url) :
    Guarded refuse rules remaining current url
      (follow net refuse rules timeoutMs world remaining current url).1 := by
  induction remaining generalizing current url with
  | zero =>
    unfold follow
    dsimp only
    split
    · exact guarded_nil 0 current url
    next address haddress =>
    split
    · exact guarded_once 0 haddress
    next answer _ =>
    split
    · exact guarded_once 0 haddress
    · exact guarded_once 0 haddress
    next hremaining => nomatch hremaining
  | succ remaining ih =>
    unfold follow
    dsimp only
    split
    · exact guarded_nil _ current url
    next address haddress =>
    split
    · exact guarded_once _ haddress
    next answer _ =>
    split
    · exact guarded_once _ haddress
    next hremaining => nomatch hremaining
    next location remaining' _ hremaining =>
      obtain rfl := Nat.succ.inj hremaining
      split
      · exact guarded_once _ haddress
      next next nextUrl hnext => exact guarded_cons haddress hnext (ih next nextUrl)

end

/-- A request under the policy, whatever the resolver and the servers answer. -/
theorem perform_law (net : Net) (request : HttpRequest) (rules : Policy) (world : ℕ → Hop) :
    (perform net refusal request rules world).1.length ≤ MAX_REDIRECTS + 1 ∧
    (∀ connection ∈ (perform net refusal request rules world).1,
      Permitted rules connection.url.origin connection.address) ∧
    ((perform net refusal request rules world).1.Pairwise fun earlier later =>
      earlier.url.protocol = "https:" → later.url.protocol = "https:") ∧
    (perform net refusal request rules world).1.Pairwise fun earlier later =>
      Carries later.headers → earlier.url.origin = later.url.origin := by
  have hguarded : ∃ url, Guarded refusal rules MAX_REDIRECTS request url
      (perform net refusal request rules world).1 := by
    simp only [perform]
    split
    next => exact ⟨⟨"", "", "", "", none, "", ""⟩, guarded_nil _ _ _⟩
    next url _ => exact ⟨url, guarded_follow _ _ _⟩
  obtain ⟨url, hguarded⟩ := hguarded
  refine ⟨hguarded.length, ?_, hguarded.secure, hguarded.kept⟩
  intro connection hconnection
  exact permitted_of_refusal (hguarded.checked connection hconnection)

end Sbarbase.Scheduler.Proofs.Redirects
