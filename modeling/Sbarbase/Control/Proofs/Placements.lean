import Sbarbase.Control.Placement
import Sbarbase.Lib.Checked
import Mathlib.Logic.Basic
import Mathlib.Tactic.SplitIfs
/-!
# Checked placements

A placement that was checked passes the check again, as it is. Native placements
keep every field but the addresses, so the check leaves the generation alone.
-/

namespace Sbarbase.Control.Proofs.Placements

open Lib Lib.Checked Control Control.Placement

variable {parseUrl : String → Option Url}

/-! ## The platform's URLs -/

/-- What the URL standard says of the origin of an address: it is an address with
nothing but a scheme, a host and a port, and its own origin. -/
def OriginLaw (parseUrl : String → Option Url) : Prop :=
  ∀ text url, parseUrl text = some url → (url.protocol = "http:" ∨ url.protocol = "https:") →
    parseUrl url.origin = some ⟨url.protocol, "", "", "", "", "/", url.origin⟩

theorem text_eq_ok {value result : String} {pattern : String → Bool} :
    text value pattern = .ok result ↔ pattern value = true ∧ value = result := by
  unfold text
  split_ifs with h <;> simp [h]

theorem positive_eq_ok {value result : ℤ} :
    positive value = .ok result ↔ (isSafeInteger value && 1 ≤ value) = true ∧ value = result := by
  unfold positive
  split_ifs with h <;> simp [h]

theorem endpoint_again (hurl : OriginLaw parseUrl) {value result : String}
    (h : endpoint parseUrl value = .ok result) : endpoint parseUrl result = .ok result := by
  unfold endpoint at h
  cases hparse : parseUrl value with
  | none =>
      rw [hparse] at h
      cases h
  | some url =>
      simp only [hparse] at h
      split_ifs at h with hclean
      obtain rfl : url.origin = result := by injection h
      have hagain := hurl value url hparse hclean.1
      unfold endpoint
      simp only [hagain]
      rw [if_pos ⟨hclean.1, trivial, trivial, trivial, trivial, trivial⟩]

theorem validateServices_again (hurl : OriginLaw parseUrl) {value result : ServicePlacement}
    (h : validateServices parseUrl value = .ok result) :
    validateServices parseUrl result = .ok result := by
  unfold validateServices at h
  simp only [bind_eq_ok] at h
  obtain ⟨auth, hauth, rest, hrest, h⟩ := h
  cases hstorage : value.storage with
  | none =>
      simp only [hstorage, pure_eq_ok] at h
      subst h
      simp [validateServices, endpoint_again hurl hauth, endpoint_again hurl hrest, pure,
        Except.pure]
  | some storage =>
      simp only [hstorage, bind_eq_ok, pure_eq_ok] at h
      obtain ⟨url, hstorageUrl, tenantHost, htenant, rfl⟩ := h
      obtain ⟨hpattern, rfl⟩ := text_eq_ok.mp htenant
      simp [validateServices, endpoint_again hurl hauth, endpoint_again hurl hrest,
        endpoint_again hurl hstorageUrl, htenant, pure, Except.pure]

theorem validateDatabase_eq {value result : DatabaseIdentity}
    (h : validateDatabase value = .ok result) : value = result := by
  unfold validateDatabase at h
  simp only [bind_eq_ok] at h
  obtain ⟨oid, hoid, h⟩ := h
  obtain ⟨-, rfl⟩ := positive_eq_ok.mp hoid
  split_ifs at h
  simp only [bind_eq_ok, pure_eq_ok] at h
  obtain ⟨name, hname, rfl⟩ := h
  obtain ⟨-, rfl⟩ := text_eq_ok.mp hname
  rfl

/-- The check of a native placement rewrites its addresses only. -/
theorem validateNative_eq {value result : NativePlacement}
    (h : validateNative parseUrl value = .ok result) :
    ∃ services, validateServices parseUrl value.services = .ok services ∧
      result = { value with services := services } ∧
      ∀ again, validateServices parseUrl again = .ok services →
        validateNative parseUrl { value with services := again } = .ok result := by
  unfold validateNative at h
  simp only [bind_eq_ok] at h
  obtain ⟨application, happlication, maintenance, hmaintenance, h⟩ := h
  obtain rfl := validateDatabase_eq happlication
  obtain rfl := validateDatabase_eq hmaintenance
  split_ifs at h with hdistinct
  simp only [bind_eq_ok] at h
  obtain ⟨runtime, hruntime, ownership, hownership, generation, hgeneration, id, hid, container,
    hcontainer, image, himage, network, hnetwork, volume, hvolume, credential, hcredential,
    maintenanceCredential, hmaintenanceCredential, declaration, hdeclaration, services, hservices,
    h⟩ := h
  split_ifs at h with hcredentials
  rw [pure_eq_ok] at h
  subst h
  have hfields := fun {v r : String} {p : String → Bool} (ht : text v p = .ok r) =>
    (text_eq_ok.mp ht).2
  refine ⟨services, hservices, ?_, ?_⟩
  · rw [← hfields hruntime, ← hfields hownership, ← (positive_eq_ok.mp hgeneration).2,
      ← hfields hid, ← hfields hcontainer, ← hfields himage, ← hfields hnetwork,
      ← hfields hvolume, ← hfields hcredential, ← hfields hmaintenanceCredential,
      ← hfields hdeclaration]
  · intro again hagain
    unfold validateNative
    simp [happlication, hmaintenance, hdistinct, hruntime, hownership, hgeneration, hid,
      hcontainer, himage, hnetwork, hvolume, hcredential, hmaintenanceCredential, hdeclaration,
      hagain, hcredentials, pure, Except.pure]

theorem validatePlacement_again (hurl : OriginLaw parseUrl) {value result : RuntimePlacement}
    (h : validatePlacement parseUrl value = .ok result) :
    validatePlacement parseUrl result = .ok result := by
  cases value with
  | services value =>
      obtain ⟨services, hservices, rfl⟩ := map_eq_ok.mp h
      exact map_eq_ok.mpr ⟨services, validateServices_again hurl hservices, rfl⟩
  | native value =>
      obtain ⟨native, hnative, rfl⟩ := map_eq_ok.mp h
      obtain ⟨services, hservices, hresult, hagain⟩ := validateNative_eq hnative
      have hsame := hagain services (validateServices_again hurl hservices)
      rw [← hresult] at hsame
      exact map_eq_ok.mpr ⟨native, hsame, rfl⟩

/-! ## Generations -/

/-- The generation of a native placement. -/
def generation : Option RuntimePlacement → Option ℤ
  | some (.native placement) => some placement.generation
  | _ => none

theorem validatePlacement_generation {value result : RuntimePlacement}
    (h : validatePlacement parseUrl value = .ok result) :
    generation (some result) = generation (some value) := by
  cases value with
  | services value =>
      obtain ⟨services, -, rfl⟩ := map_eq_ok.mp h
      rfl
  | native value =>
      obtain ⟨native, hnative, rfl⟩ := map_eq_ok.mp h
      obtain ⟨services, -, rfl, -⟩ := validateNative_eq hnative
      rfl

/-- The generation stays, starts at one or grows by one. -/
def Follows (old new : Option ℤ) : Prop :=
  new = old ∨ (old = none ∧ new = some 1) ∨ ∃ g, old = some g ∧ new = some (g + 1)

theorem generation_transition {runtime : String} {current : Option RuntimePlacement}
    {next : RuntimePlacement} (h : validatePlacementTransition runtime current next = .ok ()) :
    Follows (generation current) (generation (some next)) := by
  unfold validatePlacementTransition at h
  split at h
  · cases h
  · rename_i services hnative
    cases current with
    | none => exact .inl rfl
    | some placement =>
        cases placement with
        | services services => exact .inl rfl
        | native native => exact (hnative native rfl).elim
  · rename_i next native
    split_ifs at h with _ _ hsame _ hnext
    · exact .inl (congrArg some hsame)
    · exact .inr (.inr ⟨native.generation, rfl, congrArg some (not_ne_iff.mp hnext)⟩)
  · rename_i next hnative
    split_ifs at h with _ hfirst
    have hone : generation (some (.native next)) = some 1 := congrArg some (not_ne_iff.mp hfirst)
    cases current with
    | none => exact .inr (.inl ⟨rfl, hone⟩)
    | some placement =>
        cases placement with
        | services services => exact .inr (.inl ⟨rfl, hone⟩)
        | native native => exact (hnative native rfl).elim

end Sbarbase.Control.Proofs.Placements
