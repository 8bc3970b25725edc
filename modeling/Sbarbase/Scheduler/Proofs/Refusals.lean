import Sbarbase.Scheduler.Egress
import Sbarbase.Scheduler.Proofs.AddressText
/-!
# What the policy refuses

An IPv4-mapped address is refused as the IPv4 address it holds. The other ranges
that hold one are refused whole. An own address is refused in every spelling.
-/

namespace Sbarbase.Scheduler.Proofs.Refusals

open Lib AddressText

/-- The text is a spelling of the address; a mapped spelling is one of an IPv4 address. -/
def Stands (text : String) (address : Address) : Prop :=
  ∃ spelled, parseAddress text.toList = some spelled ∧ unmapped spelled = address

/-! ## Ranges -/

theorem masked_eq_iff {width : ℕ} {bits : ℤ} {value base : ℕ} :
    masked width bits value = masked width bits base ↔
      value >>> (width - bits.toNat) = base >>> (width - bits.toNat) := by
  unfold masked
  constructor
  · intro h
    rw [Nat.shiftLeft_eq, Nat.shiftLeft_eq] at h
    exact Nat.eq_of_mul_eq_mul_right (Nat.two_pow_pos _) h
  · intro h
    rw [h]

theorem masked_width (width value : ℕ) : masked width width value = value := by
  simp [masked]

theorem mem_special : (⟨.six, 0, 96, "IPv4 compatible"⟩ : Range) ∈ SPECIAL ∧
    ⟨.six, 0x64ff9b <<< 96, 96, "NAT64"⟩ ∈ SPECIAL ∧
    ⟨.six, 0x64ff9b0001 <<< 80, 48, "NAT64"⟩ ∈ SPECIAL ∧
    ⟨.six, 0x2002 <<< 112, 16, "6to4"⟩ ∈ SPECIAL := by
  decide

theorem inside_mapped_iff {value : ℕ} : inside MAPPED ⟨.six, value⟩ = true ↔ value >>> 32 = 0xffff := by
  have hbase : MAPPED.base = masked 128 96 0xffff00000000 := by decide
  have hshift : 0xffff00000000 >>> (128 - Int.toNat 96) = 0xffff := by decide
  simp only [inside, Bool.and_eq_true, decide_eq_true_eq, hbase]
  change _ ∧ masked 128 96 value = _ ↔ _
  rw [masked_eq_iff, hshift]
  constructor
  · exact fun h => h.2
  · exact fun h => ⟨rfl, h⟩

theorem unmapped_four (value : ℕ) : unmapped ⟨.four, value⟩ = ⟨.four, value⟩ := by
  rw [unmapped, if_neg]
  exact fun h => nomatch h.1

theorem unmapped_mapped {value : ℕ} (h : value < 2 ^ 32) :
    unmapped ⟨.six, 0xffff00000000 + value⟩ = ⟨.four, value⟩ := by
  have hmapped : inside MAPPED ⟨.six, 0xffff00000000 + value⟩ = true := by
    rw [inside_mapped_iff, Nat.shiftRight_eq_div_pow]
    omega
  have hlow : (0xffff00000000 + value) &&& 0xffffffff = value := by
    rw [show (0xffffffff : ℕ) = 2 ^ 32 - 1 by decide, Nat.and_two_pow_sub_one_eq_mod]
    omega
  rw [unmapped, if_pos ⟨rfl, hmapped⟩, hlow]

theorem unmapped_six {value : ℕ} (h : value >>> 32 ≠ 0xffff) :
    unmapped ⟨.six, value⟩ = ⟨.six, value⟩ := by
  rw [unmapped, if_neg]
  exact fun hmapped => h (inside_mapped_iff.mp hmapped.2)

/-! ## Refusals -/

section

variable {rules : Policy} {publicOrigin : Bool} {text : String} {address : Address}

/-- The refusal depends on the address a text stands for, not on its spelling. -/
theorem refusal_congr {other : String} (h : Stands text address) (hother : Stands other address) :
    refusal text rules publicOrigin = refusal other rules publicOrigin := by
  obtain ⟨spelled, hspelled, hunmapped⟩ := h
  obtain ⟨spelled', hspelled', hunmapped'⟩ := hother
  simp only [refusal, hspelled, hspelled', hunmapped, hunmapped']

theorem refusal_special (h : Stands text address) {entry : Range} (hentry : entry ∈ SPECIAL)
    (hinside : inside entry address = true) : refusal text rules publicOrigin ≠ none := by
  obtain ⟨spelled, hspelled, hunmapped⟩ := h
  simp only [refusal, hspelled, hunmapped]
  split
  · exact Option.some_ne_none _
  next hnone => exact absurd hinside (List.find?_eq_none.mp hnone entry hentry)

theorem refusal_own (h : Stands text address) {entry : Range} (hentry : entry ∈ rules.own)
    (hinside : inside entry address = true) : refusal text rules false ≠ none := by
  obtain ⟨spelled, hspelled, hunmapped⟩ := h
  simp only [refusal, hspelled, hunmapped]
  split
  · exact Option.some_ne_none _
  next =>
    rw [if_neg (by decide), ne_eq, Option.map_eq_none_iff]
    intro hnone
    exact List.find?_eq_none.mp hnone entry hentry hinside

/-- An IPv6 address whose first bits are those of a special range. -/
theorem refusal_prefix {value base : ℕ} {bits : ℤ} {label : String}
    (h : parseAddress text.toList = some ⟨.six, value⟩) (hmapped : value >>> 32 ≠ 0xffff)
    (hentry : ⟨.six, base, bits, label⟩ ∈ SPECIAL) (hbase : base = masked 128 bits base)
    (hleading : value >>> (128 - bits.toNat) = base >>> (128 - bits.toNat)) :
    refusal text rules publicOrigin ≠ none := by
  refine refusal_special ⟨_, h, unmapped_six hmapped⟩ hentry ?_
  simp only [inside, Bool.and_eq_true, decide_eq_true_eq]
  refine ⟨trivial, ?_⟩
  change masked 128 bits value = base
  rw [masked_eq_iff.mpr hleading, ← hbase]

theorem refusal_embedding {value : ℕ} (h : parseAddress text.toList = some ⟨.six, value⟩)
    (hrange : value < 2 ^ 32 ∨ value >>> 32 = 0x64ff9b <<< 64 ∨ value >>> 80 = 0x64ff9b0001 ∨
      value >>> 112 = 0x2002) : refusal text rules publicOrigin ≠ none := by
  obtain ⟨hcompatible, hnat, hlocal, hsix⟩ := mem_special
  have hmapped : value >>> 32 ≠ 0xffff := by
    simp only [Nat.shiftRight_eq_div_pow, Nat.shiftLeft_eq] at hrange ⊢
    omega
  rcases hrange with hrange | hrange | hrange | hrange
  · refine refusal_prefix h hmapped hcompatible (by decide) ?_
    change value >>> 32 = 0 >>> 32
    simp only [Nat.shiftRight_eq_div_pow]
    omega
  · exact refusal_prefix h hmapped hnat (by decide) hrange
  · exact refusal_prefix h hmapped hlocal (by decide) hrange
  · exact refusal_prefix h hmapped hsix (by decide) hrange

end

section

variable {parse : String → Option Url} {exotic : List Char → Except String ℤ} {input : PolicyInput}

theorem own_of_address {own : String} {address : Address} (hown : own ∈ input.addresses)
    (haddress : parseAddress own.toList = some address) :
    ⟨address.v, address.value, address.v.width, "this server"⟩ ∈ (policy parse exotic input).own := by
  apply List.mem_append_left
  refine List.mem_filterMap.mpr ⟨own, hown, ?_⟩
  rw [haddress]
  rfl

theorem own_of_subnet {subnet : String} {entry : Range} (hsubnet : subnet ∈ input.subnets)
    (hentry : range exotic subnet.toList "a Docker network" = .ok entry) :
    entry ∈ (policy parse exotic input).own := by
  apply List.mem_append_right
  refine List.mem_filterMap.mpr ⟨subnet, hsubnet, ?_⟩
  rw [hentry]
  rfl

theorem range_of_size {network size : List Char} {base : Address} {bits : ℤ} {label : String}
    (hnetwork : '/' ∉ network) (hsize : '/' ∉ size) (hbase : parseAddress network = some base)
    (hbits : sizeOf exotic size = .ok bits) :
    range exotic (network ++ '/' :: size) label =
      .ok ⟨base.v, masked base.v.width bits base.value, bits, label⟩ := by
  have hparts : (network ++ '/' :: size).splitOn '/' = [network, size] := by
    rw [List.splitOn_append_cons_self_of_not_mem hnetwork, List.splitOn_eq_singleton hsize]
  simp only [range, hparts, List.getD_cons_zero, hbase, List.getElem?_cons_succ,
    List.getElem?_cons_zero, hbits]
  rfl

end

end Sbarbase.Scheduler.Proofs.Refusals
