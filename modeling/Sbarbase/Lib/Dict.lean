import Mathlib.Data.List.AList
import Mathlib.Algebra.BigOperators.Group.Finset.Basic
import Mathlib.Algebra.BigOperators.Group.List.Basic
import Mathlib.Tactic.Abel
/-!
# Dictionaries with counts

A JavaScript `Map` is an association list without repeated keys: Mathlib's
`AList` at a constant family. This module adds what maps of counters need,
the sum of the values and its change under one write, and the filter a loop
over the entries performs.
-/

namespace Sbarbase.Lib

/-- A finite map from `κ` to `ν`. -/
abbrev Dict (κ ν : Type*) := AList fun _ : κ => ν

namespace Dict

variable {κ ν : Type*}

section

variable [AddCommGroup ν]

/-- The sum of all values. -/
def sum (m : Dict κ ν) : ν := (m.entries.map Sigma.snd).sum

@[simp] theorem sum_empty : sum (∅ : Dict κ ν) = 0 := rfl

end

/-- The keys as a finite set. -/
def keySet (m : Dict κ ν) : Finset κ := ⟨m.keys, m.keys_nodup⟩

/-- A sum over the entries is a sum over the set of keys. -/
theorem sum_entries {μ : Type*} [AddCommMonoid μ] (m : Dict κ ν) (f : κ → μ) :
    (m.entries.map fun entry => f entry.1).sum = ∑ k ∈ m.keySet, f k := by
  simp only [keySet, Finset.sum_mk, Multiset.map_coe, Multiset.sum_coe,
    AList.keys, List.keys, List.map_map, Function.comp_def]

variable [DecidableEq κ]

/-- Maps are compared entry by entry, in the order they were written. -/
instance [DecidableEq ν] : DecidableEq (Dict κ ν) := fun m m' =>
  decidable_of_iff (m.entries = m'.entries) AList.ext_iff.symm

abbrev get (m : Dict κ ν) (k : κ) : Option ν := m.lookup k

abbrev set (m : Dict κ ν) (k : κ) (v : ν) : Dict κ ν := m.insert k v

abbrev delete (m : Dict κ ν) (k : κ) : Dict κ ν := m.erase k

def has (m : Dict κ ν) (k : κ) : Bool := (m.get k).isSome

theorem get_set (m : Dict κ ν) (k k' : κ) (v : ν) :
    (m.set k v).get k' = if k' = k then some v else m.get k' := by
  split_ifs with h
  · subst h
    exact AList.lookup_insert m
  · exact AList.lookup_insert_ne h

theorem get_delete (m : Dict κ ν) (k k' : κ) :
    (m.delete k).get k' = if k' = k then none else m.get k' := by
  split_ifs with h
  · subst h
    exact AList.lookup_erase k' m
  · exact AList.lookup_erase_ne h

theorem get_eq_some {m : Dict κ ν} {k : κ} {v : ν} : m.get k = some v ↔ ⟨k, v⟩ ∈ m.entries :=
  AList.mem_lookup_iff (s := m)

theorem get_union (m m' : Dict κ ν) (k : κ) : (m ∪ m').get k = (m.get k).or (m'.get k) := by
  by_cases hk : k ∈ m
  · rw [get, AList.lookup_union_left hk]
    obtain ⟨v, hv⟩ := Option.isSome_iff_exists.mp (AList.lookup_isSome.mpr hk)
    rw [get, hv, Option.some_or]
  · rw [get, AList.lookup_union_right hk, get, AList.lookup_eq_none.mpr hk, Option.none_or]

/-- Keep the entries that satisfy `p`. -/
def filter (p : κ → ν → Bool) (m : Dict κ ν) : Dict κ ν where
  entries := m.entries.filter fun entry => p entry.1 entry.2
  nodupKeys := m.nodupKeys.sublist List.filter_sublist

theorem get_filter (p : κ → ν → Bool) (m : Dict κ ν) (k : κ) :
    (m.filter p).get k = (m.get k).filter (p k) := by
  apply Option.ext
  intro v
  rw [Option.filter_eq_some_iff, get_eq_some, get_eq_some]
  simp [filter]

/-! ## Loops -/

section

variable {α : Type*}

/-- A loop whose passes write one key each leaves the other keys alone. -/
theorem get_foldl_of_ne {f : Dict κ ν → α → Dict κ ν} {key : α → κ}
    (hother : ∀ m a k, k ≠ key a → (f m a).get k = m.get k) (items : List α) (m : Dict κ ν) {k : κ}
    (hk : ∀ a ∈ items, k ≠ key a) : (items.foldl f m).get k = m.get k := by
  induction items generalizing m with
  | nil => rfl
  | cons a items ih =>
      rw [List.foldl_cons, ih _ fun b hb => hk b (List.mem_cons_of_mem a hb),
        hother m a k (hk a List.mem_cons_self)]

/-- A loop whose passes write one key each, each of them its own, writes what the pass
of that key does. -/
theorem get_foldl_of_mem {f : Dict κ ν → α → Dict κ ν} {key : α → κ}
    (hother : ∀ m a k, k ≠ key a → (f m a).get k = m.get k) {items : List α}
    (hnodup : (items.map key).Nodup) (m : Dict κ ν) {a : α} (ha : a ∈ items)
    (hself : ∀ m m' : Dict κ ν, m.get (key a) = m'.get (key a) →
      (f m a).get (key a) = (f m' a).get (key a)) :
    (items.foldl f m).get (key a) = (f m a).get (key a) := by
  induction items generalizing m with
  | nil => cases ha
  | cons b items ih =>
      rw [List.map_cons, List.nodup_cons, List.mem_map] at hnodup
      obtain ⟨hfresh, hnodup⟩ := hnodup
      rw [List.foldl_cons]
      by_cases hab : key a = key b
      · have hlast : ∀ c ∈ items, key a ≠ key c := by
          intro c hc heq
          exact hfresh ⟨c, hc, by rw [← heq, hab]⟩
        rcases List.mem_cons.mp ha with rfl | hmem
        · exact get_foldl_of_ne hother items _ hlast
        · exact absurd rfl (hlast a hmem)
      · rcases List.mem_cons.mp ha with rfl | hmem
        · exact absurd rfl hab
        · rw [ih hnodup (f m b) hmem]
          exact hself _ _ (hother m b _ hab)

end

@[simp] theorem mem_keySet {m : Dict κ ν} {k : κ} : k ∈ m.keySet ↔ ∃ v, m.get k = some v := by
  rw [← Option.isSome_iff_exists, AList.lookup_isSome]
  exact Iff.rfl

/-- The sum of the values over any set that has all keys. -/
theorem sum_eq_of_subset [AddCommGroup ν] (m : Dict κ ν) {keys : Finset κ}
    (hkeys : ∀ k ∉ keys, m.get k = none) : m.sum = ∑ k ∈ keys, (m.get k).getD 0 := by
  have hentries : m.sum = ∑ k ∈ m.keySet, (m.get k).getD 0 := by
    rw [← sum_entries, sum]
    congr 1
    apply List.map_congr_left
    rintro ⟨k, v⟩ hmem
    have hget : m.get k = some v := get_eq_some.mpr hmem
    rw [hget, Option.getD_some]
  rw [hentries]
  refine Finset.sum_subset ?_ ?_
  · intro k hk
    obtain ⟨v, hv⟩ := mem_keySet.mp hk
    by_contra hnot
    rw [hkeys k hnot] at hv
    cases hv
  · intro k _ hk
    have hnone : m.get k = none := by
      by_contra hsome
      exact hk (mem_keySet.mpr (Option.ne_none_iff_exists'.mp hsome))
    rw [hnone, Option.getD_none]

end Dict

end Sbarbase.Lib
