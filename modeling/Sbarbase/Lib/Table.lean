import Mathlib.Algebra.Ring.Int.Defs
import Mathlib.Algebra.BigOperators.Group.List.Basic
import Mathlib.Data.List.Nodup
/-!
# Tables with a primary key

A table is a list of rows without two rows of one key, the proof being part of
the table. An insert of a key that is taken fails, as the constraint of a
database does.
-/

namespace Sbarbase.Lib

/-- A search finds the only element that satisfies its condition. -/
theorem find?_eq_some_of_unique {α : Type*} {p : α → Bool} {l : List α} {a : α}
    (ha : a ∈ l) (hp : p a) (hunique : ∀ b ∈ l, p b → b = a) : l.find? p = some a := by
  cases hfind : l.find? p with
  | none => exact absurd hp (List.find?_eq_none.mp hfind a ha)
  | some b =>
      rw [hunique b (List.mem_of_find?_eq_some hfind) (List.find?_some hfind)]

/-- Rows with distinct keys. -/
structure Table {ρ κ : Type*} (key : ρ → κ) where
  rows : List ρ
  distinct : (rows.map key).Nodup

namespace Table

variable {ρ κ : Type*} {key : ρ → κ}

def empty : Table key := ⟨[], List.nodup_nil⟩

/-- Two rows with one key are one row. -/
theorem eq_of_key (t : Table key) {a b : ρ} (ha : a ∈ t.rows) (hb : b ∈ t.rows)
    (h : key a = key b) : a = b :=
  List.inj_on_of_nodup_map t.distinct ha hb h

/-- A condition that one row satisfies counts one row. -/
theorem countP_eq_one (t : Table key) {p : ρ → Bool} {row : ρ} (hrow : row ∈ t.rows)
    (hp : p row = true) (hunique : ∀ old ∈ t.rows, p old = true → key old = key row) :
    t.rows.countP p = 1 := by
  obtain ⟨before, after, hrows⟩ := List.append_of_mem hrow
  have hdistinct := t.distinct
  rw [hrows, List.map_append, List.map_cons, List.nodup_append] at hdistinct
  obtain ⟨-, hcons, hdisjoint⟩ := hdistinct
  have hbefore : before.countP p = 0 := by
    rw [List.countP_eq_zero]
    intro old hold hpold
    have hkey := hunique old (by rw [hrows]; exact List.mem_append_left _ hold) hpold
    exact hdisjoint _ (List.mem_map_of_mem hold) _ List.mem_cons_self hkey
  have hafter : after.countP p = 0 := by
    rw [List.countP_eq_zero]
    intro old hold hpold
    have hkey := hunique old
      (by rw [hrows]; exact List.mem_append_right _ (List.mem_cons_of_mem _ hold)) hpold
    apply (List.nodup_cons.mp hcons).1
    rw [← hkey]
    exact List.mem_map_of_mem hold
  rw [hrows, List.countP_append, List.countP_cons, hbefore, hafter, if_pos hp]

/-- Change the rows that satisfy `p` without touching their keys. -/
def modify (t : Table key) (p : ρ → Bool) (f : ρ → ρ) (hf : ∀ row, key (f row) = key row) :
    Table key where
  rows := t.rows.map fun row => if p row then f row else row
  distinct := by
    rw [List.map_map]
    have hkeys : (key ∘ fun row => if p row then f row else row) = key := by
      funext row
      simp only [Function.comp_apply]
      split_ifs
      · exact hf row
      · rfl
    rw [hkeys]
    exact t.distinct

theorem mem_modify {t : Table key} {p : ρ → Bool} {f : ρ → ρ}
    {hf : ∀ row, key (f row) = key row} {row : ρ} :
    row ∈ (t.modify p f hf).rows ↔ ∃ old ∈ t.rows, (if p old then f old else old) = row :=
  List.mem_map

/-- Keep the rows that satisfy `p`. -/
def keep (t : Table key) (p : ρ → Bool) : Table key where
  rows := t.rows.filter p
  distinct := (t.distinct.sublist (List.filter_sublist.map key))

theorem rows_keep (t : Table key) (p : ρ → Bool) : (t.keep p).rows = t.rows.filter p := rfl

theorem mem_keep {t : Table key} {p : ρ → Bool} {row : ρ} :
    row ∈ (t.keep p).rows ↔ row ∈ t.rows ∧ p row :=
  List.mem_filter

section

variable [DecidableEq κ]

/-- The row of a key. -/
def get (t : Table key) (k : κ) : Option ρ := t.rows.find? fun row => key row = k

theorem get_eq_some {t : Table key} {k : κ} {row : ρ} :
    t.get k = some row ↔ row ∈ t.rows ∧ key row = k := by
  constructor
  · intro h
    exact ⟨List.mem_of_find?_eq_some h, by simpa using List.find?_some h⟩
  · rintro ⟨hmem, hkey⟩
    apply find?_eq_some_of_unique hmem (decide_eq_true hkey)
    intro old hold hk
    exact t.eq_of_key hold hmem ((of_decide_eq_true hk).trans hkey.symm)

theorem get_eq_none {t : Table key} {k : κ} : t.get k = none ↔ ∀ row ∈ t.rows, key row ≠ k := by
  simp [get]

/-- `INSERT`: nothing if the key is taken. -/
def insert (t : Table key) (row : ρ) : Option (Table key) :=
  if h : key row ∈ t.rows.map key then none
  else some ⟨t.rows ++ [row], by
    rw [List.map_append, List.map_cons, List.map_nil, ← List.concat_eq_append]
    exact t.distinct.concat h⟩

theorem insert_eq_some {t t' : Table key} {row : ρ} (h : t.insert row = some t') :
    t'.rows = t.rows ++ [row] ∧ ∀ old ∈ t.rows, key old ≠ key row := by
  unfold insert at h
  split_ifs at h with hkey
  obtain rfl := Option.some.inj h
  refine ⟨rfl, fun old hold heq => hkey ?_⟩
  exact List.mem_map.mpr ⟨old, hold, heq⟩

theorem insert_eq_none {t : Table key} {row : ρ} :
    t.insert row = none ↔ ∃ old ∈ t.rows, key old = key row := by
  unfold insert
  split_ifs with hkey <;> simpa using hkey

/-- `INSERT … ON CONFLICT DO UPDATE`: the row replaces the one of its key. -/
def put (t : Table key) (row : ρ) : Table key :=
  if h : key row ∈ t.rows.map key then
    { rows := t.rows.map fun old => if key old = key row then row else old
      distinct := by
        rw [List.map_map]
        have hkeys : (key ∘ fun old => if key old = key row then row else old) = key := by
          funext old
          simp only [Function.comp_apply]
          split_ifs with heq
          · exact heq.symm
          · rfl
        rw [hkeys]
        exact t.distinct }
  else
    { rows := t.rows ++ [row]
      distinct := by
        rw [List.map_append, List.map_cons, List.map_nil, ← List.concat_eq_append]
        exact t.distinct.concat h }

theorem mem_put {t : Table key} {row other : ρ} :
    other ∈ (t.put row).rows ↔ other = row ∨ (other ∈ t.rows ∧ key other ≠ key row) := by
  unfold put
  split_ifs with hkey
  · obtain ⟨taken, htaken, heq⟩ := List.mem_map.mp hkey
    simp only [List.mem_map]
    constructor
    · rintro ⟨old, hold, hother⟩
      split_ifs at hother with hk
      · exact .inl hother.symm
      · exact .inr ⟨hother ▸ hold, hother ▸ hk⟩
    · rintro (rfl | ⟨hmem, hne⟩)
      · exact ⟨taken, htaken, if_pos heq⟩
      · exact ⟨other, hmem, if_neg hne⟩
  · simp only [List.mem_append, List.mem_singleton]
    constructor
    · rintro (hmem | rfl)
      · refine .inr ⟨hmem, fun heq => hkey ?_⟩
        exact List.mem_map.mpr ⟨other, hmem, heq⟩
      · exact .inl rfl
    · rintro (rfl | ⟨hmem, -⟩)
      · exact .inr rfl
      · exact .inl hmem

theorem get_put (t : Table key) (row : ρ) (k : κ) :
    (t.put row).get k = if key row = k then some row else t.get k := by
  split_ifs with hkey
  · exact get_eq_some.mpr ⟨mem_put.mpr (.inl rfl), hkey⟩
  · cases hget : t.get k with
    | some old =>
        obtain ⟨hold, hk⟩ := get_eq_some.mp hget
        refine get_eq_some.mpr ⟨mem_put.mpr (.inr ⟨hold, ?_⟩), hk⟩
        exact fun h => hkey (h.symm.trans hk)
    | none =>
        rw [get_eq_none] at hget ⊢
        intro other hother
        rcases mem_put.mp hother with rfl | ⟨hold, _⟩
        · exact hkey
        · exact hget other hold

theorem get_keep_key (t : Table key) (p : κ → Bool) (k : κ) :
    (t.keep fun row => p (key row)).get k = if p k then t.get k else none := by
  by_cases hp : p k = true
  · rw [if_pos hp]
    cases hget : t.get k with
    | some old =>
        obtain ⟨hold, hk⟩ := get_eq_some.mp hget
        exact get_eq_some.mpr ⟨mem_keep.mpr ⟨hold, by rw [hk]; exact hp⟩, hk⟩
    | none =>
        rw [get_eq_none] at hget ⊢
        intro other hother
        exact hget other (mem_keep.mp hother).1
  · rw [if_neg hp, get_eq_none]
    intro other hother hk
    exact hp (hk ▸ (mem_keep.mp hother).2)

/-- The row of a key stands between rows of other keys. -/
theorem rows_eq_of_get {t : Table key} {k : κ} {row : ρ} (h : t.get k = some row) :
    ∃ before after, t.rows = before ++ row :: after ∧
      (∀ old ∈ before, key old ≠ k) ∧ ∀ old ∈ after, key old ≠ k := by
  obtain ⟨hmem, rfl⟩ := get_eq_some.mp h
  obtain ⟨before, after, hrows⟩ := List.append_of_mem hmem
  have hdistinct := t.distinct
  rw [hrows, List.map_append, List.map_cons, List.nodup_append, List.nodup_cons] at hdistinct
  obtain ⟨-, ⟨hafter, -⟩, hbefore⟩ := hdistinct
  refine ⟨before, after, hrows, fun old hold => ?_, fun old hold heq => ?_⟩
  · exact hbefore _ (List.mem_map_of_mem hold) _ List.mem_cons_self
  · exact hafter (List.mem_map.mpr ⟨old, hold, heq⟩)

theorem rows_put_of_none {t : Table key} {row : ρ} (h : t.get (key row) = none) :
    (t.put row).rows = t.rows ++ [row] := by
  have hkey : key row ∉ t.rows.map key := by
    rw [List.mem_map]
    rintro ⟨old, hold, heq⟩
    exact get_eq_none.mp h old hold heq
  rw [put, dif_neg hkey]

theorem rows_put_of_some {t : Table key} {row old : ρ} (h : t.get (key row) = some old) :
    (t.put row).rows = t.rows.map fun other => if key other = key row then row else other := by
  obtain ⟨hold, heq⟩ := get_eq_some.mp h
  rw [put, dif_pos (List.mem_map.mpr ⟨old, hold, heq⟩)]

/-- A row that replaces another moves a sum over the rows by the difference. -/
theorem sum_put (t : Table key) (row : ρ) (f : ρ → ℤ) : ((t.put row).rows.map f).sum =
      (t.rows.map f).sum + (f row - ((t.get (key row)).map f).getD 0) := by
  cases hget : t.get (key row) with
  | none =>
      rw [rows_put_of_none hget, List.map_append, List.sum_append]
      simp
  | some old =>
      obtain ⟨before, after, hrows, hbefore, hafter⟩ := rows_eq_of_get hget
      have hsame : ∀ rows : List ρ, (∀ other ∈ rows, key other ≠ key row) →
          rows.map (fun other => if key other = key row then row else other) = rows := by
        intro rows hne
        conv_rhs => rw [← List.map_id' rows]
        exact List.map_congr_left fun other hother => if_neg (hne other hother)
      rw [rows_put_of_some hget, hrows, List.map_append, List.map_cons, hsame before hbefore,
        hsame after hafter, if_pos (get_eq_some.mp hget).2]
      simp only [List.map_append, List.map_cons, List.sum_append, List.sum_cons, Option.map_some,
        Option.getD_some]
      omega

/-- A row that goes takes its part of a sum over the rows with it. -/
theorem sum_keep_ne (t : Table key) (k : κ) (f : ρ → ℤ) :
    ((t.keep fun row => key row ≠ k).rows.map f).sum =
      (t.rows.map f).sum - ((t.get k).map f).getD 0 := by
  have hsame : ∀ rows : List ρ, (∀ other ∈ rows, key other ≠ k) →
      rows.filter (fun other => decide (key other ≠ k)) = rows := fun rows hne =>
    List.filter_eq_self.mpr fun other hother => decide_eq_true (hne other hother)
  cases hget : t.get k with
  | none =>
      rw [rows_keep, hsame _ (get_eq_none.mp hget)]
      simp
  | some old =>
      obtain ⟨before, after, hrows, hbefore, hafter⟩ := rows_eq_of_get hget
      have hgone : ¬ key old ≠ k := not_not.mpr (get_eq_some.mp hget).2
      rw [rows_keep, hrows, List.filter_append, List.filter_cons_of_neg (by simpa using hgone),
        hsame before hbefore, hsame after hafter]
      simp only [List.map_append, List.map_cons, List.sum_append, List.sum_cons, Option.map_some,
        Option.getD_some]
      omega

theorem get_modify (t : Table key) (p : ρ → Bool) (f : ρ → ρ) (hf : ∀ row, key (f row) = key row)
    (k : κ) :
    (t.modify p f hf).get k = (t.get k).map fun row => if p row then f row else row := by
  have hkey : ∀ row, key (if p row then f row else row) = key row := by
    intro row
    split_ifs
    · exact hf row
    · rfl
  change (t.rows.map _).find? _ = _
  rw [List.find?_map]
  congr 1
  apply congrArg (fun q => t.rows.find? q)
  funext row
  exact congrArg (fun key' => decide (key' = k)) (hkey row)

end

/-! ## How a table changes -/

/-- Every row of `t` is still there, changed by `R`, and the other rows satisfy `N`. -/
def Evolves (R : ρ → ρ → Prop) (N : ρ → Prop) (t t' : Table key) : Prop :=
  ∃ (f : ρ → ρ) (new : List ρ), t'.rows = t.rows.map f ++ new ∧
    (∀ row ∈ t.rows, key (f row) = key row ∧ R row (f row)) ∧ ∀ row ∈ new, N row

section

variable {R : ρ → ρ → Prop} {N : ρ → Prop} {t t' t'' : Table key}

theorem Evolves.refl (hR : ∀ row, R row row) (t : Table key) : Evolves R N t t :=
  ⟨fun row => row, [], by simp, fun row _ => ⟨rfl, hR row⟩, by simp⟩

theorem Evolves.trans (hR : ∀ a b c, R a b → R b c → R a c) (hN : ∀ a b, N a → R a b → N b)
    (h : Evolves R N t t') (h' : Evolves R N t' t'') : Evolves R N t t'' := by
  obtain ⟨f, new, hrows, hf, hnew⟩ := h
  obtain ⟨g, newer, hrows', hg, hnewer⟩ := h'
  refine ⟨fun row => g (f row), new.map g ++ newer, ?_, ?_, ?_⟩
  · rw [hrows', hrows, List.map_append, List.map_map, List.append_assoc]
    rfl
  · intro row hrow
    have hmem : f row ∈ t'.rows := by
      rw [hrows]
      exact List.mem_append_left _ (List.mem_map_of_mem hrow)
    exact ⟨(hg _ hmem).1.trans (hf row hrow).1, hR _ _ _ (hf row hrow).2 (hg _ hmem).2⟩
  · intro row hrow
    rcases List.mem_append.mp hrow with hold | hnew'
    · obtain ⟨old, hold, hmap⟩ := List.mem_map.mp hold
      have hmem : old ∈ t'.rows := by
        rw [hrows]
        exact List.mem_append_right _ hold
      exact hmap ▸ hN old (g old) (hnew old hold) (hg old hmem).2
    · exact hnewer row hnew'

theorem evolves_of_rows {f : ρ → ρ} (hrows : t'.rows = t.rows.map f)
    (h : ∀ row ∈ t.rows, key (f row) = key row ∧ R row (f row)) : Evolves R N t t' :=
  ⟨f, [], by rw [hrows, List.append_nil], h, by simp⟩

theorem evolves_modify (hR : ∀ row, R row row) {p : ρ → Bool} {f : ρ → ρ}
    (hf : ∀ row, key (f row) = key row) (h : ∀ row ∈ t.rows, p row = true → R row (f row)) :
    Evolves R N t (t.modify p f hf) := by
  refine ⟨fun row => if p row then f row else row, [], (List.append_nil _).symm, ?_, by simp⟩
  intro row hrow
  dsimp only
  split_ifs with hp
  · exact ⟨hf row, h row hrow hp⟩
  · exact ⟨rfl, hR row⟩

theorem evolves_insert [DecidableEq κ] (hR : ∀ row, R row row) {row : ρ}
    (h : t.insert row = some t') (hrow : N row) : Evolves R N t t' := by
  refine ⟨fun row => row, [row], ?_, fun old _ => ⟨rfl, hR old⟩, by simpa using hrow⟩
  rw [(insert_eq_some h).1, List.map_id']

theorem evolves_put [DecidableEq κ] (hR : ∀ row, R row row) {row : ρ}
    (hold : ∀ old ∈ t.rows, key old = key row → R old row)
    (hnew : (∀ old ∈ t.rows, key old ≠ key row) → N row) : Evolves R N t (t.put row) := by
  unfold put
  split_ifs with hkey
  · apply evolves_of_rows (f := fun old => if key old = key row then row else old) rfl
    intro old hmem
    split_ifs with heq
    · exact ⟨heq.symm, hold old hmem heq⟩
    · exact ⟨rfl, hR old⟩
  · refine ⟨fun old => old, [row], by simp, fun old _ => ⟨rfl, hR old⟩, ?_⟩
    intro new hmem
    rw [List.mem_singleton.mp hmem]
    apply hnew
    intro old hold heq
    exact hkey (List.mem_map.mpr ⟨old, hold, heq⟩)

/-- Where a row of the later table comes from. -/
theorem Evolves.mem (h : Evolves R N t t') {row : ρ} (hrow : row ∈ t'.rows) :
    (∃ old ∈ t.rows, key row = key old ∧ R old row) ∨ N row := by
  obtain ⟨f, new, hrows, hf, hnew⟩ := h
  rw [hrows, List.mem_append] at hrow
  rcases hrow with hmap | hmem
  · obtain ⟨old, hold, rfl⟩ := List.mem_map.mp hmap
    exact .inl ⟨old, hold, (hf old hold).1, (hf old hold).2⟩
  · exact .inr (hnew row hmem)

/-- What became of a row of the earlier table. -/
theorem Evolves.persists (h : Evolves R N t t') {row : ρ} (hrow : row ∈ t.rows) :
    ∃ row' ∈ t'.rows, key row' = key row ∧ R row row' := by
  obtain ⟨f, new, hrows, hf, hnew⟩ := h
  refine ⟨f row, ?_, hf row hrow⟩
  rw [hrows]
  exact List.mem_append_left _ (List.mem_map_of_mem hrow)

end

end Table

end Sbarbase.Lib
