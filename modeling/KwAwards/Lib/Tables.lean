import Mathlib.Tactic
import Mathlib.Data.List.Nodup

/-! # Tables with a primary key

A table is a list of rows with pairwise distinct keys, so a key names at most one row (`eq_of_key`)
and `get?` does not depend on the order of the rows (`get?_eq_some`). Inserting a row whose key is
taken is refused. Updates go through maps that keep every key, deletions through `filter`; each
operation comes with what it does to `get?`. -/

namespace KwAwards.Lib.Tables

/-- The primary key of a row. -/
class Keyed (α : Type*) (κ : outParam Type*) where
  key : α → κ

export Keyed (key)

variable {α κ : Type*} [Keyed α κ]

/-- Rows with pairwise distinct primary keys. -/
structure Table (α : Type*) {κ : Type*} [Keyed α κ] where
  rows : List α
  nodup : (rows.map (key : α → κ)).Nodup

namespace Table

theorem ext_rows {t u : Table α} (h : t.rows = u.rows) : t = u := by
  cases t; cases u; cases h; rfl

/-- The table without rows. -/
def empty : Table α := ⟨[], by simp⟩

@[simp] theorem rows_empty : (empty : Table α).rows = [] := rfl

/-- A key names at most one row. -/
theorem eq_of_key {t : Table α} {r r' : α} (hr : r ∈ t.rows) (hr' : r' ∈ t.rows)
    (h : key r = key r') : r = r' :=
  List.inj_on_of_nodup_map t.nodup hr hr' h

/-- Apply to every row a map that keeps its key. -/
def map (t : Table α) (f : α → α) (hf : ∀ r, key (f r) = key r) : Table α where
  rows := t.rows.map f
  nodup := by
    have : (key : α → κ) ∘ f = key := funext hf
    rw [List.map_map, this]; exact t.nodup

@[simp] theorem rows_map (t : Table α) (f : α → α) (hf : ∀ r, key (f r) = key r) :
    (t.map f hf).rows = t.rows.map f := rfl

/-- Keep the rows that satisfy `p`. -/
def filter (t : Table α) (p : α → Bool) : Table α where
  rows := t.rows.filter p
  nodup := t.nodup.sublist (List.filter_sublist.map _)

@[simp] theorem rows_filter (t : Table α) (p : α → Bool) :
    (t.filter p).rows = t.rows.filter p := rfl

section Lookup
variable [DecidableEq κ]

/-- The row with the key `k`. -/
def get? (t : Table α) (k : κ) : Option α := t.rows.find? fun r => key r = k

theorem get?_eq_some {t : Table α} {k : κ} {r : α} :
    t.get? k = some r ↔ r ∈ t.rows ∧ key r = k := by
  constructor
  · intro h
    exact ⟨List.mem_of_find?_eq_some h, by simpa using List.find?_some h⟩
  · rintro ⟨hr, rfl⟩
    cases hf : t.get? (key r) with
    | none =>
      have := List.find?_eq_none.mp hf r hr
      simp at this
    | some r' =>
      have hk : key r' = key r := by simpa using List.find?_some hf
      rw [eq_of_key (List.mem_of_find?_eq_some hf) hr hk]

theorem get?_eq_none {t : Table α} {k : κ} : t.get? k = none ↔ ∀ r ∈ t.rows, key r ≠ k := by
  simp [get?, List.find?_eq_none]

theorem get?_key {t : Table α} {r : α} (hr : r ∈ t.rows) : t.get? (key r) = some r :=
  get?_eq_some.mpr ⟨hr, rfl⟩

theorem key_of_get? {t : Table α} {k : κ} {r : α} (h : t.get? k = some r) : key r = k :=
  (get?_eq_some.mp h).2

/-- Insert a row; refused when its key is taken. -/
def insert (t : Table α) (r : α) : Option (Table α) :=
  if h : t.get? (key r) = none then
    some {
      rows := t.rows ++ [r]
      nodup := by
        rw [List.map_append, List.nodup_append]
        refine ⟨t.nodup, by simp, ?_⟩
        intro a ha b hb hab
        obtain ⟨r', hr', rfl⟩ := List.mem_map.mp ha
        simp only [List.map_cons, List.map_nil, List.mem_singleton] at hb
        exact get?_eq_none.mp h r' hr' (hab.trans hb) }
  else none

theorem insert_eq_some {t t' : Table α} {r : α} :
    t.insert r = some t' ↔ t.get? (key r) = none ∧ t'.rows = t.rows ++ [r] := by
  unfold insert
  split_ifs with h
  · simp only [Option.some.injEq, h, true_and]
    exact ⟨fun e => e ▸ rfl, fun e => ext_rows e.symm⟩
  · simp [h]

theorem get?_of_insert {t t' : Table α} {r : α} (h : t.insert r = some t') (k : κ) :
    t'.get? k = if k = key r then some r else t.get? k := by
  obtain ⟨hn, hr⟩ := insert_eq_some.mp h
  unfold get? at hn ⊢
  rw [hr, List.find?_append]
  split_ifs with hk
  · subst hk; rw [hn]; simp
  · simp [Ne.symm hk]

theorem get?_map (t : Table α) (f : α → α) (hf : ∀ r, key (f r) = key r) (k : κ) :
    (t.map f hf).get? k = (t.get? k).map f := by
  unfold get?
  rw [rows_map, List.find?_map]
  simp [hf]

/-- Apply `f` to the row with the key `k`. -/
def modify (t : Table α) (k : κ) (f : α → α) (hf : ∀ r, key (f r) = key r) : Table α :=
  t.map (fun r => if key r = k then f r else r) fun r => by split_ifs <;> simp [hf]

@[simp] theorem rows_modify (t : Table α) (k : κ) (f : α → α) (hf : ∀ r, key (f r) = key r) :
    (t.modify k f hf).rows = t.rows.map fun r => if key r = k then f r else r := rfl

theorem get?_modify (t : Table α) (k : κ) (f : α → α) (hf : ∀ r, key (f r) = key r) (k' : κ) :
    (t.modify k f hf).get? k' = if k' = k then (t.get? k).map f else t.get? k' := by
  unfold modify
  rw [get?_map]
  cases h : t.get? k' with
  | none =>
    split_ifs with hk
    · subst hk; rw [h]; rfl
    · rfl
  | some r =>
    have hr := key_of_get? h
    split_ifs with hk
    · subst hk; rw [h]; simp [hr]
    · simp [hr, hk]

/-- Save a row: in the place of the row with its key, else as a new row. -/
def put (t : Table α) (row : α) : Table α :=
  (t.insert row).getD <| t.map (fun r => if key r = key row then row else r) fun r => by
    split_ifs with h
    · exact h.symm
    · rfl

theorem get?_put (t : Table α) (row : α) (k : κ) :
    (t.put row).get? k = if k = key row then some row else t.get? k := by
  unfold put
  cases hi : t.insert row with
  | some t' => exact get?_of_insert hi k
  | none =>
    have hsome : ∃ r, t.get? (key row) = some r := by
      refine Option.ne_none_iff_exists'.mp fun hn => ?_
      unfold insert at hi
      rw [dif_pos hn] at hi
      simp at hi
    obtain ⟨r, hr⟩ := hsome
    rw [Option.getD_none, get?_map]
    by_cases hk : k = key row
    · subst hk
      rw [hr, Option.map_some, if_pos (key_of_get? hr), if_pos rfl]
    · rw [if_neg hk]
      cases hg : t.get? k with
      | none => rfl
      | some r' => rw [Option.map_some, if_neg (key_of_get? hg ▸ hk)]

/-- Saving a row whose key is there replaces that row in its place. -/
theorem rows_put_of_get? {t : Table α} {row r : α} (h : t.get? (key row) = some r) :
    (t.put row).rows = t.rows.map fun r => if key r = key row then row else r := by
  have hi : t.insert row = none := by
    unfold insert
    rw [dif_neg (by rw [h]; simp)]
  unfold put
  rw [hi]
  rfl

/-- What rows stand for, when each row that changes stands for the same as before or for nothing. -/
theorem filterMap_map_sublist {β : Type*} {f : α → α} {g : α → Option β} {l : List α}
    (h : ∀ r ∈ l, g (f r) = g r ∨ g (f r) = none) :
    List.Sublist ((l.map f).filterMap g) (l.filterMap g) := by
  induction l with
  | nil => exact List.Sublist.refl _
  | cons r l ih =>
    have htail := ih fun r hr => h r (List.mem_cons_of_mem _ hr)
    rw [List.map_cons, List.filterMap_cons, List.filterMap_cons]
    obtain hr | hr := h r List.mem_cons_self
    · rw [hr]
      cases g r with
      | none => exact htail
      | some b => exact htail.cons_cons b
    · rw [hr]
      cases g r with
      | none => exact htail
      | some b => exact htail.cons b

/-- Saving a row that stands for the same as the row in its place, or for nothing. -/
theorem filterMap_put_sublist {β : Type*} {t : Table α} {row r : α} (h : t.get? (key row) = some r)
    {g : α → Option β} (hg : g row = g r ∨ g row = none) :
    List.Sublist ((t.put row).rows.filterMap g) (t.rows.filterMap g) := by
  rw [rows_put_of_get? h]
  refine filterMap_map_sublist fun r' hr' => ?_
  split_ifs with hk
  · rw [eq_of_key hr' (get?_eq_some.mp h).1 (hk.trans (get?_eq_some.mp h).2.symm)]
    exact hg
  · exact Or.inl rfl

/-- The rows after a save: the saved one, and the others as they were. -/
theorem mem_put {t : Table α} {row r : α} :
    r ∈ (t.put row).rows ↔ r = row ∨ (r ∈ t.rows ∧ key r ≠ key row) := by
  constructor
  · intro h
    have hget := get?_key h
    rw [get?_put] at hget
    split_ifs at hget with hk
    · exact Or.inl (Option.some.inj hget).symm
    · exact Or.inr ⟨(get?_eq_some.mp hget).1, hk⟩
  · rintro (rfl | ⟨hr, hk⟩)
    · have hget : (t.put r).get? (key r) = some r := by rw [get?_put, if_pos rfl]
      exact (get?_eq_some.mp hget).1
    · have hget : (t.put row).get? (key r) = some r := by
        rw [get?_put, if_neg hk]
        exact get?_key hr
      exact (get?_eq_some.mp hget).1

theorem get?_filter (t : Table α) (p : α → Bool) (k : κ) :
    (t.filter p).get? k = (t.get? k).filter p := by
  cases h : t.get? k with
  | none =>
    rw [Option.filter_none, get?_eq_none]
    exact fun r hr => get?_eq_none.mp h r (List.mem_of_mem_filter hr)
  | some r =>
    obtain ⟨hr, hk⟩ := get?_eq_some.mp h
    rw [Option.filter_some]
    split_ifs with hp
    · exact get?_eq_some.mpr ⟨List.mem_filter.mpr ⟨hr, hp⟩, hk⟩
    · rw [get?_eq_none]
      intro r' hr' hk'
      obtain ⟨hm, hp'⟩ := List.mem_filter.mp hr'
      rw [eq_of_key hm hr (hk'.trans hk.symm)] at hp'
      exact hp hp'

end Lookup

end Table

end KwAwards.Lib.Tables
