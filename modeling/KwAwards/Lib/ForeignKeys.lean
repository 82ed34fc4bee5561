import KwAwards.Lib.Tables

/-! # Foreign keys

`Refers rows col t`: every value that the column `col` has in some row is the key of a row of `t`; a
null is `none`. It stays true when `t` keeps its keys (`Refers.keeps`), when the rows keep their
values (`Refers.mono`), when rows are added or saved whose values are keys (`Refers.append`,
`Refers.put`, `Refers.modify`), and when rows of `t` are deleted that no row refers to any more
(`Refers.filter`). -/

namespace KwAwards.Lib.ForeignKeys

open KwAwards.Lib.Tables

variable {α β κ : Type*} [Keyed β κ] [DecidableEq κ]

/-- Every reference of the rows is a key of the table. -/
def Refers (rows : List α) (col : α → Option κ) (t : Table β) : Prop :=
  ∀ r ∈ rows, ∀ k, col r = some k → (t.get? k).isSome = true

/-- The keys of a table are keys of another one. -/
def Keeps (t t' : Table β) : Prop := ∀ k, (t.get? k).isSome = true → (t'.get? k).isSome = true

theorem isSome_key {t : Table β} {k : κ} {row : β} (h : t.get? k = some row) :
    (t.get? (key row)).isSome = true :=
  Option.isSome_iff_exists.mpr ⟨row, Table.get?_key (Table.get?_eq_some.mp h).1⟩

theorem keeps_insert {t t' : Table β} {row : β} (h : t.insert row = some t') : Keeps t t' := by
  intro k hk
  rw [Table.get?_of_insert h]
  split_ifs
  · rfl
  · exact hk

theorem isSome_of_insert {t t' : Table β} {row : β} (h : t.insert row = some t') :
    (t'.get? (key row)).isSome = true := by
  rw [Table.get?_of_insert h, if_pos rfl]
  rfl

theorem keeps_put (t : Table β) (row : β) : Keeps t (t.put row) := by
  intro k hk
  rw [Table.get?_put]
  split_ifs
  · rfl
  · exact hk

theorem keeps_map (t : Table β) (f : β → β) (hf : ∀ r, key (f r) = key r) :
    Keeps t (t.map f hf) := by
  intro k hk
  rw [Table.get?_map, Option.isSome_map]
  exact hk

theorem keeps_modify (t : Table β) (k : κ) (f : β → β) (hf : ∀ r, key (f r) = key r) :
    Keeps t (t.modify k f hf) :=
  keeps_map t _ _

theorem keeps_of_append {t t' : Table β} {rows : List β} (h : t'.rows = t.rows ++ rows) :
    Keeps t t' := by
  intro k hk
  obtain ⟨r, hr⟩ := Option.isSome_iff_exists.mp hk
  obtain ⟨hmem, hkey⟩ := Table.get?_eq_some.mp hr
  have hmem' : r ∈ t'.rows := by
    rw [h]
    exact List.mem_append_left _ hmem
  exact Option.isSome_iff_exists.mpr ⟨r, Table.get?_eq_some.mpr ⟨hmem', hkey⟩⟩

variable {rows rows' : List α} {col : α → Option κ} {t t' : Table β}

theorem refers_nil : Refers ([] : List α) col t := fun _ hr => absurd hr List.not_mem_nil

theorem Refers.keeps (h : Refers rows col t) (hk : Keeps t t') : Refers rows col t' :=
  fun r hr k hcol => hk k (h r hr k hcol)

/-- Rows with the references of others. -/
theorem Refers.mono (h : Refers rows col t) (hrows : ∀ r' ∈ rows', ∃ r ∈ rows, col r' = col r) :
    Refers rows' col t := by
  intro r' hr' k hk
  obtain ⟨r, hr, hcol⟩ := hrows r' hr'
  exact h r hr k (hcol.symm.trans hk)

theorem Refers.append {r : α} (h : Refers rows col t)
    (hr : ∀ k, col r = some k → (t.get? k).isSome = true) :
    Refers (rows ++ [r]) col t := by
  intro r' hr' k hk
  rcases List.mem_append.mp hr' with hold | hnew
  · exact h r' hold k hk
  · rw [List.mem_singleton.mp hnew] at hk
    exact hr k hk

theorem Refers.put {κ' : Type*} [Keyed α κ'] [DecidableEq κ'] {s : Table α} {row : α}
    (h : Refers s.rows col t) (hrow : ∀ k, col row = some k → (t.get? k).isSome = true) :
    Refers (s.put row).rows col t := by
  intro r hr k hk
  rcases Table.mem_put.mp hr with rfl | ⟨hold, -⟩
  · exact hrow k hk
  · exact h r hold k hk

/-- A row that is changed keeps its reference. -/
theorem Refers.modify {κ' : Type*} [Keyed α κ'] [DecidableEq κ'] {s : Table α} {k : κ'} {f : α → α}
    {hkey : ∀ r, key (f r) = key r} (h : Refers s.rows col t) (hf : ∀ r, col (f r) = col r) :
    Refers (s.modify k f hkey).rows col t := by
  refine h.mono fun r' hr' => ?_
  obtain ⟨r, hr, rfl⟩ := List.mem_map.mp hr'
  refine ⟨r, hr, ?_⟩
  split_ifs
  · exact hf r
  · rfl

/-- Rows of the table that no row refers to any more are deleted. -/
theorem Refers.filter {p : β → Bool} (h : Refers rows col t) (hrows : ∀ r ∈ rows', r ∈ rows)
    (hp : ∀ r ∈ rows', ∀ x ∈ t.rows, col r = some (key x) → p x = true) :
    Refers rows' col (t.filter p) := by
  intro r hr k hk
  obtain ⟨x, hx⟩ := Option.isSome_iff_exists.mp (h r (hrows r hr) k hk)
  obtain ⟨hmem, rfl⟩ := Table.get?_eq_some.mp hx
  rw [Table.get?_filter, hx, Option.filter_some, if_pos (hp r hr x hmem hk)]
  rfl

end KwAwards.Lib.ForeignKeys
