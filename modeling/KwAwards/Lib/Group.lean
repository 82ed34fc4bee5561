import Mathlib.Tactic

/-! # Groups of rows

`groupSum key val l` is the `GROUP BY` with a sum: the keys that occur in `l`, each with the sum of
the values of its rows. `lookup_groupSum` reads a group, `sum_fibres` adds up the groups again.

`groupRows key row l` makes a row of every group, by whatever aggregates. Sums over the groups are
sums over the rows (`sum_groupRows`), distinct values are counted at least once (`distinct_le_sum`),
and a row that goes leaves the other groups as they are (`mem_groupRows_of_ne`). -/

namespace KwAwards.Lib.Group

variable {α κ : Type*} [DecidableEq κ]

/-- The sum of the values of the rows with the key `k`. -/
def sumAt (key : α → κ) (val : α → ℕ) (l : List α) (k : κ) : ℕ :=
  ((l.filter fun a => key a = k).map val).sum

/-- The keys of `l`, each with the sum of the values of its rows. -/
def groupSum (key : α → κ) (val : α → ℕ) (l : List α) : List (κ × ℕ) :=
  (l.map key).dedup.map fun k => (k, sumAt key val l k)

theorem sumAt_cons (key : α → κ) (val : α → ℕ) (a : α) (l : List α) (k : κ) :
    sumAt key val (a :: l) k = (if key a = k then val a else 0) + sumAt key val l k := by
  unfold sumAt
  rw [List.filter_cons]
  split_ifs with h h' h'
  · rw [List.map_cons, List.sum_cons]
  · exact absurd (of_decide_eq_true h) h'
  · exact absurd (decide_eq_true h') h
  · rw [Nat.zero_add]

/-- A group is the sum of its rows with `p` and of its rows without. -/
theorem sumAt_filter_add (key : α → κ) (val : α → ℕ) (p q : α → Bool) (hq : ∀ a, q a = !p a)
    (l : List α) (k : κ) :
    sumAt key val (l.filter p) k + sumAt key val (l.filter q) k = sumAt key val l k := by
  induction l with
  | nil => rfl
  | cons a l ih =>
    rw [List.filter_cons, List.filter_cons, hq a, sumAt_cons, ← ih]
    cases p a
    · simp only [Bool.false_eq_true, if_false, Bool.not_false, if_true, sumAt_cons]
      omega
    · simp only [if_true, Bool.not_true, Bool.false_eq_true, if_false, sumAt_cons]
      omega

theorem sumAt_eq_zero {key : α → κ} {val : α → ℕ} {l : List α} {k : κ} (h : k ∉ l.map key) :
    sumAt key val l k = 0 := by
  have hnil : (l.filter fun a => key a = k) = [] := by
    rw [List.filter_eq_nil_iff]
    intro a ha hk
    exact h (List.mem_map.mpr ⟨a, ha, of_decide_eq_true hk⟩)
  rw [sumAt, hnil]; rfl

theorem lookup_pairs (f : κ → ℕ) (k : κ) (ks : List κ) :
    (ks.map fun k => (k, f k)).lookup k = if k ∈ ks then some (f k) else none := by
  induction ks with
  | nil => rfl
  | cons k' ks ih =>
    rw [List.map_cons, List.lookup_cons]
    by_cases h : k = k'
    · subst h
      rw [beq_self_eq_true, if_pos List.mem_cons_self]
    · rw [show (k == k') = false by simp [h]]
      show List.lookup k (ks.map fun k => (k, f k)) = _
      rw [ih]
      simp [h]

/-- The entry of a key, zero for a key without rows. -/
theorem lookup_groupSum (key : α → κ) (val : α → ℕ) (l : List α) (k : κ) :
    ((groupSum key val l).lookup k).getD 0 = sumAt key val l k := by
  rw [groupSum, lookup_pairs]
  split_ifs with h
  · rfl
  · rw [List.mem_dedup] at h
    rw [sumAt_eq_zero h]; rfl

theorem sum_ite_eq (k : κ) (v : ℕ) {ks : List κ} (h : ks.Nodup) :
    (ks.map fun k' => if k = k' then v else 0).sum = if k ∈ ks then v else 0 := by
  induction ks with
  | nil => rfl
  | cons k' ks ih =>
    obtain ⟨hk, hn⟩ := List.nodup_cons.mp h
    rw [List.map_cons, List.sum_cons, ih hn]
    by_cases he : k = k'
    · subst he; simp [hk]
    · simp [he]

/-- **The groups add up** to the whole when every row's key is among the keys. -/
theorem sum_fibres (key : α → κ) (val : α → ℕ) {ks : List κ} (hks : ks.Nodup) {l : List α}
    (h : ∀ a ∈ l, key a ∈ ks) : (ks.map (sumAt key val l)).sum = (l.map val).sum := by
  induction l with
  | nil =>
    have h0 : sumAt key val [] = fun _ => 0 := rfl
    simp [h0]
  | cons a l ih =>
    have hl := ih fun b hb => h b (List.mem_cons_of_mem _ hb)
    have ha : key a ∈ ks := h a List.mem_cons_self
    calc (ks.map (sumAt key val (a :: l))).sum
        = (ks.map fun k => (if key a = k then val a else 0) + sumAt key val l k).sum := by
          rw [show sumAt key val (a :: l) = _ from funext (sumAt_cons key val a l)]
      _ = (ks.map fun k => if key a = k then val a else 0).sum +
            (ks.map (sumAt key val l)).sum := List.sum_map_add ..
      _ = val a + (l.map val).sum := by rw [sum_ite_eq _ _ hks, if_pos ha, hl]
      _ = ((a :: l).map val).sum := by rw [List.map_cons, List.sum_cons]

/-- The groups of some keys add up to the rows with those keys. -/
theorem sum_keys (key : α → κ) (val : α → ℕ) {ks : List κ} (hks : ks.Nodup) (l : List α) :
    (ks.map (sumAt key val l)).sum = ((l.filter fun a => key a ∈ ks).map val).sum := by
  rw [← sum_fibres key val hks fun a ha => of_decide_eq_true (List.mem_filter.mp ha).2]
  refine congrArg List.sum (List.map_congr_left fun k hk => ?_)
  unfold sumAt
  rw [List.filter_filter]
  refine congrArg (fun l : List α => (l.map val).sum) (List.filter_congr fun a _ => ?_)
  by_cases h : key a = k
  · simp [h, hk]
  · simp [h]

/-- The rows with `p` and the rows without add up to the whole. -/
theorem sum_filter_add (val : α → ℕ) (p : α → Bool) (l : List α) :
    ((l.filter fun a => !p a).map val).sum + ((l.filter p).map val).sum = (l.map val).sum := by
  have hperm := ((List.filter_append_perm p l).map val).sum_eq
  rw [List.map_append, List.sum_append] at hperm
  omega

/-! ### One row for every group -/

/-- The rows with the key `k`. -/
def group (key : α → κ) (l : List α) (k : κ) : List α := l.filter fun a => key a = k

/-- `GROUP BY key`: a row for every key that occurs. -/
def groupRows {ρ : Type*} (key : α → κ) (row : κ → List α → ρ) (l : List α) : List ρ :=
  (l.map key).dedup.map fun k => row k (group key l k)

/-- `COUNT(DISTINCT f)`. -/
def distinct {γ : Type*} [DecidableEq γ] (f : α → γ) (l : List α) : ℕ := (l.map f).dedup.length

variable {ρ γ : Type*} [DecidableEq γ] {key : α → κ} {row : κ → List α → ρ}

theorem mem_groupRows {l : List α} {r : ρ} :
    r ∈ groupRows key row l ↔ ∃ a ∈ l, row (key a) (group key l (key a)) = r := by
  simp [groupRows]

/-- Every group is there once. -/
theorem nodup_groupRows {l : List α} (f : ρ → κ) (hf : ∀ k g, f (row k g) = k) :
    ((groupRows key row l).map f).Nodup := by
  have hkeys : (groupRows key row l).map f = (l.map key).dedup := by
    unfold groupRows
    rw [List.map_map]
    exact (List.map_congr_left fun k _ => hf k _).trans (List.map_id _)
  rw [hkeys]
  exact List.nodup_dedup _

theorem sum_groupRows (val : α → ℕ) (f : ρ → ℕ) (hf : ∀ k g, f (row k g) = (g.map val).sum)
    (l : List α) : ((groupRows key row l).map f).sum = (l.map val).sum := by
  have hmap : (groupRows key row l).map f = (l.map key).dedup.map (sumAt key val l) := by
    unfold groupRows
    rw [List.map_map]
    exact List.map_congr_left fun k _ => hf k _
  rw [hmap]
  exact sum_fibres key val (List.nodup_dedup _) fun a ha =>
    List.mem_dedup.mpr (List.mem_map_of_mem ha)

theorem distinct_le_length (f : α → γ) (l : List α) : distinct f l ≤ l.length := by
  unfold distinct
  rw [← List.card_toFinset, ← List.length_map f]
  exact List.toFinset_card_le _

/-- **A value is in one group at least.** -/
theorem distinct_le_sum (f : α → γ) (d : ρ → ℕ) (hd : ∀ k g, d (row k g) = distinct f g)
    (l : List α) :
    distinct f l ≤ ((groupRows key row l).map d).sum := by
  have hsub : (l.map f).toFinset ⊆
      (l.map key).toFinset.biUnion fun k => ((group key l k).map f).toFinset := by
    intro x hx
    obtain ⟨a, ha, rfl⟩ := List.mem_map.mp (List.mem_toFinset.mp hx)
    refine Finset.mem_biUnion.mpr ⟨key a, List.mem_toFinset.mpr (List.mem_map_of_mem ha), ?_⟩
    exact List.mem_toFinset.mpr (List.mem_map_of_mem (List.mem_filter.mpr ⟨ha, decide_eq_true rfl⟩))
  have hsum : ((groupRows key row l).map d).sum =
      ∑ k ∈ (l.map key).toFinset, ((group key l k).map f).toFinset.card := by
    have hdedup : (l.map key).toFinset = (l.map key).dedup.toFinset := by ext; simp
    rw [hdedup, List.sum_toFinset _ (List.nodup_dedup _)]
    unfold groupRows
    rw [List.map_map]
    refine congrArg List.sum (List.map_congr_left fun k _ => ?_)
    rw [Function.comp_apply, hd, List.card_toFinset]
    rfl
  rw [hsum, distinct, ← List.card_toFinset]
  exact (Finset.card_le_card hsub).trans Finset.card_biUnion_le

/-! ### A row that goes -/

section Erase

variable {l₁ l₂ : List α} {a : α}

theorem group_of_ne {k : κ} (h : k ≠ key a) :
    group key (l₁ ++ a :: l₂) k = group key (l₁ ++ l₂) k := by
  unfold group
  rw [List.filter_append, List.filter_append, List.filter_cons_of_neg]
  rw [decide_eq_true_eq]
  exact h.symm

theorem group_self : group key (l₁ ++ a :: l₂) (key a) =
    group key l₁ (key a) ++ a :: group key l₂ (key a) := by
  unfold group
  rw [List.filter_append, List.filter_cons, if_pos (decide_eq_true rfl)]

/-- The other groups have the rows they had. -/
theorem mem_groupRows_of_ne (f : ρ → κ) (hf : ∀ k g, f (row k g) = k) {r : ρ} (h : f r ≠ key a) :
    r ∈ groupRows key row (l₁ ++ l₂) ↔ r ∈ groupRows key row (l₁ ++ a :: l₂) := by
  rw [mem_groupRows, mem_groupRows]
  constructor
  · rintro ⟨b, hb, rfl⟩
    rw [hf] at h
    refine ⟨b, ?_, by rw [group_of_ne h]⟩
    rcases List.mem_append.mp hb with hb | hb
    · exact List.mem_append_left _ hb
    · exact List.mem_append_right _ (List.mem_cons_of_mem _ hb)
  · rintro ⟨b, hb, rfl⟩
    rw [hf] at h
    refine ⟨b, ?_, by rw [group_of_ne h]⟩
    rcases List.mem_append.mp hb with hb | hb
    · exact List.mem_append_left _ hb
    · rcases List.mem_cons.mp hb with rfl | hb
      · exact absurd rfl h
      · exact List.mem_append_right _ hb

/-- From the rows `before` to the rows `after` one changes: the one with the key `k` has `q` less,
and is gone when it has none left. -/
structure OneRowLess {κ ρ : Type*} (key : ρ → κ) (value : ρ → ℕ) (k : κ) (q : ℕ)
    (before after : List ρ) :
    Prop where
  others : ∀ r, key r ≠ k → (r ∈ after ↔ r ∈ before)
  less : ∃ r ∈ before, key r = k ∧ ((value r = q ∧ ∀ r' ∈ after, key r' ≠ k) ∨
    ∃ r' ∈ after, key r' = k ∧ value r' + q = value r)

theorem OneRowLess.congr {κ ρ : Type*} {f : ρ → κ} {value : ρ → ℕ} {k : κ} {q : ℕ}
    {before before' after after' : List ρ} (h : OneRowLess f value k q before after)
    (hb : ∀ r, r ∈ before' ↔ r ∈ before) (ha : ∀ r, r ∈ after' ↔ r ∈ after) :
    OneRowLess f value k q before' after' where
  others r hr := by rw [ha, hb, h.others r hr]
  less := by
    obtain ⟨r, hr, hk, h⟩ := h.less
    refine ⟨r, (hb r).mpr hr, hk, h.imp (fun h => ⟨h.1, fun r' hr' => h.2 r' ((ha r').mp hr')⟩) ?_⟩
    rintro ⟨r', hr', h⟩
    exact ⟨r', (ha r').mpr hr', h⟩

/-- The keys may be read more coarsely when no other row than the one in question reads as it
does. -/
theorem OneRowLess.mapKey {κ κ' ρ : Type*} (g : κ → κ') {f : ρ → κ} {value : ρ → ℕ} {k : κ} {q : ℕ}
    {before after : List ρ} (h : OneRowLess f value k q before after)
    (ha : ∀ r ∈ after, g (f r) = g k → f r = k) :
    OneRowLess (fun r => g (f r)) value (g k) q before after where
  others r hr := h.others r fun he => hr (congrArg g he)
  less := by
    obtain ⟨r, hr, hk, h⟩ := h.less
    refine ⟨r, hr, congrArg g hk,
      h.imp (fun h => ⟨h.1, fun r' hr' he => h.2 r' hr' (ha r' hr' he)⟩) ?_⟩
    rintro ⟨r', hr', hk', hvalue⟩
    exact ⟨r', hr', congrArg g hk', hvalue⟩

/-- **When a row goes, its group has its value less**, and no other group changes. -/
theorem oneRowLess_groupRows (key : α → κ) (row : κ → List α → ρ) (f : ρ → κ)
    (hf : ∀ k g, f (row k g) = k) (value : ρ → ℕ) (val : α → ℕ)
    (hv : ∀ k g, value (row k g) = (g.map val).sum) (l₁ l₂ : List α) (a : α) :
    OneRowLess f value (key a) (val a) (groupRows key row (l₁ ++ a :: l₂))
      (groupRows key row (l₁ ++ l₂)) where
  others r hr := mem_groupRows_of_ne f hf hr
  less := by
    have hgroup : group key (l₁ ++ l₂) (key a) = group key l₁ (key a) ++ group key l₂ (key a) :=
      List.filter_append ..
    have hvalue : value (row (key a) (group key (l₁ ++ a :: l₂) (key a))) =
        ((group key (l₁ ++ l₂) (key a)).map val).sum + val a := by
      rw [hv, group_self, hgroup]
      simp only [List.map_append, List.map_cons, List.sum_append, List.sum_cons]
      omega
    refine ⟨row (key a) (group key (l₁ ++ a :: l₂) (key a)),
      mem_groupRows.mpr ⟨a, by simp, rfl⟩, hf _ _, ?_⟩
    by_cases hlast : key a ∈ (l₁ ++ l₂).map key
    · obtain ⟨b, hb, hkey⟩ := List.mem_map.mp hlast
      refine Or.inr ⟨_, mem_groupRows.mpr ⟨b, hb, rfl⟩, by rw [hf, hkey], ?_⟩
      rw [hkey, hvalue, hv]
    · refine Or.inl ⟨?_, fun r hr hk => hlast ?_⟩
      · have hzero : ((group key (l₁ ++ l₂) (key a)).map val).sum = 0 := sumAt_eq_zero hlast
        rw [hvalue, hzero, zero_add]
      · obtain ⟨b, hb, rfl⟩ := mem_groupRows.mp hr
        rw [← hk, hf]
        exact List.mem_map_of_mem hb

end Erase

end KwAwards.Lib.Group
