import Mathlib.Data.List.Dedup
import Mathlib.Data.List.Forall2
import Mathlib.Data.List.Sort
import Mathlib.Tactic

/-! # Read-only views of rows

A resource that is listed and retrieved: the rows of a query are filtered by the parameters of the
request, searched, put in order, cut into pages and serialised (`list`, `retrieve`). What is
declared for the resource is a `View`, what the framework and the database do with it a `Backend`.

Two queries whose rows are related one by one give the same response when nothing that is declared
tells related rows apart: `list_eq` and `agree_retrieve`. -/

namespace KwAwards.Lib.ListViews

open List (Forall₂)

/-! ### Order -/

/-- A term of an `ORDER BY`. -/
structure Term (α κ : Type*) where
  column : α → κ
  descending : Bool := false

section Order

variable {α κ : Type*} (cmp : κ → κ → Ordering)

def Term.compare (t : Term α κ) (a b : α) : Ordering :=
  if t.descending then cmp (t.column b) (t.column a) else cmp (t.column a) (t.column b)

/-- The same column, the other way round. -/
def Term.reverse (t : Term α κ) : Term α κ := { t with descending := !t.descending }

/-- The term on rows that a row of the column's table is joined to. -/
def Term.on {β : Type*} (t : Term α κ) (f : β → α) : Term β κ :=
  ⟨fun b => t.column (f b), t.descending⟩

def compareRows : List (Term α κ) → α → α → Ordering
  | [], _, _ => .eq
  | t :: ts, a, b => (t.compare cmp a b).then (compareRows ts a b)

/-- **Rows in order**; rows that tie stay in the order they are in. -/
def orderBy (terms : List (Term α κ)) (rows : List α) : List α :=
  rows.insertionSort fun a b => (compareRows cmp terms a b).isLE = true

instance transCmp_term [Std.TransCmp cmp] (t : Term α κ) : Std.TransCmp (t.compare cmp) where
  eq_swap {a b} := by
    unfold Term.compare
    split_ifs
    · exact Std.OrientedCmp.eq_swap
    · exact Std.OrientedCmp.eq_swap
  isLE_trans {a b c} hab hbc := by
    unfold Term.compare at *
    split_ifs at *
    · exact Std.TransCmp.isLE_trans hbc hab
    · exact Std.TransCmp.isLE_trans hab hbc

instance transCmp_compareRows [Std.TransCmp cmp] (terms : List (Term α κ)) :
    Std.TransCmp (compareRows cmp terms) := by
  induction terms with
  | nil => exact { eq_swap := rfl, isLE_trans := fun _ _ => rfl }
  | cons t ts ih =>
    exact inferInstanceAs (Std.TransCmp (compareLex (t.compare cmp) (compareRows cmp ts)))

theorem mem_orderBy {terms : List (Term α κ)} {rows : List α} {a : α} :
    a ∈ orderBy cmp terms rows ↔ a ∈ rows :=
  List.mem_insertionSort _

theorem perm_orderBy (terms : List (Term α κ)) (rows : List α) :
    List.Perm (orderBy cmp terms rows) rows :=
  List.perm_insertionSort _ _

/-- Inserting into rows that are in order, of which a condition then takes some. -/
theorem filter_orderedInsert {r : α → α → Prop} [DecidableRel r] [IsTrans α r] (p : α → Bool)
    (a : α) {rows : List α} (h : rows.Pairwise r) : (rows.orderedInsert r a).filter p =
      if p a then (rows.filter p).orderedInsert r a else rows.filter p := by
  induction rows with
  | nil =>
    by_cases ha : p a
    · simp [ha]
    · simp [ha]
  | cons b rows ih =>
    obtain ⟨hb, hrows⟩ := List.pairwise_cons.mp h
    by_cases hab : r a b
    · rw [List.orderedInsert_cons_of_le _ _ hab]
      by_cases ha : p a
      · rw [List.filter_cons_of_pos ha, if_pos ha]
        -- `a` stands before everything that is left
        rcases hf : (b :: rows).filter p with _ | ⟨c, cs⟩
        · rfl
        · have hc : c ∈ b :: rows := List.mem_of_mem_filter (hf ▸ List.mem_cons_self)
          have hac : r a c := by
            rcases List.mem_cons.mp hc with rfl | hc
            · exact hab
            · exact trans_of r hab (hb c hc)
          rw [List.orderedInsert_cons_of_le _ _ hac]
      · rw [List.filter_cons_of_neg ha, if_neg ha]
    · rw [List.orderedInsert_of_not_le _ _ hab]
      by_cases hpb : p b
      · rw [List.filter_cons_of_pos hpb, List.filter_cons_of_pos hpb, ih hrows]
        split_ifs
        · rw [List.orderedInsert_of_not_le _ _ hab]
        · rfl
      · rw [List.filter_cons_of_neg hpb, List.filter_cons_of_neg hpb, ih hrows]

/-- **A condition may be applied before or after ordering.** -/
theorem filter_orderBy [Std.TransCmp cmp] (terms : List (Term α κ)) (p : α → Bool) (rows : List α) :
    (orderBy cmp terms rows).filter p = orderBy cmp terms (rows.filter p) := by
  have htotal : Std.Total fun a b => (compareRows cmp terms a b).isLE = true := ⟨fun a b => by
    by_cases h : (compareRows cmp terms a b).isLE = true
    · exact Or.inl h
    · exact Or.inr (Ordering.isLE_of_eq_lt (Std.OrientedCmp.lt_of_not_isLE h))⟩
  have htrans : IsTrans α fun a b => (compareRows cmp terms a b).isLE = true :=
    ⟨fun _ _ _ => Std.TransCmp.isLE_trans⟩
  unfold orderBy
  induction rows with
  | nil => rfl
  | cons a rows ih =>
    rw [List.insertionSort_cons, filter_orderedInsert p a (List.pairwise_insertionSort _ rows), ih]
    by_cases ha : p a
    · rw [if_pos ha, List.filter_cons_of_pos ha, List.insertionSort_cons]
    · rw [if_neg ha, List.filter_cons_of_neg ha]

end Order

/-- Rows joined with what they refer to, of which a condition takes some. -/
theorem map_filter_filterMap {α β : Type*} {g : α → Option β} {f : β → α} {p : β → Bool}
    {p' : α → Bool} {rows : List α} (hsome : ∀ a ∈ rows, ∀ b, g a = some b → f b = a ∧ p b = p' a)
    (hnone : ∀ a ∈ rows, g a = none → p' a = false) :
    ((rows.filterMap g).filter p).map f = rows.filter p' := by
  induction rows with
  | nil => rfl
  | cons a rows ih =>
    obtain ⟨ha, hsome⟩ := List.forall_mem_cons.mp hsome
    obtain ⟨ha', hnone⟩ := List.forall_mem_cons.mp hnone
    rcases hg : g a with _ | b
    · rw [List.filterMap_cons_none hg, ih hsome hnone, List.filter_cons_of_neg (by simp [ha' hg])]
    · obtain ⟨hf, hp⟩ := ha b hg
      rw [List.filterMap_cons_some hg, List.filter_cons, List.filter_cons, hp]
      split_ifs
      · rw [List.map_cons, hf, ih hsome hnone]
      · exact ih hsome hnone

/-! ### Related rows -/

section Related

variable {α β κ : Type*}

/-- A function that does not tell related rows apart. -/
def Respects {γ : Type*} (R : α → α → Prop) (f : α → γ) : Prop := ∀ a a', R a a' → f a = f a'

variable {R : α → α → Prop} {cmp : κ → κ → Ordering}

/-- A condition that is made of cleaned parameters. -/
theorem respects_of_map {φ ε : Type*} {passes : φ → α → Bool} (h : ∀ f, Respects R (passes f))
    {x : Except ε φ} {p : α → Bool} (hp : x.map passes = .ok p) : Respects R p := by
  cases x with
  | error e => simp [Except.map] at hp
  | ok f =>
    obtain rfl := Except.ok.inj hp
    exact h f

theorem forall₂_filter {p : α → Bool} (hp : Respects R p) {l l' : List α} (h : Forall₂ R l l') :
    Forall₂ R (l.filter p) (l'.filter p) :=
  have hiff : ∀ a a', R a a' → (p a = true ↔ p a' = true) := fun a a' ha => by rw [hp a a' ha]
  List.rel_filter (fun a a' ha => hiff a a' ha) h

theorem map_eq_of_forall₂ {f g : α → β} (hfg : ∀ a a', R a a' → f a = g a') {l l' : List α}
    (h : Forall₂ R l l') : l.map f = l'.map g := by
  rw [← List.forall₂_eq_eq_eq]
  exact List.rel_map (fun a a' ha => hfg a a' ha) h

theorem forall₂_of_map_eq {f g : α → β} {l l' : List α} (h : l.map f = l'.map g) :
    Forall₂ (fun a a' => f a = g a') l l' := by
  rw [← List.forall₂_eq_eq_eq, List.forall₂_map_left_iff, List.forall₂_map_right_iff] at h
  exact h

theorem forall₂_with_mem {l l' : List α} (h : Forall₂ R l l') :
    Forall₂ (fun a a' => R a a' ∧ a ∈ l ∧ a' ∈ l') l l' := by
  obtain ⟨hlen, hget⟩ := List.forall₂_iff_get.mp h
  refine List.forall₂_iff_get.mpr ⟨hlen, fun i hi hi' => ?_⟩
  exact ⟨hget i hi hi', List.get_mem _ _, List.get_mem _ _⟩

theorem exists_of_forall₂ {l l' : List α} (h : Forall₂ R l l') {a : α} (ha : a ∈ l) :
    ∃ a' ∈ l', R a a' := by
  obtain ⟨hlen, hget⟩ := List.forall₂_iff_get.mp h
  obtain ⟨i, rfl⟩ := List.mem_iff_get.mp ha
  exact ⟨l'.get ⟨i, hlen ▸ i.2⟩, List.get_mem _ _, hget i.1 i.2 (hlen ▸ i.2)⟩

theorem compareRows_of_respects {terms : List (Term α κ)} (ht : ∀ t ∈ terms, Respects R t.column)
    {a a' b b' : α} (ha : R a a') (hb : R b b') :
    compareRows cmp terms a b = compareRows cmp terms a' b' := by
  induction terms with
  | nil => rfl
  | cons t ts ih =>
    obtain ⟨ht, hts⟩ := List.forall_mem_cons.mp ht
    have hterm : t.compare cmp a b = t.compare cmp a' b' := by
      unfold Term.compare
      rw [ht a a' ha, ht b b' hb]
    simp only [compareRows, hterm, ih hts]

theorem forall₂_orderedInsert {r : α → α → Prop} [DecidableRel r]
    (hr : ∀ a a' b b', R a a' → R b b' → (r a b ↔ r a' b')) {a a' : α} (ha : R a a') {l l' : List α}
    (h : Forall₂ R l l') : Forall₂ R (l.orderedInsert r a) (l'.orderedInsert r a') := by
  induction h with
  | nil => exact Forall₂.cons ha Forall₂.nil
  | @cons b b' l l' hb h ih =>
    by_cases hab : r a b
    · rw [List.orderedInsert_cons_of_le _ _ hab,
        List.orderedInsert_cons_of_le _ _ ((hr a a' b b' ha hb).mp hab)]
      exact Forall₂.cons ha (Forall₂.cons hb h)
    · rw [List.orderedInsert_of_not_le _ _ hab,
        List.orderedInsert_of_not_le _ _ fun h' => hab ((hr a a' b b' ha hb).mpr h')]
      exact Forall₂.cons hb ih

/-- Related rows come in the same order. -/
theorem forall₂_orderBy {terms : List (Term α κ)} (ht : ∀ t ∈ terms, Respects R t.column)
    {l l' : List α} (h : Forall₂ R l l') :
    Forall₂ R (orderBy cmp terms l) (orderBy cmp terms l') := by
  unfold orderBy
  induction h with
  | nil => exact Forall₂.nil
  | cons ha _ ih =>
    rw [List.insertionSort_cons, List.insertionSort_cons]
    refine forall₂_orderedInsert (fun a a' b b' ha hb => ?_) ha ih
    rw [compareRows_of_respects ht ha hb]

theorem find?_of_forall₂ {p : α → Bool} (hp : Respects R p) {l l' : List α} (h : Forall₂ R l l') :
    (l.find? p = none ∧ l'.find? p = none) ∨
      ∃ a a', l.find? p = some a ∧ l'.find? p = some a' ∧ R a a' := by
  induction h with
  | nil => exact Or.inl ⟨rfl, rfl⟩
  | @cons a a' l l' ha h ih =>
    rw [List.find?_cons, List.find?_cons, ← hp a a' ha]
    cases p a with
    | true => exact Or.inr ⟨a, a', rfl, rfl, ha⟩
    | false => exact ih

/-- Rows without repetitions, when related rows are equal together. -/
theorem forall₂_dedup [DecidableEq α] (hR : Relator.BiUnique R) {l l' : List α}
    (h : Forall₂ R l l') :
    Forall₂ R l.dedup l'.dedup := by
  induction h with
  | nil => exact Forall₂.nil
  | @cons a a' l l' ha h ih =>
    have hmem : a ∈ l ↔ a' ∈ l' := List.rel_mem hR ha h
    by_cases hal : a ∈ l
    · rw [List.dedup_cons_of_mem hal, List.dedup_cons_of_mem (hmem.mp hal)]
      exact ih
    · rw [List.dedup_cons_of_notMem hal, List.dedup_cons_of_notMem fun h' => hal (hmem.mpr h')]
      exact Forall₂.cons ha ih

end Related

/-! ### Views -/

/-- What is declared for a resource over rows `α`, for parameters `Q`: the conditions that its
filters make of the parameters, the texts that are searched, the names that rows can be ordered by,
and the order they come in. -/
structure View (Q α κ ε : Type*) where
  filterset : Q → Except ε (α → Bool)
  searchFields : Option (α → List String) := none
  orderingFields : List (String × List (Term α κ))
  ordering : List (Term α κ)

/-- The bounds of the page that is asked for, and its links. -/
structure PageBounds where
  offset : ℕ
  limit : ℕ
  next : Option String
  previous : Option String
  deriving DecidableEq, Repr

/-- What the framework and the database do: the search for the terms of a request, the names it
orders by (with those in descending order marked; `none` without a valid one), the order of column
values, and the pages. -/
structure Backend (Q κ ε : Type*) where
  search : Q → Except ε (List String → Bool)
  ordering : Q → List String → Option (List (String × Bool))
  compare : κ → κ → Ordering
  lawful : Std.TransCmp compare
  paginate : Q → ℕ → Except ε PageBounds

/-- A page of a list. -/
structure Page (β : Type*) where
  count : ℕ
  next : Option String
  previous : Option String
  results : List β
  deriving DecidableEq, Repr

section Views

variable {Q α β κ ε : Type*} (b : Backend Q κ ε) (v : View Q α κ ε) (q : Q)

/-- The order that the request asks for, or the order of the view. -/
def View.orderOf : List (Term α κ) :=
  match b.ordering q (v.orderingFields.map Prod.fst) with
  | none => v.ordering
  | some names => names.flatMap fun (name, descending) =>
    let terms := (v.orderingFields.lookup name).getD []
    if descending then terms.map Term.reverse else terms

/-- The rows that the request is about, in order. -/
def filterQueryset (rows : List α) : Except ε (List α) :=
  match v.filterset q, b.search q with
  | .error e, _ => .error e
  | _, .error e => .error e
  | .ok keep, .ok found =>
    .ok (orderBy b.compare (v.orderOf b q)
      ((rows.filter keep).filter fun a => v.searchFields.all fun texts => found (texts a)))

/-- **A page of the list.** -/
def list (serialize : α → β) (rows : List α) : Except ε (Page β) :=
  match filterQueryset b v q rows with
  | .error e => .error e
  | .ok rows =>
    match b.paginate q rows.length with
    | .error e => .error e
    | .ok bounds =>
      .ok ⟨rows.length, bounds.next, bounds.previous,
        ((rows.drop bounds.offset).take bounds.limit).map serialize⟩

/-- **One row**, or the error that it is missing. -/
def retrieve (lookup : α → Bool) (missing : ε) (rows : List α) : Except ε α :=
  match filterQueryset b v q rows with
  | .error e => .error e
  | .ok rows =>
    match rows.find? lookup with
    | none => .error missing
    | some a => .ok a

/-- Nothing that is declared for the view tells related rows apart. -/
structure View.Respects (R : α → α → Prop) : Prop where
  filterset : ∀ q p, v.filterset q = .ok p → ListViews.Respects R p
  search : ∀ f, v.searchFields = some f → ListViews.Respects R f
  orderingFields : ∀ x ∈ v.orderingFields, ∀ t ∈ x.2, ListViews.Respects R t.column
  ordering : ∀ t ∈ v.ordering, ListViews.Respects R t.column

/-- Two results that are the same error, or related values. -/
inductive Agree {β γ : Type*} (S : β → γ → Prop) : Except ε β → Except ε γ → Prop
  | error (e : ε) : Agree S (.error e) (.error e)
  | ok {x : β} {y : γ} (h : S x y) : Agree S (.ok x) (.ok y)

theorem Agree.cases {β γ : Type*} {S : β → γ → Prop} {x : Except ε β} {y : Except ε γ}
    (h : Agree S x y) :
    (∃ e, x = .error e ∧ y = .error e) ∨ ∃ a c, x = .ok a ∧ y = .ok c ∧ S a c := by
  cases h with
  | error e => exact Or.inl ⟨e, rfl, rfl⟩
  | @ok a c hS => exact Or.inr ⟨a, c, rfl, rfl, hS⟩

variable {b v q} {R : α → α → Prop}

theorem View.Respects.orderOf (hv : v.Respects R) :
    ∀ t ∈ v.orderOf b q, ListViews.Respects R t.column := by
  intro t ht
  unfold View.orderOf at ht
  split at ht
  · exact hv.ordering t ht
  · obtain ⟨⟨name, descending⟩, -, ht⟩ := List.mem_flatMap.mp ht
    have hterms : ∀ t ∈ (v.orderingFields.lookup name).getD [], ListViews.Respects R t.column := by
      intro t ht
      rcases hl : v.orderingFields.lookup name with _ | terms
      · simp [hl] at ht
      · rw [hl] at ht
        obtain ⟨l₁, l₂, heq, -⟩ := List.lookup_eq_some_iff.mp hl
        exact hv.orderingFields (name, terms)
          (heq ▸ List.mem_append_right l₁ List.mem_cons_self) t ht
    simp only at ht
    split_ifs at ht
    · obtain ⟨t, hmem, rfl⟩ := List.mem_map.mp ht
      exact hterms t hmem
    · exact hterms t ht

theorem agree_filterQueryset (hv : v.Respects R) {rows rows' : List α} (h : Forall₂ R rows rows') :
    Agree (Forall₂ R) (filterQueryset b v q rows) (filterQueryset b v q rows') := by
  unfold filterQueryset
  rcases hk : v.filterset q with e | keep
  · exact Agree.error e
  · rcases b.search q with e | found
    · exact Agree.error e
    · have hkept : Forall₂ R (rows.filter keep) (rows'.filter keep) :=
        forall₂_filter (hv.filterset q keep hk) h
      refine Agree.ok (forall₂_orderBy hv.orderOf (forall₂_filter (fun a a' ha => ?_) hkept))
      rcases hs : v.searchFields with _ | texts
      · rfl
      · simp [hv.search texts hs a a' ha]

/-- **Related rows give the same page.** -/
theorem list_eq (hv : v.Respects R) {serialize serialize' : α → β}
    (hs : ∀ a a', R a a' → serialize a = serialize' a') {rows rows' : List α}
    (h : Forall₂ R rows rows') :
    list b v q serialize rows = list b v q serialize' rows' := by
  have hagree : Agree (Forall₂ R) (filterQueryset b v q rows) (filterQueryset b v q rows') :=
    agree_filterQueryset hv h
  unfold list
  rcases hagree.cases with ⟨e, he, he'⟩ | ⟨l, l', hrows, hrows', hl⟩
  · simp only [he, he']
  · simp only [hrows, hrows', hl.length_eq]
    rcases b.paginate q l'.length with e | bounds
    · rfl
    · have hpage := map_eq_of_forall₂ hs
        (List.forall₂_take bounds.limit (List.forall₂_drop bounds.offset hl))
      simp only [hpage]

/-- **Related rows are found together.** -/
theorem agree_retrieve (hv : v.Respects R) {lookup : α → Bool} (hl : ListViews.Respects R lookup)
    (missing : ε) {rows rows' : List α} (h : Forall₂ R rows rows') :
    Agree R (retrieve b v q lookup missing rows) (retrieve b v q lookup missing rows') := by
  have hagree : Agree (Forall₂ R) (filterQueryset b v q rows) (filterQueryset b v q rows') :=
    agree_filterQueryset hv h
  unfold retrieve
  rcases hagree.cases with ⟨e, he, he'⟩ | ⟨l, l', hrows, hrows', hR⟩
  · simp only [he, he']
    exact Agree.error e
  · simp only [hrows, hrows']
    rcases find?_of_forall₂ hl hR with ⟨hn, hn'⟩ | ⟨a, a', ha, ha', hR⟩
    · simp only [hn, hn']
      exact Agree.error missing
    · simp only [ha, ha']
      exact Agree.ok hR

/-- When related rows are equal, nothing tells them apart. -/
theorem View.respects_of_eq (v : View Q α κ ε) (h : ∀ a a', R a a' → a = a') : v.Respects R where
  filterset _ p _ a a' ha := congrArg p (h a a' ha)
  search f _ a a' ha := congrArg f (h a a' ha)
  orderingFields _ _ t _ a a' ha := congrArg t.column (h a a' ha)
  ordering t _ a a' ha := congrArg t.column (h a a' ha)

/-- The same rows, serialised in the same way, give the same page. -/
theorem list_congr {serialize serialize' : α → β} {rows : List α}
    (hs : ∀ a ∈ rows, serialize a = serialize' a) :
    list b v q serialize rows = list b v q serialize' rows := by
  have hrows : Forall₂ (fun a a' => a = a' ∧ a ∈ rows) rows rows :=
    List.forall₂_same.mpr fun a ha => ⟨rfl, ha⟩
  refine list_eq (v.respects_of_eq fun a a' h => h.1) ?_ hrows
  rintro a _ ⟨rfl, ha⟩
  exact hs a ha

theorem mem_of_retrieve {lookup : α → Bool} {missing : ε} {rows : List α} {a : α}
    (h : retrieve b v q lookup missing rows = .ok a) : a ∈ rows := by
  unfold retrieve at h
  rcases hf : filterQueryset b v q rows with e | l
  · simp [hf] at h
  · simp only [hf] at h
    rcases ha : l.find? lookup with _ | a'
    · simp [ha] at h
    · rw [ha] at h
      obtain rfl := Except.ok.inj h
      unfold filterQueryset at hf
      split at hf
      · simp at hf
      · simp at hf
      · obtain rfl := Except.ok.inj hf
        have hmem := (mem_orderBy b.compare).mp (List.mem_of_find?_eq_some ha)
        exact List.mem_of_mem_filter (List.mem_of_mem_filter hmem)

/-- The one row that a lookup takes is found when the parameters keep it. -/
theorem retrieve_of_unique {lookup keep : α → Bool} {found : List String → Bool} {missing : ε}
    {rows : List α} {a : α} (hkeep : v.filterset q = .ok keep) (hfound : b.search q = .ok found)
    (ha : a ∈ rows) (hk : keep a = true)
    (hf : (v.searchFields.all fun texts => found (texts a)) = true) (hl : lookup a = true)
    (hunique : ∀ a' ∈ rows, lookup a' = true → a' = a) :
    retrieve b v q lookup missing rows = .ok a := by
  unfold retrieve filterQueryset
  rw [hkeep, hfound]
  set shown := orderBy b.compare (v.orderOf b q)
    ((rows.filter keep).filter fun a => v.searchFields.all fun texts => found (texts a)) with hshown
  have hmem : a ∈ shown :=
    (mem_orderBy b.compare).mpr (List.mem_filter.mpr ⟨List.mem_filter.mpr ⟨ha, hk⟩, hf⟩)
  have hsome : (shown.find? lookup).isSome := List.find?_isSome.mpr ⟨a, hmem, hl⟩
  obtain ⟨a', ha'⟩ := Option.isSome_iff_exists.mp hsome
  have hrow : a' ∈ rows := List.mem_of_mem_filter (List.mem_of_mem_filter
    ((mem_orderBy b.compare).mp (List.mem_of_find?_eq_some ha')))
  obtain rfl : a' = a := hunique a' hrow (List.find?_some ha')
  rw [hshown] at ha'
  simp only [ha']

theorem map_eq_of_agree {γ δ : Type*} {S : β → γ → Prop} {x : Except ε β} {y : Except ε γ}
    (h : Agree S x y) {f : β → δ} {g : γ → δ} (hfg : ∀ x y, S x y → f x = g y) :
    x.map f = y.map g := by
  rcases h.cases with ⟨e, rfl, rfl⟩ | ⟨a, c, rfl, rfl, hS⟩
  · rfl
  · exact congrArg Except.ok (hfg a c hS)

end Views

end KwAwards.Lib.ListViews
