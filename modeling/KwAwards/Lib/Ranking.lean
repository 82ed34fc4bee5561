import Mathlib.Tactic

/-! # Competition ranking

`place f l a` is the place of an item with the score `f a` among the items of `l`: ties share a
place and the places after them are left out (1, 1, 3). It depends on the scores alone
(`place_eq_iff`), not on the order of the items. In a list with falling scores an item does not
stand before its place (`place_le`), and it stands at its place where no item before it has its
score (`place_eq_iff_first`). Items with no higher score can be left out (`place_filter`). -/

namespace KwAwards.Lib.Ranking

variable {α β : Type*} [LinearOrder β] (f : α → β)

/-- One more than the number of items with a higher score. -/
def place (l : List α) (a : α) : ℕ := 1 + (l.filter fun b => f a < f b).length

variable {f}

theorem place_congr {l : List α} {a b : α} (h : f a = f b) : place f l a = place f l b := by
  unfold place
  rw [h]

/-- A lower score has a later place. -/
theorem place_lt {l : List α} {a b : α} (hb : b ∈ l) (h : f a < f b) :
    place f l b < place f l a := by
  have hsub : List.Sublist (l.filter fun c => f b < f c) (l.filter fun c => f a < f c) :=
    List.monotone_filter_right l fun c hc => decide_eq_true (h.trans (of_decide_eq_true hc))
  have hne : (l.filter fun c => f b < f c).length ≠ (l.filter fun c => f a < f c).length := by
    intro he
    have hmem : b ∈ l.filter fun c => f a < f c := List.mem_filter.mpr ⟨hb, decide_eq_true h⟩
    rw [← hsub.eq_of_length he] at hmem
    exact lt_irrefl _ (of_decide_eq_true (List.mem_filter.mp hmem).2)
  have hle := hsub.length_le
  unfold place
  omega

/-- **Ties, and only ties, share a place.** -/
theorem place_eq_iff {l : List α} {a b : α} (ha : a ∈ l) (hb : b ∈ l) :
    place f l a = place f l b ↔ f a = f b := by
  constructor
  · intro h
    rcases lt_trichotomy (f a) (f b) with hlt | heq | hgt
    · exact absurd h (place_lt hb hlt).ne'
    · exact heq
    · exact absurd h (place_lt ha hgt).ne
  · exact place_congr

/-- Items that are left out and do not have a higher score leave a place as it is. -/
theorem place_filter {l : List α} {p : α → Bool} {a : α} (h : ∀ b ∈ l, f a < f b → p b = true) :
    place f (l.filter p) a = place f l a := by
  unfold place
  rw [List.filter_filter]
  congr 2
  refine List.filter_congr fun b hb => ?_
  by_cases hlt : f a < f b
  · rw [h b hb hlt, Bool.and_true]
  · rw [decide_eq_false hlt, Bool.false_and]

variable {l₁ l₂ : List α} {a : α}

/-- In a list with falling scores only earlier items have a higher score. -/
theorem place_append_cons (h : (l₁ ++ a :: l₂).Pairwise fun b c => f c ≤ f b) :
    place f (l₁ ++ a :: l₂) a = 1 + (l₁.filter fun b => f a < f b).length := by
  obtain ⟨-, hrest, -⟩ := List.pairwise_append.mp h
  have hnil : ((a :: l₂).filter fun b => f a < f b) = [] := by
    rw [List.filter_eq_nil_iff]
    intro b hb hlt
    rcases List.mem_cons.mp hb with rfl | hb
    · exact lt_irrefl _ (of_decide_eq_true hlt)
    · exact absurd (of_decide_eq_true hlt) ((List.pairwise_cons.mp hrest).1 b hb).not_gt
  rw [place, List.filter_append, hnil, List.append_nil]

theorem place_le (h : (l₁ ++ a :: l₂).Pairwise fun b c => f c ≤ f b) :
    place f (l₁ ++ a :: l₂) a ≤ l₁.length + 1 := by
  have hle := List.length_filter_le (fun b => decide (f a < f b)) l₁
  rw [place_append_cons h]
  omega

/-- **An item stands at its place** where it is the first with its score. -/
theorem place_eq_iff_first (h : (l₁ ++ a :: l₂).Pairwise fun b c => f c ≤ f b) :
    place f (l₁ ++ a :: l₂) a = l₁.length + 1 ↔ ∀ b ∈ l₁, f b ≠ f a := by
  have hle : ∀ b ∈ l₁, f a ≤ f b := fun b hb =>
    (List.pairwise_append.mp h).2.2 b hb a List.mem_cons_self
  rw [place_append_cons h, add_comm, Nat.add_right_cancel_iff, List.length_filter_eq_length_iff]
  refine forall₂_congr fun b hb => ?_
  rw [decide_eq_true_eq]
  exact ⟨fun hlt => hlt.ne', fun hne => lt_of_le_of_ne (hle b hb) hne.symm⟩

end KwAwards.Lib.Ranking
