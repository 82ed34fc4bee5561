import Mathlib.Tactic

/-! # Walks

A walk along a relation is given by its edges: the first begins at the start, each begins where the
one before it ended, and the last one ends at the end. Without edges the end is the start. -/

namespace KwAwards.Lib.Walk

variable {α : Type*} {R : α → α → Prop} {a b c : α}

/-- The edges lead from `a` to `b` along `R`. -/
def IsWalk (R : α → α → Prop) : α → List (α × α) → α → Prop
  | a, [], b => a = b
  | a, (x, y) :: l, b => x = a ∧ R x y ∧ IsWalk R y l b

@[simp] theorem isWalk_nil : IsWalk R a [] b ↔ a = b := Iff.rfl

@[simp] theorem isWalk_cons {x y : α} {l : List (α × α)} :
    IsWalk R a ((x, y) :: l) b ↔ x = a ∧ R x y ∧ IsWalk R y l b := Iff.rfl

/-- A walk goes on along an edge. -/
theorem isWalk_snoc {l : List (α × α)} (h : IsWalk R a l b) (hbc : R b c) :
    IsWalk R a (l ++ [(b, c)]) c := by
  induction l generalizing a with
  | nil =>
    obtain rfl := isWalk_nil.mp h
    exact ⟨rfl, hbc, rfl⟩
  | cons p l ih =>
    obtain ⟨x, y⟩ := p
    obtain ⟨hx, hxy, h⟩ := isWalk_cons.mp h
    exact ⟨hx, hxy, ih h⟩

end KwAwards.Lib.Walk
