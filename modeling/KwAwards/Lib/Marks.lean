import Mathlib.Tactic
import Mathlib.Data.List.Infix

/-! # What becomes of the elements of a list

A pass over a list keeps some of its elements, drops others and adds new ones. `Mark` says which, so
that a list of marks has both the list it is about (`source`) and what the pass leaves (`left`). A
stretch of what is left comes from a stretch of the marks (`infix_left_iff`), which has another
source only where an element was dropped or added (`Altered`).

* `weave p` puts the elements of a list that satisfy `p` back among the marks, as dropped ones.
* `Least P` are the lists without `P` all of whose proper stretches have it; a property of all
  stretches of a list is told by them (`iff_forall_least`). -/

namespace KwAwards.Lib.Marks

variable {α : Type*}

/-- What becomes of an element, or one that is new. -/
inductive Mark (α : Type*)
  | keep (a : α)
  | drop (a : α)
  | add (a : α)
  deriving DecidableEq, Repr

namespace Mark

def source : Mark α → List α
  | keep a | drop a => [a]
  | add _ => []

def left : Mark α → List α
  | keep a | add a => [a]
  | drop _ => []

def isDrop : Mark α → Bool
  | drop _ => true
  | _ => false

def isAdd : Mark α → Bool
  | add _ => true
  | _ => false

end Mark

/-- The list the marks are about. -/
def source (ms : List (Mark α)) : List α := ms.flatMap Mark.source

/-- What is left of it. -/
def left (ms : List (Mark α)) : List α := ms.flatMap Mark.left

@[simp] theorem source_cons (m : Mark α) (ms : List (Mark α)) :
    source (m :: ms) = m.source ++ source ms := List.flatMap_cons

@[simp] theorem left_cons (m : Mark α) (ms : List (Mark α)) :
    left (m :: ms) = m.left ++ left ms := List.flatMap_cons

@[simp] theorem source_append (ms ns : List (Mark α)) :
    source (ms ++ ns) = source ms ++ source ns :=
  List.flatMap_append

@[simp] theorem left_append (ms ns : List (Mark α)) : left (ms ++ ns) = left ms ++ left ns :=
  List.flatMap_append

@[simp] theorem source_map_keep (xs : List α) : source (xs.map Mark.keep) = xs := by
  simp [source, List.flatMap_map, Mark.source]

@[simp] theorem left_map_keep (xs : List α) : left (xs.map Mark.keep) = xs := by
  simp [left, List.flatMap_map, Mark.left]

@[simp] theorem source_map_drop (xs : List α) : source (xs.map Mark.drop) = xs := by
  simp [source, List.flatMap_map, Mark.source]

@[simp] theorem left_map_drop (xs : List α) : left (xs.map Mark.drop) = [] := by
  simp [left, List.flatMap_map, Mark.left]

/-- An element that is left was there, or is new. -/
theorem mem_left {ms : List (Mark α)} {a : α} (h : a ∈ left ms) :
    a ∈ source ms ∨ Mark.add a ∈ ms := by
  obtain ⟨m, hm, ha⟩ := List.mem_flatMap.mp h
  cases m with
  | keep b => exact Or.inl (List.mem_flatMap.mpr ⟨_, hm, ha⟩)
  | drop b => cases ha
  | add b =>
    obtain rfl := List.mem_singleton.mp ha
    exact Or.inr hm

/-- **The lengths of the two lists.** -/
theorem length_left (ms : List (Mark α)) :
    (left ms).length + ms.countP Mark.isDrop = (source ms).length + ms.countP Mark.isAdd := by
  induction ms with
  | nil => rfl
  | cons m ms ih =>
    simp only [left_cons, source_cons, List.length_append, List.countP_cons]
    cases m <;> simp [Mark.left, Mark.source, Mark.isDrop, Mark.isAdd] <;> omega

/-- What is left is split where the marks are. -/
theorem exists_of_left_eq_append {ms : List (Mark α)} {xs ys : List α} (h : left ms = xs ++ ys) :
    ∃ ms₁ ms₂, ms = ms₁ ++ ms₂ ∧ left ms₁ = xs ∧ left ms₂ = ys := by
  induction ms generalizing xs ys with
  | nil =>
    obtain ⟨rfl, rfl⟩ := List.append_eq_nil_iff.mp h.symm
    exact ⟨[], [], rfl, rfl, rfl⟩
  | cons m ms ih =>
    rcases xs with _ | ⟨x, xs⟩
    · exact ⟨[], m :: ms, rfl, rfl, h⟩
    · have hstep : ∀ zs, m.left ++ left ms = zs ++ ys → m.left.length ≤ zs.length →
          ∃ ms₁ ms₂, m :: ms = ms₁ ++ ms₂ ∧ left ms₁ = zs ∧ left ms₂ = ys := by
        intro zs hzs hle
        obtain ⟨ws, rfl⟩ : m.left <+: zs :=
          List.prefix_of_prefix_length_le (List.prefix_append _ _) ⟨ys, hzs.symm⟩ hle
        rw [List.append_assoc] at hzs
        obtain ⟨ms₁, ms₂, rfl, h₁, h₂⟩ := ih (List.append_cancel_left hzs)
        exact ⟨m :: ms₁, ms₂, rfl, by rw [left_cons, h₁], h₂⟩
      rw [left_cons] at h
      -- a mark leaves one element at most
      refine hstep _ h ?_
      cases m <;> simp [Mark.left]

/-- **A stretch of what is left** comes from a stretch of the marks. -/
theorem infix_left_iff {ms : List (Mark α)} {xs : List α} :
    xs <:+: left ms ↔ ∃ ns, ns <:+: ms ∧ left ns = xs := by
  constructor
  · rintro ⟨u, v, h⟩
    obtain ⟨ms₁, ms₂, rfl, h₁, -⟩ := exists_of_left_eq_append h.symm
    obtain ⟨ms₀, ns, rfl, -, hns⟩ := exists_of_left_eq_append h₁
    exact ⟨ns, ⟨ms₀, ms₂, rfl⟩, hns⟩
  · rintro ⟨ns, ⟨u, v, rfl⟩, rfl⟩
    exact ⟨left u, left v, by simp⟩

/-- An element was dropped or a new one put in. -/
def Altered (ms : List (Mark α)) : Prop := ∃ m ∈ ms, m.isDrop = true ∨ m.isAdd = true

/-- Where nothing was, all of the list is left. -/
theorem left_eq_source {ms : List (Mark α)} (h : ¬ Altered ms) : left ms = source ms := by
  induction ms with
  | nil => rfl
  | cons m ms ih =>
    have hrest : ¬ Altered ms := fun ⟨n, hn, hm⟩ => h ⟨n, List.mem_cons_of_mem _ hn, hm⟩
    rw [left_cons, source_cons, ih hrest]
    cases m with
    | keep a => rfl
    | drop a => exact absurd ⟨_, List.mem_cons_self, Or.inl rfl⟩ h
    | add a => exact absurd ⟨_, List.mem_cons_self, Or.inr rfl⟩ h

theorem source_stretch {ms ns : List (Mark α)} (h : ns <:+: ms) : source ns <:+: source ms := by
  obtain ⟨u, v, rfl⟩ := h
  exact ⟨source u, source v, by simp⟩

/-! ### Weaving -/

/-- The marks of a list without the elements that satisfy `p`, with these put back as dropped
ones. -/
def weave (p : α → Bool) : List (Mark α) → List α → List (Mark α)
  | [], xs => xs.map .drop
  | .add a :: ms, xs => .add a :: weave p ms xs
  | .keep a :: ms, xs => (xs.takeWhile p).map .drop ++ .keep a :: weave p ms (xs.dropWhile p).tail
  | .drop a :: ms, xs => (xs.takeWhile p).map .drop ++ .drop a :: weave p ms (xs.dropWhile p).tail

/-- It leaves the same. -/
@[simp] theorem left_weave (p : α → Bool) (ms : List (Mark α)) (xs : List α) :
    left (weave p ms xs) = left ms := by
  fun_induction weave p ms xs with
  | case1 xs => exact left_map_drop xs
  | case2 a ms xs ih => rw [left_cons, left_cons, ih]
  | case3 a ms xs ih => rw [left_append, left_map_drop, left_cons, left_cons, ih, List.nil_append]
  | case4 a ms xs ih => rw [left_append, left_map_drop, left_cons, left_cons, ih, List.nil_append]

/-- The first element that is not put back. -/
theorem cons_of_filter {p : α → Bool} {xs ys : List α} {a : α}
    (h : a :: ys = xs.filter fun x => !p x) :
    xs.takeWhile p ++ a :: (xs.dropWhile p).tail = xs ∧
      ys = (xs.dropWhile p).tail.filter fun x => !p x := by
  induction xs with
  | nil => cases h
  | cons x xs ih =>
    cases hx : p x with
    | true =>
      rw [List.filter_cons_of_neg (by simp [hx])] at h
      obtain ⟨hxs, hys⟩ := ih h
      rw [List.takeWhile_cons_of_pos hx, List.dropWhile_cons_of_pos hx, List.cons_append, hxs]
      exact ⟨rfl, hys⟩
    | false =>
      rw [List.filter_cons_of_pos (by simp [hx])] at h
      obtain ⟨rfl, hys⟩ := List.cons.inj h
      rw [List.takeWhile_cons_of_neg (by simp [hx]), List.dropWhile_cons_of_neg (by simp [hx])]
      exact ⟨rfl, hys⟩

/-- **It is about the whole list.** -/
theorem source_weave {p : α → Bool} {ms : List (Mark α)} {xs : List α}
    (h : source ms = xs.filter fun x => !p x) : source (weave p ms xs) = xs := by
  fun_induction weave p ms xs with
  | case1 xs => exact source_map_drop xs
  | case2 a ms xs ih => exact ih h
  | case3 a ms xs ih =>
    obtain ⟨hxs, hys⟩ := cons_of_filter h
    rw [source_append, source_map_drop, source_cons, ih hys]
    exact hxs
  | case4 a ms xs ih =>
    obtain ⟨hxs, hys⟩ := cons_of_filter h
    rw [source_append, source_map_drop, source_cons, ih hys]
    exact hxs

/-! ### Least stretches -/

/-- A list without the property, which every other stretch of it has. -/
structure Least (P : List α → Prop) (xs : List α) : Prop where
  not : ¬ P xs
  part : ∀ ys, ys <:+: xs → ys ≠ xs → P ys

/-- **A property that a list hands on to its stretches** fails for a least one. -/
theorem iff_forall_least {P : List α → Prop} (hpart : ∀ ys xs, ys <:+: xs → P xs → P ys)
    {xs : List α} : P xs ↔ ∀ ys, Least P ys → ¬ ys <:+: xs := by
  constructor
  · exact fun h ys hys hi => hys.not (hpart ys xs hi h)
  · intro h
    by_contra hnot
    -- the shortest stretch without the property
    have hex : ∃ n ys, ys <:+: xs ∧ ¬ P ys ∧ ys.length = n := ⟨_, xs, List.infix_rfl, hnot, rfl⟩
    classical
    obtain ⟨ys, hys, hnot', hlen⟩ := Nat.find_spec hex
    refine h ys ⟨hnot', fun zs hzs hne => ?_⟩ hys
    by_contra hz
    have hlt : zs.length < Nat.find hex := by
      rw [← hlen]
      exact lt_of_le_of_ne hzs.length_le fun he => hne (hzs.eq_of_length he)
    exact Nat.find_min hex hlt ⟨zs, hzs.trans hys, hz, rfl⟩

end KwAwards.Lib.Marks
