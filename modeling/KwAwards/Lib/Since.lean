import Mathlib.Tactic

/-! # The last event of a kind and what came after it

A history is a list of events, oldest first. `since q h` is what `q` reads off the last event it
picks, with the events that followed: `since_eq_some` says so by a split of the history, and
`since_concat_of_some`, `since_concat_of_none` how it changes with one more event. -/

namespace KwAwards.Lib.Since

variable {α β : Type*} (q : α → Option β)

/-- The last event that `q` picks, with the events after it. -/
def since (h : List α) : Option (β × List α) :=
  h.foldl (fun acc e =>
    match q e with
    | some b => some (b, [])
    | none => acc.map fun x => (x.1, x.2 ++ [e])) none

@[simp] theorem since_nil : since q [] = none := rfl

variable {q} {h t : List α} {e : α} {b : β}

theorem since_concat_of_some (hq : q e = some b) : since q (h ++ [e]) = some (b, []) := by
  simp [since, List.foldl_append, hq]

theorem since_concat_of_none (hq : q e = none) :
    since q (h ++ [e]) = (since q h).map fun x => (x.1, x.2 ++ [e]) := by
  simp [since, List.foldl_append, hq]

theorem since_append_of_none (ht : ∀ x ∈ t, q x = none) :
    since q (h ++ t) = (since q h).map fun x => (x.1, x.2 ++ t) := by
  induction t using List.reverseRecOn with
  | nil => simp
  | append_singleton t e ih =>
    have hrest : ∀ x ∈ t, q x = none := fun x hx => ht x (List.mem_append_left _ hx)
    rw [← List.append_assoc, since_concat_of_none (ht e (by simp)), ih hrest, Option.map_map]
    exact Option.map_congr fun x _ => by simp

/-- **The last event of a kind**, by a split of the history. -/
theorem since_eq_some : since q h = some (b, t) ↔
    ∃ h₁ e, h = h₁ ++ e :: t ∧ q e = some b ∧ ∀ x ∈ t, q x = none := by
  constructor
  · intro hs
    induction h using List.reverseRecOn generalizing t with
    | nil => cases hs
    | append_singleton h e ih =>
      rcases hq : q e with _ | b'
      · rw [since_concat_of_none hq] at hs
        obtain ⟨⟨b₁, t₁⟩, hs₁, heq⟩ := Option.map_eq_some_iff.mp hs
        obtain ⟨rfl, rfl⟩ := Prod.mk.inj heq
        obtain ⟨h₁, d, rfl, hd, ht⟩ := ih hs₁
        refine ⟨h₁, d, by simp, hd, fun x hx => ?_⟩
        rcases List.mem_append.mp hx with hx | hx
        · exact ht x hx
        · rw [List.mem_singleton.mp hx]; exact hq
      · rw [since_concat_of_some hq] at hs
        obtain ⟨rfl, rfl⟩ := Prod.mk.inj (Option.some.inj hs)
        exact ⟨h, e, rfl, hq, by simp⟩
  · rintro ⟨h₁, e, rfl, hq, ht⟩
    rw [show h₁ ++ e :: t = (h₁ ++ [e]) ++ t by simp, since_append_of_none ht,
      since_concat_of_some hq, Option.map_some, List.nil_append]

end KwAwards.Lib.Since
