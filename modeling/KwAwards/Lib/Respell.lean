import KwAwards.Lib.Words

/-! # Rewriting between separators

A function that rewrites what stands between the separators of a list, one stretch at a time, and
leaves the separators where they are (`Respells`). The separators `ok` are those at which it works
so; a list has no others.

It commutes with trimming (`trim_respell`), with squeezing runs of separators (`squeeze_respell`),
and with splitting at one (`splitOn_respell`). -/

namespace KwAwards.Lib.Words

variable {α : Type*}

/-- `f` rewrites the stretches between elements of `q`. -/
structure Respells (q : α → Bool) (ok : α → Prop) (f : List α → List α) : Prop where
  eq_nil : ∀ xs, f xs = [] ↔ xs = []
  join : ∀ xs x ys, q x = true → ok x → f (xs ++ x :: ys) = f xs ++ x :: f ys
  run : ∀ xs, (∀ x ∈ xs, q x = false) → ∀ x ∈ f xs, q x = false

/-- **Induction over the stretches:** a list is one stretch, or the first one, a separator and the
rest. -/
@[elab_as_elim]
theorem stretch_induction {q : α → Bool} {P : List α → Prop}
    (stretch : ∀ xs, (∀ x ∈ xs, q x = false) → P xs)
    (join : ∀ ys x zs, (∀ y ∈ ys, q y = false) → q x = true → P zs → P (ys ++ x :: zs))
    (xs : List α) : P xs := by
  -- the elements that have been read are those of the stretch
  have hread : ∀ ys : List α, (∀ y ∈ ys, q y = false) → P (ys ++ xs) := by
    induction xs with
    | nil =>
      intro ys hys
      rw [List.append_nil]
      exact stretch ys hys
    | cons x xs ih =>
      intro ys hys
      cases hx : q x with
      | true => exact join ys x xs hys hx (ih [] fun y hy => absurd hy List.not_mem_nil)
      | false =>
        rw [List.append_cons]
        refine ih (ys ++ [x]) fun y hy => ?_
        rcases List.mem_append.mp hy with hy | hy
        · exact hys y hy
        · rwa [List.mem_singleton.mp hy]
  exact hread [] fun y hy => absurd hy List.not_mem_nil

section Respell

variable {q : α → Bool} {ok : α → Prop} {f : List α → List α} (h : Respells q ok f)
include h

theorem Respells.nil : f [] = [] := (h.eq_nil []).mpr rfl

theorem Respells.cons {x : α} (hx : q x = true) (hok : ok x) (xs : List α) :
    f (x :: xs) = x :: f xs := by
  have := h.join [] x xs hx hok
  rwa [h.nil] at this

theorem Respells.concat {x : α} (hx : q x = true) (hok : ok x) (xs : List α) :
    f (xs ++ [x]) = f xs ++ [x] := by
  rw [h.join xs x [] hx hok, h.nil]

/-- **The separators stay.** -/
theorem filter_respell {xs : List α} (hok : ∀ x ∈ xs, q x = true → ok x) :
    (f xs).filter q = xs.filter q := by
  have hnone : ∀ ys : List α, (∀ y ∈ ys, q y = false) → ys.filter q = [] := fun ys hys =>
    List.filter_eq_nil_iff.mpr fun y hy => by simp [hys y hy]
  induction xs using stretch_induction (q := q) with
  | stretch xs hxs => rw [hnone xs hxs, hnone _ (h.run xs hxs)]
  | join ys x zs hys hx ih =>
    have hokx : ok x := hok x (by simp) hx
    rw [h.join ys x zs hx hokx, List.filter_append, List.filter_append, List.filter_cons_of_pos hx,
      List.filter_cons_of_pos hx, hnone ys hys, hnone _ (h.run ys hys),
      ih fun z hz => hok z (by simp [hz])]

theorem mem_of_mem_respell {xs : List α} (hok : ∀ x ∈ xs, q x = true → ok x) {x : α}
    (hmem : x ∈ f xs) (hx : q x = true) : x ∈ xs := by
  have hf : x ∈ (f xs).filter q := List.mem_filter.mpr ⟨hmem, hx⟩
  rw [filter_respell h hok] at hf
  exact List.mem_of_mem_filter hf

/-- A list that begins with no separator is rewritten to such a list. -/
theorem head_respell {xs : List α} {x : α} (hok : ∀ y ∈ xs, q y = true → ok y)
    (hx : q x = false) : ∃ y ys, f (x :: xs) = y :: ys ∧ q y = false := by
  have hfirst : ∀ ys : List α, (∀ y ∈ ys, q y = false) →
      ∃ y zs, f (x :: ys) = y :: zs ∧ q y = false := by
    intro ys hys
    have hne : f (x :: ys) ≠ [] := fun hnil => by cases (h.eq_nil _).mp hnil
    obtain ⟨y, zs, he⟩ := List.exists_cons_of_ne_nil hne
    refine ⟨y, zs, he, h.run (x :: ys) (List.forall_mem_cons.mpr ⟨hx, hys⟩) y ?_⟩
    rw [he]
    exact List.mem_cons_self
  induction xs using stretch_induction (q := q) with
  | stretch xs hxs => exact hfirst xs hxs
  | join ys z zs hys hz _ =>
    obtain ⟨y, ws, hy, hqy⟩ := hfirst ys hys
    refine ⟨y, ws ++ z :: f zs, ?_, hqy⟩
    rw [← List.cons_append, h.join (x :: ys) z zs hz (hok z (by simp) hz), hy]
    rfl

theorem last_respell {xs : List α} {x : α} (hok : ∀ y ∈ xs, q y = true → ok y)
    (hx : q x = false) : ∃ ys y, f (xs ++ [x]) = ys ++ [y] ∧ q y = false := by
  induction xs using stretch_induction (q := q) with
  | stretch xs hxs =>
    have hne : f (xs ++ [x]) ≠ [] := fun hnil => by simpa using (h.eq_nil _).mp hnil
    obtain ⟨ys, y, hy⟩ : ∃ ys y, f (xs ++ [x]) = ys ++ [y] :=
      ⟨_, _, (List.dropLast_concat_getLast hne).symm⟩
    refine ⟨ys, y, hy, h.run (xs ++ [x]) (fun z hz => ?_) y (by rw [hy]; simp)⟩
    rcases List.mem_append.mp hz with hz | hz
    · exact hxs z hz
    · rwa [List.mem_singleton.mp hz]
  | join ys z zs hys hz ih =>
    obtain ⟨us, u, hu, hqu⟩ := ih fun y hy => hok y (by simp [hy])
    refine ⟨f ys ++ z :: us, u, ?_, hqu⟩
    rw [List.append_assoc, List.cons_append, h.join ys z _ hz (hok z (by simp) hz), hu]
    simp

theorem dropWhile_respell {xs : List α} (hok : ∀ x ∈ xs, q x = true → ok x) :
    (f xs).dropWhile q = f (xs.dropWhile q) := by
  induction xs with
  | nil => rw [h.nil, List.dropWhile_nil, h.nil]
  | cons x xs ih =>
    have hrest : ∀ y ∈ xs, q y = true → ok y := fun y hy => hok y (List.mem_cons_of_mem _ hy)
    cases hx : q x with
    | true =>
      rw [h.cons hx (hok x List.mem_cons_self hx), List.dropWhile_cons_of_pos hx,
        List.dropWhile_cons_of_pos hx, ih hrest]
    | false =>
      obtain ⟨y, ys, hf, hy⟩ := head_respell h hrest hx
      rw [List.dropWhile_cons_of_neg (by simp [hx]), hf, List.dropWhile_cons_of_neg (by simp [hy])]

theorem rdropWhile_respell {xs : List α} (hok : ∀ x ∈ xs, q x = true → ok x) :
    (f xs).rdropWhile q = f (xs.rdropWhile q) := by
  induction xs using List.reverseRecOn with
  | nil => rw [h.nil, List.rdropWhile_nil, h.nil]
  | append_singleton xs x ih =>
    have hrest : ∀ y ∈ xs, q y = true → ok y := fun y hy => hok y (List.mem_append_left _ hy)
    cases hx : q x with
    | true =>
      rw [h.concat hx (hok x (by simp) hx), List.rdropWhile_concat_pos q _ _ hx,
        List.rdropWhile_concat_pos q _ _ hx, ih hrest]
    | false =>
      obtain ⟨ys, y, hf, hy⟩ := last_respell h hrest hx
      rw [List.rdropWhile_concat_neg _ _ _ (by simp [hx]), hf,
        List.rdropWhile_concat_neg _ _ _ (by simp [hy])]

/-- **Rewriting and trimming.** -/
theorem trim_respell {xs : List α} (hok : ∀ x ∈ xs, q x = true → ok x) :
    trim q (f xs) = f (trim q xs) := by
  have hrest : ∀ x ∈ xs.dropWhile q, q x = true → ok x := fun x hx =>
    hok x ((List.dropWhile_sublist q).subset hx)
  rw [trim, dropWhile_respell h hok, rdropWhile_respell h hrest, trim]

/-- **Rewriting and squeezing** runs of some of the separators. -/
theorem squeeze_respell {p : α → Bool} (hp : ∀ x, p x = true → q x = true) {c : α}
    (hc : p c = true) (hokc : ok c) {n : ℕ} (hn : 0 < n) {k : ℕ} {xs : List α}
    (hok : ∀ x ∈ xs, q x = true → ok x) :
    squeeze p c n k (f xs) = f (squeeze p c n k xs) := by
  -- one separator and what follows it
  have hcons : ∀ (k : ℕ) (x : α) (ys : List α), q x = true → ok x →
      (∀ k, squeeze p c n k (f ys) = f (squeeze p c n k ys)) →
      squeeze p c n k (f (x :: ys)) = f (squeeze p c n k (x :: ys)) := by
    intro k x ys hx hokx ih
    rw [h.cons hx hokx]
    cases hpx : p x with
    | true =>
      by_cases hk : k < n
      · rw [squeeze_cons_lt hpx hk, squeeze_cons_lt hpx hk, h.cons (hp c hc) hokc, ih]
      · rw [squeeze_cons_ge hpx hk, squeeze_cons_ge hpx hk, ih]
    | false => rw [squeeze_cons_neg hpx, squeeze_cons_neg hpx, h.cons hx hokx, ih]
  have hnone : ∀ ys : List α, (∀ y ∈ ys, q y = false) → ∀ y ∈ ys, p y = false := by
    intro ys hys y hy
    by_contra hpy
    have := hys y hy
    rw [hp y (by simpa using hpy)] at this
    cases this
  induction xs using stretch_induction (q := q) generalizing k with
  | stretch xs hxs =>
    rcases eq_or_ne xs [] with rfl | hne
    · rw [h.nil, squeeze_nil, h.nil]
    · have hfne : f xs ≠ [] := fun hnil => hne ((h.eq_nil xs).mp hnil)
      have hf := squeeze_append (c := c) (n := n) hfne (hnone _ (h.run xs hxs)) k []
      have hall := squeeze_append (c := c) (n := n) hne (hnone xs hxs) k []
      simp only [List.append_nil, squeeze_nil] at hf hall
      rw [hf, hall]
  | join ys x zs hys hx ih =>
    have hokx : ok x := hok x (by simp) hx
    have hrest : ∀ k, squeeze p c n k (f zs) = f (squeeze p c n k zs) := fun k =>
      ih fun z hz => hok z (by simp [hz])
    rcases eq_or_ne ys [] with rfl | hne
    · exact hcons k x zs hx hokx hrest
    · -- the stretch stays, and a separator still comes after it
      have hfne : f ys ≠ [] := fun hnil => hne ((h.eq_nil ys).mp hnil)
      obtain ⟨y, us, hsq, hy, hoky⟩ : ∃ y us, squeeze p c n 0 (x :: zs) = y :: us ∧ q y = true ∧
          ok y := by
        cases hpx : p x with
        | true => exact ⟨c, _, squeeze_cons_lt hpx hn zs, hp c hc, hokc⟩
        | false => exact ⟨x, _, squeeze_cons_neg hpx zs, hx, hokx⟩
      have htail : squeeze p c n 0 (x :: f zs) = y :: f us := by
        rw [← h.cons hx hokx, hcons 0 x zs hx hokx hrest, hsq, h.cons hy hoky]
      rw [h.join ys x zs hx hokx, squeeze_append hfne (hnone _ (h.run ys hys)), htail,
        squeeze_append hne (hnone ys hys), hsq, h.join ys y us hy hoky]

/-! ### Lines -/

section Join

variable {s : α} (hs : q s = true) (hoks : ok s)
include hs hoks

theorem intercalate_respell (ls : List (List α)) :
    f ([s].intercalate ls) = [s].intercalate (ls.map f) := by
  induction ls with
  | nil => exact h.nil
  | cons l ls ih =>
    rcases ls with _ | ⟨m, ls⟩
    · simp
    · rw [List.intercalate_cons_cons, List.append_assoc, List.singleton_append,
        h.join _ _ _ hs hoks, ih, List.map_cons, List.map_cons, List.map_cons,
        List.intercalate_cons_cons, List.append_assoc, List.singleton_append]

/-- **Rewriting line by line.** -/
theorem splitOn_respell [DecidableEq α] {xs : List α} (hok : ∀ x ∈ xs, q x = true → ok x) :
    (f xs).splitOn s = (xs.splitOn s).map f := by
  have hjoin : [s].intercalate (xs.splitOn s) = xs := List.intercalate_splitOn s
  have hlines : ∀ l ∈ (xs.splitOn s).map f, s ∉ l := by
    intro l hl hmem
    obtain ⟨m, hm, rfl⟩ := List.mem_map.mp hl
    have hokm : ∀ x ∈ m, q x = true → ok x := fun x hx =>
      hok x ((infix_of_mem_splitOn hm).subset hx)
    exact not_mem_of_mem_splitOn hm (mem_of_mem_respell h hokm hmem hs)
  have hne : (xs.splitOn s).map f ≠ [] := by simp
  conv_lhs => rw [← hjoin]
  rw [intercalate_respell h hs hoks, List.splitOn_intercalate s hlines hne]

end Join

theorem isEmpty_respell (xs : List α) : (f xs).isEmpty = xs.isEmpty := by
  rw [Bool.eq_iff_iff, List.isEmpty_iff, List.isEmpty_iff, h.eq_nil]

/-- Empty lines at the ends. -/
theorem trim_map_respell (ls : List (List α)) :
    trim List.isEmpty (ls.map f) = (trim List.isEmpty ls).map f := by
  rw [trim_map, show List.isEmpty ∘ f = List.isEmpty from funext fun l => isEmpty_respell h l]

theorem squeeze_map_respell (n k : ℕ) (ls : List (List α)) :
    squeeze List.isEmpty [] n k (ls.map f) = (squeeze List.isEmpty [] n k ls).map f := by
  induction ls generalizing k with
  | nil => rfl
  | cons l ls ih =>
    have hempty := isEmpty_respell h l
    rw [List.map_cons]
    cases hl : l.isEmpty with
    | true =>
      by_cases hk : k < n
      · rw [squeeze_cons_lt (hempty.trans hl) hk, squeeze_cons_lt hl hk, ih, List.map_cons, h.nil]
      · rw [squeeze_cons_ge (hempty.trans hl) hk, squeeze_cons_ge hl hk, ih]
    | false => rw [squeeze_cons_neg (hempty.trans hl), squeeze_cons_neg hl, ih, List.map_cons]

end Respell

end KwAwards.Lib.Words
