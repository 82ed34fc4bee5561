import Mathlib.Tactic
import Mathlib.Data.List.DropRight

/-! # Words, trimming and runs

A list of characters is split at separators, trimmed at its ends, and its runs are cut short.

* `trim q` drops what satisfies `q` from both ends.
* `squeeze p c n` writes a run of `p` as that many `c`, or as `n` of them where the run is longer.
* `words b q` is what stands between the separators `b`, trimmed, where anything is left.

Trimming keeps the words (`words_trim`), and so does squeezing runs of separators (`words_squeeze`);
what is trimmed or squeezed already stays as it is, and so does any stretch of a squeezed list.
`spare` counts what the two drop. -/

namespace KwAwards.Lib.Words

variable {α : Type*}

/-! ### Trimming -/

section Trim

variable (q : α → Bool)

def trim (xs : List α) : List α := (xs.dropWhile q).rdropWhile q

variable {q}

@[simp] theorem trim_nil : trim q [] = [] := rfl

theorem trim_cons {x : α} (hx : q x = true) (xs : List α) : trim q (x :: xs) = trim q xs := by
  rw [trim, List.dropWhile_cons_of_pos hx, trim]

theorem trim_concat {x : α} (hx : q x = true) (xs : List α) : trim q (xs ++ [x]) = trim q xs := by
  unfold trim
  rw [List.dropWhile_append]
  split
  · next h =>
    -- nothing is left of the list, and nothing of the element
    rw [List.isEmpty_iff.mp h, List.dropWhile_cons_of_pos hx]
    rfl
  · exact List.rdropWhile_concat_pos q _ _ hx

/-- The ends that trimming drops. -/
theorem exists_trim (q : α → Bool) (xs : List α) :
    ∃ a b, xs = a ++ trim q xs ++ b ∧ (∀ x ∈ a, q x = true) ∧ ∀ x ∈ b, q x = true := by
  refine ⟨xs.takeWhile q, (xs.dropWhile q).rtakeWhile q, ?_, fun x hx => List.mem_takeWhile_imp hx,
    fun x hx => List.mem_rtakeWhile_imp hx⟩
  rw [trim, List.append_assoc, List.rdropWhile_append_rtakeWhile, List.takeWhile_append_dropWhile]

theorem trim_part (q : α → Bool) (xs : List α) : trim q xs <:+: xs := by
  obtain ⟨a, b, h, -⟩ := exists_trim q xs
  exact ⟨a, b, h.symm⟩

theorem head_trim {xs ys : List α} {x : α} (h : trim q xs = x :: ys) : q x = false := by
  -- the head of a nonempty prefix of the dropped list is its head
  obtain ⟨u, hu⟩ : trim q xs <+: xs.dropWhile q := List.rdropWhile_prefix q _
  have := List.head?_dropWhile_not q xs
  rw [← hu, h] at this
  simpa using this

theorem last_trim {xs ys : List α} {x : α} (h : trim q xs = ys ++ [x]) : q x = false := by
  have := List.rdropWhile_last_not q (xs.dropWhile q) (by
    rw [show (xs.dropWhile q).rdropWhile q = ys ++ [x] from h]; simp)
  simpa [show (xs.dropWhile q).rdropWhile q = ys ++ [x] from h] using this

/-- A list that neither begins nor ends with what is dropped stays as it is. -/
theorem trim_eq_self {xs : List α} (hh : ∀ x ys, xs = x :: ys → q x = false)
    (hl : ∀ x ys, xs = ys ++ [x] → q x = false) : trim q xs = xs := by
  rcases xs with _ | ⟨x, ys⟩
  · rfl
  · rw [trim, List.dropWhile_cons_of_neg (by simp [hh x ys rfl])]
    obtain ⟨zs, z, hz⟩ : ∃ zs z, x :: ys = zs ++ [z] :=
      ⟨_, _, (List.dropLast_concat_getLast (by simp)).symm⟩
    rw [hz, List.rdropWhile_concat_neg _ _ _ (by simp [hl z zs hz])]

theorem mem_trim_of_neg {xs : List α} {x : α} (h : x ∈ xs) (hx : q x = false) : x ∈ trim q xs := by
  obtain ⟨a, b, he, ha, hb⟩ := exists_trim q xs
  rw [he] at h
  simp only [List.mem_append] at h
  rcases h with (h | h) | h
  · simp [ha x h] at hx
  · exact h
  · simp [hb x h] at hx

theorem trim_eq_nil_iff {xs : List α} : trim q xs = [] ↔ ∀ x ∈ xs, q x = true := by
  constructor
  · intro h x hx
    by_contra hq
    have := mem_trim_of_neg hx (by simpa using hq)
    simp [h] at this
  · intro h
    rw [trim, List.dropWhile_eq_nil_iff.mpr h]
    rfl

/-- What does not satisfy `q` is not dropped. -/
theorem exists_dropWhile_append {x : α} (hx : q x = false) (xs ys : List α) :
    ∃ zs, (xs ++ x :: ys).dropWhile q = zs ++ x :: ys := by
  rw [List.dropWhile_append]
  split
  · exact ⟨[], List.dropWhile_cons_of_neg (by simp [hx])⟩
  · exact ⟨_, rfl⟩

theorem exists_rdropWhile_append {x : α} (hx : q x = false) (xs ys : List α) :
    ∃ zs, (xs ++ x :: ys).rdropWhile q = xs ++ x :: zs := by
  obtain ⟨zs, hzs⟩ := exists_dropWhile_append hx ys.reverse xs.reverse
  refine ⟨zs.reverse, ?_⟩
  rw [List.rdropWhile, show (xs ++ x :: ys).reverse = ys.reverse ++ x :: xs.reverse by simp, hzs]
  simp

/-- **What is trimmed at the ends only** is left between two elements that are not. -/
theorem mem_trim_iff {x : α} (hx : q x = true) {xs : List α} : x ∈ trim q xs ↔
    ∃ a ys zs b, q a = false ∧ q b = false ∧ a :: (ys ++ x :: (zs ++ [b])) <:+: xs := by
  constructor
  · intro h
    obtain ⟨s, t, hst⟩ := List.append_of_mem h
    rcases s with _ | ⟨a, ys⟩
    · rw [head_trim hst] at hx
      cases hx
    · rcases t.eq_nil_or_concat with rfl | ⟨zs, b, rfl⟩
      · rw [last_trim hst] at hx
        cases hx
      · rw [List.concat_eq_append] at hst
        have hb : trim q xs = (a :: ys ++ x :: zs) ++ [b] := by rw [hst]; simp
        refine ⟨a, ys, zs, b, head_trim hst, last_trim hb, ?_⟩
        have hpart := trim_part q xs
        rw [hst] at hpart
        exact hpart
  · rintro ⟨a, ys, zs, b, ha, hb, u, v, rfl⟩
    obtain ⟨d, hd⟩ := exists_dropWhile_append ha u (ys ++ x :: (zs ++ b :: v))
    obtain ⟨e, he⟩ := exists_rdropWhile_append hb (d ++ a :: (ys ++ x :: zs)) v
    have hlist :
        u ++ a :: (ys ++ x :: (zs ++ [b])) ++ v = u ++ a :: (ys ++ x :: (zs ++ b :: v)) := by
      simp
    have hassoc : d ++ a :: (ys ++ x :: (zs ++ b :: v)) = d ++ a :: (ys ++ x :: zs) ++ b :: v := by
      simp
    rw [trim, hlist, hd, hassoc, he]
    simp

@[simp] theorem trim_trim (q : α → Bool) (xs : List α) : trim q (trim q xs) = trim q xs :=
  trim_eq_self (fun _ _ => head_trim) fun _ _ => last_trim

end Trim

/-! ### Words -/

section Words

variable (b q : α → Bool)

/-- **The words of a list.** -/
def words (xs : List α) : List (List α) :=
  ((xs.splitOnP b).map (trim q)).filter fun w => !w.isEmpty

/-- The words of a list whose first piece has begun. -/
def wordsFrom (begun xs : List α) : List (List α) :=
  (((xs.splitOnP b).modifyHead (begun ++ ·)).map (trim q)).filter fun w => !w.isEmpty

variable {b q}

theorem words_eq_wordsFrom (xs : List α) : words b q xs = wordsFrom b q [] xs := by
  obtain ⟨h, t, ht⟩ := List.exists_cons_of_ne_nil (List.splitOnP_ne_nil b xs)
  simp [words, wordsFrom, ht]

@[simp] theorem wordsFrom_nil (begun : List α) :
    wordsFrom b q begun [] = if trim q begun = [] then [] else [trim q begun] := by
  by_cases h : trim q begun = [] <;> simp [wordsFrom, h]

theorem wordsFrom_cons_pos {x : α} (hx : b x = true) (begun xs : List α) :
    wordsFrom b q begun (x :: xs) = wordsFrom b q begun [] ++ words b q xs := by
  simp [wordsFrom, words, List.splitOnP_cons_eq_if_modifyHead, hx, List.filter_cons]
  split <;> simp_all

theorem wordsFrom_cons_neg {x : α} (hx : b x = false) (begun xs : List α) :
    wordsFrom b q begun (x :: xs) = wordsFrom b q (begun ++ [x]) xs := by
  obtain ⟨h, t, ht⟩ := List.exists_cons_of_ne_nil (List.splitOnP_ne_nil b xs)
  simp [wordsFrom, List.splitOnP_cons_eq_if_modifyHead, hx, ht]

theorem words_append_cons {x : α} (hx : b x = true) (xs ys : List α) :
    words b q (xs ++ x :: ys) = words b q xs ++ words b q ys := by
  rw [words, List.splitOnP_append_cons xs ys hx, List.map_append, List.filter_append]
  rfl

/-- What is trimmed from words begins none. -/
theorem words_cons {x : α} (hx : b x = true ∨ q x = true) (xs : List α) :
    words b q (x :: xs) = words b q xs := by
  cases hb : b x with
  | true => exact words_append_cons hb [] xs
  | false =>
    have hq : q x = true := hx.resolve_left (by simp [hb])
    obtain ⟨h, t, ht⟩ := List.exists_cons_of_ne_nil (List.splitOnP_ne_nil b xs)
    simp [words, List.splitOnP_cons_eq_if_modifyHead, hb, ht, trim_cons hq]

theorem wordsFrom_concat {x : α} (hx : b x = true ∨ q x = true) (xs begun : List α) :
    wordsFrom b q begun (xs ++ [x]) = wordsFrom b q begun xs := by
  induction xs generalizing begun with
  | nil =>
    cases hb : b x with
    | true => simp [wordsFrom_cons_pos hb, words]
    | false => simp [wordsFrom_cons_neg hb, trim_concat (hx.resolve_left (by simp [hb]))]
  | cons y xs ih =>
    cases hb : b y with
    | true =>
      rw [List.cons_append, wordsFrom_cons_pos hb, wordsFrom_cons_pos hb, words_eq_wordsFrom, ih,
        words_eq_wordsFrom]
    | false => rw [List.cons_append, wordsFrom_cons_neg hb, wordsFrom_cons_neg hb, ih]

/-- … and ends none. -/
theorem words_concat {x : α} (hx : b x = true ∨ q x = true) (xs : List α) :
    words b q (xs ++ [x]) = words b q xs := by
  rw [words_eq_wordsFrom, wordsFrom_concat hx, words_eq_wordsFrom]

theorem words_append_left {xs ys : List α} (h : ∀ x ∈ xs, b x = true ∨ q x = true) :
    words b q (xs ++ ys) = words b q ys := by
  induction xs with
  | nil => rfl
  | cons x xs ih =>
    rw [List.cons_append, words_cons (h x (List.mem_cons_self ..))]
    exact ih fun y hy => h y (List.mem_cons_of_mem _ hy)

theorem words_append_right {xs ys : List α} (h : ∀ y ∈ ys, b y = true ∨ q y = true) :
    words b q (xs ++ ys) = words b q xs := by
  induction ys using List.reverseRecOn with
  | nil => rw [List.append_nil]
  | append_singleton ys y ih =>
    rw [← List.append_assoc, words_concat (h y (by simp))]
    exact ih fun z hz => h z (List.mem_append_left _ hz)

/-- **Trimming keeps the words.** -/
theorem words_trim (xs : List α) : words b q (trim q xs) = words b q xs := by
  obtain ⟨u, v, h, hu, hv⟩ := exists_trim q xs
  conv_rhs => rw [h]
  rw [words_append_right fun y hy => Or.inr (hv y hy), words_append_left
    fun x hx => Or.inr (hu x hx)]

/-- Separators may be replaced by others. -/
theorem words_map {f : α → α} (hb : ∀ x, b (f x) = b x) (hf : ∀ x, b x = false → f x = x)
    (xs : List α) : words b q (xs.map f) = words b q xs := by
  have h : ∀ begun, wordsFrom b q begun (xs.map f) = wordsFrom b q begun xs := by
    induction xs with
    | nil => intro begun; rfl
    | cons x xs ih =>
      intro begun
      cases hx : b x with
      | true =>
        rw [List.map_cons, wordsFrom_cons_pos ((hb x).trans hx), wordsFrom_cons_pos hx,
          words_eq_wordsFrom, ih, words_eq_wordsFrom]
      | false =>
        rw [List.map_cons, hf x hx, wordsFrom_cons_neg hx, wordsFrom_cons_neg hx, ih]
  rw [words_eq_wordsFrom, h, words_eq_wordsFrom]

theorem infix_of_mem_wordsFrom {xs begun w : List α} (h : w ∈ wordsFrom b q begun xs) :
    w <:+: begun ++ xs := by
  have hnil : ∀ begun : List α, w ∈ wordsFrom b q begun [] → w <:+: begun := by
    intro begun h
    rw [wordsFrom_nil] at h
    split_ifs at h
    · simp at h
    · rw [List.mem_singleton.mp h]
      exact trim_part q begun
  induction xs generalizing begun with
  | nil => exact (hnil begun h).trans (List.prefix_append _ _).isInfix
  | cons x xs ih =>
    cases hx : b x with
    | true =>
      rw [wordsFrom_cons_pos hx, List.mem_append, words_eq_wordsFrom] at h
      rcases h with h | h
      · exact (hnil begun h).trans (List.prefix_append _ _).isInfix
      · exact (ih h).trans ⟨begun ++ [x], [], by simp⟩
    | false =>
      rw [wordsFrom_cons_neg hx] at h
      simpa using ih h

section Parts

variable {P : List α → Prop}

/-- Two lists with the property have it when they are joined at an element. -/
def Joins (P : List α → Prop) (x : α) : Prop := ∀ us vs, P us → P vs → P (us ++ x :: vs)

theorem of_trim (xs : List α) (hjoin : ∀ x ∈ xs, q x = true → Joins P x) (hnil : P [])
    (h : P (trim q xs)) : P xs := by
  obtain ⟨u, v, he, hu, hv⟩ := exists_trim q xs
  have hleft : P (u ++ trim q xs) := by
    have hsub : ∀ x ∈ u, x ∈ xs := fun x hx => by rw [he]; simp [hx]
    clear he
    induction u with
    | nil => exact h
    | cons x u ih =>
      exact hjoin x (hsub x (List.mem_cons_self ..)) (hu x (List.mem_cons_self ..)) [] _ hnil
        (ih (fun y hy => hu y (List.mem_cons_of_mem _ hy))
          fun y hy => hsub y (List.mem_cons_of_mem _ hy))
  have hsub : ∀ x ∈ v, x ∈ xs := fun x hx => by rw [he]; simp [hx]
  rw [he]
  generalize u ++ trim q xs = m at hleft
  clear he
  induction v using List.reverseRecOn with
  | nil => rwa [List.append_nil]
  | append_singleton v x ih =>
    rw [← List.append_assoc]
    exact hjoin x (hsub x (by simp)) (hv x (by simp)) _ [] (ih (fun y hy => hv y (by simp [hy]))
      fun y hy => hsub y (by simp [hy])) hnil

/-- A word that ends where the list does. -/
theorem of_wordsFrom_nil {begun : List α} (hjoin : ∀ x ∈ begun, b x = true ∨ q x = true → Joins P x)
    (hnil : P []) (h : ∀ w ∈ wordsFrom b q begun [], P w) : P begun := by
  refine of_trim begun (fun x hx hq => hjoin x hx (Or.inr hq)) hnil ?_
  rw [wordsFrom_nil] at h
  split_ifs at h with ht
  · rw [ht]
    exact hnil
  · exact h _ (List.mem_singleton_self _)

/-- What has begun is part of what has the property. -/
theorem of_wordsFrom {begun xs : List α}
    (hjoin : ∀ x ∈ begun ++ xs, b x = true ∨ q x = true → Joins P x) (hnil : P [])
    (h : ∀ w ∈ wordsFrom b q begun xs, P w) : P (begun ++ xs) := by
  induction xs generalizing begun with
  | nil =>
    rw [List.append_nil] at hjoin ⊢
    exact of_wordsFrom_nil hjoin hnil h
  | cons x xs ih =>
    cases hx : b x with
    | true =>
      rw [wordsFrom_cons_pos hx, words_eq_wordsFrom] at h
      have hbegun : P begun :=
        of_wordsFrom_nil (fun y hy => hjoin y (List.mem_append_left _ hy)) hnil
        fun w hw => h w (List.mem_append_left _ hw)
      have hrest : P ([] ++ xs) :=
        ih (fun y hy => hjoin y (List.mem_append_right _ (List.mem_cons_of_mem _ hy)))
          fun w hw => h w (List.mem_append_right _ hw)
      exact hjoin x (by simp) (Or.inl hx) _ _ hbegun hrest
    | false =>
      rw [wordsFrom_cons_neg hx] at h
      have hrest : P (begun ++ [x] ++ xs) := ih (by simpa using hjoin) h
      simpa using hrest

/-- **A property of the parts of a list**, which may be joined at separators and at what is trimmed,
holds of the list when it holds of its words. -/
theorem forall_words_iff (xs : List α) (hjoin : ∀ x ∈ xs, b x = true ∨ q x = true → Joins P x)
    (hpart : ∀ us vs, us <:+: vs → P vs → P us) (hnil : P []) :
    (∀ w ∈ words b q xs, P w) ↔ P xs := by
  rw [words_eq_wordsFrom]
  constructor
  · intro h
    exact of_wordsFrom (by simpa using hjoin) hnil h
  · intro h w hw
    exact hpart _ _ (infix_of_mem_wordsFrom hw) h

end Parts

end Words

/-! ### Runs -/

section Squeeze

variable (p : α → Bool) (c : α) (n : ℕ)

/-- **Every run of `p` written as that many `c`**, at most `n`; the run that the list begins in has
had `k` already. -/
def squeeze : ℕ → List α → List α
  | _, [] => []
  | k, x :: xs =>
    if p x then if k < n then c :: squeeze (k + 1) xs else squeeze k xs else x :: squeeze 0 xs

variable {p c n}

@[simp] theorem squeeze_nil (k : ℕ) : squeeze p c n k [] = [] := rfl

theorem squeeze_cons_lt {k : ℕ} {x : α} (hx : p x = true) (hk : k < n) (xs : List α) :
    squeeze p c n k (x :: xs) = c :: squeeze p c n (k + 1) xs := by
  rw [squeeze, if_pos hx, if_pos hk]

theorem squeeze_cons_ge {k : ℕ} {x : α} (hx : p x = true) (hk : ¬ k < n) (xs : List α) :
    squeeze p c n k (x :: xs) = squeeze p c n k xs := by
  rw [squeeze, if_pos hx, if_neg hk]

theorem squeeze_cons_neg {k : ℕ} {x : α} (hx : p x = false) (xs : List α) :
    squeeze p c n k (x :: xs) = x :: squeeze p c n 0 xs := by
  rw [squeeze, if_neg (by simp [hx])]

theorem length_squeeze_le (k : ℕ) (xs : List α) : (squeeze p c n k xs).length ≤ xs.length := by
  fun_induction squeeze p c n k xs with
  | case1 => exact le_rfl
  | case2 k x xs hx hk ih => simp only [List.length_cons]; omega
  | case3 k x xs hx hk ih => simp only [List.length_cons]; omega
  | case4 k x xs hx ih => simp only [List.length_cons]; omega

/-- What stays is outside the runs, and the rest is the character the runs are written in. -/
theorem mem_squeeze {k : ℕ} {xs : List α} {y : α} (h : y ∈ squeeze p c n k xs) :
    (y ∈ xs ∧ p y = false) ∨ (y = c ∧ ∃ x ∈ xs, p x = true) := by
  fun_induction squeeze p c n k xs with
  | case1 => simp at h
  | case2 k x xs hx hk ih =>
    rcases List.mem_cons.mp h with rfl | h
    · exact Or.inr ⟨rfl, x, List.mem_cons_self .., hx⟩
    · grind
  | case3 k x xs hx hk ih => grind
  | case4 k x xs hx ih => grind

theorem mem_squeeze_of_neg {k : ℕ} {xs : List α} {y : α} (h : y ∈ xs) (hy : p y = false) :
    y ∈ squeeze p c n k xs := by
  fun_induction squeeze p c n k xs with
  | case1 => simp at h
  | case2 k x xs hx hk ih => grind
  | case3 k x xs hx hk ih => grind
  | case4 k x xs hx ih => grind

/-- A stretch outside the runs ends them. -/
theorem squeeze_append {xs : List α} (hne : xs ≠ []) (hx : ∀ x ∈ xs, p x = false) (k : ℕ)
    (ys : List α) : squeeze p c n k (xs ++ ys) = xs ++ squeeze p c n 0 ys := by
  induction xs generalizing k with
  | nil => exact absurd rfl hne
  | cons x xs ih =>
    rw [List.cons_append, squeeze_cons_neg (hx x (List.mem_cons_self ..)), List.cons_append]
    rcases eq_or_ne xs [] with rfl | hne
    · rfl
    · rw [ih hne fun y hy => hx y (List.mem_cons_of_mem _ hy)]

theorem squeeze_eq_nil_iff (hn : 0 < n) {xs : List α} : squeeze p c n 0 xs = [] ↔ xs = [] := by
  rcases xs with _ | ⟨x, xs⟩
  · simp
  · cases hx : p x with
    | true => simp [squeeze_cons_lt hx hn]
    | false => simp [squeeze_cons_neg hx]

theorem squeeze_append_cons {y : α} (hy : p y = false) (k : ℕ) (xs ys : List α) :
    squeeze p c n k (xs ++ y :: ys) = squeeze p c n k xs ++ y :: squeeze p c n 0 ys := by
  fun_induction squeeze p c n k xs with
  | case1 k => exact squeeze_cons_neg hy ys
  | case2 k x xs hx hk ih => rw [List.cons_append, squeeze_cons_lt hx hk, ih, List.cons_append]
  | case3 k x xs hx hk ih => rw [List.cons_append, squeeze_cons_ge hx hk, ih]
  | case4 k x xs hx ih =>
    rw [List.cons_append, squeeze_cons_neg (by simpa using hx), ih, List.cons_append]

theorem squeeze_concat {y : α} (hy : p y = false) (k : ℕ) (xs : List α) :
    squeeze p c n k (xs ++ [y]) = squeeze p c n k xs ++ [y] := squeeze_append_cons hy k xs []

/-- **Squeezing runs of separators keeps the words.** -/
theorem words_squeeze {b q : α → Bool} (hp : ∀ x, p x = true → b x = true) (hc : b c = true)
    (hn : 0 < n) (xs : List α) : words b q (squeeze p c n 0 xs) = words b q xs := by
  -- within a run no word has begun
  have h : ∀ k begun, (0 < k → begun = []) →
      wordsFrom b q begun (squeeze p c n k xs) = wordsFrom b q begun xs := by
    induction xs with
    | nil => intro k begun _; rfl
    | cons x xs ih =>
      intro k begun hk
      cases hx : p x with
      | true =>
        by_cases hkn : k < n
        · rw [squeeze_cons_lt hx hkn, wordsFrom_cons_pos hc, wordsFrom_cons_pos (hp x hx),
            words_eq_wordsFrom, ih (k + 1) [] fun _ => rfl, words_eq_wordsFrom]
        · obtain rfl := hk (by omega)
          rw [squeeze_cons_ge hx hkn, ih k [] fun _ => rfl, ← words_eq_wordsFrom,
            ← words_eq_wordsFrom, words_cons (Or.inl (hp x hx))]
      | false =>
        rw [squeeze_cons_neg hx]
        cases hb : b x with
        | true =>
          rw [wordsFrom_cons_pos hb, wordsFrom_cons_pos hb, words_eq_wordsFrom,
            ih 0 [] (by omega), words_eq_wordsFrom]
        | false => rw [wordsFrom_cons_neg hb, wordsFrom_cons_neg hb, ih 0 _ (by omega)]
  rw [words_eq_wordsFrom, h 0 [] (by omega), words_eq_wordsFrom]

/-! Lists with short runs only, which squeezing leaves alone. -/

theorem squeeze_squeeze (hc : p c = true) (k : ℕ) (xs : List α) :
    squeeze p c n k (squeeze p c n k xs) = squeeze p c n k xs := by
  fun_induction squeeze p c n k xs with
  | case1 => rfl
  | case2 k x xs hx hk ih => rw [squeeze_cons_lt hc hk, ih]
  | case3 k x xs hx hk ih => exact ih
  | case4 k x xs hx ih => rw [squeeze_cons_neg (by simpa using hx), ih]

/-- The rest of a list with short runs has short runs. -/
theorem squeeze_eq_tail {k : ℕ} {x : α} {xs : List α} (h : squeeze p c n k (x :: xs) = x :: xs) :
    if p x then k < n ∧ x = c ∧ squeeze p c n (k + 1) xs = xs else squeeze p c n 0 xs = xs := by
  cases hx : p x with
  | true =>
    by_cases hk : k < n
    · rw [squeeze_cons_lt hx hk] at h
      obtain ⟨rfl, ht⟩ := List.cons.inj h
      exact ⟨hk, rfl, ht⟩
    · -- a dropped element would shorten the list
      rw [squeeze_cons_ge hx hk] at h
      have := length_squeeze_le (p := p) (c := c) (n := n) k xs
      rw [h] at this
      simp at this
  | false =>
    rw [squeeze_cons_neg hx] at h
    exact (List.cons.inj h).2

theorem squeeze_eq_of_le {j k : ℕ} (hjk : j ≤ k) {xs : List α} (h : squeeze p c n k xs = xs) :
    squeeze p c n j xs = xs := by
  induction xs generalizing j k with
  | nil => rfl
  | cons x xs ih =>
    have ht := squeeze_eq_tail h
    cases hx : p x with
    | true =>
      rw [if_pos hx] at ht
      obtain ⟨hk, rfl, ht⟩ := ht
      rw [squeeze_cons_lt hx (by omega), ih (by omega) ht]
    | false =>
      rw [if_neg (by simp [hx])] at ht
      rw [squeeze_cons_neg hx, ht]

theorem squeeze_eq_left {k : ℕ} {xs ys : List α} (h : squeeze p c n k (xs ++ ys) = xs ++ ys) :
    squeeze p c n k xs = xs := by
  induction xs generalizing k with
  | nil => rfl
  | cons x xs ih =>
    have ht := squeeze_eq_tail h
    cases hx : p x with
    | true =>
      rw [if_pos hx] at ht
      obtain ⟨hk, rfl, ht⟩ := ht
      rw [squeeze_cons_lt hx hk, ih ht]
    | false =>
      rw [if_neg (by simp [hx])] at ht
      rw [squeeze_cons_neg hx, ih ht]

theorem squeeze_eq_suffix {k : ℕ} {xs ys : List α} (h : squeeze p c n k (xs ++ ys) = xs ++ ys) :
    squeeze p c n 0 ys = ys := by
  induction xs generalizing k with
  | nil => exact squeeze_eq_of_le (Nat.zero_le k) h
  | cons x xs ih =>
    have ht := squeeze_eq_tail h
    split_ifs at ht with hx
    · exact ih ht.2.2
    · exact ih ht

/-- **A stretch of a list with short runs has short runs.** -/
theorem squeeze_eq_part {xs ys : List α} (h : xs <:+: ys) (hy : squeeze p c n 0 ys = ys) :
    squeeze p c n 0 xs = xs := by
  obtain ⟨u, v, rfl⟩ := h
  exact squeeze_eq_suffix (squeeze_eq_left hy)

/-- No run is longer than the limit. -/
theorem not_replicate_infix (hc : p c = true) {ys : List α} (hy : squeeze p c n 0 ys = ys) :
    ¬ List.replicate (n + 1) c <:+: ys := by
  intro h
  have hrun : ∀ m k, squeeze p c n k (List.replicate m c) = List.replicate m c → m = 0 ∨
      k + m ≤ n := by
    intro m
    induction m with
    | zero => intro k _; exact Or.inl rfl
    | succ m ih =>
      intro k hm
      have ht := squeeze_eq_tail (List.replicate_succ ▸ hm)
      rw [if_pos hc] at ht
      have := ih (k + 1) ht.2.2
      omega
  have := hrun (n + 1) 0 (squeeze_eq_part h hy)
  omega

/-! Trimming and squeezing commute when the runs are of what is trimmed. -/

section Trim

variable {q : α → Bool} (hp : ∀ x, p x = true → q x = true) (hc : q c = true)
include hp hc

theorem dropWhile_squeeze (k : ℕ) (xs : List α) :
    (squeeze p c n k xs).dropWhile q = squeeze p c n 0 (xs.dropWhile q) := by
  fun_induction squeeze p c n k xs with
  | case1 => rfl
  | case2 k x xs hx hk ih =>
    rw [List.dropWhile_cons_of_pos hc, List.dropWhile_cons_of_pos (hp x hx), ih]
  | case3 k x xs hx hk ih => rw [List.dropWhile_cons_of_pos (hp x hx), ih]
  | case4 k x xs hx ih =>
    by_cases hq : q x = true
    · rw [List.dropWhile_cons_of_pos hq, List.dropWhile_cons_of_pos hq, ih]
    · rw [List.dropWhile_cons_of_neg hq, List.dropWhile_cons_of_neg hq,
        squeeze_cons_neg (by simpa using hx)]

omit hp hc in
theorem squeeze_concat_pos {y : α} (hy : p y = true) (k : ℕ) (xs : List α) :
    squeeze p c n k (xs ++ [y]) = squeeze p c n k xs ∨
      squeeze p c n k (xs ++ [y]) = squeeze p c n k xs ++ [c] := by
  fun_induction squeeze p c n k xs with
  | case1 k =>
    by_cases hk : k < n
    · exact Or.inr (squeeze_cons_lt hy hk [])
    · exact Or.inl (squeeze_cons_ge hy hk [])
  | case2 k x xs hx hk ih =>
    rw [List.cons_append, squeeze_cons_lt hx hk, List.cons_append]
    exact ih.imp (congrArg (c :: ·)) (congrArg (c :: ·))
  | case3 k x xs hx hk ih => rwa [List.cons_append, squeeze_cons_ge hx hk]
  | case4 k x xs hx ih =>
    rw [List.cons_append, squeeze_cons_neg (by simpa using hx), List.cons_append]
    exact ih.imp (congrArg (x :: ·)) (congrArg (x :: ·))

theorem rdropWhile_squeeze (k : ℕ) (xs : List α) :
    (squeeze p c n k xs).rdropWhile q = squeeze p c n k (xs.rdropWhile q) := by
  induction xs using List.reverseRecOn with
  | nil => rfl
  | append_singleton xs y ih =>
    cases hy : p y with
    | true =>
      rw [List.rdropWhile_concat_pos q _ _ (hp y hy), ← ih]
      rcases squeeze_concat_pos hy k xs with h | h
      · rw [h]
      · rw [h, List.rdropWhile_concat_pos q _ _ hc]
    | false =>
      rw [squeeze_concat hy, List.rdropWhile_concat, List.rdropWhile_concat, ih]
      split_ifs
      · rfl
      · rw [squeeze_concat hy]

theorem trim_squeeze (k : ℕ) (xs : List α) :
    trim q (squeeze p c n k xs) = squeeze p c n 0 (trim q xs) := by
  rw [trim, dropWhile_squeeze hp hc, rdropWhile_squeeze hp hc, trim]

end Trim

end Squeeze

/-! ### Lengths -/

section Lengths

variable {β : Type*} (p q : α → Bool) (n : ℕ)

/-- How many elements stand at the ends that trimming drops. -/
def outer (xs : List α) : ℕ := (xs.takeWhile q).length + ((xs.dropWhile q).rtakeWhile q).length

/-- How many elements of runs of `p` come after the first `n` of their run. -/
def surplus : ℕ → List α → ℕ
  | _, [] => 0
  | k, x :: xs =>
    if p x then if k < n then surplus (k + 1) xs else surplus k xs + 1 else surplus 0 xs

/-- How many elements go when the ends are trimmed and every run is cut to one. -/
def spare (xs : List α) : ℕ := outer q xs + surplus p 1 0 (trim q xs)

variable {p q n}

theorem length_trim_add_outer (xs : List α) : (trim q xs).length + outer q xs = xs.length := by
  have hl := congrArg List.length (List.takeWhile_append_dropWhile (p := q) (l := xs))
  have hr := congrArg List.length (List.rdropWhile_append_rtakeWhile (p := q) (l := xs.dropWhile q))
  rw [List.length_append] at hl hr
  rw [trim, outer]
  omega

theorem length_squeeze_add_surplus (c : α) (k : ℕ) (xs : List α) :
    (squeeze p c n k xs).length + surplus p n k xs = xs.length := by
  fun_induction squeeze p c n k xs with
  | case1 => rfl
  | case2 k x xs hx hk ih =>
    rw [surplus, if_pos hx, if_pos hk, List.length_cons, List.length_cons]; omega
  | case3 k x xs hx hk ih => rw [surplus, if_pos hx, if_neg hk, List.length_cons]; omega
  | case4 k x xs hx ih => rw [surplus, if_neg hx, List.length_cons, List.length_cons]; omega

/-- **What trimming and squeezing leave.** -/
theorem length_squeeze_trim_add_spare (c : α) (xs : List α) :
    (squeeze p c 1 0 (trim q xs)).length + spare p q xs = xs.length := by
  have ht := length_trim_add_outer (q := q) xs
  have hs := length_squeeze_add_surplus (p := p) (n := 1) c 0 (trim q xs)
  rw [spare]
  omega

theorem trim_map (f : β → α) (xs : List β) : trim q (xs.map f) = (trim (q ∘ f) xs).map f := by
  have hr : ∀ ys : List β, (ys.map f).rdropWhile q = (ys.rdropWhile (q ∘ f)).map f := by
    intro ys
    rw [List.rdropWhile, ← List.map_reverse, List.dropWhile_map, ← List.map_reverse,
      List.rdropWhile]
  rw [trim, List.dropWhile_map, hr, trim]

theorem surplus_map (f : β → α) (k : ℕ) (xs : List β) :
    surplus p n k (xs.map f) = surplus (p ∘ f) n k xs := by
  induction xs generalizing k with
  | nil => rfl
  | cons x xs ih => simp only [List.map_cons, surplus, ih, Function.comp_apply]

/-- The elements may be counted before they are mapped. -/
theorem spare_map (f : β → α) (xs : List β) : spare p q (xs.map f) = spare (p ∘ f) (q ∘ f) xs := by
  have h := length_trim_add_outer (q := q) (xs.map f)
  have h' := length_trim_add_outer (q := q ∘ f) xs
  rw [trim_map, List.length_map, List.length_map] at h
  rw [spare, spare, trim_map, surplus_map]
  omega

end Lengths

/-! ### Joined lines -/

section Join

variable {s : α}

/-- The lines after the first, each after a separator. -/
theorem intercalate_cons_eq (l : List α) (ls : List (List α)) :
    [s].intercalate (l :: ls) = l ++ ls.flatMap (s :: ·) := by
  induction ls generalizing l with
  | nil => simp
  | cons m ls ih => rw [List.intercalate_cons_cons, ih]; simp

theorem intercalate_concat {ls : List (List α)} (h : ls ≠ []) (l : List α) :
    [s].intercalate (ls ++ [l]) = [s].intercalate ls ++ s :: l := by
  obtain ⟨m, ms, rfl⟩ := List.exists_cons_of_ne_nil h
  rw [List.cons_append, intercalate_cons_eq, intercalate_cons_eq, List.flatMap_append]
  simp

theorem mem_intercalate {ls : List (List α)} {x : α} (h : x ∈ [s].intercalate ls) :
    x = s ∨ ∃ l ∈ ls, x ∈ l := by
  rcases ls with _ | ⟨l, ls⟩
  · simp at h
  · rw [intercalate_cons_eq] at h
    simp only [List.mem_append, List.mem_flatMap, List.mem_cons] at h
    grind

theorem mem_intercalate_of_mem {ls : List (List α)} {l : List α} (hl : l ∈ ls) {x : α}
    (hx : x ∈ l) :
    x ∈ [s].intercalate ls := by
  rcases ls with _ | ⟨m, ls⟩
  · simp at hl
  · rw [intercalate_cons_eq]
    simp only [List.mem_append, List.mem_flatMap, List.mem_cons]
    grind

theorem length_intercalate (ls : List (List α)) :
    ([s].intercalate ls).length = (ls.map List.length).sum + (ls.length - 1) := by
  rcases ls with _ | ⟨l, ls⟩
  · rfl
  · rw [intercalate_cons_eq]
    simp [Nat.add_assoc, List.length_flatMap, List.sum_map_add]

theorem words_intercalate {b q : α → Bool} (hs : b s = true) (ls : List (List α)) :
    words b q ([s].intercalate ls) = ls.flatMap (words b q) := by
  induction ls with
  | nil => simp [words]
  | cons l ls ih =>
    rcases ls with _ | ⟨m, ls⟩
    · simp
    · rw [List.intercalate_cons_cons, List.append_assoc, List.singleton_append,
        words_append_cons hs, ih]
      rfl

/-- Joined lines have short runs when the lines have, the separator being in no run. -/
theorem squeeze_intercalate_of_neg {p : α → Bool} {c : α} {n : ℕ} (hs : p s = false)
    {ls : List (List α)} (h : ∀ l ∈ ls, squeeze p c n 0 l = l) :
    squeeze p c n 0 ([s].intercalate ls) = [s].intercalate ls := by
  induction ls with
  | nil => rfl
  | cons l ls ih =>
    rcases ls with _ | ⟨m, ls⟩
    · simpa using h l
    · rw [List.intercalate_cons_cons, List.append_assoc, List.singleton_append,
        squeeze_append_cons hs, h l (List.mem_cons_self ..), ih fun k hk =>
          h k (List.mem_cons_of_mem _ hk)]

/-- No line has a separator. -/
theorem not_mem_of_mem_splitOn [DecidableEq α] {xs l : List α} (h : l ∈ xs.splitOn s) : s ∉ l := by
  induction xs generalizing l with
  | nil => rw [List.splitOn_nil, List.mem_singleton] at h; simp [h]
  | cons x xs ih =>
    rw [List.splitOn_cons_eq_if_modifyHead] at h
    split_ifs at h with hx
    · rcases List.mem_cons.mp h with rfl | h
      · simp
      · exact ih h
    · obtain ⟨m, ms, hm⟩ := List.exists_cons_of_ne_nil (List.splitOn_ne_nil s xs)
      rw [hm, List.modifyHead_cons] at h
      rcases List.mem_cons.mp h with rfl | h
      · have hs : s ∉ m := ih (by rw [hm]; exact List.mem_cons_self ..)
        have hne : s ≠ x := fun he => hx (by simp [he])
        simp [hs, hne]
      · exact ih (by rw [hm]; exact List.mem_cons_of_mem _ h)

theorem infix_intercalate {ls : List (List α)} {l : List α} (h : l ∈ ls) :
    l <:+: [s].intercalate ls := by
  obtain ⟨us, vs, rfl⟩ := List.append_of_mem h
  rcases us.eq_nil_or_concat with rfl | ⟨us, u, rfl⟩
  · rw [List.nil_append, intercalate_cons_eq]
    exact (List.prefix_append _ _).isInfix
  · induction us with
    | nil =>
      rw [List.concat_eq_append, List.nil_append, List.singleton_append, List.intercalate_cons_cons,
        intercalate_cons_eq]
      exact ⟨u ++ [s], vs.flatMap (s :: ·), by simp⟩
    | cons w us ih =>
      have hne : us.concat u ++ l :: vs ≠ [] := by simp
      obtain ⟨m, ms, hm⟩ := List.exists_cons_of_ne_nil hne
      rw [List.concat_cons, List.cons_append, hm, List.intercalate_cons_cons, ← hm]
      exact (ih (by simp)).trans (List.suffix_append _ _).isInfix

/-- A stretch without a separator begins a line. -/
theorem splitOn_append_of_not_mem [DecidableEq α] {xs : List α} (h : s ∉ xs) (ys : List α) :
    (xs ++ ys).splitOn s = (ys.splitOn s).modifyHead (xs ++ ·) := by
  obtain ⟨m, ms, hm⟩ := List.exists_cons_of_ne_nil (List.splitOn_ne_nil s ys)
  induction xs with
  | nil => simp [hm]
  | cons x xs ih =>
    rw [List.mem_cons, not_or] at h
    rw [List.cons_append, List.splitOn_cons_eq_if_modifyHead, if_neg (by simpa using Ne.symm h.1),
      ih h.2, hm]
    rfl

/-- **A stretch without a separator** lies in a line. -/
theorem exists_mem_splitOn_of_infix [DecidableEq α] {xs ys : List α} (h : s ∉ xs)
    (hxs : xs <:+: ys) :
    ∃ l ∈ ys.splitOn s, xs <:+: l := by
  obtain ⟨u, v, rfl⟩ := hxs
  rw [List.append_assoc]
  induction u with
  | nil =>
    obtain ⟨m, ms, hm⟩ := List.exists_cons_of_ne_nil (List.splitOn_ne_nil s v)
    rw [List.nil_append, splitOn_append_of_not_mem h, hm]
    exact ⟨xs ++ m, List.mem_cons_self, (List.prefix_append _ _).isInfix⟩
  | cons x u ih =>
    obtain ⟨l, hl, hpart⟩ := ih
    rw [List.cons_append, List.splitOn_cons_eq_if_modifyHead]
    split_ifs
    · exact ⟨l, List.mem_cons_of_mem _ hl, hpart⟩
    · obtain ⟨m, ms, hm⟩ := List.exists_cons_of_ne_nil (List.splitOn_ne_nil s (u ++ (xs ++ v)))
      rw [hm] at hl ⊢
      rcases List.mem_cons.mp hl with rfl | hl
      · exact ⟨x :: l, List.mem_cons_self, hpart.trans (List.suffix_cons x l).isInfix⟩
      · exact ⟨l, List.mem_cons_of_mem _ hl, hpart⟩

theorem infix_of_mem_splitOn [DecidableEq α] {xs l : List α} (h : l ∈ xs.splitOn s) :
    l <:+: xs := by
  have hjoin : [s].intercalate (xs.splitOn s) = xs := List.intercalate_splitOn s
  exact hjoin ▸ infix_intercalate h

section Trim

variable {q : α → Bool} (hs : q s = true)
include hs

theorem dropWhile_intercalate {ls : List (List α)} (hl : ∀ l ∈ ls, trim q l = l) :
    ([s].intercalate ls).dropWhile q = [s].intercalate (ls.dropWhile List.isEmpty) := by
  induction ls with
  | nil => rfl
  | cons l ls ih =>
    rcases l with _ | ⟨x, l⟩
    · rw [List.dropWhile_cons_of_pos rfl, ← ih fun m hm => hl m (List.mem_cons_of_mem _ hm)]
      rcases ls with _ | ⟨m, ls⟩
      · rfl
      · rw [List.intercalate_cons_cons, List.nil_append, List.singleton_append,
          List.dropWhile_cons_of_pos hs]
    · have hx : q x = false := head_trim (hl _ (List.mem_cons_self ..))
      rw [List.dropWhile_cons_of_neg (by simp), intercalate_cons_eq, List.cons_append,
        List.dropWhile_cons_of_neg (by simp [hx])]

theorem rdropWhile_intercalate {ls : List (List α)} (hl : ∀ l ∈ ls, trim q l = l) :
    ([s].intercalate ls).rdropWhile q = [s].intercalate (ls.rdropWhile List.isEmpty) := by
  induction ls using List.reverseRecOn with
  | nil => rfl
  | append_singleton ls l ih =>
    rcases l.eq_nil_or_concat with rfl | ⟨m, x, rfl⟩
    · rw [List.rdropWhile_concat_pos _ _ _ rfl, ← ih fun m hm => hl m (List.mem_append_left _ hm)]
      rcases eq_or_ne ls [] with rfl | hne
      · rfl
      · rw [intercalate_concat hne, List.rdropWhile_concat_pos q _ _ hs]
    · rw [List.concat_eq_append] at hl ⊢
      have hx : q x = false :=
        last_trim (hl _ (List.mem_append_right _ (List.mem_singleton_self _)))
      rw [List.rdropWhile_concat_neg _ _ _ (by simp)]
      rcases eq_or_ne ls [] with rfl | hne
      · rw [List.nil_append, List.intercalate_singleton,
          List.rdropWhile_concat_neg _ _ _ (by simp [hx])]
      · rw [intercalate_concat hne, ← List.cons_append, ← List.append_assoc,
          List.rdropWhile_concat_neg _ _ _ (by simp [hx])]

omit hs in
/-- Empty lines add nothing. -/
theorem flatten_trim (ls : List (List α)) : (trim List.isEmpty ls).flatten = ls.flatten := by
  obtain ⟨us, vs, he, hu, hv⟩ := exists_trim List.isEmpty ls
  have hnil : ∀ ms : List (List α), (∀ m ∈ ms, m.isEmpty = true) → ms.flatten = [] := fun ms h =>
    List.flatten_eq_nil_iff.mpr fun m hm => List.isEmpty_iff.mp (h m hm)
  conv_rhs => rw [he]
  rw [List.flatten_append, List.flatten_append, hnil us hu, hnil vs hv, List.nil_append,
    List.append_nil]

omit hs in
theorem flatten_squeeze (n k : ℕ) (ls : List (List α)) :
    (squeeze List.isEmpty [] n k ls).flatten = ls.flatten := by
  fun_induction squeeze List.isEmpty [] n k ls with
  | case1 => rfl
  | case2 k l ls hl hk ih => rw [List.flatten_cons, ih, List.flatten_cons, List.isEmpty_iff.mp hl]
  | case3 k l ls hl hk ih => rw [ih, List.flatten_cons, List.isEmpty_iff.mp hl, List.nil_append]
  | case4 k l ls hl ih => rw [List.flatten_cons, ih, List.flatten_cons]

/-- **Trimming joined lines** drops the empty lines at the ends. -/
theorem trim_intercalate {ls : List (List α)} (hl : ∀ l ∈ ls, trim q l = l) :
    trim q ([s].intercalate ls) = [s].intercalate (trim List.isEmpty ls) := by
  rw [trim, dropWhile_intercalate hs hl, rdropWhile_intercalate hs, trim]
  exact fun l h => hl l ((List.dropWhile_sublist _).subset h)

end Trim

/-- Separators squeezed to two: of the empty lines before a line that is not empty one is left. -/
theorem squeeze_flatMap {p : α → Bool} (hp : p s = true) {ls : List (List α)}
    (hs : ∀ l ∈ ls, ∀ x ∈ l, p x = false) (hlast : ls.getLast? ≠ some []) :
    squeeze p s 2 0 (ls.flatMap (s :: ·)) =
        (squeeze List.isEmpty [] 1 0 ls).flatMap (s :: ·) ∧
      squeeze p s 2 1 (ls.flatMap (s :: ·)) =
        (squeeze List.isEmpty [] 1 1 ls).flatMap (s :: ·) ∧
      (ls ≠ [] → s :: squeeze p s 2 2 (ls.flatMap (s :: ·)) =
        (squeeze List.isEmpty [] 1 1 ls).flatMap (s :: ·)) := by
  induction ls with
  | nil => exact ⟨rfl, rfl, fun h => absurd rfl h⟩
  | cons l ls ih =>
    have hls : ls.getLast? ≠ some [] := by
      intro h
      rw [List.getLast?_cons, h] at hlast
      simp at hlast
    obtain ⟨ih0, ih1, ih2⟩ := ih (fun m hm => hs m (List.mem_cons_of_mem _ hm)) hls
    rw [List.flatMap_cons, List.cons_append]
    rcases eq_or_ne l [] with rfl | hne
    · -- the line after an empty one is there, the last line not being empty
      have hmore : ls ≠ [] := by rintro rfl; simp at hlast
      rw [List.nil_append, squeeze_cons_lt hp (by omega), squeeze_cons_lt hp (by omega),
        squeeze_cons_ge hp (by omega), squeeze_cons_lt (p := List.isEmpty) rfl (by omega),
        squeeze_cons_ge (p := List.isEmpty) rfl (by omega), List.flatMap_cons]
      exact ⟨by rw [ih1]; rfl, ih2 hmore, fun _ => ih2 hmore⟩
    · have hl : ∀ x ∈ l, p x = false := hs l (List.mem_cons_self ..)
      have hle : l.isEmpty = false := List.isEmpty_eq_false_iff.mpr hne
      rw [squeeze_cons_lt hp (by omega), squeeze_cons_lt hp (by omega),
        squeeze_cons_ge hp (by omega), squeeze_cons_neg hle, squeeze_cons_neg hle,
        List.flatMap_cons]
      simp [squeeze_append hne hl, ih0]

/-- **Squeezing joined lines** leaves one of the empty lines between two others. -/
theorem squeeze_intercalate {p : α → Bool} (hp : p s = true) {ls : List (List α)}
    (hs : ∀ l ∈ ls, ∀ x ∈ l, p x = false) (htrim : trim List.isEmpty ls = ls) :
    squeeze p s 2 0 ([s].intercalate ls) =
      [s].intercalate (squeeze List.isEmpty [] 1 0 ls) := by
  rcases ls with _ | ⟨l, ls⟩
  · rfl
  · have hle : l.isEmpty = false := head_trim htrim
    have hlast : ls.getLast? ≠ some [] := by
      intro h
      obtain ⟨ms, rfl⟩ := List.getLast?_eq_some_iff.mp h
      have := last_trim (htrim.trans (@List.cons_append _ l ms [[]]).symm)
      simp at this
    have hl : ∀ x ∈ l, p x = false := hs l (List.mem_cons_self ..)
    rw [intercalate_cons_eq, squeeze_append (by simpa using hle) hl, squeeze_cons_neg hle,
      intercalate_cons_eq,
      (squeeze_flatMap hp (fun m hm => hs m (List.mem_cons_of_mem _ hm)) hlast).1]

end Join

end KwAwards.Lib.Words
