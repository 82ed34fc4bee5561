import Mathlib.Tactic

/-! # A cache with expiring counters

The shared cache as its clients see it: a value and the instant it expires for each key. `add`
writes a key only when it is absent, `incr` raises a counter and keeps the instant it expires. An
expired entry is absent, and no other entry is lost.

A cache that keeps its entries in rows (`getRow`, `setRow`, `addRow`) writes the instant rounded by
`whole`, and its entries last through that instant. -/

namespace KwAwards.Lib.Counters

/-- A stored counter. -/
structure Entry (τ : Type*) where
  value : ℕ
  expires : τ

/-- The entries by key. With `add`, `incr` and `set` below it stands for a cache whose `incr` keeps
the expiry that `add` or `set` gave the entry, and which evicts nothing. -/
def Cache (τ : Type*) := String → Option (Entry τ)

section Operations

variable {τ : Type*} [LinearOrder τ] [Add τ]

namespace Cache

def empty : Cache τ := fun _ => none

/-- The value of a key that has not expired. -/
def get (c : Cache τ) (now : τ) (k : String) : Option ℕ :=
  match c k with
  | some e => if now < e.expires then some e.value else none
  | none => none

def set (c : Cache τ) (now : τ) (k : String) (value : ℕ) (timeout : τ) : Cache τ :=
  Function.update c k (some ⟨value, now + timeout⟩)

def add (c : Cache τ) (now : τ) (k : String) (value : ℕ) (timeout : τ) : Cache τ :=
  if (c.get now k).isSome then c else c.set now k value timeout

/-- `none` is the `ValueError` for a key that is absent. -/
def incr (c : Cache τ) (now : τ) (k : String) : Option (Cache τ × ℕ) :=
  match c k with
  | some e =>
    if now < e.expires then some (Function.update c k (some { e with value := e.value + 1 }),
      e.value + 1)
    else none
  | none => none

/-- The value of a key whose row has not expired. -/
def getRow (c : Cache τ) (now : τ) (k : String) : Option ℕ :=
  match c k with
  | some e => if e.expires < now then none else some e.value
  | none => none

def setRow (whole : τ → τ) (c : Cache τ) (now : τ) (k : String) (value : ℕ) (timeout : τ) :
    Cache τ :=
  Function.update c k (some ⟨value, whole (now + timeout)⟩)

/-- A row that has expired by the rounded clock is written over. -/
def addRow (whole : τ → τ) (c : Cache τ) (now : τ) (k : String) (value : ℕ) (timeout : τ) :
    Cache τ :=
  match c k with
  | some e => if e.expires < whole now then c.setRow whole now k value timeout else c
  | none => c.setRow whole now k value timeout

/-- Without the entry of a key. -/
def drop (c : Cache τ) (k : String) : Cache τ := Function.update c k none

/-- `add`, then `incr`, then the counter set to one should the key have gone in between. -/
def count (c : Cache τ) (now : τ) (k : String) (timeout : τ) : Cache τ × ℕ :=
  let c := c.add now k 0 timeout
  match c.incr now k with
  | some r => r
  | none => (c.set now k 1 timeout, 1)

end Cache

end Operations

/-! ### What the operations do to the entries -/

namespace Cache

section Order

variable {τ : Type*} [LinearOrder τ] {c c' : Cache τ} {now : τ} {k : String} {n : ℕ} {e : Entry τ}

theorem get_of_live (h : c k = some e) (hl : now < e.expires) : c.get now k = some e.value := by
  unfold get
  rw [h]
  exact if_pos hl

theorem get_eq_some (h : c.get now k = some n) :
    ∃ e, c k = some e ∧ now < e.expires ∧ e.value = n := by
  unfold get at h
  split at h
  · next e he =>
    split_ifs at h with hl
    exact ⟨e, he, hl, Option.some.inj h⟩
  · simp at h

/-- An increment raises the value of a counter that has not expired, and no other. -/
theorem incr_eq_some (h : c.incr now k = some (c', n)) : ∃ e, c k = some e ∧ now < e.expires ∧
    n = e.value + 1 ∧ c' k = some { e with value := e.value + 1 } ∧ ∀ k' ≠ k, c' k' = c k' := by
  unfold incr at h
  split at h
  · next e he =>
    split_ifs at h with hl
    obtain ⟨rfl, rfl⟩ := Prod.mk.inj (Option.some.inj h)
    exact ⟨e, he, hl, rfl, Function.update_self .., fun k' hk => Function.update_of_ne hk ..⟩
  · simp at h

theorem incr_of_live (h : c k = some e) (hl : now < e.expires) :
    ∃ c', c.incr now k = some (c', e.value + 1) := by
  unfold incr
  rw [h]
  exact ⟨_, if_pos hl⟩

end Order

section Write

variable {τ : Type*} [Add τ] {c : Cache τ} {now timeout : τ} {k key : String} {v : ℕ}

theorem set_self (c : Cache τ) (now : τ) (k : String) (v : ℕ) (timeout : τ) :
    c.set now k v timeout k = some ⟨v, now + timeout⟩ :=
  Function.update_self ..

theorem set_of_ne (h : k ≠ key) : c.set now key v timeout k = c k := Function.update_of_ne h ..

theorem setRow_self (whole : τ → τ) (c : Cache τ) (now : τ) (k : String) (v : ℕ) (timeout : τ) :
    c.setRow whole now k v timeout k = some ⟨v, whole (now + timeout)⟩ :=
  Function.update_self ..

theorem setRow_of_ne {whole : τ → τ} (h : k ≠ key) : c.setRow whole now key v timeout k = c k :=
  Function.update_of_ne h ..

variable [LinearOrder τ]

theorem add_of_live {e : Entry τ} (h : c k = some e) (hl : now < e.expires) :
    c.add now k v timeout = c := by
  unfold add
  rw [get_of_live h hl]
  rfl

theorem add_of_none (h : c k = none) : c.add now k v timeout = c.set now k v timeout := by
  unfold add get
  rw [h]
  rfl

theorem addRow_of_none {whole : τ → τ} (h : c k = none) :
    c.addRow whole now k v timeout = c.setRow whole now k v timeout := by
  unfold addRow
  rw [h]

theorem addRow_of_kept {whole : τ → τ} {e : Entry τ} (h : c k = some e)
    (hl : whole now ≤ e.expires) : c.addRow whole now k v timeout = c := by
  unfold addRow
  rw [h]
  exact if_neg (not_lt.mpr hl)

theorem addRow_of_ne {whole : τ → τ} (h : k ≠ key) :
    c.addRow whole now key v timeout k = c k := by
  unfold addRow
  rcases c key with _ | e
  · exact setRow_of_ne h
  · by_cases hl : e.expires < whole now
    · simp only [if_pos hl]
      exact setRow_of_ne h
    · simp only [if_neg hl]

omit [Add τ] in
theorem getRow_of_found {e : Entry τ} (h : c k = some e) (hl : now ≤ e.expires) :
    c.getRow now k = some e.value := by
  unfold getRow
  rw [h]
  exact if_neg (not_lt.mpr hl)

/-- The number that is counted: one more than the value that has not expired, or than none. -/
theorem count_snd (c : Cache τ) (now : τ) (k : String) (timeout : τ) :
    (c.count now k timeout).2 = (c.get now k).getD 0 + 1 := by
  unfold count
  rcases hg : c.get now k with _ | n
  · have hadd : c.add now k 0 timeout = c.set now k 0 timeout := by
      unfold add
      rw [hg]
      rfl
    simp only [hadd, incr, set_self]
    by_cases hl : now < now + timeout
    · simp [hl]
    · simp [hl]
  · obtain ⟨e, he, hl, rfl⟩ := get_eq_some hg
    obtain ⟨c', hc⟩ := incr_of_live he hl
    simp only [add_of_live he hl, hc, Option.getD_some]

/-- A counter that has not expired is raised, and expires when it did. -/
theorem count_of_live {e : Entry τ} (h : c k = some e) (hl : now < e.expires) :
    c.count now k timeout =
      (Function.update c k (some { e with value := e.value + 1 }), e.value + 1) := by
  unfold count incr
  simp only [add_of_live h hl, h, if_pos hl]
  rfl

/-- An absent counter begins at one. -/
theorem count_of_none (h : c k = none) (hl : now < now + timeout) :
    c.count now k timeout = (c.set now k 1 timeout, 1) := by
  unfold count incr
  simp only [add_of_none h, set_self, if_pos hl]
  refine Prod.ext (funext fun k' => ?_) rfl
  by_cases hk : k' = k
  · subst hk
    exact (Function.update_self ..).trans (set_self c now k' 1 timeout).symm
  · exact (Function.update_of_ne hk ..).trans ((set_of_ne hk).trans (set_of_ne hk).symm)

theorem add_of_ne (h : k ≠ key) : c.add now key v timeout k = c k := by
  unfold add
  split_ifs
  · rfl
  · exact set_of_ne h

end Write

end Cache

end KwAwards.Lib.Counters
