import KwAwards.Lib.Counters
import KwAwards.Lib.Run

/-! # Calls that count themselves

A call counts itself under a key of a shared cache: it adds the counter at zero, increments it, and
sets it to one should the counter have gone in between. Any number of calls run interleaved. A cache
increments in one step (`atomic`), or keeps its entries in rows, reads the value and writes it back
with a default timeout (`readWrite`); such a cache rounds the instants it writes, takes no timeout
above a largest one, and drops rows when it is full.

`Exact` says that the counts given out under a key are one, two, three and so on, each once, so that
of the calls that have counted as many have a count up to a limit as the limit allows
(`card_granted`). A step keeps it when no counter lapses or is dropped and no two increments overlap
(`Careful`). With atomic increments nothing overlaps and no counter lapses before the instant the
timeouts last to (`Lasting`). -/

namespace KwAwards.Lib.Counting

open KwAwards.Lib.Counters KwAwards.Lib.Run

/-- How a cache increments; `whole` rounds an instant, and `largest` is the largest timeout that is
taken. -/
inductive Backend (τ : Type*)
  | atomic
  | readWrite (whole : τ → τ) (timeout largest : τ)

/-- Where a call stands. -/
inductive Phase (τ : Type*)
  | idle
  | begun (key : String) (timeout : τ)
  | added (key : String) (timeout : τ)
  | fetched (key : String) (timeout : τ) (value : ℕ)
  | missing (key : String) (timeout : τ)
  | counted (key : String) (count : ℕ)

/-- The key a call counts itself under. -/
def Phase.key {τ : Type*} : Phase τ → Option String
  | .idle => none
  | .begun key _ | .added key _ | .fetched key _ _ | .missing key _ | .counted key _ => some key

theorem key_eq_none {τ : Type*} {p : Phase τ} : p.key = none ↔ p = .idle := by
  cases p <;> simp [Phase.key]

/-- The cache, its clock and the calls. -/
structure State (ι τ : Type*) where
  cache : Cache τ
  now : τ
  calls : ι → Phase τ

/-- What can happen; `incr` is the read of a cache that increments by reading and writing, and
`cull` drops a row. -/
inductive Label (ι τ : Type*)
  | tick (t : τ)
  | cull (key : String)
  | begin (i : ι) (key : String) (timeout : τ)
  | add (i : ι)
  | incr (i : ι)
  | store (i : ι)
  | reset (i : ι)

variable {ι τ : Type*}

section Step

variable [DecidableEq ι]

def State.setCall (s : State ι τ) (i : ι) (p : Phase τ) : State ι τ :=
  { s with calls := Function.update s.calls i p }

variable [LinearOrder τ]

/-- What an increment does, or the read that begins one; a row that has expired is deleted. -/
def incremented (b : Backend τ) (s : State ι τ) (i : ι) (key : String) (timeout : τ) : State ι τ :=
  match b with
  | .atomic =>
    match s.cache.incr s.now key with
    | some (cache, count) => { s with cache }.setCall i (.counted key count)
    | none => s.setCall i (.missing key timeout)
  | .readWrite .. =>
    match s.cache.getRow s.now key with
    | some value => s.setCall i (.fetched key timeout value)
    | none => { s with cache := s.cache.drop key }.setCall i (.missing key timeout)

variable [Add τ]

/-- `none` is the error for a timeout that is too large. -/
def Backend.add (b : Backend τ) (cache : Cache τ) (now : τ) (key : String) (timeout : τ) :
    Option (Cache τ) :=
  match b with
  | .atomic => some (cache.add now key 0 timeout)
  | .readWrite whole _ largest =>
    if timeout ≤ largest then some (cache.addRow whole now key 0 timeout) else none

def Backend.set (b : Backend τ) (cache : Cache τ) (now : τ) (key : String) (value : ℕ)
    (timeout : τ) : Cache τ :=
  match b with
  | .atomic => cache.set now key value timeout
  | .readWrite whole _ _ => cache.setRow whole now key value timeout

def step (b : Backend τ) (s : State ι τ) : Label ι τ → Option (State ι τ)
  | .tick t => if s.now ≤ t then some { s with now := t } else none
  | .cull key =>
    match b with
    | .atomic => none
    | .readWrite .. => some { s with cache := s.cache.drop key }
  | .begin i key timeout =>
    match s.calls i with
    | .idle => some (s.setCall i (.begun key timeout))
    | _ => none
  | .add i =>
    match s.calls i with
    | .begun key timeout =>
      (b.add s.cache s.now key timeout).map fun cache =>
        { s with cache }.setCall i (.added key timeout)
    | _ => none
  | .incr i =>
    match s.calls i with
    | .added key timeout => some (incremented b s i key timeout)
    | _ => none
  | .store i =>
    match b, s.calls i with
    | .readWrite whole timeout _, .fetched key _ value =>
      some ({ s with cache := s.cache.setRow whole s.now key (value + 1) timeout }.setCall i
        (.counted key (value + 1)))
    | _, _ => none
  | .reset i =>
    match s.calls i with
    | .missing key timeout =>
      some ({ s with cache := b.set s.cache s.now key 1 timeout }.setCall i (.counted key 1))
    | _ => none

end Step

/-! ### What a step does to a call -/

section Calls

variable [DecidableEq ι] [LinearOrder τ]

/-- The call stands past its `add`. -/
def Phase.Past : Phase τ → Prop
  | .idle | .begun .. => False
  | _ => True

omit [DecidableEq ι] [LinearOrder τ] in
theorem not_begun_of_past {p : Phase τ} (h : p.Past) (key : String) (timeout : τ) :
    p ≠ .begun key timeout := by
  rintro rfl
  exact h

/-- An increment, or the read that begins one, moves one call. -/
theorem incremented_eq (b : Backend τ) (s : State ι τ) (i : ι) (key : String) (timeout : τ) :
    ∃ cache p, incremented b s i key timeout = { s with cache }.setCall i p ∧ p.key = some key ∧
      p.Past := by
  unfold incremented
  split
  · split
    · next cache n _ => exact ⟨cache, .counted key n, rfl, rfl, trivial⟩
    · exact ⟨s.cache, .missing key timeout, rfl, rfl, trivial⟩
  · split
    · next v _ => exact ⟨s.cache, .fetched key timeout v, rfl, rfl, trivial⟩
    · exact ⟨s.cache.drop key, .missing key timeout, rfl, rfl, trivial⟩

variable [Add τ]

/-- **A call** stays as it is, begins, or goes on under its key; one that has counted stays. -/
theorem step_calls {b : Backend τ} {s s' : State ι τ} {l : Label ι τ} (h : step b s l = some s')
    (i : ι) :
    s'.calls i = s.calls i ∨
      (s.calls i = .idle ∧ ∃ key timeout, l = .begin i key timeout ∧
        s'.calls i = .begun key timeout) ∨
      ((s.calls i).key ≠ none ∧ (s'.calls i).key = (s.calls i).key ∧ (s'.calls i).Past ∧
        ∀ key n, s.calls i ≠ .counted key n) := by
  -- the call that moves, with the phase it moves from and the one it moves to
  have hmoved : ∀ {j : ι} {key : String} {p q : Phase τ} {cache : Cache τ}, s.calls j = q →
      q.key = some key → (∀ key n, q ≠ .counted key n) → p.key = some key → p.Past →
      (({ s with cache }.setCall j p).calls i = s.calls i ∨
        ((s.calls i).key ≠ none ∧ (({ s with cache }.setCall j p).calls i).key = (s.calls i).key ∧
          (({ s with cache }.setCall j p).calls i).Past ∧ ∀ key n,
            s.calls i ≠ .counted key n)) := by
    intro j key p q cache hq hkey hne hp hpast
    by_cases hij : i = j
    · subst hij
      have hself : ({ s with cache }.setCall i p).calls i = p := Function.update_self ..
      rw [hself]
      exact Or.inr ⟨by simp [hq, hkey], by rw [hq, hkey, hp], hpast, hq ▸ hne⟩
    · exact Or.inl (Function.update_of_ne hij ..)
  cases l with
  | tick t =>
    simp only [step] at h
    split_ifs at h
    obtain rfl := Option.some.inj h
    exact Or.inl rfl
  | cull key =>
    simp only [step] at h
    split at h
    · simp at h
    · obtain rfl := Option.some.inj h
      exact Or.inl rfl
  | begin j key timeout =>
    simp only [step] at h
    split at h
    · next hj =>
      obtain rfl := Option.some.inj h
      by_cases hij : i = j
      · subst hij
        exact Or.inr (Or.inl ⟨hj, key, timeout, rfl, Function.update_self ..⟩)
      · exact Or.inl (Function.update_of_ne hij ..)
    · simp at h
  | add j =>
    simp only [step] at h
    split at h
    · next key timeout hj =>
      obtain ⟨cache, -, rfl⟩ := Option.map_eq_some_iff.mp h
      exact (hmoved (p := .added key timeout) hj rfl (by simp) rfl trivial).imp_right Or.inr
    · simp at h
  | incr j =>
    simp only [step] at h
    split at h
    · next key timeout hj =>
      obtain ⟨cache, p, hp, hkey, hpast⟩ := incremented_eq b s j key timeout
      rw [hp] at h
      obtain rfl := Option.some.inj h
      exact (hmoved hj rfl (by simp) hkey hpast).imp_right Or.inr
    · simp at h
  | store j =>
    simp only [step] at h
    split at h
    · next whole t largest key t' v hj =>
      obtain rfl := Option.some.inj h
      exact (hmoved (p := .counted key (v + 1)) hj rfl (by simp) rfl trivial).imp_right Or.inr
    · simp at h
  | reset j =>
    simp only [step] at h
    split at h
    · next key t hj =>
      obtain rfl := Option.some.inj h
      exact (hmoved (p := .counted key 1) hj rfl (by simp) rfl trivial).imp_right Or.inr
    · simp at h

/-- A call that does not begin keeps its key. -/
theorem key_of_step {b : Backend τ} {s s' : State ι τ} {l : Label ι τ} (h : step b s l = some s')
    {i : ι} (hl : ∀ key timeout, l ≠ .begin i key timeout) :
    (s'.calls i).key = (s.calls i).key := by
  rcases step_calls h i with hsame | ⟨-, key, timeout, hbegin, -⟩ | ⟨-, hkey, -⟩
  · rw [hsame]
  · exact absurd hbegin (hl key timeout)
  · exact hkey

end Calls

/-! ### What a step needs -/

section Needs

variable [LinearOrder τ]

/-- The cache takes the timeout. -/
def Backend.Accepts (b : Backend τ) (timeout : τ) : Prop :=
  match b with
  | .atomic => True
  | .readWrite _ _ largest => timeout ≤ largest

/-- An `add` leaves the counter, if there is one, as it is. -/
def Kept (b : Backend τ) (s : State ι τ) (k : String) : Prop :=
  match b with
  | .atomic => ∀ e, s.cache k = some e → s.now < e.expires
  | .readWrite whole _ _ => ∀ e, s.cache k = some e → whole s.now ≤ e.expires

/-- An increment finds the counter, if there is one. -/
def Found (b : Backend τ) (s : State ι τ) (k : String) : Prop :=
  match b with
  | .atomic => ∀ e, s.cache k = some e → s.now < e.expires
  | .readWrite .. => ∀ e, s.cache k = some e → s.now ≤ e.expires

/-- No call is between the read and the write of an increment. -/
def Alone (s : State ι τ) (k : String) : Prop := ∀ i timeout v, s.calls i ≠ .fetched k timeout v

/-- **A careful step** under `k` begins with a timeout that the cache takes, finds the counter, if
there is one, before it lapses, begins an increment when no other is under way, and drops no row of
`k`. -/
def Careful (b : Backend τ) (k : String) (s : State ι τ) (l : Label ι τ) (_ : State ι τ) : Prop :=
  match l with
  | .begin _ key timeout => key = k → b.Accepts timeout
  | .add i => ∀ timeout, s.calls i = .begun k timeout → Kept b s k
  | .incr i => ∀ timeout, s.calls i = .added k timeout → Found b s k ∧ Alone s k
  | .cull key => key = k → s.cache k = none
  | _ => True

/-- The cache does not take the timeout of the call, which has ended in the error. -/
def State.Refused (b : Backend τ) (s : State ι τ) (k : String) (i : ι) : Prop :=
  ∃ timeout, s.calls i = .begun k timeout ∧ ¬ b.Accepts timeout

/-- No call under `k` is refused. -/
def Taken (b : Backend τ) (k : String) (s : State ι τ) : Prop :=
  ∀ i timeout, s.calls i = .begun k timeout → b.Accepts timeout

instance (b : Backend τ) (timeout : τ) : Decidable (b.Accepts timeout) := by
  unfold Backend.Accepts
  cases b <;> infer_instance

end Needs

section Decide

variable [LinearOrder τ]

/-- A condition on the entry of a key, if there is one. -/
instance (c : Cache τ) (k : String) (p : Entry τ → Prop) [DecidablePred p] :
    Decidable (∀ e, c k = some e → p e) :=
  match h : c k with
  | none => isTrue (by simp)
  | some e => decidable_of_iff (p e) (by simp)

instance (b : Backend τ) (s : State ι τ) (k : String) : Decidable (Kept b s k) := by
  unfold Kept
  cases b <;> infer_instance

instance (b : Backend τ) (s : State ι τ) (k : String) : Decidable (Found b s k) := by
  unfold Found
  cases b <;> infer_instance

def Phase.isFetched (k : String) : Phase τ → Bool
  | .fetched key _ _ => decide (key = k)
  | _ => false

omit [LinearOrder τ] in
theorem isFetched_eq_true {k : String} {p : Phase τ} :
    p.isFetched k = true ↔ ∃ timeout v, p = .fetched k timeout v := by
  cases p <;> simp [Phase.isFetched]

instance [Fintype ι] (s : State ι τ) (k : String) : Decidable (Alone s k) :=
  decidable_of_iff (∀ i, ¬ (s.calls i).isFetched k = true) <| by
    simp only [isFetched_eq_true, Alone, not_exists]

instance [Fintype ι] (b : Backend τ) (k : String) (s : State ι τ) (l : Label ι τ)
    (s' : State ι τ) : Decidable (Careful b k s l s') :=
  match l with
  | .begin _ key timeout => decidable_of_iff (key = k → b.Accepts timeout) Iff.rfl
  | .add i =>
    match h : s.calls i with
    | .begun key _ => decidable_of_iff (key = k → Kept b s k) (by simp [Careful, h])
    | .idle | .added .. | .fetched .. | .missing .. | .counted .. => isTrue (by simp [Careful, h])
  | .incr i =>
    match h : s.calls i with
    | .added key _ => decidable_of_iff (key = k → Found b s k ∧ Alone s k) (by simp [Careful, h])
    | .idle | .begun .. | .fetched .. | .missing .. | .counted .. => isTrue (by simp [Careful, h])
  | .cull key => decidable_of_iff (key = k → (s.cache k).isNone = true) (by simp [Careful])
  | .tick _ | .store _ | .reset _ => isTrue trivial

end Decide

/-! ### The counts -/

/-- The value stored under a key, lapsed or not. -/
def value (s : State ι τ) (k : String) : ℕ := (s.cache k).elim 0 Entry.value

/-- **The counts under `k`** are those from one to the stored value, each given to one call. -/
structure Exact (k : String) (s : State ι τ) : Prop where
  bounds : ∀ i n, s.calls i = .counted k n → 1 ≤ n ∧ n ≤ value s k
  once : ∀ i j n, s.calls i = .counted k n → s.calls j = .counted k n → i = j
  all : ∀ n, 1 ≤ n → n ≤ value s k → ∃ i, s.calls i = .counted k n
  present : ∀ i timeout, s.calls i = .added k timeout → (s.cache k).isSome = true
  fetched : ∀ i timeout v, s.calls i = .fetched k timeout v →
    v = value s k ∧ ∀ j timeout' v', s.calls j = .fetched k timeout' v' → j = i
  found : ∀ i timeout, s.calls i ≠ .missing k timeout

/-- The phases of calls that have neither counted under `k` nor begun to. -/
def Before (k : String) (p : Phase τ) : Prop :=
  (∀ n, p ≠ .counted k n) ∧ (∀ timeout v, p ≠ .fetched k timeout v) ∧ ∀ timeout,
    p ≠ .missing k timeout

theorem before_idle (k : String) : Before k (.idle : Phase τ) := by simp [Before]

theorem before_begun (k key : String) (timeout : τ) : Before k (.begun key timeout) := by
  simp [Before]

theorem before_added (k key : String) (timeout : τ) : Before k (.added key timeout) := by
  simp [Before]

/-- A call under another key. -/
theorem before_of_ne {k key : String} (h : key ≠ k) (timeout : τ) (n : ℕ) :
    Before k (.missing key timeout) ∧ Before k (.fetched key timeout n) ∧
      Before k (.counted key n : Phase τ) := by
  simp [Before, h]

section Count

variable [DecidableEq ι]

/-- A call moves among the phases before counting, and the counter is still there. -/
theorem exact_move {k : String} {s s' : State ι τ} {i : ι} {p : Phase τ} (h : Exact k s)
    (hcalls : s'.calls = Function.update s.calls i p) (hi : Before k (s.calls i)) (hp : Before k p)
    (hvalue : value s' k = value s k)
    (hpresent : (s.cache k).isSome = true → (s'.cache k).isSome = true)
    (hadded : ∀ timeout, p = .added k timeout → (s'.cache k).isSome = true) : Exact k s' := by
  refine ⟨fun j n hj => ?_, fun j j' n hj hj' => ?_, fun n h1 hn => ?_, fun j timeout hj => ?_,
    fun j timeout v hj => ?_, fun j timeout hj => ?_⟩
  · rw [hcalls] at hj
    obtain ⟨-, hj⟩ | ⟨-, hj⟩ := update_cases hj
    · exact absurd hj (hp.1 n)
    · rw [hvalue]
      exact h.bounds j n hj
  · rw [hcalls] at hj hj'
    obtain ⟨-, hj⟩ | ⟨-, hj⟩ := update_cases hj
    · exact absurd hj (hp.1 n)
    · obtain ⟨-, hj'⟩ | ⟨-, hj'⟩ := update_cases hj'
      · exact absurd hj' (hp.1 n)
      · exact h.once j j' n hj hj'
  · rw [hvalue] at hn
    obtain ⟨j, hj⟩ := h.all n h1 hn
    have hji : j ≠ i := fun he => hi.1 n (he ▸ hj)
    refine ⟨j, ?_⟩
    rw [hcalls, Function.update_of_ne hji]
    exact hj
  · rw [hcalls] at hj
    obtain ⟨-, hj⟩ | ⟨-, hj⟩ := update_cases hj
    · exact hadded timeout hj
    · exact hpresent (h.present j timeout hj)
  · rw [hcalls] at hj
    obtain ⟨-, hj⟩ | ⟨-, hj⟩ := update_cases hj
    · exact absurd hj (hp.2.1 timeout v)
    · obtain ⟨hv, hother⟩ := h.fetched j timeout v hj
      refine ⟨hvalue ▸ hv, fun j' timeout' v' hj' => ?_⟩
      rw [hcalls] at hj'
      obtain ⟨-, hj'⟩ | ⟨-, hj'⟩ := update_cases hj'
      · exact absurd hj' (hp.2.1 timeout' v')
      · exact hother j' timeout' v' hj'
  · rw [hcalls] at hj
    obtain ⟨-, hj⟩ | ⟨-, hj⟩ := update_cases hj
    · exact hp.2.2 timeout hj
    · exact h.found j timeout hj

/-- **A call counts:** the counter goes up by one and the call has its new value. -/
theorem exact_count {k : String} {s s' : State ι τ} {i : ι} (h : Exact k s)
    (hcalls : s'.calls = Function.update s.calls i (.counted k (value s k + 1)))
    (hi : ∀ n, s.calls i ≠ .counted k n)
    (halone : ∀ j timeout v, s.calls j = .fetched k timeout v → j = i)
    (hvalue : value s' k = value s k + 1) (hpresent : (s'.cache k).isSome = true) : Exact k s' := by
  refine ⟨fun j n hj => ?_, fun j j' n hj hj' => ?_, fun n h1 hn => ?_, fun _ _ _ => hpresent,
    fun j timeout v hj => ?_, fun j timeout hj => ?_⟩
  · rw [hcalls] at hj
    rw [hvalue]
    obtain ⟨-, hj⟩ | ⟨-, hj⟩ := update_cases hj
    · obtain ⟨-, rfl⟩ := Phase.counted.inj hj
      exact ⟨Nat.succ_pos _, le_rfl⟩
    · obtain ⟨h1, hn⟩ := h.bounds j n hj
      exact ⟨h1, Nat.le_succ_of_le hn⟩
  · -- the new count is above the earlier ones
    have habove : ∀ j, s.calls j ≠ .counted k (value s k + 1) := fun j hj => by
      have hle := (h.bounds j _ hj).2
      omega
    rw [hcalls] at hj hj'
    obtain ⟨hji, hj⟩ | ⟨-, hj⟩ := update_cases hj
    · obtain ⟨-, rfl⟩ := Phase.counted.inj hj
      obtain ⟨hji', -⟩ | ⟨-, hj'⟩ := update_cases hj'
      · rw [hji, hji']
      · exact absurd hj' (habove j')
    · obtain ⟨-, hj'⟩ | ⟨-, hj'⟩ := update_cases hj'
      · obtain ⟨-, rfl⟩ := Phase.counted.inj hj'
        exact absurd hj (habove j)
      · exact h.once j j' n hj hj'
  · rw [hvalue] at hn
    rcases Nat.lt_or_ge (value s k) n with hlt | hle
    · obtain rfl : n = value s k + 1 := by omega
      refine ⟨i, ?_⟩
      rw [hcalls, Function.update_self]
    · obtain ⟨j, hj⟩ := h.all n h1 hle
      have hji : j ≠ i := fun he => hi n (he ▸ hj)
      refine ⟨j, ?_⟩
      rw [hcalls, Function.update_of_ne hji]
      exact hj
  · rw [hcalls] at hj
    obtain ⟨-, hj⟩ | ⟨hji, hj⟩ := update_cases hj
    · simp at hj
    · exact absurd (halone j timeout v hj) hji
  · rw [hcalls] at hj
    obtain ⟨-, hj⟩ | ⟨-, hj⟩ := update_cases hj
    · simp at hj
    · exact h.found j timeout hj

/-- A call under another key moves and leaves the counter. -/
theorem exact_other {k : String} {s s' : State ι τ} {i : ι} {p : Phase τ} (h : Exact k s)
    (hcalls : s'.calls = Function.update s.calls i p) (hi : Before k (s.calls i)) (hp : Before k p)
    (hnot : ∀ timeout, p ≠ .added k timeout) (hcache : s'.cache k = s.cache k) : Exact k s' := by
  refine exact_move h hcalls hi hp ?_ (fun hs => by rwa [hcache]) fun timeout ht =>
    absurd ht (hnot timeout)
  unfold value
  rw [hcache]

variable [LinearOrder τ] [Add τ]

omit [DecidableEq ι] in
/-- What an `add` does to the counter: nothing, or it is new. -/
theorem add_cases {b : Backend τ} {s : State ι τ} {key k : String} {timeout : τ} {cache : Cache τ}
    (h : b.add s.cache s.now key timeout = some cache) (hl : key = k → Kept b s k) :
    (∃ e, s.cache key = some e ∧ key = k ∧ cache = s.cache) ∨
      (key = k ∧ s.cache k = none ∧ ∃ e, cache k = some e ∧ e.value = 0) ∨
      (key ≠ k ∧ cache k = s.cache k) := by
  by_cases hk : key = k
  · subst hk
    have hkept := hl rfl
    rcases hentry : s.cache key with _ | e
    · refine Or.inr (Or.inl ⟨rfl, rfl, ?_⟩)
      cases b with
      | atomic =>
        obtain rfl := Option.some.inj h
        rw [Cache.add_of_none hentry]
        exact ⟨_, Cache.set_self .., rfl⟩
      | readWrite whole d largest =>
        simp only [Backend.add] at h
        split_ifs at h
        obtain rfl := Option.some.inj h
        rw [Cache.addRow_of_none hentry]
        exact ⟨_, Cache.setRow_self .., rfl⟩
    · refine Or.inl ⟨e, rfl, rfl, ?_⟩
      cases b with
      | atomic =>
        obtain rfl := Option.some.inj h
        exact Cache.add_of_live hentry (hkept e hentry)
      | readWrite whole d largest =>
        simp only [Backend.add] at h
        split_ifs at h
        obtain rfl := Option.some.inj h
        exact Cache.addRow_of_kept hentry (hkept e hentry)
  · refine Or.inr (Or.inr ⟨hk, ?_⟩)
    cases b with
    | atomic =>
      obtain rfl := Option.some.inj h
      exact Cache.add_of_ne (Ne.symm hk)
    | readWrite whole d largest =>
      simp only [Backend.add] at h
      split_ifs at h
      obtain rfl := Option.some.inj h
      exact Cache.addRow_of_ne (Ne.symm hk)

theorem exact_add {b : Backend τ} {k : String} {s : State ι τ} {i : ι} {key : String} {timeout : τ}
    {cache : Cache τ} (h : Exact k s) (hi : s.calls i = .begun key timeout)
    (hl : key = k → Kept b s k) (hadd : b.add s.cache s.now key timeout = some cache) :
    Exact k ({ s with cache }.setCall i (.added key timeout)) := by
  have hbefore : Before k (s.calls i) := hi ▸ before_begun k key timeout
  have hafter := before_added k key timeout
  rcases add_cases hadd hl with ⟨e, hentry, rfl, rfl⟩ | ⟨rfl, hnone, e, hentry, hzero⟩ | ⟨hk, hsame⟩
  · exact exact_move h rfl hbefore hafter rfl id fun _ _ => by simp [State.setCall, hentry]
  · -- the counter is new
    refine exact_move h rfl hbefore hafter ?_ ?_ fun _ _ => ?_
    · simp [value, State.setCall, hentry, hnone, hzero]
    · simp [hnone]
    · simp [State.setCall, hentry]
  · refine exact_other h rfl hbefore hafter (fun t ht => ?_) hsame
    exact hk (Phase.added.inj ht).1

omit [Add τ] in
theorem exact_incremented {b : Backend τ} {k : String} {s : State ι τ} {i : ι} {timeout : τ}
    (h : Exact k s) (hi : s.calls i = .added k timeout) (hl : Found b s k) (ha : Alone s k) :
    Exact k (incremented b s i k timeout) := by
  obtain ⟨e, hentry⟩ := Option.isSome_iff_exists.mp (h.present i timeout hi)
  have hvalue : value s k = e.value := by simp [value, hentry]
  cases b with
  | atomic =>
    obtain ⟨cache, hincr⟩ := Cache.incr_of_live hentry (hl e hentry)
    obtain ⟨e', he', -, -, hself, -⟩ := Cache.incr_eq_some hincr
    obtain rfl := Option.some.inj (hentry.symm.trans he')
    simp only [incremented, hincr]
    refine exact_count (i := i) h ?_ (by simp [hi]) (fun j t v hj => absurd hj (ha j t v)) ?_ ?_
    · rw [hvalue]; rfl
    · simp [value, State.setCall, hself, hentry]
    · simp [State.setCall, hself]
  | readWrite whole d largest =>
    simp only [incremented, Cache.getRow_of_found hentry (hl e hentry)]
    -- the call that has read the value is the only one
    refine ⟨fun j n hj => ?_, fun j j' n hj hj' => ?_, fun n h1 hn => ?_, fun j t hj => ?_,
      fun j t v hj => ?_, fun j t hj => ?_⟩
    · obtain ⟨-, hj⟩ | ⟨-, hj⟩ := update_cases hj
      · simp at hj
      · exact h.bounds j n hj
    · obtain ⟨-, hj⟩ | ⟨-, hj⟩ := update_cases hj
      · simp at hj
      · obtain ⟨-, hj'⟩ | ⟨-, hj'⟩ := update_cases hj'
        · simp at hj'
        · exact h.once j j' n hj hj'
    · obtain ⟨j, hj⟩ := h.all n h1 hn
      have hji : j ≠ i := fun he => by simp [he, hi] at hj
      exact ⟨j, (Function.update_of_ne hji ..).trans hj⟩
    · obtain ⟨-, hj⟩ | ⟨-, hj⟩ := update_cases hj
      · simp at hj
      · exact h.present j t hj
    · obtain ⟨hji, hj⟩ | ⟨-, hj⟩ := update_cases hj
      · obtain ⟨-, -, rfl⟩ := Phase.fetched.inj hj
        refine ⟨hvalue.symm, fun j' t' v' hj' => ?_⟩
        obtain ⟨hji', -⟩ | ⟨-, hj'⟩ := update_cases hj'
        · rw [hji, hji']
        · exact absurd hj' (ha j' t' v')
      · exact absurd hj (ha j t v)
    · obtain ⟨-, hj⟩ | ⟨-, hj⟩ := update_cases hj
      · simp at hj
      · exact h.found j t hj

omit [Add τ] in
theorem exact_incremented_other {b : Backend τ} {k : String} {s : State ι τ} {i : ι} {key : String}
    {timeout : τ} (h : Exact k s) (hi : s.calls i = .added key timeout) (hk : key ≠ k) :
    Exact k (incremented b s i key timeout) := by
  have hbefore : Before k (s.calls i) := hi ▸ before_added k key timeout
  have hmissing : ∀ cache : Cache τ, cache k = s.cache k →
      Exact k ({ s with cache }.setCall i (.missing key timeout)) := fun cache hcache =>
    exact_other h rfl hbefore (before_of_ne hk timeout 0).1 (by simp) hcache
  cases b with
  | atomic =>
    unfold incremented
    simp only
    split
    · next cache n hincr =>
      obtain ⟨e, -, -, -, -, hother⟩ := Cache.incr_eq_some hincr
      exact exact_other h rfl hbefore (before_of_ne hk timeout n).2.2 (by simp)
        (hother k (Ne.symm hk))
    · exact hmissing s.cache rfl
  | readWrite whole d largest =>
    unfold incremented
    simp only
    split
    · next v hget => exact exact_other h rfl hbefore (before_of_ne hk timeout v).2.1 (by simp) rfl
    · exact hmissing _ (Function.update_of_ne (Ne.symm hk) ..)

omit [LinearOrder τ] in
/-- A `set` writes one counter. -/
theorem set_value (b : Backend τ) (cache : Cache τ) (now : τ) (key : String) (n : ℕ) (timeout : τ) :
    (∃ e, b.set cache now key n timeout key = some e ∧ e.value = n) ∧
      ∀ k ≠ key, b.set cache now key n timeout k = cache k := by
  cases b with
  | atomic => exact ⟨⟨_, Cache.set_self .., rfl⟩, fun k hk => Cache.set_of_ne hk⟩
  | readWrite whole d largest =>
    exact ⟨⟨_, Cache.setRow_self .., rfl⟩, fun k hk => Cache.setRow_of_ne hk⟩

omit [DecidableEq ι] [LinearOrder τ] [Add τ] in
/-- Where the counter and the calls are the same, so are the counts. -/
theorem exact_frame {k : String} {s s' : State ι τ} (h : Exact k s) (hcalls : s'.calls = s.calls)
    (hcache : s'.cache k = s.cache k) : Exact k s' := by
  have hvalue : value s' k = value s k := by
    unfold value
    rw [hcache]
  refine ⟨?_, ?_, ?_, ?_, ?_, ?_⟩
  · rw [hcalls, hvalue]; exact h.bounds
  · rw [hcalls]; exact h.once
  · rw [hcalls, hvalue]; exact h.all
  · rw [hcalls, hcache]; exact h.present
  · rw [hcalls, hvalue]; exact h.fetched
  · rw [hcalls]; exact h.found

/-- **One step keeps the counts**, when it is careful. -/
theorem exact_step {b : Backend τ} {k : String} {s s' : State ι τ} {l : Label ι τ} (h : Exact k s)
    (hc : Careful b k s l s') (hs : step b s l = some s') : Exact k s' := by
  cases l with
  | tick t =>
    simp only [step] at hs
    split_ifs at hs
    obtain rfl := Option.some.inj hs
    exact exact_frame h rfl rfl
  | cull key =>
    simp only [step] at hs
    split at hs
    · simp at hs
    · obtain rfl := Option.some.inj hs
      refine exact_frame h rfl ?_
      by_cases hk : k = key
      · subst hk
        exact (Function.update_self ..).trans (hc rfl).symm
      · exact Function.update_of_ne hk ..
  | begin i key timeout =>
    simp only [step] at hs
    split at hs
    · next hi =>
      obtain rfl := Option.some.inj hs
      exact exact_other h rfl (hi ▸ before_idle k) (before_begun k key timeout) (by simp) rfl
    · simp at hs
  | add i =>
    simp only [step] at hs
    split at hs
    · next key timeout hi =>
      obtain ⟨cache, hadd, rfl⟩ := Option.map_eq_some_iff.mp hs
      exact exact_add h hi (fun hk => hc timeout (hk ▸ hi)) hadd
    · simp at hs
  | incr i =>
    simp only [step] at hs
    split at hs
    · next key timeout hi =>
      obtain rfl := Option.some.inj hs
      by_cases hk : key = k
      · subst hk
        obtain ⟨hlive, halone⟩ := hc timeout hi
        exact exact_incremented h hi hlive halone
      · exact exact_incremented_other h hi hk
    · simp at hs
  | store i =>
    simp only [step] at hs
    split at hs
    · next whole timeout largest key t v hi =>
      obtain rfl := Option.some.inj hs
      by_cases hk : key = k
      · subst hk
        obtain ⟨rfl, halone⟩ := h.fetched i t v hi
        refine exact_count (i := i) h rfl (by simp [hi]) halone ?_ ?_
        · simp [value, State.setCall, Cache.setRow_self]
        · simp [State.setCall, Cache.setRow_self]
      · obtain ⟨-, hbefore, hafter⟩ := before_of_ne (τ := τ) hk t (v + 1)
        exact exact_other h rfl (hi ▸ (before_of_ne hk t v).2.1) hafter (by simp)
          (Cache.setRow_of_ne (Ne.symm hk))
    · simp at hs
  | reset i =>
    simp only [step] at hs
    split at hs
    · next key t hi =>
      obtain rfl := Option.some.inj hs
      have hk : key ≠ k := fun hk => h.found i t (hk ▸ hi)
      obtain ⟨hbefore, -, hafter⟩ := before_of_ne (τ := τ) hk t 1
      exact exact_other h rfl (hi ▸ hbefore) hafter (by simp)
        ((set_value b s.cache s.now key 1 t).2 k (Ne.symm hk))
    · simp at hs

/-- A careful step refuses no call. -/
theorem taken_step {b : Backend τ} {k : String} {s s' : State ι τ} {l : Label ι τ}
    (h : Taken b k s) (hc : Careful b k s l s') (hs : step b s l = some s') : Taken b k s' := by
  intro i timeout hi
  rcases step_calls hs i with hsame | ⟨-, key, t, rfl, hbegun⟩ | ⟨-, -, hpast, -⟩
  · exact h i timeout (hsame ▸ hi)
  · obtain ⟨rfl, rfl⟩ := Phase.begun.inj (hbegun.symm.trans hi)
    exact hc rfl
  · exact absurd hi (not_begun_of_past hpast k timeout)

end Count

/-! ### A call that is not interrupted -/

/-- **The steps of one call** in a row are `Cache.count`. -/
theorem run_uninterrupted [DecidableEq ι] [LinearOrder τ] [Add τ] {s : State ι τ} {i : ι}
    {key : String} {timeout : τ} (hi : s.calls i = .begun key timeout) :
    ∃ l s', (l = [.add i, .incr i] ∨ l = [.add i, .incr i, .reset i]) ∧
      run (step .atomic) s l = some s' ∧ s'.cache = (s.cache.count s.now key timeout).1 ∧
      s'.now = s.now ∧ s'.calls i = .counted key (s.cache.count s.now key timeout).2 := by
  have hadd : step .atomic s (.add i) = some
      ({ s with cache := s.cache.add s.now key 0 timeout }.setCall i (.added key timeout)) := by
    simp only [step, hi, Backend.add, Option.map_some]
  generalize hm :
      ({ s with cache := s.cache.add s.now key 0 timeout }.setCall i (.added key timeout) :
    State ι τ) = m at hadd
  have hmi : m.calls i = .added key timeout := by
    rw [← hm]
    exact Function.update_self ..
  have hmc : m.cache = s.cache.add s.now key 0 timeout := by rw [← hm]; rfl
  have hmn : m.now = s.now := by rw [← hm]; rfl
  have hincr : step .atomic m (.incr i) = some (incremented .atomic m i key timeout) := by
    simp only [step, hmi]
  unfold Cache.count
  rw [← hmc, ← hmn]
  rcases hcount : m.cache.incr m.now key with _ | ⟨cache, n⟩
  · -- the counter has gone
    simp only [hcount]
    have hmissing : incremented .atomic m i key timeout = m.setCall i (.missing key timeout) := by
      simp only [incremented, hcount]
    generalize hm' : m.setCall i (.missing key timeout) = m' at hmissing
    have hmi' : m'.calls i = .missing key timeout := by
      rw [← hm']
      exact Function.update_self ..
    have hmc' : m'.cache = m.cache := by rw [← hm']; rfl
    have hmn' : m'.now = m.now := by rw [← hm']; rfl
    refine ⟨[.add i, .incr i, .reset i],
      { m' with cache := m'.cache.set m'.now key 1 timeout }.setCall i (.counted key 1),
      Or.inr rfl, ?_, ?_, hmn', Function.update_self ..⟩
    · have hreset : step .atomic m' (.reset i) = some
          ({ m' with cache := m'.cache.set m'.now key 1 timeout }.setCall i (.counted key 1)) := by
        simp only [step, hmi', Backend.set]
      simp only [run_cons, run_nil, hadd, hincr, hmissing, hreset, Option.bind_some]
    · simp only [State.setCall, hmc', hmn']
  · simp only [hcount]
    refine ⟨[.add i, .incr i], { m with cache }.setCall i (.counted key n), Or.inl rfl, ?_,
      rfl, rfl, Function.update_self ..⟩
    simp only [run_cons, run_nil, hadd, hincr, incremented, hcount, Option.bind_some]

/-! ### Counters that last -/

section Last

variable [LinearOrder τ] [Add τ]

/-- A call under `k` begins with a timeout that lasts to `D`. -/
def Timely (k : String) (D : τ) (s : State ι τ) (l : Label ι τ) (_ : State ι τ) : Prop :=
  match l with
  | .begin _ key timeout => key = k → D ≤ s.now + timeout
  | _ => True

/-- The counter under `k` lasts to `D`, and no increment is under way. -/
structure Lasting (k : String) (D : τ) (s : State ι τ) : Prop where
  entry : ∀ e, s.cache k = some e → D ≤ e.expires
  begun : ∀ i timeout, s.calls i = .begun k timeout → D ≤ s.now + timeout
  alone : Alone s k

variable [DecidableEq ι]

theorem now_le_of_step {b : Backend τ} {s s' : State ι τ} {l : Label ι τ}
    (h : step b s l = some s') :
    s.now ≤ s'.now := by
  cases l with
  | tick t =>
    simp only [step] at h
    split_ifs at h with ht
    obtain rfl := Option.some.inj h
    exact ht
  | add i =>
    simp only [step] at h
    split at h
    · obtain ⟨cache, -, rfl⟩ := Option.map_eq_some_iff.mp h
      exact le_rfl
    · simp at h
  | incr i =>
    simp only [step] at h
    split at h
    · obtain rfl := Option.some.inj h
      unfold incremented
      split <;> split <;> exact le_rfl
    · simp at h
  | cull key =>
    simp only [step] at h
    split at h
    · simp at h
    · obtain rfl := Option.some.inj h
      exact le_rfl
  | _ =>
    simp only [step] at h
    split at h
    · obtain rfl := Option.some.inj h
      exact le_rfl
    · simp at h

omit [Add τ] in
theorem incremented_atomic_entry {s : State ι τ} {i : ι} {key k : String} {timeout : τ}
    {e : Entry τ} (h : (incremented .atomic s i key timeout).cache k = some e) :
    ∃ e₀, s.cache k = some e₀ ∧ e.expires = e₀.expires := by
  unfold incremented at h
  simp only at h
  split at h
  · next cache n hincr =>
    obtain ⟨e₀, he₀, -, -, hself, hother⟩ := Cache.incr_eq_some hincr
    replace h : cache k = some e := h
    by_cases hk : k = key
    · rw [hk, hself] at h
      rw [hk]
      exact ⟨e₀, he₀, by rw [← Option.some.inj h]⟩
    · rw [hother k hk] at h
      exact ⟨e, h, rfl⟩
  · exact ⟨e, h, rfl⟩

/-- A call moves, and not into an increment. -/
theorem lasting_move {k : String} {D : τ} {s : State ι τ} {i : ι} {p : Phase τ} {cache : Cache τ}
    (h : Lasting k D s) (hentry : ∀ e, cache k = some e → D ≤ e.expires)
    (hbegun : ∀ t, p = .begun k t → D ≤ s.now + t) (hfetched : ∀ t v, p ≠ .fetched k t v) :
    Lasting k D ({ s with cache }.setCall i p) := by
  refine ⟨hentry, fun j t hj => ?_, fun j t v hj => ?_⟩
  · obtain ⟨-, hj⟩ | ⟨-, hj⟩ := update_cases hj
    · exact hbegun t hj
    · exact h.begun j t hj
  · obtain ⟨-, hj⟩ | ⟨-, hj⟩ := update_cases hj
    · exact hfetched t v hj
    · exact h.alone j t v hj

/-- The counter that a call adds lasts as long as the timeout of the call. -/
theorem add_entry {c : Cache τ} {now timeout D : τ} {k key : String} {e : Entry τ}
    (h : c.add now key 0 timeout k = some e) (hentry : ∀ e, c k = some e → D ≤ e.expires)
    (htimeout : key = k → D ≤ now + timeout) : D ≤ e.expires := by
  by_cases hk : key = k
  · subst hk
    unfold Cache.add at h
    split_ifs at h
    · exact hentry e h
    · rw [Cache.set_self] at h
      rw [← Option.some.inj h]
      exact htimeout rfl
  · rw [Cache.add_of_ne (Ne.symm hk)] at h
    exact hentry e h

variable [AddRightMono τ]

/-- **A counter goes on lasting** when increments are atomic. -/
theorem lasting_step {k : String} {D : τ} {s s' : State ι τ} {l : Label ι τ} (h : Lasting k D s)
    (he : Exact k s) (ht : Timely k D s l s') (hs : step .atomic s l = some s') :
    Lasting k D s' := by
  cases l with
  | tick t =>
    simp only [step] at hs
    split_ifs at hs with hle
    obtain rfl := Option.some.inj hs
    refine ⟨h.entry, fun i timeout hi => (h.begun i timeout hi).trans ?_, h.alone⟩
    exact add_le_add_left hle timeout
  | cull key => simp [step] at hs
  | begin i key timeout =>
    simp only [step] at hs
    split at hs
    · obtain rfl := Option.some.inj hs
      refine lasting_move h h.entry (fun t hp => ?_) (by simp)
      obtain ⟨rfl, rfl⟩ := Phase.begun.inj hp
      exact ht rfl
    · simp at hs
  | add i =>
    simp only [step] at hs
    split at hs
    · next key timeout hi =>
      obtain ⟨cache, hadd, rfl⟩ := Option.map_eq_some_iff.mp hs
      obtain rfl := Option.some.inj hadd
      refine lasting_move h (fun e hentry => ?_) (by simp) (by simp)
      exact add_entry hentry h.entry fun hk => h.begun i timeout (hk ▸ hi)
    · simp at hs
  | incr i =>
    simp only [step] at hs
    split at hs
    · next key timeout hi =>
      obtain rfl := Option.some.inj hs
      have hentry : ∀ e, (incremented .atomic s i key timeout).cache k = some e →
          D ≤ e.expires := by
        intro e hentry
        obtain ⟨e₀, he₀, hexp⟩ := incremented_atomic_entry hentry
        rw [hexp]
        exact h.entry e₀ he₀
      revert hentry
      unfold incremented
      simp only
      split
      · exact fun hentry => lasting_move h hentry (by simp) (by simp)
      · exact fun hentry => lasting_move h hentry (by simp) (by simp)
    · simp at hs
  | store i => simp [step] at hs
  | reset i =>
    simp only [step] at hs
    split at hs
    · next key timeout hi =>
      obtain rfl := Option.some.inj hs
      have hk : k ≠ key := fun hk => he.found i timeout (hk ▸ hi)
      refine lasting_move h (fun e hentry => ?_) (by simp) (by simp)
      replace hentry : s.cache.set s.now key 1 timeout k = some e := hentry
      rw [Cache.set_of_ne hk] at hentry
      exact h.entry e hentry
    · simp at hs

/-- While the counter lasts, its counts are exact. -/
def Sound (k : String) (D : τ) (s : State ι τ) : Prop := s.now < D → Lasting k D s ∧ Exact k s

/-- **Atomic increments are sound** whatever the interleaving. -/
theorem sound_step {k : String} {D : τ} {s s' : State ι τ} {l : Label ι τ} (h : Sound k D s)
    (ht : Timely k D s l s') (hs : step .atomic s l = some s') : Sound k D s' := by
  intro hnow
  have hbefore : s.now < D := (now_le_of_step hs).trans_lt hnow
  obtain ⟨hlast, hexact⟩ := h hbefore
  have hlive : ∀ e, s.cache k = some e → s.now < e.expires :=
    fun e he => hbefore.trans_le (hlast.entry e he)
  have hcareful : Careful .atomic k s l s' := by
    cases l with
    | begin i key timeout => exact fun _ => trivial
    | add i => exact fun _ _ => hlive
    | incr i => exact fun _ _ => ⟨hlive, hlast.alone⟩
    | cull key => simp [step] at hs
    | _ => trivial
  exact ⟨lasting_step hlast hexact ht hs, exact_step hexact hcareful hs⟩

end Last

/-! ### Up to a limit -/

/-- Nothing has been counted under `k`. -/
structure Unused (k : String) (s : State ι τ) : Prop where
  idle : ∀ i, s.calls i = .idle
  absent : s.cache k = none

theorem exact_of_unused {k : String} {s : State ι τ} (h : Unused k s) : Exact k s := by
  have hv : value s k = 0 := by simp [value, h.absent]
  refine ⟨fun i n hi => ?_, fun i j n hi => ?_, fun n h1 hn => ?_, fun i t hi => ?_,
    fun i t v hi => ?_, fun i t hi => ?_⟩
  case refine_3 => omega
  all_goals simp [h.idle i] at hi

theorem sound_of_unused [LinearOrder τ] [Add τ] {k : String} {D : τ} {s : State ι τ}
    (h : Unused k s) : Sound k D s :=
  fun _ => ⟨⟨fun e he => by simp [h.absent] at he, fun i t hi => by simp [h.idle i] at hi,
    fun i t v hi => by simp [h.idle i] at hi⟩, exact_of_unused h⟩

/-- The count a call was given under `k`. -/
def Phase.countUnder (k : String) : Phase τ → Option ℕ
  | .counted key n => if key = k then some n else none
  | _ => none

theorem countUnder_eq_some {k : String} {p : Phase τ} {n : ℕ} :
    p.countUnder k = some n ↔ p = .counted k n := by
  cases p <;> simp [Phase.countUnder]

section Card

variable [Fintype ι]

/-- The calls that have counted under `k`. -/
def counted (k : String) (s : State ι τ) : Finset ι :=
  Finset.univ.filter fun i => ((s.calls i).countUnder k).isSome

/-- The calls with a count of at most `limit`. -/
def granted (limit : ℕ) (k : String) (s : State ι τ) : Finset ι :=
  Finset.univ.filter fun i => ((s.calls i).countUnder k).any fun n => decide (n ≤ limit)

theorem mem_granted {limit : ℕ} {k : String} {s : State ι τ} {i : ι} :
    i ∈ granted limit k s ↔ ∃ n, s.calls i = .counted k n ∧ n ≤ limit := by
  simp [granted, Option.any_eq_true, countUnder_eq_some]

theorem mem_counted {k : String} {s : State ι τ} {i : ι} :
    i ∈ counted k s ↔ ∃ n, s.calls i = .counted k n := by
  simp [counted, Option.isSome_iff_exists, countUnder_eq_some]

theorem card_granted_value {k : String} {s : State ι τ} (h : Exact k s) (limit : ℕ) :
    (granted limit k s).card = min (value s k) limit := by
  have hcard : (granted limit k s).card = (Finset.Icc 1 (min (value s k) limit)).card := by
    refine Finset.card_bij (fun i _ => ((s.calls i).countUnder k).getD 0) ?_ ?_ ?_
    · intro i hi
      obtain ⟨n, hn, hle⟩ := mem_granted.mp hi
      obtain ⟨h1, hv⟩ := h.bounds i n hn
      rw [countUnder_eq_some.mpr hn, Option.getD_some, Finset.mem_Icc]
      exact ⟨h1, le_min hv hle⟩
    · intro i hi j hj hij
      obtain ⟨n, hn, -⟩ := mem_granted.mp hi
      obtain ⟨m, hm, -⟩ := mem_granted.mp hj
      rw [countUnder_eq_some.mpr hn, countUnder_eq_some.mpr hm, Option.getD_some,
        Option.getD_some] at hij
      subst hij
      exact h.once i j n hn hm
    · intro n hn
      obtain ⟨h1, hle⟩ := Finset.mem_Icc.mp hn
      obtain ⟨i, hi⟩ := h.all n h1 (hle.trans (min_le_left _ _))
      refine ⟨i, mem_granted.mpr ⟨n, hi, hle.trans (min_le_right _ _)⟩, ?_⟩
      rw [countUnder_eq_some.mpr hi, Option.getD_some]
  rw [hcard, Nat.card_Icc]
  omega

theorem card_counted {k : String} {s : State ι τ} (h : Exact k s) :
    (counted k s).card = value s k := by
  have hall : counted k s = granted (value s k) k s := by
    ext i
    rw [mem_counted, mem_granted]
    exact ⟨fun ⟨n, hn⟩ => ⟨n, hn, (h.bounds i n hn).2⟩, fun ⟨n, hn, _⟩ => ⟨n, hn⟩⟩
  rw [hall, card_granted_value h, min_self]

/-- The calls that have come under `k`. -/
def callers (k : String) (s : State ι τ) : Finset ι :=
  Finset.univ.filter fun i => (s.calls i).key = some k

/-- **Up to the limit:** of the calls that have counted, as many as the limit allows have a count
within it. -/
theorem card_granted {k : String} {s : State ι τ} (h : Exact k s) (limit : ℕ) :
    (granted limit k s).card = min (counted k s).card limit := by
  rw [card_granted_value h, card_counted h]

theorem card_granted_callers {k : String} {s : State ι τ} (h : Exact k s) (limit : ℕ)
    (hd : ∀ i, (s.calls i).key = some k → ∃ n, s.calls i = .counted k n) :
    (granted limit k s).card = min (callers k s).card limit := by
  have hcallers : callers k s = counted k s := by
    ext i
    rw [mem_counted, callers, Finset.mem_filter, and_iff_right (Finset.mem_univ i)]
    refine ⟨hd i, ?_⟩
    rintro ⟨n, hn⟩
    rw [hn]
    rfl
  rw [hcallers, card_granted h]

end Card

end KwAwards.Lib.Counting
