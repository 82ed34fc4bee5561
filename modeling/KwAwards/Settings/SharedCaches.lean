import KwAwards.Common.BudgetConcurrent
import KwAwards.Common.Throttles
import KwAwards.Settings.Backends

/-! # The limits on the two shared caches

`cachesFromUrl` gives the Redis cache, which increments in one step and keeps the instant a counter
expires, or the database cache, which keeps its entries in rows and has no increment of its own:
`BaseCache.incr` reads the counter and writes it back with the default timeout, and the instants
that are written are cut to whole seconds. The daily SMS budget and the throttles count on either.

`sharedCaches_agree` says on which runs they grant the same number of calls: the database cache must
take the timeouts, find a counter before it lapses and not drop it, and must not begin an increment
while another is under way. -/

namespace KwAwards.Settings.SharedCaches

open KwAwards.Lib KwAwards.Lib.Counters KwAwards.Lib.Run
open KwAwards.Lib.Counting (Backend)
open KwAwards.Common.Base KwAwards.Common.SmsBudget KwAwards.Common.Throttles
open KwAwards.Common.BudgetConcurrent KwAwards.Settings.Backends

/-- How a shared cache increments. Of the database cache, `whole` cuts an instant to whole seconds,
`default` is the default timeout and `largest` the largest timeout that is taken: with a larger one
an instant has no date. -/
def incrementOf {τ : Type*} (whole : τ → τ) (default largest : τ) :
    CacheBackend → Option (Backend τ)
  | .redis _ => some .atomic
  | .database _ => some (.readWrite whole default largest)
  | .locMem => none

/-- `replace(microsecond=0)`. -/
def wholeSecond (t : Time) : Time := t / seconds 1 * seconds 1

/-- The default timeout of a cache, 300 seconds. -/
def defaultTimeout : Time := seconds 300

/-- How a shared cache increments the counter of the budget; `largest` is in seconds. -/
def budgetCache (largest : ℕ) : CacheBackend → Option (Backend Time) :=
  incrementOf wholeSecond defaultTimeout (seconds largest)

/-- How it increments the counter of a throttle, on the clock `time.time`. -/
def throttleCache (largest : ℕ) : CacheBackend → Option (Backend ℚ) :=
  incrementOf (fun t => ⌊t⌋) 300 largest

/-! ### The budget -/

section Budget

variable {ι : Type*} [DecidableEq ι]

/-- The step of the cache that a label is, the beginning of a call included. -/
def Label.counts (s : State ι) : Label ι → Option (Counting.Label ι Time)
  | .reserve i _ => some (.begin i (budgetKey s.count.now)
      (seconds (secondsUntilNextNairobiDay s.count.now)))
  | l => l.onCache

/-- A step that is careful about the counter of the day. -/
def CarefulCount (b : Backend Time) (s : State ι) (l : Label ι) (s' : State ι) : Prop :=
  ∀ cl, Label.counts s l = some cl → Counting.Careful b (budgetKey s.count.now) s.count cl s'.count

instance [Fintype ι] (b : Backend Time) (s : State ι) (l : Label ι) (s' : State ι) :
    Decidable (CarefulCount b s l s') :=
  match h : Label.counts s l with
  | none => isTrue (by simp [CarefulCount, h])
  | some cl => decidable_of_iff (Counting.Careful b (budgetKey s.count.now) s.count cl s'.count)
      (by simp [CarefulCount, h])

/-- **A day of reservations** in which every call returns or raises, or is refused by the cache for
the timeout; `P` holds of its steps. -/
structure BudgetDay (hashPhone : String → String) (limit : ℕ) (b : Backend Time)
    (P : State ι → Label ι → State ι → Prop) (s : State ι) : Prop where
  run : ∃ s₀ l, s₀.Fresh ∧ run (step hashPhone limit b) s₀ l = some s ∧
    Along (step hashPhone limit b) P s₀ l ∧ nairobiDay s.count.now = nairobiDay s₀.count.now
  done : ∀ i a t, s.calls i = .counting a t → s.count.Refused b (budgetKey t) i

variable {hashPhone : String → String} {limit d : ℕ} {b : Backend Time} {s s' : State ι}
  {l : Label ι}

omit [DecidableEq ι] in
theorem counts_of_onCache {cl : Counting.Label ι Time} (h : l.onCache = some cl) :
    Label.counts s l = some cl := by
  cases l with
  | reserve i a => simp [Label.onCache] at h
  | _ => exact h

/-- A careful step keeps the counts of the day, and the cache takes the timeouts. -/
theorem exact_of_moves {k : String} (he : Counting.Exact k s.count ∧ Counting.Taken b k s.count)
    (hc : ∀ cl, Label.counts s l = some cl → Counting.Careful b k s.count cl s'.count)
    (hm : Moves hashPhone limit b s l s') :
    Counting.Exact k s'.count ∧ Counting.Taken b k s'.count := by
  have hboth : ∀ {cl : Counting.Label ι Time} {count : Counting.State ι Time},
      Counting.Careful b k s.count cl count → Counting.step b s.count cl = some count →
        Counting.Exact k count ∧ Counting.Taken b k count := fun hcareful hstep =>
    ⟨Counting.exact_step he.1 hcareful hstep, Counting.taken_step he.2 hcareful hstep⟩
  cases hm with
  | cache hl hstep => exact hboth (hc _ (counts_of_onCache hl)) hstep
  | begins hi hstep => exact hboth (hc _ rfl) hstep
  | returns => exact he
  | raises => exact he

/-- Without a limit every call returns. -/
theorem returned_eq_callers [Fintype ι] {s₀ : State ι} (h : s₀.Fresh) {l : List (Label ι)}
    (hr : run (step hashPhone 0 b) s₀ l = some s) : returned s = callers s := by
  have hinv : ∀ i, s.calls i = .idle ∨ ∃ w, s.calls i = .returned w := by
    refine run_inv (fun s => ∀ i, s.calls i = .idle ∨ ∃ w, s.calls i = .returned w) ?_
      (fun i => Or.inl (h.idle i)) hr
    intro s l s' hs hstep i
    have hcache : ∀ {cl : Counting.Label ι Time}, s.count? b cl = some s' → s'.calls = s.calls := by
      intro cl hcl
      obtain ⟨count, -, rfl⟩ := count?_eq_some hcl
      rfl
    cases l with
    | reserve j a =>
      simp only [step] at hstep
      split at hstep
      · rw [if_pos trivial] at hstep
        obtain rfl := Option.some.inj hstep
        by_cases hij : i = j
        · subst hij
          exact Or.inr ⟨false, Function.update_self ..⟩
        · have hsame : (s.setCall j (.returned false)).calls i = s.calls i :=
            Function.update_of_ne hij ..
          rw [hsame]
          exact hs i
      · simp at hstep
    | conclude j ak =>
      simp only [step] at hstep
      split at hstep
      · next a now key n hj _ =>
        rcases hs j with hidle | ⟨w, hw⟩
        · simp [hj] at hidle
        · simp [hj] at hw
      · simp at hstep
    | tick t => exact hcache hstep ▸ hs i
    | cull key => exact hcache hstep ▸ hs i
    | add j => exact hcache hstep ▸ hs i
    | incr j => exact hcache hstep ▸ hs i
    | store j => exact hcache hstep ▸ hs i
    | reset j => exact hcache hstep ▸ hs i
  ext i
  rw [mem_returned, mem_callers]
  constructor
  · rintro ⟨w, hw⟩
    simp [hw]
  · intro hi
    exact (hinv i).resolve_left hi

variable [Fintype ι]

/-- **With careful steps** as many calls return as the limit allows. -/
theorem card_of_careful (h0 : limit ≠ 0) (h : BudgetDay hashPhone limit b (CarefulCount b) s) :
    (returned s).card = min (callers s).card limit := by
  obtain ⟨s₀, l, hfresh, hr, ha, hday⟩ := h.run
  have htaken : Counting.Taken b (budgetKey s₀.count.now) s₀.count :=
    fun i t hi => by simp [hfresh.unused.idle i] at hi
  have hinv : Linked limit (nairobiDay s₀.count.now) s ∧
      (nairobiDay s.count.now = nairobiDay s₀.count.now →
        Counting.Exact (budgetKey s₀.count.now) s.count ∧
          Counting.Taken b (budgetKey s₀.count.now) s.count) := by
    refine run_inv_along (fun s => Linked limit (nairobiDay s₀.count.now) s ∧
      (nairobiDay s.count.now = nairobiDay s₀.count.now →
        Counting.Exact (budgetKey s₀.count.now) s.count ∧
          Counting.Taken b (budgetKey s₀.count.now) s.count)) ?_
      ⟨linked_of_fresh hfresh, fun _ => ⟨Counting.exact_of_unused hfresh.unused, htaken⟩⟩ ha hr
    rintro s l s' ⟨hlink, hexact⟩ hc hs
    have hm := moves_of_step h0 hs
    refine ⟨linked_step hlink hm, fun hd => ?_⟩
    have hsame : nairobiDay s.count.now = nairobiDay s₀.count.now :=
      le_antisymm ((nairobiDay_mono (now_le_of_moves hm)).trans hd.le) hlink.day
    refine exact_of_moves (hexact hsame) (fun cl hcl => ?_) hm
    have hkey : budgetKey s₀.count.now = budgetKey s.count.now := by
      unfold budgetKey
      rw [hsame]
    exact hkey ▸ hc cl hcl
  obtain ⟨hlink, hexact⟩ := hinv
  have hkey : budgetKey s₀.count.now = budgetKey s.count.now := by
    unfold budgetKey
    rw [hday]
  obtain ⟨hexact, htaken⟩ := hexact hday
  have hdone : Done s := by
    intro i a t hi
    obtain ⟨timeout, hbegun, hrefused⟩ := h.done i a t hi
    rw [key_of_reading hday (hlink.counting i a t hi).2, ← hkey] at hbegun
    exact hrefused (htaken i timeout hbegun)
  exact card_returned hlink hday hdone (hkey ▸ hexact)

/-- **With atomic increments** too. -/
theorem card_of_atomic {P : State ι → Label ι → State ι → Prop} (h0 : limit ≠ 0)
    (h : BudgetDay hashPhone limit .atomic P s) :
    (returned s).card = min (callers s).card limit := by
  obtain ⟨s₀, l, hfresh, hr, -, hday⟩ := h.run
  obtain ⟨hlink, -, -⟩ := run_reservations h0 hfresh hr
  have hdone : Done s := by
    intro i a t hi
    obtain ⟨timeout, -, hrefused⟩ := h.done i a t hi
    exact hrefused trivial
  exact card_returned hlink hday hdone (exact_of_run h0 hfresh hr hday).2

end Budget

/-! ### The throttles -/

section Throttle

variable {ι : Type*} [DecidableEq ι]

/-- The calls that begin are those of `allow_request` for a scope with the window `window`. -/
def Asks (sha256 : String → String) (scope : String) (window : ℕ) (s : Counting.State ι ℚ)
    (l : Counting.Label ι ℚ) (_ : Counting.State ι ℚ) : Prop :=
  match l with
  | .begin _ key timeout =>
    ∃ ident, key = counterKey sha256 scope ident ⌊s.now / window⌋ ∧ timeout = window
  | _ => True

/-- **A window of requests**, those with the identifier `ident` all counted, or refused by the cache
for the timeout; `P` holds of its steps. -/
structure ThrottleWindow (sha256 : String → String) (scope ident : String) (window : ℕ) (bucket : ℤ)
    (b : Backend ℚ) (P : Counting.State ι ℚ → Counting.Label ι ℚ → Counting.State ι ℚ → Prop)
    (s : Counting.State ι ℚ) : Prop where
  run : ∃ s₀ l, Counting.Unused (counterKey sha256 scope ident bucket) s₀ ∧
    run (Counting.step b) s₀ l = some s ∧ Along (Counting.step b) (Asks sha256 scope window) s₀ l ∧
    Along (Counting.step b) P s₀ l ∧ ⌊s₀.now / window⌋ = bucket ∧ ⌊s.now / window⌋ = bucket
  done : ∀ i, (s.calls i).key = some (counterKey sha256 scope ident bucket) →
    (∃ n, s.calls i = .counted (counterKey sha256 scope ident bucket) n) ∨
      s.Refused b (counterKey sha256 scope ident bucket) i

variable {sha256 : String → String} {scope ident : String} {window limit : ℕ} {bucket : ℤ}
  {b : Backend ℚ} {s : Counting.State ι ℚ}

/-- Steps that begin no call. -/
theorem asks_of_ne_begin {l : List (Counting.Label ι ℚ)}
    (hl : ∀ cl ∈ l, ∀ i key timeout, cl ≠ .begin i key timeout) :
    Along (Counting.step b) (Asks sha256 scope window) s l := by
  induction l generalizing s with
  | nil => trivial
  | cons cl l ih =>
    intro m _
    refine ⟨?_, ih fun c hc => hl c (List.mem_cons_of_mem _ hc)⟩
    cases cl with
    | begin i key timeout => exact absurd rfl (hl _ List.mem_cons_self i key timeout)
    | _ => trivial

/-- **The steps of one request** in a row are `allowRequest`: it is let through when its count is
within the limit. -/
theorem run_allowRequest {rates : String → Option String} {rate : String} {largest : ℕ} {i : ι}
    {cache' : Cache ℚ} {v : Verdict} (hrate : rates scope = some rate) (hne : rate ≠ "")
    (hident : ident ≠ "") (hparse : parseRate rate = .ok (limit, window)) (hw : window ≠ 0)
    (hi : s.calls i = .idle)
    (h : allowRequest sha256 rates largest scope (some ident) s.now s.cache = .ok (cache', v)) :
    ∃ l s' n, run (Counting.step .atomic) s l = some s' ∧
      Along (Counting.step .atomic) (Asks sha256 scope window) s l ∧ s'.cache = cache' ∧
      s'.calls i = .counted (counterKey sha256 scope ident ⌊s.now / window⌋) n ∧
      (v = .allowed ↔ n ≤ limit) := by
  generalize hk : counterKey sha256 scope ident ⌊s.now / window⌋ = k
  have hbegin :
      Counting.step .atomic s (.begin i k window) = some (s.setCall i (.begun k window)) := by
    simp only [Counting.step, hi]
  have hbegun : (s.setCall i (.begun k (window : ℚ))).calls i = .begun k window :=
    Function.update_self ..
  obtain ⟨l, s', hl, hrun, hcache, -, hcount⟩ := Counting.run_uninterrupted hbegun
  generalize hn : s.cache.count s.now k window = counted at *
  have hsame : (s.setCall i (.begun k (window : ℚ))).cache.count
      (s.setCall i (.begun k (window : ℚ))).now k window = counted := hn
  rw [hsame] at hcache hcount
  obtain ⟨cache, n⟩ := counted
  have hverdict : cache' = cache ∧ (v = .allowed ↔ n ≤ limit) := by
    unfold allowRequest at h
    simp only [hrate, Option.getD_some, if_neg hne, if_neg hident, hparse, if_neg hw, hk, hn] at h
    split_ifs at h with hlarge htimeout hlt
    · obtain ⟨rfl, rfl⟩ := Prod.mk.inj (Except.ok.inj h)
      simp [hlt]
    · obtain ⟨rfl, rfl⟩ := Prod.mk.inj (Except.ok.inj h)
      simp [Nat.le_of_not_lt hlt]
  refine ⟨.begin i k window :: l, s', n, ?_, ?_, hcache.trans hverdict.1.symm, hcount, hverdict.2⟩
  · rw [run_cons, hbegin]
    exact hrun
  · refine (along_cons hbegin).mpr ⟨⟨ident, hk.symm, rfl⟩, ?_⟩
    -- none of the steps after the first begins a call
    refine asks_of_ne_begin fun cl hcl j key ttl => ?_
    rcases hl with rfl | rfl <;> simp at hcl <;> rcases hcl with rfl | rfl | rfl <;> simp

variable [Fintype ι]

theorem throttle_card_of_careful (h : ThrottleWindow sha256 scope ident window bucket b
      (Counting.Careful b (counterKey sha256 scope ident bucket)) s) (limit : ℕ) :
    (Counting.granted limit (counterKey sha256 scope ident bucket) s).card =
      min (Counting.callers (counterKey sha256 scope ident bucket) s).card limit := by
  obtain ⟨s₀, l, hunused, hr, -, ha, -, -⟩ := h.run
  have hinv : Counting.Exact (counterKey sha256 scope ident bucket) s ∧
      Counting.Taken b (counterKey sha256 scope ident bucket) s := by
    refine run_inv_along (fun s => Counting.Exact (counterKey sha256 scope ident bucket) s ∧
      Counting.Taken b (counterKey sha256 scope ident bucket) s) ?_
      ⟨Counting.exact_of_unused hunused, fun i t hi => by simp [hunused.idle i] at hi⟩ ha hr
    rintro s l s' ⟨he, ht⟩ hc hs
    exact ⟨Counting.exact_step he hc hs, Counting.taken_step ht hc hs⟩
  refine Counting.card_granted_callers hinv.1 limit fun i hi => (h.done i hi).resolve_right ?_
  rintro ⟨timeout, hbegun, hrefused⟩
  exact hrefused (hinv.2 i timeout hbegun)

theorem throttle_card_of_atomic
    {P : Counting.State ι ℚ → Counting.Label ι ℚ → Counting.State ι ℚ → Prop} (hw : window ≠ 0)
    (h : ThrottleWindow sha256 scope ident window bucket .atomic P s) (limit : ℕ) :
    (Counting.granted limit (counterKey sha256 scope ident bucket) s).card =
      min (Counting.callers (counterKey sha256 scope ident bucket) s).card limit := by
  obtain ⟨s₀, l, hunused, hr, hasks, -, hstart, hend⟩ := h.run
  have hpos : (0 : ℚ) < window := by exact_mod_cast Nat.pos_of_ne_zero hw
  have hinv : bucket ≤ ⌊s.now / window⌋ ∧
      Counting.Sound (counterKey sha256 scope ident bucket) ((bucket + 1) * (window : ℚ)) s := by
    refine run_inv_along (fun s : Counting.State ι ℚ => bucket ≤ ⌊s.now / window⌋ ∧
      Counting.Sound (counterKey sha256 scope ident bucket) ((bucket + 1) * (window : ℚ)) s) ?_
      ⟨hstart.ge, Counting.sound_of_unused hunused⟩ hasks hr
    rintro s l s' ⟨hle, hsound⟩ hask hs
    have hnow := Counting.now_le_of_step hs
    refine ⟨hle.trans (Int.floor_le_floor (div_le_div_of_nonneg_right hnow hpos.le)), fun hlt => ?_⟩
    refine Counting.sound_step hsound ?_ hs hlt
    -- the timeout is the window, and the bucket began before
    cases l with
    | begin i key timeout =>
      obtain ⟨ident', -, rfl⟩ := hask
      intro _
      have hbegan : (bucket : ℚ) * window ≤ s.now := by
        rw [← le_div_iff₀ hpos]
        exact Int.le_floor.mp hle
      calc (bucket + 1) * (window : ℚ) = bucket * window + window := by ring
        _ ≤ s.now + window := add_le_add_left hbegan _
    | _ => trivial
  have he := (hinv.2 ((lt_bucketEnd hw).mpr hend.le)).2
  refine Counting.card_granted_callers he limit fun i hi => (h.done i hi).resolve_right ?_
  rintro ⟨timeout, -, hrefused⟩
  exact hrefused trivial

end Throttle

/-! ### The two caches -/

/-- **The two caches grant the same number of calls** of a day, or of a window, and no more than the
limit; with `careful`, when the steps on the first one are careful. `largest` is the largest timeout
in seconds that the first one takes. -/
structure Agree (careful : Prop) (largest : ℕ) (dbUrl redisUrl : String) : Prop where
  budget : ∀ {ι κ : Type} [DecidableEq ι] [Fintype ι] [DecidableEq κ] [Fintype κ]
    (hashPhone : String → String) (limit : ℕ) {b r : Backend Time} {s : State ι} {s' : State κ},
    budgetCache largest (cachesFromUrl dbUrl) = some b →
    budgetCache largest (cachesFromUrl redisUrl) = some r →
    BudgetDay hashPhone limit b (fun s l s' => careful → CarefulCount b s l s') s →
    BudgetDay hashPhone limit r (fun _ _ _ => True) s' → (callers s).card = (callers s').card →
    (returned s).card = (returned s').card ∧ (limit ≠ 0 → (returned s).card ≤ limit)
  throttle : ∀ {ι κ : Type} [DecidableEq ι] [Fintype ι] [DecidableEq κ] [Fintype κ]
    (sha256 : String → String) (scope ident rate : String) (bucket : ℤ) {limit window : ℕ}
    {b r : Backend ℚ} {s : Counting.State ι ℚ} {s' : Counting.State κ ℚ},
    parseRate rate = .ok (limit, window) → window ≠ 0 →
    throttleCache largest (cachesFromUrl dbUrl) = some b →
    throttleCache largest (cachesFromUrl redisUrl) = some r →
    ThrottleWindow sha256 scope ident window bucket b (fun s l s' => careful →
      Counting.Careful b (counterKey sha256 scope ident bucket) s l s') s →
    ThrottleWindow sha256 scope ident window bucket r (fun _ _ _ => True) s' →
    (Counting.callers (counterKey sha256 scope ident bucket) s).card =
      (Counting.callers (counterKey sha256 scope ident bucket) s').card →
    (Counting.granted limit (counterKey sha256 scope ident bucket) s).card =
        (Counting.granted limit (counterKey sha256 scope ident bucket) s').card ∧
      (Counting.granted limit (counterKey sha256 scope ident bucket) s).card ≤ limit

/-- **The database cache grants as many calls as the Redis cache** when its steps are careful. -/
theorem sharedCaches_agree (largest : ℕ) (dbUrl : String) {redisUrl location : String}
    (hredis : cachesFromUrl redisUrl = .redis location) : Agree True largest dbUrl redisUrl := by
  constructor
  · intro ι κ _ _ _ _ hashPhone limit b r s s' hb hr hs hs' hn
    rw [hredis] at hr
    obtain rfl := Option.some.inj hr
    simp only [true_implies] at hs
    by_cases h0 : limit = 0
    · subst h0
      obtain ⟨_, _, hfresh, hrun, -⟩ := hs.run
      obtain ⟨_, _, hfresh', hrun', -⟩ := hs'.run
      rw [returned_eq_callers hfresh hrun, returned_eq_callers hfresh' hrun']
      exact ⟨hn, fun h => absurd rfl h⟩
    · rw [card_of_careful h0 hs, card_of_atomic h0 hs', hn]
      exact ⟨rfl, fun _ => min_le_right _ _⟩
  · intro ι κ _ _ _ _ sha256 scope ident rate bucket limit window b r s s' _ hw hb hr hs hs' hn
    rw [hredis] at hr
    obtain rfl := Option.some.inj hr
    simp only [true_implies] at hs
    rw [throttle_card_of_careful hs, throttle_card_of_atomic hw hs', hn]
    exact ⟨rfl, min_le_right _ _⟩

/-! ### Two calls on either cache -/

/-- The database cache, as the budget meets it. -/
def dbCache : Backend Time := .readWrite wholeSecond defaultTimeout (seconds longestTimeout)

/-- Two calls at once that do not overlap between the read and the write. -/
def orderly : List (Label (Fin 2)) :=
  [.reserve early annArgs, .reserve late annArgs, .add early, .add late, .incr late, .store late,
    .tick (seconds 299), .incr early, .store early, .conclude early ⟨90, 0⟩, .conclude late ⟨91, 1⟩]

/-- A counter that is written half a second into a second is gone 299.5 seconds later. -/
example : ¬ Along (step id 1 dbCache) (CarefulCount dbCache) morning
    [.tick 500000, .reserve late annArgs, .add late, .incr late, .store late,
      .tick (seconds 300 + 1), .reserve early annArgs, .add early, .incr early] := by
  decide +kernel

/-- What the two calls of a run from `morning` have come to. -/
def outcome (b : Backend Time) (l : List (Label (Fin 2))) :
    Option (ℕ × ℕ × ℕ × Progress × Progress) :=
  (run (step id 1 b) morning l).map fun s =>
    (nairobiDay s.count.now, (callers s).card, (returned s).card, s.calls early, s.calls late)

/-- A run in which both calls of the day end. -/
theorem budgetDay_of_outcome {b : Backend Time}
    {P : State (Fin 2) → Label (Fin 2) → State (Fin 2) → Prop} {l : List (Label (Fin 2))}
    {s : State (Fin 2)} (hr : run (step id 1 b) morning l = some s)
    (ha : Along (step id 1 b) P morning l) (hday : nairobiDay s.count.now = 0)
    (h0 : ∀ a t, s.calls early ≠ .counting a t) (h1 : ∀ a t, s.calls late ≠ .counting a t) :
    BudgetDay id 1 b P s := by
  have hmorning : nairobiDay morning.count.now = 0 := by decide
  have hfresh : morning.Fresh := ⟨fun _ => rfl, fun _ => rfl, rfl⟩
  refine ⟨⟨morning, l, hfresh, hr, ha, hday.trans hmorning.symm⟩, fun i a t hi => ?_⟩
  fin_cases i
  · exact absurd hi (h0 a t)
  · exact absurd hi (h1 a t)

/-- What two calls end in that are careful on the database cache, and what they end in on Redis. -/
theorem sharedCaches_agree_orderly : ∃ s s' : State (Fin 2),
    run (step id 1 dbCache) morning orderly = some s ∧
      run (step id 1 .atomic) morning rush = some s' ∧ s.calls 1 = .returned true ∧
      (returned s).card = (returned s').card ∧ (returned s).card ≤ 1 := by
  have hdb : outcome dbCache orderly =
      some (0, 2, 1, .raised annArgs 0 (.smsBudgetExhausted 75600), .returned true) := by
    decide +kernel
  have hredis : outcome .atomic rush =
      some (0, 2, 1, .raised annArgs 0 (.smsBudgetExhausted 75600), .returned true) := by
    decide +kernel
  have hcareful : Along (step id 1 dbCache) (CarefulCount dbCache) morning orderly := by
    decide +kernel
  obtain ⟨s, hs, hvalues⟩ := Option.map_eq_some_iff.mp hdb
  obtain ⟨s', hs', hvalues'⟩ := Option.map_eq_some_iff.mp hredis
  simp only [Prod.mk.injEq] at hvalues hvalues'
  obtain ⟨hday, hcallers, -, h0, h1⟩ := hvalues
  obtain ⟨hday', hcallers', -, h0', h1'⟩ := hvalues'
  have horderly : BudgetDay id 1 dbCache (fun s l s' => True → CarefulCount dbCache s l s') s := by
    simp only [true_implies]
    exact budgetDay_of_outcome hs hcareful hday (by simp [h0]) (by simp [h1])
  have hrush : BudgetDay id 1 .atomic (fun _ _ _ => True) s' :=
    budgetDay_of_outcome hs' (along_true _ _) hday' (by simp [h0']) (by simp [h1'])
  have hagree := (@sharedCaches_agree longestTimeout "db://cache_table" "redis://localhost:6379/1"
    "redis://localhost:6379/1" (by decide)).budget id 1 rfl rfl horderly hrush
      (hcallers.trans hcallers'.symm)
  exact ⟨s, s', hs, hs', h1, hagree.1, hagree.2 (by decide)⟩

/-- Two calls, the second one 301 seconds after the first. -/
def lapse : List (Label (Fin 2)) :=
  [.reserve early annArgs, .add early, .incr early, .store early, .conclude early ⟨90, 0⟩,
    .tick (seconds 301), .reserve late annArgs, .add late, .incr late, .store late,
    .conclude late ⟨91, 1⟩]

/-- With a limit of one the database cache lets both calls of `lapse` send an SMS. -/
theorem not_always_agree : ¬ ∀ dbUrl redisUrl table location : String,
    cachesFromUrl dbUrl = .database table → cachesFromUrl redisUrl = .redis location →
      Agree False longestTimeout dbUrl redisUrl := by
  intro h
  have hagree := h "db://cache_table" "redis://localhost:6379/1" "cache_table"
    "redis://localhost:6379/1" (by decide) (by decide)
  have hdb : outcome dbCache lapse = some (0, 2, 2, .returned true, .returned true) := by
    decide +kernel
  have hredis : outcome .atomic rush =
      some (0, 2, 1, .raised annArgs 0 (.smsBudgetExhausted 75600), .returned true) := by
    decide +kernel
  obtain ⟨s, hs, hvalues⟩ := Option.map_eq_some_iff.mp hdb
  obtain ⟨s', hs', hvalues'⟩ := Option.map_eq_some_iff.mp hredis
  simp only [Prod.mk.injEq] at hvalues hvalues'
  obtain ⟨hday, hcallers, hreturned, h0, h1⟩ := hvalues
  obtain ⟨hday', hcallers', hreturned', h0', h1'⟩ := hvalues'
  have hlapse : BudgetDay id 1 dbCache (fun s l s' => False → CarefulCount dbCache s l s') s := by
    simp only [false_implies]
    exact budgetDay_of_outcome hs (along_true _ _) hday (by simp [h0]) (by simp [h1])
  have hrush : BudgetDay id 1 .atomic (fun _ _ _ => True) s' :=
    budgetDay_of_outcome hs' (along_true _ _) hday' (by simp [h0']) (by simp [h1'])
  have hsame := (hagree.budget id 1 rfl rfl hlapse hrush (hcallers.trans hcallers'.symm)).1
  omega

end KwAwards.Settings.SharedCaches
