import Mathlib
import KwAwards.Common.Throttles
import KwAwards.Lib.Counting

/-! # What a window throttle lets through

Any number of calls of `allow_request` run interleaved, of any scopes and identifiers, on a cache
that adds and increments in one step. A call reads the clock once (`ask`); the steps on the cache
come later, but in the same window (`InWindow`).

`windowThrottle_bounds` says what the throttle then does: in each window as many calls are let
through as the limit allows, in any stretch of one window's length at most twice as many, and a
refused call is told how long the next window is off. -/

namespace KwAwards.Common.WindowLimit

open KwAwards.Lib KwAwards.Lib.Counters KwAwards.Lib.Run KwAwards.Common.Base
open KwAwards.Common.Throttles

/-- `hashlib.sha256`: the hex digest is made of hexadecimal digits. -/
structure Sha256 where
  hexdigest : String → String
  hex : ∀ s, ∀ c ∈ (hexdigest s).toList, c.isDigit = true ∨ c ∈ ['a', 'b', 'c', 'd', 'e', 'f']

/-- The part of the digest that a key has. -/
def Sha256.digest (sha256 : Sha256) (ident : String) : String := slice 32 (sha256.hexdigest ident)

/-- A call that is counted: what it asks for, its clock reading, and the rate of its scope. -/
structure Ask where
  scope : String
  ident : String
  at_ : ℚ
  limit : ℕ
  window : ℕ

/-- `bucket`. -/
def Ask.bucket (a : Ask) : ℤ := ⌊a.at_ / a.window⌋

/-- `key`. -/
def Ask.key (sha256 : Sha256) (a : Ask) : String :=
  counterKey sha256.hexdigest a.scope a.ident a.bucket

/-- What the call returns when its count is `count`. -/
def Ask.verdict (a : Ask) (count : ℕ) : Verdict :=
  if a.limit < count then .refused (max 1 ⌈(a.bucket + 1) * a.window - a.at_⌉) else .allowed

/-- The identifier, the limit and the window of a call that is counted. A call is not counted when
it has no rate or no identifier, or when it ends with a `ConfigError`. -/
def counting (rates : String → Option String) (scope : String) (ident : Option String) :
    Option (String × ℕ × ℕ) :=
  let rate := (rates scope).getD ""
  let ident := ident.getD ""
  if rate = "" ∨ ident = "" then none
  else match parseRate rate with
    | .error _ => none
    | .ok (limit, window) =>
      if window = 0 ∨ floatRange ≤ window then none else some (ident, limit, window)

/-- The cache with the steps of the calls on it, and what the calls have asked for. -/
structure State (ι : Type*) where
  count : Counting.State ι ℚ
  asked : ι → Option Ask

/-- What can happen. -/
inductive Label (ι : Type*)
  | ask (i : ι) (scope : String) (ident : Option String)
  | tick (t : ℚ)
  | add (i : ι)
  | incr (i : ι)
  | reset (i : ι)

variable {ι : Type*}

section Step

variable [DecidableEq ι]

/-- A step on the cache. -/
def State.onCache (s : State ι) (l : Counting.Label ι ℚ) : Option (State ι) :=
  (Counting.step .atomic s.count l).map fun count => { s with count }

def step (sha256 : Sha256) (rates : String → Option String) (s : State ι) :
    Label ι → Option (State ι)
  | .ask i scope ident =>
    match counting rates scope ident with
    | none => some s
    | some (ident, limit, window) =>
      let a : Ask := { scope, ident, at_ := s.count.now, limit, window }
      (Counting.step .atomic s.count (.begin i (a.key sha256) window)).map fun count =>
        { count, asked := Function.update s.asked i (some a) }
  | .tick t => s.onCache (.tick t)
  | .add i => s.onCache (.add i)
  | .incr i => s.onCache (.incr i)
  | .reset i => s.onCache (.reset i)

end Step

/-- The call that takes a step on the cache. -/
def Label.caller : Label ι → Option ι
  | .add i | .incr i | .reset i => some i
  | _ => none

/-- **The clock has not left the window** that a call has read when it takes a step on the cache. -/
def InWindow (s : State ι) (l : Label ι) (_ : State ι) : Prop :=
  ∀ i, l.caller = some i → ∀ a, s.asked i = some a → ⌊s.count.now / a.window⌋ = a.bucket

instance (s : State ι) (l : Label ι) (s' : State ι) : Decidable (InWindow s l s') :=
  match hl : l.caller with
  | none => isTrue (by simp [InWindow, hl])
  | some i =>
    match ha : s.asked i with
    | none => isTrue (by simp [InWindow, hl, ha])
    | some a => decidable_of_iff (⌊s.count.now / a.window⌋ = a.bucket) (by simp [InWindow, hl, ha])

/-- What a call has returned. -/
def verdict (s : State ι) (i : ι) : Option Verdict :=
  match s.asked i, s.count.calls i with
  | some a, .counted _ n => some (a.verdict n)
  | _, _ => none

/-- The call is one for `scope` in the window `bucket`, with an identifier that shares the counter
of `ident`. -/
def Asks (sha256 : Sha256) (scope ident : String) (bucket : ℤ) (a : Ask) : Prop :=
  a.scope = scope ∧ sha256.digest a.ident = sha256.digest ident ∧ a.bucket = bucket

instance (sha256 : Sha256) (scope ident : String) (bucket : ℤ) (a : Ask) :
    Decidable (Asks sha256 scope ident bucket a) := inferInstanceAs (Decidable (_ ∧ _ ∧ _))

section Sets

variable [Fintype ι]

/-- The calls of a window that have returned. -/
def answered (sha256 : Sha256) (scope ident : String) (bucket : ℤ) (s : State ι) : Finset ι :=
  Finset.univ.filter fun i =>
    (s.asked i).any (fun a => decide (Asks sha256 scope ident bucket a)) ∧ (verdict s i).isSome

/-- The calls of a window that were let through. -/
def admitted (sha256 : Sha256) (scope ident : String) (bucket : ℤ) (s : State ι) : Finset ι :=
  Finset.univ.filter fun i =>
    (s.asked i).any (fun a => decide (Asks sha256 scope ident bucket a)) ∧
      verdict s i = some .allowed

/-- The calls that were let through with clock readings from `x` to `y`, in any windows. -/
def admittedBetween (sha256 : Sha256) (scope ident : String) (x y : ℚ) (s : State ι) : Finset ι :=
  Finset.univ.filter fun i =>
    (s.asked i).any (fun a => decide (Asks sha256 scope ident a.bucket a ∧ x ≤ a.at_ ∧ a.at_ ≤ y)) ∧
      verdict s i = some .allowed

/-- **The bounds of a fixed window:** in a window as many calls are let through as the limit allows
of those that have returned, their counter does not expire in it, in one window's length at most two
limits' worth are let through, and the wait of a refused call ends in the next window. -/
structure Bounds (sha256 : Sha256) (scope ident : String) (limit window : ℕ)
    (s : State ι) : Prop where
  exact : ∀ bucket, (admitted sha256 scope ident bucket s).card =
    min (answered sha256 scope ident bucket s).card limit
  lasts :
      ∀ (bucket : ℤ) e, s.count.cache (counterKey sha256.hexdigest scope ident bucket) = some e →
    (bucket + 1) * (window : ℚ) ≤ e.expires
  sliding : ∀ x y : ℚ, y - x ≤ window → (admittedBetween sha256 scope ident x y s).card ≤ 2 * limit
  waits : ∀ i a (wait : ℤ), s.asked i = some a → Asks sha256 scope ident a.bucket a →
    verdict s i = some (.refused wait) → 1 ≤ wait ∧ wait ≤ window ∧
      ⌊(a.at_ + wait) / (window : ℚ)⌋ = ⌊a.at_ / (window : ℚ)⌋ + 1

end Sets

/-! ### The keys -/

/-- Lists that agree split at their last separator. -/
theorem append_cons_inj_of_notMem_tail {α : Type*} {x x' z z' : List α} {c : α} (hz : c ∉ z)
    (hz' : c ∉ z') (h : x ++ c :: z = x' ++ c :: z') : x = x' ∧ z = z' := by
  obtain ⟨t, rfl, ht⟩ | ⟨t, rfl, ht⟩ := List.append_eq_append_iff.mp h
  · cases t with
    | nil => exact ⟨(List.append_nil x).symm, (List.cons.inj ht).2⟩
    | cons d t =>
      obtain ⟨-, rfl⟩ := List.cons.inj ht
      simp at hz
  · cases t with
    | nil => exact ⟨List.append_nil x', (List.cons.inj ht).2.symm⟩
    | cons d t =>
      obtain ⟨-, rfl⟩ := List.cons.inj ht
      simp at hz'

theorem colon_notMem_digest (sha256 : Sha256) (ident : String) :
    ':' ∉ (sha256.digest ident).toList := by
  intro h
  rw [Sha256.digest, slice, String.toList_ofList] at h
  obtain hdigit | hletter := sha256.hex ident ':' (List.mem_of_mem_take h)
  · exact absurd hdigit (by decide)
  · exact absurd hletter (by decide)

theorem colon_notMem_repr (n : ℕ) : ':' ∉ (Nat.repr n).toList := by
  intro h
  rw [Nat.repr, String.toList_ofList] at h
  have hdigit : Char.isDigit ':' = true := Nat.isDigit_of_mem_toDigits (by norm_num) (by norm_num) h
  exact absurd hdigit (by decide)

theorem colon_notMem_bucket (bucket : ℤ) : ':' ∉ (toString bucket).toList := by
  cases bucket with
  | ofNat n => exact colon_notMem_repr n
  | negSucc n =>
    have htext : toString (Int.negSucc n) = "-" ++ Nat.repr (n + 1) := rfl
    rw [htext, String.toList_append, List.mem_append]
    rintro (h | h)
    · exact absurd h (by decide)
    · exact colon_notMem_repr (n + 1) h

/-- **A key names its scope, its digest and its window.** -/
theorem key_eq_iff {sha256 : Sha256} {scope ident : String} {bucket : ℤ} {a : Ask} :
    a.key sha256 = counterKey sha256.hexdigest scope ident bucket ↔
    Asks sha256 scope ident bucket a := by
  constructor
  · intro h
    have hchars : ("throttle:".toList ++ a.scope.toList ++ ':' :: (sha256.digest a.ident).toList) ++
        ':' :: (toString a.bucket).toList =
        ("throttle:".toList ++ scope.toList ++ ':' :: (sha256.digest ident).toList) ++
          ':' :: (toString bucket).toList := by
      simpa [Ask.key, counterKey, Sha256.digest] using congrArg String.toList h
    obtain ⟨hfront, hbucket⟩ := append_cons_inj_of_notMem_tail (colon_notMem_bucket _)
      (colon_notMem_bucket _) hchars
    obtain ⟨hscope, hdigest⟩ := append_cons_inj_of_notMem_tail (colon_notMem_digest _ _)
      (colon_notMem_digest _ _) hfront
    refine ⟨String.toList_inj.mp (List.append_cancel_left hscope), String.toList_inj.mp hdigest, ?_⟩
    exact Int.repr_injective (String.toList_inj.mp hbucket)
  · rintro ⟨rfl, hdigest, rfl⟩
    unfold Sha256.digest at hdigest
    unfold Ask.key counterKey
    rw [hdigest]

theorem counting_eq_some {rates : String → Option String} {scope : String} {ident : Option String}
    {name : String} {limit window : ℕ} : counting rates scope ident = some (name, limit, window) ↔
      (rates scope).getD "" ≠ "" ∧ ident = some name ∧ name ≠ "" ∧
        parseRate ((rates scope).getD "") = .ok (limit, window) ∧ window ≠ 0 ∧
        window < floatRange := by
  unfold counting
  constructor
  · intro h
    simp only at h
    split_ifs at h with hnone
    rw [not_or] at hnone
    split at h
    · simp at h
    · next l w hrate =>
      split_ifs at h with hw
      obtain ⟨hname, rfl, rfl⟩ : ident.getD "" = name ∧ l = limit ∧ w = window := by simpa using h
      obtain ⟨name', rfl⟩ : ∃ name', ident = some name' := by
        refine Option.ne_none_iff_exists'.mp fun hi => hnone.2 ?_
        rw [hi]
        rfl
      obtain rfl : name' = name := hname
      rw [not_or, not_le] at hw
      exact ⟨hnone.1, rfl, hnone.2, hrate, hw⟩
  · rintro ⟨hrate, rfl, hname, hparse, hw⟩
    simp only [Option.getD_some, hrate, hname, or_self, if_false, hparse, hw.1, not_le.mpr hw.2]

/-- The rate of a call is the rate of its scope. -/
theorem rate_of_scope {rates : String → Option String} {scope : String}
    {ident ident' : Option String} {name name' : String} {limit limit' window window' : ℕ}
    (h : counting rates scope ident = some (name, limit, window))
    (h' : counting rates scope ident' = some (name', limit', window')) :
    limit' = limit ∧ window' = window := by
  obtain ⟨-, -, -, hparse, -⟩ := counting_eq_some.mp h
  obtain ⟨-, -, -, hparse', -⟩ := counting_eq_some.mp h'
  rw [hparse] at hparse'
  obtain ⟨rfl, rfl⟩ := Prod.mk.inj (Except.ok.inj hparse')
  exact ⟨rfl, rfl⟩

/-! ### The calls and the cache -/

/-- A call counts under the key it has built, at the rate of its scope. -/
structure Linked (sha256 : Sha256) (rates : String → Option String) (s : State ι) : Prop where
  key : ∀ i, (s.count.calls i).key = (s.asked i).map (Ask.key sha256)
  rate : ∀ i a, s.asked i = some a → counting rates a.scope (some a.ident) =
    some (a.ident, a.limit, a.window)

/-- The instant the window `bucket` ends. -/
def windowEnd (window : ℕ) (bucket : ℤ) : ℚ := (bucket + 1) * window

/-- The counts of a window are exact, and its counter lasts to its end. -/
structure Kept (sha256 : Sha256) (scope ident : String) (window : ℕ) (bucket : ℤ) (s : State ι) :
    Prop where
  lasting : Counting.Lasting (counterKey sha256.hexdigest scope ident bucket)
    (windowEnd window bucket) s.count
  exact : Counting.Exact (counterKey sha256.hexdigest scope ident bucket) s.count

/-- The timeout of a call is the window, and the window of its bucket has begun. -/
theorem timely_begin {sha256 : Sha256} {s : State ι} {scope ident : String} {window : ℕ}
    {bucket : ℤ} {i : ι} {a : Ask} {count : Counting.State ι ℚ} (hne : window ≠ 0)
    (hat : a.at_ = s.count.now) (hwin : a.scope = scope → a.window = window) :
    Counting.Timely (counterKey sha256.hexdigest scope ident bucket)
      (windowEnd window bucket) s.count
      (.begin i (a.key sha256) (a.window : ℚ)) count := by
  have hpos : (0 : ℚ) < window := by exact_mod_cast Nat.pos_of_ne_zero hne
  intro hkey
  obtain ⟨hscope, -, hbucket⟩ := key_eq_iff.mp hkey
  have hwindow := hwin hscope
  have hbegan : (bucket : ℚ) * window ≤ s.count.now := by
    rw [← le_div_iff₀ hpos, ← hbucket, Ask.bucket, hat, hwindow]
    exact Int.floor_le _
  calc windowEnd window bucket = bucket * window + window := by rw [windowEnd]; ring
    _ ≤ s.count.now + a.window := by rw [hwindow]; exact add_le_add_left hbegan _

/-- A call that takes a step does so in its window, before the counter expires. -/
theorem live_of_inWindow {sha256 : Sha256} {rates : String → Option String} {s s' : State ι}
    {l : Label ι} {scope ident : String} {limit window : ℕ} {bucket : ℤ}
    (hrate : counting rates scope (some ident) = some (ident, limit, window))
    (hs : Linked sha256 rates s) (hk : Kept sha256 scope ident window bucket s)
    (hw : InWindow s l s') {i : ι} (hi : l.caller = some i)
    (hkey : (s.count.calls i).key = some (counterKey sha256.hexdigest scope ident bucket)) :
    Counting.Found .atomic s.count (counterKey sha256.hexdigest scope ident bucket) := by
  obtain ⟨-, -, -, -, hne, -⟩ := counting_eq_some.mp hrate
  intro e he
  have hasked := hs.key i
  rw [hkey] at hasked
  obtain ⟨a, ha, hakey⟩ := Option.map_eq_some_iff.mp hasked.symm
  obtain ⟨hscope, -, hbucket⟩ := key_eq_iff.mp hakey
  obtain ⟨-, hwin⟩ := rate_of_scope hrate (hscope ▸ hs.rate i a ha)
  have hnow : ⌊s.count.now / window⌋ = bucket := by
    rw [← hwin, hw i hi a ha, hbucket]
  have hbefore : s.count.now < windowEnd window bucket := (lt_bucketEnd hne).mpr hnow.le
  exact hbefore.trans_le (hk.lasting.entry e he)

section Step

variable [DecidableEq ι]

/-- **What a step does:** it is a call that is not counted, a call that begins, or a step on the
cache. -/
theorem step_cases {sha256 : Sha256} {rates : String → Option String} {s s' : State ι} {l : Label ι}
    (h : step sha256 rates s l = some s') :
    s' = s ∨
    (∃ i a count, a.at_ = s.count.now ∧
      counting rates a.scope (some a.ident) = some (a.ident, a.limit, a.window) ∧
      Counting.step .atomic s.count (.begin i (a.key sha256) a.window) = some count ∧
      s' = ⟨count, Function.update s.asked i (some a)⟩) ∨
    ∃ cl, (∀ i key timeout, cl ≠ .begin i key timeout) ∧
      (∀ i, (cl = .add i ∨ cl = .incr i) → l.caller = some i) ∧ s.onCache cl = some s' := by
  cases l with
  | ask i scope ident =>
    simp only [step] at h
    split at h
    · obtain rfl := Option.some.inj h
      exact Or.inl rfl
    · next name limit window hrate =>
      obtain ⟨count, hcount, rfl⟩ := Option.map_eq_some_iff.mp h
      obtain ⟨hne, rfl, hname, hparse, hw⟩ := counting_eq_some.mp hrate
      exact Or.inr (Or.inl ⟨i, ⟨scope, name, s.count.now, limit, window⟩, count, rfl,
        counting_eq_some.mpr ⟨hne, rfl, hname, hparse, hw⟩, hcount, rfl⟩)
  | tick t => exact Or.inr (Or.inr ⟨.tick t, by simp, by simp, h⟩)
  | add i => exact Or.inr (Or.inr ⟨.add i, by simp, by simp [Label.caller], h⟩)
  | incr i => exact Or.inr (Or.inr ⟨.incr i, by simp, by simp [Label.caller], h⟩)
  | reset i => exact Or.inr (Or.inr ⟨.reset i, by simp, by simp, h⟩)

theorem linked_step {sha256 : Sha256} {rates : String → Option String} {s s' : State ι}
    {l : Label ι} (hs : Linked sha256 rates s) (h : step sha256 rates s l = some s') :
    Linked sha256 rates s' := by
  obtain rfl | ⟨i, a, count, -, hrate, hcount, rfl⟩ | ⟨cl, hbegin, -, hcl⟩ := step_cases h
  · exact hs
  · have hphase : count = s.count.setCall i (.begun (a.key sha256) a.window) := by
      simp only [Counting.step] at hcount
      split at hcount
      · exact (Option.some.inj hcount).symm
      · simp at hcount
    refine ⟨fun j => ?_, fun j a' hj => ?_⟩
    · rw [hphase]
      show (Function.update s.count.calls i _ j).key = (Function.update s.asked i _ j).map _
      by_cases hji : j = i
      · subst hji
        rw [Function.update_self, Function.update_self]
        rfl
      · rw [Function.update_of_ne hji, Function.update_of_ne hji]
        exact hs.key j
    · obtain ⟨-, ha⟩ | ⟨-, hj⟩ := update_cases hj
      · obtain rfl := Option.some.inj ha
        exact hrate
      · exact hs.rate j a' hj
  · obtain ⟨count, hcount, rfl⟩ := Option.map_eq_some_iff.mp hcl
    refine ⟨fun j => ?_, hs.rate⟩
    rw [← hs.key j]
    exact Counting.key_of_step hcount fun key timeout => hbegin j key timeout

theorem kept_step {sha256 : Sha256} {rates : String → Option String} {s s' : State ι} {l : Label ι}
    {scope ident : String} {limit window : ℕ} {bucket : ℤ}
    (hrate : counting rates scope (some ident) = some (ident, limit, window))
    (hs : Linked sha256 rates s) (hk : Kept sha256 scope ident window bucket s)
    (hw : InWindow s l s') (h : step sha256 rates s l = some s') :
    Kept sha256 scope ident window bucket s' := by
  obtain ⟨-, -, -, -, hne, -⟩ := counting_eq_some.mp hrate
  obtain rfl | ⟨i, a, count, hat, ha, hcount, rfl⟩ | ⟨cl, hbegin, hcaller, hcl⟩ := step_cases h
  · exact hk
  · have htimely : Counting.Timely (counterKey sha256.hexdigest scope ident bucket)
      (windowEnd window bucket)
        s.count (.begin i (a.key sha256) (a.window : ℚ)) count :=
      timely_begin hne hat fun hscope => (rate_of_scope hrate (hscope ▸ ha)).2
    have hcareful : Counting.Careful .atomic (counterKey sha256.hexdigest scope ident bucket)
        s.count (.begin i (a.key sha256) (a.window : ℚ)) count := fun _ => trivial
    exact ⟨Counting.lasting_step hk.lasting hk.exact htimely hcount,
      Counting.exact_step hk.exact hcareful hcount⟩
  · obtain ⟨count, hcount, rfl⟩ := Option.map_eq_some_iff.mp hcl
    have htimely : Counting.Timely (counterKey sha256.hexdigest scope ident bucket)
      (windowEnd window bucket)
        s.count cl count := by
      cases cl with
      | begin i key timeout => exact absurd rfl (hbegin i key timeout)
      | _ => trivial
    have hlive : ∀ i p, l.caller = some i → s.count.calls i = p →
        p.key = some (counterKey sha256.hexdigest scope ident bucket) →
        Counting.Found .atomic s.count (counterKey sha256.hexdigest scope ident bucket) := by
      rintro i p hi rfl hkey
      exact live_of_inWindow hrate hs hk hw hi hkey
    have hcareful : Counting.Careful .atomic (counterKey sha256.hexdigest scope ident bucket)
        s.count cl count := by
      cases cl with
      | begin i key timeout => exact fun _ => trivial
      | cull key => simp [Counting.step] at hcount
      | add i => exact fun timeout hi => hlive i _ (hcaller i (Or.inl rfl)) hi rfl
      | incr i =>
        exact fun timeout hi => ⟨hlive i _ (hcaller i (Or.inr rfl)) hi rfl, hk.lasting.alone⟩
      | _ => trivial
    exact ⟨Counting.lasting_step hk.lasting hk.exact htimely hcount,
      Counting.exact_step hk.exact hcareful hcount⟩

end Step

/-! ### One call in a row -/

theorem verdict_eq_some {s : State ι} {i : ι} {v : Verdict} : verdict s i = some v ↔
    ∃ a key n, s.asked i = some a ∧ s.count.calls i = .counted key n ∧ v = a.verdict n := by
  unfold verdict
  constructor
  · intro h
    split at h
    · next a key n ha hn => exact ⟨a, key, n, ha, hn, (Option.some.inj h).symm⟩
    · simp at h
  · rintro ⟨a, key, n, ha, hn, rfl⟩
    simp only [ha, hn]

section Step

variable [DecidableEq ι]

/-- A run of steps on the cache. -/
theorem run_onCache {sha256 : Sha256} {rates : String → Option String} {l : List (Label ι)}
    {cl : List (Counting.Label ι ℚ)}
    (h : List.Forall₂ (fun x c => ∀ s, step sha256 rates s x = s.onCache c) l cl) {s : State ι}
    {count : Counting.State ι ℚ} (hr : run (Counting.step .atomic) s.count cl = some count) :
    run (step sha256 rates) s l = some { s with count } := by
  induction h generalizing s with
  | nil =>
    obtain rfl := Option.some.inj hr
    rfl
  | @cons x c l cl hx _ ih =>
    obtain ⟨m, hm, hr⟩ := run_cons_some.mp hr
    rw [run_cons, hx s, State.onCache, hm, Option.map_some, Option.bind_some]
    exact ih hr

/-- **A call that nothing interrupts** is `allowRequest`, on a cache that takes the window. -/
theorem run_allowRequest {sha256 : Sha256} {rates : String → Option String} {scope name : String}
    {ident : Option String} {limit window largest : ℕ} {s : State ι} {i : ι}
    (hrate : counting rates scope ident = some (name, limit, window)) (hlargest : window ≤ largest)
    (hi : s.count.calls i = .idle) :
    ∃ l s' v, run (step sha256 rates) s (.ask i scope ident :: l) = some s' ∧
      verdict s' i = some v ∧
      allowRequest sha256.hexdigest rates largest scope ident s.count.now s.count.cache =
        .ok (s'.count.cache, v) := by
  obtain ⟨hne, rfl, hname, hparse, hw⟩ := counting_eq_some.mp hrate
  let a : Ask := ⟨scope, name, s.count.now, limit, window⟩
  have hbegin : Counting.step .atomic s.count (.begin i (a.key sha256) (window : ℚ)) =
      some (s.count.setCall i (.begun (a.key sha256) window)) := by
    simp only [Counting.step, hi]
  obtain ⟨cl, count, hcl, hrun, hcache, -, hcount⟩ :=
    Counting.run_uninterrupted (s := s.count.setCall i (.begun (a.key sha256) (window : ℚ)))
      (Function.update_self ..)
  have hask : step sha256 rates s (.ask i scope (some name)) =
      some ⟨s.count.setCall i (.begun (a.key sha256) window),
        Function.update s.asked i (some a)⟩ := by
    simp only [step, hrate]
    rw [hbegin]
    rfl
  have hlift : ∃ l, List.Forall₂ (fun x c => ∀ s, step sha256 rates s x = s.onCache c) l cl := by
    obtain rfl | rfl := hcl
    · exact ⟨[.add i, .incr i], .cons (fun _ => rfl) (.cons (fun _ => rfl) .nil)⟩
    · exact ⟨[.add i, .incr i, .reset i],
        .cons (fun _ => rfl) (.cons (fun _ => rfl) (.cons (fun _ => rfl) .nil))⟩
  obtain ⟨l, hl⟩ := hlift
  generalize hn : s.count.cache.count s.count.now (counterKey sha256.hexdigest scope name
    ⌊s.count.now / window⌋) (window : ℚ) = counted
  have hsame : (s.count.setCall i (.begun (a.key sha256) (window : ℚ))).cache.count
      (s.count.setCall i (.begun (a.key sha256) (window : ℚ))).now (a.key sha256) window =
        counted := hn
  rw [hsame] at hcache hcount
  refine ⟨l, ⟨count, Function.update s.asked i (some a)⟩, _, ?_,
    verdict_eq_some.mpr ⟨a, _, _, Function.update_self .., hcount, rfl⟩, ?_⟩
  · rw [run_cons, hask, Option.bind_some]
    exact run_onCache hl hrun
  · unfold allowRequest
    simp only [Option.getD_some, if_neg hne, if_neg hname, hparse, if_neg hw.1,
      if_neg (not_le.mpr hw.2), if_neg (not_lt.mpr hlargest), hn, hcache]
    unfold Ask.verdict
    split_ifs <;> rfl

end Step

/-- A call that is not counted leaves the cache. -/
theorem allowRequest_of_not_counting {sha256 : Sha256} {rates : String → Option String}
    {scope : String} {ident : Option String} {largest : ℕ} {now : ℚ} {cache cache' : Cache ℚ}
    {v : Verdict} (h : counting rates scope ident = none)
    (hok : allowRequest sha256.hexdigest rates largest scope ident now cache = .ok (cache', v)) :
    cache' = cache ∧ v = .allowed := by
  unfold allowRequest at hok
  unfold counting at h
  simp only at h hok
  split_ifs at hok with hrate hident
  · obtain ⟨rfl, rfl⟩ := Prod.mk.inj (Except.ok.inj hok)
    exact ⟨rfl, rfl⟩
  · obtain ⟨rfl, rfl⟩ := Prod.mk.inj (Except.ok.inj hok)
    exact ⟨rfl, rfl⟩
  · rw [if_neg (by simp [hrate, hident])] at h
    split at hok
    · simp at hok
    · next limit window hparse =>
      rw [hparse] at h
      simp only at h
      split_ifs at hok with hzero hlarge
      all_goals rw [if_neg (not_or.mpr ⟨hzero, hlarge⟩)] at h; simp at h

/-! ### The bounds -/

theorem verdict_allowed {a : Ask} {n : ℕ} : Verdict.allowed = a.verdict n ↔ n ≤ a.limit := by
  unfold Ask.verdict
  split_ifs with h
  · exact iff_of_false (by simp) h.not_ge
  · exact iff_of_true rfl (Nat.le_of_not_lt h)

theorem verdict_refused {a : Ask} {n : ℕ} {wait : ℤ} (h : Verdict.refused wait = a.verdict n) :
    wait = max 1 ⌈(a.bucket + 1) * a.window - a.at_⌉ := by
  unfold Ask.verdict at h
  split_ifs at h
  exact Verdict.refused.inj h

/-- **The wait** is a whole number of seconds that ends in the next window. -/
theorem wait_bounds {window : ℕ} (hw : window ≠ 0) (t : ℚ) :
    1 ≤ max 1 ⌈(⌊t / (window : ℚ)⌋ + 1) * (window : ℚ) - t⌉ ∧
      max 1 ⌈(⌊t / (window : ℚ)⌋ + 1) * (window : ℚ) - t⌉ ≤ window ∧
      ⌊(t + (max 1 ⌈(⌊t / (window : ℚ)⌋ + 1) * (window : ℚ) - t⌉ : ℤ)) / (window : ℚ)⌋ =
        ⌊t / (window : ℚ)⌋ + 1 := by
  have hpos : (0 : ℚ) < window := by exact_mod_cast Nat.pos_of_ne_zero hw
  have hone : (1 : ℚ) ≤ window := by exact_mod_cast Nat.one_le_iff_ne_zero.mpr hw
  generalize hb : ⌊t / (window : ℚ)⌋ = b
  have hlow : (b : ℚ) * window ≤ t := by
    rw [← le_div_iff₀ hpos, ← hb]
    exact Int.floor_le _
  have hhigh : t < (b + 1) * (window : ℚ) := (lt_bucketEnd hw).mpr hb.le
  generalize hd : (b + 1) * (window : ℚ) - t = d
  have hceil : 1 ≤ ⌈d⌉ := Int.one_le_ceil_iff.mpr (by linarith)
  have hle : ⌈d⌉ ≤ window := Int.ceil_le.mpr (by push_cast; linarith)
  have habove : d ≤ ⌈d⌉ := Int.le_ceil d
  have hbelow : (⌈d⌉ : ℚ) < d + 1 := Int.ceil_lt_add_one d
  rw [max_eq_right hceil]
  refine ⟨hceil, hle, Int.floor_eq_iff.mpr ⟨?_, ?_⟩⟩
  · rw [le_div_iff₀ hpos]
    push_cast
    linarith
  · rw [div_lt_iff₀ hpos]
    push_cast
    linarith

/-- Nothing has been asked for or counted. -/
structure Fresh (sha256 : Sha256) (s : State ι) : Prop where
  asked : ∀ i, s.asked i = none
  idle : ∀ i, s.count.calls i = .idle
  absent : ∀ scope ident bucket,
    s.count.cache (counterKey sha256.hexdigest scope ident bucket) = none

theorem linked_of_fresh {sha256 : Sha256} {rates : String → Option String} {s : State ι}
    (h : Fresh sha256 s) : Linked sha256 rates s :=
  ⟨fun i => by rw [h.idle i, h.asked i]; rfl, fun i a ha => by simp [h.asked i] at ha⟩

theorem kept_of_fresh {sha256 : Sha256} {s : State ι} (h : Fresh sha256 s) (scope ident : String)
    (window : ℕ) (bucket : ℤ) : Kept sha256 scope ident window bucket s := by
  have hunused : Counting.Unused (counterKey sha256.hexdigest scope ident bucket) s.count :=
    ⟨h.idle, h.absent scope ident bucket⟩
  refine ⟨⟨fun e he => ?_, fun i timeout hi => ?_, fun i timeout v hi => ?_⟩,
    Counting.exact_of_unused hunused⟩
  · simp [hunused.absent] at he
  · simp [h.idle i] at hi
  · simp [h.idle i] at hi

variable {sha256 : Sha256} {rates : String → Option String} {scope ident : String}
  {limit window : ℕ}
  {s : State ι}

/-- A call of a window that has counted has done so under the key of the window. -/
theorem counted_iff (hs : Linked sha256 rates s) {bucket : ℤ} {i : ι} {n : ℕ} :
    s.count.calls i = .counted (counterKey sha256.hexdigest scope ident bucket) n ↔
      ∃ a key, s.asked i = some a ∧ Asks sha256 scope ident bucket a ∧
        s.count.calls i = .counted key n := by
  have hkey := hs.key i
  constructor
  · intro h
    rw [h] at hkey
    obtain ⟨a, ha, hakey⟩ := Option.map_eq_some_iff.mp hkey.symm
    exact ⟨a, _, ha, key_eq_iff.mp hakey, h⟩
  · rintro ⟨a, key, ha, hasks, h⟩
    rw [h, ha] at hkey
    obtain rfl : key = a.key sha256 := Option.some.inj hkey
    rw [h, key_eq_iff.mpr hasks]

section Card

variable [Fintype ι]

theorem mem_answered {bucket : ℤ} {i : ι} :
    i ∈ answered sha256 scope ident bucket s ↔
      (∃ a, s.asked i = some a ∧ Asks sha256 scope ident bucket a) ∧ ∃ v, verdict s i = some v := by
  simp [answered, Option.any_eq_true, Option.isSome_iff_exists]

theorem mem_admitted {bucket : ℤ} {i : ι} :
    i ∈ admitted sha256 scope ident bucket s ↔
      (∃ a, s.asked i = some a ∧ Asks sha256 scope ident bucket a) ∧
      verdict s i = some .allowed := by
  simp [admitted, Option.any_eq_true]

theorem mem_admittedBetween {x y : ℚ} {i : ι} :
    i ∈ admittedBetween sha256 scope ident x y s ↔
      (∃ a, s.asked i = some a ∧ Asks sha256 scope ident a.bucket a ∧ x ≤ a.at_ ∧ a.at_ ≤ y) ∧
        verdict s i = some .allowed := by
  simp [admittedBetween, Option.any_eq_true]

theorem answered_eq (hs : Linked sha256 rates s) (bucket : ℤ) :
    answered sha256 scope ident bucket s =
      Counting.counted (counterKey sha256.hexdigest scope ident bucket) s.count := by
  ext i
  rw [mem_answered, Counting.mem_counted]
  constructor
  · rintro ⟨⟨a, ha, hasks⟩, v, hv⟩
    obtain ⟨-, key, n, -, hn, -⟩ := verdict_eq_some.mp hv
    exact ⟨n, (counted_iff hs).mpr ⟨a, key, ha, hasks, hn⟩⟩
  · rintro ⟨n, hn⟩
    obtain ⟨a, key, ha, hasks, hcount⟩ := (counted_iff hs).mp hn
    exact ⟨⟨a, ha, hasks⟩, _, verdict_eq_some.mpr ⟨a, key, n, ha, hcount, rfl⟩⟩

theorem admitted_eq (hrate : counting rates scope (some ident) = some (ident, limit, window))
    (hs : Linked sha256 rates s) (bucket : ℤ) : admitted sha256 scope ident bucket s =
      Counting.granted limit (counterKey sha256.hexdigest scope ident bucket) s.count := by
  have hlimit : ∀ i a, s.asked i = some a → Asks sha256 scope ident bucket a → a.limit = limit :=
    fun i a ha hasks => (rate_of_scope hrate (hasks.1 ▸ hs.rate i a ha)).1
  ext i
  rw [mem_admitted, Counting.mem_granted]
  constructor
  · rintro ⟨⟨a, ha, hasks⟩, hv⟩
    obtain ⟨a', key, n, ha', hn, hallowed⟩ := verdict_eq_some.mp hv
    obtain rfl := Option.some.inj (ha.symm.trans ha')
    refine ⟨n, (counted_iff hs).mpr ⟨a, key, ha, hasks, hn⟩, ?_⟩
    rw [← hlimit i a ha hasks]
    exact verdict_allowed.mp hallowed
  · rintro ⟨n, hn, hle⟩
    obtain ⟨a, key, ha, hasks, hcount⟩ := (counted_iff hs).mp hn
    refine ⟨⟨a, ha, hasks⟩, verdict_eq_some.mpr ⟨a, key, n, ha, hcount, verdict_allowed.mpr ?_⟩⟩
    rw [hlimit i a ha hasks]
    exact hle

theorem card_admitted (hrate : counting rates scope (some ident) = some (ident, limit, window))
    (hs : Linked sha256 rates s) {bucket : ℤ} (hk : Kept sha256 scope ident window bucket s) :
    (admitted sha256 scope ident bucket s).card = min (answered sha256 scope ident bucket s).card
      limit := by
  rw [admitted_eq hrate hs, answered_eq hs]
  exact Counting.card_granted hk.exact limit

variable [DecidableEq ι]

/-- The calls of one window's length lie in two windows. -/
theorem admittedBetween_subset
    (hrate : counting rates scope (some ident) = some (ident, limit, window))
    (hs : Linked sha256 rates s) {x y : ℚ} (hxy : y - x ≤ window) :
    admittedBetween sha256 scope ident x y s ⊆
      admitted sha256 scope ident ⌊x / window⌋ s ∪ admitted sha256 scope ident
        (⌊x / window⌋ + 1) s := by
  obtain ⟨-, -, -, -, hne, -⟩ := counting_eq_some.mp hrate
  have hpos : (0 : ℚ) < window := by exact_mod_cast Nat.pos_of_ne_zero hne
  intro i hi
  obtain ⟨⟨a, ha, hasks, hx, hy⟩, hv⟩ := mem_admittedBetween.mp hi
  obtain ⟨-, hwin⟩ := rate_of_scope hrate (hasks.1 ▸ hs.rate i a ha)
  have hbucket : a.bucket = ⌊a.at_ / (window : ℚ)⌋ := by rw [Ask.bucket, hwin]
  have hge : ⌊x / (window : ℚ)⌋ ≤ a.bucket := by
    rw [hbucket]
    exact Int.floor_le_floor (div_le_div_of_nonneg_right hx hpos.le)
  have hle : a.bucket ≤ ⌊x / (window : ℚ)⌋ + 1 := by
    have hnext : a.at_ / (window : ℚ) ≤ x / window + 1 := by
      rw [div_le_iff₀ hpos, add_mul, div_mul_cancel₀ _ hpos.ne', one_mul]
      linarith
    rw [hbucket, ← Int.floor_add_one]
    exact Int.floor_le_floor hnext
  rw [Finset.mem_union, mem_admitted, mem_admitted]
  rcases (by omega : a.bucket = ⌊x / (window : ℚ)⌋ ∨ a.bucket = ⌊x / (window : ℚ)⌋ + 1) with he | he
  · exact Or.inl ⟨⟨a, ha, hasks.1, hasks.2.1, he⟩, hv⟩
  · exact Or.inr ⟨⟨a, ha, hasks.1, hasks.2.1, he⟩, hv⟩

/-- **The bounds of a window throttle**, in every state that any interleaving of calls reaches. -/
theorem windowThrottle_bounds {s₀ : State ι} {l : List (Label ι)} (hf : Fresh sha256 s₀)
    (hr : run (step sha256 rates) s₀ l = some s) (hw : Along (step sha256 rates) InWindow s₀ l)
    (hrate : counting rates scope (some ident) = some (ident, limit, window)) :
    Bounds sha256 scope ident limit window s := by
  obtain ⟨-, -, -, -, hne, -⟩ := counting_eq_some.mp hrate
  have hinv : Linked sha256 rates s ∧ ∀ bucket, Kept sha256 scope ident window bucket s := by
    refine run_inv_along
      (fun s => Linked sha256 rates s ∧ ∀ bucket, Kept sha256 scope ident window bucket s)
      (fun m label m' hm hin hk => ?_)
        ⟨linked_of_fresh hf, kept_of_fresh hf scope ident window⟩ hw hr
    exact ⟨linked_step hm.1 hk, fun bucket => kept_step hrate hm.1 (hm.2 bucket) hin hk⟩
  obtain ⟨hlinked, hkept⟩ := hinv
  have hcard := fun bucket => card_admitted hrate hlinked (hkept bucket)
  refine ⟨hcard, fun bucket e he => (hkept bucket).lasting.entry e he, fun x y hxy => ?_,
    fun i a wait ha hasks hv => ?_⟩
  · have hlimit : ∀ bucket, (admitted sha256 scope ident bucket s).card ≤ limit := by
      intro bucket
      rw [hcard]
      exact min_le_right _ _
    calc (admittedBetween sha256 scope ident x y s).card
        ≤ (admitted sha256 scope ident ⌊x / (window : ℚ)⌋ s ∪
            admitted sha256 scope ident (⌊x / (window : ℚ)⌋ + 1) s).card :=
          Finset.card_le_card (admittedBetween_subset hrate hlinked hxy)
      _ ≤ _ := Finset.card_union_le _ _
      _ ≤ 2 * limit := by
          have h := hlimit ⌊x / (window : ℚ)⌋
          have h' := hlimit (⌊x / (window : ℚ)⌋ + 1)
          omega
  · obtain ⟨a', key, n, ha', -, hrefused⟩ := verdict_eq_some.mp hv
    obtain rfl := Option.some.inj (ha.symm.trans ha')
    obtain ⟨-, hwin⟩ := rate_of_scope hrate (hasks.1 ▸ hlinked.rate i a ha)
    rw [verdict_refused hrefused, Ask.bucket, hwin]
    exact wait_bounds hne a.at_

end Card

/-- `sha256`, as far as one address goes. -/
def addressDigest : Sha256 where
  hexdigest _ := "f5047344122f0dee9974ba6761e61c6b8649e1f3968d13a635ebbf7be53a3a0d"
  hex _ := by simp

def twoPerHour (scope : String) : Option String :=
  if scope = "nomination_ip" then some "2/1h" else none

def quiet : State (Fin 3) := ⟨⟨.empty, 0, fun _ => .idle⟩, fun _ => none⟩

/-- Three requests from one address at the end of an hour, two of them at once. -/
def endOfHour : List (Label (Fin 3)) :=
  [.tick (7197 / 2), .ask 0 "nomination_ip" (some "10.0.0.1"),
    .ask 1 "nomination_ip" (some "10.0.0.1"), .add 0, .add 1, .incr 1, .incr 0,
    .ask 2 "nomination_ip" (some "10.0.0.1"), .add 2, .incr 2]

theorem windowThrottle_bounds_endOfHour :
    ∃ s, run (step addressDigest twoPerHour) quiet endOfHour = some s ∧
      verdict s 2 = some (.refused 2) ∧
      Bounds addressDigest "nomination_ip" "10.0.0.1" 2 3600 s := by
  have hverdict : (run (step addressDigest twoPerHour) quiet endOfHour).map (fun s => verdict s 2) =
      some (some (.refused 2)) := by decide +kernel
  obtain ⟨s, hs, hrefused⟩ := Option.map_eq_some_iff.mp hverdict
  have hfresh : Fresh addressDigest quiet := ⟨fun _ => rfl, fun _ => rfl, fun _ _ _ => rfl⟩
  exact ⟨s, hs, hrefused, windowThrottle_bounds hfresh hs (by decide +kernel) (by decide +kernel)⟩

end KwAwards.Common.WindowLimit
