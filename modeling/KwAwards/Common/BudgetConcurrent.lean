import KwAwards.Common.SmsBudget
import KwAwards.Lib.Counting

/-! # Concurrent reservations

Any number of calls of `reserve` run interleaved over one database and one cache, under an advancing
clock. A call reads the clock (`reserve`), takes its steps on the cache one by one (`add`, `incr`,
`reset`, and `store` where a cache increments by reading and writing), and then returns, or writes
its audit entry and raises (`conclude`). A cache that keeps its entries in rows can drop one
(`cull`).

On one Nairobi day, with atomic increments, the budget is exact (`ExactBudget`). -/

namespace KwAwards.Common.BudgetConcurrent

open KwAwards.Lib KwAwards.Lib.Tables KwAwards.Lib.Counters KwAwards.Lib.Run
open KwAwards.Lib.Counting (Backend)
open KwAwards.Common.Base KwAwards.Common.Exceptions KwAwards.Common.SmsBudget
open KwAwards.Audit.Log KwAwards.Voting.Models KwAwards.Store

structure Args where
  voter : Voter
  phoneE164 : String
  request : Request
  deriving DecidableEq, Repr

/-- Where a call stands; `now` is its reading of the clock, `warned` whether it logged the
warning. -/
inductive Progress
  | idle
  | counting (a : Args) (now : Time)
  | returned (warned : Bool)
  | raised (a : Args) (now : Time) (e : ApiError)
  deriving DecidableEq, Repr

/-- The database, the cache with its clock, and the calls. -/
structure State (ι : Type*) where
  db : Database
  count : Counting.State ι Time
  calls : ι → Progress

/-- What can happen. -/
inductive Label (ι : Type*)
  | tick (t : Time)
  | cull (key : String)
  | reserve (i : ι) (a : Args)
  | add (i : ι)
  | incr (i : ι)
  | store (i : ι)
  | reset (i : ι)
  | conclude (i : ι) (ak : Keys)

/-- The step of the cache that a label names. -/
def Label.onCache {ι : Type*} : Label ι → Option (Counting.Label ι Time)
  | .tick t => some (.tick t)
  | .cull key => some (.cull key)
  | .add i => some (.add i)
  | .incr i => some (.incr i)
  | .store i => some (.store i)
  | .reset i => some (.reset i)
  | .reserve _ _ | .conclude _ _ => none

theorem Label.onCache_ne_begin {ι : Type*} {l : Label ι} {cl : Counting.Label ι Time}
    (h : l.onCache = some cl) (i : ι) (key : String) (timeout : Time) :
    cl ≠ .begin i key timeout := by
  rintro rfl
  cases l <;> simp [Label.onCache] at h

/-- `math.ceil(limit * _WARN_FRACTION)`. -/
def warnAt (limit : ℕ) : ℕ := ⌈(limit : ℚ) * (8 / 10)⌉₊

section Step

variable {ι : Type*} [DecidableEq ι]

def State.setCall (s : State ι) (i : ι) (p : Progress) : State ι :=
  { s with calls := Function.update s.calls i p }

/-- A step of the cache. -/
def State.count? (b : Backend Time) (s : State ι) (l : Counting.Label ι Time) : Option (State ι) :=
  (Counting.step b s.count l).map fun count => { s with count }

variable (hashPhone : String → String) (limit : ℕ)

/-- What a call does with its count. -/
def conclude (s : State ι) (i : ι) (a : Args) (now : Time) (count : ℕ)
    (ak : Keys) : Option (State ι) :=
  if limit < count then
    (s.db.write (voterEvent hashPhone ak s.count.now .smsBudgetExhausted (some a.voter) a.phoneE164
      a.request none [("count", .num count), ("limit", .num limit)])).map fun db =>
        { s with db }.setCall i
          (.raised a now (.smsBudgetExhausted (secondsUntilNextNairobiDay now)))
  else some (s.setCall i (.returned (decide (count = warnAt limit))))

def step (b : Backend Time) (s : State ι) : Label ι → Option (State ι)
  | .tick t => s.count? b (.tick t)
  | .cull key => s.count? b (.cull key)
  | .reserve i a =>
    match s.calls i with
    | .idle =>
      let now := s.count.now
      if limit = 0 then some (s.setCall i (.returned false))
      else (s.count? b (.begin i (budgetKey now) (seconds (secondsUntilNextNairobiDay now)))).map
        fun s => s.setCall i (.counting a now)
    | _ => none
  | .add i => s.count? b (.add i)
  | .incr i => s.count? b (.incr i)
  | .store i => s.count? b (.store i)
  | .reset i => s.count? b (.reset i)
  | .conclude i ak =>
    match s.calls i, s.count.calls i with
    | .counting a now, .counted _ count => conclude hashPhone limit s i a now count ak
    | _, _ => none

end Step

/-! ### The Nairobi day -/

/-- The instant the Nairobi day `d` ends. -/
def dayEnd (d : ℕ) : Time := (d + 1) * seconds 86400 - seconds 10800

theorem lt_dayEnd {now : Time} {d : ℕ} : now < dayEnd d ↔ nairobiDay now ≤ d := by
  unfold dayEnd nairobiDay nairobi seconds
  rw [← Nat.lt_succ_iff, Nat.div_lt_iff_lt_mul (by norm_num), Nat.succ_eq_add_one]
  exact Nat.lt_sub_iff_add_lt

theorem nairobiDay_mono {t now : Time} (h : t ≤ now) : nairobiDay t ≤ nairobiDay now :=
  Nat.div_le_div_right (Nat.add_le_add_right h _)

/-- Whole seconds, rounded up. -/
theorem le_ceil_seconds (d : ℕ) : d ≤ seconds ((d + 999999) / 1000000) := by
  unfold seconds
  omega

/-- The seconds up to the next day last to the end of this one. -/
theorem dayEnd_le (now : Time) :
    dayEnd (nairobiDay now) ≤ now + seconds (secondsUntilNextNairobiDay now) := by
  have hmax : ((nairobiDay now + 1) * seconds 86400 - nairobi now + 999999) / 1000000 ≤
      secondsUntilNextNairobiDay now := le_max_right _ _
  have hle : (nairobiDay now + 1) * seconds 86400 - nairobi now ≤
      seconds (secondsUntilNextNairobiDay now) :=
    (le_ceil_seconds _).trans (Nat.mul_le_mul_right _ hmax)
  have hadd := Nat.sub_le_iff_le_add.mp hle
  refine Nat.sub_le_of_le_add (hadd.trans_eq ?_)
  unfold nairobi
  rw [← Nat.add_assoc, Nat.add_comm now]

theorem one_le_secondsUntilNextNairobiDay (now : Time) : 1 ≤ secondsUntilNextNairobiDay now :=
  le_max_left _ _

theorem nairobiDay_lt_of_dayEnd_le {t : Time} {d : ℕ} (h : dayEnd d ≤ t) : d < nairobiDay t := by
  by_contra hd
  exact absurd (lt_dayEnd.mpr (Nat.le_of_not_lt hd)) (Nat.not_lt.mpr h)

/-! ### What a step does -/

section Steps

variable {ι : Type*} [DecidableEq ι] {hashPhone : String → String} {limit : ℕ} {b : Backend Time}
  {s s' : State ι}

theorem count?_eq_some {l : Counting.Label ι Time} (h : s.count? b l = some s') :
    ∃ count, Counting.step b s.count l = some count ∧ s' = { s with count } := by
  obtain ⟨count, hc, rfl⟩ := Option.map_eq_some_iff.mp h
  exact ⟨count, hc, rfl⟩

/-- What a step can do: the cache moves, a call begins, or a call concludes. -/
inductive Moves (hashPhone : String → String) (limit : ℕ) (b : Backend Time) (s : State ι) :
    Label ι → State ι → Prop
  | cache {l : Label ι} {cl : Counting.Label ι Time} {count : Counting.State ι Time}
      (hl : l.onCache = some cl) (h : Counting.step b s.count cl = some count) :
      Moves hashPhone limit b s l { s with count }
  | begins {i : ι} {a : Args} {count : Counting.State ι Time} (hi : s.calls i = .idle)
      (h : Counting.step b s.count (.begin i (budgetKey s.count.now)
        (seconds (secondsUntilNextNairobiDay s.count.now))) = some count) :
      Moves hashPhone limit b s (.reserve i a)
        ({ s with count }.setCall i (.counting a s.count.now))
  | returns {i : ι} {a : Args} {now : Time} {key : String} {count : ℕ} {ak : Keys}
      (hi : s.calls i = .counting a now) (hc : s.count.calls i = .counted key count)
      (hle : count ≤ limit) :
      Moves hashPhone limit b s (.conclude i ak)
        (s.setCall i (.returned (decide (count = warnAt limit))))
  | raises {i : ι} {a : Args} {now : Time} {key : String} {count : ℕ} {ak : Keys} {db : Database}
      (hi : s.calls i = .counting a now) (hc : s.count.calls i = .counted key count)
      (hlt : limit < count)
      (hw : s.db.write (voterEvent hashPhone ak s.count.now .smsBudgetExhausted (some a.voter)
        a.phoneE164 a.request none [("count", .num count), ("limit", .num limit)]) = some db) :
      Moves hashPhone limit b s (.conclude i ak)
        ({ s with db }.setCall i
          (.raised a now (.smsBudgetExhausted (secondsUntilNextNairobiDay now))))

theorem moves_of_step {l : Label ι} (h0 : limit ≠ 0) (h : step hashPhone limit b s l = some s') :
    Moves hashPhone limit b s l s' := by
  have hcache : ∀ {cl : Counting.Label ι Time}, l.onCache = some cl →
      s.count? b cl = some s' → Moves hashPhone limit b s l s' := by
    intro cl hcl h
    obtain ⟨count, hc, rfl⟩ := count?_eq_some h
    exact .cache hcl hc
  cases l with
  | tick t => exact hcache rfl h
  | cull key => exact hcache rfl h
  | add i => exact hcache rfl h
  | incr i => exact hcache rfl h
  | store i => exact hcache rfl h
  | reset i => exact hcache rfl h
  | reserve i a =>
    simp only [step] at h
    split at h
    · next hi =>
      rw [if_neg h0] at h
      obtain ⟨m, hm, rfl⟩ := Option.map_eq_some_iff.mp h
      obtain ⟨count, hc, rfl⟩ := count?_eq_some hm
      exact .begins hi hc
    · simp at h
  | conclude i ak =>
    simp only [step] at h
    split at h
    · next a now key count hi hc =>
      unfold conclude at h
      split_ifs at h with hlt
      · obtain ⟨db, hw, rfl⟩ := Option.map_eq_some_iff.mp h
        exact .raises hi hc hlt hw
      · obtain rfl := Option.some.inj h
        exact .returns hi hc (Nat.le_of_not_lt hlt)
    · simp at h

end Steps

/-! ### What holds along a run -/

/-- A reading of the clock on the day `d` or later. -/
def Reading {ι : Type*} (d : ℕ) (s : State ι) (t : Time) : Prop :=
  d ≤ nairobiDay t ∧ t ≤ s.count.now

/-- A call and its steps on the cache. -/
structure Linked {ι : Type*} (limit d : ℕ) (s : State ι) : Prop where
  day : d ≤ nairobiDay s.count.now
  idle : ∀ i, s.calls i = .idle → s.count.calls i = .idle
  counting : ∀ i a t, s.calls i = .counting a t →
    (s.count.calls i).key = some (budgetKey t) ∧ Reading d s t
  returned : ∀ i w, s.calls i = .returned w → ∃ t n, s.count.calls i = .counted (budgetKey t) n ∧
    Reading d s t ∧ n ≤ limit ∧ w = decide (n = warnAt limit)
  raised : ∀ i a t e, s.calls i = .raised a t e → ∃ n, s.count.calls i = .counted (budgetKey t) n ∧
    Reading d s t ∧ limit < n ∧ e = .smsBudgetExhausted (secondsUntilNextNairobiDay t)

/-- The entry `e` is the one that the call `i` wrote before it raised. -/
def Wrote {ι : Type*} (hashPhone : String → String) (limit : ℕ) (s : State ι) (i : ι)
    (e : AuditLog) :
    Prop :=
  ∃ a t err key count ak now, s.calls i = .raised a t err ∧ s.count.calls i = .counted key count ∧
    voterEvent hashPhone ak now .smsBudgetExhausted (some a.voter) a.phoneE164 a.request none
      [("count", .num count), ("limit", .num limit)] = some e

/-- **The entries added to `rows`** are those of the calls that raised, one each. -/
def Ledger {ι : Type*} (hashPhone : String → String) (limit : ℕ) (rows : List AuditLog)
    (s : State ι) :
    Prop :=
  ∃ es : List (ι × AuditLog), s.db.audit.rows = rows ++ es.map Prod.snd ∧ (es.map Prod.fst).Nodup ∧
    (∀ i, i ∈ es.map Prod.fst ↔ ∃ a t e, s.calls i = .raised a t e) ∧
    ∀ p ∈ es, Wrote hashPhone limit s p.1 p.2

section Invariants

variable {ι : Type*} [DecidableEq ι] {hashPhone : String → String} {limit d : ℕ} {b : Backend Time}
  {s s' : State ι} {l : Label ι}

theorem now_le_of_moves (h : Moves hashPhone limit b s l s') : s.count.now ≤ s'.count.now := by
  cases h with
  | cache _ h => exact Counting.now_le_of_step h
  | begins _ h => exact Counting.now_le_of_step h
  | returns => exact le_rfl
  | raises => exact le_rfl

/-- A call that has counted keeps its count. -/
theorem counted_of_moves {i : ι} {key : String} {n : ℕ} (h : Moves hashPhone limit b s l s')
    (hi : s.count.calls i = .counted key n) : s'.count.calls i = .counted key n := by
  have hkeep : ∀ {cl : Counting.Label ι Time} {count : Counting.State ι Time},
      Counting.step b s.count cl = some count → count.calls i = .counted key n := by
    intro cl count hstep
    rcases Counting.step_calls hstep i with hsame | ⟨hidle, -⟩ | ⟨-, -, -, hne⟩
    · rw [hsame, hi]
    · simp [hi] at hidle
    · exact absurd hi (hne key n)
  cases h with
  | cache _ h => exact hkeep h
  | begins _ h => exact hkeep h
  | returns => exact hi
  | raises => exact hi

/-- A call that has raised stays so. -/
theorem raised_of_moves {i : ι} {a : Args} {t : Time} {e : ApiError}
    (h : Moves hashPhone limit b s l s') (hi : s.calls i = .raised a t e) :
    s'.calls i = .raised a t e := by
  cases h with
  | cache => exact hi
  | begins hj =>
    refine (Function.update_of_ne (fun hij => ?_) ..).trans hi
    simp [← hij, hi] at hj
  | returns hj =>
    refine (Function.update_of_ne (fun hij => ?_) ..).trans hi
    simp [← hij, hi] at hj
  | raises hj =>
    refine (Function.update_of_ne (fun hij => ?_) ..).trans hi
    simp [← hij, hi] at hj

theorem reading_of_moves {t : Time} (h : Moves hashPhone limit b s l s') (ht : Reading d s t) :
    Reading d s' t :=
  ⟨ht.1, ht.2.trans (now_le_of_moves h)⟩

/-- What a call has been given stays given, and the day does not go back. -/
theorem linked_kept (h : Linked limit d s) (hm : Moves hashPhone limit b s l s') :
    d ≤ nairobiDay s'.count.now ∧
      (∀ i w, s.calls i = .returned w → ∃ t n, s'.count.calls i = .counted (budgetKey t) n ∧
        Reading d s' t ∧ n ≤ limit ∧ w = decide (n = warnAt limit)) ∧
      ∀ i a t e, s.calls i = .raised a t e → ∃ n, s'.count.calls i = .counted (budgetKey t) n ∧
        Reading d s' t ∧ limit < n ∧ e = .smsBudgetExhausted (secondsUntilNextNairobiDay t) := by
  refine ⟨h.day.trans (nairobiDay_mono (now_le_of_moves hm)), fun i w hi => ?_,
    fun i a t e hi => ?_⟩
  · obtain ⟨t, n, hc, ht, hrest⟩ := h.returned i w hi
    exact ⟨t, n, counted_of_moves hm hc, reading_of_moves hm ht, hrest⟩
  · obtain ⟨n, hc, ht, hrest⟩ := h.raised i a t e hi
    exact ⟨n, counted_of_moves hm hc, reading_of_moves hm ht, hrest⟩

/-- A call that the step on the cache does not begin. -/
theorem linked_of_step {cl : Counting.Label ι Time} {count : Counting.State ι Time} {i : ι}
    (h : Linked limit d s) (hstep : Counting.step b s.count cl = some count)
    (hcl : ∀ key timeout, cl ≠ .begin i key timeout) :
    (s.calls i = .idle → count.calls i = .idle) ∧
      ∀ a t, s.calls i = .counting a t → (count.calls i).key = some (budgetKey t) := by
  have hkey : (count.calls i).key = (s.count.calls i).key := Counting.key_of_step hstep hcl
  refine ⟨fun hi => ?_, fun a t hi => hkey.trans (h.counting i a t hi).1⟩
  rw [← Counting.key_eq_none, hkey, Counting.key_eq_none]
  exact h.idle i hi

/-- A call that ends keeps the link when what it is given is right. -/
theorem linked_end {i : ι} {p : Progress} {db : Database} (h : Linked limit d s)
    (hends : ∀ a t, p ≠ .counting a t) (hidle : p ≠ .idle)
    (hreturned : ∀ w, p = .returned w → ∃ t n, s.count.calls i = .counted (budgetKey t) n ∧
      Reading d s t ∧ n ≤ limit ∧ w = decide (n = warnAt limit))
    (hraised : ∀ a t e, p = .raised a t e → ∃ n, s.count.calls i = .counted (budgetKey t) n ∧
      Reading d s t ∧ limit < n ∧ e = .smsBudgetExhausted (secondsUntilNextNairobiDay t)) :
    Linked limit d ({ s with db }.setCall i p) := by
  refine ⟨h.day, fun j hj => ?_, fun j a t hj => ?_, fun j w hj => ?_, fun j a t e hj => ?_⟩
  · obtain ⟨-, hj⟩ | ⟨-, hj⟩ := update_cases hj
    · exact absurd hj hidle
    · exact h.idle j hj
  · obtain ⟨-, hj⟩ | ⟨-, hj⟩ := update_cases hj
    · exact absurd hj (hends a t)
    · exact h.counting j a t hj
  · obtain ⟨rfl, hp⟩ | ⟨-, hj⟩ := update_cases hj
    · exact hreturned w hp
    · exact h.returned j w hj
  · obtain ⟨rfl, hp⟩ | ⟨-, hj⟩ := update_cases hj
    · exact hraised a t e hp
    · exact h.raised j a t e hj

/-- **A step keeps the link** between a call and its steps on the cache. -/
theorem linked_step (h : Linked limit d s) (hm : Moves hashPhone limit b s l s') :
    Linked limit d s' := by
  obtain ⟨hday, hreturned, hraised⟩ := linked_kept h hm
  have hread : ∀ {t}, Reading d s t → Reading d s' t := fun ht => reading_of_moves hm ht
  -- the key of a call that has counted
  have hcounted : ∀ {i a now key n}, s.calls i = .counting a now →
    s.count.calls i = .counted key n →
      key = budgetKey now ∧ Reading d s now := by
    intro i a now key n hi hc
    obtain ⟨hkey, ht⟩ := h.counting i a now hi
    rw [hc] at hkey
    exact ⟨Option.some.inj hkey, ht⟩
  cases hm with
  | @cache _ cl count hcl hstep =>
    have hkeep := fun i => linked_of_step (i := i) h hstep (Label.onCache_ne_begin hcl i)
    exact ⟨hday, fun i hi => (hkeep i).1 hi,
      fun i a t hi => ⟨(hkeep i).2 a t hi, hread (h.counting i a t hi).2⟩, hreturned, hraised⟩
  | @begins i a count hi hstep =>
    have hkeep : ∀ j ≠ i, _ := fun j hji => linked_of_step (i := j) h hstep fun key timeout hl =>
      hji (Counting.Label.begin.inj hl).1.symm
    refine ⟨hday, fun j hj => ?_, fun j a' t hj => ?_, fun j w hj => ?_, fun j a' t e hj => ?_⟩
    · obtain ⟨-, hj⟩ | ⟨hji, hj⟩ := update_cases hj
      · simp at hj
      · exact (hkeep j hji).1 hj
    · obtain ⟨rfl, hp⟩ | ⟨hji, hj⟩ := update_cases hj
      · obtain ⟨-, rfl⟩ := Progress.counting.inj hp
        refine ⟨?_, h.day, Counting.now_le_of_step hstep⟩
        have hidle := h.idle j hi
        simp only [Counting.step, hidle] at hstep
        obtain rfl := Option.some.inj hstep
        show (Function.update s.count.calls j _ j).key = _
        rw [Function.update_self]
        rfl
      · exact ⟨(hkeep j hji).2 a' t hj, hread (h.counting j a' t hj).2⟩
    · obtain ⟨-, hj⟩ | ⟨-, hj⟩ := update_cases hj
      · simp at hj
      · exact hreturned j w hj
    · obtain ⟨-, hj⟩ | ⟨-, hj⟩ := update_cases hj
      · simp at hj
      · exact hraised j a' t e hj
  | @returns i a now key n ak hi hc hle =>
    obtain ⟨rfl, ht⟩ := hcounted hi hc
    refine linked_end h (by simp) (by simp) (fun w hw => ?_) (by simp)
    exact ⟨now, n, hc, ht, hle, (Progress.returned.inj hw).symm⟩
  | @raises i a now key n ak db hi hc hlt hw =>
    obtain ⟨rfl, ht⟩ := hcounted hi hc
    refine linked_end h (by simp) (by simp) (by simp) fun a' t e he => ?_
    obtain ⟨-, rfl, rfl⟩ := Progress.raised.inj he
    exact ⟨n, hc, ht, hlt, rfl⟩

/-- **A step keeps the ledger:** a call that raises adds its entry. -/
theorem ledger_step {rows : List AuditLog} (h : Ledger hashPhone limit rows s)
    (hm : Moves hashPhone limit b s l s') : Ledger hashPhone limit rows s' := by
  obtain ⟨es, hrows, hnodup, hwho, hwrote⟩ := h
  have hraised : ∀ i a t e, s.calls i = .raised a t e → s'.calls i = .raised a t e :=
    fun i a t e hr => raised_of_moves hm hr
  have hkept : ∀ p ∈ es, Wrote hashPhone limit s' p.1 p.2 := by
    intro p hp
    obtain ⟨a, t, err, key, count, ak, now, hr, hc, he⟩ := hwrote p hp
    exact ⟨a, t, err, key, count, ak, now, hraised _ a t err hr, counted_of_moves hm hc, he⟩
  -- a step after which no other call has raised
  have hquiet : s'.db = s.db → (∀ j a t e, s'.calls j = .raised a t e → s.calls j = .raised a t e) →
      Ledger hashPhone limit rows s' := by
    intro hdb hback
    refine ⟨es, hdb ▸ hrows, hnodup, fun j => (hwho j).trans ?_, hkept⟩
    refine exists_congr fun a => exists_congr fun t => exists_congr fun e => ?_
    exact ⟨hraised j a t e, hback j a t e⟩
  cases hm with
  | cache => exact hquiet rfl fun _ _ _ _ hj => hj
  | begins =>
    refine hquiet rfl fun j a t e hj => ?_
    obtain ⟨-, hj⟩ | ⟨-, hj⟩ := update_cases hj
    · simp at hj
    · exact hj
  | returns =>
    refine hquiet rfl fun j a t e hj => ?_
    obtain ⟨-, hj⟩ | ⟨-, hj⟩ := update_cases hj
    · simp at hj
    · exact hj
  | @raises i a now key n ak db hi hc hlt hw =>
    obtain ⟨e, audit, he, -, haudit, hdb⟩ := Database.write_eq_some hw
    have hnew : i ∉ es.map Prod.fst := fun hmem => by
      obtain ⟨a', t, e', hr⟩ := (hwho i).mp hmem
      simp [hi] at hr
    have hself : Wrote hashPhone limit ({ s with db }.setCall i
        (.raised a now (.smsBudgetExhausted (secondsUntilNextNairobiDay now)))) i e :=
      ⟨a, now, _, key, n, ak, s.count.now, Function.update_self .., hc, he⟩
    refine ⟨es ++ [(i, e)], ?_, ?_, fun j => ?_, ?_⟩
    · rw [List.map_append, ← List.append_assoc, ← hrows]
      exact (congrArg (fun d : Database => d.audit.rows) hdb).trans haudit
    · rw [List.map_append]
      exact hnodup.append (List.nodup_singleton i) (List.disjoint_singleton.mpr hnew)
    · rw [List.map_append, List.mem_append, hwho j]
      constructor
      · rintro (⟨a', t, e', hj⟩ | hj)
        · exact ⟨a', t, e', hraised j a' t e' hj⟩
        · obtain rfl := List.mem_singleton.mp hj
          exact ⟨a, now, _, Function.update_self ..⟩
      · rintro ⟨a', t, e', hj⟩
        obtain ⟨rfl, -⟩ | ⟨-, hj⟩ := update_cases hj
        · exact Or.inr (List.mem_singleton_self _)
        · exact Or.inl ⟨a', t, e', hj⟩
    · intro p hp
      rcases List.mem_append.mp hp with hp | hp
      · exact hkept p hp
      · rw [List.mem_singleton.mp hp]
        exact hself

/-- **Atomic increments stay sound** up to the end of the day. -/
theorem sound_of_moves {k : String} (hday : d ≤ nairobiDay s.count.now)
    (h : Counting.Sound k (dayEnd d) s.count) (hm : Moves hashPhone limit .atomic s l s') :
    Counting.Sound k (dayEnd d) s'.count := by
  cases hm with
  | @cache _ cl count hcl hstep =>
    refine Counting.sound_step h ?_ hstep
    cases cl with
    | begin i key timeout => exact absurd rfl (Label.onCache_ne_begin hcl i key timeout)
    | _ => trivial
  | @begins i a count hi hstep =>
    intro hnow
    have hsame : nairobiDay s.count.now = d :=
      le_antisymm (lt_dayEnd.mp ((Counting.now_le_of_step hstep).trans_lt hnow)) hday
    have htimely : Counting.Timely k (dayEnd d) s.count (.begin i (budgetKey s.count.now)
        (seconds (secondsUntilNextNairobiDay s.count.now))) count :=
      fun _ => hsame ▸ dayEnd_le s.count.now
    exact Counting.sound_step h htimely hstep hnow
  | returns => exact h
  | raises => exact h

end Invariants

/-! ### A call that is not interrupted -/

section Uninterrupted

variable {ι : Type*} [DecidableEq ι] {hashPhone : String → String} {limit : ℕ} {b : Backend Time}
  {s : State ι} {i : ι} {a : Args}

/-- A run of the cache is one of the calls. -/
theorem run_count {l : List (Counting.Label ι Time)} {c : Counting.State ι Time}
    (hl : ∀ cl ∈ l, ∃ label, ∀ m : State ι, step hashPhone limit b m label = m.count? b cl)
    (h : run (Counting.step b) s.count l = some c) :
    ∃ l', run (step hashPhone limit b) s l' = some { s with count := c } := by
  induction l generalizing s with
  | nil =>
    obtain rfl := Option.some.inj h
    exact ⟨[], rfl⟩
  | cons cl l ih =>
    obtain ⟨m, hm, h⟩ := run_cons_some.mp h
    obtain ⟨label, hlabel⟩ := hl cl List.mem_cons_self
    obtain ⟨l', hl'⟩ :=
      @ih { s with count := m } (fun cl hcl => hl cl (List.mem_cons_of_mem _ hcl)) h
    refine ⟨label :: l', ?_⟩
    rw [run_cons, hlabel s, State.count?, hm]
    exact hl'

/-- A call reads the clock and takes its steps on the cache. -/
theorem run_counted (h0 : limit ≠ 0) (hi : s.calls i = .idle) (hc : s.count.calls i = .idle)
    {cache : Cache Time} {n : ℕ}
    (hn : s.count.cache.count s.count.now (budgetKey s.count.now)
      (seconds (secondsUntilNextNairobiDay s.count.now)) = (cache, n)) :
    ∃ l s', run (step hashPhone limit .atomic) s l = some s' ∧ s'.db = s.db ∧
      s'.count.cache = cache ∧ s'.count.now = s.count.now ∧ s'.calls i = .counting a s.count.now ∧
      s'.count.calls i = .counted (budgetKey s.count.now) n := by
  generalize hkey : budgetKey s.count.now = key at hn ⊢
  generalize httl : seconds (secondsUntilNextNairobiDay s.count.now) = ttl at hn
  have hbegin : step hashPhone limit .atomic s (.reserve i a) = some
      ({ s with count := s.count.setCall i (.begun key ttl) }.setCall i
        (.counting a s.count.now)) := by
    simp [step, hi, h0, State.count?, Counting.step, hc, hkey, httl]
  have hbegun : (s.count.setCall i (.begun key ttl)).calls i = .begun key ttl :=
    Function.update_self ..
  obtain ⟨l, c, hl, hrun, hcache, hnow, hcount⟩ := Counting.run_uninterrupted hbegun
  have hsame :
      (s.count.setCall i (.begun key ttl)).cache.count (s.count.setCall i (.begun key ttl)).now
      key ttl = (cache, n) := hn
  rw [hsame] at hcache hcount
  have hlabels : ∀ cl ∈ l, ∃ label, ∀ m : State ι,
      step hashPhone limit .atomic m label = m.count? .atomic cl := by
    intro cl hcl
    have hcases : cl = .add i ∨ cl = .incr i ∨ cl = .reset i := by
      rcases hl with rfl | rfl <;> simp at hcl <;> tauto
    rcases hcases with rfl | rfl | rfl
    · exact ⟨.add i, fun _ => rfl⟩
    · exact ⟨.incr i, fun _ => rfl⟩
    · exact ⟨.reset i, fun _ => rfl⟩
  obtain ⟨l', hl'⟩ := @run_count ι _ hashPhone limit .atomic
    ({ s with count := s.count.setCall i (.begun key ttl) }.setCall i (.counting a s.count.now)) l c
    hlabels hrun
  refine ⟨.reserve i a :: l', ({ s with count := c } : State ι).setCall i (.counting a s.count.now),
    ?_, rfl, hcache, hnow, Function.update_self .., hcount⟩
  rw [run_cons, hbegin, Option.bind_some]
  exact hl'

/-- **The steps of one call** in a row are `reserve`. -/
theorem run_reserve {ak : Keys} {db' : Database} {cache' : Cache Time} {r : Except ApiError Unit}
    (hi : s.calls i = .idle) (hc : s.count.calls i = .idle)
    (h : reserve hashPhone limit s.db s.count.cache s.count.now a.voter a.phoneE164 a.request ak =
      some (db', cache', r)) :
    ∃ l s', run (step hashPhone limit .atomic) s l = some s' ∧ s'.db = db' ∧
      s'.count.cache = cache' ∧
      (r = .ok () → ∃ w, s'.calls i = .returned w) ∧
      ∀ e, r = .error e → s'.calls i = .raised a s.count.now e := by
  by_cases h0 : limit = 0
  · unfold reserve at h
    rw [if_pos h0] at h
    obtain ⟨rfl, hr⟩ := Prod.mk.inj (Option.some.inj h)
    obtain ⟨rfl, rfl⟩ := Prod.mk.inj hr
    refine ⟨[.reserve i a], s.setCall i (.returned false), ?_, rfl, rfl,
      fun _ => ⟨false, Function.update_self ..⟩, by simp⟩
    simp [step, hi, h0]
  · rcases hn : s.count.cache.count s.count.now (budgetKey s.count.now)
      (seconds (secondsUntilNextNairobiDay s.count.now)) with ⟨cache, n⟩
    rw [reserve_of_count h0 hn] at h
    obtain ⟨l, m, hl, hdb, hcache, hnow, hi', hc'⟩ :=
      @run_counted ι _ hashPhone limit s i a h0 hi hc cache n hn
    -- then the call concludes
    have hfinish : ∀ s', conclude hashPhone limit m i a s.count.now n ak = some s' →
        run (step hashPhone limit .atomic) s (l ++ [.conclude i ak]) = some s' := by
      intro s' hs'
      have hlast : step hashPhone limit .atomic m (.conclude i ak) = some s' := by
        simp only [step, hi', hc', hs']
      rw [run_append hl, run_cons, hlast]
      rfl
    split_ifs at h with hlt
    · obtain ⟨d, hw, hd⟩ := Option.map_eq_some_iff.mp h
      obtain ⟨rfl, hr⟩ := Prod.mk.inj hd
      obtain ⟨rfl, rfl⟩ := Prod.mk.inj hr
      refine ⟨_, ({ m with db := d } : State ι).setCall i (.raised a s.count.now
        (.smsBudgetExhausted (secondsUntilNextNairobiDay s.count.now))), hfinish _ ?_, rfl,
          hcache, by simp,
        fun e he => ?_⟩
      · unfold conclude
        rw [if_pos hlt, hdb, hnow, hw]
        rfl
      · obtain rfl := Except.error.inj he
        exact Function.update_self ..
    · obtain ⟨rfl, hr⟩ := Prod.mk.inj (Option.some.inj h)
      obtain ⟨rfl, rfl⟩ := Prod.mk.inj hr
      refine ⟨_, m.setCall i (.returned (decide (n = warnAt limit))), hfinish _ ?_, hdb, hcache,
        fun _ => ⟨_, Function.update_self ..⟩, by simp⟩
      unfold conclude
      rw [if_neg hlt]

end Uninterrupted

/-! ### One day -/

/-- No call has come yet, and the counter of the day is not there. -/
structure State.Fresh {ι : Type*} (s : State ι) : Prop where
  idle : ∀ i, s.calls i = .idle
  unused : Counting.Unused (budgetKey s.count.now) s.count

/-- Every call that has come has returned or raised. -/
def Done {ι : Type*} (s : State ι) : Prop := ∀ i a t, s.calls i ≠ .counting a t

def Progress.isReturned : Progress → Bool
  | .returned _ => true
  | _ => false

section Day

variable {ι : Type*} [Fintype ι]

def callers (s : State ι) : Finset ι := Finset.univ.filter fun i => s.calls i ≠ .idle

def returned (s : State ι) : Finset ι := Finset.univ.filter fun i => (s.calls i).isReturned

def warned (s : State ι) : Finset ι := Finset.univ.filter fun i => s.calls i = .returned true

theorem mem_callers {s : State ι} {i : ι} : i ∈ callers s ↔ s.calls i ≠ .idle := by simp [callers]

theorem mem_returned {s : State ι} {i : ι} : i ∈ returned s ↔ ∃ w, s.calls i = .returned w := by
  unfold returned
  rw [Finset.mem_filter]
  cases s.calls i <;> simp [Progress.isReturned]

theorem mem_warned {s : State ι} {i : ι} : i ∈ warned s ↔ s.calls i = .returned true := by
  simp [warned]

variable {limit d : ℕ} {s : State ι}

omit [Fintype ι] in
/-- All readings of the clock were on one day. -/
theorem key_of_reading (hday : nairobiDay s.count.now = d) {t : Time} (ht : Reading d s t) :
    budgetKey t = budgetKey s.count.now := by
  have hsame : nairobiDay t = nairobiDay s.count.now :=
    le_antisymm (nairobiDay_mono ht.2) (hday.le.trans ht.1)
  unfold budgetKey
  rw [hsame]

theorem returned_subset (h : Linked limit d s) (hday : nairobiDay s.count.now = d) :
    returned s ⊆ Counting.granted limit (budgetKey s.count.now) s.count := by
  intro i hi
  obtain ⟨w, hw⟩ := mem_returned.mp hi
  obtain ⟨t, n, hc, ht, hn, -⟩ := h.returned i w hw
  rw [key_of_reading hday ht] at hc
  exact Counting.mem_granted.mpr ⟨n, hc, hn⟩

theorem returned_eq (h : Linked limit d s) (hday : nairobiDay s.count.now = d) (hd : Done s) :
    returned s = Counting.granted limit (budgetKey s.count.now) s.count := by
  refine (returned_subset h hday).antisymm fun i hi => ?_
  obtain ⟨n, hc, hn⟩ := Counting.mem_granted.mp hi
  rcases hi : s.calls i with _ | ⟨a, t⟩ | w | ⟨a, t, e⟩
  · simp [h.idle i hi] at hc
  · exact absurd hi (hd i a t)
  · exact mem_returned.mpr ⟨w, hi⟩
  · obtain ⟨m, hm, -, hlt, -⟩ := h.raised i a t e hi
    obtain ⟨-, rfl⟩ := Counting.Phase.counted.inj (hm.symm.trans hc)
    exact absurd hn (Nat.not_le.mpr hlt)

theorem callers_eq (h : Linked limit d s) (hday : nairobiDay s.count.now = d) (hd : Done s) :
    callers s = Counting.counted (budgetKey s.count.now) s.count := by
  ext i
  rw [mem_callers, Counting.mem_counted]
  constructor
  · intro hi
    rcases hp : s.calls i with _ | ⟨a, t⟩ | w | ⟨a, t, e⟩
    · exact absurd hp hi
    · exact absurd hp (hd i a t)
    · obtain ⟨t, n, hc, ht, -⟩ := h.returned i w hp
      exact ⟨n, key_of_reading hday ht ▸ hc⟩
    · obtain ⟨n, hc, ht, -⟩ := h.raised i a t e hp
      exact ⟨n, key_of_reading hday ht ▸ hc⟩
  · rintro ⟨n, hc⟩ hi
    simp [h.idle i hi] at hc

/-- **With exact counts** as many calls return as the limit allows. -/
theorem card_returned (h : Linked limit d s) (hday : nairobiDay s.count.now = d) (hd : Done s)
    (he : Counting.Exact (budgetKey s.count.now) s.count) :
    (returned s).card = min (callers s).card limit := by
  rw [returned_eq h hday hd, callers_eq h hday hd, Counting.card_granted he]

theorem warnAt_pos (h0 : 1 ≤ limit) : 1 ≤ warnAt limit := by
  have hpos : (0 : ℚ) < limit := by exact_mod_cast h0
  exact Nat.ceil_pos.mpr (by positivity)

theorem warnAt_le (limit : ℕ) : warnAt limit ≤ limit := by
  refine Nat.ceil_le.mpr ?_
  have hnonneg : (0 : ℚ) ≤ limit := Nat.cast_nonneg limit
  linarith

theorem card_warned_le (h : Linked limit d s) (hday : nairobiDay s.count.now = d)
    (he : Counting.Exact (budgetKey s.count.now) s.count) : (warned s).card ≤ 1 := by
  have hwarned : ∀ i ∈ warned s, s.count.calls i = .counted (budgetKey s.count.now)
      (warnAt limit) := by
    intro i hi
    obtain ⟨t, n, hc, ht, -, hw⟩ := h.returned i true (mem_warned.mp hi)
    obtain rfl := of_decide_eq_true hw.symm
    exact key_of_reading hday ht ▸ hc
  exact Finset.card_le_one.mpr fun i hi j hj => he.once i j _ (hwarned i hi) (hwarned j hj)

theorem card_warned (h : Linked limit d s) (hday : nairobiDay s.count.now = d) (hd : Done s)
    (he : Counting.Exact (budgetKey s.count.now) s.count) (h0 : 1 ≤ limit)
    (hn : warnAt limit ≤ (callers s).card) : (warned s).card = 1 := by
  rw [callers_eq h hday hd, Counting.card_counted he] at hn
  obtain ⟨i, hc⟩ := he.all _ (warnAt_pos h0) hn
  have hi : i ∈ warned s := by
    rcases hi : s.calls i with _ | ⟨a, t⟩ | w | ⟨a, t, e⟩
    · simp [h.idle i hi] at hc
    · exact absurd hi (hd i a t)
    · obtain ⟨t, n, hc', -, -, rfl⟩ := h.returned i w hi
      obtain ⟨-, rfl⟩ := Counting.Phase.counted.inj (hc'.symm.trans hc)
      simp [mem_warned, hi]
    · obtain ⟨n, hc', -, hlt, -⟩ := h.raised i a t e hi
      obtain ⟨-, rfl⟩ := Counting.Phase.counted.inj (hc'.symm.trans hc)
      exact absurd (warnAt_le limit) (Nat.not_le.mpr hlt)
  exact le_antisymm (card_warned_le h hday he) (Finset.card_pos.mpr ⟨i, hi⟩)

end Day

/-! ### The budget -/

/-- The step a call takes next. -/
def Label.of? {ι : Type*} : Label ι → Option ι
  | .tick _ | .cull _ => none
  | .reserve i _ | .add i | .incr i | .store i | .reset i | .conclude i _ => some i

/-- **An exact budget**: `rows` is the audit log at the start of the day.

* `granted`, `capped`: as many calls return as the limit allows;
* `refused`, `raised`, `logged`: the others raise after writing one entry each, and the seconds to
  wait, counted from the reading of the clock or from a later instant, reach another day;
* `warnedOnce`, `warned`: the warning;
* `kept`: the counter outlasts the day;
* `moves`: a call that has come can go on. -/
structure ExactBudget {ι : Type*} [DecidableEq ι] [Fintype ι] (hashPhone : String → String)
    (limit : ℕ) (rows : List AuditLog) (s : State ι) : Prop where
  granted : Done s → (returned s).card = min (callers s).card limit
  capped : (returned s).card ≤ limit
  refused : Done s → ∀ i ∈ callers s, i ∉ returned s → ∃ a t e, s.calls i = .raised a t e
  raised : ∀ i a t e, s.calls i = .raised a t e → ∃ r, e = .smsBudgetExhausted r ∧ 1 ≤ r ∧
    ∀ now, t ≤ now → nairobiDay t < nairobiDay (now + seconds r)
  logged : Ledger hashPhone limit rows s
  warnedOnce : (warned s).card ≤ 1
  warned : Done s → warnAt limit ≤ (callers s).card → (warned s).card = 1
  kept : ∀ e, s.count.cache (budgetKey s.count.now) = some e →
    nairobiDay s.count.now < nairobiDay e.expires
  moves : ∀ i a t, s.calls i = .counting a t →
    ∃ l, l.of? = some i ∧ (step hashPhone limit .atomic s l).isSome = true

section Budget

variable {ι : Type*} {hashPhone : String → String} {limit : ℕ} {s s₀ : State ι}

theorem linked_of_fresh (h : s₀.Fresh) : Linked limit (nairobiDay s₀.count.now) s₀ := by
  refine ⟨le_rfl, fun i _ => h.unused.idle i, fun i a t hi => ?_, fun i w hi => ?_,
    fun i a t e hi => ?_⟩
  all_goals simp [h.idle i] at hi

theorem ledger_of_fresh (h : s₀.Fresh) : Ledger hashPhone limit s₀.db.audit.rows s₀ :=
  ⟨[], by simp, List.nodup_nil, fun i => by simp [h.idle i], by simp⟩

variable [DecidableEq ι]

/-- **Along a run** with atomic increments. -/
theorem run_reservations (h0 : limit ≠ 0) (h : s₀.Fresh) {l : List (Label ι)}
    (hr : run (step hashPhone limit .atomic) s₀ l = some s) :
    Linked limit (nairobiDay s₀.count.now) s ∧ Ledger hashPhone limit s₀.db.audit.rows s ∧
      Counting.Sound (budgetKey s₀.count.now) (dayEnd (nairobiDay s₀.count.now)) s.count := by
  refine run_inv (fun s => Linked limit (nairobiDay s₀.count.now) s ∧
      Ledger hashPhone limit s₀.db.audit.rows s ∧
      Counting.Sound (budgetKey s₀.count.now) (dayEnd (nairobiDay s₀.count.now)) s.count) ?_
    ⟨linked_of_fresh h, ledger_of_fresh h, Counting.sound_of_unused h.unused⟩ hr
  rintro s l s' ⟨hlink, hledger, hsound⟩ hs
  have hm := moves_of_step h0 hs
  exact ⟨linked_step hlink hm, ledger_step hledger hm, sound_of_moves hlink.day hsound hm⟩

/-- On the day of its start a run has counted exactly. -/
theorem exact_of_run (h0 : limit ≠ 0) (h : s₀.Fresh) {l : List (Label ι)}
    (hr : run (step hashPhone limit .atomic) s₀ l = some s)
    (hday : nairobiDay s.count.now = nairobiDay s₀.count.now) :
    Counting.Lasting (budgetKey s.count.now) (dayEnd (nairobiDay s₀.count.now)) s.count ∧
      Counting.Exact (budgetKey s.count.now) s.count := by
  obtain ⟨-, -, hsound⟩ := run_reservations h0 h hr
  have hkey : budgetKey s₀.count.now = budgetKey s.count.now := by
    unfold budgetKey
    rw [hday]
  exact hkey ▸ hsound (lt_dayEnd.mpr hday.le)

/-- A call that counts can take a step. -/
theorem exists_step {i : ι} {a : Args} {t : Time} {d : ℕ} (hlink : Linked limit d s)
    (hday : nairobiDay s.count.now = d)
    (hlast : Counting.Lasting (budgetKey s.count.now) (dayEnd d) s.count)
    (he : Counting.Exact (budgetKey s.count.now) s.count) (hi : s.calls i = .counting a t) :
    ∃ l, l.of? = some i ∧ (step hashPhone limit .atomic s l).isSome = true := by
  obtain ⟨hkey, ht⟩ := hlink.counting i a t hi
  rw [key_of_reading hday ht] at hkey
  rcases hp :
      s.count.calls i with _ | ⟨key, ttl⟩ | ⟨key, ttl⟩ | ⟨key, ttl, v⟩ | ⟨key, ttl⟩ | ⟨key, n⟩
  all_goals rw [hp] at hkey
  · simp [Counting.Phase.key] at hkey
  · exact ⟨.add i, rfl, by simp [step, State.count?, Counting.step, Counting.Backend.add, hp]⟩
  · exact ⟨.incr i, rfl, by simp [step, State.count?, Counting.step, hp]⟩
  · obtain rfl := Option.some.inj hkey
    exact absurd hp (hlast.alone i ttl v)
  · obtain rfl := Option.some.inj hkey
    exact absurd hp (he.found i ttl)
  · have hcount : forbiddenMetadataKeys.contains (Base.lower "count") = false := by decide
    have hlimit : forbiddenMetadataKeys.contains (Base.lower "limit") = false := by decide
    have hclean : ∀ kv ∈ [("count", MetaValue.num n), ("limit", MetaValue.num limit)],
        forbiddenMetadataKeys.contains (Base.lower kv.1) = false := by
      intro kv hkv
      rcases List.mem_cons.mp hkv with rfl | hkv
      · exact hcount
      · rw [List.mem_singleton.mp hkv]
        exact hlimit
    obtain ⟨ak, db, hw⟩ := exists_write_voterEvent hashPhone s.db s.count.now .smsBudgetExhausted
      (some a.voter) a.phoneE164 a.request none hclean
    refine ⟨.conclude i ak, rfl, ?_⟩
    simp only [step, hi, hp, conclude]
    split_ifs
    · simp [hw]
    · rfl

variable [Fintype ι]

/-- **The budget is exact**, whatever the interleaving of the calls of a day. -/
theorem exactBudget (h0 : 1 ≤ limit) (h : s₀.Fresh) {l : List (Label ι)}
    (hr : run (step hashPhone limit .atomic) s₀ l = some s)
    (hday : nairobiDay s.count.now = nairobiDay s₀.count.now) :
    ExactBudget hashPhone limit s₀.db.audit.rows s := by
  have hlimit : limit ≠ 0 := Nat.one_le_iff_ne_zero.mp h0
  obtain ⟨hlink, hledger, -⟩ := run_reservations hlimit h hr
  obtain ⟨hlast, he⟩ := exact_of_run hlimit h hr hday
  refine ⟨fun hd => card_returned hlink hday hd he, ?_, fun hd i hi hret => ?_,
    fun i a t e hi => ?_,
    hledger, card_warned_le hlink hday he, fun hd hn => card_warned hlink hday hd he h0 hn,
    fun e hentry => ?_, fun i a t hi => exists_step hlink hday hlast he hi⟩
  · refine (Finset.card_le_card (returned_subset hlink hday)).trans ?_
    rw [Counting.card_granted_value he]
    exact min_le_right _ _
  · rcases hp : s.calls i with _ | ⟨a, t⟩ | w | ⟨a, t, e⟩
    · exact absurd hp (mem_callers.mp hi)
    · exact absurd hp (hd i a t)
    · exact absurd (mem_returned.mpr ⟨w, hp⟩) hret
    · exact ⟨a, t, e, rfl⟩
  · obtain ⟨n, -, -, -, rfl⟩ := hlink.raised i a t e hi
    refine ⟨_, rfl, one_le_secondsUntilNextNairobiDay t, fun now hnow => ?_⟩
    refine nairobiDay_lt_of_dayEnd_le ((dayEnd_le t).trans ?_)
    exact Nat.add_le_add_right hnow _
  · exact nairobiDay_lt_of_dayEnd_le (hday ▸ hlast.entry e hentry)

end Budget

/-- Nobody has asked for a code yet. -/
def morning : State (Fin 2) where
  db := galaDb
  count := ⟨.empty, 0, fun _ => .idle⟩
  calls := fun _ => .idle

def annArgs : Args where
  voter := { id := 50, phoneE164 := "+254712345678" }
  phoneE164 := "+254712345678"
  request := ⟨none, "", .anonymous⟩

/-- Two callers, in the order they come in. -/
def early : Fin 2 := 0

def late : Fin 2 := 1

/-- Two calls at once; the second to come counts first. -/
def rush : List (Label (Fin 2)) :=
  [.reserve early annArgs, .reserve late annArgs, .add early, .add late, .incr late, .tick 5,
    .incr early, .conclude early ⟨90, 0⟩, .conclude late ⟨91, 1⟩]

example : (run (step id 1 .atomic) morning rush).map (fun s => (s.calls 0, s.calls 1)) =
    some (.raised annArgs 0 (.smsBudgetExhausted 75600), .returned true) := by decide +kernel

theorem exactBudget_rush : ∃ s, run (step id 1 .atomic) morning rush = some s ∧
    ExactBudget id 1 morning.db.audit.rows s := by
  have hday : (run (step id 1 .atomic) morning rush).map (fun s => nairobiDay s.count.now) =
      some 0 := by
    decide
  obtain ⟨s, hs, hday⟩ := Option.map_eq_some_iff.mp hday
  exact ⟨s, hs, exactBudget le_rfl ⟨fun _ => rfl, fun _ => rfl, rfl⟩ hs (hday.trans (by decide))⟩

end KwAwards.Common.BudgetConcurrent
