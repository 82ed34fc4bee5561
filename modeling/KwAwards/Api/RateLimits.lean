import KwAwards.Api.Actions
import KwAwards.Common.WindowLimit

/-! # Rate limits across requests

A request that is authenticated and permitted asks each throttle of its view that has a rate and an
identifier for it (`asksOf`), and all of them count it. In every run the counters are those of the
asks (`Counted`), so the throttles let a request through exactly when fewer requests than the limit
asked before it in the same window, and at most as many as the limit get through in a window
(`rates_of_run`).

The cache is one whose `incr` keeps the expiry that `add` gave the counter, and which evicts
nothing. The cache in the database is none: its `incr` gives a counter the default timeout. -/

namespace KwAwards.Api.RateLimits

open KwAwards.Lib.Counters KwAwards.Lib.Run KwAwards.Common.Base KwAwards.Common.Throttles
open KwAwards.Common.ExceptionHandler KwAwards.Accounts.Authentication KwAwards.Accounts.Permissions
open KwAwards.Voting.RequestView (Failure Outside checkThrottles)
open KwAwards.Common.WindowLimit (Sha256 Ask Asks counting counting_eq_some rate_of_scope key_eq_iff
  verdict_allowed)
open KwAwards.Api.Dispatch KwAwards.Api.Actions

/-! ### The counters -/

/-- How many of some asks have a key. -/
def countOf (sha256 : Sha256) (key : String) (asks : List Ask) : ℕ :=
  (asks.filter fun a => a.key sha256 = key).length

/-- An ask with the rate of its scope. -/
def Rated (rates : String → Option String) (a : Ask) : Prop :=
  counting rates a.scope (some a.ident) = some (a.ident, a.limit, a.window)

/-- **The counters are those of the asks**, and last for their windows. -/
structure Counted (sha256 : Sha256) (rates : String → Option String) (asks : List Ask)
    (c : Cache ℚ) :
    Prop where
  rated : ∀ a ∈ asks, Rated rates a
  absent : ∀ k, countOf sha256 k asks = 0 → c k = none
  value : ∀ k, countOf sha256 k asks ≠ 0 → ∃ e, c k = some e ∧ e.value = countOf sha256 k asks
  lasts : ∀ a ∈ asks, ∀ e, c (a.key sha256) = some e → (a.bucket + 1) * (a.window : ℚ) ≤ e.expires

variable {sha256 : Sha256} {rates : String → Option String} {asks : List Ask} {c : Cache ℚ}

theorem counted_empty : Counted sha256 rates [] .empty where
  rated _ ha := absurd ha List.not_mem_nil
  absent _ _ := rfl
  value _ h := absurd rfl h
  lasts _ ha := absurd ha List.not_mem_nil

theorem countOf_append (k : String) (l l' : List Ask) :
    countOf sha256 k (l ++ l') = countOf sha256 k l + countOf sha256 k l' := by
  unfold countOf
  rw [List.filter_append, List.length_append]

theorem countOf_singleton (k : String) (a : Ask) :
    countOf sha256 k [a] = if a.key sha256 = k then 1 else 0 := by
  unfold countOf
  by_cases h : a.key sha256 = k
  · simp [h]
  · simp [h]

theorem Rated.window_pos {a : Ask} (h : Rated rates a) : (0 : ℚ) < a.window := by
  obtain ⟨-, -, -, -, hne, -⟩ := counting_eq_some.mp h
  exact_mod_cast Nat.pos_of_ne_zero hne

/-- Asks that share a counter have their limit and their window in common. -/
theorem Rated.shared {a b : Ask} (ha : Rated rates a) (hb : Rated rates b)
    (h : b.key sha256 = a.key sha256) :
    b.limit = a.limit ∧ b.window = a.window ∧ b.bucket = a.bucket := by
  obtain ⟨hscope, -, hbucket⟩ := key_eq_iff.mp h
  unfold Rated at hb
  rw [hscope] at hb
  obtain ⟨hlimit, hwindow⟩ := rate_of_scope ha hb
  exact ⟨hlimit, hwindow, hbucket⟩

theorem Rated.at_lt {a : Ask} (h : Rated rates a) : a.at_ < (a.bucket + 1) * (a.window : ℚ) :=
  (lt_bucketEnd (by exact_mod_cast h.window_pos.ne')).mpr le_rfl

/-- A window begins before an ask in it. -/
theorem Rated.le_at {a : Ask} (h : Rated rates a) : a.bucket * (a.window : ℚ) ≤ a.at_ := by
  have hle := Int.floor_le (a.at_ / (a.window : ℚ))
  rwa [le_div_iff₀ h.window_pos] at hle

/-- **One ask is counted** one higher than those before it. -/
theorem Counted.count (h : Counted sha256 rates asks c) {a : Ask} (ha : Rated rates a) :
    (c.count a.at_ (a.key sha256) (a.window : ℚ)).2 = countOf sha256 (a.key sha256) asks + 1 ∧
      Counted sha256 rates (asks ++ [a]) (c.count a.at_ (a.key sha256) (a.window : ℚ)).1 := by
  -- the entry of the key after the ask; the others are as they were
  have hcount : ∃ e, c.count a.at_ (a.key sha256) (a.window : ℚ) =
      (Function.update c (a.key sha256) (some e), countOf sha256 (a.key sha256) asks + 1) ∧
      e.value = countOf sha256 (a.key sha256) asks + 1 ∧
      (a.bucket + 1) * (a.window : ℚ) ≤ e.expires := by
    by_cases hzero : countOf sha256 (a.key sha256) asks = 0
    · refine ⟨⟨1, a.at_ + a.window⟩, ?_, by rw [hzero], ?_⟩
      · rw [Cache.count_of_none (h.absent _ hzero) (by linarith [ha.window_pos]), hzero]
        rfl
      · have hle := ha.le_at
        show (a.bucket + 1) * (a.window : ℚ) ≤ a.at_ + a.window
        linarith
    · obtain ⟨e, he, hvalue⟩ := h.value _ hzero
      obtain ⟨b, hb⟩ := List.exists_mem_of_length_pos (Nat.pos_of_ne_zero hzero)
      obtain ⟨hb, hkey⟩ := List.mem_filter.mp hb
      have hkey : b.key sha256 = a.key sha256 := of_decide_eq_true hkey
      obtain ⟨-, hwindow, hbucket⟩ := ha.shared (h.rated b hb) hkey
      have hlasts := h.lasts b hb e (hkey ▸ he)
      rw [hwindow, hbucket] at hlasts
      refine ⟨{ e with value := e.value + 1 }, ?_, by rw [← hvalue], hlasts⟩
      rw [Cache.count_of_live he (ha.at_lt.trans_le hlasts), hvalue]
  obtain ⟨e, hcount, hvalue, hlasts⟩ := hcount
  rw [hcount]
  refine ⟨rfl, ?_, fun k hk => ?_, fun k hk => ?_, fun b hb e' he' => ?_⟩
  · intro b hb
    rcases List.mem_append.mp hb with hb | hb
    · exact h.rated b hb
    · exact List.mem_singleton.mp hb ▸ ha
  · rw [countOf_append, countOf_singleton] at hk
    have hne : k ≠ a.key sha256 := by
      rintro rfl
      rw [if_pos rfl] at hk
      omega
    exact (Function.update_of_ne hne ..).trans (h.absent k (by omega))
  · rw [countOf_append, countOf_singleton] at hk ⊢
    by_cases hkey : k = a.key sha256
    · subst hkey
      exact ⟨e, Function.update_self .., by rw [if_pos rfl, hvalue]⟩
    · rw [if_neg (Ne.symm hkey), Nat.add_zero] at hk ⊢
      obtain ⟨e', he', hv'⟩ := h.value k hk
      exact ⟨e', (Function.update_of_ne hkey ..).trans he', hv'⟩
  · have hrated : Rated rates b := by
      rcases List.mem_append.mp hb with hb | hb
      · exact h.rated b hb
      · exact List.mem_singleton.mp hb ▸ ha
    by_cases hkey : b.key sha256 = a.key sha256
    · obtain ⟨-, hwindow, hbucket⟩ := ha.shared hrated hkey
      rw [hkey] at he'
      have hself := Function.update_self (a.key sha256) (some e) c
      obtain rfl := Option.some.inj (hself.symm.trans he')
      rw [hwindow, hbucket]
      exact hlasts
    · have hold : b ∈ asks := by
        rcases List.mem_append.mp hb with hb | hb
        · exact hb
        · exact absurd (List.mem_singleton.mp hb ▸ rfl) hkey
      exact h.lasts b hold e' ((Function.update_of_ne hkey ..).symm.trans he')

/-! ### The throttles of a request -/

/-- Every rate that is set is one with a window that is a `float` and a timeout that the cache
takes. -/
def Usable (rates : String → Option String) (largest : ℕ) : Prop :=
  ∀ scope, (rates scope).getD "" ≠ "" → ∃ limit window,
    parseRate ((rates scope).getD "") = .ok (limit, window) ∧ window ≠ 0 ∧ window < floatRange ∧
      window ≤ largest

/-- **What a request asks** of throttles with these identifiers, by the clock of each. -/
def asksOf (rates : String → Option String) (clock : String → ℚ)
    (throttles : List (String × Option String)) :
    List Ask :=
  throttles.filterMap fun (scope, ident) => (counting rates scope ident).map
    fun (name, limit, window) =>
    { scope, ident := name, at_ := clock scope, limit, window }

theorem mem_asksOf {clock : String → ℚ} {throttles : List (String × Option String)} {a : Ask} :
    a ∈ asksOf rates clock throttles ↔
      (a.scope, some a.ident) ∈ throttles ∧ Rated rates a ∧ a.at_ = clock a.scope := by
  simp only [asksOf, List.mem_filterMap, Option.map_eq_some_iff]
  constructor
  · rintro ⟨⟨scope, ident⟩, hmem, ⟨name, limit, window⟩, hcount, rfl⟩
    obtain ⟨-, rfl, -⟩ := counting_eq_some.mp hcount
    exact ⟨hmem, hcount, rfl⟩
  · rintro ⟨hmem, hrated, hat⟩
    refine ⟨_, hmem, _, hrated, ?_⟩
    obtain ⟨scope, ident, at_, limit, window⟩ := a
    obtain rfl : at_ = clock scope := hat
    rfl

/-- Throttles of different scopes are asked under different keys. -/
theorem key_ne_of_scope {a b : Ask} (h : a.scope ≠ b.scope) : a.key sha256 ≠ b.key sha256 :=
  fun hkey => h (key_eq_iff.mp hkey).1

theorem allowRequest_of_counting {a : Ask} {ident : Option String}
    (h : counting rates a.scope ident = some (a.ident, a.limit, a.window)) {largest : ℕ}
    (hlargest : a.window ≤ largest) (cache : Cache ℚ) :
    allowRequest sha256.hexdigest rates largest a.scope ident a.at_ cache =
      .ok ((cache.count a.at_ (a.key sha256) (a.window : ℚ)).1,
        a.verdict (cache.count a.at_ (a.key sha256) (a.window : ℚ)).2) := by
  obtain ⟨hne, rfl, hname, hparse, hw, hlarge⟩ := counting_eq_some.mp h
  unfold allowRequest Ask.verdict Ask.key Ask.bucket
  simp only [Option.getD_some, if_neg hne, if_neg hname, hparse, if_neg hw, if_neg hlarge.not_ge,
    if_neg hlargest.not_gt]
  split_ifs <;> rfl

theorem allowRequest_of_usable {largest : ℕ} (husable : Usable rates largest) {scope : String}
    {ident : Option String} (h : counting rates scope ident = none) (now : ℚ) (cache : Cache ℚ) :
    allowRequest sha256.hexdigest rates largest scope ident now cache = .ok (cache, .allowed) := by
  unfold allowRequest
  simp only
  split_ifs with hrate hident
  · rfl
  · rfl
  · obtain ⟨limit, window, hparse, hw, hlarge, -⟩ := husable scope hrate
    unfold counting at h
    simp only [hrate, hident, or_self, if_false, hparse, hw, hlarge.not_ge] at h
    cases h

theorem window_le_of_usable {largest : ℕ} (husable : Usable rates largest) {scope name : String}
    {ident : Option String} {limit window : ℕ}
    (h : counting rates scope ident = some (name, limit, window)) : window ≤ largest := by
  obtain ⟨hne, -, -, hparse, -, -⟩ := counting_eq_some.mp h
  obtain ⟨limit', window', hparse', -, -, hle⟩ := husable scope hne
  obtain ⟨-, rfl⟩ := Prod.mk.inj (Except.ok.inj (hparse.symm.trans hparse'))
  exact hle

section Check

variable {cfg : Voting.RequestView.Config} {o : Outside} {scope : String} {ident : Option String}
  {rest : List (String × Except Failure (Option String))} {c' : Cache ℚ}

theorem checkThrottles_allowed
    (h : allowRequest cfg.sha256 cfg.rates cfg.largestTimeout scope ident (o.clock scope) c =
      .ok (c', .allowed)) :
    checkThrottles cfg o ((scope, .ok ident) :: rest) c = checkThrottles cfg o rest c' := by
  rw [checkThrottles]
  split_ifs with hrate
  · unfold allowRequest at h
    simp only [if_pos hrate] at h
    obtain ⟨rfl, -⟩ := Prod.mk.inj (Except.ok.inj h)
    rfl
  · simp only [h]

theorem checkThrottles_refused {wait : ℤ}
    (h : allowRequest cfg.sha256 cfg.rates cfg.largestTimeout scope ident (o.clock scope) c =
      .ok (c', .refused wait)) :
    checkThrottles cfg o ((scope, .ok ident) :: rest) c =
      (checkThrottles cfg o rest c').map fun (cache, waits) => (cache, wait :: waits) := by
  rw [checkThrottles]
  split_ifs with hrate
  · unfold allowRequest at h
    simp only [if_pos hrate] at h
    cases (Prod.mk.inj (Except.ok.inj h)).2
  · simp only [h]

end Check

/-- **The throttles of a request** count its asks, and none of them refuses it exactly when each
counter is below its limit. -/
theorem checkThrottles_counted (cfg : Voting.RequestView.Config) (o : Outside)
    (hsha : cfg.sha256 = sha256.hexdigest) (husable : Usable cfg.rates cfg.largestTimeout)
    {throttles : List (String × Option String)} (hnd : (throttles.map Prod.fst).Nodup)
    (h : Counted sha256 cfg.rates asks c) : ∃ c' waits,
      checkThrottles cfg o (throttles.map fun (scope, ident) => (scope, .ok ident)) c =
        .ok (c', waits) ∧
        Counted sha256 cfg.rates (asks ++ asksOf cfg.rates o.clock throttles) c' ∧
        (waits = [] ↔ ∀ a ∈ asksOf cfg.rates o.clock throttles,
          countOf sha256 (a.key sha256) asks < a.limit) := by
  induction throttles generalizing asks c with
  | nil => exact ⟨c, [], rfl, by simpa [asksOf] using h, by simp [asksOf]⟩
  | cons throttle rest ih =>
    obtain ⟨scope, ident⟩ := throttle
    obtain ⟨hscope, hrestnd⟩ := List.nodup_cons.mp hnd
    rcases hcount : counting cfg.rates scope ident with _ | ⟨name, limit, window⟩
    · have hasks :
          asksOf cfg.rates o.clock ((scope, ident) :: rest) = asksOf cfg.rates o.clock rest := by
        simp [asksOf, hcount]
      obtain ⟨c', waits, hrun, hrest⟩ := ih hrestnd h
      rw [hasks]
      refine ⟨c', waits, ?_, hrest⟩
      rw [List.map_cons, checkThrottles_allowed (hsha ▸ allowRequest_of_usable husable hcount _ c)]
      exact hrun
    · have hasks : asksOf cfg.rates o.clock ((scope, ident) :: rest) =
          ⟨scope, name, o.clock scope, limit, window⟩ :: asksOf cfg.rates o.clock rest := by
        simp [asksOf, hcount]
      have hlargest : window ≤ cfg.largestTimeout := window_le_of_usable husable hcount
      have hallow :=
        @allowRequest_of_counting sha256 cfg.rates ⟨scope, name, o.clock scope, limit, window⟩
        ident hcount cfg.largestTimeout hlargest c
      have hrated : Rated cfg.rates ⟨scope, name, o.clock scope, limit, window⟩ := by
        obtain ⟨-, rfl, -⟩ := counting_eq_some.mp hcount
        exact hcount
      rw [hasks]
      generalize ha : (⟨scope, name, o.clock scope, limit, window⟩ : Ask) = a at hallow hrated ⊢
      obtain rfl : a.scope = scope := by rw [← ha]
      have hat : a.at_ = o.clock a.scope := by rw [← ha]
      obtain ⟨hvalue, hcounted⟩ := h.count hrated
      obtain ⟨c', waits, hrun, hc', hwaits⟩ := ih hrestnd hcounted
      rw [List.append_assoc, List.singleton_append] at hc'
      -- the other throttles have other scopes, so their counters are not that of `a`
      have hothers : ∀ b ∈ asksOf cfg.rates o.clock rest,
          countOf sha256 (b.key sha256) (asks ++ [a]) = countOf sha256 (b.key sha256) asks := by
        intro b hb
        have hmem : b.scope ∈ rest.map Prod.fst := List.mem_map_of_mem (mem_asksOf.mp hb).1
        have hne : a.scope ≠ b.scope := fun heq => hscope (heq.symm ▸ hmem)
        rw [countOf_append, countOf_singleton, if_neg (key_ne_of_scope hne), Nat.add_zero]
      have hrest : waits = [] ↔ ∀ b ∈ asksOf cfg.rates o.clock rest,
          countOf sha256 (b.key sha256) asks < b.limit := by
        rw [hwaits]
        exact forall₂_congr fun b hb => by rw [hothers b hb]
      rw [hvalue, hat, ← hsha] at hallow
      rw [List.map_cons, List.forall_mem_cons]
      by_cases hbelow : countOf sha256 (a.key sha256) asks < a.limit
      · rw [← verdict_allowed.mpr (Nat.succ_le_of_lt hbelow)] at hallow
        refine ⟨c', waits, ?_, hc', hrest.trans ⟨fun hall => ⟨hbelow, hall⟩, fun hall => hall.2⟩⟩
        rw [checkThrottles_allowed hallow, ← hat]
        exact hrun
      · obtain ⟨wait, hrefused⟩ :
            ∃ wait, a.verdict (countOf sha256 (a.key sha256) asks + 1) = .refused wait := by
          unfold Ask.verdict
          exact ⟨_, if_pos (Nat.lt_succ_of_le (Nat.le_of_not_lt hbelow))⟩
        rw [hrefused] at hallow
        refine ⟨c', wait :: waits, ?_, hc', iff_of_false (by simp) fun hall => hbelow hall.1⟩
        rw [checkThrottles_refused hallow, ← hat, hrun]
        rfl

/-! ### Requests -/

/-- The user for whom a request asks its throttles, if it is authenticated and permitted. -/
def permitted (cfg : Config) (s : State) (call : Call) (r : HttpRequest)
    (m : Moment) : Option RequestUser :=
  match authenticated cfg s call r m with
  | .ok user => if firstDenial r call.method user call.permissions = none then some user else none
  | .error _ => none

/-- Whether a request gets to its action. -/
def letThrough (cfg : Config) (s : State) (call : Call) (r : HttpRequest) (m : Moment) : Bool :=
  match initial cfg s call r m with
  | some (_, .ok _) => true
  | _ => false

/-- What a request asks its throttles. -/
def asksBy (cfg : Config) (s : State) (call : Call) (r : HttpRequest) (m : Moment) : List Ask :=
  match permitted cfg s call r m with
  | some user => asksOf cfg.rates m.clock (call.throttles cfg.phones r user)
  | none => []

/-- The asks of a step, each with whether its request gets to its action. -/
def asksIn (cfg : Config) (s : State) : Input → State → List (Ask × Bool)
  | .request call r m, _ => (asksBy cfg s call r m).map (·, letThrough cfg s call r m)
  | _, _ => []

/-- The asks of a run. -/
def asksOfRun (cfg : Config) (s : State) (l : List Input) : List (Ask × Bool) :=
  emitted (step cfg) (asksIn cfg) s l

section Counts

variable (sha256 : Sha256) (scope ident : String)

/-- How many of some asks have the counter of an identifier in a window. -/
def asked (bucket : ℤ) (asks : List (Ask × Bool)) : ℕ :=
  (asks.filter fun x => Asks sha256 scope ident bucket x.1).length

/-- How many of these were let through. -/
def passed (bucket : ℤ) (asks : List (Ask × Bool)) : ℕ :=
  (asks.filter fun x => x.2 && decide (Asks sha256 scope ident bucket x.1)).length

/-- How many were let through from `x` to `y`, in any windows. -/
def passedBetween (x y : ℚ) (asks : List (Ask × Bool)) : ℕ :=
  (asks.filter fun z =>
    z.2 && decide (Asks sha256 scope ident z.1.bucket z.1 ∧ x ≤ z.1.at_ ∧ z.1.at_ ≤ y)).length

end Counts

variable {cfg : Config} {s s' : State} {call : Call} {r : HttpRequest} {m : Moment}
  {user : RequestUser}

/-- The throttles of a view have different scopes. -/
theorem nodup_throttles (phones : Common.Phone.PhoneNumbers) (r : HttpRequest) (user : RequestUser)
    (call : Call) : ((call.throttles phones r user).map Prod.fst).Nodup := by
  cases call <;> simp [Call.throttles]

theorem permitted_eq_some : permitted cfg s call r m = some user ↔
    authenticated cfg s call r m = .ok user ∧
    firstDenial r call.method user call.permissions = none := by
  unfold permitted
  cases hauth : authenticated cfg s call r m with
  | error exc => simp
  | ok u =>
    simp only
    split_ifs with hdenied
    · constructor
      · intro h
        obtain rfl := Option.some.inj h
        exact ⟨rfl, hdenied⟩
      · rintro ⟨h, -⟩
        rw [Except.ok.inj h]
    · refine ⟨nofun, ?_⟩
      rintro ⟨h, hnone⟩
      exact absurd (Except.ok.inj h ▸ hnone) hdenied

/-- **A request before its action**, where it is permitted: its throttles count it. -/
theorem initial_of_permitted (h : permitted cfg s call r m = some user) :
    initial cfg s call r m = some (throttle cfg s call r m user) := by
  obtain ⟨hauth, hnone⟩ := permitted_eq_some.mp h
  unfold initial
  simp only [hauth, checkPermissions_of_none s.db hnone, Option.map_some]

/-- A request that is not permitted leaves the counters, and does not get to its action. -/
theorem initial_of_not_permitted {res : Except Stop RequestUser}
    (h : permitted cfg s call r m = none) (hi : initial cfg s call r m = some (s', res)) :
    s'.throttles = s.throttles ∧ ∃ stop, res = .error stop := by
  obtain ⟨exc, -, rfl, rfl⟩ | ⟨user, hauth, ⟨hdenied, exc, rfl⟩ | ⟨hnone, -⟩⟩ := initial_cases hi
  · exact ⟨rfl, _, rfl⟩
  · refine ⟨?_, _, rfl⟩
    cases hdenied with
    | silent _ _ _ hs => rw [hs]
    | audited _ _ _ _ _ _ _ _ _ _ _ hs => rw [hs]
  · rw [permitted_eq_some.mpr ⟨hauth, hnone⟩] at h
    cases h

/-- An action leaves the counters of the throttles. -/
theorem throttles_act {res : Except Stop Unit} (hpermitted : permitted cfg s call r m = some user)
    (h : act cfg s user r m call = some (s', res)) : s'.throttles = s.throttles := by
  obtain ⟨hauth, hallow⟩ := permitted_eq_some.mp hpermitted
  obtain rfl | ⟨op, -, hmoves⟩ | ⟨⟨email, password, y, rfl, -⟩, -⟩ := act_runs hauth hallow h
  · rfl
  · exact hmoves.throttles
  · replace h : loginPost cfg s r m (.ok (email, password)) = some (s', res) := h
    obtain ⟨⟨db, accounts, z⟩, -, hs⟩ := Option.map_eq_some_iff.mp h
    obtain ⟨rfl, -⟩ := Prod.mk.inj hs
    rfl

theorem letThrough_iff : letThrough cfg s call r m = true ↔
    ∃ s₁ user, initial cfg s call r m = some (s₁, .ok user) := by
  unfold letThrough
  split
  · next s₁ user hi => exact iff_of_true rfl ⟨s₁, user, hi⟩
  · next hne => exact iff_of_false (by simp) fun ⟨s₁, user, hi⟩ => hne s₁ user hi

/-- A request that gets to its action is permitted. -/
theorem permitted_of_ok (h : initial cfg s call r m = some (s', .ok user)) :
    (permitted cfg s call r m).isSome = true := by
  by_contra hnot
  rw [Bool.not_eq_true, Option.isSome_eq_false_iff, Option.isNone_iff_eq_none] at hnot
  obtain ⟨stop, hstop⟩ := (initial_of_not_permitted hnot h).2
  cases hstop

/-- What follows the throttles leaves the counters. -/
theorem throttles_of_dispatch {s₁ : State} {x : Except Stop RequestUser} {res : Except Stop Unit}
    (hi : initial cfg s call r m = some (s₁, x)) (h : dispatch cfg s call r m = some (s', res)) :
    s'.throttles = s₁.throttles := by
  unfold dispatch at h
  rw [hi, Option.bind_some] at h
  rcases x with stop | user
  · obtain ⟨rfl, -⟩ := Prod.mk.inj (Option.some.inj h)
    rfl
  · obtain ⟨exc, -, -, hx⟩ | ⟨u, hauth, ⟨-, exc, hx⟩ | ⟨hnone, ⟨throttles, rfl⟩, ⟨f, hx⟩ | hx⟩⟩ :=
      initial_cases hi
    · cases hx
    · cases hx
    · cases hx
    · obtain rfl := Except.ok.inj hx
      exact throttles_act (permitted_eq_some.mpr ⟨hauth, hnone⟩) h

/-- **A request** is refused, with an entry at most, or is let through and its action runs. -/
theorem act_of_dispatch {res : Except Stop Unit} (h : dispatch cfg s call r m = some (s', res)) :
    (letThrough cfg s call r m = false ∧ s'.db = { s.db with audit := s'.db.audit } ∧ ∃ stop,
      res = .error stop) ∨
      ∃ user throttles, letThrough cfg s call r m = true ∧ permitted cfg s call r m = some user ∧
        act cfg { s with throttles } user r m call = some (s', res) := by
  obtain ⟨⟨s₁, x⟩, hinitial, h⟩ := Option.bind_eq_some_iff.mp h
  rcases x with stop | user
  · obtain ⟨rfl, rfl⟩ := Prod.mk.inj (Option.some.inj h)
    refine Or.inl ⟨?_, ?_, stop, rfl⟩
    · unfold letThrough
      rw [hinitial]
    · obtain ⟨exc, -, hs, -⟩ | ⟨user, -, ⟨hdenied, -⟩ | ⟨-, ⟨throttles, hs⟩, -⟩⟩ :=
        initial_cases hinitial
      · rw [hs]
      · cases hdenied with
        | silent _ _ _ hs => rw [hs]
        | audited _ _ _ _ _ _ _ _ _ _ _ hs => rw [hs]
      · rw [hs]
  · obtain ⟨exc, -, -, hx⟩ | ⟨u, hauth, ⟨-, exc, hx⟩ | ⟨hnone, ⟨throttles, rfl⟩, ⟨f, hx⟩ | hx⟩⟩ :=
      initial_cases hinitial
    · cases hx
    · cases hx
    · cases hx
    · obtain rfl := Except.ok.inj hx
      exact Or.inr ⟨user, throttles, letThrough_iff.mpr ⟨_, user, hinitial⟩,
        permitted_eq_some.mpr ⟨hauth, hnone⟩, h⟩

theorem asksBy_of_permitted (h : permitted cfg s call r m = some user) :
    asksBy cfg s call r m = asksOf cfg.rates m.clock (call.throttles cfg.phones r user) := by
  unfold asksBy
  rw [h]

/-- **The counters after the throttles**, and which requests they let through. -/
theorem initial_counted (hsha : cfg.sha256 = sha256.hexdigest)
    (husable : Usable cfg.rates cfg.largestTimeout) (h : Counted sha256 cfg.rates asks s.throttles)
    {s₁ : State} {res : Except Stop RequestUser} (hi : initial cfg s call r m = some (s₁, res)) :
    Counted sha256 cfg.rates (asks ++ asksBy cfg s call r m) s₁.throttles ∧
      ((permitted cfg s call r m).isSome = true → ((∃ user, res = .ok user) ↔
        ∀ a ∈ asksBy cfg s call r m, countOf sha256 (a.key sha256) asks < a.limit)) := by
  cases hpermitted : permitted cfg s call r m with
  | none =>
    have hnil : asksBy cfg s call r m = [] := by
      unfold asksBy
      rw [hpermitted]
    rw [hnil, List.append_nil, (initial_of_not_permitted hpermitted hi).1]
    exact ⟨h, by simp⟩
  | some user =>
    rw [asksBy_of_permitted hpermitted]
    rw [initial_of_permitted hpermitted] at hi
    obtain ⟨c', waits, hcheck, hcounted, hwaits⟩ := checkThrottles_counted cfg.view
      (m.outside (fun _ _ => true) .sent) hsha husable (nodup_throttles cfg.phones r user call) h
    have hthrottle : throttle cfg s call r m user = (s₁, res) := Option.some.inj hi
    unfold throttle at hthrottle
    simp only [hcheck] at hthrottle
    cases waits with
    | nil =>
      obtain ⟨rfl, rfl⟩ := Prod.mk.inj hthrottle
      exact ⟨hcounted, fun _ => iff_of_true ⟨user, rfl⟩ (hwaits.mp rfl)⟩
    | cons wait waits =>
      obtain ⟨rfl, rfl⟩ := Prod.mk.inj hthrottle
      exact ⟨hcounted, fun _ => iff_of_false (by simp) fun hall => by simpa using hwaits.mpr hall⟩

/-! ### Every run -/

/-- How many of some asks with a key were let through. -/
def passedKey (sha256 : Sha256) (key : String) (asks : List (Ask × Bool)) : ℕ :=
  (asks.filter fun x => x.2 && decide (x.1.key sha256 = key)).length

/-- **What every run keeps:** the counters are those of the asks, and no limit was passed. -/
structure Tracks (sha256 : Sha256) (rates : String → Option String) (s : State)
    (asks : List (Ask × Bool)) :
    Prop where
  counted : Counted sha256 rates (asks.map Prod.fst) s.throttles
  within : ∀ a, Rated rates a → passedKey sha256 (a.key sha256) asks ≤ a.limit

theorem passedKey_append (k : String) (l l' : List (Ask × Bool)) :
    passedKey sha256 k (l ++ l') = passedKey sha256 k l + passedKey sha256 k l' := by
  unfold passedKey
  rw [List.filter_append, List.length_append]

theorem passedKey_le (k : String) (l : List (Ask × Bool)) :
    passedKey sha256 k l ≤ countOf sha256 k (l.map Prod.fst) := by
  unfold passedKey countOf
  rw [List.filter_map, List.length_map]
  refine (List.monotone_filter_right l fun x hx => ?_).length_le
  rw [Bool.and_eq_true] at hx
  exact hx.2

/-- The asks of one request have different keys. -/
theorem countOf_asksBy_le (k : String) : countOf sha256 k (asksBy cfg s call r m) ≤ 1 := by
  have hkeys : (asksBy cfg s call r m).Pairwise fun a b => a.key sha256 ≠ b.key sha256 := by
    unfold asksBy
    split
    · next user _ =>
      have hscopes := nodup_throttles cfg.phones r user call
      rw [List.Nodup, List.pairwise_map] at hscopes
      unfold asksOf
      rw [List.pairwise_filterMap]
      refine hscopes.imp fun {x y} hxy a ha b hb => key_ne_of_scope ?_
      obtain ⟨_, -, rfl⟩ := Option.map_eq_some_iff.mp ha
      obtain ⟨_, -, rfl⟩ := Option.map_eq_some_iff.mp hb
      exact hxy
    · exact List.Pairwise.nil
  have hshared := hkeys.sublist (List.filter_sublist (p := fun a => decide (a.key sha256 = k)))
  have hmem : ∀ a ∈ (asksBy cfg s call r m).filter (fun a => decide (a.key sha256 = k)),
    a.key sha256 = k :=
    fun a ha => of_decide_eq_true (List.mem_filter.mp ha).2
  unfold countOf
  generalize (asksBy cfg s call r m).filter (fun a => decide (a.key sha256 = k)) =
    l at hshared hmem ⊢
  rcases l with _ | ⟨a, _ | ⟨b, l⟩⟩
  · exact Nat.zero_le 1
  · exact le_rfl
  · refine absurd ?_ ((List.pairwise_cons.mp hshared).1 b List.mem_cons_self)
    rw [hmem a List.mem_cons_self, hmem b (List.mem_cons_of_mem a List.mem_cons_self)]

/-- Of the asks of one request that gets to its action, each came below its limit. -/
theorem tracks_append (hall : letThrough cfg s call r m = true → ∀ a ∈ asksBy cfg s call r m,
      countOf sha256 (a.key sha256) asks < a.limit) {out : List (Ask × Bool)}
    (hrated : ∀ a ∈ asksBy cfg s call r m, Rated cfg.rates a) (hout : out.map Prod.fst = asks)
    (hwithin : ∀ a, Rated cfg.rates a → passedKey sha256 (a.key sha256) out ≤ a.limit) {a : Ask}
    (ha : Rated cfg.rates a) :
    passedKey sha256 (a.key sha256)
      (out ++ (asksBy cfg s call r m).map (·, letThrough cfg s call r m)) ≤ a.limit := by
  have hold := hwithin a ha
  rw [passedKey_append]
  have hnew :
      passedKey sha256 (a.key sha256) ((asksBy cfg s call r m).map (·, letThrough cfg s call r m)) =
      if letThrough cfg s call r m then countOf sha256 (a.key sha256) (asksBy cfg s call r m)
      else 0 := by
    unfold passedKey countOf
    rw [List.filter_map, List.length_map]
    cases letThrough cfg s call r m with
    | false => simp
    | true => simp [Function.comp_def]
  rw [hnew]
  split_ifs with hthrough
  · have hone : countOf sha256 (a.key sha256) (asksBy cfg s call r m) ≤ 1 := countOf_asksBy_le _
    by_cases hzero : countOf sha256 (a.key sha256) (asksBy cfg s call r m) = 0
    · omega
    · obtain ⟨b, hb⟩ := List.exists_mem_of_length_pos (Nat.pos_of_ne_zero hzero)
      obtain ⟨hb, hkey⟩ := List.mem_filter.mp hb
      have hkey : b.key sha256 = a.key sha256 := of_decide_eq_true hkey
      have hbelow := hall hthrough b hb
      have hle : passedKey sha256 (a.key sha256) out ≤ countOf sha256 (a.key sha256)
        (out.map Prod.fst) :=
        passedKey_le _ out
      rw [hkey, (ha.shared (hrated b hb) hkey).1] at hbelow
      rw [hout] at hle
      omega
  · omega

/-- **Every step keeps the counters.** -/
theorem tracks_of_step (hsha : cfg.sha256 = sha256.hexdigest)
    (husable : Usable cfg.rates cfg.largestTimeout) {out : List (Ask × Bool)} {i : Input}
    (h : Tracks sha256 cfg.rates s out) (hstep : step cfg s i = some s') :
    Tracks sha256 cfg.rates s' (out ++ asksIn cfg s i s') := by
  have hsame : s'.throttles = s.throttles → asksIn cfg s i s' = [] →
      Tracks sha256 cfg.rates s' (out ++ asksIn cfg s i s') := by
    intro hthrottles hnone
    rw [hnone, List.append_nil]
    exact ⟨by rw [hthrottles]; exact h.counted, h.within⟩
  cases i with
  | saveAccount account =>
    obtain rfl := Option.some.inj hstep
    refine hsame ?_ rfl
    unfold saveAccount
    split_ifs
    · rfl
    · rfl
  | deleteAccount account =>
    obtain rfl := Option.some.inj hstep
    refine hsame ?_ rfl
    unfold deleteAccount
    split_ifs
    · rfl
    · rfl
  | setBlocked voter blocked now =>
    obtain rfl := Option.some.inj hstep
    exact hsame rfl rfl
  | purge olderThanHours execute now =>
    obtain rfl := Option.some.inj hstep
    exact hsame rfl rfl
  | request call r m =>
    obtain ⟨⟨t, res⟩, hdispatch, rfl⟩ := Option.map_eq_some_iff.mp hstep
    obtain ⟨⟨s₁, x⟩, hinitial, -⟩ := Option.bind_eq_some_iff.mp hdispatch
    obtain ⟨hcounted, hiff⟩ := initial_counted hsha husable h.counted hinitial
    have hthrottles : t.throttles = s₁.throttles := throttles_of_dispatch hinitial hdispatch
    have hthrough : letThrough cfg s call r m = true → ∀ a ∈ asksBy cfg s call r m,
        countOf sha256 (a.key sha256) (out.map Prod.fst) < a.limit := by
      intro hthrough
      obtain ⟨s₂, user, hok⟩ := letThrough_iff.mp hthrough
      obtain ⟨-, hx⟩ := Prod.mk.inj (Option.some.inj (hinitial.symm.trans hok))
      exact (hiff (permitted_of_ok hok)).mp ⟨user, hx⟩
    refine ⟨?_, fun a ha => tracks_append hthrough ?_ rfl h.within ha⟩
    · show Counted sha256 cfg.rates ((out ++ _).map Prod.fst) t.throttles
      rw [hthrottles, List.map_append, asksIn, List.map_map]
      simpa [Function.comp_def] using hcounted
    · exact fun b hb => hcounted.rated b (List.mem_append_right _ hb)

theorem tracks_of_run (hsha : cfg.sha256 = sha256.hexdigest)
    (husable : Usable cfg.rates cfg.largestTimeout) {l : List Input} (h0 : s.throttles = .empty)
    (hr : run (step cfg) s l = some s') :
    Tracks sha256 cfg.rates s' (asksOfRun cfg s l) := by
  have hstart : Tracks sha256 cfg.rates s [] := ⟨h0 ▸ counted_empty, fun a _ => Nat.zero_le a.limit⟩
  have hstep : ∀ s i s' out, Tracks sha256 cfg.rates s out → step cfg s i = some s' →
      Tracks sha256 cfg.rates s' (out ++ asksIn cfg s i s') :=
    fun _ _ _ _ h hs => tracks_of_step hsha husable h hs
  exact run_emitted_inv (fun s out => Tracks sha256 cfg.rates s out) hstep hstart hr

theorem asked_eq (scope ident : String) (bucket : ℤ) (out : List (Ask × Bool)) :
    asked sha256 scope ident bucket out =
      countOf sha256 (counterKey sha256.hexdigest scope ident bucket) (out.map Prod.fst) := by
  unfold asked countOf
  rw [List.filter_map, List.length_map]
  exact congrArg List.length (List.filter_congr fun x _ => decide_eq_decide.mpr key_eq_iff.symm)

theorem passed_eq (scope ident : String) (bucket : ℤ) (out : List (Ask × Bool)) :
    passed sha256 scope ident bucket out =
      passedKey sha256 (counterKey sha256.hexdigest scope ident bucket) out := by
  unfold passed passedKey
  refine congrArg List.length (List.filter_congr fun x _ => ?_)
  rw [decide_eq_decide.mpr key_eq_iff.symm]

/-- A stretch of one window's length lies in two windows. -/
theorem bucket_of_between {a : Ask} (ha : Rated rates a) {x y : ℚ} (hxy : y - x ≤ a.window)
    (hx : x ≤ a.at_) (hy : a.at_ ≤ y) :
    a.bucket = ⌊x / (a.window : ℚ)⌋ ∨ a.bucket = ⌊x / (a.window : ℚ)⌋ + 1 := by
  have hpos := ha.window_pos
  have hge : ⌊x / (a.window : ℚ)⌋ ≤ a.bucket :=
    Int.floor_le_floor (div_le_div_of_nonneg_right hx hpos.le)
  have hle : a.bucket ≤ ⌊x / (a.window : ℚ)⌋ + 1 := by
    have hnext : a.at_ / (a.window : ℚ) ≤ x / a.window + 1 := by
      rw [div_le_iff₀ hpos, add_mul, div_mul_cancel₀ _ hpos.ne', one_mul]
      linarith
    rw [← Int.floor_add_one]
    exact Int.floor_le_floor hnext
  omega

theorem length_filter_le_add {α : Type*} {p q r : α → Bool} (l : List α)
    (h : ∀ a ∈ l, p a = true → q a = true ∨ r a = true) :
    (l.filter p).length ≤ (l.filter q).length + (l.filter r).length := by
  simp only [← List.countP_eq_length_filter]
  induction l with
  | nil => exact Nat.zero_le _
  | cons a l ih =>
    have hl := ih fun b hb => h b (List.mem_cons_of_mem a hb)
    have ha :
        (if p a = true then 1 else 0) ≤ (if q a = true then 1 else 0) +
          (if r a = true then 1 else 0) := by
      by_cases hp : p a = true
      · rcases h a List.mem_cons_self hp with hq | hr
        · simp [hp, hq]
        · simp [hp, hr]
      · simp [hp]
    simp only [List.countP_cons]
    omega

/-- **In a window** at most as many as the limit get to their actions. -/
theorem passed_le {out : List (Ask × Bool)} (h : Tracks sha256 cfg.rates s out)
    {scope ident : String} {limit window : ℕ}
    (hrate : counting cfg.rates scope (some ident) = some (ident, limit, window)) (bucket : ℤ) :
    passed sha256 scope ident bucket out ≤ limit := by
  have hpos : (window : ℚ) ≠ 0 := by
    obtain ⟨-, -, -, -, hne, -⟩ := counting_eq_some.mp hrate
    exact_mod_cast hne
  -- an ask at the start of the window
  have hwithin := h.within ⟨scope, ident, bucket * window, limit, window⟩ hrate
  rw [Ask.key, Ask.bucket, mul_div_cancel_right₀ _ hpos, Int.floor_intCast] at hwithin
  rw [passed_eq]
  exact hwithin

/-- **Rate limits hold across requests**, on a cache whose `incr` keeps the expiry and which evicts
nothing. In every run from an empty one, a request that is authenticated and permitted gets to its
action exactly when, for each of its throttles, fewer requests than the limit asked with its
identifier before it in its window. So in each window at most as many as the limit get to their
actions with an identifier, and in any stretch of one window's length at most twice as many. -/
theorem rates_of_run {l : List Input} (hsha : cfg.sha256 = sha256.hexdigest)
    (husable : Usable cfg.rates cfg.largestTimeout) (h0 : s.throttles = .empty)
    (hr : run (step cfg) s l = some s') :
    (∀ call r m user, authenticated cfg s' call r m = .ok user →
        firstDenial r call.method user call.permissions = none →
          (letThrough cfg s' call r m = true ↔
            ∀ a ∈ asksOf cfg.rates m.clock (call.throttles cfg.phones r user),
              asked sha256 a.scope a.ident a.bucket (asksOfRun cfg s l) < a.limit)) ∧
      ∀ scope ident limit window,
        counting cfg.rates scope (some ident) = some (ident, limit, window) →
        (∀ bucket, passed sha256 scope ident bucket (asksOfRun cfg s l) ≤ limit) ∧
          ∀ x y : ℚ, y - x ≤ window →
            passedBetween sha256 scope ident x y (asksOfRun cfg s l) ≤ 2 * limit := by
  have htracks := tracks_of_run hsha husable h0 hr
  refine ⟨fun call r m user hauth hnone => ?_, fun scope ident limit window hrate => ?_⟩
  · have hpermitted := permitted_eq_some.mpr ⟨hauth, hnone⟩
    obtain ⟨⟨s₁, x⟩, hinitial⟩ : ∃ y, initial cfg s' call r m = some y :=
      ⟨_, initial_of_permitted hpermitted⟩
    obtain ⟨-, hiff⟩ := initial_counted hsha husable htracks.counted hinitial
    rw [letThrough_iff, ← asksBy_of_permitted hpermitted, hinitial]
    simp only [asked_eq]
    refine Iff.trans ⟨?_, ?_⟩ (hiff (by rw [hpermitted]; rfl))
    · rintro ⟨s₂, u, h⟩
      exact ⟨u, (Prod.mk.inj (Option.some.inj h)).2⟩
    · rintro ⟨u, rfl⟩
      exact ⟨s₁, u, rfl⟩
  · have hwindow : ∀ bucket, passed sha256 scope ident bucket (asksOfRun cfg s l) ≤ limit :=
      passed_le htracks hrate
    refine ⟨hwindow, fun x y hxy => ?_⟩
    have hsplit : passedBetween sha256 scope ident x y (asksOfRun cfg s l) ≤
        passed sha256 scope ident ⌊x / (window : ℚ)⌋ (asksOfRun cfg s l) +
          passed sha256 scope ident (⌊x / (window : ℚ)⌋ + 1) (asksOfRun cfg s l) := by
      refine length_filter_le_add _ fun z hz hp => ?_
      rw [Bool.and_eq_true, decide_eq_true_eq] at hp
      obtain ⟨hthrough, ⟨hscope, hdigest, -⟩, hx, hy⟩ := hp
      have hrated := htracks.counted.rated z.1 (List.mem_map_of_mem hz)
      have hz' := hrated
      unfold Rated at hz'
      rw [hscope] at hz'
      obtain ⟨-, hw⟩ := rate_of_scope hrate hz'
      simp only [Bool.and_eq_true, decide_eq_true_eq, Asks, hthrough, hscope, hdigest, true_and]
      rw [← hw] at hxy ⊢
      exact bucket_of_between hrated hxy hx hy
    have h₁ := hwindow ⌊x / (window : ℚ)⌋
    have h₂ := hwindow (⌊x / (window : ℚ)⌋ + 1)
    omega

/-- Two submissions an hour from an address, and no other rate. -/
def limited : Config where
  toConfig := Platform.demo
  accessToken := demo.accessToken
  allowedRegions := demo.allowedRegions
  otpLength := demo.otpLength
  rates := Common.WindowLimit.twoPerHour
  largestTimeout := demo.largestTimeout
  sha256 := Common.WindowLimit.addressDigest.hexdigest
  lower := demo.lower
  checkPassword := demo.checkPassword

theorem usable_limited : Usable limited.rates limited.largestTimeout := by
  intro scope h
  have hrate : (limited.rates scope).getD "" = "2/1h" := by
    by_cases hscope : scope = "nomination_ip"
    · subst hscope
      rfl
    · exact absurd (by simp [limited, Common.WindowLimit.twoPerHour, hscope]) h
  rw [hrate]
  exact ⟨2, 3600, by decide, by decide, by decide +kernel, by decide⟩

/-- A submission from an address, without a CAPTCHA. -/
def submits (t : ℚ) : Input :=
  .request (.submitNomination false annAttrs 30 ⟨40, 1⟩)
    { client := { clientIp := some "10.0.0.1" } }
    { moment 10 ⟨70, 1⟩ with clock := fun _ => t }

/-- Three submissions in an hour, and one in the next. -/
def submissions : List Input := [submits 3590, submits 3595, submits 3599, submits 3601]

theorem rates_of_run_submissions : ∃ s, run (step limited) (fresh {}) submissions = some s ∧
    ((asksOfRun limited (fresh {}) submissions).map Prod.snd = [true, true, false, true]) ∧
    passed Common.WindowLimit.addressDigest "nomination_ip" "10.0.0.1" 0
      (asksOfRun limited (fresh {}) submissions) ≤ 2 ∧
    passedBetween Common.WindowLimit.addressDigest "nomination_ip" "10.0.0.1" 3590 7190
      (asksOfRun limited (fresh {}) submissions) ≤ 4 := by
  have hrun : (run (step limited) (fresh {}) submissions).map (fun _ =>
      (asksOfRun limited (fresh {}) submissions).map Prod.snd) =
        some [true, true, false, true] := by
    decide +kernel
  have hsha : limited.sha256 = Common.WindowLimit.addressDigest.hexdigest := rfl
  obtain ⟨s, hs, hthrough⟩ := Option.map_eq_some_iff.mp hrun
  obtain ⟨-, hbounds⟩ := rates_of_run hsha usable_limited rfl hs
  obtain ⟨hwindow, hbetween⟩ := hbounds "nomination_ip" "10.0.0.1" 2 3600 (by decide +kernel)
  exact ⟨s, hs, hthrough, hwindow 0, hbetween 3590 7190 (by norm_num)⟩

end KwAwards.Api.RateLimits
