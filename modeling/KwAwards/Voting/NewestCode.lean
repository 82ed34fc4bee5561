import KwAwards.Voting.OtpConcurrent

/-! # Only the newest code

A new challenge should leave no other open one of its voter, and a code should not be accepted once
a newer challenge of the voter is there (`OnlyNewest`). One request after the other, that holds. But
`request_otp` does not lock the voter: of two requests that overlap, neither expires the challenge
of the other (`overlapping`); and `verify_otp` reads the clock before it locks a row, so it may pick
a challenge that was expired in between. `onlyNewest_of_inOrder` says that there is no other way: it
holds in every run in which neither happens (`InOrder`). -/

namespace KwAwards.Voting.NewestCode

open KwAwards.Lib.Tables KwAwards.Lib.Counters KwAwards.Lib.Run KwAwards.Common.Base
open KwAwards.Common.Exceptions KwAwards.Common.SmsBudget KwAwards.Voting.Models KwAwards.Store
open KwAwards.Voting.Otp KwAwards.Voting.OtpConcurrent

/-- Unconsumed and unexpired. -/
def Live (now : Time) (c : OTPChallenge) : Prop := OpenFor c.voter now c

instance (now : Time) (c : OTPChallenge) : Decidable (Live now c) := by
  unfold Live; infer_instance

/-- No voter has two live challenges. -/
def AtMostOne (s : State) : Prop :=
  ∀ c ∈ s.db.challenges.rows, ∀ d ∈ s.db.challenges.rows, c.voter = d.voter →
    Live s.now c → Live s.now d → c.id = d.id

/-- No challenge of the voter of `k` was created after it. -/
def IsNewest (db : Database) (k : Id) : Prop :=
  ∀ c ∈ db.challenges.rows, c.id = k → ∀ d ∈ db.challenges.rows, d.voter = c.voter →
    d.createdAt ≤ c.createdAt

/-- After the step at most one challenge is live, and when it ends a verification with success, then
with the code of a newest challenge. -/
def OnlyNewest (s : State) (l : Label) (s' : State) : Prop :=
  AtMostOne s' ∧
    match l with
    | .finish i _ _ =>
      match s'.calls i with
      | .verified _ (.succeeded k) _ => IsNewest s.db k
      | _ => True
    | _ => True

instance (s : State) (l : Label) (s' : State) : Decidable (OnlyNewest s l s') := by
  unfold OnlyNewest AtMostOne IsNewest
  split
  · split <;> infer_instance
  · infer_instance

/-- **No request overtakes another, and no verification is overtaken.** When a request commits, the
challenges of the voter that its `UPDATE` did not see would not have matched it and are not newer.
When a verification ends, each challenge of the voter is one that it can still pick, or the request
for it did not read the clock later than the verification. -/
def InOrder (s : State) (l : Label) (_ : State) : Prop :=
  match l with
  | .commit i _ _ =>
    match s.calls i with
    | .saved q seen savedAt => ∀ c ∈ s.db.challenges.rows, c.voter = q.voter.id → c.id ∉ seen →
        ¬ OpenFor q.voter.id q.now c ∧ c.createdAt ≤ savedAt
    | _ => True
  | .finish i _ _ =>
    match s.calls i with
    | .selected _ now voter seen => ∀ d ∈ s.db.challenges.rows, d.voter = voter.id →
        (d.id ∈ seen ∧ OpenFor voter.id now d) ∨ ∀ j q, s.calls j = .issued q d.id → q.now ≤ now
    | _ => True
  | _ => True

/-! ### The invariant -/

/-- What a request knows of the tables. -/
def Knows (now : Time) (t : Table OTPChallenge) : Phase → Prop
  | .begun q | .issued q _ => q.now ≤ now
  | .updated q seen => q.now ≤ now ∧ ∀ k ∈ seen, t.get? k ≠ none
  | .saved q seen savedAt => q.now ≤ now ∧ savedAt ≤ now ∧ (∀ k ∈ seen, t.get? k ≠ none) ∧
    ∀ k ∈ seen, ∀ c, t.get? k = some c → c.createdAt ≤ savedAt
  | _ => True

/-- The older challenge `c` is consumed, or the request of the newer one `d` has expired it. -/
def Superseded (calls : ℕ → Phase) (c d : OTPChallenge) : Prop :=
  c.consumedAt ≠ none ∨
    ∃ j q, calls j = .issued q d.id ∧ q.voter.id = d.voter ∧ c.expiresAt ≤ q.now

structure Sound (s : State) : Prop where
  created : ∀ k c, s.db.challenges.get? k = some c → c.createdAt ≤ s.now
  calls : ∀ i, Knows s.now s.db.challenges (s.calls i)
  one : ∀ k c k' d, s.db.challenges.get? k = some c → s.db.challenges.get? k' = some d →
    c.voter = d.voter → Live s.now c → Live s.now d → k = k'
  older : ∀ k c k' d, s.db.challenges.get? k = some c → s.db.challenges.get? k' = some d →
    c.voter = d.voter → c.createdAt < d.createdAt → Superseded s.calls c d

/-- What steps do to the rows that are there: they may be consumed or expire earlier. -/
def Ages (t t' : Table OTPChallenge) : Prop :=
  ∀ k c, t.get? k = some c → ∃ c', t'.get? k = some c' ∧ c'.voter = c.voter ∧
    c'.createdAt = c.createdAt ∧ c'.expiresAt ≤ c.expiresAt ∧
      (c'.consumedAt = none → c.consumedAt = none)

theorem Ages.refl (t : Table OTPChallenge) : Ages t t :=
  fun _ c hk => ⟨c, hk, rfl, rfl, le_rfl, id⟩

/-- What a call knows stays true. -/
theorem Knows.mono {now now' : Time} {t t' : Table OTPChallenge} {p : Phase}
    (h : Knows now t p) (hn : now ≤ now') (ha : Ages t t') : Knows now' t' p := by
  have hthere : ∀ {k}, t.get? k ≠ none → t'.get? k ≠ none := by
    intro k hk
    obtain ⟨c, hc⟩ := Option.ne_none_iff_exists'.mp hk
    obtain ⟨c', hc', -⟩ := ha k c hc
    rw [hc']
    exact Option.some_ne_none c'
  cases p with
  | begun q => exact le_trans h hn
  | issued q k => exact le_trans h hn
  | updated q seen => exact ⟨h.1.trans hn, fun k hk => hthere (h.2 k hk)⟩
  | saved q seen savedAt =>
    obtain ⟨hq, hs, hseen, hold⟩ := h
    refine ⟨hq.trans hn, hs.trans hn, fun k hk => hthere (hseen k hk), fun k hk c hc => ?_⟩
    obtain ⟨d, hd⟩ := Option.ne_none_iff_exists'.mp (hseen k hk)
    obtain ⟨d', hd', -, hcr, -⟩ := ha k d hd
    obtain rfl : d' = c := Option.some.inj (hd'.symm.trans hc)
    rw [hcr]
    exact hold k hk d hd
  | _ => trivial

variable {cfg : OtpSettings} {s s' : State}

/-- **Steps that insert no challenge.** A call that has issued one keeps its phase. -/
theorem Sound.age (h : Sound s) (hn : s.now ≤ s'.now)
    (hfrom : ∀ k c', s'.db.challenges.get? k = some c' → ∃ c, s.db.challenges.get? k = some c)
    (ha : Ages s.db.challenges s'.db.challenges)
    (hi : ∀ j q k, s.calls j = .issued q k → s'.calls j = .issued q k)
    (hc : ∀ j, s'.calls j = s.calls j ∨ Knows s'.now s'.db.challenges (s'.calls j)) :
    Sound s' := by
  have hback : ∀ {k c'}, s'.db.challenges.get? k = some c' → ∃ c, s.db.challenges.get? k = some c ∧
      c'.voter = c.voter ∧ c'.createdAt = c.createdAt ∧ c'.expiresAt ≤ c.expiresAt ∧
        (c'.consumedAt = none → c.consumedAt = none) := by
    intro k c' hk
    obtain ⟨c, hc⟩ := hfrom k c' hk
    obtain ⟨d, hd, hd'⟩ := ha k c hc
    obtain rfl : d = c' := Option.some.inj (hd.symm.trans hk)
    exact ⟨c, hc, hd'⟩
  have hlive : ∀ {c c' : OTPChallenge}, c'.expiresAt ≤ c.expiresAt →
      (c'.consumedAt = none → c.consumedAt = none) → Live s'.now c' → Live s.now c :=
    fun he hco hl => ⟨rfl, hco hl.2.1, hn.trans_lt (hl.2.2.trans_le he)⟩
  refine ⟨fun k c' hk => ?_, fun j => ?_, fun k c' k' d' hk hk' hv hl hl' => ?_,
    fun k c' k' d' hk hk' hv hlt => ?_⟩
  · obtain ⟨c, hc, -, hcr, -⟩ := hback hk
    rw [hcr]
    exact (h.created k c hc).trans hn
  · rcases hc j with hj | hj
    · rw [hj]
      exact (h.calls j).mono hn ha
    · exact hj
  · obtain ⟨c, hc, hcv, -, hce, hcc⟩ := hback hk
    obtain ⟨d, hd, hdv, -, hde, hdc⟩ := hback hk'
    exact h.one k c k' d hc hd (hcv.symm.trans (hv.trans hdv)) (hlive hce hcc hl)
      (hlive hde hdc hl')
  · obtain ⟨c, hc, hcv, hcr, hce, hcc⟩ := hback hk
    obtain ⟨d, hd, hdv, hdr, -⟩ := hback hk'
    have hid : d'.id = d.id := (Table.key_of_get? hk').trans (Table.key_of_get? hd).symm
    have hvoter : c.voter = d.voter := hcv.symm.trans (hv.trans hdv)
    have hlt' : c.createdAt < d.createdAt := by rw [← hcr, ← hdr]; exact hlt
    rcases h.older k c k' d hc hd hvoter hlt' with hco | ⟨j, q, hj, hq, he⟩
    · exact Or.inl fun hn => hco (hcc hn)
    · have hj' : s'.calls j = .issued q d'.id := by rw [hid]; exact hi j q d.id hj
      exact Or.inr ⟨j, q, hj', hq.trans hdv.symm, hce.trans he⟩

theorem issued_of_setCall {i : ℕ} {p : Phase} (hp : ∀ q k, s.calls i ≠ .issued q k) {j : ℕ}
    {q : Issuing} {k : Id} (hj : s.calls j = .issued q k) :
    (s.setCall i p).calls j = .issued q k := by
  have hne : j ≠ i := by
    rintro rfl
    exact hp q k hj
  exact (Function.update_of_ne hne ..).trans hj

/-- A step of the call `i` that only ages the challenges. -/
theorem Sound.call (h : Sound s) {i : ℕ} {p : Phase} {db : Database} {cache : Cache Time}
    (hp : ∀ q k, s.calls i ≠ .issued q k)
    (hfrom : ∀ k c', db.challenges.get? k = some c' → ∃ c, s.db.challenges.get? k = some c)
    (ha : Ages s.db.challenges db.challenges) (hk : Knows s.now db.challenges p) :
    Sound ({ s with db, cache }.setCall i p) := by
  refine h.age le_rfl hfrom ha (fun j q k hj => issued_of_setCall hp hj) fun j => ?_
  by_cases hj : j = i
  · subst hj
    right
    show Knows s.now db.challenges (Function.update s.calls j p j)
    rw [Function.update_self]
    exact hk
  · exact Or.inl (Function.update_of_ne hj ..)

/-- A step of the call `i` that leaves the challenges alone. -/
theorem Sound.aside (h : Sound s) {i : ℕ} {p : Phase} {db : Database} {cache : Cache Time}
    (hp : ∀ q k, s.calls i ≠ .issued q k) (hc : db.challenges = s.db.challenges)
    (hk : Knows s.now s.db.challenges p) : Sound ({ s with db, cache }.setCall i p) := by
  have hages : Ages s.db.challenges db.challenges := by
    rw [hc]
    exact Ages.refl _
  have hknows : Knows s.now db.challenges p := by
    rw [hc]
    exact hk
  exact h.call hp (fun _ c hk => ⟨c, hc ▸ hk⟩) hages hknows

/-- A step of the call `i` that puts the aged row `c'` in the place of `c`. -/
theorem Sound.replace (h : Sound s) {i : ℕ} {p : Phase} {db : Database} {c : OTPChallenge}
    (c' : OTPChallenge) (hp : ∀ q k, s.calls i ≠ .issued q k)
    (hc : s.db.challenges.get? c.id = some c)
    (hget : ∀ k, db.challenges.get? k = if k = c.id then some c' else s.db.challenges.get? k)
    (hv : c'.voter = c.voter) (hcr : c'.createdAt = c.createdAt) (he : c'.expiresAt ≤ c.expiresAt)
    (hco : c'.consumedAt = none → c.consumedAt = none) (hk : Knows s.now db.challenges p) :
    Sound ({ s with db }.setCall i p) := by
  refine h.call hp (fun k d hd => ?_) (fun k d hd => ?_) hk
  · rw [hget] at hd
    split_ifs at hd with hkc
    · exact ⟨c, hkc ▸ hc⟩
    · exact ⟨d, hd⟩
  · rw [hget]
    split_ifs with hkc
    · obtain rfl : c = d := Option.some.inj (hc.symm.trans (hkc ▸ hd))
      exact ⟨c', rfl, hv, hcr, he, hco⟩
    · exact ⟨d, hd, rfl, rfl, le_rfl, id⟩

theorem not_issued_of_aside {p : Phase} (h : p.Aside) (q : Issuing) (k : Id) : p ≠ .issued q k := by
  rintro rfl
  exact h

theorem knows_of_aside {p : Phase} (h : p.Aside) (now : Time) (t : Table OTPChallenge) :
    Knows now t p := by
  cases p <;> trivial

/-- **A verification** keeps the invariant. -/
theorem Sound.attempt (h : Sound s) {i : ℕ} {a : VerifyArgs} {now : Time} {voter : Voter}
    {seen : List Id} {c : OTPChallenge} {o : Outcome} {r : Except ApiError Voter} {db : Database}
    {ak : Keys} (hi : s.calls i = .selected a now voter seen) (hm : c ∈ s.db.challenges.rows)
    (hx : Otp.attempt cfg s.db voter a.phoneE164 a.code a.request now s.now c ak = some (db, o)) :
    Sound ({ s with db }.setCall i (.verified a o r)) := by
  have hget : s.db.challenges.get? c.id = some c := Table.get?_key hm
  have hnot : ∀ q k, s.calls i ≠ .issued q k := by rw [hi]; exact nofun
  rcases attempt_cases hx with ⟨-, -, -, -, hcs⟩ | ⟨-, -, -, -, -, hcs⟩ | ⟨-, -, -, -, -, hcs⟩
  · exact h.aside hnot hcs trivial
  · have hcounted : ∀ k, db.challenges.get? k =
        if k = c.id then some { c with attempts := c.attempts + 1 }
        else s.db.challenges.get? k := by
      intro k
      rw [hcs, get?_countAttempt hget]
    exact h.replace _ hnot hget hcounted rfl rfl le_rfl id trivial
  · have hused : ∀ k, db.challenges.get? k =
        if k = c.id then
          some { c with attempts := c.attempts + 1, consumedAt := some now, updatedAt := s.now }
        else s.db.challenges.get? k := by
      intro k
      rw [hcs, get?_consume hget]
    exact h.replace _ hnot hget hused rfl rfl le_rfl
      (fun hn => absurd hn (Option.some_ne_none now)) trivial

theorem live_of_expire {now now' : Time} {voter : Id} {seen : Id → Bool} {c : OTPChallenge}
    (hl : Live now' (expire voter now seen c)) : Live now' c := by
  obtain ⟨t, ht, he⟩ := expire_eq voter now seen c
  rw [he] at hl
  exact ⟨rfl, hl.2.1, hl.2.2.trans_le ht⟩

theorem createdAt_expire (voter : Id) (now : Time) (picked : Id → Bool) (c : OTPChallenge) :
    (expire voter now picked c).createdAt = c.createdAt := by
  obtain ⟨t, -, he⟩ := expire_eq voter now picked c
  rw [he]

section Issue
variable {q : Issuing} {seen : List Id} {savedAt : Time} {ck ak : Keys} {db : Database}

/-- After an issue every row is the new challenge or an old one, expired. -/
theorem row_of_issue
    (hx : Otp.issue cfg s.db q.voter q.args.phoneE164 q.args.request q.now
      (fun k => decide (k ∈ seen)) savedAt q.code ck ak = some db)
    {k : Id} {c' : OTPChallenge} (hk : db.challenges.get? k = some c') :
    (k = ck.id ∧ c' = newChallenge cfg q.voter q.args.request q.now savedAt q.code ck) ∨
      ∃ c, s.db.challenges.get? k = some c ∧
        c' = expire q.voter.id q.now (fun k => decide (k ∈ seen)) c := by
  obtain ⟨-, -, -, -, hget⟩ := issue_eq_some hx
  rw [hget] at hk
  split_ifs at hk with hkc
  · exact Or.inl ⟨hkc, (Option.some.inj hk).symm⟩
  · obtain ⟨c, hc, he⟩ := Option.map_eq_some_iff.mp hk
    exact Or.inr ⟨c, hc, he.symm⟩

theorem ages_of_issue
    (hx : Otp.issue cfg s.db q.voter q.args.phoneE164 q.args.request q.now
      (fun k => decide (k ∈ seen)) savedAt q.code ck ak = some db) :
    Ages s.db.challenges db.challenges := by
  obtain ⟨-, -, hf, -, hget⟩ := issue_eq_some hx
  intro k c hk
  have hne : k ≠ ck.id := by
    rintro rfl
    rw [hf] at hk; simp at hk
  obtain ⟨t, ht, he⟩ := expire_eq q.voter.id q.now (fun k => decide (k ∈ seen)) c
  rw [hget, if_neg hne, hk, Option.map_some, he]
  exact ⟨_, rfl, rfl, rfl, ht, id⟩

/-- A challenge that was seen is consumed or expired, and so is one that was not open. -/
theorem not_openFor_of_seen {c : OTPChallenge} (hout : c.id ∉ seen → ¬ OpenFor q.voter.id q.now c) :
    ¬ OpenFor q.voter.id q.now (expire q.voter.id q.now (fun k => decide (k ∈ seen)) c) := by
  by_cases hin : c.id ∈ seen
  · exact not_openFor_expire (decide_eq_true hin)
  · unfold expire
    rw [if_neg fun hc => hout hin hc.2]
    exact hout hin

end Issue

/-- **A commit in order** keeps the invariant. -/
theorem Sound.issue (h : Sound s) {i : ℕ} {q : Issuing} {seen : List Id} {savedAt : Time}
    {ck ak : Keys} {db : Database} (hi : s.calls i = .saved q seen savedAt)
    (hx : Otp.issue cfg s.db q.voter q.args.phoneE164 q.args.request q.now
      (fun k => decide (k ∈ seen)) savedAt q.code ck ak = some db)
    (hseen : ∀ c ∈ s.db.challenges.rows, c.voter = q.voter.id → c.id ∉ seen →
      ¬ OpenFor q.voter.id q.now c ∧ c.createdAt ≤ savedAt) :
    Sound ({ s with db }.setCall i (.issued q ck.id)) := by
  obtain ⟨hq, hs, -, hold⟩ : Knows s.now s.db.challenges (.saved q seen savedAt) := hi ▸ h.calls i
  have hnot : ∀ q k, s.calls i ≠ .issued q k := by rw [hi]; exact nofun
  have hclosed : ∀ {k c}, s.db.challenges.get? k = some c → c.voter = q.voter.id →
      ¬ OpenFor q.voter.id q.now (expire q.voter.id q.now (fun k => decide (k ∈ seen)) c) :=
    fun hk hv => not_openFor_of_seen fun hout => (hseen _ (Table.get?_eq_some.mp hk).1 hv hout).1
  have hdead : ∀ {k c}, s.db.challenges.get? k = some c → c.voter = q.voter.id →
      ¬ Live s.now (expire q.voter.id q.now (fun k => decide (k ∈ seen)) c) :=
    fun hk hv hl => hclosed hk hv ⟨(voter_expire ..).trans hv, hl.2.1, hq.trans_lt hl.2.2⟩
  refine ⟨fun k c' hk => ?_, fun j => ?_, fun k c' k' d' hk hk' hv hl hl' => ?_,
    fun k c' k' d' hk hk' hv hlt => ?_⟩
  · rcases row_of_issue hx hk with ⟨-, rfl⟩ | ⟨c, hc, rfl⟩
    · exact hs
    · rw [createdAt_expire]
      exact h.created k c hc
  · by_cases hj : j = i
    · subst hj
      show Knows s.now db.challenges (Function.update s.calls j (.issued q ck.id) j)
      rw [Function.update_self]
      exact hq
    · show Knows s.now db.challenges (Function.update s.calls i (.issued q ck.id) j)
      rw [Function.update_of_ne hj]
      exact (h.calls j).mono le_rfl (ages_of_issue hx)
  · rcases row_of_issue hx hk with ⟨rfl, rfl⟩ | ⟨c, hc, rfl⟩ <;>
      rcases row_of_issue hx hk' with ⟨rfl, rfl⟩ | ⟨d, hd, rfl⟩
    · rfl
    · rw [voter_expire] at hv
      exact absurd hl' (hdead hd hv.symm)
    · rw [voter_expire] at hv
      exact absurd hl (hdead hc hv)
    · rw [voter_expire, voter_expire] at hv
      exact h.one k c k' d hc hd hv (live_of_expire hl) (live_of_expire hl')
  · rcases row_of_issue hx hk with ⟨-, rfl⟩ | ⟨c, hc, rfl⟩ <;>
      rcases row_of_issue hx hk' with ⟨rfl, rfl⟩ | ⟨d, hd, rfl⟩
    · exact absurd hlt (lt_irrefl _)
    · -- nothing it saw was created later, nor anything it did not see
      rw [voter_expire] at hv
      rw [createdAt_expire] at hlt
      have hid : d.id = k' := Table.key_of_get? hd
      have hle : d.createdAt ≤ savedAt := by
        by_cases hin : d.id ∈ seen
        · exact hold k' (hid ▸ hin) d hd
        · exact (hseen d (Table.get?_eq_some.mp hd).1 hv.symm hin).2
      exact absurd hle (not_le.mpr hlt)
    · rw [voter_expire] at hv
      by_cases hco : (expire q.voter.id q.now (fun k => decide (k ∈ seen)) c).consumedAt = none
      · refine Or.inr ⟨i, q, Function.update_self .., rfl, not_lt.mp fun hlt' => ?_⟩
        exact hclosed hc hv ⟨(voter_expire ..).trans hv, hco, hlt'⟩
      · exact Or.inl hco
    · rw [voter_expire, voter_expire] at hv
      rw [createdAt_expire, createdAt_expire] at hlt
      obtain ⟨t, ht, he⟩ := expire_eq q.voter.id q.now (fun k => decide (k ∈ seen)) c
      rcases h.older k c k' d hc hd hv hlt with hco | ⟨j, r, hj, hr, hre⟩
      · rw [he]
        exact Or.inl hco
      · refine Or.inr ⟨j, r, ?_, ?_, ?_⟩
        · rw [id_expire]
          exact issued_of_setCall hnot hj
        · rw [voter_expire]
          exact hr
        · rw [he]
          exact ht.trans hre

/-- **Steps in order keep the invariant.** -/
theorem Sound.step (h : Sound s) {l : Label} (ho : InOrder s l s') (hm : Moves cfg s l s') :
    Sound s' := by
  cases hm with
  | tick d =>
    exact h.age (Nat.le_add_right ..) (fun _ c hk => ⟨c, hk⟩) (Ages.refl _) (fun _ _ _ hj => hj)
      fun _ => Or.inl rfl
  | blocked =>
    exact h.age le_rfl (fun _ c hk => ⟨c, hk⟩) (Ages.refl _) (fun _ _ _ hj => hj) fun _ =>
      Or.inl rfl
  | aside hp hp' hl hl' hc =>
    exact h.aside (not_issued_of_aside hp) hc (knows_of_aside hp' ..)
  | @started i code a voter hi =>
    have hnot : ∀ q k, s.calls i ≠ .issued q k := by rw [hi]; exact nofun
    exact h.aside hnot rfl le_rfl
  | @updated i q hi =>
    have hnot : ∀ q k, s.calls i ≠ .issued q k := by rw [hi]; exact nofun
    have hq : Knows s.now s.db.challenges (.begun q) := hi ▸ h.calls i
    have hseen : ∀ k ∈ committed s.db, s.db.challenges.get? k ≠ none := by
      intro k hk
      obtain ⟨c, hc, rfl⟩ := List.mem_map.mp hk
      have hget : s.db.challenges.get? c.id = some c := Table.get?_key hc
      rw [hget]
      exact Option.some_ne_none c
    exact h.aside hnot rfl ⟨hq, hseen⟩
  | @saved i q seen hi =>
    have hnot : ∀ q k, s.calls i ≠ .issued q k := by rw [hi]; exact nofun
    obtain ⟨hq, hseen⟩ : Knows s.now s.db.challenges (.updated q seen) := hi ▸ h.calls i
    have hold : ∀ k ∈ seen, ∀ c, s.db.challenges.get? k = some c → c.createdAt ≤ s.now :=
      fun k _ c hc => h.created k c hc
    exact h.aside hnot rfl ⟨hq, le_rfl, hseen, hold⟩
  | @issued i q seen savedAt ck ak db hi hx =>
    simp only [InOrder, hi] at ho
    exact h.issue hi hx ho
  | missed hp ho' hl hc => exact h.aside (not_issued_of_aside hp) hc trivial
  | attempted hi hmem hs hopen hn hx => exact h.attempt hi hmem hx

theorem sound_of_fresh (h : s.Fresh) : Sound s := by
  have hnone : ∀ k c, s.db.challenges.get? k ≠ some c := by
    intro k c hk
    have hm := (Table.get?_eq_some.mp hk).1
    rw [h.empty] at hm
    simp at hm
  refine ⟨fun k c hk => absurd hk (hnone k c), fun i => by rw [h.idle i]; trivial,
    fun k c _ _ hk => absurd hk (hnone k c), fun k c _ _ hk => absurd hk (hnone k c)⟩

/-! ### The results -/

theorem atMostOne_of_sound (h : Sound s) : AtMostOne s :=
  fun c hc d hd hv hl hl' => h.one c.id c d.id d (Table.get?_key hc) (Table.get?_key hd) hv hl hl'

/-- **Steps in order respect the newest code.** -/
theorem onlyNewest_of_step (h : Sound s) {l : Label} (ho : InOrder s l s')
    (hm : Moves cfg s l s') : OnlyNewest s l s' := by
  refine ⟨atMostOne_of_sound (h.step ho hm), ?_⟩
  cases hm with
  | @missed i a now voter pick ak db o hp ho' hl hc =>
    simp only [State.setCall, Function.update_self]
    rcases ho' with rfl | rfl <;> trivial
  | @attempted i a now voter seen c ak db o hi hmem hs hopen hn hx =>
    simp only [State.setCall, Function.update_self]
    simp only [InOrder, hi] at ho
    rcases attempt_cases hx with ⟨-, rfl, -⟩ | ⟨-, -, rfl, -⟩ | ⟨-, -, rfl, -⟩
    · trivial
    · trivial
    · intro c' hc' hid d hd hv
      obtain rfl : c' = c := Table.eq_of_key hc' hmem hid
      by_contra hlt
      -- the request of a newer challenge has expired this one, so it came after the verification
      rcases h.older c'.id c' d.id d (Table.get?_key hc') (Table.get?_key hd) hv.symm
        (not_le.mp hlt) with hco | ⟨j, q, hj, hq, he⟩
      · exact hco hopen.2.1
      · rcases ho d hd (hv.trans hopen.1) with ⟨hin, hod⟩ | hclock
        · exact hlt (hn d hd hin hod)
        · exact absurd hopen.2.2 (not_lt.mpr (he.trans (hclock j q hj)))
  | aside hp hp' hl hl' hc =>
    split
    · next i pick ak => exact absurd rfl (hl i pick ak)
    · trivial
  | _ => trivial

/-- **Only the newest code is valid in every run in order.** -/
theorem onlyNewest_of_inOrder {l : List Label} (h₀ : s.Fresh)
    (ho : Along (OtpConcurrent.step cfg) InOrder s l) :
    Along (OtpConcurrent.step cfg) OnlyNewest s l := by
  have hkeep : ∀ s i s', Sound s → InOrder s i s' → OtpConcurrent.step cfg s i = some s' →
    Sound s' :=
    fun _ _ _ h ho hs => h.step ho (moves_of_step hs)
  have hnew : ∀ s i s', Sound s → InOrder s i s' → OtpConcurrent.step cfg s i = some s' →
      OnlyNewest s i s' :=
    fun _ _ _ h ho hs => onlyNewest_of_step h ho (moves_of_step hs)
  exact along_mono Sound hkeep hnew (sound_of_fresh h₀) ho

/-- In order because every challenge of the voter can still be picked. -/
def AllPickable (s : State) (l : Label) (_ : State) : Prop :=
  match l with
  | .commit i _ _ =>
    match s.calls i with
    | .saved q seen _ => ∀ c ∈ s.db.challenges.rows, c.voter = q.voter.id → c.id ∈ seen
    | _ => True
  | .finish i _ _ =>
    match s.calls i with
    | .selected _ now voter seen => ∀ d ∈ s.db.challenges.rows, d.voter = voter.id →
        d.id ∈ seen ∧ OpenFor voter.id now d
    | _ => True
  | _ => True

instance (s : State) (l : Label) (s' : State) : Decidable (AllPickable s l s') := by
  unfold AllPickable
  split
  · split <;> infer_instance
  · split <;> infer_instance
  · infer_instance

theorem inOrder_of_allPickable {l : Label} (h : AllPickable s l s') : InOrder s l s' := by
  cases l with
  | commit i ck ak =>
    simp only [AllPickable, InOrder] at h ⊢
    split at h
    · exact fun c hc hv hout => absurd (h c hc hv) hout
    · trivial
  | finish i pick ak =>
    simp only [AllPickable, InOrder] at h ⊢
    split at h
    · exact fun d hd hv => Or.inl (h d hd hv)
    · trivial
  | _ => trivial

/-- A code is asked for and used. -/
def galaLogin : List Label :=
  [.request 0 galaAsks ⟨60, 2⟩ ⟨70, 1⟩, .reserve 0 ⟨70, 1⟩, .start 0 "111111", .update 0, .save 0,
    .commit 0 ⟨61, 1⟩ ⟨70, 1⟩, .verify 1 (galaTries "111111"), .find 1, .select 1,
    .finish 1 (some 61) ⟨71, 2⟩]

theorem onlyNewest_of_inOrder_gala :
    Along (OtpConcurrent.step galaOtp) OnlyNewest galaStart galaLogin := by
  have hpick : Along (OtpConcurrent.step galaOtp) AllPickable galaStart galaLogin := by decide
  have horder : Along (OtpConcurrent.step galaOtp) InOrder galaStart galaLogin :=
    along_mono (fun _ => True) (fun _ _ _ _ _ _ => trivial)
      (fun _ _ _ _ h _ => inOrder_of_allPickable h) trivial hpick
  exact onlyNewest_of_inOrder galaStart_fresh horder

/-- Two requests of one voter: each starts its `UPDATE` before the other commits. -/
def overlapping : List Label :=
  [.request 0 galaAsks ⟨60, 2⟩ ⟨70, 1⟩, .request 1 galaAsks ⟨60, 2⟩ ⟨70, 1⟩, .reserve 0 ⟨70, 1⟩,
    .reserve 1 ⟨70, 1⟩, .start 0 "111111", .start 1 "222222", .update 0, .update 1,
    .save 0, .save 1, .commit 0 ⟨61, 1⟩ ⟨70, 1⟩, .commit 1 ⟨62, 2⟩ ⟨71, 2⟩]

/-- After `overlapping` both codes can be used. -/
theorem not_always_onlyNewest : ¬ ∀ (cfg : OtpSettings) (s : State) (l : List Label), s.Fresh →
    Along (OtpConcurrent.step cfg) OnlyNewest s l := by
  intro h
  exact absurd (h galaOtp galaStart overlapping galaStart_fresh) (by decide)

end KwAwards.Voting.NewestCode
