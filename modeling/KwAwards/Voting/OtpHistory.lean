import KwAwards.Lib.Run
import KwAwards.Lib.Since
import KwAwards.Voting.Otp

/-! # When a code is accepted

Requests, verifications and the admin's blocking and unblocking run one after the other under a
clock that does not go back, and leave a history of events. `Valid` says on the history, and on
whether the voter is blocked now, when a code is good: the last grant for the number generated it,
it has not expired, nobody has succeeded with that challenge, and fewer than the limit of
verifications were made since then while the voter was unblocked. `Tracks` is the invariant that
ties the challenge table to the history, and `otp_exact` says that `verify_otp` accepts exactly the
valid codes. -/

namespace KwAwards.Voting.OtpHistory

open KwAwards.Lib.Tables KwAwards.Lib.Counters KwAwards.Lib.Run KwAwards.Lib.Since
open KwAwards.Common.Base KwAwards.Common.Exceptions KwAwards.Common.SmsBudget
open KwAwards.Voting.Models KwAwards.Store KwAwards.Voting.Otp

/-- The database, the shared cache and the clock. -/
structure State where
  db : Database
  cache : Cache Time
  now : Time

/-- What can happen. -/
inductive Label
  | tick (d : ℕ)
  | request (phoneE164 : String) (request : Request) (code : String) (vk ck ak : Keys)
  | verify (phoneE164 code : String) (request : Request) (ak : Keys)
  | setBlocked (voter : Id) (blocked : Bool)

/-- What the history keeps; `unblocked` is whether there is a voter, not blocked, at the call. -/
inductive Event
  | requested (phoneE164 : String) (at_ : Time) (code : String) (r : Requested)
  | verified (phoneE164 : String) (unblocked : Bool) (o : Outcome)
  deriving DecidableEq, Repr

/-- There is a voter with the number who is not blocked. -/
def unblocked (db : Database) (phoneE164 : String) : Bool :=
  (voterByPhone db.voters phoneE164).any fun v => !v.isBlocked

theorem unblocked_iff {db : Database} {p : String} : unblocked db p = true ↔
    ∃ v, voterByPhone db.voters p = some v ∧ v.isBlocked = false := by
  unfold unblocked
  cases voterByPhone db.voters p <;> simp

variable (cfg : OtpSettings)

/-- One operation with the events it leaves. -/
def exec (s : State) : Label → Option (State × List Event)
  | .tick d => some ({ s with now := s.now + d }, [])
  | .request p request code vk ck ak =>
    (requestOtp cfg s.db s.cache s.now p request code vk ck ak).map fun (db, cache, r) =>
      ({ s with db, cache }, [.requested p s.now code r])
  | .verify p code request ak =>
    (verifyOtp cfg s.db s.now p code request ak).map fun (db, o, _) =>
      ({ s with db }, [.verified p (unblocked s.db p) o])
  | .setBlocked voter blocked =>
    some ({ s with db := { s.db with voters := setBlocked s.db.voters voter blocked s.now } }, [])

def step (s : State) (l : Label) : Option State := (exec cfg s l).map Prod.fst

/-- The events of a step. -/
def events (s : State) (l : Label) (_ : State) : List Event :=
  ((exec cfg s l).map Prod.snd).getD []

/-- The events of a run, oldest first. -/
def history (s : State) (l : List Label) : List Event := emitted (step cfg) (events cfg) s l

/-! ### Reading the history -/

/-- A challenge given out, when, and with which code. -/
structure Grant where
  challenge : Id
  at_ : Time
  code : String
  deriving DecidableEq, Repr

/-- The grant for the number `p` that an event is. -/
def grant (p : String) : Event → Option Grant
  | .requested q at_ code (.granted k) => if q = p then some ⟨k, at_, code⟩ else none
  | _ => none

/-- A verification for `p` while its voter was unblocked. -/
def attempts (p : String) : Event → Bool
  | .verified q unblocked _ => q = p && unblocked
  | _ => false

/-- A verification that succeeded with the challenge `k`. -/
def succeeds (k : Id) : Event → Bool
  | .verified _ _ (.succeeded k') => k' = k
  | _ => false

/-- The code is good for the number, as the history `h` tells. -/
structure Valid (s : State) (h : List Event) (p code : String) : Prop where
  unblocked : unblocked s.db p = true
  granted : ∃ h₁ h₂ k r, h = h₁ ++ Event.requested p r code (.granted k) :: h₂ ∧
    (∀ e ∈ h₂, grant p e = none) ∧ r ≤ s.now ∧ s.now < r + seconds cfg.ttlSeconds ∧
    (∀ e ∈ h, succeeds k e = false) ∧ h₂.countP (attempts p) < cfg.maxAttempts

/-! ### The invariant -/

/-- The last grant `g` of the voter `i`, with the events `t` after it, in the challenge table. -/
structure Stands (now : Time) (challenges : Table OTPChallenge) (h t : List Event) (p : String)
    (i : Id) (g : Grant) : Prop where
  row : ∃ c, challenges.get? g.challenge = some c ∧ c.voter = i ∧
    c.codeHash = cfg.hashCode g.challenge g.code ∧ c.expiresAt = g.at_ + seconds cfg.ttlSeconds ∧
    (c.consumedAt = none ↔ ∀ e ∈ h, succeeds g.challenge e = false) ∧
    (OpenFor i now c → c.attempts = min cfg.maxAttempts (t.countP (attempts p)))
  past : g.at_ ≤ now
  only : ∀ k c, challenges.get? k = some c → OpenFor i now c → k = g.challenge

/-- What the tables hold after the history `h`. -/
structure Tracks (s : State) (h : List Event) : Prop where
  owned : ∀ k c, s.db.challenges.get? k = some c → s.db.voters.get? c.voter ≠ none
  known : ∀ e ∈ h, ∀ k, succeeds k e = true → s.db.challenges.get? k ≠ none
  ungranted : ∀ p, since (grant p) h = none → ∀ i, voterId s.db.voters p = some i →
    ∀ k c, s.db.challenges.get? k = some c → c.voter ≠ i
  granted : ∀ p g t, since (grant p) h = some (g, t) → ∃ i, voterId s.db.voters p = some i ∧
    Stands cfg s.now s.db.challenges h t p i g

/-- Numbers keep their voters, and new voters have new keys. -/
structure Grows (t t' : Table Voter) : Prop where
  keeps : ∀ p i, voterId t p = some i → voterId t' p = some i
  rows : ∀ i, t.get? i ≠ none → t'.get? i ≠ none
  fresh : ∀ p i, voterId t' p = some i → voterId t p = some i ∨ t.get? i = none

theorem Grows.refl (t : Table Voter) : Grows t t :=
  ⟨fun _ _ h => h, fun _ h => h, fun _ _ h => Or.inl h⟩

theorem grows_modify (t : Table Voter) (k : Id) (f : Voter → Voter) (hf : ∀ v, key (f v) = key v)
    (hp : ∀ v, (f v).phoneE164 = v.phoneE164) : Grows t (t.modify k f hf) := by
  have hsame : ∀ p, voterId (t.modify k f hf) p = voterId t p := voterId_modify t k f hf hp
  refine ⟨fun p i h => (hsame p).trans h, fun i h => ?_,
    fun p i h => Or.inl ((hsame p).symm.trans h)⟩
  rw [Table.get?_modify]
  split_ifs with hi
  · rw [← hi, Ne, Option.map_eq_none_iff]; exact h
  · exact h

theorem grows_markVerified (t : Table Voter) (v : Voter) (now savedAt : Time) :
    Grows t (markVerified t v now savedAt) := by
  unfold markVerified
  split_ifs
  · exact grows_modify t v.id _ _ fun _ => rfl
  · exact Grows.refl t

theorem grows_setBlocked (t : Table Voter) (voter : Id) (blocked : Bool) (now : Time) :
    Grows t (setBlocked t voter blocked now) :=
  grows_modify t voter _ _ fun _ => rfl

theorem grows_getOrCreate {db db' : Database} {p : String} {k : Keys} {now : Time} {v : Voter}
    (h : getOrCreateVoter db p k now = some (db', v)) :
    Grows db.voters db'.voters ∧ voterId db'.voters p = some v.id := by
  rcases getOrCreateVoter_cases h with ⟨hv, rfl⟩ | ⟨hn, hid, hp, -, hk, voters, hr, rfl⟩
  · have hi : voterId db'.voters p = some v.id := by rw [voterId, hv]; rfl
    exact ⟨Grows.refl _, hi⟩
  · subst hp
    have hid' : ∀ q, voterId voters q = if q = v.phoneE164 then some v.id
      else voterId db.voters q :=
      voterId_of_new hr hn
    have hnone : voterId db.voters v.phoneE164 = none := by rw [voterId, hn]; rfl
    have hself : voterId voters v.phoneE164 = some v.id := by rw [hid', if_pos rfl]
    refine ⟨⟨fun q i hi => ?_, fun i hi => ?_, fun q i hi => ?_⟩, hself⟩
    · show voterId voters q = some i
      rw [hid', if_neg]
      · exact hi
      · rintro rfl
        rw [hnone] at hi; simp at hi
    · show voters.get? i ≠ none
      obtain ⟨w, hw⟩ := Option.ne_none_iff_exists'.mp hi
      obtain ⟨hm, hwi⟩ := Table.get?_eq_some.mp hw
      have hmem : w ∈ voters.rows := by rw [hr]; exact List.mem_append_left _ hm
      rw [← hwi, Table.get?_key hmem]
      exact Option.some_ne_none w
    · replace hi : voterId voters q = some i := hi
      rw [hid'] at hi
      split_ifs at hi
      · right
        rw [← Option.some.inj hi, hid]
        exact hk
      · exact Or.inl hi

variable {cfg} {s s' : State} {h : List Event}

theorem unsucceeded_append {h es : List Event} {k : Id} (hs : ∀ e ∈ es, succeeds k e = false) :
    (∀ e ∈ h ++ es, succeeds k e = false) ↔ ∀ e ∈ h, succeeds k e = false := by
  rw [List.forall_mem_append]
  exact and_iff_left hs

/-- **Steps that leave the challenges alone.** An attempt may be among the events when no challenge
is open or the open one is exhausted. -/
theorem Tracks.quiet (ht : Tracks cfg s h) {es : List Event}
    (hc : s'.db.challenges = s.db.challenges) (hv : Grows s.db.voters s'.db.voters)
    (hn : s.now ≤ s'.now) (hg : ∀ e ∈ es, ∀ p, grant p e = none)
    (hs : ∀ e ∈ es, ∀ k, succeeds k e = false)
    (ha : ∀ e ∈ es, ∀ p, attempts p e = true → ∀ i, voterId s.db.voters p = some i →
      ∀ k c, s.db.challenges.get? k = some c → OpenFor i s.now c → cfg.maxAttempts ≤ c.attempts) :
    Tracks cfg s' (h ++ es) := by
  have hsince : ∀ p, since (grant p) (h ++ es) = (since (grant p) h).map fun x =>
    (x.1, x.2 ++ es) :=
    fun p => since_append_of_none fun e he => hg e he p
  have hopen : ∀ {i c}, OpenFor i s'.now c → OpenFor i s.now c :=
    fun ho => ⟨ho.1, ho.2.1, hn.trans_lt ho.2.2⟩
  refine ⟨?_, ?_, ?_, ?_⟩
  · intro k c hk
    rw [hc] at hk
    exact hv.rows _ (ht.owned k c hk)
  · intro e he k hk
    rw [hc]
    rcases List.mem_append.mp he with he | he
    · exact ht.known e he k hk
    · rw [hs e he k] at hk; simp at hk
  · intro p hp i hi k c hk
    rw [hsince, Option.map_eq_none_iff] at hp
    rw [hc] at hk
    rcases hv.fresh p i hi with hi | hi
    · exact ht.ungranted p hp i hi k c hk
    · exact fun he => ht.owned k c hk (he ▸ hi)
  · intro p g t hp
    rw [hsince] at hp
    obtain ⟨⟨g', t'⟩, hp', heq⟩ := Option.map_eq_some_iff.mp hp
    obtain ⟨rfl, rfl⟩ := Prod.mk.inj heq
    obtain ⟨i, hi, hst⟩ := ht.granted p g' t' hp'
    obtain ⟨c, hk, hcv, hch, hce, hcc, hca⟩ := hst.row
    have hk' : s'.db.challenges.get? g'.challenge = some c := by rw [hc]; exact hk
    refine ⟨i, hv.keeps p i hi, ⟨c, hk', hcv, hch, hce, ?_, fun ho => ?_⟩, hst.past.trans hn,
      fun k d hd ho => hst.only k d (hc ▸ hd) (hopen ho)⟩
    · rw [hcc, unsucceeded_append fun e he => hs e he _]
    · have hold := hca (hopen ho)
      show c.attempts = min cfg.maxAttempts ((t' ++ es).countP (attempts p))
      rw [List.countP_append]
      by_cases h0 : es.countP (attempts p) = 0
      · rw [h0, Nat.add_zero]
        exact hold
      · -- an attempt on an open challenge: it is exhausted already
        obtain ⟨e, he, hpe⟩ := List.countP_pos_iff.mp (Nat.pos_of_ne_zero h0)
        have hmax := ha e he p hpe i hi g'.challenge c hk (hopen ho)
        omega

theorem get?_of_voterId {t : Table Voter} {p : String} {i : Id} (h : voterId t p = some i) :
    t.get? i ≠ none := by
  obtain ⟨v, hv, rfl⟩ := voterId_eq_some.mp h
  have hget : t.get? v.id = some v := Table.get?_key (voterByPhone_some hv).1
  rw [hget]
  exact Option.some_ne_none v

/-- The new challenge stands for its number. -/
theorem Tracks.stands_granted (ht : Tracks cfg s h) {v : Voter} {p code : String}
    {request : Request} {ck : Keys} (hn : s'.now = s.now) (hf : s.db.challenges.get? ck.id = none)
    (hget : ∀ k, s'.db.challenges.get? k = if k = ck.id then
      some (newChallenge cfg v request s.now s.now code ck)
      else (s.db.challenges.get? k).map (expire v.id s.now fun _ => true)) :
    Stands cfg s'.now s'.db.challenges (h ++ [.requested p s.now code (.granted ck.id)]) [] p v.id
      ⟨ck.id, s.now, code⟩ := by
  have hnew : s'.db.challenges.get? ck.id =
      some (newChallenge cfg v request s.now s.now code ck) := (hget ck.id).trans (if_pos rfl)
  have hzero : 0 = min cfg.maxAttempts 0 := (Nat.min_zero _).symm
  have hunknown : ∀ e ∈ h, succeeds ck.id e = false := by
    intro e he
    by_contra hs
    exact ht.known e he ck.id (by simpa using hs) hf
  refine ⟨⟨_, hnew, rfl, rfl, rfl, ?_, fun _ => hzero⟩, hn.ge, fun k c hk ho => ?_⟩
  · exact iff_of_true rfl ((unsucceeded_append (List.forall_mem_singleton.mpr rfl)).mpr hunknown)
  · by_contra hck
    rw [hget, if_neg hck] at hk
    obtain ⟨d, -, rfl⟩ := Option.map_eq_some_iff.mp hk
    rw [hn] at ho
    exact not_openFor_expire rfl ho

/-- What stands for another voter stays. -/
theorem Stands.beside_granted {t : List Event} {q : String} {i : Id} {g : Grant}
    (hst : Stands cfg s.now s.db.challenges h t q i g) {v : Voter} {p code : String}
    {request : Request}
    {ck : Keys} (hiv : i ≠ v.id) (hn : s'.now = s.now) (hf : s.db.challenges.get? ck.id = none)
    (hget : ∀ k, s'.db.challenges.get? k = if k = ck.id then
      some (newChallenge cfg v request s.now s.now code ck)
      else (s.db.challenges.get? k).map (expire v.id s.now fun _ => true)) :
    Stands cfg s'.now s'.db.challenges (h ++ [.requested p s.now code (.granted ck.id)])
      (t ++ [.requested p s.now code (.granted ck.id)]) q i g := by
  obtain ⟨c, hk, hcv, hch, hce, hcc, hca⟩ := hst.row
  have hne : g.challenge ≠ ck.id := fun he => by
    rw [he, hf] at hk; simp at hk
  have hc : s'.db.challenges.get? g.challenge = some c := by
    rw [hget, if_neg hne, hk, Option.map_some, expire_of_ne (hcv ▸ hiv)]
  refine ⟨⟨c, hc, hcv, hch, hce, ?_, fun ho => ?_⟩, ?_, fun k d hd ho => ?_⟩
  · rw [hcc, unsucceeded_append (List.forall_mem_singleton.mpr rfl)]
  · rw [hn] at ho
    rw [hca ho, List.countP_append]
    rfl
  · rw [hn]; exact hst.past
  · rw [hget] at hd
    split_ifs at hd with hck
    · rw [← Option.some.inj hd] at ho
      exact absurd ho.1.symm hiv
    · obtain ⟨d', hd', rfl⟩ := Option.map_eq_some_iff.mp hd
      have hv' : d'.voter = i := (voter_expire ..).symm.trans ho.1
      rw [expire_of_ne (hv' ▸ hiv), hn] at ho
      exact hst.only k d' hd' ho

/-- **A granted request** makes its challenge the one that stands. -/
theorem Tracks.grant (ht : Tracks cfg s h) {v : Voter} {p code : String} {request : Request}
    {ck : Keys} (hv : Grows s.db.voters s'.db.voters) (hi : voterId s'.db.voters p = some v.id)
    (hn : s'.now = s.now) (hf : s.db.challenges.get? ck.id = none)
    (hget : ∀ k, s'.db.challenges.get? k = if k = ck.id then
      some (newChallenge cfg v request s.now s.now code ck)
      else (s.db.challenges.get? k).map (expire v.id s.now fun _ => true)) :
    Tracks cfg s' (h ++ [.requested p s.now code (.granted ck.id)]) := by
  have hne : ∀ {k c}, s.db.challenges.get? k = some c → k ≠ ck.id := by
    rintro k c hk rfl
    rw [hf] at hk; simp at hk
  have hgrant : ∀ q, OtpHistory.grant q (.requested p s.now code (.granted ck.id)) =
      if p = q then some ⟨ck.id, s.now, code⟩ else none := fun _ => rfl
  have hother : ∀ {q i}, p ≠ q → voterId s'.db.voters q = some i → i ≠ v.id :=
    fun hq hi' he => hq (phone_of_voterId hi (he ▸ hi'))
  refine ⟨?_, ?_, ?_, ?_⟩
  · intro k c hk
    rw [hget] at hk
    split_ifs at hk with hck
    · rw [← Option.some.inj hk]
      exact get?_of_voterId hi
    · obtain ⟨d, hd, rfl⟩ := Option.map_eq_some_iff.mp hk
      rw [voter_expire]
      exact hv.rows _ (ht.owned k d hd)
  · intro e he k hk
    rcases List.mem_append.mp he with he | he
    · obtain ⟨d, hd⟩ := Option.ne_none_iff_exists'.mp (ht.known e he k hk)
      rw [hget, if_neg (hne hd), hd]
      exact Option.some_ne_none _
    · rw [List.mem_singleton.mp he] at hk; cases hk
  · intro q hq i hi' k c hk
    by_cases hpq : p = q
    · rw [since_concat_of_some ((hgrant q).trans (if_pos hpq))] at hq; simp at hq
    · rw [since_concat_of_none ((hgrant q).trans (if_neg hpq)), Option.map_eq_none_iff] at hq
      rw [hget] at hk
      split_ifs at hk with hck
      · rw [← Option.some.inj hk]
        exact (hother hpq hi').symm
      · obtain ⟨d, hd, rfl⟩ := Option.map_eq_some_iff.mp hk
        rw [voter_expire]
        rcases hv.fresh q i hi' with hi' | hi'
        · exact ht.ungranted q hq i hi' k d hd
        · exact fun he => ht.owned k d hd (he ▸ hi')
  · intro q g t hq
    by_cases hpq : p = q
    · subst hpq
      rw [since_concat_of_some ((hgrant p).trans (if_pos rfl))] at hq
      obtain ⟨rfl, rfl⟩ := Prod.mk.inj (Option.some.inj hq)
      exact ⟨v.id, hi, ht.stands_granted hn hf hget⟩
    · rw [since_concat_of_none ((hgrant q).trans (if_neg hpq))] at hq
      obtain ⟨⟨g', t'⟩, hq', heq⟩ := Option.map_eq_some_iff.mp hq
      obtain ⟨rfl, rfl⟩ := Prod.mk.inj heq
      obtain ⟨i, hi', hst⟩ := ht.granted q g' t' hq'
      have hiv : i ≠ v.id := hother hpq (hv.keeps q i hi')
      exact ⟨i, hv.keeps q i hi', hst.beside_granted hiv hn hf hget⟩

theorem attempts_verified (p q : String) (o : Outcome) :
    attempts q (.verified p true o) = decide (p = q) := by
  simp [attempts]

/-- The row of the challenge that stands, after an attempt on it. -/
theorem Stands.row_attempted {t : List Event} {p : String} {i : Id} {g : Grant} {now : Time}
    {challenges : Table OTPChallenge} (hst : Stands cfg now challenges h t p i g)
    {c c' : OTPChallenge} {o : Outcome} (hc : challenges.get? c.id = some c) (ho : OpenFor i now c)
    (hlt : c.attempts < cfg.maxAttempts) (hgc : g.challenge = c.id) (hvo : c'.voter = c.voter)
    (hha : c'.codeHash = c.codeHash) (hex : c'.expiresAt = c.expiresAt)
    (hat : c'.attempts = c.attempts + 1) (hco : c'.consumedAt = none ↔ o.isSuccess = false)
    (hs : ∀ k, succeeds k (.verified p true o) = (o.isSuccess && decide (c.id = k))) :
    c'.voter = i ∧ c'.codeHash = cfg.hashCode g.challenge g.code ∧
      c'.expiresAt = g.at_ + seconds cfg.ttlSeconds ∧
      (c'.consumedAt = none ↔ ∀ e ∈ h ++ [Event.verified p true o],
        succeeds g.challenge e = false) ∧
      c'.attempts = min cfg.maxAttempts ((t ++ [Event.verified p true o]).countP (attempts p)) := by
  obtain ⟨d, hk, hdv, hdh, hde, hdc, hda⟩ := hst.row
  rw [hgc, hc] at hk
  obtain rfl := Option.some.inj hk
  have hevent : succeeds g.challenge (.verified p true o) = o.isSuccess := by
    rw [hs, hgc, decide_eq_true rfl, Bool.and_true]
  refine ⟨hvo.trans hdv, hha.trans hdh, hex.trans hde, ?_, ?_⟩
  · rw [hco, List.forall_mem_append, List.forall_mem_singleton, hevent]
    exact (and_iff_right (hdc.mp ho.2.1)).symm
  · have hcount := hda ho
    rw [List.countP_append, List.countP_singleton, attempts_verified, decide_eq_true rfl,
      if_pos rfl]
    omega

/-- The row of a challenge that stands, after an attempt on another. -/
theorem Stands.row_beside {t : List Event} {p q : String} {i : Id} {g : Grant} {o : Outcome}
    (hst : Stands cfg s.now s.db.challenges h t q i g)
    (hsame : s'.db.challenges.get? g.challenge = s.db.challenges.get? g.challenge)
    (hn : s'.now = s.now) (hs : succeeds g.challenge (.verified p true o) = false)
    (hqp : p ≠ q ∨ ∀ d, s.db.challenges.get? g.challenge = some d → ¬ OpenFor i s.now d) :
    ∃ d, s'.db.challenges.get? g.challenge = some d ∧ d.voter = i ∧
      d.codeHash = cfg.hashCode g.challenge g.code ∧ d.expiresAt = g.at_ + seconds cfg.ttlSeconds ∧
      (d.consumedAt = none ↔ ∀ e ∈ h ++ [Event.verified p true o], succeeds g.challenge e = false) ∧
      (OpenFor i s'.now d → d.attempts =
        min cfg.maxAttempts ((t ++ [Event.verified p true o]).countP (attempts q))) := by
  obtain ⟨d, hk, hdv, hdh, hde, hdc, hda⟩ := hst.row
  refine ⟨d, hsame.trans hk, hdv, hdh, hde, ?_, fun hod => ?_⟩
  · rw [hdc, unsucceeded_append (List.forall_mem_singleton.mpr hs)]
  · rw [hn] at hod
    have hpq : p ≠ q := hqp.resolve_right fun hclosed => hclosed d hk hod
    rw [List.countP_append, List.countP_singleton, attempts_verified, decide_eq_false hpq,
      if_neg Bool.false_ne_true, Nat.add_zero]
    exact hda hod

/-- **A counted attempt** on the open challenge `c` of the voter `i`, which becomes `c'`. -/
theorem Tracks.attempt (ht : Tracks cfg s h) {p : String} {i : Id} {c : OTPChallenge}
    (c' : OTPChallenge) {o : Outcome} (hv : Grows s.db.voters s'.db.voters)
    (hi : voterId s.db.voters p = some i) (hn : s'.now = s.now)
    (hc : s.db.challenges.get? c.id = some c) (ho : OpenFor i s.now c)
    (hlt : c.attempts < cfg.maxAttempts)
    (hget : ∀ k, s'.db.challenges.get? k = if k = c.id then some c' else s.db.challenges.get? k)
    (hvo : c'.voter = c.voter) (hha : c'.codeHash = c.codeHash) (hex : c'.expiresAt = c.expiresAt)
    (hat : c'.attempts = c.attempts + 1) (hco : c'.consumedAt = none ↔ o.isSuccess = false)
    (hs : ∀ k, succeeds k (.verified p true o) = (o.isSuccess && decide (c.id = k))) :
    Tracks cfg s' (h ++ [.verified p true o]) := by
  have hgrant : ∀ q, OtpHistory.grant q (.verified p true o) = none := fun _ => rfl
  refine ⟨?_, ?_, ?_, ?_⟩
  · intro k d hk
    rw [hget] at hk
    split_ifs at hk with hkc
    · rw [← Option.some.inj hk, hvo]
      exact hv.rows _ (ht.owned c.id c hc)
    · exact hv.rows _ (ht.owned k d hk)
  · intro e he k hk
    rw [hget]
    split_ifs with hkc
    · exact Option.some_ne_none c'
    · rcases List.mem_append.mp he with he | he
      · exact ht.known e he k hk
      · rw [List.mem_singleton.mp he, hs, Bool.and_eq_true, decide_eq_true_eq] at hk
        exact absurd hk.2.symm hkc
  · intro q hq j hj k d hk
    rw [since_concat_of_none (hgrant q), Option.map_eq_none_iff] at hq
    have hold : ∀ k d, s.db.challenges.get? k = some d → d.voter ≠ j := by
      intro k d hd
      rcases hv.fresh q j hj with hj | hj
      · exact ht.ungranted q hq j hj k d hd
      · exact fun he => ht.owned k d hd (he ▸ hj)
    rw [hget] at hk
    split_ifs at hk with hkc
    · rw [← Option.some.inj hk, hvo]
      exact hold c.id c hc
    · exact hold k d hk
  · intro q g t hq
    rw [since_concat_of_none (hgrant q)] at hq
    obtain ⟨⟨g', t'⟩, hq', heq⟩ := Option.map_eq_some_iff.mp hq
    obtain ⟨rfl, rfl⟩ := Prod.mk.inj heq
    obtain ⟨j, hj, hst⟩ := ht.granted q g' t' hq'
    have hpast : g'.at_ ≤ s'.now := by rw [hn]; exact hst.past
    refine ⟨j, hv.keeps q j hj, ?_, hpast, fun k e he hoe => ?_⟩
    · by_cases hgc : g'.challenge = c.id
      · -- the challenge that stands is the one attempted
        obtain ⟨d, hk, hdv, -⟩ := hst.row
        rw [hgc, hc] at hk
        obtain rfl := Option.some.inj hk
        obtain rfl : j = i := hdv.symm.trans ho.1
        obtain rfl : p = q := phone_of_voterId hi hj
        have hc' : s'.db.challenges.get? g'.challenge = some c' := by rw [hget, if_pos hgc]
        obtain ⟨hcv, hch, hce, hcc, hca⟩ := hst.row_attempted hc ho hlt hgc hvo hha hex hat hco hs
        exact ⟨c', hc', hcv, hch, hce, hcc, fun _ => hca⟩
      · have hqp : p ≠ q ∨ ∀ d, s.db.challenges.get? g'.challenge = some d →
            ¬ OpenFor j s.now d := by
          by_contra! hcon
          obtain ⟨rfl, d, -, hod⟩ := hcon
          have hji : j = i := Option.some.inj (hj.symm.trans hi)
          exact hgc (hst.only c.id c hc (hji ▸ ho)).symm
        have hsame : s'.db.challenges.get? g'.challenge = s.db.challenges.get? g'.challenge := by
          rw [hget, if_neg hgc]
        exact hst.row_beside hsame hn
          (by rw [hs, decide_eq_false (Ne.symm hgc), Bool.and_false]) hqp
    · rw [hn] at hoe
      rw [hget] at he
      split_ifs at he with hkc
      · rw [hkc]
        rw [← Option.some.inj he] at hoe
        refine hst.only c.id c hc ⟨hvo ▸ hoe.1, ho.2.1, ho.2.2⟩
      · exact hst.only k e he hoe

/-- A voter has at most one open challenge, and only when one was granted. -/
theorem Tracks.open_of (ht : Tracks cfg s h) {p : String} {i k : Id} {c : OTPChallenge}
    (hi : voterId s.db.voters p = some i) (hk : s.db.challenges.get? k = some c)
    (ho : OpenFor i s.now c) : ∃ g t, since (OtpHistory.grant p) h = some (g, t) ∧ k = g.challenge ∧
      Stands cfg s.now s.db.challenges h t p i g := by
  rcases hs : since (OtpHistory.grant p) h with _ | ⟨g, t⟩
  · exact absurd ho.1 (ht.ungranted p hs i hi k c hk)
  · obtain ⟨j, hj, hst⟩ := ht.granted p g t hs
    obtain rfl : j = i := Option.some.inj (hj.symm.trans hi)
    exact ⟨g, t, rfl, hst.only k c hk ho, hst⟩

theorem exec_of_step {l : Label} (hs : step cfg s l = some s') :
    exec cfg s l = some (s', events cfg s l s') := by
  obtain ⟨⟨t, es⟩, he, rfl⟩ := Option.map_eq_some_iff.mp hs
  rw [events, he]
  rfl

theorem voterId_of_voterByPhone {db : Database} {p : String} {v : Voter}
    (hv : voterByPhone db.voters p = some v) : voterId db.voters p = some v.id := by
  rw [voterId, hv]
  rfl

/-- **Every operation keeps the invariant.** -/
theorem Tracks.exec (ht : Tracks cfg s h) {l : Label} {es : List Event}
    (hx : exec cfg s l = some (s', es)) : Tracks cfg s' (h ++ es) := by
  cases l with
  | tick d =>
    obtain ⟨rfl, rfl⟩ := Prod.mk.inj (Option.some.inj hx)
    exact ht.quiet rfl (Grows.refl _) (Nat.le_add_right ..) (by simp) (by simp) (by simp)
  | setBlocked v b =>
    obtain ⟨rfl, rfl⟩ := Prod.mk.inj (Option.some.inj hx)
    exact ht.quiet rfl (grows_setBlocked ..) le_rfl (by simp) (by simp) (by simp)
  | request p request code vk ck ak =>
    obtain ⟨⟨db', cache', r⟩, hr, he⟩ := Option.map_eq_some_iff.mp hx
    obtain ⟨rfl, rfl⟩ := Prod.mk.inj he
    obtain ⟨db₁, v, hv, hcases⟩ := requestOtp_cases hr
    obtain ⟨hgrow, hi⟩ := grows_getOrCreate hv
    have hch := challenges_getOrCreateVoter hv
    rcases hcases with ⟨-, rfl, -, hvo, hcs⟩ | ⟨-, rfl, -, hvo, hcs⟩ | ⟨-, rfl, hiss⟩
    · exact ht.quiet (hcs.trans hch) (hvo ▸ hgrow) le_rfl (by simp [OtpHistory.grant])
        (by simp [succeeds]) (by simp [attempts])
    · exact ht.quiet (hcs.trans hch) (hvo ▸ hgrow) le_rfl (by simp [OtpHistory.grant])
        (by simp [succeeds]) (by simp [attempts])
    · obtain ⟨-, hvo, hf, -, hget⟩ := issue_eq_some hiss
      rw [hch] at hf hget
      exact ht.grant (hvo ▸ hgrow) (hvo ▸ hi) rfl hf hget
  | verify p code request ak =>
    obtain ⟨⟨db', o, r⟩, hr, he⟩ := Option.map_eq_some_iff.mp hx
    obtain ⟨rfl, rfl⟩ := Prod.mk.inj he
    obtain ⟨-, hcases⟩ := verifyOtp_cases hr
    rcases hcases with ⟨hnone, ho, -, hvo, hcs⟩ | ⟨v, c, hv, hb, hmem, hopen, hat⟩
    · -- there was no challenge to check, so an unblocked voter has no open one
      refine ht.quiet hcs (hvo ▸ Grows.refl _) le_rfl (by simp [OtpHistory.grant]) ?_ ?_
      · intro e he k
        rw [List.mem_singleton.mp he]
        cases o with
        | succeeded k' => simp [Outcome.isSuccess] at ho
        | _ => rfl
      · intro e he q hq i hi k d hk hod
        rw [List.mem_singleton.mp he] at hq
        have hq' : p = q ∧ unblocked s.db p = true := by simpa [attempts] using hq
        obtain ⟨rfl, hu⟩ := hq'
        obtain ⟨v, hv, hbv⟩ := unblocked_iff.mp hu
        have hvi : v.id = i := Option.some.inj ((voterId_of_voterByPhone hv).symm.trans hi)
        have hdm : d ∈ s.db.challenges.rows := (Table.get?_eq_some.mp hk).1
        rw [hv] at hnone
        exact absurd hnone (choose_ne_none hbv hdm (hvi ▸ hod))
    · have hi := voterId_of_voterByPhone hv
      have hc : s.db.challenges.get? c.id = some c := Table.get?_key hmem
      have hu : unblocked s.db p = true := unblocked_iff.mpr ⟨v, hv, hb⟩
      rw [hu]
      rcases attempt_cases hat with ⟨hmax, rfl, -, hvo, hcs⟩ | ⟨hlt, -, rfl, -, hvo, hcs⟩ |
        ⟨hlt, -, rfl, -, hvo, hcs⟩
      · refine ht.quiet hcs (hvo ▸ Grows.refl _) le_rfl (by simp [OtpHistory.grant])
          (by simp [succeeds]) fun e he q hq j hj k d hk hod => ?_
        rw [List.mem_singleton.mp he] at hq
        obtain rfl : p = q := by simpa [attempts] using hq
        obtain rfl : v.id = j := Option.some.inj (hi.symm.trans hj)
        obtain ⟨g, t, hg, hkg, -⟩ := ht.open_of hi hk hod
        obtain ⟨g', t', hg', hcg, -⟩ := ht.open_of hi hc hopen
        obtain ⟨rfl, -⟩ := Prod.mk.inj (Option.some.inj (hg.symm.trans hg'))
        rw [hkg, ← hcg, hc] at hk
        rwa [← Option.some.inj hk]
      · have hcounted : ∀ k, db'.challenges.get? k =
            if k = c.id then some { c with attempts := c.attempts + 1 }
            else s.db.challenges.get? k := by
          intro k
          rw [hcs, get?_countAttempt hc]
        exact ht.attempt _ (hvo ▸ Grows.refl _) hi rfl hc hopen hlt hcounted rfl rfl rfl rfl
          (iff_of_true hopen.2.1 rfl) fun _ => rfl
      · have hused : ∀ k, db'.challenges.get? k =
            if k = c.id then
              some
                { c with attempts := c.attempts + 1, consumedAt := some s.now, updatedAt := s.now }
            else s.db.challenges.get? k := by
          intro k
          rw [hcs, get?_consume hc]
        exact ht.attempt _ (hvo ▸ grows_markVerified ..) hi rfl hc hopen hlt hused rfl rfl rfl rfl
          (iff_of_false (Option.some_ne_none _) (by simp [Outcome.isSuccess])) fun _ => rfl

theorem tracks_of_empty {s : State} (h₀ : s.db.challenges.rows = []) : Tracks cfg s [] := by
  have hnone : ∀ k c, s.db.challenges.get? k ≠ some c := by
    intro k c hk
    have := (Table.get?_eq_some.mp hk).1
    rw [h₀] at this
    simp at this
  refine ⟨fun k c hk => absurd hk (hnone k c), by simp, fun _ _ _ _ k c hk => absurd hk (hnone k c),
    fun p g t hs => ?_⟩
  rw [since_nil] at hs; simp at hs

/-- **The invariant on runs.** -/
theorem tracks_of_run {s₀ : State} {l : List Label} (h₀ : s₀.db.challenges.rows = [])
    (hr : run (step cfg) s₀ l = some s) : Tracks cfg s (history cfg s₀ l) := by
  have hstep : ∀ s i s' out, Tracks cfg s out → step cfg s i = some s' →
      Tracks cfg s' (out ++ events cfg s i s') :=
    fun _ _ _ _ ht hs => ht.exec (exec_of_step hs)
  exact run_emitted_inv (Tracks cfg) hstep (tracks_of_empty h₀) hr

/-! ### Acceptance -/

theorem grant_eq_some {p : String} {e : Event} {g : Grant} : OtpHistory.grant p e = some g ↔
    e = .requested p g.at_ g.code (.granted g.challenge) := by
  constructor
  · intro hg
    unfold OtpHistory.grant at hg
    split at hg
    · split_ifs at hg with hp
      obtain rfl := Option.some.inj hg
      rw [hp]
    · simp at hg
  · rintro rfl
    exact if_pos rfl

/-- **`verify_otp` succeeds exactly on the valid codes.** -/
theorem Tracks.isSuccess_iff (hinj : Function.Injective2 cfg.hashCode) (ht : Tracks cfg s h)
    {p code : String} {request : Request} {ak : Keys} {db' : Database} {o : Outcome}
    {r : Except ApiError Voter}
    (hx : verifyOtp cfg s.db s.now p code request ak = some (db', o, r)) :
    o.isSuccess = true ↔ Valid cfg s h p code := by
  obtain ⟨-, hcases⟩ := verifyOtp_cases hx
  constructor
  · intro hsucc
    rcases hcases with ⟨-, ho, -⟩ | ⟨v, c, hv, hb, hmem, hopen, hat⟩
    · rw [ho] at hsucc; simp at hsucc
    · have hc : s.db.challenges.get? c.id = some c := Table.get?_key hmem
      obtain ⟨g, t, hg, hcg, hst⟩ := ht.open_of (voterId_of_voterByPhone hv) hc hopen
      obtain ⟨d, hd, -, hdh, hde, hdc, hda⟩ := hst.row
      rw [← hcg, hc] at hd
      obtain rfl := Option.some.inj hd
      rcases attempt_cases hat with ⟨-, rfl, -⟩ | ⟨-, -, rfl, -⟩ | ⟨hlt, hhash, -⟩
      · simp [Outcome.isSuccess] at hsucc
      · simp [Outcome.isSuccess] at hsucc
      · obtain ⟨h₁, e, rfl, he, hlast⟩ := since_eq_some.mp hg
        rw [grant_eq_some.mp he] at hdc ⊢
        have hcode : g.code = code := (hinj (hdh.symm.trans hhash)).2
        have hopen' := hda hopen
        have hexp : s.now < g.at_ + seconds cfg.ttlSeconds := hde ▸ hopen.2.2
        have hfew : t.countP (attempts p) < cfg.maxAttempts := by omega
        exact ⟨unblocked_iff.mpr ⟨v, hv, hb⟩, h₁, t, g.challenge, g.at_, by rw [hcode], hlast,
          hst.past, hexp, hdc.mp hopen.2.1, hfew⟩
  · rintro ⟨hu, h₁, h₂, k, r₀, rfl, hlast, -, hexp, hnone, hfew⟩
    obtain ⟨v, hv, hb⟩ := unblocked_iff.mp hu
    have hgrant : OtpHistory.grant p (.requested p r₀ code (.granted k)) = some ⟨k, r₀, code⟩ :=
      if_pos rfl
    have hg := since_eq_some.mpr ⟨h₁, _, rfl, hgrant, hlast⟩
    obtain ⟨i, hi, hst⟩ := ht.granted p _ _ hg
    obtain rfl : v.id = i := Option.some.inj ((voterId_of_voterByPhone hv).symm.trans hi)
    obtain ⟨c, hc, hcv, hch, hce, hcc, hca⟩ := hst.row
    have hopen : OpenFor v.id s.now c := ⟨hcv, hcc.mpr hnone, by rw [hce]; exact hexp⟩
    have hck : c.id = k := Table.key_of_get? hc
    have hcm : c ∈ s.db.challenges.rows := (Table.get?_eq_some.mp hc).1
    rcases hcases with ⟨hch', -⟩ | ⟨w, d, hw, -, hmem, hod, hat⟩
    · rw [hv] at hch'
      exact absurd hch' (choose_ne_none hb hcm hopen)
    · obtain rfl : v = w := Option.some.inj (hv.symm.trans hw)
      have hdk : d.id = k := hst.only d.id d (Table.get?_key hmem) hod
      obtain rfl : d = c := Table.eq_of_key hmem hcm (hdk.trans hck.symm)
      have hat' := hca hopen
      rcases attempt_cases hat with ⟨hmax, -⟩ | ⟨-, hwrong, -⟩ | ⟨-, -, rfl, -⟩
      · omega
      · have hright : d.codeHash = cfg.hashCode d.id code := by rw [hch, hck]
        exact absurd hright hwrong
      · rfl

section Exact

variable (cfg)

/-- What verifications and requests do in the state `s` after the history `h`. -/
structure Exact (s : State) (h : List Event) : Prop where
  /-- A verification returns or raises, given a fresh key for its entry. -/
  ends : ∀ p code request ak, s.db.audit.get? ak.id = none →
    (verifyOtp cfg s.db s.now p code request ak).isSome = true
  /-- It returns a voter exactly when the code is valid. -/
  accepts : ∀ p code request ak db' o r,
    verifyOtp cfg s.db s.now p code request ak = some (db', o, r) →
      ((∃ v, r = .ok v) ↔ Valid cfg s h p code)
  /-- The voter returned is the one with the number. -/
  voter : ∀ p code request ak db' o v,
    verifyOtp cfg s.db s.now p code request ak = some (db', o, .ok v) →
      v.phoneE164 = p ∧ voterId s.db.voters p = some v.id
  /-- In every other case it raises `InvalidOTP`. -/
  refuses : ∀ p code request ak db' o r,
    verifyOtp cfg s.db s.now p code request ak = some (db', o, r) → ¬ Valid cfg s h p code →
      r = .error .invalidOTP
  /-- Requests that are not granted leave the challenges alone. -/
  untouched : ∀ p request code vk ck ak db' cache' r,
    requestOtp cfg s.db s.cache s.now p request code vk ck ak = some (db', cache', r) →
      (∀ k, r ≠ .granted k) → db'.challenges = s.db.challenges

end Exact

/-- A result is a voter exactly when the call succeeded for a voter. -/
theorem result_eq_ok {voter : Option Voter} {now savedAt : Time} {o : Outcome} {v : Voter}
    (hr : result voter now savedAt o = .ok v) : o.isSuccess = true ∧
      ∃ w, voter = some w ∧ v.id = w.id ∧ v.phoneE164 = w.phoneE164 := by
  unfold result at hr
  split at hr
  · next w =>
    refine ⟨rfl, w, rfl, ?_⟩
    rw [← Except.ok.inj hr]
    split_ifs <;> exact ⟨rfl, rfl⟩
  · simp at hr

/-- **One-time codes are accepted exactly when they are valid**, in every state reached from one
without challenges. -/
theorem otp_exact (hinj : Function.Injective2 cfg.hashCode) {s₀ : State} {l : List Label}
    (h₀ : s₀.db.challenges.rows = []) (hr : run (step cfg) s₀ l = some s) :
    Exact cfg s (history cfg s₀ l) := by
  have ht := tracks_of_run h₀ hr
  have haccepts : ∀ p code request ak db' o r,
      verifyOtp cfg s.db s.now p code request ak = some (db', o, r) →
        ((∃ v, r = .ok v) ↔ Valid cfg s (history cfg s₀ l) p code) := by
    intro p code request ak db' o r hx
    rw [← ht.isSuccess_iff hinj hx]
    obtain ⟨rfl, hcases⟩ := verifyOtp_cases hx
    refine ⟨fun ⟨v, hv⟩ => (result_eq_ok hv).1, fun hs => ?_⟩
    rcases hcases with ⟨-, ho, -⟩ | ⟨v, c, hv, -⟩
    · rw [ho] at hs; simp at hs
    · rw [hv]
      cases o with
      | succeeded k => exact ⟨_, rfl⟩
      | _ => simp [Outcome.isSuccess] at hs
  refine ⟨fun p code request ak hk => verifyOtp_isSome hk, haccepts, ?_, ?_, ?_⟩
  · intro p code request ak db' o v hx
    obtain ⟨-, w, hw, hid, hp⟩ := result_eq_ok (verifyOtp_cases hx).1.symm
    rw [hid, hp]
    exact ⟨(voterByPhone_some hw).2, voterId_of_voterByPhone hw⟩
  · intro p code request ak db' o r hx hnot
    have hs : o.isSuccess = false := by
      rw [← Bool.not_eq_true, ht.isSuccess_iff hinj hx]
      exact hnot
    rw [(verifyOtp_cases hx).1]
    exact result_of_isSuccess hs
  · intro p request code vk ck ak db' cache' r hx hnot
    obtain ⟨db₁, v, hv, hcases⟩ := requestOtp_cases hx
    have hch := challenges_getOrCreateVoter hv
    rcases hcases with ⟨-, -, -, -, hcs⟩ | ⟨-, -, -, -, hcs⟩ | ⟨-, rfl, -⟩
    · exact hcs.trans hch
    · exact hcs.trans hch
    · exact absurd rfl (hnot ck.id)

/-! ### A run -/

/-- A hash that keeps its arguments apart. -/
def marked (i : Id) (code : String) : String :=
  String.ofList (List.replicate i 'x' ++ '.' :: code.toList)

theorem marked_injective : Function.Injective2 marked := by
  have hlist : ∀ (i j : ℕ) (l m : List Char),
      List.replicate i 'x' ++ '.' :: l = List.replicate j 'x' ++ '.' :: m → i = j ∧ l = m := by
    intro i
    induction i with
    | zero =>
      intro j l m he
      cases j with
      | zero => exact ⟨rfl, by simpa using he⟩
      | succ j => simp [List.replicate_succ] at he
    | succ i ih =>
      intro j l m he
      cases j with
      | zero => simp [List.replicate_succ] at he
      | succ j =>
        simp only [List.replicate_succ, List.cons_append, List.cons.injEq, true_and] at he
        obtain ⟨rfl, rfl⟩ := ih j l m he
        exact ⟨rfl, rfl⟩
  intro i j c d he
  obtain ⟨rfl, hl⟩ := hlist i j _ _ (String.ofList_injective he)
  exact ⟨rfl, String.toList_injective hl⟩

def galaSettings : OtpSettings := { hashCode := marked, hashPhone := fun p => p }

def galaRequest : Request := ⟨none, "", .anonymous⟩

/-- A code is asked for, and a wrong one tried. -/
def galaCodes : List Label :=
  [.request "+254712345678" galaRequest "123456" ⟨60, 2⟩ ⟨61, 1⟩ ⟨70, 1⟩, .tick 1000,
    .verify "+254712345678" "000000" galaRequest ⟨71, 2⟩]

/-- What holds after `galaCodes`. -/
theorem otp_exact_gala :
    ∃ s, run (step galaSettings) ⟨galaDb, Cache.empty, 1000⟩ galaCodes = some s ∧
    Exact galaSettings s (history galaSettings ⟨galaDb, Cache.empty, 1000⟩ galaCodes) := by
  obtain ⟨s, hs⟩ := Option.isSome_iff_exists.mp
    (show (run (step galaSettings) ⟨galaDb, Cache.empty, 1000⟩ galaCodes).isSome = true by decide)
  exact ⟨s, hs, otp_exact marked_injective rfl hs⟩

end KwAwards.Voting.OtpHistory
