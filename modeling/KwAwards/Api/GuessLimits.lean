import KwAwards.Api.Integrity
import KwAwards.Api.RateLimits

/-! # How often the codes of a number are guessed

The challenges of a number leave some comparisons (`left`). A code that is sent adds at most
`maxAttempts` to them and every comparison takes one away (`spends_of_step`), so in every run the
codes of a number are compared at most as often as was left, and `maxAttempts` times for each code
that was sent. How many codes are sent, and how many comparisons there are, the phone throttles
bound (`guesses_of_run`), on a cache whose `incr` keeps the expiry of a counter and which evicts
nothing. -/

namespace KwAwards.Api.GuessLimits

open KwAwards.Lib.Tables KwAwards.Lib.Counters KwAwards.Lib.Run KwAwards.Lib.ForeignKeys
open KwAwards.Common.Base KwAwards.Common.Str KwAwards.Common.Fields KwAwards.Common.Phone
open KwAwards.Common.Throttles
open KwAwards.Common.WindowLimit (Sha256 Ask Asks counting counting_eq_some)
open KwAwards.Accounts.Authentication KwAwards.Accounts.Permissions KwAwards.Audit.Attribution
open KwAwards.Voting.Models KwAwards.Voting.Otp KwAwards.Voting.Serializers
open KwAwards.Voting.PhoneKeys KwAwards.Voting.Purge KwAwards.Store KwAwards.References
open KwAwards.Api.Dispatch KwAwards.Api.Actions KwAwards.Api.Integrity KwAwards.Api.RateLimits

/-! ### What is left -/

/-- The number of the voter of a challenge. -/
def phoneOf (db : Database) (c : OTPChallenge) : Option String :=
  (db.voters.get? c.voter).map Voter.phoneE164

/-- The comparisons that a challenge leaves for a number. -/
def roomOf (maxAttempts : ℕ) (db : Database) (p : String) (c : OTPChallenge) : ℕ :=
  if phoneOf db c = some p then maxAttempts - c.attempts else 0

/-- **The comparisons that are left** for a number. -/
def left (maxAttempts : ℕ) (db : Database) (p : String) : ℕ :=
  (db.challenges.rows.map (roomOf maxAttempts db p)).sum

/-- The challenges of a number that are new. -/
def newCodes (db db' : Database) (p : String) : List OTPChallenge :=
  db'.challenges.rows.filter fun c => db.challenges.get? c.id = none ∧ phoneOf db' c = some p

section Database

variable {n : ℕ} {db db' : Database} {p : String}

theorem left_le {f : OTPChallenge → OTPChallenge} {extra : List OTPChallenge}
    (hrows : db'.challenges.rows = db.challenges.rows.map f ++ extra)
    (hroom : ∀ c ∈ db.challenges.rows, roomOf n db' p (f c) ≤ roomOf n db p c) :
    left n db' p ≤ left n db p + (extra.map (roomOf n db' p)).sum := by
  unfold left
  rw [hrows, List.map_append, List.sum_append, List.map_map]
  exact Nat.add_le_add_right (List.sum_le_sum hroom) _

/-- What is left depends on the numbers of the voters of the challenges. -/
theorem left_of_phones (hrows : db'.challenges.rows = db.challenges.rows)
    (hphone : ∀ c ∈ db.challenges.rows, phoneOf db' c = phoneOf db c) :
    left n db' p = left n db p := by
  unfold left
  rw [hrows]
  refine congrArg List.sum (List.map_congr_left fun c hc => ?_)
  unfold roomOf
  rw [hphone c hc]

theorem left_of_kept (h : VotersKept db db') : left n db' p = left n db p := by
  refine left_of_phones (by rw [h.challenges]) fun c _ => ?_
  unfold phoneOf
  rw [h.voters]

theorem newCodes_of_rows (h : db'.challenges.rows = db.challenges.rows) :
    newCodes db db' p = [] := by
  unfold newCodes
  rw [h, List.filter_eq_nil_iff]
  intro c hc
  have hget : db.challenges.get? c.id = some c := Table.get?_key hc
  simp [hget]

/-- Changing a voter, but not the number. -/
theorem phoneOf_modify {k : Id} {f : Voter → Voter} {hf : ∀ v, key (f v) = key v}
    (hvoters : db'.voters = db.voters.modify k f hf) (hphone : ∀ v, (f v).phoneE164 = v.phoneE164)
    (c : OTPChallenge) : phoneOf db' c = phoneOf db c := by
  unfold phoneOf
  rw [hvoters, Table.get?_modify]
  split_ifs with hk
  · rw [← hk]
    cases db.voters.get? c.voter with
    | none => rfl
    | some v => exact congrArg some (hphone v)
  · rfl

theorem phoneOf_markVerified {voter : Voter} {now savedAt : Time}
    (hvoters : db'.voters = markVerified db.voters voter now savedAt) (c : OTPChallenge) :
    phoneOf db' c = phoneOf db c := by
  unfold markVerified at hvoters
  split_ifs at hvoters
  · exact phoneOf_modify hvoters (fun _ => rfl) c
  · unfold phoneOf
    rw [hvoters]

theorem phoneOf_setBlocked {voter : Id} {blocked : Bool} {now : Time}
    (hvoters : db'.voters = setBlocked db.voters voter blocked now) (c : OTPChallenge) :
    phoneOf db' c = phoneOf db c :=
  phoneOf_modify hvoters (fun _ => rfl) c

theorem left_without (ids : List Id) : left n (without db ids) p ≤ left n db p := by
  have hroom : ∀ c, roomOf n (without db ids) p c ≤ roomOf n db p c := by
    intro c
    have hphone : phoneOf (without db ids) c = phoneOf db c ∨
        phoneOf (without db ids) c = none := by
      unfold phoneOf without
      rw [Table.get?_filter]
      cases db.voters.get? c.voter with
      | none => exact Or.inl rfl
      | some v =>
        rw [Option.filter_some]
        split_ifs
        · exact Or.inl rfl
        · exact Or.inr rfl
    unfold roomOf
    rcases hphone with h | h
    · rw [h]
    · simp [h]
  calc left n (without db ids) p
      ≤ ((without db ids).challenges.rows.map (roomOf n db p)).sum :=
        List.sum_le_sum fun c _ => hroom c
    _ ≤ left n db p :=
        List.Sublist.sum_le_sum (List.filter_sublist.map _) fun x _ => Nat.zero_le x

theorem left_handle (now : Time) (olderThanHours : ℤ) (execute : Bool) :
    left n (handle db now olderThanHours execute).1 p ≤ left n db p := by
  rcases hcut : cutoff now olderThanHours with _ | before
  · rw [show handle db now olderThanHours execute = (db, none) by simp only [handle, hcut]]
  · cases execute with
    | false => rw [handle_dryRun hcut]
    | true =>
      rw [handle_executed hcut]
      exact left_without _

/-! ### A request for a code, and a verification -/

/-- The voter of a request for a code has the number, and the voters that were stored are as they
were. -/
theorem voters_of_getOrCreate {phone : String} {vk : Keys} {now : Time} {voter : Voter}
    (h : getOrCreateVoter db phone vk now = some (db', voter)) :
    (db'.voters.get? voter.id = some voter ∧ voter.phoneE164 = phone) ∧
      db'.challenges = db.challenges ∧
      ∀ k, (db.voters.get? k).isSome = true → db'.voters.get? k = db.voters.get? k := by
  refine ⟨?_, challenges_getOrCreateVoter h, ?_⟩
  · obtain ⟨hfind, rfl⟩ | ⟨-, hid, hphone, -, hfresh, voters, hrows, rfl⟩ :=
      getOrCreateVoter_cases h
    · obtain ⟨hmem, hphone⟩ := voterByPhone_some hfind
      exact ⟨Table.get?_key hmem, hphone⟩
    · have hmem : voter ∈ voters.rows := by
        rw [hrows]
        exact List.mem_append_right _ (List.mem_singleton_self voter)
      exact ⟨Table.get?_key hmem, hphone⟩
  · intro k hk
    obtain ⟨-, rfl⟩ | ⟨-, -, -, -, -, voters, hrows, rfl⟩ := getOrCreateVoter_cases h
    · rfl
    · obtain ⟨v, hv⟩ := Option.isSome_iff_exists.mp hk
      obtain ⟨hmem, hid⟩ := Table.get?_eq_some.mp hv
      have hmem' : v ∈ voters.rows := by
        rw [hrows]
        exact List.mem_append_left _ hmem
      rw [hv]
      exact Table.get?_eq_some.mpr ⟨hmem', hid⟩

/-- What is new after the transaction of a request for a code. -/
theorem newCodes_of_issue {cfg : OtpSettings} {voter : Voter} {phone code : String}
    {request : Request} {now : Time} {ck ak : Keys}
    (h : issue cfg db voter phone request now (fun _ => true) now code ck ak = some db')
    (hvoter : db.voters.get? voter.id = some voter) :
    newCodes db db' p =
      if voter.phoneE164 = p then [newChallenge cfg voter request now now code ck] else [] := by
  obtain ⟨-, hvoters, hfresh, hrows, -⟩ := issue_eq_some h
  have hold : (db.challenges.rows.map (expire voter.id now fun _ => true)).filter
      (fun c => db.challenges.get? c.id = none ∧ phoneOf db' c = some p) = [] := by
    rw [List.filter_eq_nil_iff]
    intro c' hc'
    obtain ⟨c, hc, rfl⟩ := List.mem_map.mp hc'
    have hget : db.challenges.get? c.id = some c := Table.get?_key hc
    rw [id_expire, hget]
    simp
  have hphone :
      phoneOf db' (newChallenge cfg voter request now now code ck) = some voter.phoneE164 := by
    unfold phoneOf
    rw [hvoters]
    exact congrArg (Option.map Voter.phoneE164) hvoter
  have hnew : db.challenges.get? (newChallenge cfg voter request now now code ck).id = none :=
    hfresh
  unfold newCodes
  rw [hrows, List.filter_append, hold, List.nil_append, List.filter_singleton]
  simp [hnew, hphone]

/-- **What a request for a code sends:** one code at most, for its number. -/
theorem newCodes_requestOtp {cfg : OtpSettings} {cache cache' : Cache Time} {now : Time}
    {phone code : String} {request : Request} {vk ck ak : Keys} {q : Requested}
    (h : requestOtp cfg db cache now phone request code vk ck ak = some (db', cache', q)) :
    (newCodes db db' p).length ≤ if phone = p then 1 else 0 := by
  obtain ⟨db₁, voter, hvoter, hcases⟩ := requestOtp_cases h
  obtain ⟨⟨hself, hphone⟩, hchallenges, -⟩ := voters_of_getOrCreate hvoter
  have hnone : db'.challenges = db₁.challenges → (newCodes db db' p).length ≤ if phone = p then 1
      else 0 := by
    intro hch
    rw [newCodes_of_rows (by rw [hch, hchallenges])]
    exact Nat.zero_le _
  obtain ⟨-, -, -, -, hch⟩ | ⟨-, -, -, -, hch⟩ | ⟨-, -, hissue⟩ := hcases
  · exact hnone hch
  · exact hnone hch
  · have hcodes : newCodes db db' p = newCodes db₁ db' p := by
      unfold newCodes
      rw [hchallenges]
    rw [hcodes, newCodes_of_issue hissue hself, hphone]
    split_ifs <;> rfl

/-- **A request for a code** adds the comparisons of the code that it sends. -/
theorem left_requestOtp {cfg : OtpSettings} {cache cache' : Cache Time} {now : Time}
    {phone code : String} {request : Request} {vk ck ak : Keys} {q : Requested} (hi : Integrity db)
    (h : requestOtp cfg db cache now phone request code vk ck ak = some (db', cache', q)) :
    left cfg.maxAttempts db' p ≤
      left cfg.maxAttempts db p + cfg.maxAttempts * (newCodes db db' p).length := by
  obtain ⟨db₁, voter, hvoter, hcases⟩ := requestOtp_cases h
  obtain ⟨⟨hself, hphone⟩, hchallenges, hold⟩ := voters_of_getOrCreate hvoter
  have hsame : left cfg.maxAttempts db₁ p = left cfg.maxAttempts db p := by
    refine left_of_phones (by rw [hchallenges]) fun c hc => ?_
    unfold phoneOf
    rw [hold _ (hi.challengeVoter c hc _ rfl)]
  obtain ⟨-, -, -, hvoters, hch⟩ | ⟨-, -, -, hvoters, hch⟩ | ⟨-, -, hissue⟩ := hcases
  · rw [left_of_kept ⟨hvoters, hch⟩, hsame]
    exact Nat.le_add_right _ _
  · rw [left_of_kept ⟨hvoters, hch⟩, hsame]
    exact Nat.le_add_right _ _
  · obtain ⟨-, hvoters, -, hrows, -⟩ := issue_eq_some hissue
    have hphones : ∀ c, phoneOf db' c = phoneOf db₁ c := by
      intro c
      unfold phoneOf
      rw [hvoters]
    have hroom : ∀ c ∈ db₁.challenges.rows,
        roomOf cfg.maxAttempts db' p (expire voter.id now (fun _ => true) c) ≤
          roomOf cfg.maxAttempts db₁ p c := by
      intro c _
      obtain ⟨t, -, ht⟩ := expire_eq voter.id now (fun _ => true) c
      unfold roomOf
      rw [hphones, ht]
      exact le_rfl
    have hcodes : newCodes db db' p = newCodes db₁ db' p := by
      unfold newCodes
      rw [hchallenges]
    have hextra :
        ([newChallenge cfg voter request now now code ck].map (roomOf cfg.maxAttempts db' p)).sum ≤
        cfg.maxAttempts * (newCodes db db' p).length := by
      have hnew :
          phoneOf db' (newChallenge cfg voter request now now code ck) = some voter.phoneE164 := by
        rw [hphones]
        exact congrArg (Option.map Voter.phoneE164) hself
      rw [hcodes, newCodes_of_issue hissue hself, List.map_singleton, List.sum_singleton]
      unfold roomOf
      simp only [hnew, Option.some.injEq]
      split_ifs
      · simp
      · simp
    rw [← hsame]
    exact (left_le hrows hroom).trans (Nat.add_le_add_left hextra _)

/-- Whether a code is compared with that of a challenge. -/
def compares (cfg : OtpSettings) (db : Database) (phone : String) (now : Time) : Bool :=
  (choose db (voterByPhone db.voters phone) now).any fun c => decide (c.attempts < cfg.maxAttempts)

/-- The attempts of a challenge are counted: one comparison less is left for its number. -/
theorem left_counted {c : OTPChallenge} {f : OTPChallenge → OTPChallenge}
    (hc : c ∈ db.challenges.rows) (hlt : c.attempts < n)
    (hrows : db'.challenges.rows = db.challenges.rows.map f)
    (hself : (f c).attempts = c.attempts + 1) (hle : ∀ c₀, c₀.attempts ≤ (f c₀).attempts)
    (hphone : ∀ c₀, phoneOf db' (f c₀) = phoneOf db c₀) :
    (if phoneOf db c = some p then 1 else 0) + left n db' p ≤ left n db p := by
  have hroom : ∀ c₀ ∈ db.challenges.rows, roomOf n db' p (f c₀) ≤ roomOf n db p c₀ := by
    intro c₀ _
    have hattempts := hle c₀
    unfold roomOf
    rw [hphone]
    split_ifs
    · omega
    · omega
  have hsum : left n db' p = (db.challenges.rows.map fun c₀ => roomOf n db' p (f c₀)).sum := by
    unfold left
    rw [hrows, List.map_map]
    rfl
  rw [hsum]
  split_ifs with hp
  · have hone : roomOf n db' p (f c) < roomOf n db p c := by
      unfold roomOf
      rw [hphone, if_pos hp, if_pos hp, hself]
      omega
    rw [Nat.add_comm]
    exact List.sum_lt_sum _ _ hroom ⟨c, hc, hone⟩
  · rw [Nat.zero_add]
    exact List.sum_le_sum hroom

/-- **The attempt on a challenge** takes one comparison away, unless none is left on it. -/
theorem left_attempt {cfg : OtpSettings} {voter : Voter} {phone code : String} {request : Request}
    {now : Time} {c : OTPChallenge} {ak : Keys} {o : Outcome} (hc : c ∈ db.challenges.rows)
    (h : attempt cfg db voter phone code request now now c ak = some (db', o)) :
    (if phoneOf db c = some p ∧ c.attempts < cfg.maxAttempts then 1 else 0) +
      left cfg.maxAttempts db' p ≤
      left cfg.maxAttempts db p := by
  obtain ⟨hmax, -, -, hvoters, hch⟩ | ⟨hlt, -, -, -, hvoters, hch⟩ | ⟨hlt, -, -, -, hvoters, hch⟩ :=
    attempt_cases h
  · rw [if_neg fun hand => hmax.not_gt hand.2, left_of_kept ⟨hvoters, hch⟩, Nat.zero_add]
  · simp only [hlt, and_true]
    refine left_counted
      (f := fun c₀ => if c₀.id = c.id then { c₀ with attempts := c₀.attempts + 1 } else c₀)
      hc hlt (by rw [hch]; rfl) (by simp) (fun c₀ => ?_) fun c₀ => ?_
    · split_ifs
      · exact Nat.le_succ _
      · exact le_rfl
    · unfold phoneOf
      rw [hvoters]
      split_ifs <;> rfl
  · simp only [hlt, and_true]
    refine left_counted (f := fun c₀ => if c₀.id = c.id then
      { c₀ with attempts := c₀.attempts + 1, consumedAt := some now, updatedAt := now }
        else c₀) hc hlt ?_
      (by simp) (fun c₀ => ?_) fun c₀ => ?_
    · rw [hch, consume, countAttempt, Table.rows_modify, Table.rows_modify, List.map_map]
      refine List.map_congr_left fun c₀ _ => ?_
      by_cases hk : c₀.id = c.id
      · simp [key, hk]
      · simp [key, hk]
    · split_ifs
      · exact Nat.le_succ _
      · exact le_rfl
    · rw [← phoneOf_markVerified hvoters c₀]
      unfold phoneOf
      split_ifs <;> rfl

/-- **A verification** takes one comparison away when it compares, for its number. -/
theorem left_verifyOtp {cfg : OtpSettings} {now : Time} {phone code : String} {request : Request}
    {ak : Keys} {o : Outcome} {x : Except Common.Exceptions.ApiError Voter}
    (h : verifyOtp cfg db now phone code request ak = some (db', o, x)) :
    (if phone = p ∧ compares cfg db phone now = true then 1 else 0) + left cfg.maxAttempts db' p ≤
      left cfg.maxAttempts db p := by
  obtain ⟨⟨db₁, o₁⟩, hcheck, hd⟩ := Option.map_eq_some_iff.mp h
  obtain ⟨rfl, -⟩ := Prod.mk.inj hd
  unfold compares
  rcases hchoose : choose db (voterByPhone db.voters phone) now with _ | c
  · rw [hchoose] at hcheck
    obtain ⟨-, -, hvoters, hch⟩ := check_of_none (Or.inr rfl) hcheck
    rw [left_of_kept ⟨hvoters, hch⟩]
    simp
  · obtain ⟨v, hv, -, hmem, hopen⟩ := choose_eq_some hchoose
    obtain ⟨hvmem, hvphone⟩ := voterByPhone_some hv
    have hp : phoneOf db c = some phone := by
      have hget : db.voters.get? v.id = some v := Table.get?_key hvmem
      unfold phoneOf
      rw [hopen.1, hget, Option.map_some, hvphone]
    rw [hchoose, hv] at hcheck
    have hle := left_attempt (p := p) hmem hcheck
    simpa only [hp, Option.some.injEq, Option.any_some, decide_eq_true_eq] using hle

end Database

/-! ### Requests -/

/-- The codes of a number that a step sends, each with the body and the instants of its request. -/
def codesIn (p : String) (s : State) : Input → State → List (RequestData × Moment)
  | .request (.otpRequest data ..) _ m, s' => (newCodes s.db s'.db p).map fun _ => (data, m)
  | _, _ => []

/-- The comparisons of a step with a code of a number. -/
def guessesIn (cfg : Config) (p : String) (s : State) : Input → State → List (RequestData × Moment)
  | .request (.otpVerify data) r m, _ =>
    match otpVerifySerializer cfg.phones cfg.otpLength data with
    | .ok (phone, _) =>
      if letThrough cfg s (.otpVerify data) r m ∧ phone = p ∧
        compares cfg.otp s.db phone m.now then [(data, m)]
      else []
    | .error _ => []
  | _, _ => []

/-- The codes of a number that a run sends. -/
def codes (cfg : Config) (p : String) (s : State) (l : List Input) : List (RequestData × Moment) :=
  emitted (step cfg) (codesIn p) s l

/-- The comparisons of a run. -/
def guesses (cfg : Config) (p : String) (s : State)
    (l : List Input) : List (RequestData × Moment) :=
  emitted (step cfg) (guessesIn cfg p) s l

variable {cfg : Config} {s s' : State} {call : Call} {r : HttpRequest} {m : Moment}
  {user : RequestUser}
  {p : String}

/-- **`OTPRequestView.post`** leaves the database, or requests a code for the number of the body. -/
theorem otpRequestPost_cases {data : RequestData} {captcha : String → Option String → Bool}
    {sms : Voting.RequestView.Delivery} {code : String} {vk ck : Keys} {res : Except Stop Unit}
    (h : otpRequestPost cfg s r m data captcha sms code vk ck = some (s', res)) :
    s'.db = s.db ∨ ∃ phone cache q,
      requestedPhone cfg.phones cfg.allowedRegions captcha r.client.clientIp data = .ok phone ∧
        requestOtp cfg.otp s.db s.cache m.now phone (r.client.request .anonymous) code vk ck
          m.entry =
          some (s'.db, cache, q) := by
  obtain ⟨⟨v, y⟩, hpost, hs⟩ := Option.map_eq_some_iff.mp h
  unfold Voting.RequestView.post at hpost
  split at hpost
  · obtain ⟨rfl, -⟩ := Prod.mk.inj (Option.some.inj hpost)
    obtain ⟨rfl, -⟩ := Prod.mk.inj hs
    exact Or.inl rfl
  · next phone hvalid =>
    obtain ⟨⟨db, budget, q⟩, hreq, hv⟩ := Option.map_eq_some_iff.mp hpost
    obtain ⟨rfl, -⟩ := Prod.mk.inj hv
    obtain ⟨rfl, -⟩ := Prod.mk.inj hs
    refine Or.inr ⟨phone, budget, q, ?_, hreq⟩
    unfold Voting.RequestView.validPhone at hvalid
    simp only at hvalid
    split at hvalid
    · cases hvalid
    · next phone' hphone =>
      obtain rfl := Except.ok.inj hvalid
      exact hphone

/-- **`OTPVerifyView.post`** leaves the database, or verifies the number of the body. -/
theorem otpVerifyPost_cases {data : RequestData} {res : Except Stop Unit}
    (h : otpVerifyPost cfg s user r m data = some (s', res)) :
    (s'.db = s.db ∧ ∃ e, otpVerifySerializer cfg.phones cfg.otpLength data = .error e) ∨
      ∃ phone code o x, otpVerifySerializer cfg.phones cfg.otpLength data = .ok (phone, code) ∧
        verifyOtp cfg.otp s.db m.now phone code (r.client.request user.principal) m.entry =
          some (s'.db, o, x) := by
  unfold otpVerifyPost at h
  split at h
  · next e he =>
    obtain ⟨rfl, -⟩ := Prod.mk.inj (Option.some.inj h)
    exact Or.inl ⟨rfl, e, he⟩
  · next phone code hdata =>
    obtain ⟨⟨db, y⟩, hx, hs⟩ := Option.map_eq_some_iff.mp h
    obtain ⟨⟨db', o, x⟩, hverify, hdb⟩ := Option.map_eq_some_iff.mp hx
    obtain ⟨rfl, -⟩ := Prod.mk.inj hs
    obtain ⟨rfl, -⟩ := Prod.mk.inj hdb
    exact Or.inr ⟨phone, code, o, x, hdata, hverify⟩

/-- The requests for codes and the verifications. -/
def isOtp : Call → Bool
  | .otpRequest .. | .otpVerify _ => true
  | _ => false

/-- **The other requests** leave the voters and the challenges. -/
theorem kept_of_request (h : step cfg s (.request call r m) = some s')
    (hcall : isOtp call = false) :
    VotersKept s.db s'.db := by
  cases happens_of_step h with
  | idle hdb | denied _ _ _ _ _ _ _ _ _ _ _ hdb | login _ _ _ _ _ _ _ _ _ _ hdb =>
    exact ⟨by rw [hdb], by rw [hdb]⟩
  | ran _ op _ _ hruns hstep =>
    refine votersKept_of_step hstep ?_
    cases hruns with
    | otpRequest | otpVerify => cases hcall
    | _ => rfl

theorem guessesIn_of_verified {data : RequestData} {phone code : String}
    (h : otpVerifySerializer cfg.phones cfg.otpLength data = .ok (phone, code)) :
    guessesIn cfg p s (.request (.otpVerify data) r m) s' =
      if letThrough cfg s (.otpVerify data) r m ∧ phone = p ∧
      compares cfg.otp s.db phone m.now then [(data, m)]
      else [] := by
  simp only [guessesIn, h]

theorem guessesIn_of_refused {data : RequestData}
    (h : letThrough cfg s (.otpVerify data) r m = false) :
    guessesIn cfg p s (.request (.otpVerify data) r m) s' = [] := by
  simp only [guessesIn, h]
  split <;> simp

/-- A step without a comparison, after which no more is left. -/
theorem spends_of_left {n : ℕ} {db db' : Database} {x y : List (RequestData × Moment)} (hx : x = [])
    (h : left n db' p ≤ left n db p) : x.length + left n db' p ≤ left n db p + n * y.length := by
  rw [hx, List.length_nil]
  omega

/-- **Every step spends what it takes:** each comparison takes one of those that were left, and each
code that is sent adds `maxAttempts`. -/
theorem spends_of_step {i : Input} (hi : Integrity s.db) (h : step cfg s i = some s') :
    (guessesIn cfg p s i s').length + left cfg.otp.maxAttempts s'.db p ≤
      left cfg.otp.maxAttempts s.db p + cfg.otp.maxAttempts * (codesIn p s i s').length := by
  cases i with
  | saveAccount account =>
    obtain rfl := Option.some.inj h
    refine spends_of_left rfl (le_of_eq (left_of_kept ?_))
    unfold saveAccount
    split_ifs
    · exact .refl s.db
    · exact .refl s.db
  | deleteAccount account =>
    obtain rfl := Option.some.inj h
    refine spends_of_left rfl (le_of_eq (left_of_kept ?_))
    unfold deleteAccount
    split_ifs
    · exact .refl s.db
    · exact ⟨rfl, rfl⟩
  | setBlocked voter blocked now =>
    obtain rfl := Option.some.inj h
    refine spends_of_left rfl (le_of_eq (left_of_phones rfl fun c _ => ?_))
    exact phoneOf_setBlocked rfl c
  | purge olderThanHours execute now =>
    obtain rfl := Option.some.inj h
    exact spends_of_left rfl (left_handle now olderThanHours execute)
  | request call r m =>
    obtain ⟨⟨s₁, res⟩, hdispatch, rfl⟩ := Option.map_eq_some_iff.mp h
    cases call with
    | otpRequest data captcha sms code vk ck =>
      show 0 + left _ s₁.db p ≤ left _ s.db p + _ *
        ((newCodes s.db s₁.db p).map fun _ => (data, m)).length
      rw [Nat.zero_add, List.length_map]
      obtain ⟨-, haudit, -⟩ | ⟨user, throttles, -, -, hact⟩ := act_of_dispatch hdispatch
      · exact (left_of_kept (votersKept_of_audit haudit)).trans_le (Nat.le_add_right _ _)
      · obtain hdb | ⟨phone, cache, q, -, hreq⟩ := otpRequestPost_cases hact
        · rw [hdb]
          exact Nat.le_add_right _ _
        · exact left_requestOtp hi hreq
    | otpVerify data =>
      obtain ⟨hnot, haudit, -⟩ | ⟨user, throttles, hthrough, -, hact⟩ := act_of_dispatch hdispatch
      · exact spends_of_left (guessesIn_of_refused hnot)
          (le_of_eq (left_of_kept (votersKept_of_audit haudit)))
      · obtain ⟨hdb, e, he⟩ | ⟨phone, code, o, x, hdata, hverify⟩ := otpVerifyPost_cases hact
        · refine spends_of_left (by simp only [guessesIn, he]) (le_of_eq ?_)
          rw [hdb]
        · have hle := left_verifyOtp (p := p) hverify
          rw [guessesIn_of_verified hdata]
          simp only [hthrough, true_and]
          refine le_trans ?_ (Nat.le_add_right _ _)
          split_ifs at hle ⊢
          · exact hle
          · exact hle
    | _ => exact spends_of_left rfl (le_of_eq (left_of_kept (kept_of_request h rfl)))

/-! ### What the throttles let through -/

/-- A verification reads the number as the throttles count it, for a text of at most 32
characters. -/
theorem phoneIdent_of_verified {lib : PhoneNumbers} {otpLength : ℕ} {data : RequestData}
    {code : String} (h : otpVerifySerializer lib otpLength data = .ok (p, code))
    (hs : ShortText data) :
    phoneIdent lib data = some p := by
  have hverify : verifyPhone lib (data.get "phone") = .ok p := by
    unfold otpVerifySerializer at h
    split at h
    · cases h
    · split at h
      · next hphone _ =>
        cases h
        exact hphone
      · cases h
  obtain ⟨raw, hraw, hlen⟩ := hs
  obtain ⟨value, htext, hvalid⟩ : ∃ value, text phoneField (data.get "phone") = .ok value ∧
      validatePhone lib value = .ok p := by
    unfold verifyPhone at hverify
    cases htext : text phoneField (data.get "phone") with
    | error e =>
      rw [htext] at hverify
      cases hverify
    | ok value =>
      rw [htext] at hverify
      exact ⟨value, rfl, hverify⟩
  obtain ⟨w, hw, hi⟩ := text_eq_ok htext
  obtain rfl : Value.str raw = w := Option.some.inj (hraw.symm.trans hw)
  obtain rfl : strip raw = value := Option.some.inj hi
  have hnorm : normalizePhone lib (strip raw) = .ok p := by
    unfold validatePhone at hvalid
    split at hvalid
    · next phone hnorm =>
      obtain rfl := Except.ok.inj hvalid
      exact hnorm
    · cases hvalid
  have hne : strip raw ≠ "" := strip_strip raw ▸ strip_ne_of_normalize hnorm
  rw [normalizePhone_strip hlen] at hnorm
  rw [phoneIdent_of_str hraw hne, hnorm]

instance (data : RequestData) : Decidable (ShortText data) :=
  match h : data.get "phone" with
  | some (.str raw) =>
    decidable_of_iff (raw.length ≤ maxRawLength) (by simp [ShortText, h])
  | none | some .null | some (.bool _) | some (.int _) | some (.float _) | some .list | some .dict
  | some .file =>
    isFalse (by simp [ShortText, h])

/-- How many of some requests give the number as a text of at most 32 characters, in a window of a
throttle. -/
def textsIn (scope : String) (window : ℕ) (bucket : ℤ)
    (requests : List (RequestData × Moment)) : ℕ :=
  (requests.filter fun x => ShortText x.1 ∧ ⌊x.2.clock scope / (window : ℚ)⌋ = bucket).length

variable {sha256 : Sha256} {scope : String} {limit window : ℕ} {bucket : ℤ}

/-- A request that gets to its action, and that a throttle counts under the number. -/
theorem one_le_passed (hrate : counting cfg.rates scope (some p) = some (p, limit, window))
    (hthrough : letThrough cfg s call r m = true)
    (hpermitted : permitted cfg s call r m = some user)
    (hmem : (scope, some p) ∈ call.throttles cfg.phones r user) :
    1 ≤ passed sha256 scope p ⌊m.clock scope / (window : ℚ)⌋
      (asksIn cfg s (.request call r m) s') := by
  have hask : (⟨scope, p, m.clock scope, limit, window⟩ : Ask) ∈ asksBy cfg s call r m := by
    rw [asksBy_of_permitted hpermitted]
    exact mem_asksOf.mpr ⟨hmem, hrate, rfl⟩
  refine List.length_pos_of_mem (List.mem_filter.mpr ⟨List.mem_map.mpr ⟨_, hask, rfl⟩, ?_⟩)
  rw [hthrough, Bool.true_and, decide_eq_true_eq]
  exact ⟨rfl, rfl, rfl⟩

/-- At most one request, which is counted when it gives the number as a text. -/
theorem textsIn_le {out : List (RequestData × Moment)} {n : ℕ} (hlen : out.length ≤ 1)
    (h : ∀ x ∈ out, ShortText x.1 → ⌊x.2.clock scope / (window : ℚ)⌋ = bucket → 1 ≤ n) :
    textsIn scope window bucket out ≤ n := by
  unfold textsIn
  by_cases hzero :
      (out.filter fun x => ShortText x.1 ∧ ⌊x.2.clock scope / (window : ℚ)⌋ = bucket).length = 0
  · rw [hzero]
    exact Nat.zero_le n
  · obtain ⟨x, hx⟩ := List.exists_mem_of_length_pos (Nat.pos_of_ne_zero hzero)
    obtain ⟨hmem, hp⟩ := List.mem_filter.mp hx
    obtain ⟨hshort, hbucket⟩ := of_decide_eq_true hp
    exact (List.length_filter_le _ _).trans (hlen.trans (h x hmem hshort hbucket))

/-- The throttles of requests for codes that count numbers. -/
def requestScopes : List String := ["otp_request_phone_short", "otp_request_phone_day"]

/-- **The codes of a step** are for requests that were counted and let through. -/
theorem codes_le_passed (hscope : scope ∈ requestScopes)
    (hrate : counting cfg.rates scope (some p) = some (p, limit, window)) {i : Input}
    (h : step cfg s i = some s') :
    textsIn scope window bucket (codesIn p s i s') ≤ passed sha256 scope p bucket
      (asksIn cfg s i s') := by
  cases i with
  | saveAccount | deleteAccount | setBlocked | purge => exact Nat.zero_le _
  | request call r m =>
    obtain ⟨⟨s₁, res⟩, hdispatch, rfl⟩ := Option.map_eq_some_iff.mp h
    cases call with
    | otpRequest data captcha sms code vk ck =>
      show textsIn scope window bucket ((newCodes s.db s₁.db p).map fun _ => (data, m)) ≤ _
      by_cases hnil : newCodes s.db s₁.db p = []
      · rw [hnil]
        exact Nat.zero_le _
      obtain ⟨-, haudit, -⟩ | ⟨user, throttles, hthrough, hpermitted, hact⟩ :=
        act_of_dispatch hdispatch
      · exact absurd (newCodes_of_rows (by rw [(votersKept_of_audit haudit).challenges])) hnil
      obtain hdb | ⟨phone, cache, q, hphone, hreq⟩ := otpRequestPost_cases hact
      · exact absurd (newCodes_of_rows (by rw [hdb])) hnil
      have hlen := newCodes_requestOtp (p := p) hreq
      have hpos := List.length_pos_of_ne_nil hnil
      obtain rfl : phone = p := by
        by_contra hne
        rw [if_neg hne] at hlen
        exact absurd (hpos.trans_le hlen) (lt_irrefl 0)
      rw [if_pos rfl] at hlen
      refine textsIn_le (by rw [List.length_map]; exact hlen) fun x hx hshort hbucket => ?_
      obtain ⟨-, -, rfl⟩ := List.mem_map.mp hx
      have hident := phoneIdent_of_shortText hphone hshort
      have hthrottles : ∀ scope ∈ requestScopes, (scope, some phone) ∈
          (Call.otpRequest data captcha sms code vk ck).throttles cfg.phones r user := by
        simp [requestScopes, Call.throttles, hident]
      rw [← hbucket]
      exact one_le_passed hrate hthrough hpermitted (hthrottles scope hscope)
    | _ => exact Nat.zero_le _

/-- **The comparisons of a step** are for requests that were counted and let through. -/
theorem guesses_le_passed
    (hrate : counting cfg.rates "otp_verify_phone" (some p) = some (p, limit, window)) {i : Input}
    (h : step cfg s i = some s') :
    textsIn "otp_verify_phone" window bucket (guessesIn cfg p s i s') ≤
      passed sha256 "otp_verify_phone" p bucket (asksIn cfg s i s') := by
  cases i with
  | saveAccount | deleteAccount | setBlocked | purge => exact Nat.zero_le _
  | request call r m =>
    obtain ⟨⟨s₁, res⟩, hdispatch, rfl⟩ := Option.map_eq_some_iff.mp h
    cases call with
    | otpVerify data =>
      cases hdata : otpVerifySerializer cfg.phones cfg.otpLength data with
      | error e =>
        simp only [guessesIn, hdata]
        exact Nat.zero_le _
      | ok x =>
        obtain ⟨phone, code⟩ := x
        rw [guessesIn_of_verified hdata]
        split_ifs with hand
        · obtain ⟨hthrough, rfl, -⟩ := hand
          refine textsIn_le le_rfl fun x hx hshort hbucket => ?_
          obtain rfl := List.mem_singleton.mp hx
          obtain ⟨hnot, -⟩ | ⟨user, -, -, hpermitted, -⟩ := act_of_dispatch hdispatch
          · rw [hnot] at hthrough
            cases hthrough
          · rw [← hbucket]
            refine one_le_passed hrate hthrough hpermitted ?_
            simp [Call.throttles, phoneIdent_of_verified hdata hshort]
        · exact Nat.zero_le _
    | _ => exact Nat.zero_le _

/-- **A code is guessed `maxAttempts` times at most, and codes are sent at a limited rate.** In
every run, whatever requests come in whatever order, voters are blocked or purged, the codes of a
number are compared at most as often as was left at the start, and `maxAttempts` times for each code
that is sent for it. From an empty throttle cache whose `incr` keeps the expiry and which evicts
nothing, with usable rates, in a window of a throttle that counts numbers at most its limit of codes
are sent, and at most its limit of comparisons are made, for requests that give the number as a text
of at most 32 characters. -/
theorem guesses_of_run {l : List Input} (hi : Integrity s.db) (hr : run (step cfg) s l = some s')
    (p : String) :
    (guesses cfg p s l).length + left cfg.otp.maxAttempts s'.db p ≤
        left cfg.otp.maxAttempts s.db p + cfg.otp.maxAttempts * (codes cfg p s l).length ∧
      (cfg.sha256 = sha256.hexdigest → Usable cfg.rates cfg.largestTimeout →
        s.throttles = .empty →
        (∀ scope ∈ requestScopes, ∀ limit window,
          counting cfg.rates scope (some p) = some (p, limit, window) →
            ∀ bucket, textsIn scope window bucket (codes cfg p s l) ≤ limit) ∧
        ∀ limit window, counting cfg.rates "otp_verify_phone" (some p) = some (p, limit, window) →
          ∀ bucket, textsIn "otp_verify_phone" window bucket (guesses cfg p s l) ≤ limit) := by
  refine ⟨?_, fun hsha husable h0 => ?_⟩
  · exact spent_of_run (fun t => Integrity t.db) (fun t => left cfg.otp.maxAttempts t.db p)
      cfg.otp.maxAttempts
      (fun _ _ _ hi h => integrity_of_happens hi h) (fun _ _ _ hi h => spends_of_step hi h) hi hr
  have htracks := tracks_of_run hsha husable h0 hr
  have hcodes : ∀ scope ∈ requestScopes, ∀ limit window,
      counting cfg.rates scope (some p) = some (p, limit, window) → ∀ bucket s i s',
        step cfg s i = some s' →
        textsIn scope window bucket (codesIn p s i s') ≤ passed sha256 scope p bucket
          (asksIn cfg s i s') :=
    fun _ hscope _ _ hrate _ _ _ _ h => codes_le_passed hscope hrate h
  have hguesses : ∀ limit window,
      counting cfg.rates "otp_verify_phone" (some p) = some (p, limit, window) → ∀ bucket s i s',
        step cfg s i = some s' → textsIn "otp_verify_phone" window bucket (guessesIn cfg p s i s') ≤
          passed sha256 "otp_verify_phone" p bucket (asksIn cfg s i s') :=
    fun _ _ hrate _ _ _ _ h => guesses_le_passed hrate h
  refine ⟨fun scope hscope limit window hrate bucket => ?_, fun limit window hrate bucket => ?_⟩
  · calc textsIn scope window bucket (codes cfg p s l)
        ≤ passed sha256 scope p bucket (asksOfRun cfg s l) :=
          length_filter_emitted_le (hcodes scope hscope limit window hrate bucket) s l
      _ ≤ limit := passed_le htracks hrate bucket
  · calc textsIn "otp_verify_phone" window bucket (guesses cfg p s l)
        ≤ passed sha256 "otp_verify_phone" p bucket (asksOfRun cfg s l) :=
          length_filter_emitted_le (hguesses limit window hrate bucket) s l
      _ ≤ limit := passed_le htracks hrate bucket

/-- `sha256`, as far as one number goes. -/
def numberDigest : Sha256 where
  hexdigest _ := "7e68ed1fbff891757a23ef26f54dd9de094c47613a21f736deb30c14b70e8127"
  hex _ := by simp

/-- Two codes a day for a number, each compared twice, and no other rate. -/
def twoCodes : Config where
  toConfig := { Platform.demo with otp := { Platform.demo.otp with maxAttempts := 2 } }
  accessToken := demo.accessToken
  allowedRegions := demo.allowedRegions
  otpLength := demo.otpLength
  rates scope := if scope = "otp_request_phone_day" then some "2/1d" else none
  largestTimeout := demo.largestTimeout
  sha256 := numberDigest.hexdigest
  lower := demo.lower
  checkPassword := demo.checkPassword

/-- A code is requested for a number, drawn as `code`. -/
def asksCode (t : Time) (code : String) (entry : ℕ) : Input :=
  .request
    (.otpRequest (kenyanBody (.str "0712 345678")) (fun _ _ => true) .sent code ⟨50, 1⟩
      ⟨80 + entry, entry⟩)
    {} (moment t ⟨90 + entry, entry⟩)

/-- A code is guessed. -/
def guess (t : Time) (code : String) (entry : ℕ) : Input :=
  .request (.otpVerify (.mapping [("phone", .str "0712 345678"), ("code", .str code)])) {}
    (moment t ⟨90 + entry, entry⟩)

/-- Three guesses at a code, two at the next, and a third code that is refused. -/
def guessing : List Input :=
  [asksCode 10 "123456" 1, guess 11 "111111" 2, guess 12 "222222" 3, guess 13 "123456" 4,
    asksCode 20 "654321" 5, guess 21 "123456" 6, asksCode 30 "777777" 7, guess 31 "777777" 8]

theorem usable_twoCodes : Usable twoCodes.rates twoCodes.largestTimeout := by
  intro scope h
  have hrate : (twoCodes.rates scope).getD "" = "2/1d" := by
    by_cases hscope : scope = "otp_request_phone_day"
    · subst hscope
      rfl
    · exact absurd (by simp [twoCodes, hscope]) h
  rw [hrate]
  exact ⟨2, 86400, by decide, by decide, by decide +kernel, by decide⟩

theorem guesses_of_run_guessing : ∃ s, run (step twoCodes) (fresh {}) guessing = some s ∧
    ((codes twoCodes "+254712345678" (fresh {}) guessing).length = 2 ∧
      (guesses twoCodes "+254712345678" (fresh {}) guessing).length = 4) ∧
    (guesses twoCodes "+254712345678" (fresh {}) guessing).length + left 2 s.db "+254712345678" ≤
      0 + 2 * 2 ∧
    textsIn "otp_request_phone_day" 86400 0
      (codes twoCodes "+254712345678" (fresh {}) guessing) ≤ 2 := by
  have hrun : (run (step twoCodes) (fresh {}) guessing).map (fun _ =>
      ((codes twoCodes "+254712345678" (fresh {}) guessing).length,
        (guesses twoCodes "+254712345678" (fresh {}) guessing).length)) = some (2, 4) := by
          decide +kernel
  obtain ⟨s, hs, hcounts⟩ := Option.map_eq_some_iff.mp hrun
  obtain ⟨hcodes, hguesses⟩ := Prod.mk.inj hcounts
  have hsha : twoCodes.sha256 = numberDigest.hexdigest := rfl
  obtain ⟨hspent, hwindows⟩ := guesses_of_run stored_fresh.database hs "+254712345678"
  obtain ⟨hrequests, -⟩ := hwindows hsha usable_twoCodes rfl
  rw [hcodes] at hspent
  exact ⟨s, hs, ⟨hcodes, hguesses⟩, hspent, hrequests "otp_request_phone_day" (by decide) 2 86400
    (by decide +kernel) 0⟩

end KwAwards.Api.GuessLimits
