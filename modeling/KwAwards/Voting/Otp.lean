import KwAwards.Common.SmsBudget

/-! # One-time codes

`requestOtp` and `verifyOtp`, each built from the statements it is made of, which the concurrent
model takes one by one: `getOrCreateVoter`, `reserve` and `issue` (the transaction that expires the
open challenges and inserts a new one) on one side, the choice of a challenge and `check` (the
transaction on the chosen row) on the other. Codes come from outside; the SMS leaves no trace in the
database.

A function returns `none` only when a key it is given for a new row is taken. -/

namespace KwAwards.Voting.Otp

open KwAwards.Lib.Tables KwAwards.Lib.Counters KwAwards.Common.Base KwAwards.Common.Exceptions
open KwAwards.Common.SmsBudget KwAwards.Audit.Log KwAwards.Voting.Models KwAwards.Store

/-- The settings and the keyed hashes. -/
structure OtpSettings where
  ttlSeconds : ℕ := 300
  maxAttempts : ℕ := 5
  smsDailyLimit : ℕ := 5000
  hashCode : Id → String → String
  hashPhone : String → String

variable (cfg : OtpSettings)

/-! ### Requesting a code -/

/-- `Voter.objects.get_or_create`. -/
def getOrCreateVoter (db : Database) (phoneE164 : String) (k : Keys) (now : Time) :
    Option (Database × Voter) :=
  match voterByPhone db.voters phoneE164 with
  | some voter => some (db, voter)
  | none =>
    let voter := { id := k.id, phoneE164, seq := k.seq, createdAt := now, updatedAt := now }
    (db.voters.insert voter).map fun voters => ({ db with voters }, voter)

/-- The entry for a blocked voter, who is sent nothing. -/
def logBlocked (db : Database) (voter : Voter) (phoneE164 : String) (request : Request) (now : Time)
    (ak : Keys) : Option Database :=
  db.write (voterEvent cfg.hashPhone ak now .otpRequested (some voter) phoneE164 request none
    [("sent", .bool false), ("blocked", .bool true)])

/-- An unconsumed challenge of the voter that expires after `now`. -/
def OpenFor (voter : Id) (now : Time) (c : OTPChallenge) : Prop :=
  c.voter = voter ∧ c.consumedAt = none ∧ now < c.expiresAt

instance (voter : Id) (now : Time) (c : OTPChallenge) : Decidable (OpenFor voter now c) := by
  unfold OpenFor; infer_instance

/-- The row after the expiring `UPDATE`, which reaches the rows its snapshot sees. -/
def expire (voter : Id) (now : Time) (seen : Id → Bool) (c : OTPChallenge) : OTPChallenge :=
  if seen c.id ∧ OpenFor voter now c then { c with expiresAt := now } else c

/-- The expiring `UPDATE`. -/
def expireOpen (t : Table OTPChallenge) (voter : Id) (now : Time) (seen : Id → Bool) :
    Table OTPChallenge :=
  t.map (expire voter now seen) fun c => by unfold expire; split_ifs <;> rfl

/-- The row `request_otp` saves at the instant `savedAt`. -/
def newChallenge (voter : Voter) (request : Request) (now savedAt : Time) (code : String)
    (k : Keys) : OTPChallenge where
  id := k.id
  voter := voter.id
  codeHash := cfg.hashCode k.id code
  purpose := .voteLogin
  expiresAt := now + seconds cfg.ttlSeconds
  requestedIp := request.clientIp
  userAgent := slice 300 request.userAgent
  seq := k.seq
  createdAt := savedAt
  updatedAt := savedAt

/-- `label_lower` and primary key of a challenge. -/
def challengeTarget (c : Id) : Target := ⟨"voting.otpchallenge", c⟩

/-- The transaction of `request_otp`: the open challenges that it sees expire, a new one is
there. -/
def issue (db : Database) (voter : Voter) (phoneE164 : String) (request : Request) (now : Time)
    (seen : Id → Bool) (savedAt : Time) (code : String) (ck ak : Keys) : Option Database :=
  ((expireOpen db.challenges voter.id now seen).insert
    (newChallenge cfg voter request now savedAt code ck)).bind fun challenges =>
      { db with challenges }.write (voterEvent cfg.hashPhone ak savedAt .otpRequested (some voter)
        phoneE164 request (some (challengeTarget ck.id)) [("sent", .bool true)])

/-- How a request ends. -/
inductive Requested
  | blocked
  | refused (e : ApiError)
  | granted (challenge : Id)
  deriving DecidableEq, Repr

/-- What the caller sees: a blocked voter's request returns like any other. -/
def Requested.result : Requested → Except ApiError Unit
  | .refused e => .error e
  | _ => .ok ()

/-- **`request_otp`**, executed at the instant `now`; `code` is what `generate_code` returns. -/
def requestOtp (db : Database) (cache : Cache Time) (now : Time) (phoneE164 : String)
    (request : Request) (code : String) (vk ck ak : Keys) :
    Option (Database × Cache Time × Requested) :=
  (getOrCreateVoter db phoneE164 vk now).bind fun (db, voter) =>
    if voter.isBlocked then
      (logBlocked cfg db voter phoneE164 request now ak).map fun db => (db, cache, .blocked)
    else
      (reserve cfg.hashPhone cfg.smsDailyLimit db cache now voter phoneE164 request ak).bind
        fun (db, cache, r) =>
          match r with
          | .error e => some (db, cache, .refused e)
          | .ok () =>
            (issue cfg db voter phoneE164 request now (fun _ => true) now code ck ak).map
              fun db => (db, cache, .granted ck.id)

/-! ### Verifying a code -/

/-- How a verification ends. -/
inductive Outcome
  | succeeded (challenge : Id)
  | invalidCode (challenge : Id)
  | attemptsExhausted (challenge : Id)
  | noActiveChallenge
  | blocked
  deriving DecidableEq, Repr

/-- The `reason` of an `OTP_FAILED` entry. -/
def Outcome.reason : Outcome → String
  | .succeeded _ | .noActiveChallenge => "no_active_challenge"
  | .invalidCode _ => "invalid_code"
  | .attemptsExhausted _ => "attempts_exhausted"
  | .blocked => "blocked"

def Outcome.isSuccess : Outcome → Bool
  | .succeeded _ => true
  | _ => false

/-- `order_by("-created_at").first()`. -/
def newest (rows : List OTPChallenge) : Option OTPChallenge := rows.argmax OTPChallenge.createdAt

/-- The challenge that is checked: none for a voter who is blocked. -/
def choose (db : Database) (voter : Option Voter) (now : Time) : Option OTPChallenge :=
  voter.bind fun v =>
    if v.isBlocked then none else newest (db.challenges.rows.filter fun c => OpenFor v.id now c)

/-- `UPDATE … SET attempts = attempts + 1`. -/
def countAttempt (t : Table OTPChallenge) (challenge : Id) : Table OTPChallenge :=
  t.modify challenge (fun c => { c with attempts := c.attempts + 1 }) fun _ => rfl

/-- `challenge.save(update_fields=["consumed_at", "updated_at"])`. -/
def consume (t : Table OTPChallenge) (challenge : Id) (now savedAt : Time) : Table OTPChallenge :=
  t.modify challenge (fun c => { c with consumedAt := some now, updatedAt := savedAt }) fun _ => rfl

/-- The voter is verified from now on, unless the instance says it is already. -/
def markVerified (t : Table Voter) (voter : Voter) (now savedAt : Time) : Table Voter :=
  if voter.verifiedAt = none then
    t.modify voter.id (fun v => { v with verifiedAt := some now, updatedAt := savedAt })
      fun _ => rfl
  else t

/-- The end of a call that did not succeed. -/
def logFailed (db : Database) (voter : Option Voter) (phoneE164 : String) (request : Request)
    (savedAt : Time) (ak : Keys) (o : Outcome) (attempts : ℕ) : Option (Database × Outcome) :=
  (db.write (voterEvent cfg.hashPhone ak savedAt .otpFailed voter phoneE164 request none
    [("reason", .str o.reason), ("attempts", .num attempts)])).map fun db => (db, o)

/-- The code against the challenge `c`: the attempt is counted before the comparison. -/
def attempt (db : Database) (voter : Voter) (phoneE164 code : String) (request : Request)
    (now savedAt : Time) (c : OTPChallenge) (ak : Keys) : Option (Database × Outcome) :=
  if cfg.maxAttempts ≤ c.attempts then
    logFailed cfg db (some voter) phoneE164 request savedAt ak (.attemptsExhausted c.id) c.attempts
  else
    let counted := countAttempt db.challenges c.id
    if c.codeHash = cfg.hashCode c.id code then
      ({ db with
          challenges := consume counted c.id now savedAt
          voters := markVerified db.voters voter now savedAt }.write
        (log ak savedAt .otpVerified (some request) none (some voter.id)
          (some (challengeTarget c.id))
          [("phone_masked", .str (maskPhone phoneE164)), ("attempts", .num (c.attempts + 1))])).map
        fun db => (db, .succeeded c.id)
    else
      logFailed cfg { db with challenges := counted } (some voter) phoneE164 request savedAt ak
        (.invalidCode c.id) (c.attempts + 1)

/-- The transaction of `verify_otp` on the challenge it has locked. -/
def check (db : Database) (voter : Option Voter) (phoneE164 code : String) (request : Request)
    (now savedAt : Time) (challenge : Option OTPChallenge) (ak : Keys) :
    Option (Database × Outcome) :=
  match voter, challenge with
  | some v, some c => attempt cfg db v phoneE164 code request now savedAt c ak
  | _, _ =>
    let o := if voter.any Voter.isBlocked then Outcome.blocked else .noActiveChallenge
    logFailed cfg db voter phoneE164 request savedAt ak o 0

/-- What the caller sees: the voter instance, or the same error whatever went wrong. -/
def result (voter : Option Voter) (now savedAt : Time) (o : Outcome) : Except ApiError Voter :=
  match o, voter with
  | .succeeded _, some v =>
    .ok (if v.verifiedAt = none then { v with verifiedAt := some now, updatedAt := savedAt } else v)
  | _, _ => .error .invalidOTP

/-- **`verify_otp`**, executed at the instant `now`. -/
def verifyOtp (db : Database) (now : Time) (phoneE164 code : String) (request : Request)
    (ak : Keys) : Option (Database × Outcome × Except ApiError Voter) :=
  let voter := voterByPhone db.voters phoneE164
  (check cfg db voter phoneE164 code request now now (choose db voter now) ak).map
    fun (db, o) => (db, o, result voter now now o)

/-- Blocking or unblocking a voter in the admin. -/
def setBlocked (t : Table Voter) (voter : Id) (blocked : Bool) (now : Time) : Table Voter :=
  t.modify voter (fun v => { v with isBlocked := blocked, updatedAt := now }) fun _ => rfl

/-! ### What the functions do -/

variable {cfg} {db db' : Database} {phoneE164 code : String} {request : Request}
  {now savedAt : Time}
  {vk ck ak : Keys}

theorem id_expire (voter : Id) (now : Time) (seen : Id → Bool) (c : OTPChallenge) :
    (expire voter now seen c).id = c.id := by
  unfold expire; split_ifs <;> rfl

theorem voter_expire (voter : Id) (now : Time) (seen : Id → Bool) (c : OTPChallenge) :
    (expire voter now seen c).voter = c.voter := by
  unfold expire; split_ifs <;> rfl

/-- Expiring changes the instant a row expires, and only to an earlier one. -/
theorem expire_eq (voter : Id) (now : Time) (seen : Id → Bool) (c : OTPChallenge) :
    ∃ t ≤ c.expiresAt, expire voter now seen c = { c with expiresAt := t } := by
  unfold expire
  split_ifs with h
  · exact ⟨now, h.2.2.2.le, rfl⟩
  · exact ⟨c.expiresAt, le_rfl, rfl⟩

/-- After the `UPDATE` no challenge of the voter that it saw is open. -/
theorem not_openFor_expire {voter : Id} {seen : Id → Bool} {c : OTPChallenge}
    (hs : seen c.id = true) : ¬ OpenFor voter now (expire voter now seen c) := by
  unfold expire
  split_ifs with h
  · exact fun ho => lt_irrefl _ ho.2.2
  · exact fun ho => h ⟨hs, ho⟩

theorem expire_of_ne {voter : Id} {seen : Id → Bool} {c : OTPChallenge} (h : c.voter ≠ voter) :
    expire voter now seen c = c :=
  if_neg fun ho => h ho.2.1

/-- **The voter of a request** is the stored one, or new in the place of nobody. -/
theorem getOrCreateVoter_cases {voter : Voter}
    (h : getOrCreateVoter db phoneE164 vk now = some (db', voter)) :
    (voterByPhone db.voters phoneE164 = some voter ∧ db' = db) ∨
      (voterByPhone db.voters phoneE164 = none ∧ voter.id = vk.id ∧ voter.phoneE164 = phoneE164 ∧
        voter.isBlocked = false ∧ db.voters.get? vk.id = none ∧
        ∃ voters, voters.rows = db.voters.rows ++ [voter] ∧ db' = { db with voters }) := by
  unfold getOrCreateVoter at h
  split at h
  · next v hv =>
    obtain ⟨rfl, rfl⟩ := Prod.mk.inj (Option.some.inj h)
    exact Or.inl ⟨hv, rfl⟩
  · next hv =>
    obtain ⟨voters, hi, he⟩ := Option.map_eq_some_iff.mp h
    obtain ⟨rfl, rfl⟩ := Prod.mk.inj he
    obtain ⟨hk, hr⟩ := Table.insert_eq_some.mp hi
    exact Or.inr ⟨hv, rfl, rfl, rfl, hk, voters, hr, rfl⟩

theorem challenges_getOrCreateVoter {voter : Voter}
    (h : getOrCreateVoter db phoneE164 vk now = some (db', voter)) :
    db'.challenges = db.challenges := by
  rcases getOrCreateVoter_cases h with ⟨-, rfl⟩ | ⟨-, -, -, -, -, voters, -, rfl⟩
  · rfl
  · rfl

/-- **The transaction of a request** on the tables. -/
theorem issue_eq_some {voter : Voter} {seen : Id → Bool}
    (h : issue cfg db voter phoneE164 request now seen savedAt code ck ak = some db') :
    Logged db db' .otpRequested ∧ db'.voters = db.voters ∧ db.challenges.get? ck.id = none ∧
      db'.challenges.rows = db.challenges.rows.map (expire voter.id now seen) ++
        [newChallenge cfg voter request now savedAt code ck] ∧
      ∀ k, db'.challenges.get? k = if k = ck.id then
        some (newChallenge cfg voter request now savedAt code ck)
        else (db.challenges.get? k).map (expire voter.id now seen) := by
  obtain ⟨challenges, hi, hw⟩ := Option.bind_eq_some_iff.mp h
  obtain ⟨⟨e, he, ha⟩, audit, rfl⟩ := write_voterEvent hw
  obtain ⟨hk, hr⟩ := Table.insert_eq_some.mp hi
  have hget : ∀ k, (expireOpen db.challenges voter.id now seen).get? k =
      (db.challenges.get? k).map (expire voter.id now seen) := fun k => Table.get?_map ..
  refine ⟨⟨e, he, ha⟩, rfl, ?_, hr, fun k => ?_⟩
  · have hk' : (expireOpen db.challenges voter.id now seen).get? ck.id = none := hk
    rw [hget] at hk'
    exact Option.map_eq_none_iff.mp hk'
  · rw [← hget]
    exact Table.get?_of_insert hi k

/-- **How `request_otp` goes:** past the voter it is blocked, refused by the budget, or granted. -/
theorem requestOtp_cases {cache cache' : Cache Time} {r : Requested}
    (h : requestOtp cfg db cache now phoneE164 request code vk ck ak = some (db', cache', r)) :
    ∃ db₁ voter, getOrCreateVoter db phoneE164 vk now = some (db₁, voter) ∧
      ((voter.isBlocked = true ∧ r = .blocked ∧ Logged db₁ db' .otpRequested ∧
          db'.voters = db₁.voters ∧ db'.challenges = db₁.challenges) ∨
        (voter.isBlocked = false ∧
          r = .refused (.smsBudgetExhausted (secondsUntilNextNairobiDay now)) ∧
          Logged db₁ db' .smsBudgetExhausted ∧
          db'.voters = db₁.voters ∧ db'.challenges = db₁.challenges) ∨
        (voter.isBlocked = false ∧ r = .granted ck.id ∧
          issue cfg db₁ voter phoneE164 request now (fun _ => true) now code ck ak =
            some db')) := by
  obtain ⟨⟨db₁, voter⟩, hv, h⟩ := Option.bind_eq_some_iff.mp h
  refine ⟨db₁, voter, hv, ?_⟩
  simp only at h
  split_ifs at h with hb
  · obtain ⟨d, hw, hd⟩ := Option.map_eq_some_iff.mp h
    obtain ⟨rfl, hr⟩ := Prod.mk.inj hd
    obtain ⟨hl, audit, rfl⟩ := write_voterEvent hw
    exact Or.inl ⟨hb, (Prod.mk.inj hr).2.symm, hl, rfl, rfl⟩
  · rw [Bool.not_eq_true] at hb
    obtain ⟨⟨db₂, cache₂, r₂⟩, hres, hg⟩ := Option.bind_eq_some_iff.mp h
    rcases reserve_cases hres with ⟨rfl, rfl⟩ | ⟨rfl, hl, audit, rfl⟩
    · obtain ⟨d, hi, hd⟩ := Option.map_eq_some_iff.mp hg
      obtain ⟨rfl, hr⟩ := Prod.mk.inj hd
      exact Or.inr (Or.inr ⟨hb, (Prod.mk.inj hr).2.symm, hi⟩)
    · obtain ⟨rfl, hr⟩ := Prod.mk.inj (Option.some.inj hg)
      exact Or.inr (Or.inl ⟨hb, (Prod.mk.inj hr).2.symm, hl, rfl, rfl⟩)

theorem logFailed_eq_some {voter : Option Voter} {o o' : Outcome} {attempts : ℕ}
    (h : logFailed cfg db voter phoneE164 request savedAt ak o attempts = some (db', o')) :
    o' = o ∧ Logged db db' .otpFailed ∧ db'.voters = db.voters ∧
    db'.challenges = db.challenges := by
  obtain ⟨d, hw, hd⟩ := Option.map_eq_some_iff.mp h
  obtain ⟨rfl, rfl⟩ := Prod.mk.inj hd
  obtain ⟨hl, audit, rfl⟩ := write_voterEvent hw
  exact ⟨rfl, hl, rfl, rfl⟩

theorem get?_countAttempt {t : Table OTPChallenge} {c : OTPChallenge} (hc : t.get? c.id = some c)
    (k : Id) : (countAttempt t c.id).get? k =
      if k = c.id then some { c with attempts := c.attempts + 1 } else t.get? k := by
  rw [countAttempt, Table.get?_modify, hc]
  rfl

theorem get?_consume {t : Table OTPChallenge} {c : OTPChallenge} (hc : t.get? c.id = some c)
    (k : Id) : (consume (countAttempt t c.id) c.id now savedAt).get? k =
      if k = c.id then
        some { c with attempts := c.attempts + 1, consumedAt := some now, updatedAt := savedAt }
      else t.get? k := by
  rw [consume, Table.get?_modify, get?_countAttempt hc, get?_countAttempt hc]
  split_ifs <;> first | rfl | contradiction

/-- **What the transaction on a challenge does:** the limit is reached and nothing changes, or the
attempt is counted and the code is wrong, or it is right and the challenge is used up. -/
theorem attempt_cases {voter : Voter} {c : OTPChallenge} {o : Outcome}
    (h : attempt cfg db voter phoneE164 code request now savedAt c ak = some (db', o)) :
    (cfg.maxAttempts ≤ c.attempts ∧ o = .attemptsExhausted c.id ∧ Logged db db' .otpFailed ∧
        db'.voters = db.voters ∧ db'.challenges = db.challenges) ∨
      (c.attempts < cfg.maxAttempts ∧ c.codeHash ≠ cfg.hashCode c.id code ∧
        o = .invalidCode c.id ∧ Logged db db' .otpFailed ∧ db'.voters = db.voters ∧
        db'.challenges = countAttempt db.challenges c.id) ∨
      (c.attempts < cfg.maxAttempts ∧ c.codeHash = cfg.hashCode c.id code ∧
        o = .succeeded c.id ∧ Logged db db' .otpVerified ∧
        db'.voters = markVerified db.voters voter now savedAt ∧
        db'.challenges = consume (countAttempt db.challenges c.id) c.id now savedAt) := by
  unfold attempt at h
  split_ifs at h with hmax hc
  · obtain ⟨rfl, hl, hv, hch⟩ := logFailed_eq_some h
    exact Or.inl ⟨hmax, rfl, hl, hv, hch⟩
  · obtain ⟨d, hw, hd⟩ := Option.map_eq_some_iff.mp h
    obtain ⟨rfl, rfl⟩ := Prod.mk.inj hd
    obtain ⟨e, audit, he, -, ha, rfl⟩ := Database.write_eq_some hw
    exact Or.inr (Or.inr ⟨not_le.mp hmax, hc, rfl, ⟨e, ha, (log_eq_some he).2.2.1⟩, rfl, rfl⟩)
  · obtain ⟨rfl, hl, hv, hch⟩ := logFailed_eq_some h
    exact Or.inr (Or.inl ⟨not_le.mp hmax, hc, rfl, hl, hv, hch⟩)

theorem choose_eq_some {voter : Option Voter} {c : OTPChallenge}
    (h : choose db voter now = some c) : ∃ v, voter = some v ∧ v.isBlocked = false ∧
      c ∈ db.challenges.rows ∧ OpenFor v.id now c := by
  obtain ⟨v, rfl, hv⟩ := Option.bind_eq_some_iff.mp h
  split_ifs at hv with hb
  have hmem : c ∈ db.challenges.rows.filter fun c => decide (OpenFor v.id now c) :=
    List.argmax_mem (Option.mem_def.mpr hv)
  obtain ⟨hc, ho⟩ := List.mem_filter.mp hmem
  have hunblocked : v.isBlocked = false := by simpa using hb
  exact ⟨v, rfl, hunblocked, hc, of_decide_eq_true ho⟩

/-- An unblocked voter with an open challenge has one that is chosen. -/
theorem choose_ne_none {v : Voter} {c : OTPChallenge} (hb : v.isBlocked = false)
    (hc : c ∈ db.challenges.rows) (ho : OpenFor v.id now c) : choose db (some v) now ≠ none := by
  intro h
  have hnil : newest (db.challenges.rows.filter fun c => OpenFor v.id now c) = none := by
    simpa [choose, hb] using h
  have hmem : c ∈ db.challenges.rows.filter fun c => decide (OpenFor v.id now c) :=
    List.mem_filter.mpr ⟨hc, decide_eq_true ho⟩
  rw [List.argmax_eq_none.mp hnil] at hmem
  simp at hmem

/-- **What the transaction of a verification does** when there is no challenge to check. -/
theorem check_of_none {voter : Option Voter} {challenge : Option OTPChallenge} {o : Outcome}
    (hn : voter = none ∨ challenge = none)
    (h : check cfg db voter phoneE164 code request now savedAt challenge ak = some (db', o)) :
    o = (if voter.any Voter.isBlocked then Outcome.blocked else .noActiveChallenge) ∧
      Logged db db' .otpFailed ∧ db'.voters = db.voters ∧ db'.challenges = db.challenges := by
  rcases voter with _ | v <;> rcases challenge with _ | c
  · exact logFailed_eq_some h
  · exact logFailed_eq_some h
  · exact logFailed_eq_some h
  · simp at hn

/-- **How `verify_otp` goes:** there is no challenge to check, or it is the chosen one. -/
theorem verifyOtp_cases {o : Outcome} {r : Except ApiError Voter}
    (h : verifyOtp cfg db now phoneE164 code request ak = some (db', o, r)) :
    r = result (voterByPhone db.voters phoneE164) now now o ∧
      ((choose db (voterByPhone db.voters phoneE164) now = none ∧ o.isSuccess = false ∧
          Logged db db' .otpFailed ∧ db'.voters = db.voters ∧ db'.challenges = db.challenges) ∨
        ∃ v c, voterByPhone db.voters phoneE164 = some v ∧ v.isBlocked = false ∧
          c ∈ db.challenges.rows ∧ OpenFor v.id now c ∧
          attempt cfg db v phoneE164 code request now now c ak = some (db', o)) := by
  obtain ⟨⟨d, o'⟩, hc, hd⟩ := Option.map_eq_some_iff.mp h
  obtain ⟨rfl, hor⟩ := Prod.mk.inj hd
  obtain ⟨rfl, rfl⟩ := Prod.mk.inj hor
  refine ⟨rfl, ?_⟩
  rcases hch : choose db (voterByPhone db.voters phoneE164) now with _ | c
  · rw [hch] at hc
    obtain ⟨rfl, hl, hv, hcs⟩ := check_of_none (Or.inr rfl) hc
    refine Or.inl ⟨rfl, ?_, hl, hv, hcs⟩
    split_ifs <;> rfl
  · obtain ⟨v, hv, hb, hmem, ho⟩ := choose_eq_some hch
    rw [hch, hv] at hc
    exact Or.inr ⟨v, c, hv, hb, hmem, ho, hc⟩

/-- The voter is returned exactly by the calls that succeed; the others raise the same error. -/
theorem result_of_isSuccess {voter : Option Voter} {o : Outcome} (h : o.isSuccess = false) :
    result voter now savedAt o = .error .invalidOTP := by
  cases o with
  | succeeded k => simp [Outcome.isSuccess] at h
  | _ => rfl

theorem logFailed_isSome {voter : Option Voter} {o : Outcome} {attempts : ℕ}
    (hk : db.audit.get? ak.id = none) :
    (logFailed cfg db voter phoneE164 request savedAt ak o attempts).isSome = true := by
  have hr : forbiddenMetadataKeys.contains (lower "reason") = false := by decide
  have ha : forbiddenMetadataKeys.contains (lower "attempts") = false := by decide
  have hm : ∀ kv ∈ [("reason", MetaValue.str o.reason), ("attempts", MetaValue.num attempts)],
      forbiddenMetadataKeys.contains (lower kv.1) = false := by
    intro kv hkv
    rcases List.mem_cons.mp hkv with rfl | hkv
    · exact hr
    · rw [List.mem_singleton.mp hkv]; exact ha
  obtain ⟨e, he, hid⟩ := voterEvent_isSome cfg.hashPhone hm
  have hfresh : db.audit.get? e.id = none := by rw [hid]; exact hk
  obtain ⟨d, hd⟩ := Database.write_of_fresh hfresh
  unfold logFailed
  rw [he, hd]
  rfl

theorem attempt_isSome {voter : Voter} {c : OTPChallenge} (hk : db.audit.get? ak.id = none) :
    (attempt cfg db voter phoneE164 code request now savedAt c ak).isSome = true := by
  have hp : forbiddenMetadataKeys.contains (lower "phone_masked") = false := by decide
  have ha : forbiddenMetadataKeys.contains (lower "attempts") = false := by decide
  have hm : ∀ kv ∈ [("phone_masked", MetaValue.str (maskPhone phoneE164)),
      ("attempts", MetaValue.num (c.attempts + 1))],
      forbiddenMetadataKeys.contains (lower kv.1) = false := by
    intro kv hkv
    rcases List.mem_cons.mp hkv with rfl | hkv
    · exact hp
    · rw [List.mem_singleton.mp hkv]; exact ha
  unfold attempt
  split_ifs
  · exact logFailed_isSome hk
  · obtain ⟨e, he, hid⟩ := log_of_clean ak savedAt .otpVerified (some request) none (some voter.id)
      (some (challengeTarget c.id)) hm
    have hfresh : db.audit.get? e.id = none := by rw [hid]; exact hk
    obtain ⟨d, hd⟩ := @Database.write_of_fresh { db with
        challenges := consume (countAttempt db.challenges c.id) c.id now savedAt
        voters := markVerified db.voters voter now savedAt } e hfresh
    simp only [he, hd, Option.map_some, Option.isSome_some]
  · exact logFailed_isSome hk

/-- **A verification returns** whatever the code is, given a fresh key for its entry. -/
theorem verifyOtp_isSome (hk : db.audit.get? ak.id = none) :
    (verifyOtp cfg db now phoneE164 code request ak).isSome = true := by
  unfold verifyOtp
  rw [Option.isSome_map]
  unfold check
  split
  · exact attempt_isSome hk
  · exact logFailed_isSome hk

end KwAwards.Voting.Otp
