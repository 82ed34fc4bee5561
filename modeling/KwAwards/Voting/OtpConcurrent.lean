import KwAwards.Lib.Run
import KwAwards.Voting.Otp

/-! # Concurrent calls of the OTP services

Any number of calls of `request_otp` and `verify_otp` run interleaved over one database under an
advancing clock, at PostgreSQL's default isolation level. A statement sees what was committed when
it started, and waits for the locks of the rows it changes or locks; then it looks at their latest
version again.

* A request gets its voter (`request`), reserves an SMS (`reserve`), reads the clock and makes a
  code (`start`), starts its expiring `UPDATE` (`update`), saves its challenge (`save`) and commits
  (`commit`). The rows that the `UPDATE` changes stay locked until the commit and the insert is
  invisible before it, so both take effect there; `seen` are the challenges committed when the
  `UPDATE` started.
* A verification reads the clock (`verify`) and the voter (`find`) and starts its locking `SELECT`
  (`select`); once it holds the lock of a row that still qualifies, nobody else touches that row
  before its commit, so what follows is one step (`finish`). Among equally new rows any may come
  first.

`Moves` lists everything a step can do to the challenges. -/

namespace KwAwards.Voting.OtpConcurrent

open KwAwards.Lib.Tables KwAwards.Lib.Counters KwAwards.Lib.Run KwAwards.Common.Base
open KwAwards.Common.Exceptions KwAwards.Common.SmsBudget KwAwards.Voting.Models KwAwards.Store
open KwAwards.Voting.Otp

structure RequestArgs where
  phoneE164 : String
  request : Request
  deriving DecidableEq, Repr

structure VerifyArgs where
  phoneE164 : String
  code : String
  request : Request
  deriving DecidableEq, Repr

/-- A request with its voter, its clock reading and its code. -/
structure Issuing where
  args : RequestArgs
  voter : Voter
  now : Time
  code : String
  deriving DecidableEq, Repr

/-- Where a call stands. -/
inductive Phase
  | idle
  | arrived (a : RequestArgs) (voter : Voter)
  | reserved (a : RequestArgs) (voter : Voter)
  | begun (q : Issuing)
  | updated (q : Issuing) (seen : List Id)
  | saved (q : Issuing) (seen : List Id) (savedAt : Time)
  | issued (q : Issuing) (challenge : Id)
  | turnedAway (a : RequestArgs) (r : Requested)
  | asked (a : VerifyArgs) (now : Time)
  | found (a : VerifyArgs) (now : Time) (voter : Option Voter)
  | selected (a : VerifyArgs) (now : Time) (voter : Voter) (seen : List Id)
  | verified (a : VerifyArgs) (o : Outcome) (r : Except ApiError Voter)

/-- The database, the shared cache, the clock and the calls. -/
structure State where
  db : Database
  cache : Cache Time
  now : Time
  calls : ℕ → Phase

/-- No call has come yet, and there is no challenge. -/
structure State.Fresh (s : State) : Prop where
  idle : ∀ i, s.calls i = .idle
  empty : s.db.challenges.rows = []

def State.setCall (s : State) (i : ℕ) (p : Phase) : State :=
  { s with calls := Function.update s.calls i p }

/-- What can happen. -/
inductive Label
  | tick (d : ℕ)
  | setBlocked (voter : Id) (blocked : Bool)
  | request (i : ℕ) (a : RequestArgs) (vk ak : Keys)
  | reserve (i : ℕ) (ak : Keys)
  | start (i : ℕ) (code : String)
  | update (i : ℕ)
  | save (i : ℕ)
  | commit (i : ℕ) (ck ak : Keys)
  | verify (i : ℕ) (a : VerifyArgs)
  | find (i : ℕ)
  | select (i : ℕ)
  | finish (i : ℕ) (pick : Option Id) (ak : Keys)

/-- What the locking `SELECT` may give: an open challenge that it saw, as new as any other of them,
or nothing when there is none. -/
def Picks (t : Table OTPChallenge) (voter : Id) (now : Time) (seen : List Id) : Option Id → Prop
  | none => ∀ c ∈ t.rows, c.id ∈ seen → ¬ OpenFor voter now c
  | some k => ∃ c ∈ t.rows, c.id = k ∧ c.id ∈ seen ∧ OpenFor voter now c ∧
    ∀ d ∈ t.rows, d.id ∈ seen → OpenFor voter now d → d.createdAt ≤ c.createdAt

instance (t : Table OTPChallenge) (voter : Id) (now : Time) (seen : List Id) (pick : Option Id) :
    Decidable (Picks t voter now seen pick) := by
  cases pick <;> (unfold Picks; infer_instance)

/-- The challenges committed now. -/
def committed (db : Database) : List Id := db.challenges.rows.map OTPChallenge.id

variable (cfg : OtpSettings)

/-- The transaction of the verification `i` on the row it has locked. -/
def finishWith (s : State) (i : ℕ) (a : VerifyArgs) (now : Time) (voter : Option Voter)
    (challenge : Option OTPChallenge) (ak : Keys) : Option State :=
  (check cfg s.db voter a.phoneE164 a.code a.request now s.now challenge ak).map fun (db, o) =>
    { s with db }.setCall i (.verified a o (result voter now s.now o))

/-- One step of the call `i`, of the clock, or of the admin. -/
def step (s : State) : Label → Option State
  | .tick d => some { s with now := s.now + d }
  | .setBlocked voter blocked =>
    some { s with db := { s.db with voters := setBlocked s.db.voters voter blocked s.now } }
  | .request i a vk ak =>
    match s.calls i with
    | .idle =>
      (getOrCreateVoter s.db a.phoneE164 vk s.now).bind fun (db, voter) =>
        if voter.isBlocked then
          (logBlocked cfg db voter a.phoneE164 a.request s.now ak).map fun db =>
            { s with db }.setCall i (.turnedAway a .blocked)
        else some ({ s with db }.setCall i (.arrived a voter))
    | _ => none
  | .reserve i ak =>
    match s.calls i with
    | .arrived a voter =>
      (reserve cfg.hashPhone cfg.smsDailyLimit s.db s.cache s.now voter a.phoneE164
        a.request ak).map
        fun (db, cache, r) =>
          match r with
          | .error e => { s with db, cache }.setCall i (.turnedAway a (.refused e))
          | .ok () => { s with db, cache }.setCall i (.reserved a voter)
    | _ => none
  | .start i code =>
    match s.calls i with
    | .reserved a voter => some (s.setCall i (.begun ⟨a, voter, s.now, code⟩))
    | _ => none
  | .update i =>
    match s.calls i with
    | .begun q => some (s.setCall i (.updated q (committed s.db)))
    | _ => none
  | .save i =>
    match s.calls i with
    | .updated q seen => some (s.setCall i (.saved q seen s.now))
    | _ => none
  | .commit i ck ak =>
    match s.calls i with
    | .saved q seen savedAt =>
      (issue cfg s.db q.voter q.args.phoneE164 q.args.request q.now
        (fun k => decide (k ∈ seen)) savedAt
        q.code ck ak).map fun db => { s with db }.setCall i (.issued q ck.id)
    | _ => none
  | .verify i a =>
    match s.calls i with
    | .idle => some (s.setCall i (.asked a s.now))
    | _ => none
  | .find i =>
    match s.calls i with
    | .asked a now => some (s.setCall i (.found a now (voterByPhone s.db.voters a.phoneE164)))
    | _ => none
  | .select i =>
    match s.calls i with
    | .found a now (some voter) =>
      if voter.isBlocked then none
      else some (s.setCall i (.selected a now voter (committed s.db)))
    | _ => none
  | .finish i pick ak =>
    match s.calls i with
    | .found a now voter =>
      -- no query for a voter who is unknown or blocked
      if pick = none ∧ voter.all Voter.isBlocked then finishWith cfg s i a now voter none ak
      else none
    | .selected a now voter seen =>
      if Picks s.db.challenges voter.id now seen pick then
        finishWith cfg s i a now (some voter) (pick.bind s.db.challenges.get?) ak
      else none
    | _ => none

/-! ### What a step can do -/

/-- Neither issuing nor done with a verification. -/
def Phase.Aside : Phase → Prop
  | .begun _ | .updated _ _ | .saved _ _ _ | .issued _ _ | .verified _ _ _ => False
  | _ => True

/-- **What a step can do** to the challenges and the calls. -/
inductive Moves (s : State) : Label → State → Prop
  | tick (d : ℕ) : Moves s (.tick d) { s with now := s.now + d }
  | blocked {voter : Id} {blocked : Bool} {voters : Table Voter} :
      Moves s (.setBlocked voter blocked) { s with db := { s.db with voters } }
  | aside {l : Label} {i : ℕ} {p : Phase} {db : Database} {cache : Cache Time}
      (hp : (s.calls i).Aside) (hp' : p.Aside) (hl : ∀ j pick ak, l ≠ .finish j pick ak)
      (hl' : ∀ j ck ak, l ≠ .commit j ck ak) (hc : db.challenges = s.db.challenges) :
      Moves s l ({ s with db, cache }.setCall i p)
  | started {i : ℕ} {code : String} {a : RequestArgs} {voter : Voter}
      (hi : s.calls i = .reserved a voter) :
      Moves s (.start i code) (s.setCall i (.begun ⟨a, voter, s.now, code⟩))
  | updated {i : ℕ} {q : Issuing} (hi : s.calls i = .begun q) :
      Moves s (.update i) (s.setCall i (.updated q (committed s.db)))
  | saved {i : ℕ} {q : Issuing} {seen : List Id} (hi : s.calls i = .updated q seen) :
      Moves s (.save i) (s.setCall i (.saved q seen s.now))
  | issued {i : ℕ} {q : Issuing} {seen : List Id} {savedAt : Time} {ck ak : Keys} {db : Database}
      (hi : s.calls i = .saved q seen savedAt)
      (hx : issue cfg s.db q.voter q.args.phoneE164 q.args.request q.now
        (fun k => decide (k ∈ seen))
        savedAt q.code ck ak = some db) :
      Moves s (.commit i ck ak) ({ s with db }.setCall i (.issued q ck.id))
  | missed {i : ℕ} {a : VerifyArgs} {now : Time} {voter : Option Voter} {pick : Option Id}
    {ak : Keys}
      {db : Database} {o : Outcome} (hp : (s.calls i).Aside)
      (ho : o = .blocked ∨ o = .noActiveChallenge) (hl : Logged s.db db .otpFailed)
      (hc : db.challenges = s.db.challenges) :
      Moves s (.finish i pick ak)
        ({ s with db }.setCall i (.verified a o (result voter now s.now o)))
  | attempted {i : ℕ} {a : VerifyArgs} {now : Time} {voter : Voter} {seen : List Id}
      {c : OTPChallenge} {ak : Keys} {db : Database} {o : Outcome}
      (hi : s.calls i = .selected a now voter seen) (hm : c ∈ s.db.challenges.rows)
      (hs : c.id ∈ seen) (ho : OpenFor voter.id now c)
      (hn : ∀ d ∈ s.db.challenges.rows, d.id ∈ seen → OpenFor voter.id now d →
        d.createdAt ≤ c.createdAt)
      (hx : attempt cfg s.db voter a.phoneE164 a.code a.request now s.now c ak = some (db, o)) :
      Moves s (.finish i (some c.id) ak)
        ({ s with db }.setCall i (.verified a o (result (some voter) now s.now o)))

variable {cfg}

theorem moves_of_finishWith {s s' : State} {i : ℕ} {a : VerifyArgs} {now : Time}
    {voter : Option Voter} {pick : Option Id} {ak : Keys} (hp : (s.calls i).Aside)
    (h : finishWith cfg s i a now voter none ak = some s') :
    Moves cfg s (.finish i pick ak) s' := by
  obtain ⟨⟨db, o⟩, hc, rfl⟩ := Option.map_eq_some_iff.mp h
  obtain ⟨rfl, hl, -, hcs⟩ := check_of_none (Or.inr rfl) hc
  refine .missed hp ?_ hl hcs
  split_ifs
  · exact Or.inl rfl
  · exact Or.inr rfl

theorem moves_of_request {s s' : State} {i : ℕ} {a : RequestArgs} {vk ak : Keys}
    (h : step cfg s (.request i a vk ak) = some s') : Moves cfg s (.request i a vk ak) s' := by
  simp only [step] at h
  split at h
  · next hi =>
    obtain ⟨⟨db, voter⟩, hv, hx⟩ := Option.bind_eq_some_iff.mp h
    have hp : (s.calls i).Aside := by rw [hi]; trivial
    have hch : db.challenges = s.db.challenges := challenges_getOrCreateVoter hv
    simp only at hx
    split_ifs at hx
    · obtain ⟨db', hw, rfl⟩ := Option.map_eq_some_iff.mp hx
      obtain ⟨-, audit, rfl⟩ := write_voterEvent hw
      exact .aside hp trivial nofun nofun hch
    · obtain rfl := Option.some.inj hx
      exact .aside hp trivial nofun nofun hch
  · simp at h

theorem moves_of_finish {s s' : State} {i : ℕ} {pick : Option Id} {ak : Keys}
    (h : step cfg s (.finish i pick ak) = some s') : Moves cfg s (.finish i pick ak) s' := by
  simp only [step] at h
  split at h
  · next a now voter hi =>
    split_ifs at h
    have hp : (s.calls i).Aside := by rw [hi]; trivial
    exact moves_of_finishWith hp h
  · next a now voter seen hi =>
    split_ifs at h with hpick
    cases pick with
    | none =>
      have hp : (s.calls i).Aside := by rw [hi]; trivial
      exact moves_of_finishWith hp h
    | some k =>
      obtain ⟨c, hm, rfl, hs, ho, hn⟩ := hpick
      have hget : s.db.challenges.get? c.id = some c := Table.get?_key hm
      rw [Option.bind_some, hget] at h
      obtain ⟨⟨db, o⟩, hx, rfl⟩ := Option.map_eq_some_iff.mp h
      exact .attempted hi hm hs ho hn hx
  · simp at h

theorem moves_of_step {s s' : State} {l : Label} (h : step cfg s l = some s') :
    Moves cfg s l s' := by
  cases l with
  | tick d =>
    obtain rfl := Option.some.inj h
    exact .tick d
  | setBlocked voter blocked =>
    obtain rfl := Option.some.inj h
    exact .blocked
  | request i a vk ak => exact moves_of_request h
  | reserve i ak =>
    simp only [step] at h
    split at h
    · next a voter hi =>
      obtain ⟨⟨db, cache, r⟩, hr, hx⟩ := Option.map_eq_some_iff.mp h
      have hp : (s.calls i).Aside := by rw [hi]; trivial
      rcases reserve_cases hr with ⟨rfl, rfl⟩ | ⟨rfl, -, audit, rfl⟩
      · obtain rfl := hx
        exact .aside hp trivial nofun nofun rfl
      · obtain rfl := hx
        exact .aside hp trivial nofun nofun rfl
    · simp at h
  | start i code =>
    simp only [step] at h
    split at h
    · next a voter hi =>
      obtain rfl := Option.some.inj h
      exact .started hi
    · simp at h
  | update i =>
    simp only [step] at h
    split at h
    · next q hi =>
      obtain rfl := Option.some.inj h
      exact .updated hi
    · simp at h
  | save i =>
    simp only [step] at h
    split at h
    · next q seen hi =>
      obtain rfl := Option.some.inj h
      exact .saved hi
    · simp at h
  | commit i ck ak =>
    simp only [step] at h
    split at h
    · next q seen savedAt hi =>
      obtain ⟨db, hx, rfl⟩ := Option.map_eq_some_iff.mp h
      exact .issued hi hx
    · simp at h
  | verify i a =>
    simp only [step] at h
    split at h
    · next hi =>
      obtain rfl := Option.some.inj h
      have hp : (s.calls i).Aside := by rw [hi]; trivial
      exact .aside hp trivial nofun nofun rfl
    · simp at h
  | find i =>
    simp only [step] at h
    split at h
    · next a now hi =>
      obtain rfl := Option.some.inj h
      have hp : (s.calls i).Aside := by rw [hi]; trivial
      exact .aside hp trivial nofun nofun rfl
    · simp at h
  | select i =>
    simp only [step] at h
    split at h
    · next a now voter hi =>
      split_ifs at h
      obtain rfl := Option.some.inj h
      have hp : (s.calls i).Aside := by rw [hi]; trivial
      exact .aside hp trivial nofun nofun rfl
    · simp at h
  | finish i pick ak => exact moves_of_finish h

/-! ### One voter -/

def galaOtp : OtpSettings where
  hashCode i code := toString i ++ "." ++ code
  hashPhone p := p

def galaStart : State := ⟨galaDb, Cache.empty, 1000, fun _ => .idle⟩

theorem galaStart_fresh : galaStart.Fresh := ⟨fun _ => rfl, rfl⟩

def galaAsks : RequestArgs := ⟨"+254712345678", ⟨none, "", .anonymous⟩⟩

def galaTries (code : String) : VerifyArgs := ⟨"+254712345678", code, ⟨none, "", .anonymous⟩⟩

end KwAwards.Voting.OtpConcurrent
