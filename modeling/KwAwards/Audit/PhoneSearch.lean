import KwAwards.Platform

/-! # Searching the audit log by phone number

`filterPhone` is `AuditLogFilter.filter_phone`: the entries with the keyed hash of the number, and
the entries that refer to a voter with the number. The operations that write for numbers are the
calls of `request_otp` and `verify_otp` (from their views, which authenticate nobody), of
`cast_free_vote` (for any stored voter), of `void_vote`, the purge, and blocking in the admin.

`Trail` says what an operation does to the entries and to the voters they refer to; `traced_of_run`
carries over every run which number each entry was written for, and `mem_filterPhone` compares the
search with it. -/

namespace KwAwards.Audit.PhoneSearch

open KwAwards.Lib.Tables KwAwards.Lib.Counters KwAwards.Lib.Run KwAwards.Common.Base
open KwAwards.Common.Exceptions KwAwards.Common.Phone KwAwards.Audit.Log KwAwards.Voting.Models
open KwAwards.Voting.Services KwAwards.Voting.Otp KwAwards.Voting.Entries KwAwards.Voting.Purge
open KwAwards.Voting.PhoneKeys KwAwards.Voting.Votes KwAwards.Store
open KwAwards.Platform (Config State demo)

/-! ### The search -/

/-- The row an entry's voter is joined with. -/
def actorVoterRow (db : Database) (e : AuditLog) : Option Voter := e.actorVoter.bind db.voters.get?

/-- **`AuditLogFilter.filter_phone`**. -/
def filterPhone (lib : PhoneNumbers) (hashPhone : String → String) (db : Database)
    (queryset : List AuditLog) (value : String) : Except ApiError (List AuditLog) :=
  match normalizePhone lib value with
  | .error exc => .error (.validation [("phone", exc.detail)])
  | .ok e164 => .ok (queryset.filter fun e => phoneHash e = some (.str (hashPhone e164)) ||
      (actorVoterRow db e).any fun v => v.phoneE164 = e164)

/-- The entry carries the hash of the number, or refers to a voter with the number. -/
def Matches (hashPhone : String → String) (db : Database) (e : AuditLog) (p : String) : Prop :=
  phoneHash e = some (.str (hashPhone p)) ∨ ∃ v, actorVoterRow db e = some v ∧ v.phoneE164 = p

theorem mem_of_filterPhone {lib : PhoneNumbers} (hashPhone : String → String) (db : Database)
    (queryset : List AuditLog) {value p : String} (hp : normalizePhone lib value = .ok p) :
    ∃ found, filterPhone lib hashPhone db queryset value = .ok found ∧
      ∀ e, e ∈ found ↔ e ∈ queryset ∧ Matches hashPhone db e p := by
  unfold filterPhone
  rw [hp]
  refine ⟨_, rfl, fun e => ?_⟩
  rw [List.mem_filter]
  refine and_congr_right fun _ => ?_
  simp only [Matches, Bool.or_eq_true, decide_eq_true_eq, Option.any_eq_true]

/-! ### The operations -/

/-- An operation, with its arguments, its instants and its fresh keys. -/
inductive Op
  | requestOtp (phoneE164 : String) (client : Client) (code : String) (now : Time) (vk ck ak : Keys)
  | verifyOtp (phoneE164 code : String) (client : Client) (now : Time) (ak : Keys)
  | castFreeVote (voter nomination : Id) (request : Request) (checkAt now : Time) (vk ak : Keys)
  | voidVote (vote user : Id) (reason : String) (request : Option Request) (now : Time) (ak : Keys)
  | purge (olderThanHours : ℤ) (execute : Bool) (now : Time)
  | setBlocked (voter : Id) (blocked : Bool) (now : Time)

/-- **One operation**; `none` when a key it is given is taken, or a voter it is given is not
stored. -/
def step (cfg : Config) (s : State) : Op → Option State
  | .requestOtp phoneE164 client code now vk ck ak =>
    (requestOtp cfg.otp s.db s.cache now phoneE164 (client.request .anonymous) code vk ck ak).map
      fun (db, cache, _) => { s with db, cache }
  | .verifyOtp phoneE164 code client now ak =>
    (verifyOtp cfg.otp s.db now phoneE164 code (client.request .anonymous) ak).map fun (db, _) =>
      { s with db }
  | .castFreeVote voter nomination request checkAt now vk ak =>
    if (s.db.voters.get? voter).isSome then
      (castFreeVote s.db voter nomination request checkAt now vk ak).map fun (db, _) =>
        { s with db }
    else none
  | .voidVote vote user reason request now ak =>
    (voidVote s.db vote user reason request now ak).map fun (db, _) => { s with db }
  | .purge olderThanHours execute now =>
    some { s with db := (handle s.db now olderThanHours execute).1 }
  | .setBlocked voter blocked now =>
    some { s with db := { s.db with voters := setBlocked s.db.voters voter blocked now } }

/-- The number for which the operation calls `log_voter_event`. -/
def Op.phone : Op → Option String
  | .requestOtp phoneE164 .. | .verifyOtp phoneE164 .. => some phoneE164
  | _ => none

/-- The entries that `log_voter_event` writes in an operation, each with its number. -/
def logged (s : State) (op : Op) (s' : State) : List (AuditLog × String) :=
  op.phone.elim [] fun p =>
    ((s'.db.audit.rows.drop s.db.audit.rows.length).filter
      fun e => e.action ∈ voterEventActions).map
      fun e => (e, p)

/-! ### What an operation does to the trail of a number -/

/-- What is written for a number: the keyed hash, or a reference to the stored voter. -/
def WrittenFor (hashPhone : String → String) (db : Database) (p : String) (e : AuditLog) : Prop :=
  (e.actorVoter = none ∧ phoneHash e = some (.str (hashPhone p))) ∨
    (phoneHash e = none ∧ ∃ v, actorVoterRow db e = some v ∧ v.phoneE164 = p)

/-- An entry that refers to a stored voter, if to any, and carries no hash. -/
def Plain (db : Database) (e : AuditLog) : Prop :=
  phoneHash e = none ∧ ∀ k, e.actorVoter = some k → ∃ v, db.voters.get? k = some v

/-- **What an operation does:** it keeps the voters that are referred to, with their numbers, and
adds at most one entry; `out` are the entries that `log_voter_event` writes. -/
structure Trail (hashPhone : String → String) (db db' : Database) (out : List (AuditLog × String)) :
    Prop where
  voters : ∀ k v, isAudited db k = true → db.voters.get? k = some v →
    ∃ v', db'.voters.get? k = some v' ∧ v'.phoneE164 = v.phoneE164
  rows : (db'.audit.rows = db.audit.rows ∧ out = []) ∨ ∃ e, db'.audit.rows = db.audit.rows ++ [e] ∧
    ((out = [] ∧ Plain db' e) ∨ ∃ p, out = [(e, p)] ∧ WrittenFor hashPhone db' p e)

theorem Trail.refl (hashPhone : String → String) (db : Database) : Trail hashPhone db db [] :=
  ⟨fun _ v _ hv => ⟨v, hv, rfl⟩, Or.inl ⟨rfl, rfl⟩⟩

/-- The entry of a call for the number `p`. -/
theorem logged_of_append {s s' : State} {op : Op} {p : String} {e : AuditLog}
    (hop : op.phone = some p) (hrows : s'.db.audit.rows = s.db.audit.rows ++ [e]) :
    logged s op s' = if e.action ∈ voterEventActions then [(e, p)] else [] := by
  unfold logged
  rw [hop, hrows, List.drop_left]
  by_cases h : e.action ∈ voterEventActions
  · simp [h]
  · simp [h]

/-- A voter that is changed in other columns keeps its number. -/
theorem phone_modify {t : Table Voter} {k : Id} {f : Voter → Voter} {hf : ∀ v, key (f v) = key v}
    (hp : ∀ v, (f v).phoneE164 = v.phoneE164) {j : Id} {v : Voter} (h : t.get? j = some v) :
    ∃ v', (t.modify k f hf).get? j = some v' ∧ v'.phoneE164 = v.phoneE164 := by
  by_cases hj : j = k
  · subst hj
    refine ⟨f v, ?_, hp v⟩
    rw [Table.get?_modify, if_pos rfl, h, Option.map_some]
  · refine ⟨v, ?_, rfl⟩
    rw [Table.get?_modify, if_neg hj, h]

theorem phone_markVerified (t : Table Voter) (voter : Voter) (now savedAt : Time) {j : Id}
    {v : Voter} (h : t.get? j = some v) :
    ∃ v', (markVerified t voter now savedAt).get? j = some v' ∧ v'.phoneE164 = v.phoneE164 := by
  unfold markVerified
  split_ifs
  · refine phone_modify ?_ h
    exact fun _ => rfl
  · exact ⟨v, h, rfl⟩

theorem phone_setBlocked {t : Table Voter} {voter : Id} {blocked : Bool} {now : Time} {j : Id}
    {v : Voter} (h : t.get? j = some v) :
    ∃ v', (setBlocked t voter blocked now).get? j = some v' ∧ v'.phoneE164 = v.phoneE164 := by
  unfold setBlocked
  refine phone_modify ?_ h
  exact fun _ => rfl

/-- An entry of `log_voter_event` for a stored voter of the number, or for nobody. -/
theorem writtenFor_of_forVoter {hashPhone : String → String} {voter : Option Voter} {p : String}
    {e : AuditLog} {db : Database} (h : ForVoter hashPhone voter p e)
    (hv : ∀ v, voter = some v → db.voters.get? v.id = some v ∧ v.phoneE164 = p) :
    WrittenFor hashPhone db p e := by
  rcases h with ⟨v, hvoter, -, hactor, hhash⟩ | ⟨-, hactor, hhash⟩
  · obtain ⟨hget, hphone⟩ := hv v hvoter
    refine Or.inr ⟨hhash, v, ?_, hphone⟩
    rw [actorVoterRow, hactor, Option.bind_some, hget]
  · exact Or.inl ⟨hactor, hhash⟩

theorem get?_of_voterByPhone {t : Table Voter} {p : String} {v : Voter}
    (h : voterByPhone t p = some v) :
    t.get? v.id = some v ∧ v.phoneE164 = p :=
  ⟨Table.get?_key (voterByPhone_some h).1, (voterByPhone_some h).2⟩

/-- **A request of a code** writes one entry for its number. -/
theorem trail_requestOtp {cfg : OtpSettings} {s s' : State} {now : Time} {phoneE164 code : String}
    {client : Client} {vk ck ak : Keys} {r : Requested}
    (h : requestOtp cfg s.db s.cache now phoneE164 (client.request .anonymous) code vk ck ak =
      some (s'.db, s'.cache, r)) :
    Trail cfg.hashPhone s.db s'.db
      (logged s (.requestOtp phoneE164 client code now vk ck ak) s') := by
  obtain ⟨db₁, voter, e, challenges, audit, hv, -, ha, hact, hfor, hdb⟩ := requestOtp_entry h
  have hrows : s'.db.audit.rows = s.db.audit.rows ++ [e] := by rw [hdb, ← ha]
  have hvoters : s'.db.voters = db₁.voters := by rw [hdb]
  rw [logged_of_append rfl hrows, if_pos hact]
  rcases getOrCreateVoter_cases hv with ⟨hfind, rfl⟩ | ⟨-, -, hphone, -, -, voters, hnew, rfl⟩
  · refine ⟨fun k v _ hget => ⟨v, by rw [hvoters, hget], rfl⟩,
      Or.inr ⟨e, hrows, Or.inr ⟨_, rfl, ?_⟩⟩⟩
    refine writtenFor_of_forVoter hfor fun v hvoter => ?_
    obtain rfl := Option.some.inj hvoter
    rw [hvoters]
    exact get?_of_voterByPhone hfind
  · replace hvoters : s'.db.voters = voters := hvoters
    have hget : ∀ v ∈ s.db.voters.rows ++ [voter], s'.db.voters.get? v.id = some v := by
      intro v hmem
      rw [hvoters]
      exact Table.get?_key (hnew ▸ hmem)
    refine ⟨fun k v _ hold => ?_, Or.inr ⟨e, hrows, Or.inr ⟨_, rfl, ?_⟩⟩⟩
    · obtain ⟨hmem, rfl⟩ := Table.get?_eq_some.mp hold
      exact ⟨v, hget v (List.mem_append_left _ hmem), rfl⟩
    · refine writtenFor_of_forVoter hfor fun v hvoter => ?_
      obtain rfl := Option.some.inj hvoter
      exact ⟨hget voter (List.mem_append_right _ (List.mem_singleton_self voter)), hphone⟩

/-- **A verification** writes one entry for its number when it fails, and one that refers to the
voter when it succeeds. -/
theorem trail_verifyOtp {cfg : OtpSettings} {s s' : State} {now : Time} {phoneE164 code : String}
    {client : Client} {ak : Keys} {o : Outcome} {r : Except ApiError Voter}
    (h : verifyOtp cfg s.db now phoneE164 code (client.request .anonymous) ak =
      some (s'.db, o, r)) :
    Trail cfg.hashPhone s.db s'.db (logged s (.verifyOtp phoneE164 code client now ak) s') := by
  obtain ⟨e, challenges, audit, -, ha, hcases⟩ := verifyOtp_entry h
  have hrows : s'.db.audit.rows = s.db.audit.rows ++ [e] := by
    rcases hcases with ⟨voter, -, -, -, -, hdb⟩ | ⟨-, -, hdb⟩
    · rw [hdb, ← ha]
    · rw [hdb, ← ha]
  rw [logged_of_append rfl hrows]
  rcases hcases with ⟨voter, hv, hact, hactor, hhash, hdb⟩ | ⟨hact, hfor, hdb⟩
  · have hvoters : s'.db.voters = markVerified s.db.voters voter now now := by rw [hdb]
    rw [if_neg (by rw [hact]; decide)]
    refine ⟨fun k v _ hget => ?_, Or.inr ⟨e, hrows, Or.inl ⟨rfl, hhash, fun k hk => ?_⟩⟩⟩
    · rw [hvoters]
      exact phone_markVerified _ _ _ _ hget
    · obtain rfl := Option.some.inj (hactor.symm.trans hk)
      obtain ⟨v, hget, -⟩ :=
        phone_markVerified s.db.voters voter now now (get?_of_voterByPhone hv).1
      exact ⟨v, hvoters ▸ hget⟩
  · have hvoters : s'.db.voters = s.db.voters := by rw [hdb]
    rw [if_pos (by rw [hact]; decide)]
    refine ⟨fun k v _ hget => ⟨v, by rw [hvoters, hget], rfl⟩,
      Or.inr ⟨e, hrows, Or.inr ⟨_, rfl, ?_⟩⟩⟩
    refine writtenFor_of_forVoter hfor fun v hvoter => ?_
    rw [hvoters]
    exact get?_of_voterByPhone hvoter

/-- **A cast** writes at most an entry of its voter. -/
theorem trail_castFreeVote {hashPhone : String → String} {db db' : Database}
    {voter nominationId : Id} {request : Request} {checkAt now : Time} {vk ak : Keys}
    {r : Except Raised Vote} (hv : (db.voters.get? voter).isSome = true)
    (h : castFreeVote db voter nominationId request checkAt now vk ak = some (db', r)) :
    Trail hashPhone db db' [] := by
  rcases castFreeVote_entry h with rfl | ⟨e, votes, audit, -, ha, hactor, hhash, rfl, -⟩
  · exact Trail.refl hashPhone db'
  · refine ⟨fun k v _ hget => ⟨v, hget, rfl⟩, Or.inr ⟨e, ha, Or.inl ⟨rfl, hhash, fun k hk => ?_⟩⟩⟩
    obtain rfl := Option.some.inj (hactor.symm.trans hk)
    exact Option.isSome_iff_exists.mp hv

/-- **A void** writes at most an entry of its user. -/
theorem trail_voidVote {hashPhone : String → String} {db db' : Database} {vote byUser : Id}
    {reason : String} {request : Option Request} {now : Time} {ak : Keys} {r : Except Raised Vote}
    (h : voidVote db vote byUser reason request now ak = some (db', r)) :
    Trail hashPhone db db' [] := by
  rcases voidVote_entry h with rfl | ⟨-, -, e, votes, audit, -, ha, hactor, hhash, rfl, -⟩
  · exact Trail.refl hashPhone db'
  · refine ⟨fun k v _ hget => ⟨v, hget, rfl⟩, Or.inr ⟨e, ha, Or.inl ⟨rfl, hhash, fun k hk => ?_⟩⟩⟩
    simp [hactor] at hk

/-- **A purge** keeps the voters that entries refer to. -/
theorem trail_purged {hashPhone : String → String} {db db' : Database} (h : Purged db db') :
    Trail hashPhone db db' [] := by
  refine ⟨fun k v haudited hget => ?_, Or.inl ⟨by rw [h.frame], rfl⟩⟩
  rcases h.voters k with heq | ⟨-, -, -, hfree⟩
  · exact ⟨v, heq.trans hget, rfl⟩
  · simp [hfree] at haudited

theorem trail_of_step {cfg : Config} {s s' : State} {op : Op} (h : step cfg s op = some s') :
    Trail cfg.otp.hashPhone s.db s'.db (logged s op s') := by
  cases op with
  | requestOtp phoneE164 client code now vk ck ak =>
    obtain ⟨⟨db, cache, r⟩, hx, rfl⟩ := Option.map_eq_some_iff.mp h
    exact trail_requestOtp hx
  | verifyOtp phoneE164 code client now ak =>
    obtain ⟨⟨db, o, r⟩, hx, rfl⟩ := Option.map_eq_some_iff.mp h
    exact trail_verifyOtp hx
  | castFreeVote voter nomination request checkAt now vk ak =>
    simp only [step] at h
    split_ifs at h with hv
    obtain ⟨⟨db, r⟩, hx, rfl⟩ := Option.map_eq_some_iff.mp h
    exact trail_castFreeVote hv hx
  | voidVote vote user reason request now ak =>
    obtain ⟨⟨db, r⟩, hx, rfl⟩ := Option.map_eq_some_iff.mp h
    exact trail_voidVote hx
  | purge olderThanHours execute now =>
    obtain rfl := Option.some.inj h
    exact trail_purged (purged_handle s.db now olderThanHours execute)
  | setBlocked voter blocked now =>
    obtain rfl := Option.some.inj h
    exact ⟨fun k v _ hget => phone_setBlocked hget, Or.inl ⟨rfl, rfl⟩⟩

/-! ### Every run -/

variable {hashPhone : String → String} {db db' : Database} {out new : List (AuditLog × String)}
  {e : AuditLog} {p : String}

/-- **What an entry says of its number:** a voter it refers to is stored, it has not both a voter
and a hash, and a hash is the one of a number it was written for; `out` are the entries of
`log_voter_event` so far. -/
structure Sound (hashPhone : String → String) (db : Database) (out : List (AuditLog × String))
    (e : AuditLog) : Prop where
  referenced : ∀ k, e.actorVoter = some k → ∃ v, db.voters.get? k = some v
  exclusive : phoneHash e = none ∨ e.actorVoter = none
  hashed : ∀ m, phoneHash e = some m → ∃ p, (e, p) ∈ out ∧ m = .str (hashPhone p)

theorem Plain.sound (h : Plain db e) : Sound hashPhone db out e :=
  ⟨h.2, Or.inl h.1, fun m hm => by simp [h.1] at hm⟩

theorem WrittenFor.sound (h : WrittenFor hashPhone db p e) (hout : (e, p) ∈ out) :
    Sound hashPhone db out e := by
  rcases h with ⟨hactor, hhash⟩ | ⟨hhash, v, hv, -⟩
  · refine ⟨fun k hk => ?_, Or.inr hactor, fun m hm => ⟨p, hout, ?_⟩⟩
    · simp [hactor] at hk
    · exact Option.some.inj (hm.symm.trans hhash)
  · refine ⟨fun k hk => ⟨v, ?_⟩, Or.inl hhash, fun m hm => ?_⟩
    · rwa [actorVoterRow, hk, Option.bind_some] at hv
    · simp [hhash] at hm

theorem WrittenFor.matches (h : WrittenFor hashPhone db p e) : Matches hashPhone db e p := by
  rcases h with ⟨-, hhash⟩ | ⟨-, hrow⟩
  · exact Or.inl hhash
  · exact Or.inr hrow

theorem isAudited_of_mem (he : e ∈ db.audit.rows) {k : Id} (hk : e.actorVoter = some k) :
    isAudited db k = true :=
  List.any_eq_true.mpr ⟨e, he, by simp [hk]⟩

/-- A stored entry is as sound after an operation. -/
theorem Sound.kept (h : Sound hashPhone db out e) (ht : Trail hashPhone db db' new)
    (he : e ∈ db.audit.rows) : Sound hashPhone db' (out ++ new) e := by
  refine ⟨fun k hk => ?_, h.exclusive, fun m hm => ?_⟩
  · obtain ⟨v, hv⟩ := h.referenced k hk
    obtain ⟨v', hv', -⟩ := ht.voters k v (isAudited_of_mem he hk) hv
    exact ⟨v', hv'⟩
  · obtain ⟨p, hout, rfl⟩ := h.hashed m hm
    exact ⟨p, List.mem_append_left _ hout, rfl⟩

/-- A stored entry is for the same number after an operation. -/
theorem WrittenFor.kept (h : WrittenFor hashPhone db p e) (ht : Trail hashPhone db db' new)
    (he : e ∈ db.audit.rows) : WrittenFor hashPhone db' p e := by
  rcases h with h | ⟨hhash, v, hv, hphone⟩
  · exact Or.inl h
  · obtain ⟨k, hk, hget⟩ := Option.bind_eq_some_iff.mp hv
    obtain ⟨v', hget', hphone'⟩ := ht.voters k v (isAudited_of_mem he hk) hget
    refine Or.inr ⟨hhash, v', ?_, hphone'.trans hphone⟩
    rw [actorVoterRow, hk, Option.bind_some, hget']

/-- The log with the entries of `log_voter_event` so far. -/
structure Traced (hashPhone : String → String) (db : Database)
    (out : List (AuditLog × String)) : Prop where
  entries : ∀ e ∈ db.audit.rows, Sound hashPhone db out e
  written : ∀ e p, (e, p) ∈ out → e ∈ db.audit.rows ∧ WrittenFor hashPhone db p e

/-- **An operation keeps the trace**, with what it writes added. -/
theorem Traced.step (h : Traced hashPhone db out) (ht : Trail hashPhone db db' new) :
    Traced hashPhone db' (out ++ new) := by
  have hold : ∀ e ∈ db.audit.rows, Sound hashPhone db' (out ++ new) e :=
    fun e he => (h.entries e he).kept ht he
  have hkept : ∀ e p, (e, p) ∈ out → e ∈ db.audit.rows ∧ WrittenFor hashPhone db' p e :=
    fun e p hout => ⟨(h.written e p hout).1, (h.written e p hout).2.kept ht (h.written e p hout).1⟩
  rcases ht.rows with ⟨hrows, rfl⟩ | ⟨e, hrows, hnew⟩
  · rw [List.append_nil] at hold ⊢
    exact ⟨hrows ▸ hold, hrows ▸ hkept⟩
  · have hsound : Sound hashPhone db' (out ++ new) e := by
      rcases hnew with ⟨-, hplain⟩ | ⟨p, rfl, hw⟩
      · exact hplain.sound
      · exact hw.sound (by simp)
    have hwritten : ∀ e' p, (e', p) ∈ new → e' = e ∧ WrittenFor hashPhone db' p e' := by
      intro e' p hmem
      rcases hnew with ⟨rfl, -⟩ | ⟨q, rfl, hw⟩
      · simp at hmem
      · obtain ⟨rfl, rfl⟩ := Prod.mk.inj (List.mem_singleton.mp hmem)
        exact ⟨rfl, hw⟩
    refine ⟨fun e' he' => ?_, fun e' p hout => ?_⟩
    · rw [hrows] at he'
      rcases List.mem_append.mp he' with he' | he'
      · exact hold e' he'
      · exact List.mem_singleton.mp he' ▸ hsound
    · rw [hrows]
      rcases List.mem_append.mp hout with hout | hout
      · exact ⟨List.mem_append_left _ (hkept e' p hout).1, (hkept e' p hout).2⟩
      · obtain ⟨rfl, hw⟩ := hwritten e' p hout
        exact ⟨by simp, hw⟩

theorem traced_of_run {cfg : Config} {s s' : State} {ops : List Op} (h0 : s.db.audit.rows = [])
    (hr : run (step cfg) s ops = some s') :
    Traced cfg.otp.hashPhone s'.db (emitted (step cfg) logged s ops) :=
  run_emitted_inv (fun s out => Traced cfg.otp.hashPhone s.db out)
    (fun _ _ _ _ h hs => h.step (trail_of_step hs)) ⟨by simp [h0], by simp⟩ hr

/-- **The search is sound and complete:** in every run from an empty log, it finds for a text that
stands for the number `p` the entries that `log_voter_event` wrote for `p` and the entries that
refer to a voter whose number is `p`, and no others; no entry has both a hash and a voter. -/
theorem mem_filterPhone {cfg : Config} {s s' : State} {ops : List Op} {raw p : String}
    (hinj : Function.Injective cfg.otp.hashPhone) (h0 : s.db.audit.rows = [])
    (hr : run (step cfg) s ops = some s') (hp : normalizePhone cfg.phones raw = .ok p) :
    (∃ found, filterPhone cfg.phones cfg.otp.hashPhone s'.db s'.db.audit.rows raw = .ok found ∧
      ∀ e, e ∈ found ↔ e ∈ s'.db.audit.rows ∧ ((e, p) ∈ emitted (step cfg) logged s ops ∨
        ∃ v, actorVoterRow s'.db e = some v ∧ v.phoneE164 = p)) ∧
      ∀ e ∈ s'.db.audit.rows, phoneHash e = none ∨ e.actorVoter = none := by
  have ht := traced_of_run h0 hr
  obtain ⟨found, hfound, hmem⟩ :=
    mem_of_filterPhone cfg.otp.hashPhone s'.db s'.db.audit.rows hp
  refine ⟨⟨found, hfound, fun e => ?_⟩, fun e he => (ht.entries e he).exclusive⟩
  rw [hmem e]
  refine and_congr_right fun he => ⟨?_, ?_⟩
  · rintro (hhash | hrow)
    · obtain ⟨q, hout, heq⟩ := (ht.entries e he).hashed _ hhash
      obtain rfl := hinj (MetaValue.str.inj heq)
      exact Or.inl hout
    · exact Or.inr hrow
  · rintro (hout | hrow)
    · exact (ht.written e p hout).2.matches
    · exact Or.inr hrow

/-- A number asks, is purged, asks again and verifies, asks once more, and another one asks. -/
def twice : List Op :=
  [.requestOtp "+254712345678" {} "123456" 10 ⟨50, 1⟩ ⟨80, 1⟩ ⟨70, 1⟩, .purge 0 true 20,
    .requestOtp "+254712345678" {} "123456" 30 ⟨51, 2⟩ ⟨81, 2⟩ ⟨71, 2⟩,
    .verifyOtp "+254712345678" "123456" {} 40 ⟨72, 3⟩,
    .requestOtp "+254712345678" {} "123456" 50 ⟨52, 3⟩ ⟨82, 3⟩ ⟨73, 4⟩,
    .requestOtp "+254700000000" {} "123456" 60 ⟨53, 4⟩ ⟨83, 4⟩ ⟨74, 5⟩]

example : ((run (step demo) ⟨{}, .empty⟩ twice).map fun s =>
    (filterPhone kenya demo.otp.hashPhone s.db s.db.audit.rows "0712 345678").toOption.map
      fun found =>
      found.map AuditLog.id) = some (some [70, 71, 72, 73]) := by decide

theorem mem_filterPhone_twice : ∃ s, run (step demo) ⟨{}, .empty⟩ twice = some s ∧
    (∃ found, filterPhone kenya demo.otp.hashPhone s.db s.db.audit.rows "0712 345678" = .ok found ∧
      ∀ e, e ∈ found ↔ e ∈ s.db.audit.rows ∧
        ((e, "+254712345678") ∈ emitted (step demo) logged ⟨{}, .empty⟩ twice ∨
          ∃ v, actorVoterRow s.db e = some v ∧ v.phoneE164 = "+254712345678")) ∧
      ∀ e ∈ s.db.audit.rows, phoneHash e = none ∨ e.actorVoter = none := by
  have hlen : (run (step demo) ⟨{}, .empty⟩ twice).map (fun s => s.db.audit.rows.length) =
      some 5 := by
    decide
  obtain ⟨s, hs, -⟩ := Option.map_eq_some_iff.mp hlen
  have hinj : Function.Injective demo.otp.hashPhone := fun a b h => by simpa [demo] using h
  exact ⟨s, hs, @mem_filterPhone demo _ _ _ _ _ hinj rfl hs (by decide)⟩

end KwAwards.Audit.PhoneSearch
