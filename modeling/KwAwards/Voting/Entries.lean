import KwAwards.Voting.Otp
import KwAwards.Voting.Services

/-! # What the voting services write to the audit log

The OTP views authenticate nobody, so their requests are anonymous. A call of `request_otp` or
`verify_otp` writes one entry. One written by `log_voter_event` refers to the voter when that voter
is verified, and carries the keyed hash of the number otherwise (`ForVoter`); the entry of a
successful verification refers to the voter, whom the same transaction verifies. A cast writes an
entry of its voter or none, a void one of its user or none. -/

namespace KwAwards.Voting.Entries

open KwAwards.Lib.Tables KwAwards.Lib.Counters KwAwards.Common.Base KwAwards.Common.Exceptions
open KwAwards.Common.SmsBudget KwAwards.Audit.Log KwAwards.Voting.Models KwAwards.Store
open KwAwards.Voting.Otp KwAwards.Voting.Services KwAwards.Voting.Votes

/-- What an OTP view takes from its request. -/
structure Client where
  clientIp : Option String := none
  userAgent : String := ""
  deriving DecidableEq, Repr

def Client.request (c : Client) (principal : Principal) : Request :=
  ⟨c.clientIp, c.userAgent, principal⟩

/-- The stored hash of a number. -/
def phoneHash (e : AuditLog) : Option MetaValue := e.meta? "phone_hash"

/-- The events that are written by `log_voter_event`. -/
def voterEventActions : List AuditAction := [.otpRequested, .otpFailed, .smsBudgetExhausted]

/-- An entry of `log_voter_event` for the number `p` and the voter instance at hand. -/
def ForVoter (hashPhone : String → String) (voter : Option Voter) (p : String)
    (e : AuditLog) : Prop :=
  (∃ v, voter = some v ∧ v.verifiedAt.isSome = true ∧ e.actorVoter = some v.id ∧
    phoneHash e = none) ∨
    ((∀ v, voter = some v → v.verifiedAt = none) ∧ e.actorVoter = none ∧
      phoneHash e = some (.str (hashPhone p)))

theorem lookup_append_of_ne {m : Metadata} {k k' : String} {v : MetaValue} (hm : m.lookup k = none)
    (hk : k ≠ k') : (m ++ [(k', v)]).lookup k = none := by
  rw [List.lookup_append, hm]
  simp [List.lookup_cons, beq_false_of_ne hk]

theorem forVoter_of_voterEvent {hashPhone : String → String} {k : Keys} {now : Time}
    {action : AuditAction} {voter : Option Voter} {p : String} {request : Request}
    {target : Option Target} {metadata : Metadata} {e : AuditLog}
    (h : voterEvent hashPhone k now action voter p request target metadata = some e)
    (hr : request.principal = .anonymous) (hm : metadata.lookup "phone_hash" = none) :
    ForVoter hashPhone voter p e := by
  have hmasked : (metadata ++ [("phone_masked", MetaValue.str (maskPhone p))]).lookup "phone_hash" =
      none := lookup_append_of_ne hm (by decide)
  unfold voterEvent logVoterEvent at h
  by_cases hv : (voter.any fun v => v.verifiedAt.isSome) = true
  · simp only [if_pos hv] at h
    obtain ⟨-, -, -, -, hmeta, -, hactor⟩ := log_eq_some h
    obtain ⟨v, rfl, hver⟩ := Option.any_eq_true .. |>.mp hv
    refine Or.inl ⟨v, rfl, hver, hactor, ?_⟩
    rw [phoneHash, AuditLog.meta?, hmeta, hmasked]
  · simp only [if_neg hv] at h
    obtain ⟨-, -, -, -, hmeta, -, hactor⟩ := log_eq_some h
    refine Or.inr ⟨fun v hvoter => ?_, ?_, ?_⟩
    · subst hvoter
      simpa using hv
    · rw [hactor, actorVoterOf, hr]
    · rw [phoneHash, AuditLog.meta?, hmeta, List.lookup_append, hmasked]
      rfl

/-- Writing such an entry. -/
theorem write_forVoter {hashPhone : String → String} {k : Keys} {now : Time}
    {action : AuditAction} {voter : Option Voter} {p : String} {request : Request}
    {target : Option Target} {metadata : Metadata} {db db' : Database}
    (h : db.write (voterEvent hashPhone k now action voter p request target metadata) = some db')
    (hr : request.principal = .anonymous) (hm : metadata.lookup "phone_hash" = none) :
    ∃ e audit, db.audit.get? e.id = none ∧ audit.rows = db.audit.rows ++ [e] ∧ e.action = action ∧
      ForVoter hashPhone voter p e ∧ db' = { db with audit } := by
  obtain ⟨e, audit, he, hk, ha, rfl⟩ := Database.write_eq_some h
  exact ⟨e, audit, hk, ha, action_of_logVoterEvent he, forVoter_of_voterEvent he hr hm, rfl⟩

/-- **A request** writes one entry for its number, and perhaps a voter and a challenge. -/
theorem requestOtp_entry {cfg : OtpSettings} {db db' : Database} {cache cache' : Cache Time}
    {now : Time} {phoneE164 code : String} {client : Client} {vk ck ak : Keys} {r : Requested}
    (h : requestOtp cfg db cache now phoneE164 (client.request .anonymous) code vk ck ak =
      some (db', cache', r)) :
    ∃ db₁ voter e challenges audit, getOrCreateVoter db phoneE164 vk now = some (db₁, voter) ∧
      db.audit.get? e.id = none ∧ audit.rows = db.audit.rows ++ [e] ∧ e.action ∈ voterEventActions ∧
      ForVoter cfg.hashPhone (some voter) phoneE164 e ∧ db' = { db₁ with challenges, audit } := by
  obtain ⟨⟨db₁, voter⟩, hv, h⟩ := Option.bind_eq_some_iff.mp h
  have haudit : db₁.audit = db.audit := by
    rcases getOrCreateVoter_cases hv with ⟨-, rfl⟩ | ⟨-, -, -, -, -, voters, -, rfl⟩
    · rfl
    · rfl
  simp only at h
  split_ifs at h with hb
  · -- a blocked voter
    obtain ⟨d, hw, hd⟩ := Option.map_eq_some_iff.mp h
    obtain ⟨rfl, -⟩ := Prod.mk.inj hd
    obtain ⟨e, audit, hk, ha, hact, hfor, rfl⟩ := write_forVoter hw rfl (by simp [List.lookup_cons])
    rw [haudit] at hk ha
    exact ⟨db₁, voter, e, db₁.challenges, audit, hv, hk, ha, by
      simp [hact, voterEventActions], hfor, rfl⟩
  · obtain ⟨⟨db₂, cache₂, r₂⟩, hres, hg⟩ := Option.bind_eq_some_iff.mp h
    rcases reserve_writes hres with ⟨rfl, rfl⟩ | ⟨rfl, count, hw⟩
    · -- a code is issued
      obtain ⟨d, hi, hd⟩ := Option.map_eq_some_iff.mp hg
      obtain ⟨rfl, -⟩ := Prod.mk.inj hd
      obtain ⟨challenges, -, hw⟩ := Option.bind_eq_some_iff.mp hi
      obtain ⟨e, audit, hk, ha, hact, hfor, rfl⟩ :=
        write_forVoter hw rfl (by simp [List.lookup_cons])
      replace hk : db₂.audit.get? e.id = none := hk
      replace ha : audit.rows = db₂.audit.rows ++ [e] := ha
      rw [haudit] at hk ha
      exact ⟨db₂, voter, e, challenges, audit, hv, hk, ha, by
        simp [hact, voterEventActions], hfor, rfl⟩
    · -- the budget is used up
      obtain ⟨rfl, -⟩ := Prod.mk.inj (Option.some.inj hg)
      obtain ⟨e, audit, hk, ha, hact, hfor, rfl⟩ :=
        write_forVoter hw rfl (by simp [List.lookup_cons])
      rw [haudit] at hk ha
      exact ⟨db₁, voter, e, db₁.challenges, audit, hv, hk, ha, by
        simp [hact, voterEventActions], hfor, rfl⟩

theorem logFailed_entry {cfg : OtpSettings} {db db' : Database} {voter : Option Voter}
    {phoneE164 : String} {client : Client} {savedAt : Time} {ak : Keys} {o o' : Outcome}
    {attempts : ℕ}
    (h : logFailed cfg db voter phoneE164 (client.request .anonymous) savedAt ak o attempts =
      some (db', o')) :
    o' = o ∧ ∃ e audit, db.audit.get? e.id = none ∧ audit.rows = db.audit.rows ++ [e] ∧
      e.action = .otpFailed ∧ ForVoter cfg.hashPhone voter phoneE164 e ∧
      db' = { db with audit } := by
  obtain ⟨d, hw, hd⟩ := Option.map_eq_some_iff.mp h
  obtain ⟨rfl, rfl⟩ := Prod.mk.inj hd
  exact ⟨rfl, write_forVoter hw rfl (by simp [List.lookup_cons])⟩

/-- **A verification** writes one entry: of the voter it verifies, or for the number. -/
theorem verifyOtp_entry {cfg : OtpSettings} {db db' : Database} {now : Time}
    {phoneE164 code : String} {client : Client} {ak : Keys} {o : Outcome}
    {r : Except ApiError Voter}
    (h : verifyOtp cfg db now phoneE164 code (client.request .anonymous) ak = some (db', o, r)) :
    ∃ e challenges audit, db.audit.get? e.id = none ∧ audit.rows = db.audit.rows ++ [e] ∧
      ((∃ voter, voterByPhone db.voters phoneE164 = some voter ∧ e.action = .otpVerified ∧
          e.actorVoter = some voter.id ∧ phoneHash e = none ∧
          db' = { db with voters := markVerified db.voters voter now now, challenges, audit }) ∨
        (e.action = .otpFailed ∧
          ForVoter cfg.hashPhone (voterByPhone db.voters phoneE164) phoneE164 e ∧
          db' = { db with challenges, audit })) := by
  obtain ⟨⟨d, o'⟩, hc, hd⟩ := Option.map_eq_some_iff.mp h
  obtain ⟨rfl, -⟩ := Prod.mk.inj hd
  unfold check at hc
  split at hc
  · next v c hv _ =>
    unfold attempt at hc
    split_ifs at hc
    · obtain ⟨-, e, audit, hk, ha, hact, hfor, rfl⟩ := logFailed_entry hc
      exact ⟨e, db.challenges, audit, hk, ha, Or.inr ⟨hact, hv ▸ hfor, rfl⟩⟩
    · -- the code is right
      obtain ⟨d', hw, hd'⟩ := Option.map_eq_some_iff.mp hc
      obtain ⟨rfl, -⟩ := Prod.mk.inj hd'
      obtain ⟨e, audit, he, hk, ha, rfl⟩ := Database.write_eq_some hw
      obtain ⟨-, -, hact, -, hmeta, -, hactor⟩ := log_eq_some he
      refine ⟨e, _, audit, hk, ha, Or.inl ⟨v, hv, hact, hactor, ?_, rfl⟩⟩
      rw [phoneHash, AuditLog.meta?, hmeta]
      simp [List.lookup_cons]
    · obtain ⟨-, e, audit, hk, ha, hact, hfor, rfl⟩ := logFailed_entry hc
      exact ⟨e, _, audit, hk, ha, Or.inr ⟨hact, hv ▸ hfor, rfl⟩⟩
  · obtain ⟨-, e, audit, hk, ha, hact, hfor, rfl⟩ := logFailed_entry hc
    exact ⟨e, db.challenges, audit, hk, ha, Or.inr ⟨hact, hfor, rfl⟩⟩

/-- **A cast** adds its vote with an entry of its voter, an entry of its voter, or nothing. -/
theorem castFreeVote_entry {db db' : Database} {voter nominationId : Id} {request : Request}
    {checkAt now : Time} {vk ak : Keys} {r : Except Raised Vote}
    (h : castFreeVote db voter nominationId request checkAt now vk ak = some (db', r)) :
    db' = db ∨ ∃ e votes audit, db.audit.get? e.id = none ∧ audit.rows = db.audit.rows ++ [e] ∧
      e.actorVoter = some voter ∧ phoneHash e = none ∧ db' = { db with votes, audit } ∧
      (votes = db.votes ∨ ∃ c, getNomination db nominationId = some c ∧
        c.event.votingIsOpen checkAt = true ∧
        votes.rows = db.votes.rows ++ [newVote c voter request now vk]) := by
  have hmeta :
      ∀ {k : Keys} {action : AuditAction} {target : Option Target} {c : Candidate} {e : AuditLog},
      log k now action (some request) none (some voter) target (castMetadata c) = some e →
        e.actorVoter = some voter ∧ phoneHash e = none := by
    intro k action target c e he
    obtain ⟨-, -, -, -, hmeta, -, hactor⟩ := log_eq_some he
    refine ⟨hactor, ?_⟩
    rw [phoneHash, AuditLog.meta?, hmeta]
    simp [castMetadata, List.lookup_cons]
  unfold castFreeVote at h
  split at h
  · obtain ⟨rfl, -⟩ := Prod.mk.inj (Option.some.inj h)
    exact Or.inl rfl
  · next c hc =>
    split_ifs at h with hopen
    · obtain ⟨⟨db₁, r₁⟩, hx, h⟩ := Option.bind_eq_some_iff.mp h
      unfold insertVote at hx
      split_ifs at hx
      simp only at hx
      split at hx
      · next err _ =>
        obtain ⟨rfl, rfl⟩ := Prod.mk.inj (Option.some.inj hx)
        simp only at h
        split_ifs at h
        · obtain ⟨db₂, hw, h⟩ := Option.map_eq_some_iff.mp h
          obtain ⟨rfl, -⟩ := Prod.mk.inj h
          obtain ⟨e, audit, he, hk, ha, rfl⟩ := Database.write_eq_some hw
          obtain ⟨hactor, hhash⟩ := hmeta he
          exact Or.inr ⟨e, db.votes, audit, hk, ha, hactor, hhash, rfl, Or.inl rfl⟩
        · obtain ⟨rfl, -⟩ := Prod.mk.inj (Option.some.inj h)
          exact Or.inl rfl
      · next votes hv =>
        obtain ⟨db₂, hw, hx⟩ := Option.map_eq_some_iff.mp hx
        obtain ⟨rfl, rfl⟩ := Prod.mk.inj hx
        obtain ⟨rfl, -⟩ := Prod.mk.inj (Option.some.inj h)
        obtain ⟨e, audit, he, hk, ha, rfl⟩ := Database.write_eq_some hw
        obtain ⟨hactor, hhash⟩ := hmeta he
        obtain ⟨-, -, hrows⟩ := VoteTable.insertRow_ok.mp hv
        exact Or.inr ⟨e, votes, audit, hk, ha, hactor, hhash, rfl, Or.inr ⟨c, hc, hopen, hrows⟩⟩
    · obtain ⟨rfl, -⟩ := Prod.mk.inj (Option.some.inj h)
      exact Or.inl rfl

/-- **A void** changes one vote and writes an entry of its user, or does nothing. -/
theorem voidVote_entry {db db' : Database} {voteId byUser : Id} {reason : String}
    {request : Option Request} {now : Time} {ak : Keys} {r : Except Raised Vote}
    (h : voidVote db voteId byUser reason request now ak = some (db', r)) :
    db' = db ∨ ∃ vote ∈ db.votes.rows, ∃ e votes audit, db.audit.get? e.id = none ∧
      audit.rows = db.audit.rows ++ [e] ∧ e.actorVoter = none ∧ phoneHash e = none ∧
      db' = { db with votes, audit } ∧ votes.rows = db.votes.rows.map fun v =>
        if v.id = vote.id then void vote byUser reason now else v := by
  unfold voidVote at h
  split at h
  · obtain ⟨rfl, -⟩ := Prod.mk.inj (Option.some.inj h)
    exact Or.inl rfl
  · next vote hv =>
    split_ifs at h
    · obtain ⟨rfl, -⟩ := Prod.mk.inj (Option.some.inj h)
      exact Or.inl rfl
    · simp only at h
      split at h
      · obtain ⟨rfl, -⟩ := Prod.mk.inj (Option.some.inj h)
        exact Or.inl rfl
      · next votes hu =>
        obtain ⟨db₁, hw, h⟩ := Option.map_eq_some_iff.mp h
        obtain ⟨rfl, -⟩ := Prod.mk.inj h
        obtain ⟨e, audit, he, hk, ha, rfl⟩ := Database.write_eq_some hw
        obtain ⟨-, -, -, -, hmeta, -, hactor⟩ := log_eq_some he
        obtain ⟨-, -, -, hrows⟩ := VoteTable.updateRow_ok.mp hu
        refine Or.inr ⟨vote, (VoteTable.get?_eq_some.mp hv).1, e, votes, audit, hk, ha, ?_, ?_,
          rfl, hrows⟩
        · rw [hactor, actorVoterOf]
          simp
        · rw [phoneHash, AuditLog.meta?, hmeta]
          simp [voidMetadata, List.lookup_cons]

end KwAwards.Voting.Entries
