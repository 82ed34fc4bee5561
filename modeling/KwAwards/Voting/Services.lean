import KwAwards.Store

/-! # Vote casting and voiding

`castFreeVote` reads a nomination with its award, category and event (`getNomination`), asks the
event whether voting is open, and then inserts: the unique index decides, and its violation becomes
`AlreadyVoted`. `insertVote` is the one transaction of the call, `logDuplicate` the entry written
after that transaction is rolled back. `voidVote` is one transaction under the row's lock.

A function returns `none` only when a key it is given for a new row is taken, which fresh keys never
are. -/

namespace KwAwards.Voting.Services

open KwAwards.Lib.Tables KwAwards.Common.Base KwAwards.Common.Exceptions KwAwards.Audit.Log
open KwAwards.Events.Models KwAwards.Nominations.Models KwAwards.Voting.Votes KwAwards.Store
open KwAwards.Voting.Votes.VoteTable

/-- A nomination with the rows its `select_related` joins. -/
structure Candidate where
  nomination : Nomination
  award : Award
  category : Category
  event : Event
  deriving DecidableEq, Repr

/-- The nomination's row joined with its award, category and event. -/
def joined (db : Database) (nominationId : Id) : Option Candidate := do
  let nomination ← db.nominations.get? nominationId
  let award ← db.awards.get? nomination.award
  let category ← db.categories.get? award.category
  let event ← db.events.get? category.event
  some { nomination, award, category, event }

/-- An approved nomination of an active award of an event that is not a draft. -/
def Candidate.votable (c : Candidate) : Bool :=
  decide (c.nomination.status = .approved) && c.award.isActive && decide (c.event.status ≠ .draft)

/-- The query of `cast_free_vote`. -/
def getNomination (db : Database) (nominationId : Id) : Option Candidate :=
  (joined db nominationId).filter Candidate.votable

theorem joined_eq_some {db : Database} {nid : Id} {c : Candidate} : joined db nid = some c ↔
    db.nominations.get? nid = some c.nomination ∧
      db.awards.get? c.nomination.award = some c.award ∧
      db.categories.get? c.award.category = some c.category ∧
      db.events.get? c.category.event = some c.event := by
  simp only [joined, Option.bind_eq_bind, Option.bind_eq_some_iff, Option.some.injEq]
  constructor
  · rintro ⟨n, hn, a, ha, k, hk, e, he, rfl⟩
    exact ⟨hn, ha, hk, he⟩
  · rintro ⟨hn, ha, hk, he⟩
    exact ⟨_, hn, _, ha, _, hk, _, he, rfl⟩

theorem getNomination_eq_some {db : Database} {nid : Id} {c : Candidate} :
    getNomination db nid = some c ↔ joined db nid = some c ∧ c.votable := by
  simp [getNomination, Option.filter_eq_some_iff]

/-- The rows a joined nomination is made of refer to each other. -/
structure Candidate.Linked (c : Candidate) : Prop where
  award : c.nomination.award = c.award.id
  category : c.award.category = c.category.id
  event : c.category.event = c.event.id

theorem linked_of_joined {db : Database} {nid : Id} {c : Candidate} (h : joined db nid = some c) :
    c.nomination.id = nid ∧ c.Linked := by
  obtain ⟨hn, ha, hk, he⟩ := joined_eq_some.mp h
  exact ⟨Table.key_of_get? hn, (Table.key_of_get? ha).symm, (Table.key_of_get? hk).symm,
    (Table.key_of_get? he).symm⟩

/-! ### Casting -/

/-- The row `Vote.objects.create` writes. -/
def newVote (c : Candidate) (voter : Id) (request : Request) (now : Time) (k : Keys) : Vote where
  id := k.id
  event := c.event.id
  award := c.award.id
  nomination := c.nomination.id
  voter := voter
  source := .free
  quantity := 1
  ipAddress := request.clientIp
  userAgent := slice 300 request.userAgent
  seq := k.seq
  createdAt := now
  updatedAt := now

theorem newVote_checks (c : Candidate) (voter : Id) (request : Request) (now : Time) (k : Keys) :
    (newVote c voter request now k).Checks := by
  have hl : (newVote c voter request now k).userAgent.length ≤ 300 := length_slice_le 300 _
  refine ⟨?_, by rfl, by rfl, by rfl⟩
  simp only [Vote.fits, Bool.and_eq_true, decide_eq_true_eq]
  exact ⟨hl, Nat.zero_le 500⟩

@[simp] theorem newVote_activeFree (c : Candidate) (voter : Id) (request : Request) (now : Time)
    (k : Keys) : (newVote c voter request now k).activeFree := by
  rfl

/-- `label_lower` and primary key of a vote. -/
def voteTarget (v : Vote) : Target := ⟨"voting.vote", v.id⟩

def castMetadata (c : Candidate) : Metadata :=
  [("award_id", .id c.award.id), ("nomination_id", .id c.nomination.id)]

/-- No row has the primary key or the sequence number. -/
def FreshVote (t : VoteTable) (k : Keys) : Prop := ∀ v ∈ t.rows, v.id ≠ k.id ∧ v.seq ≠ k.seq

instance (t : VoteTable) (k : Keys) : Decidable (FreshVote t k) := by
  unfold FreshVote; infer_instance

/-- The transaction of a cast: the row and its `VOTE_CAST` entry, or neither. -/
def insertVote (db : Database) (c : Candidate) (voter : Id) (request : Request) (now : Time)
    (vk ak : Keys) : Option (Database × Except DbError Vote) :=
  if FreshVote db.votes vk then
    let vote := newVote c voter request now vk
    match db.votes.insertRow vote with
    | .error e => some (db, .error e)
    | .ok votes =>
      (db.write (log ak now .voteCast (some request) none (some voter) (some (voteTarget vote))
        (castMetadata c))).map fun db => ({ db with votes }, .ok vote)
  else none

/-- A non-voided free vote of the voter in the award: the slot is taken. -/
def Taken (t : VoteTable) (voter award : Id) : Prop :=
  ∃ v ∈ t.rows, v.activeFree ∧ v.voter = voter ∧ v.award = award

instance (t : VoteTable) (voter award : Id) : Decidable (Taken t voter award) := by
  unfold Taken; infer_instance

theorem clash_newVote {t : VoteTable} {k : Keys} (hf : FreshVote t k) (c : Candidate) (voter : Id)
    (request : Request) (now : Time) :
    (∃ r ∈ t.rows, Clash r (newVote c voter request now k)) ↔ Taken t voter c.award.id := by
  constructor
  · rintro ⟨r, hr, h | h | ⟨ha, -, hv, hw⟩⟩
    · exact absurd h (hf r hr).1
    · exact absurd h (hf r hr).2
    · exact ⟨r, hr, ha, hv, hw⟩
  · rintro ⟨r, hr, ha, hv, hw⟩
    exact ⟨r, hr, Or.inr (Or.inr ⟨ha, newVote_activeFree c voter request now k, hv, hw⟩)⟩

/-- **What the transaction of a cast does:** with a taken slot nothing and the unique violation,
with a free one the vote and its entry. -/
theorem insertVote_cases {db db' : Database} {c : Candidate} {voter : Id} {request : Request}
    {now : Time} {vk ak : Keys} {r : Except DbError Vote}
    (h : insertVote db c voter request now vk ak = some (db', r)) :
    FreshVote db.votes vk ∧
    ((Taken db.votes voter c.award.id ∧ db' = db ∧ r = .error .uniqueViolation) ∨
      (¬ Taken db.votes voter c.award.id ∧
        r = .ok (newVote c voter request now vk) ∧ ∃ votes audit e,
        votes.rows = db.votes.rows ++ [newVote c voter request now vk] ∧
        log ak now .voteCast (some request) none (some voter)
          (some (voteTarget (newVote c voter request now vk))) (castMetadata c) = some e ∧
        audit.rows = db.audit.rows ++ [e] ∧ db' = { db with votes, audit })) := by
  unfold insertVote at h
  split_ifs at h with hf
  refine ⟨hf, ?_⟩
  have hclash := clash_newVote hf c voter request now
  simp only at h
  split at h
  · next e he =>
    obtain ⟨rfl, hc⟩ := insertRow_error (newVote_checks ..) he
    obtain ⟨rfl, rfl⟩ := Prod.mk.inj (Option.some.inj h)
    exact Or.inl ⟨hclash.mp hc, rfl, rfl⟩
  · next votes hv =>
    obtain ⟨db₁, hw, h⟩ := Option.map_eq_some_iff.mp h
    obtain ⟨rfl, rfl⟩ := Prod.mk.inj h
    obtain ⟨e, audit, he, -, ha, rfl⟩ := Database.write_eq_some hw
    obtain ⟨-, hn, hrows⟩ := insertRow_ok.mp hv
    refine Or.inr ⟨fun ht => ?_, rfl, votes, audit, e, hrows, he, ha, rfl⟩
    obtain ⟨r, hr, hc⟩ := hclash.mpr ht
    exact hn r hr hc

theorem insertVote_of_taken {db : Database} {c : Candidate} {voter : Id} {request : Request}
    {now : Time} {vk ak : Keys} (hf : FreshVote db.votes vk)
    (ht : Taken db.votes voter c.award.id) :
    insertVote db c voter request now vk ak = some (db, .error .uniqueViolation) := by
  unfold insertVote
  rw [if_pos hf]
  obtain ⟨r, hr, hc⟩ := (clash_newVote hf c voter request now).mpr ht
  simp only
  split
  · next e he => rw [(insertRow_error (newVote_checks ..) he).1]
  · next votes hv => exact absurd hc ((insertRow_ok.mp hv).2.1 r hr)

/-- The transaction takes the same course when only the audit log differs. -/
theorem insertVote_unlogged {db db' d : Database} {c : Candidate} {voter : Id} {request : Request}
    {now : Time} {vk ak : Keys} {r : Except DbError Vote} (hd : d.unlogged = db.unlogged)
    (h : insertVote db c voter request now vk ak = some (db', r)) :
    ∃ ak' d', insertVote d c voter request now vk ak' = some (d', r) ∧
      d'.unlogged = db'.unlogged := by
  have hvotes : d.votes = db.votes := Database.votes_of_unlogged hd
  unfold insertVote at h ⊢
  rw [hvotes]
  split_ifs at h ⊢ with hf
  simp only at h ⊢
  split at h
  · next e he =>
    obtain ⟨rfl, rfl⟩ := Prod.mk.inj (Option.some.inj h)
    exact ⟨ak, d, rfl, hd⟩
  · next votes hv =>
    obtain ⟨db₁, hw, h⟩ := Option.map_eq_some_iff.mp h
    obtain ⟨rfl, rfl⟩ := Prod.mk.inj h
    obtain ⟨ak', d', hw'⟩ := Database.exists_write hw d
    refine ⟨ak', { d' with votes }, by simp only [hw', Option.map_some], ?_⟩
    have hu : d'.unlogged = db₁.unlogged :=
      (Database.unlogged_write hw').trans (hd.trans (Database.unlogged_write hw).symm)
    exact congrArg (fun x : Database => { x with votes }) hu

/-- The entry written when the slot is taken. -/
def logDuplicate (db : Database) (c : Candidate) (voter : Id) (request : Request) (now : Time)
    (ak : Keys) : Option Database :=
  db.write (log ak now .voteDuplicate (some request) none (some voter) none (castMetadata c))

theorem cleanMetadata_castMetadata (c : Candidate) :
    cleanMetadata (castMetadata c) = some (castMetadata c) := by
  have hclean : ["award_id", "nomination_id"].any
      (fun k => forbiddenMetadataKeys.contains (lower k)) = false := by decide
  unfold cleanMetadata castMetadata
  rw [if_neg]
  simpa using hclean

theorem exists_logDuplicate (db : Database) (c : Candidate) (voter : Id) (request : Request)
    (now : Time) : ∃ ak db', logDuplicate db c voter request now ak = some db' := by
  obtain ⟨id, hid⟩ := exists_fresh db.audit
  have hlog : ∃ e, log ⟨id, 0⟩ now .voteDuplicate (some request) none (some voter) none
      (castMetadata c) = some e := by
    rw [log, cleanMetadata_castMetadata]
    exact ⟨_, rfl⟩
  obtain ⟨e, he⟩ := hlog
  have hfresh : db.audit.get? e.id = none := by rw [(log_eq_some he).1]; exact hid
  obtain ⟨db', hw⟩ := Database.write_of_fresh hfresh
  have hdup : logDuplicate db c voter request now ⟨id, 0⟩ = some db' := by
    rw [logDuplicate, he]
    exact hw
  exact ⟨⟨id, 0⟩, db', hdup⟩

def uniqueViolation : String := "23505"

def isUniqueViolation (e : DbError) : Bool := e.pgcode == uniqueViolation

theorem isUniqueViolation_iff {e : DbError} :
    isUniqueViolation e = true ↔ e = .uniqueViolation := by
  cases e <;> simp [isUniqueViolation, DbError.pgcode, uniqueViolation]

def nominationNotFound : Raised := .api (.notFound "Nomination not found.")

/-- **`cast_free_vote`**, run without interruption: the window is checked at `checkAt`, the row
inserted at `now`. -/
def castFreeVote (db : Database) (voter nominationId : Id) (request : Request)
    (checkAt now : Time) (vk ak : Keys) : Option (Database × Except Raised Vote) :=
  match getNomination db nominationId with
  | none => some (db, .error nominationNotFound)
  | some c =>
    if c.event.votingIsOpen checkAt then
      (insertVote db c voter request now vk ak).bind fun (db, r) =>
        match r with
        | .ok vote => some (db, .ok vote)
        | .error e =>
          if isUniqueViolation e then
            (logDuplicate db c voter request now ak).map fun db => (db, .error (.api .alreadyVoted))
          else some (db, .error (.db e))
    else some (db, .error (.api .votingClosed))

/-- A cast writes the votes and the audit log, and adds at most its own vote. -/
theorem castFreeVote_cases {db db' : Database} {voter nominationId : Id} {request : Request}
    {checkAt now : Time} {vk ak : Keys} {r : Except Raised Vote}
    (h : castFreeVote db voter nominationId request checkAt now vk ak = some (db', r)) :
    db' = { db with votes := db'.votes, audit := db'.audit } ∧
      (db'.votes = db.votes ∨ ∃ c, getNomination db nominationId = some c ∧
        db'.votes.rows = db.votes.rows ++ [newVote c voter request now vk]) := by
  unfold castFreeVote at h
  split at h
  · obtain ⟨rfl, rfl⟩ := Prod.mk.inj (Option.some.inj h)
    exact ⟨rfl, Or.inl rfl⟩
  · next c hc =>
    split_ifs at h with ho
    · obtain ⟨⟨db₁, r₁⟩, hx, h⟩ := Option.bind_eq_some_iff.mp h
      rcases insertVote_cases hx with
        ⟨-, ⟨-, rfl, rfl⟩ | ⟨-, rfl, votes, audit, e, hv, -, -, rfl⟩⟩
      · have hu : isUniqueViolation .uniqueViolation = true := isUniqueViolation_iff.mpr rfl
        simp only [hu, if_true] at h
        obtain ⟨db₂, hw, h⟩ := Option.map_eq_some_iff.mp h
        obtain ⟨rfl, rfl⟩ := Prod.mk.inj h
        obtain ⟨e, audit, -, -, -, rfl⟩ := Database.write_eq_some hw
        exact ⟨rfl, Or.inl rfl⟩
      · obtain ⟨rfl, rfl⟩ := Prod.mk.inj (Option.some.inj h)
        exact ⟨rfl, Or.inr ⟨c, hc, hv⟩⟩
    · obtain ⟨rfl, rfl⟩ := Prod.mk.inj (Option.some.inj h)
      exact ⟨rfl, Or.inl rfl⟩

/-! ### Voiding -/

/-- `Vote.void`. -/
def void (v : Vote) (byUser : Id) (reason : String) (now : Time) : Vote :=
  { v with voidedAt := some now, voidedBy := some byUser, voidReason := reason, updatedAt := now }

def voidMetadata (v : Vote) (reason : String) : Metadata :=
  [("reason", .str reason), ("award_id", .id v.award), ("nomination_id", .id v.nomination)]

def voteNotFound : Raised := .api (.notFound "Vote not found.")

/-- **`void_vote`**: one transaction under the lock of the vote's row. -/
def voidVote (db : Database) (voteId byUser : Id) (reason : String) (request : Option Request)
    (now : Time) (ak : Keys) : Option (Database × Except Raised Vote) :=
  match db.votes.get? voteId with
  | none => some (db, .error voteNotFound)
  | some vote =>
    if vote.voidedAt.isSome then some (db, .error (.api .alreadyVoided))
    else
      let voided := void vote byUser reason now
      match db.votes.updateRow vote voided with
      | .error e => some (db, .error (.db e))
      | .ok votes =>
        (db.write (log ak now .voteVoided request (some byUser) none (some (voteTarget vote))
          (voidMetadata vote reason))).map fun db => ({ db with votes }, .ok voided)

/-- **What a void does:** nothing and an error, or the voiding of a vote that was not voided and its
entry. -/
theorem voidVote_cases {db db' : Database} {voteId byUser : Id} {reason : String}
    {request : Option Request} {now : Time} {ak : Keys} {r : Except Raised Vote}
    (h : voidVote db voteId byUser reason request now ak = some (db', r)) :
    (db' = db ∧ ∃ e, r = .error e ∧ e ≠ .api .alreadyVoted) ∨
      ∃ vote ∈ db.votes.rows, vote.id = voteId ∧ vote.voidedAt = none ∧
        r = .ok (void vote byUser reason now) ∧ ∃ votes audit e,
        votes.rows = (db.votes.rows.map fun v =>
          if v.id = vote.id then void vote byUser reason now else v) ∧
        log ak now .voteVoided request (some byUser) none (some (voteTarget vote))
          (voidMetadata vote reason) = some e ∧
        audit.rows = db.audit.rows ++ [e] ∧ db' = { db with votes, audit } := by
  unfold voidVote at h
  split at h
  · obtain ⟨rfl, rfl⟩ := Prod.mk.inj (Option.some.inj h)
    exact Or.inl ⟨rfl, _, rfl, by simp [voteNotFound]⟩
  · next vote hv =>
    obtain ⟨hmem, hid⟩ := get?_eq_some.mp hv
    split_ifs at h with hvoid
    · obtain ⟨rfl, rfl⟩ := Prod.mk.inj (Option.some.inj h)
      exact Or.inl ⟨rfl, _, rfl, by simp⟩
    · simp only at h
      split at h
      · obtain ⟨rfl, rfl⟩ := Prod.mk.inj (Option.some.inj h)
        exact Or.inl ⟨rfl, _, rfl, by simp⟩
      · next votes hu =>
        obtain ⟨db₁, hw, h⟩ := Option.map_eq_some_iff.mp h
        obtain ⟨rfl, rfl⟩ := Prod.mk.inj h
        obtain ⟨e, audit, he, -, ha, rfl⟩ := Database.write_eq_some hw
        obtain ⟨-, -, -, hrows⟩ := updateRow_ok.mp hu
        have hact : vote.voidedAt = none := by simpa using hvoid
        exact Or.inr ⟨vote, hmem, hid, hact, rfl, votes, audit, e, hrows, he, ha, rfl⟩

/-- A void takes the same course when only the audit log differs. -/
theorem voidVote_unlogged {db db' d : Database} {voteId byUser : Id} {reason : String}
    {request : Option Request} {now : Time} {ak : Keys} {r : Except Raised Vote}
    (hd : d.unlogged = db.unlogged)
    (h : voidVote db voteId byUser reason request now ak = some (db', r)) :
    ∃ ak' d', voidVote d voteId byUser reason request now ak' = some (d', r) ∧
      d'.unlogged = db'.unlogged := by
  have hvotes : d.votes = db.votes := Database.votes_of_unlogged hd
  unfold voidVote at h ⊢
  rw [hvotes]
  split at h
  · obtain ⟨rfl, rfl⟩ := Prod.mk.inj (Option.some.inj h)
    exact ⟨ak, d, rfl, hd⟩
  · next vote hv =>
    split_ifs at h ⊢ with hvoid
    · obtain ⟨rfl, rfl⟩ := Prod.mk.inj (Option.some.inj h)
      exact ⟨ak, d, rfl, hd⟩
    · simp only at h ⊢
      split at h
      · next e he =>
        obtain ⟨rfl, rfl⟩ := Prod.mk.inj (Option.some.inj h)
        exact ⟨ak, d, rfl, hd⟩
      · next votes hu =>
        obtain ⟨db₁, hw, h⟩ := Option.map_eq_some_iff.mp h
        obtain ⟨rfl, rfl⟩ := Prod.mk.inj h
        obtain ⟨ak', d', hw'⟩ := Database.exists_write hw d
        refine ⟨ak', { d' with votes }, by simp only [hw', Option.map_some], ?_⟩
        have hu : d'.unlogged = db₁.unlogged :=
          (Database.unlogged_write hw').trans (hd.trans (Database.unlogged_write hw).symm)
        exact congrArg (fun x : Database => { x with votes }) hu

end KwAwards.Voting.Services
