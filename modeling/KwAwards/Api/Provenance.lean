import KwAwards.Api.Accountability

/-! # Where votes and decisions come from

A stored vote was cast by a request of its voter while voting was open (`CastBy`), a voided one was
voided by a request of the event admin it names (`VoidedBy`), and a nomination that is decided was
decided by a request of a moderator (`DecidedBy`), each with its entry in the audit log
(`provenance_of_run`). So nothing that a result counts, or leaves out, comes from anywhere else. -/

namespace KwAwards.Api.Provenance

open KwAwards.Lib.Tables KwAwards.Lib.Run KwAwards.Common.Base KwAwards.Common.Exceptions
open KwAwards.Accounts.Permissions KwAwards.Audit.Log KwAwards.Audit.Attribution
open KwAwards.Nominations.Models KwAwards.Nominations.Services KwAwards.Nominations.Submission
open KwAwards.Events.Services KwAwards.Voting.Models KwAwards.Voting.Votes KwAwards.Voting.Services
open KwAwards.Voting.Otp KwAwards.Voting.Authentication KwAwards.Voting.Entries
open KwAwards.Voting.Purge KwAwards.Store KwAwards.Api.Dispatch KwAwards.Api.Actions
open KwAwards.Api.Guards
open KwAwards.Platform (Op)

/-! ### What an operation does to the votes -/

/-- **The votes after an operation:** as they were, with the vote of a cast, or with one voided. -/
inductive VotesMove (cfg : Platform.Config) (db db' : Database) : Op → Prop
  | kept {op : Op} (h : db'.votes = db.votes) : VotesMove cfg db db' op
  | cast {header : String} {nomination : Id} {client : Client} {authAt checkAt now : Time}
    {vk ak : Keys}
    (voter : Voter) (c : Candidate) (e : AuditLog)
    (hauth : authenticate cfg.decode db authAt header = .ok (some voter))
    (hc : getNomination db nomination = some c) (hopen : c.event.votingIsOpen checkAt = true)
    (hrows : db'.votes.rows =
      db.votes.rows ++ [newVote c voter.id (client.request (.voter voter.id)) now vk])
    (haudit : db'.audit.rows = db.audit.rows ++ [e]) (haction : e.action = .voteCast)
    (hactor : e.actorVoter = some voter.id)
    (htarget : e.target =
      some (voteTarget (newVote c voter.id (client.request (.voter voter.id)) now vk))) :
    VotesMove cfg db db' (.castVote header nomination client authAt checkAt now vk ak)
  | voided {vote user : Id} {reason : String} {client : Client} {now : Time} {ak : Keys} (v : Vote)
    (e : AuditLog) (hmem : v ∈ db.votes.rows) (hid : v.id = vote) (hactive : v.voidedAt = none)
    (hrows : db'.votes.rows =
      db.votes.rows.map fun w => if w.id = v.id then void v user reason now else w)
    (haudit : db'.audit.rows = db.audit.rows ++ [e]) (haction : e.action = .voteVoided)
    (hactor : e.actorUser = some user) (htarget : e.target = some (voteTarget v)) :
    VotesMove cfg db db' (.voidVote vote user reason client now ak)

theorem votesMove_of_catalogueOnly {cfg : Platform.Config} {op : Op} {db db' : Database}
    (h : CatalogueOnly db db') : VotesMove cfg db db' op := by
  obtain ⟨_, _, _, _, -, rfl⟩ := h
  exact .kept rfl

theorem votesMove_castFreeVote {cfg : Platform.Config} {header : String} {db db' : Database}
    {voter : Voter}
    {nomination : Id} {client : Client} {authAt checkAt now : Time} {vk ak : Keys}
    {r : Except Raised Vote} (hauth : authenticate cfg.decode db authAt header = .ok (some voter))
    (h : castFreeVote db voter.id nomination (client.request (.voter voter.id)) checkAt now vk ak =
      some (db', r)) :
    VotesMove cfg db db' (.castVote header nomination client authAt checkAt now vk ak) := by
  unfold castFreeVote at h
  split at h
  · obtain ⟨rfl, -⟩ := Prod.mk.inj (Option.some.inj h)
    exact .kept rfl
  · next c hc =>
    split_ifs at h with hopen
    · obtain ⟨⟨db₁, r₁⟩, hx, h⟩ := Option.bind_eq_some_iff.mp h
      rcases insertVote_cases hx with
        ⟨-, ⟨-, rfl, rfl⟩ | ⟨-, rfl, votes, audit, e, hv, he, haudit, rfl⟩⟩
      · simp only [isUniqueViolation_iff.mpr, if_true] at h
        obtain ⟨db₂, hw, h⟩ := Option.map_eq_some_iff.mp h
        obtain ⟨rfl, -⟩ := Prod.mk.inj h
        obtain ⟨e, audit, -, -, -, rfl⟩ := Database.write_eq_some hw
        exact .kept rfl
      · obtain ⟨rfl, -⟩ := Prod.mk.inj (Option.some.inj h)
        obtain ⟨-, -, haction, htarget, -, -, hactor⟩ := log_eq_some he
        exact .cast voter c e hauth hc hopen hv haudit haction hactor htarget
    · obtain ⟨rfl, -⟩ := Prod.mk.inj (Option.some.inj h)
      exact .kept rfl

theorem votesMove_of_step {cfg : Platform.Config} {p p' : Platform.State} {op : Op}
    (h : Platform.step cfg p op = some p') : VotesMove cfg p.db p'.db op := by
  cases op with
  | submitNomination captcha a user client now nominee nk ak =>
    obtain ⟨⟨db, x⟩, hx, rfl⟩ := Option.map_eq_some_iff.mp h
    obtain ⟨rfl, -⟩ | ⟨_, _, _, _, _, -, -, -, -, -, -, rfl⟩ := createNomination_cases hx
    · exact .kept rfl
    · exact .kept rfl
  | reviewNomination a now ak =>
    obtain ⟨⟨db, x⟩, hx, rfl⟩ := Option.map_eq_some_iff.mp h
    obtain ⟨rfl, -⟩ | ⟨_, _, _, -, -, -, -, -, rfl⟩ := reviewNomination_cases hx
    · exact .kept rfl
    · exact .kept rfl
  | changeStatus event new user client now ak =>
    obtain ⟨⟨db, x⟩, hx, rfl⟩ := Option.map_eq_some_iff.mp h
    obtain ⟨rfl, -⟩ | ⟨_, _, _, -, -, -, -, -, rfl⟩ := changeStatus_cases hx
    · exact .kept rfl
    · exact .kept rfl
  | requestOtp phoneE164 client code now vk ck ak =>
    obtain ⟨⟨db, cache, x⟩, hx, rfl⟩ := Option.map_eq_some_iff.mp h
    obtain ⟨db₁, _, _, _, _, hv, -, -, -, -, rfl⟩ := requestOtp_entry hx
    rcases getOrCreateVoter_cases hv with ⟨-, rfl⟩ | ⟨-, -, -, -, -, _, -, rfl⟩
    · exact .kept rfl
    · exact .kept rfl
  | verifyOtp phoneE164 code client now ak =>
    obtain ⟨⟨db, o, x⟩, hx, rfl⟩ := Option.map_eq_some_iff.mp h
    obtain ⟨_, _, _, -, -, ⟨_, -, -, -, -, rfl⟩ | ⟨-, -, rfl⟩⟩ := verifyOtp_entry hx
    · exact .kept rfl
    · exact .kept rfl
  | setBlocked voter blocked now =>
    obtain rfl := Option.some.inj h
    exact .kept rfl
  | castVote header nomination client authAt checkAt now vk ak =>
    simp only [Platform.step] at h
    split at h
    · next voter hauth =>
      obtain ⟨⟨db, x⟩, hx, rfl⟩ := Option.map_eq_some_iff.mp h
      exact votesMove_castFreeVote hauth hx
    · obtain rfl := Option.some.inj h
      exact .kept rfl
  | voidVote vote user reason client now ak =>
    obtain ⟨⟨db, x⟩, hx, rfl⟩ := Option.map_eq_some_iff.mp h
    obtain ⟨rfl, -⟩ | ⟨v, hmem, hid, hactive, -, votes, audit, e, hrows, he, haudit, rfl⟩ :=
      voidVote_cases hx
    · exact .kept rfl
    · obtain ⟨-, -, haction, htarget, -, hactor, -⟩ := log_eq_some he
      refine .voided v e hmem hid hactive hrows haudit haction ?_ htarget
      simp [hactor, actorUserOf]
  | purge olderThanHours execute now =>
    obtain rfl := Option.some.inj h
    exact .kept (by rw [(purged_handle p.db now olderThanHours execute).frame])
  | _ => exact votesMove_of_catalogueOnly (catalogueOnly_of_step h rfl)

/-! ### What an operation decides -/

/-- **A nomination after an operation** was there before it, is a new one, or is the one that is
reviewed. -/
theorem nomination_of_step {cfg : Platform.Config} {p p' : Platform.State} {op : Op}
    (h : Platform.step cfg p op = some p') {w : Nomination} (hw : w ∈ p'.db.nominations.rows) :
    w ∈ p.db.nominations.rows ∨ (w.status = .pending ∧ w.reviewedBy = none) ∨
      ∃ a now ak locked e, op = .reviewNomination a now ak ∧
        p.db.nominations.get? a.nomination = some locked ∧ locked.status = .pending ∧
        w = reviewed locked a now ∧ p'.db.audit.rows = p.db.audit.rows ++ [e] ∧
        OfUser (reviewAction a) a.reviewer (nominationTarget a.nomination) a.request now e := by
  cases op with
  | submitNomination captcha a user client now nominee nk ak =>
    obtain ⟨⟨db, x⟩, hx, rfl⟩ := Option.map_eq_some_iff.mp h
    obtain ⟨rfl, -⟩ | ⟨d, nominees, nominations, _, _, -, -, hn, -, -, -, rfl⟩ :=
      createNomination_cases hx
    · exact Or.inl hw
    · rw [(Table.insert_eq_some.mp hn).2] at hw
      rcases List.mem_append.mp hw with hold | hnew
      · exact Or.inl hold
      · rw [List.mem_singleton.mp hnew]
        exact Or.inr (Or.inl ⟨rfl, rfl⟩)
  | reviewNomination a now ak =>
    obtain ⟨⟨db, x⟩, hx, rfl⟩ := Option.map_eq_some_iff.mp h
    obtain ⟨rfl, -⟩ | ⟨locked, audit, e, hget, hpending, -, he, hrows, rfl⟩ :=
      reviewNomination_cases hx
    · exact Or.inl hw
    · rcases Table.mem_put.mp hw with hrow | ⟨hold, -⟩
      · obtain ⟨-, -, hact, htarget, -, huser, hvoter⟩ := log_eq_some he
        have hid : locked.id = a.nomination := Table.key_of_get? hget
        rw [hid] at htarget
        refine Or.inr
          (Or.inr ⟨a, now, ak, locked, e, rfl, hget, hpending, hrow, hrows, hact, ?_, ?_, htarget,
          stamped_of_log he⟩)
        · simp [huser, actorUserOf]
        · simp [hvoter, actorVoterOf]
      · exact Or.inl hold
  | changeStatus event new user client now ak =>
    obtain ⟨⟨db, x⟩, hx, rfl⟩ := Option.map_eq_some_iff.mp h
    obtain ⟨rfl, -⟩ | ⟨_, _, _, -, -, -, -, -, rfl⟩ := changeStatus_cases hx
    · exact Or.inl hw
    · exact Or.inl hw
  | requestOtp phoneE164 client code now vk ck ak =>
    obtain ⟨⟨db, cache, x⟩, hx, rfl⟩ := Option.map_eq_some_iff.mp h
    obtain ⟨db₁, _, _, _, _, hv, -, -, -, -, rfl⟩ := requestOtp_entry hx
    rcases getOrCreateVoter_cases hv with ⟨-, rfl⟩ | ⟨-, -, -, -, -, _, -, rfl⟩
    · exact Or.inl hw
    · exact Or.inl hw
  | verifyOtp phoneE164 code client now ak =>
    obtain ⟨⟨db, o, x⟩, hx, rfl⟩ := Option.map_eq_some_iff.mp h
    obtain ⟨_, _, _, -, -, ⟨_, -, -, -, -, rfl⟩ | ⟨-, -, rfl⟩⟩ := verifyOtp_entry hx
    · exact Or.inl hw
    · exact Or.inl hw
  | setBlocked voter blocked now =>
    obtain rfl := Option.some.inj h
    exact Or.inl hw
  | castVote header nomination client authAt checkAt now vk ak =>
    simp only [Platform.step] at h
    split at h
    · obtain ⟨⟨db, x⟩, hx, rfl⟩ := Option.map_eq_some_iff.mp h
      rw [(castFreeVote_cases hx).1] at hw
      exact Or.inl hw
    · obtain rfl := Option.some.inj h
      exact Or.inl hw
  | voidVote vote user reason client now ak =>
    obtain ⟨⟨db, x⟩, hx, rfl⟩ := Option.map_eq_some_iff.mp h
    obtain ⟨rfl, -⟩ | ⟨_, -, -, -, -, _, _, _, -, -, -, rfl⟩ := voidVote_cases hx
    · exact Or.inl hw
    · exact Or.inl hw
  | purge olderThanHours execute now =>
    obtain rfl := Option.some.inj h
    rw [(purged_handle p.db now olderThanHours execute).frame] at hw
    exact Or.inl hw
  | _ =>
    obtain ⟨_, _, _, _, hsub, hdb⟩ := catalogueOnly_of_step h rfl
    rw [hdb] at hw
    exact Or.inl (hsub w hw)

/-! ### What a request does -/

/-- The entry that a step writes. -/
def WritesEntry (t t' : State) (P : AuditLog → Prop) : Prop :=
  ∃ e, t'.db.audit.rows = t.db.audit.rows ++ [e] ∧ P e

/-- **A request casts a vote:** its voter's, for a nomination that can be voted on while voting is
open. -/
structure CastBy (cfg : Config) (t : State) (i : Input) (t' : State) (v : Vote) : Prop where
  voter : ∃ voter, ByVoter cfg t i voter ∧ voter.id = v.voter
  voting : ∃ checkAt vk r m c, i = .request (.castVote (.ok v.nomination) checkAt vk) r m ∧
    getNomination t.db v.nomination = some c ∧ c.event.votingIsOpen checkAt = true ∧
    c.award.id = v.award ∧ c.event.id = v.event
  entry : WritesEntry t t' fun e =>
    e.action = .voteCast ∧ e.actorVoter = some v.voter ∧ e.target = some (voteTarget v)

/-- **A request voids a vote:** the event admin's that the row names, at the instant and for the
reason that the row gives. -/
structure VoidedBy (cfg : Config) (t : State) (i : Input) (t' : State) (v : Vote) : Prop where
  holder : ∃ account, requester cfg t i = .staff account ∧
    t.accounts.get? account.id = some account ∧
    account.Has eventAdmin ∧ v.voidedBy = some account.id
  request : ∃ r m, i = .request (.voidVote v.id (.ok v.voidReason)) r m ∧ v.voidedAt = some m.now
  entry : WritesEntry t t' fun e =>
    e.action = .voteVoided ∧ e.actorUser = v.voidedBy ∧ e.target = some (voteTarget v)

/-- **A request decides a nomination** that is pending: a moderator's. -/
structure DecidedBy (cfg : Config) (t : State) (i : Input) (t' : State)
    (n : Nomination) : Prop where
  pending : ∃ w, t.db.nominations.get? n.id = some w ∧ w.status = .pending
  holder : ∃ account, requester cfg t i = .staff account ∧
    t.accounts.get? account.id = some account ∧
    account.Has moderator ∧
    (∃ w ∈ t'.db.nominations.rows, w.id = n.id ∧ w.status = n.status ∧
      w.reviewedBy = some account.id) ∧
    WritesEntry t t' fun e =>
      e.action = (if n.status = .approved then .nominationApproved else .nominationRejected) ∧
        e.actorUser = some account.id ∧ e.target = some (nominationTarget n.id)

variable {cfg : Config} {s s' t t' : State} {i : Input}

/-- The votes after a step that runs no operation. -/
theorem votes_of_happens (h : Happens cfg t i t') :
    t'.db.votes = t.db.votes ∨ ∃ call r m user op, i = .request call r m ∧
      authenticated cfg t call r m = .ok user ∧
      firstDenial r call.method user call.permissions = none ∧ Runs r m call user op ∧
      VotesMove cfg.toConfig t.db t'.db op := by
  cases h with
  | idle hdb | denied _ _ _ _ _ _ _ _ _ _ _ hdb | login _ _ _ _ _ _ _ _ _ _ hdb | forgotten _ hdb
  | blocked hdb => exact Or.inl (by rw [hdb])
  | ran user op hauth hallow hruns hstep =>
    exact Or.inr ⟨_, _, _, user, op, rfl, hauth, hallow, hruns, votesMove_of_step hstep⟩
  | purged hdb => exact Or.inl (by rw [hdb.frame])

theorem voteTarget_congr {v w : Vote} (h : w.id = v.id) : voteTarget w = voteTarget v := by
  unfold voteTarget
  rw [h]

/-- A cast is one of every later version of its vote. -/
theorem CastBy.of_immutable {v w : Vote} (h : CastBy cfg t i t' w)
    (himm : w.immutable = v.immutable) :
    CastBy cfg t i t' v := by
  have hvoter : w.voter = v.voter := congrArg Immutable.voter himm
  have hnomination : w.nomination = v.nomination := congrArg Immutable.nomination himm
  have haward : w.award = v.award := congrArg Immutable.award himm
  have hevent : w.event = v.event := congrArg Immutable.event himm
  have htarget := voteTarget_congr (congrArg Immutable.id himm : w.id = v.id)
  obtain ⟨hby, hopen, hentry⟩ := h
  rw [hvoter] at hby hentry
  rw [hnomination, haward, hevent] at hopen
  rw [htarget] at hentry
  exact ⟨hby, hopen, hentry⟩

theorem VoidedBy.of_voiding {v w : Vote} (h : VoidedBy cfg t i t' w) (hid : w.id = v.id)
    (hvoiding : w.voiding = v.voiding) : VoidedBy cfg t i t' v := by
  have hat : w.voidedAt = v.voidedAt := congrArg Voiding.voidedAt hvoiding
  have hby : w.voidedBy = v.voidedBy := congrArg Voiding.voidedBy hvoiding
  have hreason : w.voidReason = v.voidReason := congrArg Voiding.voidReason hvoiding
  obtain ⟨hholder, hrequest, hentry⟩ := h
  rw [hby] at hholder hentry
  rw [hid, hreason, hat] at hrequest
  rw [voteTarget_congr hid] at hentry
  exact ⟨hholder, hrequest, hentry⟩

theorem DecidedBy.of_status {n w : Nomination} (h : DecidedBy cfg t i t' w) (hid : w.id = n.id)
    (hstatus : w.status = n.status) : DecidedBy cfg t i t' n := by
  obtain ⟨hpending, hholder⟩ := h
  rw [hid] at hpending hholder
  rw [hstatus] at hholder
  exact ⟨hpending, hholder⟩

/-- The call of a cast. -/
theorem runs_castVote {call : Call} {r : HttpRequest} {m : Moment} {user : RequestUser}
    {header : String} {nomination : Id} {client : Client} {authAt checkAt now : Time} {vk ak : Keys}
    (h : Runs r m call user (.castVote header nomination client authAt checkAt now vk ak)) :
    call = .castVote (.ok nomination) checkAt vk := by
  cases h
  rfl

/-- The call of a void. -/
theorem runs_voidVote {call : Call} {r : HttpRequest} {m : Moment} {user : RequestUser}
    {vote byUser : Id} {reason : String} {client : Client} {now : Time} {ak : Keys}
    (h : Runs r m call user (.voidVote vote byUser reason client now ak)) :
    call = .voidVote vote (.ok reason) ∧ now = m.now ∧
      ∃ account, user = .staff account ∧ byUser = account.id := by
  cases h with
  | voidVote account => exact ⟨rfl, rfl, account, rfl, rfl⟩

/-- Who reviews. -/
theorem runs_reviewNomination {call : Call} {r : HttpRequest} {m : Moment} {user : RequestUser}
    {a : ReviewArgs} {now : Time} {ak : Keys}
    (h : Runs r m call user (.reviewNomination a now ak)) :
    ∃ account, user = .staff account ∧ a.reviewer = account.id := by
  cases h with
  | approve account pk => exact ⟨account, rfl, rfl⟩
  | reject account pk reason => exact ⟨account, rfl, rfl⟩

/-- The account of a request that holds a role. -/
theorem holder_of_holds {call : Call} {r : HttpRequest} {m : Moment} {account : Account}
    {role : String} (hauth : authenticated cfg t call r m = .ok (.staff account))
    (h : Holds cfg t (.request call r m) role) :
    requester cfg t (.request call r m) = .staff account ∧
      t.accounts.get? account.id = some account ∧ account.Has role := by
  obtain ⟨holder, hreq, hstored, hhas⟩ := h
  obtain rfl := RequestUser.staff.inj ((requester_eq hauth).symm.trans hreq)
  exact ⟨requester_eq hauth, hstored, hhas⟩

/-- **A vote that was not there** is cast. -/
theorem castBy_of_step (h : step cfg t i = some t') {w : Vote} (hw : w ∈ t'.db.votes.rows)
    (hnew : ∀ v ∈ t.db.votes.rows, v.immutable ≠ w.immutable) : CastBy cfg t i t' w := by
  obtain hkept | ⟨call, r, m, user, op, rfl, hauth, hallow, hruns, hmove⟩ :=
    votes_of_happens (happens_of_step h)
  · rw [hkept] at hw
    exact absurd rfl (hnew w hw)
  · cases hmove with
    | kept hkept =>
      rw [hkept] at hw
      exact absurd rfl (hnew w hw)
    | cast voter c e hvoter hc hopen hrows haudit haction hactor htarget =>
      rw [hrows] at hw
      rcases List.mem_append.mp hw with hold | hlast
      · exact absurd rfl (hnew w hold)
      · obtain rfl := List.mem_singleton.mp hlast
        have hby := byVoter_of_cast hauth hruns rfl hvoter
        obtain ⟨rfl, -⟩ := linked_of_joined (getNomination_eq_some.mp hc).1
        obtain rfl := runs_castVote hruns
        exact ⟨⟨voter, hby, rfl⟩, ⟨_, _, r, m, c, rfl, hc, hopen, rfl, rfl⟩,
          ⟨e, haudit, haction, hactor, htarget⟩⟩
    | voided v e hmem _ _ hrows =>
      rw [hrows] at hw
      obtain ⟨w₀, hw₀, rfl⟩ := List.mem_map.mp hw
      split_ifs at hnew
      · exact absurd rfl (hnew v hmem)
      · exact absurd rfl (hnew w₀ hw₀)

/-- **A vote that was not voided** is voided. -/
theorem voidedBy_of_step (h : step cfg t i = some t') {w : Vote} (hw : w ∈ t'.db.votes.rows)
    (hvoided : w.voidedAt ≠ none)
    (hnew : ∀ v ∈ t.db.votes.rows, v.id = w.id → v.voiding ≠ w.voiding) :
    VoidedBy cfg t i t' w := by
  obtain hkept | ⟨call, r, m, user, op, rfl, hauth, hallow, hruns, hmove⟩ :=
    votes_of_happens (happens_of_step h)
  · rw [hkept] at hw
    exact absurd rfl (hnew w hw rfl)
  · cases hmove with
    | kept hkept =>
      rw [hkept] at hw
      exact absurd rfl (hnew w hw rfl)
    | cast voter c e _ _ _ hrows =>
      rw [hrows] at hw
      rcases List.mem_append.mp hw with hold | hlast
      · exact absurd rfl (hnew w hold rfl)
      · rw [List.mem_singleton.mp hlast] at hvoided
        exact absurd rfl hvoided
    | voided v e hmem hid hactive hrows haudit haction hactor htarget =>
      rw [hrows] at hw
      obtain ⟨w₀, hw₀, rfl⟩ := List.mem_map.mp hw
      by_cases hv : w₀.id = v.id
      · rw [if_pos hv]
        have hholds := holds_of_runs hauth hallow hruns rfl
        obtain ⟨rfl, rfl, account, rfl, rfl⟩ := runs_voidVote hruns
        obtain ⟨hreq, hstored, hhas⟩ := holder_of_holds hauth hholds
        refine ⟨⟨account, hreq, hstored, hhas, rfl⟩, ⟨r, m, ?_, rfl⟩,
          ⟨e, haudit, haction, hactor, htarget⟩⟩
        rw [← hid]
        rfl
      · rw [if_neg hv] at hnew
        exact absurd rfl (hnew w₀ hw₀ rfl)

/-- The decision of a reset of a reviewer is the one that was. -/
theorem status_forgetReviewer (account : Id) (n : Nomination) :
    (forgetReviewer account n).status = n.status := by
  unfold forgetReviewer
  split_ifs
  · rfl
  · rfl

/-- **A nomination that was not decided** is decided. -/
theorem decidedBy_of_step (h : step cfg t i = some t') {w : Nomination}
    (hw : w ∈ t'.db.nominations.rows) (hdecided : w.status ≠ .pending)
    (hnew : ∀ v ∈ t.db.nominations.rows, v.id = w.id → v.status ≠ w.status) :
    DecidedBy cfg t i t' w := by
  cases happens_of_step h with
  | idle hdb | denied _ _ _ _ _ _ _ _ _ _ _ hdb | login _ _ _ _ _ _ _ _ _ _ hdb | blocked hdb =>
    rw [hdb] at hw
    exact absurd rfl (hnew w hw rfl)
  | ran user op hauth hallow hruns hstep =>
    rcases nomination_of_step hstep hw with
      hold | ⟨hpending, -⟩ | ⟨a, now, ak, locked, e, rfl, hget, hpending, rfl, hrows, he⟩
    · exact absurd rfl (hnew w hold rfl)
    · exact absurd hpending hdecided
    · have hid : locked.id = a.nomination := Table.key_of_get? hget
      have hholds := holds_of_runs hauth hallow hruns rfl
      obtain ⟨account, rfl, hreviewer⟩ := runs_reviewNomination hruns
      obtain ⟨hreq, hstored, hhas⟩ := holder_of_holds hauth hholds
      refine ⟨⟨locked, ?_, hpending⟩, account, hreq, hstored, hhas, ⟨_, hw, rfl, rfl, ?_⟩, e, hrows,
        ?_, ?_, ?_⟩
      · rw [← hget, ← hid]
        rfl
      · simp [reviewed, hreviewer]
      · rw [he.action, reviewAction, reviewed]
        cases a.approve <;> rfl
      · rw [he.actorUser, hreviewer]
      · rw [he.target, ← hid]
        rfl
  | forgotten _ hdb =>
    rw [hdb] at hw
    obtain ⟨w₀, hw₀, rfl⟩ := List.mem_map.mp hw
    exact absurd (status_forgetReviewer _ w₀).symm (hnew w₀ hw₀ (id_forgetReviewer _ w₀).symm)
  | purged hdb =>
    rw [hdb.frame] at hw
    exact absurd rfl (hnew w hw rfl)

/-! ### Every run -/

/-- **Nothing comes from anywhere else:** in every run of requests, with any headers and any changes
of accounts between them, a vote that was not there at the start was cast at a step by a request of
its voter while voting was open, a vote that was not voided at the start was voided at a step by a
request of the event admin it names, and a nomination that was not decided at the start was decided
at a step by a request of a moderator, each with its entry. -/
theorem provenance_of_run {l : List Input} (hr : run (step cfg) s l = some s') :
    (∀ v ∈ s'.db.votes.rows, (∀ w ∈ s.db.votes.rows, w.id ≠ v.id) →
        Sometime (step cfg) (fun t i t' => CastBy cfg t i t' v) s l) ∧
      (∀ v ∈ s'.db.votes.rows, v.voidedAt ≠ none →
        (∀ w ∈ s.db.votes.rows, w.id = v.id → w.voidedAt = none) →
        Sometime (step cfg) (fun t i t' => VoidedBy cfg t i t' v) s l) ∧
      ∀ n ∈ s'.db.nominations.rows, n.status ≠ .pending →
        (∀ w ∈ s.db.nominations.rows, w.id = n.id → w.status = .pending) →
        Sometime (step cfg) (fun t i t' => DecidedBy cfg t i t' n) s l := by
  refine ⟨fun v hv hnew => ?_, fun v hv hvoided hnew => ?_, fun n hn hdecided hnew => ?_⟩
  · have hstart : ¬ ∃ w ∈ s.db.votes.rows, w.immutable = v.immutable := by
      rintro ⟨w, hw, himm⟩
      exact hnew w hw (congrArg Immutable.id himm)
    refine (entered_of_run (fun t => ∃ w ∈ t.db.votes.rows, w.immutable = v.immutable) hr hstart
      ⟨v, hv, rfl⟩).mono fun t i t' ht ⟨hnot, w, hw, himm⟩ => ?_
    exact (castBy_of_step ht hw fun x hx hxw => hnot ⟨x, hx, hxw.trans himm⟩).of_immutable himm
  · have hstart : ¬ ∃ w ∈ s.db.votes.rows, w.id = v.id ∧ w.voiding = v.voiding := by
      rintro ⟨w, hw, hid, hvoiding⟩
      exact hvoided ((congrArg Voiding.voidedAt hvoiding).symm.trans (hnew w hw hid))
    refine (entered_of_run (fun t => ∃ w ∈ t.db.votes.rows, w.id = v.id ∧ w.voiding = v.voiding)
      hr hstart
      ⟨v, hv, rfl, rfl⟩).mono fun t i t' ht ⟨hnot, w, hw, hid, hvoiding⟩ => ?_
    have hwvoided : w.voidedAt ≠ none := by
      rw [show w.voidedAt = v.voidedAt from congrArg Voiding.voidedAt hvoiding]
      exact hvoided
    have hwnew : ∀ x ∈ t.db.votes.rows, x.id = w.id → x.voiding ≠ w.voiding :=
      fun x hx hxid hxv => hnot ⟨x, hx, hxid.trans hid, hxv.trans hvoiding⟩
    exact (voidedBy_of_step ht hw hwvoided hwnew).of_voiding hid hvoiding
  · have hstart : ¬ ∃ w ∈ s.db.nominations.rows, w.id = n.id ∧ w.status = n.status := by
      rintro ⟨w, hw, hid, hstatus⟩
      exact hdecided (hstatus.symm.trans (hnew w hw hid))
    refine (entered_of_run (fun t => ∃ w ∈ t.db.nominations.rows, w.id = n.id ∧ w.status = n.status)
      hr
      hstart ⟨n, hn, rfl, rfl⟩).mono fun t i t' ht ⟨hnot, w, hw, hid, hstatus⟩ => ?_
    have hwnew : ∀ x ∈ t.db.nominations.rows, x.id = w.id → x.status ≠ w.status :=
      fun x hx hxid hxs => hnot ⟨x, hx, hxid.trans hid, hxs.trans hstatus⟩
    exact (decidedBy_of_step ht hw (hstatus ▸ hdecided) hwnew).of_status hid hstatus

/-- The season, and its vote is voided. -/
def recount : List Input :=
  season ++ [.request (.voidVote 60 (.ok "double")) (withToken "chair") (moment 70 ⟨77, 8⟩)]

theorem provenance_of_run_recount : ∃ s, run (step demo) (fresh {}) recount = some s ∧
    (s.db.votes.rows.map (fun v => (v.id, v.voidedAt)) = [(60, some 70)] ∧
      s.db.nominations.rows.map Nomination.status = [.approved]) ∧
    (∀ v ∈ s.db.votes.rows, Sometime (step demo) (fun t i t' => CastBy demo t i t' v)
      (fresh {}) recount) ∧
    (∀ v ∈ s.db.votes.rows, v.voidedAt ≠ none →
      Sometime (step demo) (fun t i t' => VoidedBy demo t i t' v) (fresh {}) recount) ∧
    ∀ n ∈ s.db.nominations.rows, n.status ≠ .pending →
      Sometime (step demo) (fun t i t' => DecidedBy demo t i t' n) (fresh {}) recount := by
  have hrows : (run (step demo) (fresh {}) recount).map (fun s =>
      (s.db.votes.rows.map fun v => (v.id, v.voidedAt),
        s.db.nominations.rows.map Nomination.status)) =
        some ([(60, some 70)], [.approved]) := by decide +kernel
  obtain ⟨s, hs, hrows⟩ := Option.map_eq_some_iff.mp hrows
  obtain ⟨hcast, hvoided, hdecided⟩ := provenance_of_run hs
  exact ⟨s, hs, Prod.mk.inj hrows, fun v hv => hcast v hv fun w hw => absurd hw List.not_mem_nil,
    fun v hv hne => hvoided v hv hne fun w hw => absurd hw List.not_mem_nil,
    fun n hn hne => hdecided n hn hne fun w hw => absurd hw List.not_mem_nil⟩

end KwAwards.Api.Provenance
