import KwAwards.Api.Actions
import KwAwards.Audit.Attribution

/-! # What a role guards

`roleOf` is the role that an operation of the platform takes, and a request runs such an operation
for a holder of that role only (`holds_of_runs`). `guarded_run` is what follows for every run:
without a request of an event admin the catalogue and the votes already cast stay as they are, and
without one of a moderator either no nomination is decided; without one of a voter no vote is added,
whatever event admins do. -/

namespace KwAwards.Api.Guards

open KwAwards.Lib.Tables KwAwards.Lib.Run KwAwards.Common.Base KwAwards.Accounts.Authentication
open KwAwards.Accounts.Permissions KwAwards.Audit.Log KwAwards.Audit.Attribution
open KwAwards.Events.Models KwAwards.Events.Services
open KwAwards.Events.Views KwAwards.Nominations.Models KwAwards.Nominations.Services
open KwAwards.Nominations.Submission KwAwards.Voting.Models KwAwards.Voting.Votes
open KwAwards.Voting.Services KwAwards.Voting.Otp KwAwards.Voting.Entries
open KwAwards.Voting.Authentication KwAwards.Voting.PhoneKeys KwAwards.Voting.Purge KwAwards.Store
open KwAwards.Api.Dispatch KwAwards.Api.Actions KwAwards.Accounts.Login
open KwAwards.Platform (Op principalOf)

/-! ### Who makes a request -/

/-- Whom a request is authenticated as; what happens outside the API is nobody's request. -/
def requester (cfg : Config) (s : State) : Input → RequestUser
  | .request call r m =>
    match authenticated cfg s call r m with
    | .ok user => user
    | .error _ => .anonymous
  | _ => .anonymous

/-- **A request of a holder of a role**: a stored account that has it. -/
def Holds (cfg : Config) (s : State) (i : Input) (role : String) : Prop :=
  ∃ account, requester cfg s i = .staff account ∧ s.accounts.get? account.id = some account ∧
    account.Has role

theorem holds_iff {cfg : Config} {s : State} {i : Input} {role : String} : Holds cfg s i role ↔
    (match requester cfg s i with
      | .staff account => s.accounts.get? account.id = some account ∧ account.Has role
      | _ => False) := by
  unfold Holds
  cases requester cfg s i with
  | anonymous | voter => simp
  | staff account => simp

instance (cfg : Config) (s : State) (i : Input) (role : String) : Decidable (Holds cfg s i role) :=
  @decidable_of_iff _ _ holds_iff.symm (by split <;> infer_instance)

/-- **A request of a voter**: stored, verified and not blocked. -/
structure ByVoter (cfg : Config) (s : State) (i : Input) (voter : Voter) : Prop where
  requester : requester cfg s i = .voter voter
  stored : s.db.voters.get? voter.id = some voter
  verified : voter.verifiedAt.isSome = true
  notBlocked : voter.isBlocked = false

theorem not_byVoter_iff {cfg : Config} {s : State} {i : Input} :
    (∀ voter, ¬ ByVoter cfg s i voter) ↔
      (match requester cfg s i with
        | .voter voter => ¬ (s.db.voters.get? voter.id = some voter ∧
            voter.verifiedAt.isSome = true ∧ voter.isBlocked = false)
        | _ => True) := by
  cases hreq : requester cfg s i with
  | anonymous | staff =>
    refine iff_true_intro fun voter hby => ?_
    have := hby.requester
    rw [hreq] at this
    cases this
  | voter v =>
    constructor
    · rintro h ⟨hstored, hverified, hblocked⟩
      exact h v ⟨hreq, hstored, hverified, hblocked⟩
    · rintro h voter ⟨hv, hstored, hverified, hblocked⟩
      obtain rfl := RequestUser.voter.inj (hreq.symm.trans hv)
      exact h ⟨hstored, hverified, hblocked⟩

instance (cfg : Config) (s : State) (i : Input) : Decidable (∀ voter, ¬ ByVoter cfg s i voter) :=
  @decidable_of_iff _ _ not_byVoter_iff.symm (by split <;> infer_instance)

/-- The role that an operation takes. -/
def roleOf : Op → Option String
  | .changeStatus .. | .createEvent .. | .updateEvent .. | .destroyEvent .. | .createCategory ..
  | .updateCategory .. | .destroyCategory .. | .createAward .. | .updateAward .. | .destroyAward ..
  | .voidVote .. => some eventAdmin
  | .reviewNomination .. => some moderator
  | .submitNomination .. | .requestOtp .. | .verifyOtp .. | .setBlocked .. | .castVote ..
  | .purge .. => none

variable {cfg : Config} {s s' : State} {call : Call} {r : HttpRequest} {m : Moment}
  {user : RequestUser}

theorem requester_eq {call : Call} (hauth : authenticated cfg s call r m = .ok user) :
    requester cfg s (.request call r m) = user := by
  simp only [requester, hauth]

/-- The methods of writes are not safe. -/
theorem method_notMem {call : Call} (h : ∀ action, call ≠ .read action) :
    call.method ∉ safeMethods := by
  cases call with
  | read action => exact absurd rfl (h action)
  | updateEvent _ full | updateCategory _ full | updateAward _ full =>
    cases full <;> simp [Call.method, safeMethods]
  | _ => simp [Call.method, safeMethods]

/-- What a class that lets reads through asks of a write. -/
theorem staff_of_write {role : String}
    (h : firstDenial r call.method user [.roleOrReadOnly role] = none)
    (hwrite : ∀ action, call ≠ .read action) :
    ∃ account, user = .staff account ∧ account.Has role := by
  have hallow := firstDenial_eq_none h _ (List.mem_singleton_self _)
  simp only [Permission.allows, Bool.or_eq_true, decide_eq_true_eq, method_notMem hwrite,
    false_or] at hallow
  exact userHasRole_iff.mp hallow

/-- **An operation runs for a holder of its role.** -/
theorem holds_of_runs {op : Op} {role : String} (hauth : authenticated cfg s call r m = .ok user)
    (hallow : firstDenial r call.method user call.permissions = none)
    (hruns : Runs r m call user op) (hrole : roleOf op = some role) :
    Holds cfg s (.request call r m) role := by
  have hstaff : ∃ account, user = .staff account ∧ account.Has role := by
    cases hruns with
    | createEvent | updateEvent | destroyEvent | createCategory | updateCategory | destroyCategory
    | createAward | updateAward | destroyAward =>
      obtain rfl := Option.some.inj hrole
      exact staff_of_write hallow fun action h => nomatch h
    | setStatus | voidVote | approve | reject =>
      obtain rfl := Option.some.inj hrole
      exact staff_of_allows hallow
    | submitNomination | otpRequest | otpVerify | castVote => cases hrole
  obtain ⟨account, rfl, hhas⟩ := hstaff
  exact ⟨account, requester_eq hauth, (perform_eq_staff hauth).stored, hhas⟩

/-! ### What an operation leaves -/

/-- What is left by an operation that takes no event admin: the catalogue, and the votes but for the
one of a voter whom the header authenticates. -/
structure Leaves (cfg : Platform.Config) (op : Op) (db db' : Database) : Prop where
  events : db'.events = db.events
  categories : db'.categories = db.categories
  awards : db'.awards = db.awards
  votes : db'.votes = db.votes ∨ ∃ header nomination client authAt checkAt now vk ak voter v,
    op = .castVote header nomination client authAt checkAt now vk ak ∧
      authenticate cfg.decode db authAt header = .ok (some voter) ∧
      db'.votes.rows = db.votes.rows ++ [v] ∧ v.voter = voter.id
  nominations : db'.nominations = db.nominations ∨
    (∃ n, db'.nominations.rows = db.nominations.rows ++ [n] ∧ n.status = .pending) ∨
      roleOf op = some moderator

theorem leaves_of_content {pcfg : Platform.Config} {op : Op} {db db' : Database}
    (he : db'.events = db.events) (hc : db'.categories = db.categories)
    (ha : db'.awards = db.awards) (hv : db'.votes = db.votes)
    (hn : db'.nominations = db.nominations) : Leaves pcfg op db db' :=
  ⟨he, hc, ha, Or.inl hv, Or.inl hn⟩

/-- **What is left** by an operation that takes no event admin. -/
theorem leaves_of_step {pcfg : Platform.Config} {p p' : Platform.State} {op : Op}
    (h : Platform.step pcfg p op = some p') (hrole : roleOf op ≠ some eventAdmin) :
    Leaves pcfg op p.db p'.db := by
  cases op with
  | changeStatus | createEvent | updateEvent | destroyEvent | createCategory | updateCategory
  | destroyCategory | createAward | updateAward | destroyAward | voidVote => exact absurd rfl hrole
  | submitNomination captcha a user client now nominee nk ak =>
    obtain ⟨⟨db, x⟩, hx, rfl⟩ := Option.map_eq_some_iff.mp h
    obtain ⟨rfl, -⟩ | ⟨d, nominees, nominations, audit, e, -, -, hn, -, -, -, rfl⟩ :=
      createNomination_cases hx
    · exact leaves_of_content rfl rfl rfl rfl rfl
    · exact ⟨rfl, rfl, rfl, Or.inl rfl, Or.inr (Or.inl ⟨_, (Table.insert_eq_some.mp hn).2, rfl⟩)⟩
  | reviewNomination a now ak =>
    obtain ⟨⟨db, x⟩, hx, rfl⟩ := Option.map_eq_some_iff.mp h
    obtain ⟨rfl, -⟩ | ⟨locked, audit, e, -, -, -, -, -, rfl⟩ := reviewNomination_cases hx
    · exact leaves_of_content rfl rfl rfl rfl rfl
    · exact ⟨rfl, rfl, rfl, Or.inl rfl, Or.inr (Or.inr rfl)⟩
  | requestOtp phoneE164 client code now vk ck ak =>
    obtain ⟨⟨db, cache, x⟩, hx, rfl⟩ := Option.map_eq_some_iff.mp h
    obtain ⟨db₁, voter, e, challenges, audit, hv, -, -, -, -, rfl⟩ := requestOtp_entry hx
    rcases getOrCreateVoter_cases hv with ⟨-, rfl⟩ | ⟨-, -, -, -, -, voters, -, rfl⟩
    · exact leaves_of_content rfl rfl rfl rfl rfl
    · exact leaves_of_content rfl rfl rfl rfl rfl
  | verifyOtp phoneE164 code client now ak =>
    obtain ⟨⟨db, o, x⟩, hx, rfl⟩ := Option.map_eq_some_iff.mp h
    obtain ⟨e, challenges, audit, -, -, ⟨_, -, -, -, -, rfl⟩ | ⟨-, -, rfl⟩⟩ := verifyOtp_entry hx
    · exact leaves_of_content rfl rfl rfl rfl rfl
    · exact leaves_of_content rfl rfl rfl rfl rfl
  | setBlocked voter blocked now =>
    obtain rfl := Option.some.inj h
    exact leaves_of_content rfl rfl rfl rfl rfl
  | castVote header nomination client authAt checkAt now vk ak =>
    simp only [Platform.step] at h
    split at h
    · next voter hauth =>
      obtain ⟨⟨db, x⟩, hx, rfl⟩ := Option.map_eq_some_iff.mp h
      obtain rfl | ⟨e, votes, audit, -, -, -, -, rfl, rfl | ⟨c, -, -, hrows⟩⟩ :=
        castFreeVote_entry hx
      · exact leaves_of_content rfl rfl rfl rfl rfl
      · exact leaves_of_content rfl rfl rfl rfl rfl
      · exact ⟨rfl, rfl, rfl,
          Or.inr ⟨header, nomination, client, authAt, checkAt, now, vk, ak, voter, _, rfl,
          hauth, hrows, rfl⟩, Or.inl rfl⟩
    · obtain rfl := Option.some.inj h
      exact leaves_of_content rfl rfl rfl rfl rfl
  | purge olderThanHours execute now =>
    obtain rfl := Option.some.inj h
    have hframe := (purged_handle p.db now olderThanHours execute).frame
    exact leaves_of_content (by rw [hframe]) (by rw [hframe]) (by rw [hframe]) (by rw [hframe])
      (by rw [hframe])

/-! ### What happens without a role -/

/-- What was decided about a nomination. -/
def decision (n : Nomination) : Id × Id × Id × NominationStatus :=
  (n.id, n.nominee, n.award, n.status)

/-- Where no event admin makes a request, nothing changes in the catalogue, and the votes that were
there stay as they are; one that is added is the requester's. -/
structure Unadministered (cfg : Config) (s : State) (i : Input) (s' : State) : Prop where
  events : s'.db.events = s.db.events
  categories : s'.db.categories = s.db.categories
  awards : s'.db.awards = s.db.awards
  votes : s'.db.votes = s.db.votes ∨ ∃ voter v, ByVoter cfg s i voter ∧
    s'.db.votes.rows = s.db.votes.rows ++ [v] ∧ v.voter = voter.id

theorem unadministered_of_eq {i : Input} (he : s'.db.events = s.db.events)
    (hc : s'.db.categories = s.db.categories) (ha : s'.db.awards = s.db.awards)
    (hv : s'.db.votes = s.db.votes) : Unadministered cfg s i s' := ⟨he, hc, ha, Or.inl hv⟩

/-- Nominations are added as pending ones, unless a moderator makes the request. -/
def Undecided (s s' : State) : Prop :=
  ∃ new, s'.db.nominations.rows.map decision = s.db.nominations.rows.map decision ++ new ∧
    ∀ d ∈ new, d.2.2.2 = NominationStatus.pending

theorem undecided_of_eq
    (h : s'.db.nominations.rows.map decision = s.db.nominations.rows.map decision) :
    Undecided s s' := ⟨[], by rw [h, List.append_nil], fun _ hd => absurd hd List.not_mem_nil⟩

theorem Undecided.trans {s₁ s₂ s₃ : State} (h₁ : Undecided s₁ s₂) (h₂ : Undecided s₂ s₃) :
    Undecided s₁ s₃ := by
  obtain ⟨new₁, hrows₁, hnew₁⟩ := h₁
  obtain ⟨new₂, hrows₂, hnew₂⟩ := h₂
  refine ⟨new₁ ++ new₂, by rw [hrows₂, hrows₁, List.append_assoc], fun d hd => ?_⟩
  rcases List.mem_append.mp hd with hd | hd
  · exact hnew₁ d hd
  · exact hnew₂ d hd

/-- The vote of a cast is the requester's. -/
theorem byVoter_of_cast {op : Op} (hauth : authenticated cfg s call r m = .ok user)
    (hruns : Runs r m call user op) {header : String} {nomination : Id} {client : Client}
    {authAt checkAt now : Time} {vk ak : Keys} {voter : Voter}
    (hop : op = .castVote header nomination client authAt checkAt now vk ak)
    (hvoter : authenticate cfg.decode s.db authAt header = .ok (some voter)) :
    ByVoter cfg s (.request call r m) voter := by
  subst hop
  cases hruns with
  | castVote v _ _ _ _ hsent =>
    obtain ⟨-, ⟨hd, hd', hheader⟩, hstored, hblocked, hverified⟩ := perform_eq_voter hauth
    obtain rfl := Option.some.inj (hsent.symm.trans hd')
    obtain rfl := Option.some.inj (Except.ok.inj (hheader.symm.trans hvoter))
    exact ⟨requester_eq hauth, hstored, hverified, hblocked⟩

theorem decision_forgetReviewer (account : Id) (n : Nomination) :
    decision (forgetReviewer account n) = decision n := by
  unfold forgetReviewer
  split_ifs
  · rfl
  · rfl

/-- **A step without a request of an event admin.** -/
theorem unadministered_of_step {i : Input} (h : step cfg s i = some s')
    (hno : ¬ Holds cfg s i eventAdmin) : Unadministered cfg s i s' := by
  cases happens_of_step h with
  | idle hdb | denied _ _ _ _ _ _ _ _ _ _ _ hdb | login _ _ _ _ _ _ _ _ _ _ hdb | forgotten _ hdb
  | blocked hdb =>
    exact unadministered_of_eq (by rw [hdb]) (by rw [hdb]) (by rw [hdb]) (by rw [hdb])
  | ran user op hauth hallow hruns hstep =>
    have hrole : roleOf op ≠ some eventAdmin := fun hrole =>
      hno (holds_of_runs hauth hallow hruns hrole)
    obtain ⟨he, hc, ha, hvotes, -⟩ := leaves_of_step hstep hrole
    refine ⟨he, hc, ha, hvotes.imp_right ?_⟩
    rintro ⟨header, nomination, client, authAt, checkAt, now, vk, ak, voter, v, hop, hvoter,
      hrows, hv⟩
    exact ⟨voter, v, byVoter_of_cast hauth hruns hop hvoter, hrows, hv⟩
  | purged hdb =>
    have hframe := hdb.frame
    exact unadministered_of_eq (by rw [hframe]) (by rw [hframe]) (by rw [hframe]) (by rw [hframe])

/-- **A step without a request of a moderator or an event admin.** -/
theorem undecided_of_step {i : Input} (h : step cfg s i = some s')
    (hno : ¬ Holds cfg s i eventAdmin) (hno' : ¬ Holds cfg s i moderator) : Undecided s s' := by
  cases happens_of_step h with
  | idle hdb | denied _ _ _ _ _ _ _ _ _ _ _ hdb | login _ _ _ _ _ _ _ _ _ _ hdb | blocked hdb =>
    exact undecided_of_eq (by rw [hdb])
  | ran user op hauth hallow hruns hstep =>
    have hrole : roleOf op ≠ some eventAdmin := fun hrole =>
      hno (holds_of_runs hauth hallow hruns hrole)
    obtain hn | ⟨n, hrows, hpending⟩ | hmoderator := (leaves_of_step hstep hrole).nominations
    · exact undecided_of_eq (by rw [hn])
    · refine ⟨[decision n], by rw [hrows, List.map_append, List.map_singleton], fun d hd => ?_⟩
      rw [List.mem_singleton.mp hd]
      exact hpending
    · exact absurd (holds_of_runs hauth hallow hruns hmoderator) hno'
  | forgotten _ hdb =>
    refine undecided_of_eq ?_
    rw [hdb]
    show (s.db.nominations.rows.map (forgetReviewer _)).map decision = _
    rw [List.map_map]
    exact List.map_congr_left fun n _ => decision_forgetReviewer _ n
  | purged hdb =>
    have hframe := hdb.frame
    exact undecided_of_eq (by rw [hframe])

/-- The vote columns that a cast fills and nothing changes, of every row in order. -/
def ballots (db : Database) : List Immutable := db.votes.rows.map Vote.immutable

theorem ballots_of_votes {db db' : Database} (h : db'.votes = db.votes) :
    ballots db' = ballots db := by
  unfold ballots
  rw [h]

/-- A void fills other columns. -/
theorem ballots_void {db db' : Database} {v : Vote} {user : Id} {reason : String} {now : Time}
    (h : db'.votes.rows = db.votes.rows.map fun w => if w.id = v.id then
      void v user reason now else w)
    (hmem : v ∈ db.votes.rows) : ballots db' = ballots db := by
  unfold ballots
  rw [h, List.map_map]
  refine List.map_congr_left fun w hw => ?_
  show (if w.id = v.id then void v user reason now else w).immutable = w.immutable
  split_ifs with hid
  · rw [VoteTable.eq_of_id hw hmem hid]
    rfl
  · rfl

/-- **An operation that adds a vote** is a cast of a voter whom the header authenticates. -/
theorem ballots_of_step {pcfg : Platform.Config} {p p' : Platform.State} {op : Op}
    (h : Platform.step pcfg p op = some p') : ballots p'.db = ballots p.db ∨
      ∃ header nomination client authAt checkAt now vk ak voter,
        op = .castVote header nomination client authAt checkAt now vk ak ∧
          authenticate pcfg.decode p.db authAt header = .ok (some voter) := by
  by_cases hrole : roleOf op = some eventAdmin
  · refine Or.inl ?_
    cases op with
    | changeStatus event new user client now ak =>
      obtain ⟨⟨db, x⟩, hx, rfl⟩ := Option.map_eq_some_iff.mp h
      obtain ⟨rfl, -⟩ | ⟨_, _, _, -, -, -, -, -, rfl⟩ := changeStatus_cases hx
      · rfl
      · rfl
    | voidVote vote user reason client now ak =>
      obtain ⟨⟨db, x⟩, hx, rfl⟩ := Option.map_eq_some_iff.mp h
      obtain ⟨rfl, -⟩ | ⟨v, hmem, -, -, -, votes, audit, e, hrows, -, -, rfl⟩ := voidVote_cases hx
      · rfl
      · exact ballots_void hrows hmem
    | reviewNomination => exact absurd (Option.some.inj hrole) (by decide)
    | submitNomination | requestOtp | verifyOtp | setBlocked | castVote | purge => cases hrole
    | _ =>
      obtain ⟨_, _, _, _, -, hdb⟩ := catalogueOnly_of_step h rfl
      exact ballots_of_votes (by rw [hdb])
  · obtain hvotes | ⟨header, nomination, client, authAt, checkAt, now, vk, ak, voter, -, hop,
      hauth, -⟩ :=
      (leaves_of_step h hrole).votes
    · exact Or.inl (ballots_of_votes hvotes)
    · exact Or.inr ⟨header, nomination, client, authAt, checkAt, now, vk, ak, voter, hop, hauth⟩

/-- **A step without a request of a voter** adds no vote. -/
theorem ballots_of_unvoted {i : Input} (h : step cfg s i = some s')
    (hno : ∀ voter, ¬ ByVoter cfg s i voter) : ballots s'.db = ballots s.db := by
  cases happens_of_step h with
  | idle hdb | denied _ _ _ _ _ _ _ _ _ _ _ hdb | login _ _ _ _ _ _ _ _ _ _ hdb | forgotten _ hdb
  | blocked hdb => exact ballots_of_votes (by rw [hdb])
  | ran user op hauth hallow hruns hstep =>
    obtain hkept | ⟨header, nomination, client, authAt, checkAt, now, vk, ak, voter, hop, hvoter⟩ :=
      ballots_of_step hstep
    · exact hkept
    · exact absurd (byVoter_of_cast hauth hruns hop hvoter) (hno voter)
  | purged hdb =>
    have hframe := hdb.frame
    exact ballots_of_votes (by rw [hframe])

/-! ### Every run -/

/-- Decisions, over a run. -/
theorem undecided_of_run {l : List Input} (hr : run (step cfg) s l = some s')
    (hno : Along (step cfg) (fun s i _ => ¬ Holds cfg s i eventAdmin) s l)
    (hno' : Along (step cfg) (fun s i _ => ¬ Holds cfg s i moderator) s l) : Undecided s s' := by
  refine run_inv_along (fun t => Undecided s t) ?_ (undecided_of_eq rfl) (along_and hno hno') hr
  rintro t i t' hundecided ⟨hi, hi'⟩ ht
  exact hundecided.trans (undecided_of_step ht hi hi')

/-- **What a role guards**, in every run of requests, with any headers and any changes of accounts
between them. Without a request of an event admin, the events, categories and awards are at the end
as they were at the start and the votes that were there are as they were; without one of a moderator
either, a nomination that was there has the decision it had and those that are new are pending.
Without a voter's, no vote is added, and those that were there keep what was cast. -/
theorem guarded_run {l : List Input} (hr : run (step cfg) s l = some s') :
    (Along (step cfg) (fun s i _ => ¬ Holds cfg s i eventAdmin) s l →
      (s'.db.events = s.db.events ∧ s'.db.categories = s.db.categories ∧
        s'.db.awards = s.db.awards ∧ s.db.votes.rows <+: s'.db.votes.rows) ∧
      (Along (step cfg) (fun s i _ => ¬ Holds cfg s i moderator) s l → Undecided s s')) ∧
    (Along (step cfg) (fun s i _ => ∀ voter, ¬ ByVoter cfg s i voter) s l →
      ballots s'.db = ballots s.db) := by
  refine ⟨fun hno => ⟨?_, undecided_of_run hr hno⟩, fun hvoters => ?_⟩
  · refine run_inv_along (fun t => t.db.events = s.db.events ∧ t.db.categories = s.db.categories ∧
      t.db.awards = s.db.awards ∧ s.db.votes.rows <+: t.db.votes.rows) ?_
      ⟨rfl, rfl, rfl, List.prefix_rfl⟩ hno hr
    rintro t i t' ⟨he, hc, ha, hv⟩ hi ht
    obtain ⟨he', hc', ha', hv'⟩ := unadministered_of_step ht hi
    refine ⟨he'.trans he, hc'.trans hc, ha'.trans ha, ?_⟩
    obtain hsame | ⟨voter, v, -, hrows, -⟩ := hv'
    · rw [hsame]
      exact hv
    · rw [hrows]
      exact hv.trans (List.prefix_append _ _)
  · refine run_inv_along (fun t => ballots t.db = ballots s.db) ?_ rfl hvoters hr
    rintro t i t' hballots hi ht
    exact (ballots_of_unvoted ht hi).trans hballots

/-- A clerk without roles is refused twice, a voter's token makes no event, and its voter votes. -/
def visitors : List Input :=
  [.saveAccount { id := 8, email := "clerk@awards.test" },
    .request (.destroyCategory 11) (withToken "clerk") (moment 110 ⟨70, 1⟩),
    .request (.createEvent galaAttrs ⟨3, 1⟩) (withToken "ann") (moment 120 ⟨71, 2⟩),
    .request (.castVote (.ok 40) 150 ⟨60, 1⟩) (withToken "ann") (moment 150 ⟨71, 2⟩),
    .request (.voidVote 60 (.ok "double")) (withToken "clerk") (moment 160 ⟨72, 3⟩)]

/-- A superuser then voids the vote and closes the voting. -/
def correction : List Input :=
  [.saveAccount { id := 9, email := "chair@awards.test", isSuperuser := true },
    .request (.voidVote 60 (.ok "double")) (withToken "chair") (moment 170 ⟨73, 4⟩),
    .request (.setStatus "gala" (.ok .closed)) (withToken "chair") (moment 180 ⟨74, 5⟩)]

/-- The state after the visitors. -/
def visited : State := (run (step demo) (fresh galaDb) visitors).getD (fresh galaDb)

theorem guarded_run_visitors :
    (∃ s, run (step demo) (fresh galaDb) visitors = some s ∧
      s.db.votes.rows.length = 1 ∧ s.db.audit.rows.length = 3 ∧
      (s.db.events = galaDb.events ∧ s.db.categories = galaDb.categories ∧
        s.db.awards = galaDb.awards ∧ galaDb.votes.rows <+: s.db.votes.rows) ∧
      Undecided (fresh galaDb) s) ∧
    ∃ s, run (step demo) visited correction = some s ∧
      s.db.votes.rows.map (fun v => (v.id, v.voidedBy)) = [(60, some 9)] ∧
      ballots s.db = ballots visited.db := by
  constructor
  · have hlen : (run (step demo) (fresh galaDb) visitors).map (fun s =>
        (s.db.votes.rows.length, s.db.audit.rows.length)) = some (1, 3) := by decide +kernel
    obtain ⟨s, hs, hlen⟩ := Option.map_eq_some_iff.mp hlen
    obtain ⟨hvotes, haudit⟩ := Prod.mk.inj hlen
    obtain ⟨hkept, hundecided⟩ := (guarded_run hs).1 (by decide +kernel)
    exact ⟨s, hs, hvotes, haudit, hkept, hundecided (by decide +kernel)⟩
  · have hvoided : (run (step demo) visited correction).map (fun s =>
        s.db.votes.rows.map fun v => (v.id, v.voidedBy)) = some [(60, some 9)] := by decide +kernel
    obtain ⟨s, hs, hvoided⟩ := Option.map_eq_some_iff.mp hvoided
    exact ⟨s, hs, hvoided, (guarded_run hs).2 (by decide +kernel)⟩

end KwAwards.Api.Guards
