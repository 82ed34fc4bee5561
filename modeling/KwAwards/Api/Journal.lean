import KwAwards.Api.Accountability

/-! # What a request leaves in the log

The entries that a request adds are told from how it ends (`journal`): a role that is refused to an
account leaves one, a view that returns leaves the one of its action, and of the views that fail a
cast, a verification, a request for a code and a login leave one for what went wrong. Account saves
and deletions, voter blocking and purges leave none. So the actions of the log are, in order, those
of the requests of a run (`journal_of_run`). -/

namespace KwAwards.Api.Journal

open KwAwards.Lib.Tables KwAwards.Lib.Counters KwAwards.Lib.Run KwAwards.Common.Base
open KwAwards.Common.Exceptions KwAwards.Common.SmsBudget KwAwards.Accounts.Permissions
open KwAwards.Accounts.Login KwAwards.Audit.Log
open KwAwards.Audit.Attribution KwAwards.Events.Services KwAwards.Events.Views
open KwAwards.Nominations.Models KwAwards.Nominations.Services KwAwards.Nominations.Submission
open KwAwards.Voting.Models KwAwards.Voting.Votes KwAwards.Voting.Services KwAwards.Voting.Otp
open KwAwards.Voting.Entries KwAwards.Store KwAwards.Api.Dispatch KwAwards.Api.Actions
open KwAwards.Voting.Serializers (otpVerifySerializer otpRequestSerializer requestedPhone)
open KwAwards.Voting.RequestView (Failure Delivery sendSms)

/-- The entries that are added, by their actions. -/
def Journals (actions : List AuditAction) (db db' : Database) : Prop :=
  db'.audit.rows.map AuditLog.action = db.audit.rows.map AuditLog.action ++ actions

variable {db db' : Database}

theorem Journals.of_eq (h : db'.audit = db.audit) : Journals [] db db' := by
  unfold Journals
  rw [h, List.append_nil]

theorem Journals.of_logged {action : AuditAction} (h : Logged db db' action) :
    Journals [action] db db' := by
  obtain ⟨e, hrows, rfl⟩ := h
  unfold Journals
  rw [hrows, List.map_append]
  rfl

theorem Journals.of_audit {db₁ : Database} {actions : List AuditAction}
    (h : Journals actions db₁ db') (hdb : db₁.audit = db.audit) : Journals actions db db' := by
  unfold Journals at h ⊢
  rw [← hdb]
  exact h

/-! ### The services -/

/-- One entry when a service returns, and none when it raises. -/
def onSuccess {α : Type} (action : AuditAction) : Except Raised α → List AuditAction
  | .ok _ => [action]
  | .error _ => []

theorem journals_changeStatus {event : Id} {new : Events.Models.EventStatus}
    {request : Option Request} {now : Time} {ak : Keys} {r : Except Raised Events.Models.Event}
    (h : changeStatus db event new request now ak = some (db', r)) :
    Journals (onSuccess .eventStatusChanged r) db db' := by
  obtain ⟨rfl, e, rfl⟩ | ⟨locked, audit, e, -, -, rfl, he, hrows, rfl⟩ := changeStatus_cases h
  · exact .of_eq rfl
  · exact .of_logged ⟨e, hrows, (log_eq_some he).2.2.1⟩

theorem journals_reviewNomination {a : ReviewArgs} {now : Time} {ak : Keys}
    {r : Except Raised Nomination} (h : reviewNomination db a now ak = some (db', r)) :
    Journals (onSuccess (reviewAction a) r) db db' := by
  obtain ⟨rfl, e, rfl⟩ | ⟨locked, audit, e, -, -, rfl, he, hrows, rfl⟩ := reviewNomination_cases h
  · exact .of_eq rfl
  · exact .of_logged ⟨e, hrows, (log_eq_some he).2.2.1⟩

theorem journals_createNomination {lib : Common.Phone.PhoneNumbers} {clean : Bool → String → String}
    {upper : String → String} {captcha : Bool} {a : SubmissionAttrs} {request : Request}
    {now : Time} {nominee : Id} {nk ak : Keys} {r : Except Raised Nomination}
    (h : createNomination lib clean upper captcha db a request now nominee nk ak = some (db', r)) :
    Journals (onSuccess .nominationSubmitted r) db db' := by
  obtain ⟨rfl, e, rfl⟩ | ⟨s, nominees, nominations, audit, e, -, -, -, he, hrows, rfl, rfl⟩ :=
    createNomination_cases h
  · exact .of_eq rfl
  · exact .of_logged ⟨e, hrows, (log_eq_some he).2.2.1⟩

theorem journals_voidVote {vote user : Id} {reason : String} {request : Option Request} {now : Time}
    {ak : Keys} {r : Except Raised Vote}
    (h : voidVote db vote user reason request now ak = some (db', r)) :
    Journals (onSuccess .voteVoided r) db db' := by
  obtain ⟨rfl, e, rfl, -⟩ | ⟨v, -, -, -, rfl, votes, audit, e, -, he, hrows, rfl⟩ :=
    voidVote_cases h
  · exact .of_eq rfl
  · exact .of_logged ⟨e, hrows, (log_eq_some he).2.2.1⟩

/-- A cast leaves an entry also when the voter has voted already. -/
def castJournal : Except Raised Vote → List AuditAction
  | .ok _ => [.voteCast]
  | .error (.api .alreadyVoted) => [.voteDuplicate]
  | .error _ => []

theorem journals_castFreeVote {voter nomination : Id} {request : Request} {checkAt now : Time}
    {vk ak : Keys} {r : Except Raised Vote}
    (h : castFreeVote db voter nomination request checkAt now vk ak = some (db', r)) :
    Journals (castJournal r) db db' := by
  unfold castFreeVote at h
  split at h
  · obtain ⟨rfl, rfl⟩ := Prod.mk.inj (Option.some.inj h)
    exact .of_eq rfl
  · split_ifs at h
    · obtain ⟨⟨db₁, r₁⟩, hx, h⟩ := Option.bind_eq_some_iff.mp h
      rcases insertVote_cases hx with
        ⟨-, ⟨-, rfl, rfl⟩ | ⟨-, rfl, votes, audit, e, -, he, hrows, rfl⟩⟩
      · simp only [isUniqueViolation_iff.mpr, if_true] at h
        obtain ⟨db₂, hw, h⟩ := Option.map_eq_some_iff.mp h
        obtain ⟨rfl, rfl⟩ := Prod.mk.inj h
        obtain ⟨e, audit, he, -, hrows, rfl⟩ := Database.write_eq_some hw
        exact .of_logged ⟨e, hrows, (log_eq_some he).2.2.1⟩
      · obtain ⟨rfl, rfl⟩ := Prod.mk.inj (Option.some.inj h)
        exact .of_logged ⟨e, hrows, (log_eq_some he).2.2.1⟩
    · obtain ⟨rfl, rfl⟩ := Prod.mk.inj (Option.some.inj h)
      exact .of_eq rfl

/-- A request for a code leaves an entry, whether or not a code is sent. -/
def requestJournal : Requested → List AuditAction
  | .refused _ => [.smsBudgetExhausted]
  | .blocked | .granted _ => [.otpRequested]

theorem journals_requestOtp {cfg : OtpSettings} {cache cache' : Cache Time} {now : Time}
    {phoneE164 code : String} {request : Request} {vk ck ak : Keys} {r : Requested}
    (h : requestOtp cfg db cache now phoneE164 request code vk ck ak = some (db', cache', r)) :
    Journals (requestJournal r) db db' ∧
      ∀ e, r = .refused e → ∃ retryAfter, e = .smsBudgetExhausted retryAfter := by
  obtain ⟨db₁, voter, hvoter, hcases⟩ := requestOtp_cases h
  have haudit : db₁.audit = db.audit := by
    obtain ⟨-, rfl⟩ | ⟨-, -, -, -, -, voters, -, rfl⟩ := getOrCreateVoter_cases hvoter
    · rfl
    · rfl
  obtain ⟨-, rfl, hlogged, -⟩ | ⟨-, rfl, hlogged, -⟩ | ⟨-, rfl, hissue⟩ := hcases
  · exact ⟨(Journals.of_logged hlogged).of_audit haudit, fun e he => by cases he⟩
  · exact ⟨(Journals.of_logged hlogged).of_audit haudit,
      fun e he => ⟨_, (Requested.refused.inj he).symm⟩⟩
  · exact ⟨(Journals.of_logged (issue_eq_some hissue).1).of_audit haudit, fun e he => by cases he⟩

/-- A verification leaves an entry, whether or not the code is right. -/
def verifyJournal : Except ApiError Voter → List AuditAction
  | .ok _ => [.otpVerified]
  | .error _ => [.otpFailed]

theorem journals_verifyOtp {cfg : OtpSettings} {now : Time} {phoneE164 code : String}
    {request : Request} {ak : Keys} {o : Outcome} {r : Except ApiError Voter}
    (h : verifyOtp cfg db now phoneE164 code request ak = some (db', o, r)) :
    Journals (verifyJournal r) db db' ∧ ∀ e, r = .error e → e = .invalidOTP := by
  have hfailed : ∀ {o : Outcome}, o.isSuccess = false → Logged db db' .otpFailed →
      r = result (voterByPhone db.voters phoneE164) now now o →
      Journals (verifyJournal r) db db' ∧ ∀ e, r = .error e → e = .invalidOTP := by
    intro o ho hlogged hr
    rw [result_of_isSuccess ho] at hr
    subst hr
    exact ⟨.of_logged hlogged, fun e he => (Except.error.inj he).symm⟩
  obtain ⟨hr, ⟨-, ho, hlogged, -⟩ | ⟨v, c, hv, -, -, -, hattempt⟩⟩ := verifyOtp_cases h
  · exact hfailed ho hlogged hr
  · obtain ⟨-, rfl, hlogged, -⟩ | ⟨-, -, rfl, hlogged, -⟩ | ⟨-, -, rfl, hlogged, -⟩ :=
      attempt_cases hattempt
    · exact hfailed rfl hlogged hr
    · exact hfailed rfl hlogged hr
    · rw [hv] at hr
      subst hr
      exact ⟨.of_logged hlogged, fun e he => by cases he⟩

/-! ### The views -/

/-- **What a view leaves in the log**, from how it ends. -/
def viewJournal : Call → Except Stop Unit → List AuditAction
  | .setStatus .., .ok _ => [.eventStatusChanged]
  | .submitNomination .., .ok _ => [.nominationSubmitted]
  | .approve _, .ok _ => [.nominationApproved]
  | .reject .., .ok _ => [.nominationRejected]
  | .otpRequest .., .ok _ => [.otpRequested]
  -- the code was stored, and then the SMS library raised
  | .otpRequest .., .error (.view .uncaught) => [.otpRequested]
  | .otpRequest .., .error (.view (.api (.smsBudgetExhausted _))) => [.smsBudgetExhausted]
  | .otpVerify _, .ok _ => [.otpVerified]
  | .otpVerify _, .error (.raised (.api .invalidOTP)) => [.otpFailed]
  | .castVote (.error _) .., _ => []
  | .castVote .., .ok _ => [.voteCast]
  | .castVote .., .error (.raised (.api .alreadyVoted)) => [.voteDuplicate]
  | .voidVote .., .ok _ => [.voteVoided]
  | .login _, .ok _ => [.staffLogin]
  | .login (.ok _), .error (.framework (.api _)) => [.staffLoginFailed]
  | _, _ => []

variable {cfg : Config} {s s' : State} {call : Call} {r : HttpRequest} {m : Moment}
  {user : RequestUser}

theorem commit_cases {α : Type} {x : Option (Database × Except Raised α)} {res : Except Stop Unit}
    (h : s.commit x = some (s', res)) : ∃ db, s' = { s with db } ∧
      ((∃ y, x = some (db, .ok y) ∧ res = .ok ()) ∨ ∃ e, x = some (db, .error e) ∧
        res = .error (.raised e)) := by
  obtain ⟨⟨db, y⟩, hx, hs⟩ := Option.map_eq_some_iff.mp h
  obtain ⟨rfl, rfl⟩ := Prod.mk.inj hs
  cases y with
  | ok y => exact ⟨db, rfl, Or.inl ⟨y, hx, rfl⟩⟩
  | error e => exact ⟨db, rfl, Or.inr ⟨e, hx, rfl⟩⟩

/-- A view of a service that leaves one entry when it returns. -/
theorem journals_of_commit {α : Type} {x : Option (Database × Except Raised α)}
    {res : Except Stop Unit} {action : AuditAction} (h : s.commit x = some (s', res))
    (hx : ∀ db y, x = some (db, y) → Journals (onSuccess action y) s.db db)
    (hok : viewJournal call (.ok ()) = [action])
    (herror : ∀ e, viewJournal call (.error (.raised e)) = []) :
    Journals (viewJournal call res) s.db s'.db := by
  obtain ⟨db, rfl, ⟨y, hy, rfl⟩ | ⟨e, hy, rfl⟩⟩ := commit_cases h
  · rw [hok]
    exact hx db (.ok y) hy
  · rw [herror]
    exact hx db (.error e) hy

/-- A view of the catalogue leaves no entry. -/
theorem journals_of_catalogue {res : Except Stop Unit} (op : Platform.Op) (h : Moves cfg s s' op)
    (hop : isCatalogue op = true) (hnone : viewJournal call res = []) :
    Journals (viewJournal call res) s.db s'.db := by
  obtain ⟨_, _, _, _, -, hdb⟩ := catalogueOnly_of_step h.step hop
  rw [hnone]
  exact .of_eq (by rw [hdb])

theorem requestedPhone_error {phones : Common.Phone.PhoneNumbers} {regions : List String}
    {captcha : String → Option String → Bool} {ip : Option String}
    {data : Common.Fields.RequestData} {e : ApiError}
    (h : requestedPhone phones regions captcha ip data = .error e) (retryAfter : ℕ) :
    e ≠ .smsBudgetExhausted retryAfter := by
  rintro rfl
  unfold requestedPhone at h
  split at h
  · next e he =>
    obtain rfl := Except.error.inj h
    unfold otpRequestSerializer at he
    split at he
    · cases he
    · split at he
      · cases he
      · cases he
  · split at h
    · cases h
    · split_ifs at h
      cases h

theorem journals_otpRequest {data : Common.Fields.RequestData}
    {captcha : String → Option String → Bool} {sms : Delivery} {code : String} {vk ck : Keys}
    {res : Except Stop Unit}
    (h : otpRequestPost cfg s r m data captcha sms code vk ck = some (s', res)) :
    Journals (viewJournal (.otpRequest data captcha sms code vk ck) res) s.db s'.db := by
  obtain ⟨⟨v, y⟩, hpost, hs⟩ := Option.map_eq_some_iff.mp h
  unfold Voting.RequestView.post at hpost
  split at hpost
  · next f hf =>
    obtain ⟨rfl, rfl⟩ := Prod.mk.inj (Option.some.inj hpost)
    obtain ⟨rfl, rfl⟩ := Prod.mk.inj hs
    unfold Voting.RequestView.validPhone at hf
    simp only at hf
    split at hf
    · next e he =>
      obtain rfl := Except.error.inj hf
      have hne := requestedPhone_error he
      cases e with
      | smsBudgetExhausted retryAfter => exact absurd rfl (hne retryAfter)
      | _ => exact .of_eq rfl
    · cases hf
  · next phone hphone =>
    obtain ⟨⟨db, budget, q⟩, hreq, hv⟩ := Option.map_eq_some_iff.mp hpost
    obtain ⟨rfl, rfl⟩ := Prod.mk.inj hv
    obtain ⟨rfl, rfl⟩ := Prod.mk.inj hs
    obtain ⟨hjournal, hrefused⟩ := journals_requestOtp hreq
    cases q with
    | blocked => exact hjournal
    | refused e =>
      obtain ⟨retryAfter, rfl⟩ := hrefused e rfl
      exact hjournal
    | granted challenge =>
      cases sms with
      | sent => exact hjournal
      | smsError => exact hjournal
      | raised => exact hjournal

theorem otpVerifySerializer_error {phones : Common.Phone.PhoneNumbers} {otpLength : ℕ}
    {data : Common.Fields.RequestData} {e : ApiError}
    (h : otpVerifySerializer phones otpLength data = .error e) :
    e ≠ .invalidOTP := by
  rintro rfl
  unfold otpVerifySerializer at h
  split at h
  · cases h
  · split at h
    · cases h
    · cases h

theorem journals_otpVerify {data : Common.Fields.RequestData} {res : Except Stop Unit}
    (h : otpVerifyPost cfg s user r m data = some (s', res)) :
    Journals (viewJournal (.otpVerify data) res) s.db s'.db := by
  unfold otpVerifyPost at h
  split at h
  · next e he =>
    obtain ⟨rfl, rfl⟩ := Prod.mk.inj (Option.some.inj h)
    have hne := otpVerifySerializer_error he
    cases e with
    | invalidOTP => exact absurd rfl hne
    | _ => exact .of_eq rfl
  · next phone code hdata =>
    obtain ⟨db, rfl, ⟨y, hy, rfl⟩ | ⟨e, hy, rfl⟩⟩ := commit_cases h
    · obtain ⟨⟨db', o, z⟩, hverify, hz⟩ := Option.map_eq_some_iff.mp hy
      obtain ⟨rfl, hres⟩ := Prod.mk.inj hz
      obtain ⟨hjournal, -⟩ := journals_verifyOtp hverify
      cases z with
      | ok voter => exact hjournal
      | error e => cases hres
    · obtain ⟨⟨db', o, z⟩, hverify, hz⟩ := Option.map_eq_some_iff.mp hy
      obtain ⟨rfl, hres⟩ := Prod.mk.inj hz
      obtain ⟨hjournal, herror⟩ := journals_verifyOtp hverify
      cases z with
      | ok voter => cases hres
      | error e' =>
        obtain rfl : Raised.api e' = e := Except.error.inj hres
        obtain rfl := herror e' rfl
        exact hjournal

theorem journals_login {data : Except ApiError (String × String)} {res : Except Stop Unit}
    (h : loginPost cfg s r m data = some (s', res)) :
    Journals (viewJournal (.login data) res) s.db s'.db := by
  unfold loginPost at h
  split at h
  · obtain ⟨rfl, rfl⟩ := Prod.mk.inj (Option.some.inj h)
    exact .of_eq rfl
  · next email password =>
    obtain ⟨⟨db, accounts, y⟩, hv, hs⟩ := Option.map_eq_some_iff.mp h
    obtain ⟨rfl, rfl⟩ := Prod.mk.inj hs
    obtain ⟨-, rfl, -, rfl⟩ | ⟨e, audit, -, hrows, rfl, -, -, hattempt⟩ := validate_cases hv
    · exact .of_eq rfl
    · cases hattempt with
      | unknown haction => exact .of_logged ⟨e, hrows, haction⟩
      | notStaff _ _ _ _ _ _ haction => exact .of_logged ⟨e, hrows, haction⟩
      | staff _ _ _ _ _ _ haction => exact .of_logged ⟨e, hrows, haction⟩

theorem journals_castVote {data : Except ApiError Id} {checkAt : Time} {vk : Keys}
    {res : Except Stop Unit} (h : voteCreate s user r m data checkAt vk = some (s', res)) :
    Journals (viewJournal (.castVote data checkAt vk) res) s.db s'.db := by
  unfold voteCreate at h
  split at h
  · obtain ⟨rfl, rfl⟩ := Prod.mk.inj (Option.some.inj h)
    exact .of_eq rfl
  · obtain ⟨db, rfl, ⟨y, hy, rfl⟩ | ⟨e, hy, rfl⟩⟩ := commit_cases h
    · exact journals_castFreeVote hy
    · have hjournal := journals_castFreeVote hy
      rcases e with e | e | _
      · cases e <;> exact hjournal
      · exact hjournal
      · exact hjournal
  · obtain ⟨rfl, rfl⟩ := Prod.mk.inj (Option.some.inj h)
    exact .of_eq rfl

/-- **Every view.** -/
theorem journals_of_act {res : Except Stop Unit} (h : act cfg s user r m call = some (s', res)) :
    Journals (viewJournal call res) s.db s'.db := by
  cases call with
  | read action =>
    obtain ⟨rfl, rfl⟩ := Prod.mk.inj (Option.some.inj h)
    exact .of_eq rfl
  | createEvent a k =>
    exact journals_of_catalogue (.createEvent a m.now k)
      (moves_of_commit h fun db y hx => step_of_map hx) rfl
      (by cases res <;> rfl)
  | updateEvent slug full a =>
    exact journals_of_catalogue (.updateEvent slug full a m.now) (moves_of_commit_some h rfl) rfl
      (by cases res <;> rfl)
  | destroyEvent slug =>
    have hmoves : Moves cfg s s' (.destroyEvent slug) := moves_of_commit_some h rfl
    exact journals_of_catalogue (.destroyEvent slug) hmoves rfl (by cases res <;> rfl)
  | createCategory a k =>
    exact journals_of_catalogue (.createCategory a m.now k)
      (moves_of_commit h fun db y hx => step_of_map hx)
      rfl (by cases res <;> rfl)
  | updateCategory pk full a =>
    exact journals_of_catalogue (.updateCategory pk full a m.now) (moves_of_commit_some h rfl) rfl
      (by cases res <;> rfl)
  | destroyCategory pk =>
    have hmoves : Moves cfg s s' (.destroyCategory pk) := moves_of_commit_some h rfl
    exact journals_of_catalogue (.destroyCategory pk) hmoves rfl (by cases res <;> rfl)
  | createAward a k =>
    exact journals_of_catalogue (.createAward a m.now k)
      (moves_of_commit h fun db y hx => step_of_map hx) rfl
      (by cases res <;> rfl)
  | updateAward pk full a =>
    exact journals_of_catalogue (.updateAward pk full a m.now) (moves_of_commit_some h rfl) rfl
      (by cases res <;> rfl)
  | destroyAward pk =>
    have hmoves : Moves cfg s s' (.destroyAward pk) := moves_of_commit_some h rfl
    exact journals_of_catalogue (.destroyAward pk) hmoves rfl (by cases res <;> rfl)
  | setStatus slug data =>
    replace h : eventSetStatus s user r m slug data = some (s', res) := h
    unfold eventSetStatus at h
    split at h
    · obtain ⟨rfl, rfl⟩ := Prod.mk.inj (Option.some.inj h)
      exact .of_eq rfl
    · obtain ⟨rfl, rfl⟩ := Prod.mk.inj (Option.some.inj h)
      exact .of_eq rfl
    · exact journals_of_commit h (fun db y hx => journals_changeStatus hx) rfl fun _ => rfl
  | submitNomination captcha a nominee nk =>
    exact journals_of_commit h (fun db y hx => journals_createNomination hx) rfl fun _ => rfl
  | approve pk =>
    replace h : nominationReview s user r m pk true "" = some (s', res) := h
    unfold nominationReview at h
    split at h
    · obtain ⟨rfl, rfl⟩ := Prod.mk.inj (Option.some.inj h)
      exact .of_eq rfl
    · obtain ⟨rfl, rfl⟩ := Prod.mk.inj (Option.some.inj h)
      exact .of_eq rfl
    · exact journals_of_commit h (fun db y hx => journals_reviewNomination hx) rfl fun _ => rfl
  | reject pk data =>
    rcases data with e | reason
    · obtain ⟨rfl, rfl⟩ := Prod.mk.inj (Option.some.inj h)
      exact .of_eq rfl
    · replace h : nominationReview s user r m pk false reason = some (s', res) := h
      unfold nominationReview at h
      split at h
      · obtain ⟨rfl, rfl⟩ := Prod.mk.inj (Option.some.inj h)
        exact .of_eq rfl
      · obtain ⟨rfl, rfl⟩ := Prod.mk.inj (Option.some.inj h)
        exact .of_eq rfl
      · exact journals_of_commit h (fun db y hx => journals_reviewNomination hx) rfl fun _ => rfl
  | otpRequest data captcha sms code vk ck => exact journals_otpRequest h
  | otpVerify data => exact journals_otpVerify h
  | castVote data checkAt vk => exact journals_castVote h
  | voidVote pk data =>
    replace h : voteVoid s user r m pk data = some (s', res) := h
    unfold voteVoid at h
    split at h
    · obtain ⟨rfl, rfl⟩ := Prod.mk.inj (Option.some.inj h)
      exact .of_eq rfl
    · obtain ⟨rfl, rfl⟩ := Prod.mk.inj (Option.some.inj h)
      exact .of_eq rfl
    · obtain ⟨rfl, rfl⟩ := Prod.mk.inj (Option.some.inj h)
      exact .of_eq rfl
    · exact journals_of_commit h (fun db y hx => journals_voidVote hx) rfl fun _ => rfl
  | login data => exact journals_login h

/-! ### Every run -/

/-- The role that an account lacks, for which its request is refused. -/
def refusedRole (cfg : Config) (s : State) (call : Call) (r : HttpRequest)
    (m : Moment) : Option String :=
  match authenticated cfg s call r m with
  | .ok (.staff account) =>
    (firstDenial r call.method (.staff account) call.permissions).bind fun p =>
      p.requiredRole call.method
  | _ => none

/-- **What happens leaves in the log:** a request that reaches its view what the view does, one of
an account that lacks a role a refusal, and nothing else does. -/
def journal (cfg : Config) (s : State) : Input → List AuditAction
  | .request call r m =>
    match initial cfg s call r m with
    | some (t, .ok user) =>
      match act cfg t user r m call with
      | some (_, res) => viewJournal call res
      | none => []
    | _ => if (refusedRole cfg s call r m).isSome then [.permissionDenied] else []
  | _ => []

/-- A request that ends before its view leaves a refusal or nothing. -/
theorem journals_of_denied (hauth : authenticated cfg s call r m = .ok user)
    (h : Denied call r m user s s') :
    Journals (if (refusedRole cfg s call r m).isSome then [.permissionDenied] else []) s.db
      s'.db := by
  cases h with
  | silent p hp hnot hs =>
    have hnone : refusedRole cfg s call r m = none := by
      unfold refusedRole
      rw [hauth]
      rcases user with _ | account | v
      · rfl
      · obtain hrole | hnot := hnot
        · simp [hp, hrole]
        · exact absurd rfl (hnot account)
      · rfl
    subst hs
    rw [hnone]
    exact .of_eq rfl
  | audited p hp role hrole account huser e he audit _ hrows hs =>
    have hsome : refusedRole cfg s call r m = some role := by
      unfold refusedRole
      rw [hauth, huser]
      simp [← huser, hp, hrole]
    subst hs
    rw [hsome]
    exact .of_logged ⟨e, hrows, (log_eq_some he.written).2.2.1⟩

theorem refusedRole_of_error {exc : Common.ExceptionHandler.Exc}
    (hauth : authenticated cfg s call r m = .error exc) : refusedRole cfg s call r m = none := by
  unfold refusedRole
  rw [hauth]

theorem refusedRole_of_allowed (hauth : authenticated cfg s call r m = .ok user)
    (hnone : firstDenial r call.method user call.permissions = none) :
    refusedRole cfg s call r m = none := by
  unfold refusedRole
  rw [hauth]
  rcases user with _ | account | v
  · rfl
  · simp [hnone]
  · rfl

/-- **Every request.** -/
theorem journals_of_dispatch {res : Except Stop Unit}
    (h : dispatch cfg s call r m = some (s', res)) :
    Journals (journal cfg s (.request call r m)) s.db s'.db := by
  obtain ⟨⟨t, x⟩, hinitial, hnext⟩ := Option.bind_eq_some_iff.mp h
  simp only [journal, hinitial]
  obtain ⟨exc, hauth, rfl, rfl⟩ | ⟨user, hauth, ⟨hdenied, exc, rfl⟩ |
    ⟨hnone, ⟨throttles, rfl⟩, ⟨f, rfl⟩ | rfl⟩⟩ := initial_cases hinitial
  · obtain ⟨rfl, -⟩ := Prod.mk.inj (Option.some.inj hnext)
    rw [refusedRole_of_error hauth]
    exact .of_eq rfl
  · obtain ⟨rfl, -⟩ := Prod.mk.inj (Option.some.inj hnext)
    exact journals_of_denied hauth hdenied
  · obtain ⟨rfl, -⟩ := Prod.mk.inj (Option.some.inj hnext)
    rw [refusedRole_of_allowed hauth hnone]
    exact .of_eq rfl
  · replace hnext : act cfg { s with throttles } user r m call = some (s', res) := hnext
    have hjournals := journals_of_act hnext
    simp only [hnext]
    exact hjournals

/-- **Every step.** -/
theorem journals_of_step {i : Input} (h : step cfg s i = some s') :
    Journals (journal cfg s i) s.db s'.db := by
  cases i with
  | request call r m =>
    obtain ⟨⟨t, res⟩, hd, rfl⟩ := Option.map_eq_some_iff.mp h
    exact journals_of_dispatch hd
  | saveAccount account =>
    obtain rfl := Option.some.inj h
    unfold saveAccount
    split_ifs <;> exact .of_eq rfl
  | deleteAccount account =>
    obtain rfl := Option.some.inj h
    unfold deleteAccount
    split_ifs <;> exact .of_eq rfl
  | setBlocked voter blocked now =>
    obtain rfl := Option.some.inj h
    exact .of_eq rfl
  | purge olderThanHours execute now =>
    obtain rfl := Option.some.inj h
    exact .of_eq (by rw [(Voting.Purge.purged_handle s.db now olderThanHours execute).frame])

/-- **The log is the journal of the run:** the actions of its entries are, in order, those that the
steps of the run leave. -/
theorem journal_of_run {l : List Input} (hr : run (step cfg) s l = some s') :
    s'.db.audit.rows.map AuditLog.action =
      s.db.audit.rows.map AuditLog.action ++ emitted (step cfg) (fun t i _ => journal cfg t i)
        s l := by
  refine run_emitted_inv (fun t out => t.db.audit.rows.map AuditLog.action =
    s.db.audit.rows.map AuditLog.action ++ out) (fun t i t' out hkept ht => ?_) ?_ hr
  · rw [journals_of_step ht, hkept, List.append_assoc]
  · rw [List.append_nil]

/-- After the season the voter votes again, sends a wrong code, and an account without roles tries
to void the vote. -/
def afterwards : List Input :=
  season ++ [.request (.castVote (.ok 40) 63 ⟨61, 2⟩) (withToken "ann") (moment 63 ⟨77, 8⟩),
    .request (.otpVerify (.mapping [("phone", .str "0712 345678"), ("code", .str "000000")])) {}
      (moment 64 ⟨78, 9⟩),
    .saveAccount { id := 8, email := "clerk@awards.test" },
    .request (.voidVote 60 (.ok "double")) (withToken "clerk") (moment 65 ⟨79, 10⟩)]

theorem journal_of_run_afterwards : ∃ s, run (step demo) (fresh {}) afterwards = some s ∧
    s.db.audit.rows.map AuditLog.action = emitted (step demo) (fun t i _ => journal demo t i)
      (fresh {})
      afterwards ∧
    s.db.audit.rows.map AuditLog.action =
      [.eventStatusChanged, .nominationSubmitted, .nominationApproved, .eventStatusChanged,
        .otpRequested, .otpVerified, .voteCast, .voteDuplicate, .otpFailed,
      .permissionDenied] := by
  have hactions : (run (step demo) (fresh {}) afterwards).map (fun s =>
      s.db.audit.rows.map AuditLog.action) = some [.eventStatusChanged, .nominationSubmitted,
        .nominationApproved, .eventStatusChanged, .otpRequested, .otpVerified, .voteCast,
        .voteDuplicate, .otpFailed, .permissionDenied] := by
    decide +kernel
  obtain ⟨s, hs, hactions⟩ := Option.map_eq_some_iff.mp hactions
  exact ⟨s, hs, journal_of_run hs, hactions⟩

end KwAwards.Api.Journal
