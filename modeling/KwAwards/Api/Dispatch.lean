import KwAwards.Accounts.Login
import KwAwards.Platform
import KwAwards.Voting.RequestView

/-! # Requests to the API

A request is authenticated, checked against the permission classes of its action and throttled
(`initial`), and then its action runs (`act`). `step` is a request, or one of four changes that are
made outside the API: an account is saved or deleted, a voter is blocked or unblocked, or the
unverified voters are purged.

`initial_cases` says everything that can happen before the action. -/

namespace KwAwards.Api.Dispatch

open KwAwards.Lib.Tables KwAwards.Lib.Counters KwAwards.Common.Base KwAwards.Common.Exceptions
open KwAwards.Common.ExceptionHandler KwAwards.Common.Fields KwAwards.Common.Phone
open KwAwards.Common.Throttles KwAwards.Accounts.Authentication KwAwards.Accounts.Permissions
open KwAwards.Accounts.Login KwAwards.Audit.Log KwAwards.Events.Models KwAwards.Events.Serializers
open KwAwards.Events.Services KwAwards.Events.Views KwAwards.Nominations.Models
open KwAwards.Nominations.Services KwAwards.Nominations.Submission KwAwards.Voting.Models
open KwAwards.Voting.Votes KwAwards.Voting.Services KwAwards.Voting.Otp KwAwards.Voting.Serializers
open KwAwards.Voting.Entries KwAwards.Voting.Purge KwAwards.Store
open KwAwards.Voting.RequestView (Failure Outside Draws Delivery checkThrottles)

/-! ### Actions -/

/-- The actions that only read. -/
inductive ReadAction
  | events
  | eventResults
  | eventStats
  | categories
  | awards
  | nominations
  | awardNominations
  | nominee
  | votes
  | mine
  | auditLogs
  | me
  deriving DecidableEq, Repr

/-- A request, by its action: what its path names, what its body gives, and the keys of its new
rows. A body that its serializer refuses gives the error. `OPTIONS`, methods that a view refuses,
and the views that exchange or blacklist a refresh token are left out. -/
inductive Call
  | read (action : ReadAction)
  | createEvent (a : EventAttrs) (k : Keys)
  | updateEvent (slug : String) (full : Bool) (a : EventAttrs)
  | destroyEvent (slug : String)
  | setStatus (slug : String) (data : Except ApiError EventStatus)
  | createCategory (a : CategoryAttrs) (k : Keys)
  | updateCategory (pk : Id) (full : Bool) (a : CategoryAttrs)
  | destroyCategory (pk : Id)
  | createAward (a : AwardAttrs) (k : Keys)
  | updateAward (pk : Id) (full : Bool) (a : AwardAttrs)
  | destroyAward (pk : Id)
  | submitNomination (captcha : Bool) (a : SubmissionAttrs) (nominee : Id) (nk : Keys)
  | approve (pk : Id)
  | reject (pk : Id) (data : Except ApiError String)
  | otpRequest (data : RequestData) (captcha : String → Option String → Bool) (sms : Delivery)
      (code : String) (vk ck : Keys)
  | otpVerify (data : RequestData)
  | castVote (data : Except ApiError Id) (checkAt : Time) (vk : Keys)
  | voidVote (pk : Id) (data : Except ApiError String)
  | login (data : Except ApiError (String × String))

namespace Call

def method : Call → String
  | read _ => "GET"
  | updateEvent _ full _ | updateCategory _ full _ | updateAward _ full _ =>
    if full then "PUT" else "PATCH"
  | destroyEvent _ | destroyCategory _ | destroyAward _ => "DELETE"
  | createEvent .. | createCategory .. | createAward .. | setStatus .. | submitNomination ..
  | approve _
  | reject .. | otpRequest .. | otpVerify _ | castVote .. | voidVote .. | login _ => "POST"

/-- `authentication_classes`. -/
def authentication : Call → Authentication
  | otpRequest .. | otpVerify _ | login _ => .nobody
  | castVote .. | voidVote .. | read .votes | read .mine => .voterOrStaff
  | _ => .publicOrStaff

/-- `permission_classes`, or what `get_permissions` gives for the action. -/
def permissions : Call → List Permission
  | read .events | read .categories | read .awards => [isEventAdminOrReadOnly]
  | read .eventResults | read .nominations | read .awardNominations | read .nominee => [.allowAny]
  | read .eventStats | read .votes | read .auditLogs => [isEventAdmin]
  | read .mine => [.isVoter]
  | read .me => [.isAuthenticated]
  | createEvent .. | updateEvent .. | destroyEvent _ | createCategory .. | updateCategory ..
  | destroyCategory _ | createAward .. | updateAward .. | destroyAward _ => [isEventAdminOrReadOnly]
  | setStatus .. => [isEventAdmin]
  | submitNomination .. => [.allowAny]
  | approve _ | reject .. => [isModerator]
  | otpRequest .. | otpVerify _ => [.allowAny]
  | castVote .. => [.isVoter]
  | voidVote .. => [isEventAdmin]
  | login _ => [.allowAny, .hasAjaxHeader]

end Call

/-- `UserOrIPThrottle.get_ident`. -/
def userOrIpIdent (r : HttpRequest) : RequestUser → Option String
  | .staff account => some ("id:" ++ toString account.id)
  | .voter v => some ("id:" ++ toString v.id)
  | .anonymous => r.client.clientIp

/-- `get_throttles`: each scope with its identifier. -/
def Call.throttles (phones : PhoneNumbers) (r : HttpRequest) (user : RequestUser) :
    Call → List (String × Option String)
  | .submitNomination .. => [("nomination_ip", r.client.clientIp)]
  | .otpRequest data .. =>
    [("otp_request_phone_short", phoneIdent phones data),
      ("otp_request_phone_day", phoneIdent phones data), ("otp_request_ip", r.client.clientIp)]
  | .otpVerify data =>
    [("otp_verify_phone", phoneIdent phones data), ("otp_verify_ip", r.client.clientIp)]
  | .castVote .. => [("vote_voter", userOrIpIdent r user), ("vote_ip", r.client.clientIp)]
  | .login _ => [("staff_login_ip", r.client.clientIp)]
  | _ => []

/-! ### The system -/

/-- The settings, and the libraries the code calls. -/
structure Config extends Platform.Config where
  accessToken : Time → String → Except TokenFailure UserId
  allowedRegions : List String
  otpLength : ℕ
  rates : String → Option String
  largestTimeout : ℕ
  sha256 : String → String
  lower : String → String
  checkPassword : Account → String → Bool

def Config.passwords (cfg : Config) : Passwords := ⟨cfg.upper, cfg.lower, cfg.checkPassword⟩

def Config.tokens (cfg : Config) : TokenLibrary := ⟨cfg.accessToken, cfg.decode⟩

def Config.view (cfg : Config) : Voting.RequestView.Config where
  otp := cfg.otp
  phones := cfg.phones
  allowedRegions := cfg.allowedRegions
  rates := cfg.rates
  largestTimeout := cfg.largestTimeout
  sha256 := cfg.sha256

/-- The database, the cache of the SMS budget, the one of the throttles, and the accounts. -/
structure State extends Platform.State where
  throttles : Cache ℚ
  accounts : Table Account

/-- When a request is authenticated, throttled and served, and the keys of the entry it may
write. -/
structure Moment where
  authAt : Time
  clock : String → ℚ
  now : Time
  entry : Keys

/-- What ends a request before or in its action. -/
inductive Stop
  | framework (exc : Exc)
  | raised (e : Raised)
  | view (f : Failure)

section Dispatch

variable (cfg : Config)

/-- The surroundings of the views, for the throttles. -/
def Moment.outside (m : Moment) (captcha : String → Option String → Bool)
    (sms : Delivery) : Outside where
  clock := m.clock
  now := m.now
  captcha
  sms

/-- Who a request is authenticated as. -/
def authenticated (s : State) (call : Call) (r : HttpRequest)
    (m : Moment) : Except Exc RequestUser :=
  call.authentication.perform cfg.tokens s.accounts s.db m.authAt r.authorization

/-- `check_throttles`. -/
def throttle (s : State) (call : Call) (r : HttpRequest) (m : Moment) (user : RequestUser) :
    State × Except Stop RequestUser :=
  match checkThrottles cfg.view (m.outside (fun _ _ => true) .sent)
      ((call.throttles cfg.phones r user).map fun (scope, ident) => (scope, .ok ident))
        s.throttles with
  | .error f => (s, .error (.view f))
  | .ok (throttles, wait :: waits) =>
    ({ s with throttles }, .error (.view (.throttled (waits.foldl max wait))))
  | .ok (throttles, []) => ({ s with throttles }, .ok user)

/-- **`APIView.initial`**: authentication, permissions, throttles. -/
def initial (s : State) (call : Call) (r : HttpRequest) (m : Moment) :
    Option (State × Except Stop RequestUser) :=
  match authenticated cfg s call r m with
  | .error exc => some (s, .error (.framework exc))
  | .ok user =>
    (checkPermissions r call.method user m.now m.entry call.authentication call.permissions
      s.db).map
      fun (db, res) =>
        match res with
        | .error e => ({ s with db }, .error (.framework (.api e)))
        | .ok () => throttle cfg { s with db } call r m user

/-- The database after an action, and how the action ends. -/
def State.commit {α : Type} (s : State) (x : Option (Database × Except Raised α)) :
    Option (State × Except Stop Unit) :=
  x.map fun (db, res) => ({ s with db }, match res with
    | .ok _ => .ok ()
    | .error e => .error (.raised e))

/-- `request.user` of an action that only staff reaches. -/
def accountOf : RequestUser → Except Stop Account
  | .staff account => .ok account
  | _ => .error (.framework .other)

section Views

variable (s : State) (user : RequestUser) (r : HttpRequest) (m : Moment)

/-- `EventViewSet.set_status`. -/
def eventSetStatus (slug : String) (data : Except ApiError EventStatus) :
    Option (State × Except Stop Unit) :=
  match eventBySlug s.db slug, data with
  | none, _ => some (s, .error (.raised (notFound "Event")))
  | some _, .error e => some (s, .error (.raised (.api e)))
  | some event, .ok new =>
    s.commit (changeStatus s.db event.id new (some (r.client.request user.principal)) m.now m.entry)

/-- `NominationViewSet.approve`, and `reject` with the reason of its body. -/
def nominationReview (pk : Id) (approve : Bool) (reason : String) :
    Option (State × Except Stop Unit) :=
  match s.db.nominations.get? pk, accountOf user with
  | none, _ => some (s, .error (.raised (notFound "Nomination")))
  | some _, .error stop => some (s, .error stop)
  | some n, .ok account => s.commit <| reviewNomination s.db
    { nomination := n.id, approve, reviewer := account.id, reason
      request := some (r.client.request user.principal) } m.now m.entry

/-- `OTPRequestView.post`. -/
def otpRequestPost (data : RequestData) (captcha : String → Option String → Bool) (sms : Delivery)
    (code : String) (vk ck : Keys) : Option (State × Except Stop Unit) :=
  (Voting.RequestView.post cfg.view (m.outside captcha sms) ⟨.ok data, r.client⟩
    ⟨code, vk, ck, m.entry⟩
    ⟨s.db, s.throttles, s.cache⟩).map fun (v, res) =>
      ({ s with db := v.db, cache := v.budget }, match res with
        | .ok () => .ok ()
        | .error f => .error (.view f))

/-- `OTPVerifyView.post`. -/
def otpVerifyPost (data : RequestData) : Option (State × Except Stop Unit) :=
  match otpVerifySerializer cfg.phones cfg.otpLength data with
  | .error e => some (s, .error (.raised (.api e)))
  | .ok (phone, code) =>
    s.commit
      ((verifyOtp cfg.otp s.db m.now phone code (r.client.request user.principal) m.entry).map
      fun (db, _, res) => (db, match res with
        | .ok voter => .ok voter
        | .error e => .error (.api e)))

/-- `VoteViewSet.create`. -/
def voteCreate (data : Except ApiError Id) (checkAt : Time) (vk : Keys) :
    Option (State × Except Stop Unit) :=
  match data, user with
  | .error e, _ => some (s, .error (.raised (.api e)))
  | .ok nomination, .voter v =>
    s.commit
      (castFreeVote s.db v.id nomination (r.client.request user.principal) checkAt m.now vk m.entry)
  | .ok _, _ => some (s, .error (.framework .other))

/-- `VoteViewSet.void`. -/
def voteVoid (pk : Id) (data : Except ApiError String) : Option (State × Except Stop Unit) :=
  match data, s.db.votes.get? pk, accountOf user with
  | .error e, _, _ => some (s, .error (.raised (.api e)))
  | .ok _, none, _ => some (s, .error (.raised (notFound "Vote")))
  | .ok _, some _, .error stop => some (s, .error stop)
  | .ok reason, some vote, .ok account =>
    s.commit
      (voidVote s.db vote.id account.id reason (some (r.client.request user.principal))
        m.now m.entry)

/-- `StaffTokenObtainPairView.post`. -/
def loginPost (data : Except ApiError (String × String)) : Option (State × Except Stop Unit) :=
  match data with
  | .error e => some (s, .error (.raised (.api e)))
  | .ok (email, password) =>
    (validate cfg.passwords s.accounts s.db r.client email password m.now m.entry).map
      fun (db, accounts, res) => ({ s with db, accounts }, match res with
        | .ok _ => .ok ()
        | .error exc => .error (.framework exc))

/-- **The action of a request.** -/
def act : Call → Option (State × Except Stop Unit)
  | .read _ => some (s, .ok ())
  | .createEvent a k => s.commit (createEvent cfg.clean s.db a m.now k)
  | .updateEvent slug full a => s.commit (some (updateEvent cfg.clean s.db slug full a m.now))
  | .destroyEvent slug => s.commit (some (destroyEvent s.db slug))
  | .setStatus slug data => eventSetStatus s user r m slug data
  | .createCategory a k => s.commit (createCategory cfg.clean s.db a m.now k)
  | .updateCategory pk full a => s.commit (some (updateCategory cfg.clean s.db pk full a m.now))
  | .destroyCategory pk => s.commit (some (destroyCategory s.db pk))
  | .createAward a k => s.commit (createAward cfg.clean s.db a m.now k)
  | .updateAward pk full a => s.commit (some (updateAward cfg.clean s.db pk full a m.now))
  | .destroyAward pk => s.commit (some (destroyAward s.db pk))
  | .submitNomination captcha a nominee nk =>
    s.commit (createNomination cfg.phones cfg.clean cfg.upper captcha s.db a
      (r.client.request user.principal) m.now nominee nk m.entry)
  | .approve pk => nominationReview s user r m pk true ""
  | .reject _ (.error e) => some (s, .error (.raised (.api e)))
  | .reject pk (.ok reason) => nominationReview s user r m pk false reason
  | .otpRequest data captcha sms code vk ck => otpRequestPost cfg s r m data captcha sms code vk ck
  | .otpVerify data => otpVerifyPost cfg s user r m data
  | .castVote data checkAt vk => voteCreate s user r m data checkAt vk
  | .voidVote pk data => voteVoid s user r m pk data
  | .login data => loginPost cfg s r m data

end Views

/-- **A request.** -/
def dispatch (s : State) (call : Call) (r : HttpRequest) (m : Moment) :
    Option (State × Except Stop Unit) :=
  (initial cfg s call r m).bind fun (s, res) =>
    match res with
    | .error stop => some (s, .error stop)
    | .ok user => act cfg s user r m call

/-! ### What is done outside the API -/

/-- Whether votes or entries refer to an account, which then cannot be deleted. -/
def isReferenced (db : Database) (account : Id) : Bool :=
  db.votes.rows.any (fun v => v.voidedBy = some account) ||
    db.audit.rows.any fun e => e.actorUser = some account

/-- `SET_NULL` on the column `reviewed_by`. -/
def forgetReviewer (account : Id) (n : Nomination) : Nomination :=
  if n.reviewedBy = some account then { n with reviewedBy := none } else n

theorem id_forgetReviewer (account : Id) (n : Nomination) :
    (forgetReviewer account n).id = n.id := by
  unfold forgetReviewer; split_ifs <;> rfl

/-- Deleting an account in the admin. -/
def deleteAccount (s : State) (account : Id) : State :=
  if isReferenced s.db account then s
  else { s with
    db :=
      { s.db with
        nominations :=
          s.db.nominations.map (forgetReviewer account) (id_forgetReviewer account) }
    accounts := s.accounts.filter fun a => a.id ≠ account }

/-- Saving an account in the admin; an address that is taken is refused. -/
def saveAccount (s : State) (account : Account) : State :=
  if emailFree cfg.passwords s.accounts account then
    { s with accounts := s.accounts.put account } else s

/-- What can happen: a request, or one of the changes that are made outside the API: an account is
saved or deleted in the admin, a voter is blocked or unblocked there, and the command purges the
unverified voters. The bulk actions of the admin, which review, void and change a status, and its
other forms are no steps. -/
inductive Input
  | request (call : Call) (r : HttpRequest) (m : Moment)
  | saveAccount (account : Account)
  | deleteAccount (account : Id)
  | setBlocked (voter : Id) (blocked : Bool) (now : Time)
  | purge (olderThanHours : ℤ) (execute : Bool) (now : Time)

/-- **One thing that happens.** -/
def step (s : State) : Input → Option State
  | .request call r m => (dispatch cfg s call r m).map Prod.fst
  | .saveAccount account => some (saveAccount cfg s account)
  | .deleteAccount account => some (deleteAccount s account)
  | .setBlocked voter blocked now =>
    some { s with db := { s.db with voters := setBlocked s.db.voters voter blocked now } }
  | .purge olderThanHours execute now =>
    some { s with db := (handle s.db now olderThanHours execute).1 }

end Dispatch

/-! ### Before the action -/

variable {cfg : Config} {s s' : State} {call : Call} {r : HttpRequest} {m : Moment}

/-- The throttles move their counters. -/
theorem throttle_cases {user : RequestUser} {res : Except Stop RequestUser}
    (h : throttle cfg s call r m user = (s', res)) :
    (∃ throttles, s' = { s with throttles }) ∧
    ((∃ f, res = .error (.view f)) ∨ res = .ok user) := by
  unfold throttle at h
  split at h
  · obtain ⟨rfl, rfl⟩ := Prod.mk.inj h
    exact ⟨⟨s.throttles, rfl⟩, Or.inl ⟨_, rfl⟩⟩
  · next throttles _ _ _ =>
    obtain ⟨rfl, rfl⟩ := Prod.mk.inj h
    exact ⟨⟨throttles, rfl⟩, Or.inl ⟨_, rfl⟩⟩
  · next throttles _ =>
    obtain ⟨rfl, rfl⟩ := Prod.mk.inj h
    exact ⟨⟨throttles, rfl⟩, Or.inr rfl⟩

/-- The first class that refuses a request, and what it leaves: an entry when it asks for a role and
the request is an account's, else nothing. -/
inductive Denied (call : Call) (r : HttpRequest) (m : Moment) (user : RequestUser) (s s' : State) :
    Prop
  | silent (p : Permission) (hp : firstDenial r call.method user call.permissions = some p)
    (hnot : p.requiredRole call.method = none ∨ ∀ account, user ≠ .staff account) (hs : s' = s)
  | audited (p : Permission) (hp : firstDenial r call.method user call.permissions = some p)
    (role : String) (hrole : p.requiredRole call.method = some role) (account : Account)
    (huser : user = .staff account) (e : AuditLog)
    (he : DeniedEntry r call.method account role m.now m.entry e) (audit : Table AuditLog)
    (hfresh : s.db.audit.get? e.id = none) (hrows : audit.rows = s.db.audit.rows ++ [e])
    (hs : s' = { s with db := { s.db with audit } })

/-- **What happens before the action:** the authentication fails, a class refuses, a throttle does,
or the request is let through. -/
theorem initial_cases {res : Except Stop RequestUser}
    (h : initial cfg s call r m = some (s', res)) :
    (∃ exc, authenticated cfg s call r m = .error exc ∧ s' = s ∧ res = .error (.framework exc)) ∨
      ∃ user, authenticated cfg s call r m = .ok user ∧
        ((Denied call r m user s s' ∧ ∃ exc, res = .error (.framework exc)) ∨
          (firstDenial r call.method user call.permissions = none ∧
            (∃ throttles, s' = { s with throttles }) ∧
            ((∃ f, res = .error (.view f)) ∨ res = .ok user))) := by
  unfold initial at h
  split at h
  · next exc hauth =>
    obtain ⟨rfl, rfl⟩ := Prod.mk.inj (Option.some.inj h)
    exact Or.inl ⟨exc, hauth, rfl, rfl⟩
  · next user hauth =>
    obtain ⟨⟨db, x⟩, hcheck, hres⟩ := Option.map_eq_some_iff.mp h
    refine Or.inr ⟨user, hauth, ?_⟩
    obtain ⟨hnone, rfl, rfl⟩ | ⟨p, hp, rfl, hcases⟩ := checkPermissions_cases hcheck
    · exact Or.inr ⟨hnone, throttle_cases hres⟩
    · obtain ⟨rfl, rfl⟩ := Prod.mk.inj hres
      refine Or.inl ⟨?_, _, rfl⟩
      obtain ⟨rfl, hnot⟩ | ⟨role, account, e, audit, hrole, huser, he, hk, hrows, rfl⟩ := hcases
      · exact .silent p hp hnot rfl
      · exact .audited p hp role hrole account huser e he audit hk hrows rfl

/-- **A request** ends before its action, or is let through and its action runs. -/
theorem dispatch_cases {res : Except Stop Unit} (h : dispatch cfg s call r m = some (s', res)) :
    (∃ exc, authenticated cfg s call r m = .error exc ∧ s' = s) ∨
      ∃ user, authenticated cfg s call r m = .ok user ∧
        (Denied call r m user s s' ∨
          (firstDenial r call.method user call.permissions = none ∧
            ∃ throttles, s' = { s with throttles } ∨
              act cfg { s with throttles } user r m call = some (s', res))) := by
  obtain ⟨⟨s₁, x⟩, hinitial, h⟩ := Option.bind_eq_some_iff.mp h
  obtain ⟨exc, hauth, rfl, rfl⟩ | ⟨user, hauth, ⟨hdenied, exc, rfl⟩ |
    ⟨hnone, ⟨throttles, rfl⟩, ⟨f, rfl⟩ | rfl⟩⟩ := initial_cases hinitial
  · obtain ⟨rfl, -⟩ := Prod.mk.inj (Option.some.inj h)
    exact Or.inl ⟨exc, hauth, rfl⟩
  · obtain ⟨rfl, -⟩ := Prod.mk.inj (Option.some.inj h)
    exact Or.inr ⟨user, hauth, Or.inl hdenied⟩
  · obtain ⟨rfl, -⟩ := Prod.mk.inj (Option.some.inj h)
    exact Or.inr ⟨user, hauth, Or.inr ⟨hnone, throttles, Or.inl rfl⟩⟩
  · exact Or.inr ⟨user, hauth, Or.inr ⟨hnone, throttles, Or.inr h⟩⟩

end KwAwards.Api.Dispatch
