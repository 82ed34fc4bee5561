import KwAwards.Api.Dispatch

/-! # The actions are operations of the platform

`Runs` says which operation of the platform the action of a call is, for the user that the request
is authenticated as. Every action is the step of such an operation, a login, or leaves everything
(`act_runs`), so what the operations keep, the requests keep: `effect_of_step` for the API, and from
it that stored votes stay legitimate and unverified voters reclaimable in every run of requests,
with the changes of accounts between them (`sound_of_run`). -/

namespace KwAwards.Api.Actions

open KwAwards.Lib.Tables KwAwards.Lib.Counters KwAwards.Lib.Run KwAwards.Common.Base
open KwAwards.Common.Exceptions KwAwards.Common.ExceptionHandler KwAwards.Common.Fields
open KwAwards.Accounts.Authentication KwAwards.Accounts.Permissions KwAwards.Accounts.Login
open KwAwards.Audit.Log KwAwards.Events.Models KwAwards.Events.Views KwAwards.Nominations.Models
open KwAwards.Nominations.Services KwAwards.Voting.Models KwAwards.Voting.Votes
open KwAwards.Voting.Services KwAwards.Voting.Otp KwAwards.Voting.Serializers
open KwAwards.Voting.Entries KwAwards.Voting KwAwards.Voting.Authentication KwAwards.Voting.Purge
open KwAwards.Store KwAwards.Api.Dispatch
open KwAwards.Platform (Op principalOf Effect LegitVote Verified Attributed)

/-- The staff account of a request, if any. -/
def accountId : RequestUser → Option Id
  | .staff account => some account.id
  | _ => none

/-- **Which operation** of the platform a call is, for a user. -/
inductive Runs (r : HttpRequest) (m : Moment) : Call → RequestUser → Op → Prop
  | createEvent (user a k) : Runs r m (.createEvent a k) user (.createEvent a m.now k)
  | updateEvent (user slug full a) :
    Runs r m (.updateEvent slug full a) user (.updateEvent slug full a m.now)
  | destroyEvent (user slug) : Runs r m (.destroyEvent slug) user (.destroyEvent slug)
  | setStatus (account slug event new) :
    Runs r m (.setStatus slug (.ok new)) (.staff account)
      (.changeStatus event new account.id r.client m.now m.entry)
  | createCategory (user a k) : Runs r m (.createCategory a k) user (.createCategory a m.now k)
  | updateCategory (user pk full a) :
    Runs r m (.updateCategory pk full a) user (.updateCategory pk full a m.now)
  | destroyCategory (user pk) : Runs r m (.destroyCategory pk) user (.destroyCategory pk)
  | createAward (user a k) : Runs r m (.createAward a k) user (.createAward a m.now k)
  | updateAward (user pk full a) :
    Runs r m (.updateAward pk full a) user (.updateAward pk full a m.now)
  | destroyAward (user pk) : Runs r m (.destroyAward pk) user (.destroyAward pk)
  | submitNomination (user captcha a nominee nk) :
    Runs r m (.submitNomination captcha a nominee nk) user
      (.submitNomination captcha a (accountId user) r.client m.now nominee nk m.entry)
  | approve (account pk) :
    Runs r m (.approve pk) (.staff account) (.reviewNomination
      { nomination := pk, approve := true, reviewer := account.id
        request := some (r.client.request (.user account.id)) } m.now m.entry)
  | reject (account pk reason) :
    Runs r m (.reject pk (.ok reason)) (.staff account) (.reviewNomination
      { nomination := pk, approve := false, reviewer := account.id, reason
        request := some (r.client.request (.user account.id)) } m.now m.entry)
  | otpRequest (data captcha sms code vk ck phone) :
    Runs r m (.otpRequest data captcha sms code vk ck) .anonymous
      (.requestOtp phone r.client code m.now vk ck m.entry)
  | otpVerify (data phone code) :
    Runs r m (.otpVerify data) .anonymous (.verifyOtp phone code r.client m.now m.entry)
  | castVote (voter header nomination checkAt vk) (h : r.authorization = some header) :
    Runs r m (.castVote (.ok nomination) checkAt vk) (.voter voter)
      (.castVote header nomination r.client m.authAt checkAt m.now vk m.entry)
  | voidVote (account pk reason) :
    Runs r m (.voidVote pk (.ok reason)) (.staff account)
      (.voidVote pk account.id reason r.client m.now m.entry)

variable {cfg : Config} {s s' : State} {call : Call} {r : HttpRequest} {m : Moment}
  {user : RequestUser}

/-- Only the caches and the database move, and these as in a step of the platform. -/
structure Moves (cfg : Config) (s s' : State) (op : Op) : Prop where
  step : Platform.step cfg.toConfig s.toState op = some s'.toState
  throttles : s'.throttles = s.throttles
  accounts : s'.accounts = s.accounts

theorem moves_of_commit {α : Type} {x : Option (Database × Except Raised α)}
    {res : Except Stop Unit} {op : Op} (h : s.commit x = some (s', res))
    (hop : ∀ db y, x = some (db, y) →
      Platform.step cfg.toConfig s.toState op = some { s.toState with db }) :
      Moves cfg s s' op := by
  obtain ⟨⟨db, y⟩, hx, hs⟩ := Option.map_eq_some_iff.mp h
  obtain ⟨rfl, -⟩ := Prod.mk.inj hs
  exact ⟨hop db y hx, rfl, rfl⟩

/-- An operation that returns a database and a result. -/
theorem step_of_map {α : Type} {x : Option (Database × α)} {db : Database} {y : α}
    {t : Platform.State} (h : x = some (db, y)) :
    (x.map fun (db, _) => { t with db }) = some { t with db } := by
  rw [h]
  rfl

theorem nominationReview_runs {pk : Id} {approve : Bool} {reason : String} {res : Except Stop Unit}
    (h : nominationReview s user r m pk approve reason = some (s', res)) :
    s' = s ∨ ∃ account, user = .staff account ∧ Moves cfg s s' (.reviewNomination
      { nomination := pk, approve, reviewer := account.id, reason
        request := some (r.client.request (.user account.id)) } m.now m.entry) := by
  unfold nominationReview at h
  split at h
  · obtain ⟨rfl, -⟩ := Prod.mk.inj (Option.some.inj h)
    exact Or.inl rfl
  · obtain ⟨rfl, -⟩ := Prod.mk.inj (Option.some.inj h)
    exact Or.inl rfl
  · next n account hn huser =>
    rcases user with _ | a | v
    · cases huser
    · obtain rfl := Except.ok.inj huser
      obtain rfl : n.id = pk := Table.key_of_get? hn
      exact Or.inr ⟨a, rfl, moves_of_commit h fun db y hx => step_of_map hx⟩
    · cases huser

/-- An operation that always returns a database. -/
theorem moves_of_commit_some {α : Type} {x : Database × Except Raised α} {res : Except Stop Unit}
    {op : Op} (h : s.commit (some x) = some (s', res))
    (hop : Platform.step cfg.toConfig s.toState op = some { s.toState with db := x.1 }) :
    Moves cfg s s' op := by
  refine moves_of_commit h fun db y hx => ?_
  obtain rfl := Option.some.inj hx
  exact hop

/-- What a single class that asks for a role lets through. -/
theorem staff_of_allows {role : String}
    (h : firstDenial r call.method user [.role role] = none) :
    ∃ account, user = .staff account ∧ account.Has role :=
  userHasRole_iff.mp (firstDenial_eq_none h _ (List.mem_singleton_self _))

theorem otpRequest_runs {data : RequestData} {captcha : String → Option String → Bool}
    {sms : Voting.RequestView.Delivery} {code : String} {vk ck : Keys} {res : Except Stop Unit}
    (h : otpRequestPost cfg s r m data captcha sms code vk ck = some (s', res)) :
    s' = s ∨ ∃ phone, Moves cfg s s' (.requestOtp phone r.client code m.now vk ck m.entry) := by
  obtain ⟨⟨v, y⟩, hpost, hs⟩ := Option.map_eq_some_iff.mp h
  unfold Voting.RequestView.post at hpost
  split at hpost
  · obtain ⟨rfl, -⟩ := Prod.mk.inj (Option.some.inj hpost)
    obtain ⟨rfl, -⟩ := Prod.mk.inj hs
    exact Or.inl rfl
  · next phone _ =>
    obtain ⟨⟨db, budget, q⟩, hreq, hv⟩ := Option.map_eq_some_iff.mp hpost
    obtain ⟨rfl, -⟩ := Prod.mk.inj hv
    obtain ⟨rfl, -⟩ := Prod.mk.inj hs
    refine Or.inr ⟨phone, ?_, rfl, rfl⟩
    exact Option.map_eq_some_iff.mpr ⟨_, hreq, rfl⟩

theorem otpVerify_runs {data : RequestData} {res : Except Stop Unit}
    (h : otpVerifyPost cfg s .anonymous r m data = some (s', res)) :
    s' = s ∨ ∃ phone code, Moves cfg s s' (.verifyOtp phone code r.client m.now m.entry) := by
  unfold otpVerifyPost at h
  split at h
  · obtain ⟨rfl, -⟩ := Prod.mk.inj (Option.some.inj h)
    exact Or.inl rfl
  · next phone code _ =>
    refine Or.inr ⟨phone, code, moves_of_commit h fun db y hx => ?_⟩
    obtain ⟨⟨db', o, res'⟩, hverify, hdb⟩ := Option.map_eq_some_iff.mp hx
    obtain ⟨rfl, -⟩ := Prod.mk.inj hdb
    exact Option.map_eq_some_iff.mpr ⟨_, hverify, rfl⟩

theorem setStatus_runs {slug : String} {data : Except ApiError EventStatus} {account : Account}
    {res : Except Stop Unit}
    (h : eventSetStatus s (.staff account) r m slug data = some (s', res)) :
    s' = s ∨ ∃ event new, data = .ok new ∧
      Moves cfg s s' (.changeStatus event new account.id r.client m.now m.entry) := by
  unfold eventSetStatus at h
  split at h
  · obtain ⟨rfl, -⟩ := Prod.mk.inj (Option.some.inj h)
    exact Or.inl rfl
  · obtain ⟨rfl, -⟩ := Prod.mk.inj (Option.some.inj h)
    exact Or.inl rfl
  · next event new _ =>
    exact Or.inr ⟨event.id, new, rfl, moves_of_commit h fun db y hx => step_of_map hx⟩

theorem castVote_runs {data : Except ApiError Id} {checkAt : Time} {vk : Keys} {v : Voter}
    {header : String} {res : Except Stop Unit}
    (hauth : authenticate cfg.decode s.db m.authAt header = .ok (some v))
    (h : voteCreate s (.voter v) r m data checkAt vk = some (s', res)) :
    s' = s ∨ ∃ nomination, data = .ok nomination ∧
      Moves cfg s s' (.castVote header nomination r.client m.authAt checkAt m.now vk m.entry) := by
  rcases data with e | nomination
  · obtain ⟨rfl, -⟩ := Prod.mk.inj (Option.some.inj h)
    exact Or.inl rfl
  · refine Or.inr ⟨nomination, rfl, moves_of_commit h fun db y hx => ?_⟩
    replace hauth : authenticate cfg.toConfig.decode s.toState.db m.authAt header = .ok (some v) :=
      hauth
    simp only [Platform.step, hauth]
    exact step_of_map hx

theorem voidVote_runs {pk : Id} {data : Except ApiError String} {account : Account}
    {res : Except Stop Unit} (h : voteVoid s (.staff account) r m pk data = some (s', res)) :
    s' = s ∨ ∃ reason, data = .ok reason ∧
      Moves cfg s s' (.voidVote pk account.id reason r.client m.now m.entry) := by
  unfold voteVoid at h
  split at h
  · obtain ⟨rfl, -⟩ := Prod.mk.inj (Option.some.inj h)
    exact Or.inl rfl
  · obtain ⟨rfl, -⟩ := Prod.mk.inj (Option.some.inj h)
    exact Or.inl rfl
  · obtain ⟨rfl, -⟩ := Prod.mk.inj (Option.some.inj h)
    exact Or.inl rfl
  · next reason vote a hget huser =>
    obtain rfl := Except.ok.inj huser
    obtain ⟨-, rfl⟩ := VoteTable.get?_eq_some.mp hget
    exact Or.inr ⟨reason, rfl, moves_of_commit h fun db y hx => step_of_map hx⟩

/-- A login writes to the audit log and to the account. -/
structure LogsIn (cfg : Config) (s : State) (call : Call) (r : HttpRequest) (m : Moment)
    (s' : State) :
    Prop where
  attempt : ∃ email password res, call = .login (.ok (email, password)) ∧
    validate cfg.passwords s.accounts s.db r.client email password m.now m.entry =
      some (s'.db, s'.accounts, res)
  cache : s'.cache = s.cache

theorem login_runs {data : Except ApiError (String × String)} {res : Except Stop Unit}
    (h : loginPost cfg s r m data = some (s', res)) :
    s' = s ∨ LogsIn cfg s (.login data) r m s' := by
  unfold loginPost at h
  split at h
  · obtain ⟨rfl, -⟩ := Prod.mk.inj (Option.some.inj h)
    exact Or.inl rfl
  · next email password =>
    obtain ⟨⟨db, accounts, y⟩, hv, hs⟩ := Option.map_eq_some_iff.mp h
    obtain ⟨rfl, -⟩ := Prod.mk.inj hs
    exact Or.inr ⟨⟨email, password, y, rfl, hv⟩, rfl⟩

/-- **Every action** is the step of an operation that the call runs, a login, or leaves
everything. -/
theorem act_runs {res : Except Stop Unit} (hauth : authenticated cfg s call r m = .ok user)
    (hallow : firstDenial r call.method user call.permissions = none)
    (h : act cfg s user r m call = some (s', res)) :
    s' = s ∨ (∃ op, Runs r m call user op ∧ Moves cfg s s' op) ∨ LogsIn cfg s call r m s' := by
  by_cases hlogin : ∃ data, call = .login data
  · obtain ⟨data, rfl⟩ := hlogin
    exact (login_runs h).imp_right Or.inr
  refine (?_ : s' = s ∨ ∃ op, Runs r m call user op ∧ Moves cfg s s' op).imp_right Or.inl
  cases call with
  | login data => exact absurd ⟨data, rfl⟩ hlogin
  | read action =>
    obtain ⟨rfl, -⟩ := Prod.mk.inj (Option.some.inj h)
    exact Or.inl rfl
  | createEvent a k =>
    exact Or.inr ⟨_, .createEvent user a k, moves_of_commit h fun db y hx => step_of_map hx⟩
  | updateEvent slug full a =>
    exact Or.inr ⟨_, .updateEvent user slug full a, moves_of_commit_some h rfl⟩
  | destroyEvent slug => exact Or.inr ⟨_, .destroyEvent user slug, moves_of_commit_some h rfl⟩
  | setStatus slug data =>
    obtain ⟨account, rfl, -⟩ := staff_of_allows hallow
    obtain hs | ⟨event, new, rfl, hmoves⟩ := setStatus_runs h
    · exact Or.inl hs
    · exact Or.inr ⟨_, .setStatus account slug event new, hmoves⟩
  | createCategory a k =>
    exact Or.inr ⟨_, .createCategory user a k, moves_of_commit h fun db y hx => step_of_map hx⟩
  | updateCategory pk full a =>
    exact Or.inr ⟨_, .updateCategory user pk full a, moves_of_commit_some h rfl⟩
  | destroyCategory pk => exact Or.inr ⟨_, .destroyCategory user pk, moves_of_commit_some h rfl⟩
  | createAward a k =>
    exact Or.inr ⟨_, .createAward user a k, moves_of_commit h fun db y hx => step_of_map hx⟩
  | updateAward pk full a =>
    exact Or.inr ⟨_, .updateAward user pk full a, moves_of_commit_some h rfl⟩
  | destroyAward pk => exact Or.inr ⟨_, .destroyAward user pk, moves_of_commit_some h rfl⟩
  | submitNomination captcha a nominee nk =>
    refine Or.inr
      ⟨_, .submitNomination user captcha a nominee nk, moves_of_commit h fun db y hx => ?_⟩
    have hprincipal : user.principal = principalOf (accountId user) := by
      rcases user with _ | account | v
      · rfl
      · rfl
      · exact absurd (perform_eq_voter hauth).1 (by simp [Call.authentication])
    rw [hprincipal] at hx
    exact step_of_map hx
  | approve pk =>
    obtain hs | ⟨account, rfl, hmoves⟩ := nominationReview_runs h
    · exact Or.inl hs
    · exact Or.inr ⟨_, .approve account pk, hmoves⟩
  | reject pk data =>
    rcases data with e | reason
    · obtain ⟨rfl, -⟩ := Prod.mk.inj (Option.some.inj h)
      exact Or.inl rfl
    · obtain hs | ⟨account, rfl, hmoves⟩ := nominationReview_runs h
      · exact Or.inl hs
      · exact Or.inr ⟨_, .reject account pk reason, hmoves⟩
  | otpRequest data captcha sms code vk ck =>
    obtain rfl := Except.ok.inj hauth
    obtain hs | ⟨phone, hmoves⟩ := otpRequest_runs h
    · exact Or.inl hs
    · exact Or.inr ⟨_, .otpRequest data captcha sms code vk ck phone, hmoves⟩
  | otpVerify data =>
    obtain rfl := Except.ok.inj hauth
    obtain hs | ⟨phone, code, hmoves⟩ := otpVerify_runs h
    · exact Or.inl hs
    · exact Or.inr ⟨_, .otpVerify data phone code, hmoves⟩
  | castVote data checkAt vk =>
    have hvoter := firstDenial_eq_none hallow _ (List.mem_singleton_self Permission.isVoter)
    rcases user with _ | account | v
    · cases hvoter
    · cases hvoter
    · obtain ⟨-, ⟨header, hsent, hheader⟩, -⟩ := perform_eq_voter hauth
      obtain hs | ⟨nomination, rfl, hmoves⟩ := castVote_runs hheader h
      · exact Or.inl hs
      · exact Or.inr ⟨_, .castVote v header nomination checkAt vk hsent, hmoves⟩
  | voidVote pk data =>
    obtain ⟨account, rfl, -⟩ := staff_of_allows hallow
    obtain hs | ⟨reason, rfl, hmoves⟩ := voidVote_runs h
    · exact Or.inl hs
    · exact Or.inr ⟨_, .voidVote account pk reason, hmoves⟩

/-! ### What can happen -/

/-- **What happens to the database:** nothing, the entry of a role that is refused, the one of a
login, the operation that a request runs for a user whom every permission class lets through, or
what is done outside the API. -/
inductive Happens (cfg : Config) (s : State) : Input → State → Prop
  | idle {i : Input} {s' : State} (hdb : s'.db = s.db) : Happens cfg s i s'
  | denied {call : Call} {r : HttpRequest} {m : Moment} {s' : State} (p : Permission)
    (role : String)
    (account : Account) (e : AuditLog)
    (audit : Table AuditLog) (hauth : authenticated cfg s call r m = .ok (.staff account))
    (hp : firstDenial r call.method (.staff account) call.permissions = some p)
    (hrole : p.requiredRole call.method = some role)
    (he : DeniedEntry r call.method account role m.now m.entry e)
    (hfresh : s.db.audit.get? e.id = none)
    (hrows : audit.rows = s.db.audit.rows ++ [e]) (hdb : s'.db = { s.db with audit }) :
    Happens cfg s (.request call r m) s'
  | login {r : HttpRequest} {m : Moment} {s' : State} (email password : String)
    (res : Except Exc Account)
    (e : AuditLog)
    (audit : Table AuditLog) (hfresh : s.db.audit.get? e.id = none)
    (hrows : audit.rows = s.db.audit.rows ++ [e]) (hvoter : e.actorVoter = none)
    (hstamped : Stamped (some (r.client.request .anonymous)) m.now e)
    (he : Attempt cfg.passwords s.accounts password e res s'.accounts)
    (hdb : s'.db = { s.db with audit }) :
    Happens cfg s (.request (.login (.ok (email, password))) r m) s'
  | ran {call : Call} {r : HttpRequest} {m : Moment} {s' : State} (user : RequestUser) (op : Op)
    (hauth : authenticated cfg s call r m = .ok user)
    (hallow : firstDenial r call.method user call.permissions = none)
    (hruns : Runs r m call user op)
    (hstep : Platform.step cfg.toConfig s.toState op = some s'.toState) :
    Happens cfg s (.request call r m) s'
  | forgotten {account : Id} {s' : State} (hfree : isReferenced s.db account = false) (hdb : s'.db =
      { s.db with
        nominations :=
          s.db.nominations.map (forgetReviewer account) (id_forgetReviewer account) }) :
    Happens cfg s (.deleteAccount account) s'
  | blocked {voter : Id} {blocked : Bool} {now : Time} {s' : State}
    (hdb : s'.db = { s.db with voters := setBlocked s.db.voters voter blocked now }) :
    Happens cfg s (.setBlocked voter blocked now) s'
  | purged {olderThanHours : ℤ} {execute : Bool} {now : Time} {s' : State}
    (hdb : Purged s.db s'.db) :
    Happens cfg s (.purge olderThanHours execute now) s'

theorem happens_of_dispatch {res : Except Stop Unit}
    (h : dispatch cfg s call r m = some (s', res)) :
    Happens cfg s (.request call r m) s' := by
  obtain ⟨_, -, rfl⟩ | ⟨user, hauth, hdenied | ⟨hallow, throttles, rfl | hact⟩⟩ := dispatch_cases h
  · exact .idle rfl
  · cases hdenied with
    | silent _ _ _ hs => exact .idle (by rw [hs])
    | audited p hp role hrole account huser e he audit hfresh hrows hs =>
      subst huser
      exact .denied p role account e audit hauth hp hrole he hfresh hrows (by rw [hs])
  · exact .idle rfl
  · have hauth' : authenticated cfg { s with throttles } call r m = .ok user := hauth
    obtain rfl | ⟨op, hruns, hmoves⟩ | ⟨⟨email, password, y, rfl, hv⟩, -⟩ :=
      act_runs hauth' hallow hact
    · exact .idle rfl
    · exact .ran user op hauth hallow hruns hmoves.step
    · obtain ⟨-, hdb, -⟩ | ⟨e, audit, hfresh, hrows, hdb, hvoter, hstamped, he⟩ := validate_cases hv
      · exact .idle hdb
      · exact .login email password y e audit hfresh hrows hvoter hstamped he hdb

/-- **Everything that can happen.** -/
theorem happens_of_step {i : Input} (h : step cfg s i = some s') : Happens cfg s i s' := by
  cases i with
  | request call r m =>
    obtain ⟨⟨s₁, res⟩, hd, rfl⟩ := Option.map_eq_some_iff.mp h
    exact happens_of_dispatch hd
  | saveAccount account =>
    obtain rfl := Option.some.inj h
    unfold saveAccount
    split_ifs
    · exact .idle rfl
    · exact .idle rfl
  | deleteAccount account =>
    obtain rfl := Option.some.inj h
    unfold deleteAccount
    split_ifs with href
    · exact .idle rfl
    · exact .forgotten (by simpa using href) rfl
  | setBlocked voter blocked now =>
    obtain rfl := Option.some.inj h
    exact .blocked rfl
  | purge olderThanHours execute now =>
    obtain rfl := Option.some.inj h
    exact .purged (purged_handle s.db now olderThanHours execute)

/-! ### What requests keep -/

/-- The entry of a role that is refused names no voter. -/
theorem actorVoter_of_denied {account : Account} {role : String} {now : Time} {ak : Keys}
    {e : AuditLog} {method : String} (h : DeniedEntry r method account role now ak e) :
    e.actorVoter = none :=
  Platform.actorVoter_of_staff (fun v => by simp [Client.request]) h.written

theorem effect_of_logged {db : Database} {e : AuditLog} {audit : Table AuditLog}
    (hrows : audit.rows = db.audit.rows ++ [e]) (he : e.actorVoter = none) :
    Effect db { db with audit } :=
  Platform.effect_of_entry rfl rfl (fun _ h => h) (Platform.votes_kept rfl) hrows (by simp [he]) rfl

/-- The null of a reviewer that is deleted leaves what is decided. -/
theorem effect_forgotten (db : Database) (account : Id) :
    Effect db { db with
      nominations := db.nominations.map (forgetReviewer account) (id_forgetReviewer account) } := by
  refine Platform.effect_of_content rfl rfl rfl rfl (fun v _ ⟨n, hn, happroved⟩ => ?_)
    fun _ _ h => Platform.opened_of_eq rfl h
  refine ⟨forgetReviewer account n, ?_, ?_⟩
  · show (db.nominations.map (forgetReviewer account)
      (id_forgetReviewer account)).get? v.nomination = _
    rw [Table.get?_map, hn, Option.map_some]
  · unfold forgetReviewer
    split_ifs
    · exact happroved
    · exact happroved

/-- **A request keeps to `Effect`**, as the changes that are made outside the API do. -/
theorem effect_of_step {i : Input} (h : step cfg s i = some s') : Effect s.db s'.db := by
  cases happens_of_step h with
  | idle hdb =>
    rw [hdb]
    exact Effect.refl s.db
  | denied _ _ _ _ _ _ _ _ he _ hrows hdb =>
    rw [hdb]
    exact effect_of_logged hrows (actorVoter_of_denied he)
  | login _ _ _ _ _ _ hrows hvoter _ _ hdb =>
    rw [hdb]
    exact effect_of_logged hrows hvoter
  | ran _ _ _ _ _ hstep => exact Platform.effect_of_step hstep
  | forgotten _ hdb =>
    rw [hdb]
    exact effect_forgotten s.db _
  | blocked hdb =>
    rw [hdb]
    exact Platform.effect_setBlocked s.db _ _ _
  | purged hdb => exact Platform.effect_purged hdb

/-- **Requests keep votes legitimate and unverified voters reclaimable:** in every state that is
reached from an empty database, by requests with any headers and any changes of accounts between
them, a stored vote is for an approved nomination, of a verified voter, in an event whose voting has
opened, and a purge deletes every unverified voter older than its cutoff. -/
theorem sound_of_run {l : List Input} (h0 : s.db = {}) (hr : run (step cfg) s l = some s') :
    (∀ v ∈ s'.db.votes.rows, LegitVote s'.db v) ∧
      ∀ now olderThanHours before, cutoff now olderThanHours = some before →
        ∃ db x, handle s'.db now olderThanHours true = (db, some (.executed x)) ∧ x.skipped = 0 ∧
          ∀ v ∈ s'.db.voters.rows, v.verifiedAt = none → (v.createdAt : ℤ) < before →
            db.voters.get? v.id = none := by
  have hlegit : ∀ v ∈ s'.db.votes.rows, LegitVote s'.db v := by
    have hstart : ∀ v ∈ s.db.votes.rows, LegitVote s.db v := by
      rw [h0]
      exact fun _ hv => absurd hv List.not_mem_nil
    exact run_inv (fun s => ∀ v ∈ s.db.votes.rows, LegitVote s.db v)
      (fun _ _ _ hl h => (effect_of_step h).legit hl) hstart hr
  have hattributed : Attributed s'.db := by
    have hstart : Attributed s.db := by
      rw [h0]
      exact ⟨by simp, rfl⟩
    exact run_inv (fun s => Attributed s.db) (fun _ _ _ ha h => (effect_of_step h).attributed ha)
      hstart hr
  exact ⟨hlegit, fun now olderThanHours before hcut =>
    handle_of_unreferenced hcut (Platform.unreferenced hlegit hattributed)⟩

/-- Two accounts and a voter have tokens, passwords are right, and no rate is set. -/
def demo : Config where
  toConfig := Platform.demo
  accessToken _ token :=
    if token = "chair" then .ok (.pk 9) else if token = "clerk" then .ok (.pk 8)
    else .error (.tokenError "Token is invalid")
  allowedRegions := ["KE"]
  otpLength := 6
  rates _ := none
  largestTimeout := Common.Throttles.longestTimeout
  sha256 s := s
  lower s := s
  checkPassword _ _ := true

/-- A state with a database, and nothing else. -/
def fresh (db : Database) : State where
  db := db
  cache := .empty
  throttles := .empty
  accounts := .empty

/-- Everything at one instant, with the keys of the entry. -/
def moment (t : Time) (entry : Keys) : Moment where
  authAt := t
  clock _ := 0
  now := t
  entry := entry

/-- A request that a token is sent with. -/
def withToken (token : String) : HttpRequest := { authorization := some ("Bearer " ++ token) }

def galaAttrs : Events.Serializers.EventAttrs where
  name := some "Gala"
  slug := some "gala"
  year := some 2030
  nominationsOpenAt := some (some 20)
  nominationsCloseAt := some (some 40)
  votingOpensAt := some (some 50)
  votingClosesAt := some (some 90)

def annAttrs : Nominations.Submission.SubmissionAttrs where
  award := 20
  name := "Ann"
  photo := .ok "ann.jpg"
  contactEmail := some "ann@awards.test"

/-- A season: a superuser sets up the gala and opens nominations, somebody nominates, the nomination
is approved, voting opens, and a number gets its code, is verified and votes. -/
def season : List Input :=
  [.saveAccount { id := 9, email := "chair@awards.test", isSuperuser := true },
    .request (.createEvent galaAttrs ⟨1, 1⟩) (withToken "chair") (moment 10 ⟨70, 1⟩),
    .request
      (.createCategory { event := some 1, name := some "Music", slug := some "music" } ⟨10, 1⟩)
      (withToken "chair") (moment 11 ⟨70, 1⟩),
    .request
      (.createAward { category := some 10, name := some "Song", slug := some "song" } ⟨20, 1⟩)
      (withToken "chair") (moment 12 ⟨70, 1⟩),
    .request (.setStatus "gala" (.ok .nominationsOpen)) (withToken "chair") (moment 13 ⟨70, 1⟩),
    .request (.submitNomination true annAttrs 30 ⟨40, 1⟩) {} (moment 25 ⟨71, 2⟩),
    .request (.approve 40) (withToken "chair") (moment 26 ⟨72, 3⟩),
    .request (.setStatus "gala" (.ok .votingOpen)) (withToken "chair") (moment 50 ⟨73, 4⟩),
    .request
      (.otpRequest (PhoneKeys.kenyanBody (.str "0712 345678")) (fun _ _ => true) .sent "123456"
      ⟨50, 1⟩ ⟨80, 1⟩) {} (moment 60 ⟨74, 5⟩),
    .request (.otpVerify (.mapping [("phone", .str "0712 345678"), ("code", .str "123456")])) {}
      (moment 61 ⟨75, 6⟩),
    .request (.castVote (.ok 40) 62 ⟨60, 1⟩) (withToken "ann") (moment 62 ⟨76, 7⟩)]

theorem sound_of_run_season : ∃ s, run (step demo) (fresh {}) season = some s ∧
    s.db.votes.rows.length = 1 ∧ (∀ v ∈ s.db.votes.rows, LegitVote s.db v) ∧
    ∃ db x, handle s.db 200 0 true = (db, some (.executed x)) ∧ x.skipped = 0 ∧
      ∀ v ∈ s.db.voters.rows, v.verifiedAt = none → (v.createdAt : ℤ) < 200 →
        db.voters.get? v.id = none := by
  have hlen : (run (step demo) (fresh {}) season).map (fun s => s.db.votes.rows.length) =
      some 1 := by
    decide +kernel
  obtain ⟨s, hs, hlen⟩ := Option.map_eq_some_iff.mp hlen
  obtain ⟨hlegit, hpurge⟩ := sound_of_run rfl hs
  exact ⟨s, hs, hlen, hlegit, hpurge 200 0 200 (by decide)⟩

end KwAwards.Api.Actions
