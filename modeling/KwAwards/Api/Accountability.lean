import KwAwards.Api.Guards
import KwAwards.Audit.Attribution

/-! # Who answers for an entry

A step writes at most one entry, and the requester answers for it (`Accountable`): an entry of a
decision names the account that made the request, which was stored and held the role then, one of a
refusal an account that lacked the role, one of a vote the voter whose token was sent. So does every
entry of a log that requests have written, at the step that wrote it (`accountable_of_run`). -/

namespace KwAwards.Api.Accountability

open KwAwards.Lib.Tables KwAwards.Lib.Run KwAwards.Common.Base KwAwards.Accounts.Authentication
open KwAwards.Accounts.Permissions KwAwards.Accounts.Login KwAwards.Audit.Log
open KwAwards.Audit.Attribution KwAwards.Nominations.Services KwAwards.Voting.Models
open KwAwards.Voting.Authentication KwAwards.Voting.Entries KwAwards.Store KwAwards.Api.Dispatch
open KwAwards.Api.Actions KwAwards.Api.Guards
open KwAwards.Platform (Op principalOf)

/-! ### What an entry answers for -/

/-- The account of a request, stored. -/
def BySigned (cfg : Config) (s : State) (i : Input) (e : AuditLog) (P : Account → Prop) : Prop :=
  ∃ account, requester cfg s i = .staff account ∧ s.accounts.get? account.id = some account ∧
    e.actorUser = some account.id ∧ P account

/-- The attempt of a login. -/
def OfAttempt (cfg : Config) (s : State) (i : Input) (P : Account → Prop)
    (account : Account) : Prop :=
  ∃ email password r m, i = .request (.login (.ok (email, password))) r m ∧
    s.accounts.get? account.id = some account ∧ account.isActive = true ∧
    cfg.checkPassword account password = true ∧ P account

/-- Who an entry names, by its action. -/
def NamesActor (cfg : Config) (s : State) (i : Input) (e : AuditLog) : Prop :=
  match e.action with
  | .eventStatusChanged | .voteVoided => BySigned cfg s i e fun account => account.Has eventAdmin
  | .nominationApproved | .nominationRejected =>
    BySigned cfg s i e fun account => account.Has moderator
  | .permissionDenied => BySigned cfg s i e fun account =>
    ∃ role, ¬ account.Has role ∧ e.meta? "required_role" = some (.str role)
  | .voteCast | .voteDuplicate =>
    e.actorUser = none ∧ ∃ voter, ByVoter cfg s i voter ∧ e.actorVoter = some voter.id
  | .nominationSubmitted => e.actorUser = accountId (requester cfg s i)
  | .otpRequested | .otpVerified | .otpFailed | .smsBudgetExhausted => e.actorUser = none
  | .staffLogin => ∃ account, OfAttempt cfg s i (fun a => a.isStaff = true) account ∧
    e.actorUser = some account.id
  | .staffLoginFailed => e.actorUser = none ∨
    ∃ account, OfAttempt cfg s i (fun a => a.isStaff = false) account ∧
      e.actorUser = some account.id

/-- **The requester answers for an entry**, which carries the address, the user agent and the
instant of the request. -/
structure Accountable (cfg : Config) (s : State) (i : Input) (e : AuditLog) : Prop where
  actor : NamesActor cfg s i e
  stamped : ∃ call r m principal, i = .request call r m ∧
    Stamped (some (r.client.request principal)) m.now e

variable {cfg : Config} {s s' : State} {call : Call} {r : HttpRequest} {m : Moment}
  {user : RequestUser}
  {e : AuditLog}

theorem stamped_request {principal : Principal}
    (h : Stamped (some (r.client.request principal)) m.now e) :
    ∃ call' r' m' principal, Input.request call r m = .request call' r' m' ∧
      Stamped (some (r'.client.request principal)) m'.now e := ⟨call, r, m, principal, rfl, h⟩

/-- The entry of a role that is refused. -/
theorem accountable_denied {account : Account} {role : String}
    (hauth : authenticated cfg s call r m = .ok (.staff account))
    (h : DeniedEntry r call.method account role m.now m.entry e) :
    Accountable cfg s (.request call r m) e := by
  obtain ⟨-, -, hact, -, hmeta, huser, -⟩ := log_eq_some h.written
  refine ⟨?_, stamped_request (stamped_of_log h.written)⟩
  have hrole : e.meta? "required_role" = some (.str role) := by
    rw [AuditLog.meta?, hmeta]
    simp [deniedMetadata, List.lookup_cons]
  simp only [NamesActor, hact]
  exact ⟨account, requester_eq hauth, (perform_eq_staff hauth).stored, huser, role, h.lacks, hrole⟩

/-- The entry of a login. -/
theorem accountable_login {email password : String}
    {res : Except Common.ExceptionHandler.Exc Account} {accounts : Table Account}
    (hstamped : Stamped (some (r.client.request .anonymous)) m.now e)
    (h : Attempt cfg.passwords s.accounts password e res accounts) :
    Accountable cfg s (.request (.login (.ok (email, password))) r m) e := by
  refine ⟨?_, stamped_request hstamped⟩
  cases h with
  | unknown haction hactor =>
    simp only [NamesActor, haction]
    exact Or.inl hactor
  | notStaff account now hstored hactive hpassword hstaff haction hactor =>
    simp only [NamesActor, haction]
    exact Or.inr
      ⟨account, ⟨email, password, r, m, rfl, hstored, hactive, hpassword, hstaff⟩, hactor⟩
  | staff account now hstored hactive hpassword hstaff haction hactor =>
    simp only [NamesActor, haction]
    exact ⟨account, ⟨email, password, r, m, rfl, hstored, hactive, hpassword, hstaff⟩, hactor⟩

/-- The entry of a decision names a holder of its role. -/
theorem bySigned_of_holds {role : String} {account : Account}
    (hauth : authenticated cfg s call r m = .ok (.staff account))
    (hholds : Holds cfg s (.request call r m) role) (hactor : e.actorUser = some account.id) :
    BySigned cfg s (.request call r m) e fun account => account.Has role := by
  obtain ⟨holder, hreq, hstored, hhas⟩ := hholds
  obtain rfl := RequestUser.staff.inj ((requester_eq hauth).symm.trans hreq)
  exact ⟨account, requester_eq hauth, hstored, hactor, hhas⟩

/-- **The entry of an action.** -/
theorem accountable_of_runs {op : Op} (hauth : authenticated cfg s call r m = .ok user)
    (hallow : firstDenial r call.method user call.permissions = none)
    (hruns : Runs r m call user op) (hw : Writes cfg.toConfig s.db e op) :
    Accountable cfg s (.request call r m) e := by
  have hholds : ∀ role, roleOf op = some role → Holds cfg s (.request call r m) role :=
    fun role => holds_of_runs hauth hallow hruns
  cases hruns with
  | createEvent | updateEvent | destroyEvent | createCategory | updateCategory | destroyCategory
  | createAward | updateAward | destroyAward => cases hw
  | setStatus account slug event new =>
    refine ⟨?_, stamped_request hw.stamped⟩
    simp only [NamesActor, hw.action]
    exact bySigned_of_holds hauth (hholds eventAdmin rfl) hw.actorUser
  | submitNomination user captcha a nominee nk =>
    refine ⟨?_, stamped_request hw.stamped⟩
    simp only [NamesActor, hw.action, requester_eq hauth]
    exact hw.actorUser
  | approve account pk =>
    refine ⟨?_, stamped_request hw.stamped⟩
    simp only [NamesActor, hw.action, reviewAction, if_true]
    exact bySigned_of_holds hauth (hholds moderator rfl) hw.actorUser
  | reject account pk reason =>
    refine ⟨?_, stamped_request hw.stamped⟩
    simp only [NamesActor, hw.action, reviewAction, Bool.false_eq_true, if_false]
    exact bySigned_of_holds hauth (hholds moderator rfl) hw.actorUser
  | otpRequest data captcha sms code vk ck phone =>
    obtain ⟨haction, hunnamed⟩ := hw
    refine ⟨?_, stamped_request hunnamed.stamped⟩
    have hactor := hunnamed.actorUser
    simp only [voterEventActions, List.mem_cons, List.not_mem_nil, or_false] at haction
    rcases haction with haction | haction | haction
    all_goals
      simp only [NamesActor, haction]
      exact hactor
  | otpVerify data phone code =>
    obtain ⟨haction, hunnamed⟩ := hw
    refine ⟨?_, stamped_request hunnamed.stamped⟩
    have hactor := hunnamed.actorUser
    simp only [List.mem_cons, List.not_mem_nil, or_false] at haction
    rcases haction with haction | haction
    all_goals
      simp only [NamesActor, haction]
      exact hactor
  | castVote voter header nomination checkAt vk hsent =>
    obtain ⟨v, hv, hentry⟩ := hw
    have hby := byVoter_of_cast hauth (.castVote voter header nomination checkAt vk hsent) rfl hv
    refine ⟨?_, stamped_request hentry.stamped⟩
    have haction := hentry.action
    simp only [List.mem_cons, List.not_mem_nil, or_false] at haction
    rcases haction with haction | haction
    all_goals
      simp only [NamesActor, haction]
      exact ⟨hentry.actorUser, v, hby, hentry.actorVoter⟩
  | voidVote account pk reason =>
    refine ⟨?_, stamped_request hw.stamped⟩
    simp only [NamesActor, hw.action]
    exact bySigned_of_holds hauth (hholds eventAdmin rfl) hw.actorUser

/-- **A step** writes an entry that its requester answers for, or none. -/
theorem accountable_of_step {i : Input} (h : step cfg s i = some s') :
    Appends (Accountable cfg s i) s.db s'.db := by
  cases happens_of_step h with
  | idle hdb | forgotten _ hdb | blocked hdb => exact .of_eq (by rw [hdb])
  | denied p role account e audit hauth _ _ he _ hrows hdb =>
    rw [hdb]
    exact Or.inr ⟨e, hrows, accountable_denied hauth he⟩
  | login email password res e audit _ hrows _ hstamped he hdb =>
    rw [hdb]
    exact Or.inr ⟨e, hrows, accountable_login hstamped he⟩
  | ran user op hauth hallow hruns hstep =>
    exact (Audit.Attribution.appends_of_step hstep).mono fun e he =>
      accountable_of_runs hauth hallow hruns he
  | purged hdb => exact .of_eq (by rw [hdb.frame])

/-! ### Every run -/

theorem prefix_of_appends {P : AuditLog → Prop} {db db' : Database} (h : Appends P db db') :
    db.audit.rows <+: db'.audit.rows := by
  obtain h | ⟨e, hrows, -⟩ := h
  · rw [h]
  · rw [hrows]
    exact List.prefix_append _ _

/-- **Every entry has its author:** requests only add to the log, and an entry that was not there at
the start was written alone at a step of the run, whose requester answers for it with the accounts
and roles as they were then. -/
theorem accountable_of_run {l : List Input} (hr : run (step cfg) s l = some s') :
    s.db.audit.rows <+: s'.db.audit.rows ∧ ∀ e ∈ s'.db.audit.rows, e ∉ s.db.audit.rows →
      Sometime (step cfg) (fun t i t' => t'.db.audit.rows = t.db.audit.rows ++ [e] ∧
        Accountable cfg t i e)
        s l := by
  constructor
  · refine run_inv (fun t => s.db.audit.rows <+: t.db.audit.rows) (fun t i t' hkept ht => ?_)
      List.prefix_rfl hr
    exact hkept.trans (prefix_of_appends (accountable_of_step ht))
  · intro e he hnew
    refine (entered_of_run (fun t => e ∈ t.db.audit.rows) hr hnew he).mono
      fun t i t' ht ⟨hnot, hmem⟩ => ?_
    obtain hsame | ⟨e', hrows, haccountable⟩ := accountable_of_step ht
    · rw [hsame] at hmem
      exact absurd hmem hnot
    · have hlast : e = e' := by
        rw [hrows] at hmem
        rcases List.mem_append.mp hmem with hold | hlast
        · exact absurd hold hnot
        · exact List.mem_singleton.mp hlast
      subst hlast
      exact ⟨hrows, haccountable⟩

theorem accountable_of_run_season : ∃ s, run (step demo) (fresh {}) season = some s ∧
    s.db.audit.rows.length = 7 ∧ ∀ e ∈ s.db.audit.rows,
      Sometime (step demo) (fun t i t' => t'.db.audit.rows = t.db.audit.rows ++ [e] ∧
        Accountable demo t i e)
        (fresh {}) season := by
  have hlen : (run (step demo) (fresh {}) season).map (fun s => s.db.audit.rows.length) =
      some 7 := by
    decide +kernel
  obtain ⟨s, hs, hlen⟩ := Option.map_eq_some_iff.mp hlen
  have hnew : ∀ e : AuditLog, e ∉ (fresh {}).db.audit.rows := fun e he => absurd he List.not_mem_nil
  exact ⟨s, hs, hlen, fun e he => (accountable_of_run hs).2 e he (hnew e)⟩

end KwAwards.Api.Accountability
