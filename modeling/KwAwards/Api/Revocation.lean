import KwAwards.Api.Provenance

/-! # Taking away a right

A request is checked against the account or the voter as it is stored when the request is made, so
what is taken away ends at once, whatever tokens are still around. After an account has lost a role
no entry of that role names it (`revoked_run`), after it has been deactivated or deleted nothing
does (`deactivated_run`), and a voter who is blocked casts no vote (`blocked_run`), until the right
is given back. -/

namespace KwAwards.Api.Revocation

open KwAwards.Lib.Tables KwAwards.Lib.Run KwAwards.Common.Base KwAwards.Accounts.Permissions
open KwAwards.Accounts.Login KwAwards.Audit.Log KwAwards.Audit.Attribution
open KwAwards.Nominations.Models KwAwards.Nominations.Services KwAwards.Voting.Models
open KwAwards.Voting.Votes KwAwards.Voting.Services KwAwards.Voting.Otp
open KwAwards.Voting.Authentication KwAwards.Voting.Entries KwAwards.Voting.Purge KwAwards.Store
open KwAwards.Api.Dispatch KwAwards.Api.Actions KwAwards.Api.Guards KwAwards.Api.Accountability
open KwAwards.Api.Provenance KwAwards.Nominations.Submission KwAwards.Events.Services
open KwAwards.Platform (Op)

variable {cfg : Config} {s s' t t' : State} {i : Input}

/-! ### The accounts -/

/-- **The accounts after a step:** as they were, with a login, a save or a deletion. -/
inductive AccountsMove (s : State) : Input → Table Account → Prop
  | kept {i : Input} : AccountsMove s i s.accounts
  | loggedIn {i : Input} (account : Id) (now : Time) :
    AccountsMove s i (updateLastLogin s.accounts account now)
  | saved (account : Account) : AccountsMove s (.saveAccount account) (s.accounts.put account)
  | deleted (account : Id) (hfree : isReferenced s.db account = false) :
    AccountsMove s (.deleteAccount account) (s.accounts.filter fun a => a.id ≠ account)

theorem accountsMove_of_step (h : step cfg s i = some s') : AccountsMove s i s'.accounts := by
  cases i with
  | request call r m =>
    obtain ⟨⟨s₁, res⟩, hd, rfl⟩ := Option.map_eq_some_iff.mp h
    obtain ⟨_, -, rfl⟩ | ⟨user, hauth, hdenied | ⟨hallow, throttles, rfl | hact⟩⟩ :=
      dispatch_cases hd
    · exact .kept
    · cases hdenied with
      | silent _ _ _ hs =>
        subst hs
        exact .kept
      | audited _ _ _ _ _ _ _ _ _ _ _ hs =>
        subst hs
        exact .kept
    · exact .kept
    · have hauth' : authenticated cfg { s with throttles } call r m = .ok user := hauth
      obtain rfl | ⟨op, -, hmoves⟩ | ⟨⟨email, password, y, rfl, hv⟩, -⟩ :=
        act_runs hauth' hallow hact
      · exact .kept
      · show AccountsMove s (.request call r m) s₁.accounts
        rw [hmoves.accounts]
        exact .kept
      · show AccountsMove s _ s₁.accounts
        obtain ⟨-, -, haccounts, -⟩ | ⟨e, audit, -, -, -, -, -, hattempt⟩ := validate_cases hv
        · rw [haccounts]
          exact .kept
        · generalize s₁.accounts = accounts at hattempt
          cases hattempt with
          | unknown => exact .kept
          | notStaff account now => exact .loggedIn account.id now
          | staff account now => exact .loggedIn account.id now
  | saveAccount account =>
    obtain rfl := Option.some.inj h
    unfold saveAccount
    split_ifs
    · exact .saved account
    · exact .kept
  | deleteAccount account =>
    obtain rfl := Option.some.inj h
    unfold deleteAccount
    split_ifs with href
    · exact .kept
    · exact .deleted account (by simpa using href)
  | setBlocked voter blocked now =>
    obtain rfl := Option.some.inj h
    exact .kept
  | purge olderThanHours execute now =>
    obtain rfl := Option.some.inj h
    exact .kept

/-- An account that is not there, or does not have a property. -/
def Lacks (P : Account → Prop) (k : Id) (s : State) : Prop :=
  ∀ account, s.accounts.get? k = some account → ¬ P account

/-- The save of an account gives it a property. -/
def Gives (P : Account → Prop) (k : Id) : Input → Prop
  | .saveAccount account => account.id = k ∧ P account
  | _ => False

instance (P : Account → Prop) [DecidablePred P] (k : Id) : DecidablePred (Gives P k) := fun i => by
  unfold Gives
  split <;> infer_instance

/-- **A property stays away** that a login does not give, until a save gives it. -/
theorem lacks_of_step {P : Account → Prop} {k : Id}
    (hP : ∀ account now, P { account with lastLogin := some now } → P account)
    (hlacks : Lacks P k s) (hi : ¬ Gives P k i) (h : step cfg s i = some s') : Lacks P k s' := by
  intro account hget
  have hmove := accountsMove_of_step h
  generalize s'.accounts = accounts at hget hmove
  cases hmove with
  | kept => exact hlacks account hget
  | loggedIn a now =>
    rw [updateLastLogin, Table.get?_modify] at hget
    split_ifs at hget with hk
    · obtain ⟨account₀, hget₀, rfl⟩ := Option.map_eq_some_iff.mp hget
      exact fun hhas => hlacks account₀ (hk ▸ hget₀) (hP account₀ now hhas)
    · exact hlacks account hget
  | saved a =>
    rw [Table.get?_put] at hget
    split_ifs at hget with hk
    · obtain rfl := Option.some.inj hget
      exact fun hP => hi ⟨hk.symm, hP⟩
    · exact hlacks account hget
  | deleted a =>
    rw [Table.get?_filter] at hget
    exact hlacks account (Option.filter_eq_some_iff.mp hget).1

/-- The account of a request is stored, active and of the staff. -/
theorem stored_of_requester {account : Account} (h : requester cfg s i = .staff account) :
    s.accounts.get? account.id = some account ∧ account.isActive = true ∧
    account.isStaff = true := by
  cases i with
  | request call r m =>
    simp only [requester] at h
    split at h
    · next user hauth =>
      subst h
      exact ⟨(perform_eq_staff hauth).stored, (perform_eq_staff hauth).active,
        (perform_eq_staff hauth).staff⟩
    · cases h
  | saveAccount | deleteAccount | setBlocked | purge => cases h

/-- The voter of a request is stored, verified and not blocked. -/
theorem byVoter_of_requester {voter : Voter} (h : requester cfg s i = .voter voter) :
    ByVoter cfg s i voter := by
  cases i with
  | request call r m =>
    simp only [requester] at h
    split at h
    · next user hauth =>
      subst h
      obtain ⟨-, -, hstored, hblocked, hverified⟩ := perform_eq_voter hauth
      exact ⟨requester_eq hauth, hstored, hverified, hblocked⟩
    · cases h
  | saveAccount | deleteAccount | setBlocked | purge => cases h

/-- What a step adds to the log is one entry that its requester answers for. -/
theorem accountable_of_new {e : AuditLog} (h : step cfg t i = some t') (he : e ∈ t'.db.audit.rows)
    (hnew : e ∉ t.db.audit.rows) : Accountable cfg t i e := by
  obtain hsame | ⟨e', hrows, haccountable⟩ := accountable_of_step h
  · rw [hsame] at he
    exact absurd he hnew
  · rw [hrows] at he
    rcases List.mem_append.mp he with hold | hlast
    · exact absurd hold hnew
    · exact List.mem_singleton.mp hlast ▸ haccountable

/-! ### A role -/

/-- The role that the entries of an action come with. -/
def guardedBy : AuditAction → Option String
  | .eventStatusChanged | .voteVoided => some eventAdmin
  | .nominationApproved | .nominationRejected => some moderator
  | _ => none

/-- The entry of a role names an account that has it. -/
theorem has_of_names {e : AuditLog} {role : String} (h : NamesActor cfg s i e)
    (hrole : guardedBy e.action = some role) :
    BySigned cfg s i e fun account => account.Has role := by
  unfold NamesActor at h
  cases haction : e.action with
  | eventStatusChanged | voteVoided | nominationApproved | nominationRejected =>
    rw [haction] at h hrole
    obtain rfl := Option.some.inj hrole
    exact h
  | _ =>
    rw [haction] at hrole
    cases hrole

/-- **A role that is taken away is gone:** from a state in which an account does not have a role, in
every run in which no save gives it the role, no request of the account has the role, and no new
entry of a decision that takes the role names the account. -/
theorem revoked_run {k : Id} {role : String} {l : List Input} (h : Lacks (Account.Has · role) k s)
    (hr : run (step cfg) s l = some s')
    (hi : Along (step cfg) (fun _ i _ => ¬ Gives (Account.Has · role) k i) s l) :
    Along (step cfg) (fun t i _ => ∀ account, requester cfg t i = .staff account → account.id = k →
        ¬ account.Has role) s l ∧
      ∀ e ∈ s'.db.audit.rows, e ∉ s.db.audit.rows → e.actorUser = some k →
        guardedBy e.action ≠ some role := by
  have hkeep : ∀ t i t', Lacks (Account.Has · role) k t → ¬ Gives (Account.Has · role) k i →
      step cfg t i = some t' → Lacks (Account.Has · role) k t' := by
    intro t i t' hlacks hi ht
    refine lacks_of_step (fun account now hhas => ?_) hlacks hi ht
    exact ⟨hhas.active, hhas.staff, hhas.granted⟩
  constructor
  · refine along_mono (Lacks (Account.Has · role) k) hkeep (fun t i t' hlacks _ _ => ?_) h hi
    rintro account hreq rfl
    exact hlacks account (stored_of_requester hreq).1
  · refine (run_inv_along (fun t => Lacks (Account.Has · role) k t ∧ ∀ e ∈ t.db.audit.rows,
      e ∉ s.db.audit.rows → e.actorUser = some k → guardedBy e.action ≠ some role) ?_
      ⟨h, fun e he hnew => absurd he hnew⟩ hi hr).2
    rintro t i t' ⟨hlacks, hentries⟩ hi ht
    refine ⟨hkeep t i t' hlacks hi ht, fun e he hnew hactor hrole => ?_⟩
    by_cases hold : e ∈ t.db.audit.rows
    · exact hentries e hold hnew hactor hrole
    · obtain ⟨account, -, hstored, hby, hhas⟩ :=
        has_of_names (accountable_of_new ht he hold).actor hrole
      obtain rfl := Option.some.inj (hby.symm.trans hactor)
      exact hlacks account hstored hhas

/-- The clerk of the visitors, who holds no role. -/
def clerk : Account := { id := 8, email := "clerk@awards.test" }

/-- The gala with the clerk. -/
def office : State := { fresh galaDb with accounts := Table.empty.put clerk }

/-- The clerk's requests to void a vote are refused, also after a login. -/
def refused : List Input :=
  [.request (.castVote (.ok 40) 150 ⟨60, 1⟩) (withToken "ann") (moment 150 ⟨70, 1⟩),
    .request (.voidVote 60 (.ok "double")) (withToken "clerk") (moment 160 ⟨71, 2⟩),
    .request (.login (.ok ("clerk@awards.test", "pw"))) { requestedWith := some "XMLHttpRequest" }
      (moment 165 ⟨72, 3⟩),
    .request (.voidVote 60 (.ok "double")) (withToken "clerk") (moment 170 ⟨73, 4⟩)]

theorem revoked_run_refused : ∃ s, run (step demo) office refused = some s ∧
    s.db.audit.rows.map (fun e => (e.action, e.actorUser)) =
      [(.voteCast, none), (.permissionDenied, some 8), (.staffLogin, some 8),
        (.permissionDenied, some 8)] ∧
    ∀ e ∈ s.db.audit.rows, e.actorUser = some 8 → guardedBy e.action ≠ some eventAdmin := by
  have hrows : (run (step demo) office refused).map (fun s =>
      s.db.audit.rows.map fun e => (e.action, e.actorUser)) = some
        [(.voteCast, none), (.permissionDenied, some 8), (.staffLogin, some 8),
          (.permissionDenied, some 8)] := by
    decide +kernel
  obtain ⟨s, hs, hrows⟩ := Option.map_eq_some_iff.mp hrows
  have hlacks : Lacks (Account.Has · eventAdmin) 8 office := by
    intro account hget
    obtain rfl := Option.some.inj hget
    decide
  obtain ⟨-, hentries⟩ := revoked_run hlacks hs (by decide +kernel)
  exact ⟨s, hs, hrows, fun e he => hentries e he List.not_mem_nil⟩

/-! ### An account -/

/-- An entry that names an account comes of a request of the account, or of a login with its
password. -/
theorem active_of_names {e : AuditLog} {k : Id} (h : NamesActor cfg s i e)
    (hk : e.actorUser = some k) :
    ∃ account, s.accounts.get? k = some account ∧ account.isActive = true := by
  have hsigned : ∀ {P : Account → Prop}, BySigned cfg s i e P →
      ∃ account, s.accounts.get? k = some account ∧ account.isActive = true := by
    rintro P ⟨account, hreq, hstored, hactor, -⟩
    obtain rfl := Option.some.inj (hactor.symm.trans hk)
    exact ⟨account, hstored, (stored_of_requester hreq).2.1⟩
  have hattempt : ∀ {P : Account → Prop} {account : Account}, OfAttempt cfg s i P account →
      e.actorUser = some account.id → ∃ account, s.accounts.get? k = some account ∧
        account.isActive = true := by
    rintro P account ⟨-, -, -, -, -, hstored, hactive, -, -⟩ hactor
    obtain rfl := Option.some.inj (hactor.symm.trans hk)
    exact ⟨account, hstored, hactive⟩
  unfold NamesActor at h
  split at h
  · exact hsigned h
  · exact hsigned h
  · exact hsigned h
  · exact hsigned h
  · exact hsigned h
  · exact absurd (h.1.symm.trans hk) (by simp)
  · exact absurd (h.1.symm.trans hk) (by simp)
  · rw [hk] at h
    cases hreq : requester cfg s i with
    | anonymous | voter =>
      rw [hreq] at h
      cases h
    | staff account =>
      rw [hreq] at h
      obtain rfl := Option.some.inj h
      obtain ⟨hstored, hactive, -⟩ := stored_of_requester hreq
      exact ⟨account, hstored, hactive⟩
  · exact absurd (h.symm.trans hk) (by simp)
  · exact absurd (h.symm.trans hk) (by simp)
  · exact absurd (h.symm.trans hk) (by simp)
  · exact absurd (h.symm.trans hk) (by simp)
  · obtain ⟨account, hof, hactor⟩ := h
    exact hattempt hof hactor
  · obtain hnone | ⟨account, hof, hactor⟩ := h
    · exact absurd (hnone.symm.trans hk) (by simp)
    · exact hattempt hof hactor

/-- A vote that a step voids names an active account. -/
theorem voidedBy_cases {k : Id} (h : step cfg t i = some t') {w : Vote} (hw : w ∈ t'.db.votes.rows)
    (hk : w.voidedBy = some k) : (∃ v ∈ t.db.votes.rows, v.id = w.id ∧ v.voidedBy = some k) ∨
      ∃ account, t.accounts.get? k = some account ∧ account.isActive = true := by
  obtain hkept | ⟨call, r, m, user, op, rfl, hauth, hallow, hruns, hmove⟩ :=
    votes_of_happens (happens_of_step h)
  · rw [hkept] at hw
    exact Or.inl ⟨w, hw, rfl, hk⟩
  · cases hmove with
    | kept hkept =>
      rw [hkept] at hw
      exact Or.inl ⟨w, hw, rfl, hk⟩
    | cast voter c e _ _ _ hrows =>
      rw [hrows] at hw
      rcases List.mem_append.mp hw with hold | hlast
      · exact Or.inl ⟨w, hold, rfl, hk⟩
      · rw [List.mem_singleton.mp hlast] at hk
        cases hk
    | voided v e hmem hid _ hrows =>
      rw [hrows] at hw
      obtain ⟨w₀, hw₀, rfl⟩ := List.mem_map.mp hw
      by_cases hv : w₀.id = v.id
      · rw [if_pos hv] at hk
        obtain ⟨-, -, account, rfl, rfl⟩ := runs_voidVote hruns
        obtain rfl := Option.some.inj hk
        have hsigned := perform_eq_staff hauth
        exact Or.inr ⟨account, hsigned.stored, hsigned.active⟩
      · rw [if_neg hv] at hk
        exact Or.inl ⟨w₀, hw₀, by rw [if_neg hv], hk⟩

/-- A nomination that a step decides names an active account. -/
theorem reviewedBy_cases {k : Id} (h : step cfg t i = some t') {w : Nomination}
    (hw : w ∈ t'.db.nominations.rows) (hk : w.reviewedBy = some k) :
    (∃ n ∈ t.db.nominations.rows, n.id = w.id ∧ n.reviewedBy = some k) ∨
      ∃ account, t.accounts.get? k = some account ∧ account.isActive = true := by
  cases happens_of_step h with
  | idle hdb | denied _ _ _ _ _ _ _ _ _ _ _ hdb | login _ _ _ _ _ _ _ _ _ _ hdb | blocked hdb =>
    rw [hdb] at hw
    exact Or.inl ⟨w, hw, rfl, hk⟩
  | ran user op hauth hallow hruns hstep =>
    rcases nomination_of_step hstep hw with
      hold | ⟨-, hnone⟩ | ⟨a, now, ak, locked, e, rfl, -, -, rfl, -, -⟩
    · exact Or.inl ⟨w, hold, rfl, hk⟩
    · rw [hnone] at hk
      cases hk
    · obtain ⟨account, rfl, hreviewer⟩ := runs_reviewNomination hruns
      obtain rfl : account.id = k := hreviewer.symm.trans (Option.some.inj hk)
      have hsigned := perform_eq_staff hauth
      exact Or.inr ⟨account, hsigned.stored, hsigned.active⟩
  | forgotten _ hdb =>
    rw [hdb] at hw
    obtain ⟨w₀, hw₀, rfl⟩ := List.mem_map.mp hw
    unfold forgetReviewer at hk ⊢
    split_ifs at hk ⊢
    exact Or.inl ⟨w₀, hw₀, rfl, hk⟩
  | purged hdb =>
    rw [hdb.frame] at hw
    exact Or.inl ⟨w, hw, rfl, hk⟩

/-- **A deactivated account does nothing more:** from a state in which an account is not active or
not there, in every run in which no save makes it active, whatever tokens are sent, no request is
the account's, no new entry names it, and it voids no vote and reviews no nomination. -/
theorem deactivated_run {k : Id} {l : List Input} (h : Lacks (fun a => a.isActive = true) k s)
    (hr : run (step cfg) s l = some s')
    (hi : Along (step cfg) (fun _ i _ => ¬ Gives (fun a => a.isActive = true) k i) s l) :
    Along (step cfg) (fun t i _ => ∀ account, requester cfg t i = .staff account →
      account.id ≠ k) s l ∧
      (∀ e ∈ s'.db.audit.rows, e.actorUser = some k → e ∈ s.db.audit.rows) ∧
      (∀ v ∈ s'.db.votes.rows, v.voidedBy = some k →
        ∃ w ∈ s.db.votes.rows, w.id = v.id ∧ w.voidedBy = some k) ∧
      ∀ n ∈ s'.db.nominations.rows, n.reviewedBy = some k →
        ∃ w ∈ s.db.nominations.rows, w.id = n.id ∧ w.reviewedBy = some k := by
  have hkeep : ∀ t i t', Lacks (fun a => a.isActive = true) k t →
      ¬ Gives (fun a => a.isActive = true) k i → step cfg t i = some t' →
      Lacks (fun a => a.isActive = true) k t' :=
    fun t i t' hlacks hi ht => lacks_of_step (fun account now hactive => hactive) hlacks hi ht
  have hnot : ∀ t, Lacks (fun a => a.isActive = true) k t →
      ¬ ∃ account, t.accounts.get? k = some account ∧ account.isActive = true :=
    fun t hlacks ⟨account, hstored, hactive⟩ => hlacks account hstored hactive
  refine ⟨?_, ?_, ?_, ?_⟩
  · refine along_mono (Lacks (fun a => a.isActive = true) k) hkeep
      (fun t i t' hlacks _ _ => ?_) h hi
    rintro account hreq rfl
    obtain ⟨hstored, hactive, -⟩ := stored_of_requester hreq
    exact hlacks account hstored hactive
  · refine (run_inv_along (fun t => Lacks (fun a => a.isActive = true) k t ∧ ∀ e ∈ t.db.audit.rows,
      e.actorUser = some k → e ∈ s.db.audit.rows) ?_ ⟨h, fun e he _ => he⟩ hi hr).2
    rintro t i t' ⟨hlacks, hentries⟩ hi ht
    refine ⟨hkeep t i t' hlacks hi ht, fun e he hactor => ?_⟩
    by_cases hold : e ∈ t.db.audit.rows
    · exact hentries e hold hactor
    · exact absurd (active_of_names (accountable_of_new ht he hold).actor hactor) (hnot t hlacks)
  · refine (run_inv_along (fun t => Lacks (fun a => a.isActive = true) k t ∧ ∀ v ∈ t.db.votes.rows,
      v.voidedBy = some k → ∃ w ∈ s.db.votes.rows, w.id = v.id ∧ w.voidedBy = some k) ?_
      ⟨h, fun v hv hk => ⟨v, hv, rfl, hk⟩⟩ hi hr).2
    rintro t i t' ⟨hlacks, hvotes⟩ hi ht
    refine ⟨hkeep t i t' hlacks hi ht, fun v hv hk => ?_⟩
    obtain ⟨v₀, hv₀, hid, hk₀⟩ | hactive := voidedBy_cases ht hv hk
    · obtain ⟨w, hw, hwid, hwk⟩ := hvotes v₀ hv₀ hk₀
      exact ⟨w, hw, hwid.trans hid, hwk⟩
    · exact absurd hactive (hnot t hlacks)
  · refine (run_inv_along
      (fun t => Lacks (fun a => a.isActive = true) k t ∧ ∀ n ∈ t.db.nominations.rows,
      n.reviewedBy = some k → ∃ w ∈ s.db.nominations.rows, w.id = n.id ∧ w.reviewedBy = some k) ?_
      ⟨h, fun n hn hk => ⟨n, hn, rfl, hk⟩⟩ hi hr).2
    rintro t i t' ⟨hlacks, hnominations⟩ hi ht
    refine ⟨hkeep t i t' hlacks hi ht, fun n hn hk => ?_⟩
    obtain ⟨n₀, hn₀, hid, hk₀⟩ | hactive := reviewedBy_cases ht hn hk
    · obtain ⟨w, hw, hwid, hwk⟩ := hnominations n₀ hn₀ hk₀
      exact ⟨w, hw, hwid.trans hid, hwk⟩
    · exact absurd hactive (hnot t hlacks)

/-- The clerk is deactivated, and what is sent with its token or its password is refused. -/
theorem deactivated_run_refused : ∃ s,
    run (step demo) { office with accounts := Table.empty.put { clerk with isActive := false } }
      refused =
      some s ∧
    s.db.audit.rows.map (fun e => (e.action, e.actorUser)) =
      [(.voteCast, none), (.staffLoginFailed, none)] ∧
    ∀ e ∈ s.db.audit.rows, e.actorUser ≠ some 8 := by
  have hrows :
      (run (step demo) { office with accounts := Table.empty.put { clerk with isActive := false } }
      refused).map (fun s => s.db.audit.rows.map fun e => (e.action, e.actorUser)) =
        some [(.voteCast, none), (.staffLoginFailed, none)] := by
    decide +kernel
  obtain ⟨s, hs, hrows⟩ := Option.map_eq_some_iff.mp hrows
  have hlacks : Lacks (fun a => a.isActive = true) 8
      { office with accounts := Table.empty.put { clerk with isActive := false } } := by
    intro account hget
    obtain rfl := Option.some.inj hget
    decide
  obtain ⟨-, hentries, -, -⟩ := deactivated_run hlacks hs (by decide +kernel)
  exact ⟨s, hs, hrows, fun e he hactor => absurd (hentries e he hactor) List.not_mem_nil⟩

/-! ### A voter -/

/-- A verified voter that is blocked. -/
def Blocked (db : Database) (k : Id) : Prop :=
  ∃ v, db.voters.get? k = some v ∧ v.verifiedAt.isSome = true ∧ v.isBlocked = true

theorem blocked_of_voters {db db' : Database} (h : db'.voters = db.voters) {k : Id}
    (hk : Blocked db k) :
    Blocked db' k := by
  unfold Blocked at hk ⊢
  rw [h]
  exact hk

theorem blocked_modify {db db' : Database} {j : Id} {f : Voter → Voter}
    {hf : ∀ v, key (f v) = key v} {k : Id}
    (hv : ∀ v : Voter, j = k → v.verifiedAt.isSome = true → v.isBlocked = true →
      (f v).verifiedAt.isSome = true ∧ (f v).isBlocked = true)
    (hdb : db'.voters = db.voters.modify j f hf) (h : Blocked db k) : Blocked db' k := by
  obtain ⟨v, hget, hver, hblocked⟩ := h
  by_cases hk : k = j
  · subst hk
    obtain ⟨hver', hblocked'⟩ := hv v rfl hver hblocked
    refine ⟨f v, ?_, hver', hblocked'⟩
    rw [hdb, Table.get?_modify, if_pos rfl, hget, Option.map_some]
  · refine ⟨v, ?_, hver, hblocked⟩
    rw [hdb, Table.get?_modify, if_neg hk, hget]

theorem blocked_purged {db db' : Database} (h : Purged db db') {k : Id} (hk : Blocked db k) :
    Blocked db' k := by
  obtain ⟨v, hget, hver, hblocked⟩ := hk
  obtain heq | ⟨-, hunverified, -, -⟩ := h.voters k
  · exact ⟨v, heq.trans hget, hver, hblocked⟩
  · simp [hunverified v hget] at hver

/-- **No request unblocks a voter.** -/
theorem blocked_of_runs {pcfg : Platform.Config} {p p' : Platform.State} {op : Op}
    (h : Platform.step pcfg p op = some p')
    (hop : ∀ voter blocked now, op ≠ .setBlocked voter blocked now) {k : Id} (hk : Blocked p.db k) :
    Blocked p'.db k := by
  cases op with
  | requestOtp phoneE164 client code now vk ck ak =>
    obtain ⟨⟨db, cache, x⟩, hx, rfl⟩ := Option.map_eq_some_iff.mp h
    obtain ⟨db₁, _, _, _, _, hv, -, -, -, -, rfl⟩ := requestOtp_entry hx
    rcases getOrCreateVoter_cases hv with ⟨-, rfl⟩ | ⟨-, -, -, -, -, voters, hrows, rfl⟩
    · exact blocked_of_voters rfl hk
    · obtain ⟨v, hget, hver, hblocked⟩ := hk
      obtain ⟨hmem, hid⟩ := Table.get?_eq_some.mp hget
      refine ⟨v, Table.get?_eq_some.mpr ⟨?_, hid⟩, hver, hblocked⟩
      show v ∈ voters.rows
      rw [hrows]
      exact List.mem_append_left _ hmem
  | verifyOtp phoneE164 code client now ak =>
    obtain ⟨⟨db, o, x⟩, hx, rfl⟩ := Option.map_eq_some_iff.mp h
    obtain ⟨_, _, _, -, -, ⟨voter, -, -, -, -, rfl⟩ | ⟨-, -, rfl⟩⟩ := verifyOtp_entry hx
    · show Blocked
        { p.db with voters := markVerified p.db.voters voter now now, challenges := _, audit := _ }
          k
      by_cases hnone : voter.verifiedAt = none
      · have hvoters : markVerified p.db.voters voter now now = p.db.voters.modify voter.id
            (fun v => { v with verifiedAt := some now, updatedAt := now }) fun _ => rfl := by
          rw [markVerified, if_pos hnone]
        refine blocked_modify ?_ hvoters hk
        exact fun v _ _ hblocked => ⟨rfl, hblocked⟩
      · refine blocked_of_voters ?_ hk
        rw [markVerified, if_neg hnone]
    · exact blocked_of_voters rfl hk
  | setBlocked voter blocked now => exact absurd rfl (hop voter blocked now)
  | purge olderThanHours execute now =>
    obtain rfl := Option.some.inj h
    exact blocked_purged (purged_handle p.db now olderThanHours execute) hk
  | _ => exact blocked_of_voters (votersKept_of_step h rfl).voters hk

/-- A voter is unblocked. -/
def Unblocks (k : Id) : Input → Prop
  | .setBlocked voter blocked _ => voter = k ∧ blocked = false
  | _ => False

instance (k : Id) : DecidablePred (Unblocks k) := fun i => by
  unfold Unblocks
  split <;> infer_instance

/-- **A blocked voter stays blocked** until it is unblocked. -/
theorem blocked_of_step {k : Id} (h : step cfg s i = some s') (hk : Blocked s.db k)
    (hi : ¬ Unblocks k i) : Blocked s'.db k := by
  cases happens_of_step h with
  | idle hdb | denied _ _ _ _ _ _ _ _ _ _ _ hdb | login _ _ _ _ _ _ _ _ _ _ hdb | forgotten _ hdb =>
    exact blocked_of_voters (by rw [hdb]) hk
  | ran user op hauth hallow hruns hstep =>
    refine blocked_of_runs hstep (fun voter blocked now hop => ?_) hk
    subst hop
    cases hruns
  | @blocked voter blocked now _ hdb =>
    have hvoters : s'.db.voters = s.db.voters.modify voter
        (fun v => { v with isBlocked := blocked, updatedAt := now }) fun _ => rfl := by
      rw [hdb]
      rfl
    refine blocked_modify ?_ hvoters hk
    intro v hj hver _
    refine ⟨hver, ?_⟩
    cases blocked with
    | true => rfl
    | false => exact absurd ⟨hj, rfl⟩ hi
  | purged hdb => exact blocked_purged hdb hk

/-- **A blocked voter casts no vote:** from a state in which a verified voter is blocked, in every
run in which it is not unblocked, whatever tokens are sent, it stays blocked, no request is the
voter's, and it has no vote at the end that it did not have at the start. -/
theorem blocked_run {k : Id} {l : List Input} (h : Blocked s.db k)
    (hr : run (step cfg) s l = some s') (hi : Along (step cfg) (fun _ i _ => ¬ Unblocks k i) s l) :
    Blocked s'.db k ∧
    Along (step cfg) (fun t i _ => ∀ voter, requester cfg t i = .voter voter → voter.id ≠ k)
        s l ∧
      ∀ v ∈ s'.db.votes.rows, v.voter = k → ∃ w ∈ s.db.votes.rows, w.immutable = v.immutable := by
  have hkeep : ∀ t i t', Blocked t.db k → ¬ Unblocks k i → step cfg t i = some t' →
    Blocked t'.db k := fun t i t' hk hi ht => blocked_of_step ht hk hi
  have hnot : ∀ t i voter, Blocked t.db k → ByVoter cfg t i voter → voter.id ≠ k := by
    rintro t i voter ⟨v, hget, -, hblocked⟩ hby rfl
    obtain rfl := Option.some.inj (hget.symm.trans hby.stored)
    exact absurd (hblocked.symm.trans hby.notBlocked) (by simp)
  refine ⟨run_inv_along (fun t => Blocked t.db k) hkeep h hi hr, ?_, ?_⟩
  · refine along_mono (fun t => Blocked t.db k) hkeep (fun t i t' hk _ _ voter hreq => ?_) h hi
    exact hnot t i voter hk (byVoter_of_requester hreq)
  · refine (run_inv_along (fun t => Blocked t.db k ∧ ∀ v ∈ t.db.votes.rows, v.voter = k →
      ∃ w ∈ s.db.votes.rows, w.immutable = v.immutable) ?_ ⟨h, fun v hv _ => ⟨v, hv, rfl⟩⟩ hi hr).2
    rintro t i t' ⟨hk, hvotes⟩ hi ht
    refine ⟨hkeep t i t' hk hi ht, fun v hv hvoter => ?_⟩
    by_cases hold : ∃ w ∈ t.db.votes.rows, w.immutable = v.immutable
    · obtain ⟨w, hw, himm⟩ := hold
      have hwvoter : w.voter = k := (congrArg Immutable.voter himm).trans hvoter
      obtain ⟨w₀, hw₀, himm₀⟩ := hvotes w hw hwvoter
      exact ⟨w₀, hw₀, himm₀.trans himm⟩
    · obtain ⟨voter, hby, hid⟩ := (castBy_of_step ht hv fun w hw himm => hold ⟨w, hw, himm⟩).voter
      exact absurd (hid.trans hvoter) (hnot t i voter hk hby)

/-- A blocked voter sends a token, fails to verify its number again, and sends the token again. -/
def persistent : List Input :=
  [.request (.castVote (.ok 40) 150 ⟨60, 1⟩) (withToken "ann") (moment 150 ⟨70, 1⟩),
    .request (.otpVerify (.mapping [("phone", .str "0712 345678"), ("code", .str "123456")])) {}
      (moment 160 ⟨71, 2⟩),
    .request (.castVote (.ok 40) 170 ⟨61, 2⟩) (withToken "ann") (moment 170 ⟨72, 3⟩)]

/-- The gala with its voter blocked. -/
def annBlocked : State := fresh { galaDb with voters := setBlocked galaDb.voters 50 true 110 }

theorem blocked_run_persistent : ∃ s, run (step demo) annBlocked persistent = some s ∧
    s.db.audit.rows.map AuditLog.action = [.otpFailed] ∧ Blocked s.db 50 ∧
    ∀ v ∈ s.db.votes.rows, v.voter ≠ 50 := by
  have hrows : (run (step demo) annBlocked persistent).map (fun s =>
      s.db.audit.rows.map AuditLog.action) = some [.otpFailed] := by decide +kernel
  obtain ⟨s, hs, hrows⟩ := Option.map_eq_some_iff.mp hrows
  obtain ⟨hblocked, -, hvotes⟩ := blocked_run (k := 50) ⟨_, rfl, rfl, rfl⟩ hs (by decide +kernel)
  refine ⟨s, hs, hrows, hblocked, fun v hv hk => ?_⟩
  obtain ⟨w, hw, -⟩ := hvotes v hv hk
  exact absurd hw List.not_mem_nil

end KwAwards.Api.Revocation
