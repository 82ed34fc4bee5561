import KwAwards.Accounts.Permissions

/-! # Staff login

`StaffTokenObtainPairSerializer.validate` on an address and a password: the account is looked up
without regard to case (`getByNaturalKey`), and every attempt is audited (`validate_cases`), also
that of an account that is not of the staff, whose password was right. -/

namespace KwAwards.Accounts.Login

open KwAwards.Lib.Tables KwAwards.Common.Base KwAwards.Common.ExceptionHandler KwAwards.Audit.Log
open KwAwards.Accounts.Authentication KwAwards.Accounts.Permissions KwAwards.Voting.Entries
open KwAwards.Store

/-- What the login reads besides the database: the database's `UPPER` and `LOWER`, and
`check_password`. -/
structure Passwords where
  upper : String → String
  lower : String → String
  checkPassword : Account → String → Bool

/-- Why `get` finds no row to return. -/
inductive GetError
  | doesNotExist
  | multipleObjectsReturned
  deriving DecidableEq, Repr

section Login

variable (p : Passwords) (accounts : Table Account)

/-- `UserManager.get_by_natural_key`: `email__iexact`. -/
def getByNaturalKey (username : String) : Except GetError Account :=
  match accounts.rows.filter fun a => p.upper a.email = p.upper username with
  | [] => .error .doesNotExist
  | [account] => .ok account
  | _ => .error .multipleObjectsReturned

/-- `ModelBackend.authenticate`. -/
def authenticateCredentials (email password : String) : Except Exc (Option Account) :=
  match getByNaturalKey p accounts email with
  | .error .doesNotExist => .ok none
  | .error .multipleObjectsReturned => .error .other
  | .ok account =>
    if p.checkPassword account password && account.isActive then .ok (some account) else .ok none

/-- `error_messages["no_active_account"]`. -/
def noActiveAccount : APIException :=
  authenticationFailedClass.raise
    (some (.text "No active account found with the given credentials"))
    (some "no_active_account")

/-- `update_last_login`. -/
def updateLastLogin (account : Id) (now : Time) : Table Account :=
  accounts.modify account (fun a => { a with lastLogin := some now }) fun _ => rfl

/-- **`StaffTokenObtainPairSerializer.validate`**: the entry, the accounts and the account that gets
its tokens. -/
def validate (db : Database) (client : Client) (email password : String) (now : Time) (ak : Keys) :
    Option (Database × Table Account × Except Exc Account) :=
  let request := some (client.request .anonymous)
  match authenticateCredentials p accounts email password with
  | .error exc => some (db, accounts, .error exc)
  | .ok none =>
    (db.write
      (log ak now .staffLoginFailed request none none none [("email", .str (slice 254 email))])).map
      (·, accounts, .error (.api noActiveAccount))
  | .ok (some account) =>
    let accounts := updateLastLogin accounts account.id now
    if !account.isStaff then
      (db.write (log ak now .staffLoginFailed request (some account.id) none none
        [("reason", .str "not_staff")])).map (·, accounts, .error (.api noActiveAccount))
    else
      (db.write (log ak now .staffLogin request (some account.id) none none [])).map
        (·, accounts, .ok account)

/-- The constraint `accounts_user_email_ci_unique`. -/
def emailFree (account : Account) : Bool :=
  accounts.rows.all fun a => a.id = account.id || p.lower a.email ≠ p.lower account.email

end Login

variable {p : Passwords} {accounts accounts' : Table Account}

/-- The stored addresses are distinct in upper case, in which an address is looked up. -/
def DistinctEmails (p : Passwords) (accounts : Table Account) : Prop :=
  ∀ a ∈ accounts.rows, ∀ b ∈ accounts.rows, p.upper a.email = p.upper b.email → a = b

/-- An address that the constraint takes for a new one, by its lower case, is new in upper case. -/
def NewInUpper (p : Passwords) (accounts : Table Account) (account : Account) : Prop :=
  emailFree p accounts account = true →
    ∀ a ∈ accounts.rows, a.id ≠ account.id → p.upper a.email ≠ p.upper account.email

instance (p : Passwords) (accounts : Table Account) (account : Account) :
    Decidable (NewInUpper p accounts account) := inferInstanceAs (Decidable (_ → _))

theorem getByNaturalKey_eq_ok {username : String} {account : Account}
    (h : getByNaturalKey p accounts username = .ok account) :
    account ∈ accounts.rows ∧ p.upper account.email = p.upper username := by
  unfold getByNaturalKey at h
  split at h
  · cases h
  · next a ha =>
    obtain rfl := Except.ok.inj h
    have hmem : a ∈ accounts.rows.filter fun a => p.upper a.email = p.upper username := by simp [ha]
    simpa using List.mem_filter.mp hmem
  · cases h

/-- **An address names at most one account.** -/
theorem getByNaturalKey_ne_multiple (hd : DistinctEmails p accounts) (username : String) :
    getByNaturalKey p accounts username ≠ .error .multipleObjectsReturned := by
  intro h
  unfold getByNaturalKey at h
  split at h
  · cases h
  · cases h
  · next l hnil hone =>
    have hnodup := accounts.nodup.of_map.filter fun a => p.upper a.email = p.upper username
    have hall : ∀ a ∈ accounts.rows.filter (fun a => p.upper a.email = p.upper username),
        a ∈ accounts.rows ∧ p.upper a.email = p.upper username := fun a ha => by
      simpa using List.mem_filter.mp ha
    rcases hl : accounts.rows.filter fun a => p.upper a.email = p.upper username with
      _ | ⟨a, _ | ⟨b, rest⟩⟩
    · exact hnil hl
    · exact hone a hl
    · rw [hl] at hnodup hall
      obtain ⟨ha, hau⟩ := hall a (by simp)
      obtain ⟨hb, hbu⟩ := hall b (by simp)
      obtain rfl := hd a ha b hb (hau.trans hbu.symm)
      simp at hnodup

theorem authenticateCredentials_eq_some {email password : String} {account : Account}
    (h : authenticateCredentials p accounts email password = .ok (some account)) :
    accounts.get? account.id = some account ∧ account.isActive = true ∧
      p.checkPassword account password = true := by
  unfold authenticateCredentials at h
  split at h
  · cases h
  · cases h
  · next a ha =>
    split_ifs at h with hok
    · obtain rfl := Option.some.inj (Except.ok.inj h)
      rw [Bool.and_eq_true] at hok
      exact ⟨Table.get?_key (getByNaturalKey_eq_ok ha).1, hok.2, hok.1⟩
    · cases h

/-- The entry of an attempt, which the request does not sign. -/
theorem entry_of_write {db db' : Database} {client : Client} {now : Time} {ak : Keys}
    {action : AuditAction} {actor : Option Id} {metadata : Metadata} {y res : Except Exc Account}
    (h : (db.write (log ak now action (some (client.request .anonymous)) actor none none
      metadata)).map (·, accounts, y) = some (db', accounts', res)) :
    accounts' = accounts ∧ res = y ∧
      ∃ e audit, db.audit.get? e.id = none ∧ audit.rows = db.audit.rows ++ [e] ∧
        db' = { db with audit } ∧ e.actorVoter = none ∧
        Stamped (some (client.request .anonymous)) now e ∧ e.action = action ∧
        e.actorUser = actor := by
  obtain ⟨db₁, hw, h⟩ := Option.map_eq_some_iff.mp h
  obtain ⟨rfl, hrest⟩ := Prod.mk.inj h
  obtain ⟨rfl, rfl⟩ := Prod.mk.inj hrest
  obtain ⟨e, audit, he, hk, ha, rfl⟩ := Database.write_eq_some hw
  obtain ⟨-, -, haction, -, -, hactor, hvoter⟩ := log_eq_some he
  refine ⟨rfl, rfl, e, audit, hk, ha, rfl, ?_, stamped_of_log he, haction, ?_⟩
  · cases actor <;> exact hvoter
  · cases actor <;> exact hactor

/-- How an attempt ends: the account gets its tokens, or it does not. -/
inductive Attempt (p : Passwords) (accounts : Table Account) (password : String) (e : AuditLog) :
    Except Exc Account → Table Account → Prop
  | unknown (haction : e.action = .staffLoginFailed) (hactor : e.actorUser = none) :
    Attempt p accounts password e (.error (.api noActiveAccount)) accounts
  | notStaff (account : Account) (now : Time) (hstored : accounts.get? account.id = some account)
    (hactive : account.isActive = true) (hpassword : p.checkPassword account password = true)
    (hstaff : account.isStaff = false) (haction : e.action = .staffLoginFailed)
    (hactor : e.actorUser = some account.id) :
    Attempt p accounts password e (.error (.api noActiveAccount))
      (updateLastLogin accounts account.id now)
  | staff (account : Account) (now : Time) (hstored : accounts.get? account.id = some account)
    (hactive : account.isActive = true) (hpassword : p.checkPassword account password = true)
    (hstaff : account.isStaff = true) (haction : e.action = .staffLogin)
    (hactor : e.actorUser = some account.id) :
    Attempt p accounts password e (.ok account) (updateLastLogin accounts account.id now)

/-- **An attempt** writes its one entry, unless its address names several accounts. -/
theorem validate_cases {db db' : Database} {client : Client} {email password : String} {now : Time}
    {ak : Keys} {res : Except Exc Account}
    (h : validate p accounts db client email password now ak = some (db', accounts', res)) :
    (getByNaturalKey p accounts email = .error .multipleObjectsReturned ∧ db' = db ∧
      accounts' = accounts ∧ res = .error .other) ∨
      ∃ e audit, db.audit.get? e.id = none ∧ audit.rows = db.audit.rows ++ [e] ∧
        db' = { db with audit } ∧ e.actorVoter = none ∧
        Stamped (some (client.request .anonymous)) now e ∧
        Attempt p accounts password e res accounts' := by
  unfold validate at h
  simp only at h
  split at h
  · next exc hexc =>
    obtain ⟨rfl, hrest⟩ := Prod.mk.inj (Option.some.inj h)
    obtain ⟨rfl, rfl⟩ := Prod.mk.inj hrest
    unfold authenticateCredentials at hexc
    split at hexc
    · cases hexc
    · next hmulti =>
      obtain rfl := Except.error.inj hexc
      exact Or.inl ⟨hmulti, rfl, rfl, rfl⟩
    · split_ifs at hexc
  · obtain ⟨rfl, rfl, e, audit, hk, ha, hdb, hvoter, hstamped, haction, hactor⟩ := entry_of_write h
    exact Or.inr ⟨e, audit, hk, ha, hdb, hvoter, hstamped, .unknown haction hactor⟩
  · next account hauth =>
    obtain ⟨hstored, hactive, hpassword⟩ := authenticateCredentials_eq_some hauth
    split_ifs at h with hstaff
    · obtain ⟨rfl, rfl, e, audit, hk, ha, hdb, hvoter, hstamped, haction, hactor⟩ :=
        entry_of_write h
      exact Or.inr ⟨e, audit, hk, ha, hdb, hvoter, hstamped,
        .notStaff account now hstored hactive hpassword (by simpa using hstaff) haction hactor⟩
    · obtain ⟨rfl, rfl, e, audit, hk, ha, hdb, hvoter, hstamped, haction, hactor⟩ :=
        entry_of_write h
      exact Or.inr ⟨e, audit, hk, ha, hdb, hvoter, hstamped,
        .staff account now hstored hactive hpassword (by simpa using hstaff) haction hactor⟩

/-- Saving an account whose address is new keeps the addresses distinct. -/
theorem distinctEmails_put {account : Account} (h : DistinctEmails p accounts)
    (hother : ∀ a ∈ accounts.rows, a.id ≠ account.id → p.upper a.email ≠ p.upper account.email) :
    DistinctEmails p (accounts.put account) := by
  intro a ha b hb heq
  obtain hea | ⟨ha', hka⟩ := Table.mem_put.mp ha
  · obtain heb | ⟨hb', hkb⟩ := Table.mem_put.mp hb
    · rw [hea, heb]
    · exact absurd (hea ▸ heq.symm) (hother b hb' hkb)
  · obtain heb | ⟨hb', hkb⟩ := Table.mem_put.mp hb
    · exact absurd (heb ▸ heq) (hother a ha' hka)
    · exact h a ha' b hb' heq

theorem distinctEmails_updateLastLogin (h : DistinctEmails p accounts) (account : Id) (now : Time) :
    DistinctEmails p (updateLastLogin accounts account now) := by
  intro a ha b hb heq
  obtain ⟨a₀, ha₀, rfl⟩ := List.mem_map.mp ha
  obtain ⟨b₀, hb₀, rfl⟩ := List.mem_map.mp hb
  have hemail : ∀ c : Account,
      (if key c = account then { c with lastLogin := some now } else c).email = c.email := by
    intro c
    split_ifs
    · rfl
    · rfl
  rw [hemail, hemail] at heq
  rw [h a₀ ha₀ b₀ hb₀ heq]

theorem distinctEmails_filter (h : DistinctEmails p accounts) (keep : Account → Bool) :
    DistinctEmails p (accounts.filter keep) := fun a ha b hb heq =>
  h a (List.mem_of_mem_filter ha) b (List.mem_of_mem_filter hb) heq

end KwAwards.Accounts.Login
