import KwAwards.Api.Revocation

/-! # Staff login, exactly

An address is looked up in upper case, and the constraint on the accounts keeps their addresses
apart in lower case, which need not tell all of them apart in upper case. As long as the addresses
that are saved are new there too (`NewAddresses`), they stay distinct (`distinctEmails_of_step`),
and a login that gets to its view is answered: the account with the address is signed in when the
password is right and the account is active and of the staff, every other login is refused in the
same words, and each leaves its one entry (`login_exact`). -/

namespace KwAwards.Api.StaffLogin

open KwAwards.Lib.Tables KwAwards.Lib.Run KwAwards.Common.Base KwAwards.Common.ExceptionHandler
open KwAwards.Accounts.Permissions KwAwards.Accounts.Login KwAwards.Audit.Log KwAwards.Store
open KwAwards.Api.Dispatch KwAwards.Api.Actions KwAwards.Api.Revocation
open KwAwards.Api.Provenance (WritesEntry)
open KwAwards.Voting.Entries (Client)

/-! ### The account of an address -/

section Accounts

variable {p : Passwords} {accounts : Table Account}

/-- The account with an address and a password. -/
structure Credentials (p : Passwords) (accounts : Table Account) (email password : String)
    (a : Account) :
    Prop where
  stored : a ∈ accounts.rows
  email : p.upper a.email = p.upper email
  password : p.checkPassword a password = true
  active : a.isActive = true

/-- An address finds the only account that has it. -/
theorem getByNaturalKey_of_mem (hd : DistinctEmails p accounts) {a : Account}
    (ha : a ∈ accounts.rows) {email : String} (hemail : p.upper a.email = p.upper email) :
    getByNaturalKey p accounts email = .ok a := by
  rcases hget : getByNaturalKey p accounts email with e | b
  · cases e with
    | multipleObjectsReturned => exact absurd hget (getByNaturalKey_ne_multiple hd email)
    | doesNotExist =>
      unfold getByNaturalKey at hget
      split at hget
      · next hnil =>
        have hmem : a ∈ accounts.rows.filter fun a => p.upper a.email = p.upper email :=
          List.mem_filter.mpr ⟨ha, decide_eq_true hemail⟩
        rw [hnil] at hmem
        exact absurd hmem List.not_mem_nil
      · cases hget
      · cases hget
  · obtain ⟨hb, hbemail⟩ := getByNaturalKey_eq_ok hget
    rw [hd a ha b hb (hemail.trans hbemail.symm)]

/-- **The backend** finds the account with the credentials, and never fails. -/
theorem authenticateCredentials_cases (hd : DistinctEmails p accounts)
    (email password : String) :
    (∃ a, Credentials p accounts email password a ∧
        authenticateCredentials p accounts email password = .ok (some a)) ∨
      ((∀ a, ¬ Credentials p accounts email password a) ∧
        authenticateCredentials p accounts email password = .ok none) := by
  by_cases h : ∃ a, Credentials p accounts email password a
  · obtain ⟨a, ha⟩ := h
    refine Or.inl ⟨a, ha, ?_⟩
    unfold authenticateCredentials
    rw [getByNaturalKey_of_mem hd ha.stored ha.email]
    simp [ha.password, ha.active]
  · refine Or.inr ⟨fun a ha => h ⟨a, ha⟩, ?_⟩
    unfold authenticateCredentials
    rcases hget : getByNaturalKey p accounts email with e | a
    · cases e with
      | multipleObjectsReturned => exact absurd hget (getByNaturalKey_ne_multiple hd email)
      | doesNotExist => rfl
    · obtain ⟨ha, hemail⟩ := getByNaturalKey_eq_ok hget
      simp only
      rw [if_neg]
      intro hok
      rw [Bool.and_eq_true] at hok
      exact h ⟨a, ha, hemail, hok.1, hok.2⟩

/-- The credentials are those of one account. -/
theorem credentials_unique (hd : DistinctEmails p accounts) {email password : String}
    {a b : Account} (ha : Credentials p accounts email password a)
    (hb : Credentials p accounts email password b) : a = b :=
  hd a ha.stored b hb.stored (ha.email.trans hb.email.symm)

/-- **The serializer** on credentials, of the staff or not, and on what are none. -/
theorem validate_exact (hd : DistinctEmails p accounts) {accounts' : Table Account}
    {db db' : Database} {client : Client} {email password : String} {now : Time} {ak : Keys}
    {res : Except Exc Account}
    (h : validate p accounts db client email password now ak = some (db', accounts', res)) :
    ∃ e, db'.audit.rows = db.audit.rows ++ [e] ∧
      ((∃ a, Credentials p accounts email password a ∧ e.actorUser = some a.id ∧
          accounts' = updateLastLogin accounts a.id now ∧
          ((a.isStaff = true ∧ e.action = .staffLogin ∧ res = .ok a) ∨
            (a.isStaff = false ∧ e.action = .staffLoginFailed ∧
              res = .error (.api noActiveAccount)))) ∨
        ((∀ a, ¬ Credentials p accounts email password a) ∧ e.actorUser = none ∧
          accounts' = accounts ∧
          e.action = .staffLoginFailed ∧ res = .error (.api noActiveAccount))) := by
  unfold validate at h
  obtain ⟨a, ha, hcredentials⟩ | ⟨hnone, hcredentials⟩ :=
    authenticateCredentials_cases hd email password
  · simp only [hcredentials] at h
    cases hstaff : a.isStaff with
    | true =>
      simp only [hstaff, Bool.not_true, Bool.false_eq_true, if_false] at h
      obtain ⟨rfl, rfl, e, audit, -, hrows, rfl, -, -, haction, hactor⟩ := entry_of_write h
      exact ⟨e, hrows, Or.inl ⟨a, ha, hactor, rfl, Or.inl ⟨hstaff, haction, rfl⟩⟩⟩
    | false =>
      simp only [hstaff, Bool.not_false, if_true] at h
      obtain ⟨rfl, rfl, e, audit, -, hrows, rfl, -, -, haction, hactor⟩ := entry_of_write h
      exact ⟨e, hrows, Or.inl ⟨a, ha, hactor, rfl, Or.inr ⟨hstaff, haction, rfl⟩⟩⟩
  · simp only [hcredentials] at h
    obtain ⟨rfl, rfl, e, audit, -, hrows, rfl, -, -, haction, hactor⟩ := entry_of_write h
    exact ⟨e, hrows, Or.inr ⟨hnone, hactor, rfl, haction, rfl⟩⟩

end Accounts

/-! ### Every login -/

variable {cfg : Config} {s s' t t' : State} {i : Input}

/-- A step saves no address that is taken in upper case, but not in lower case. -/
def NewAddresses (cfg : Config) (s : State) : Input → Prop
  | .saveAccount account => NewInUpper cfg.passwords s.accounts account
  | _ => True

instance (cfg : Config) (s : State) : (i : Input) → Decidable (NewAddresses cfg s i)
  | .saveAccount account =>
    inferInstanceAs (Decidable (NewInUpper cfg.passwords s.accounts account))
  | .request .. | .deleteAccount _ | .setBlocked .. | .purge .. => inferInstanceAs (Decidable True)

/-- Addresses stay distinct. -/
theorem distinctEmails_of_step (hd : DistinctEmails cfg.passwords s.accounts)
    (hnew : NewAddresses cfg s i) (h : step cfg s i = some s') :
    DistinctEmails cfg.passwords s'.accounts := by
  by_cases hsave : ∃ account, i = .saveAccount account
  · obtain ⟨account, rfl⟩ := hsave
    obtain rfl := Option.some.inj h
    unfold saveAccount
    split_ifs with hfree
    · exact distinctEmails_put hd (hnew hfree)
    · exact hd
  · have hmove := accountsMove_of_step h
    generalize s'.accounts = accounts at hmove
    cases hmove with
    | kept => exact hd
    | loggedIn account now => exact distinctEmails_updateLastLogin hd account now
    | saved account => exact absurd ⟨account, rfl⟩ hsave
    | deleted account => exact distinctEmails_filter hd _

/-- **How a login ends:** the account of the credentials, when it is of the staff, is signed in,
every other login is refused, and the entry names the account whose password was right. -/
structure Answered (cfg : Config) (t : State) (email password : String) (now : Time) (t' : State)
    (res : Except Stop Unit) : Prop where
  signedIn : res = .ok () ↔ ∃ a, Credentials cfg.passwords t.accounts email password a ∧
    a.isStaff = true
  refused : res ≠ .ok () → res = .error (.framework (.api noActiveAccount))
  entry : WritesEntry t t' fun e =>
    (res = .ok () → e.action = .staffLogin) ∧ (res ≠ .ok () → e.action = .staffLoginFailed) ∧
      ∀ k, e.actorUser = some k ↔ ∃ a, Credentials cfg.passwords t.accounts email password a ∧
        a.id = k
  lastLogin : ∀ a, Credentials cfg.passwords t.accounts email password a →
    t'.accounts = updateLastLogin t.accounts a.id now
  others : (∀ a, ¬ Credentials cfg.passwords t.accounts email password a) → t'.accounts = t.accounts

/-- **The view.** -/
theorem answered_of_loginPost (hd : DistinctEmails cfg.passwords s.accounts)
    {r : HttpRequest} {m : Moment} {email password : String} {res : Except Stop Unit}
    (h : loginPost cfg s r m (.ok (email, password)) = some (s', res)) :
    Answered cfg s email password m.now s' res := by
  obtain ⟨⟨db, accounts, y⟩, hv, hs⟩ := Option.map_eq_some_iff.mp h
  obtain ⟨rfl, rfl⟩ := Prod.mk.inj hs
  have hne : (.error (.framework (.api noActiveAccount)) : Except Stop Unit) ≠ .ok () :=
    fun hok => by cases hok
  obtain ⟨e, hrows, ⟨a, ha, hactor, rfl, hcases⟩ | ⟨hnone, hactor, rfl, haction, rfl⟩⟩ :=
    validate_exact hd hv
  · have hnames : ∀ k, e.actorUser = some k ↔
        ∃ b, Credentials cfg.passwords s.accounts email password b ∧ b.id = k := by
      intro k
      rw [hactor]
      constructor
      · intro hk
        exact ⟨a, ha, Option.some.inj hk⟩
      · rintro ⟨b, hb, rfl⟩
        rw [credentials_unique hd ha hb]
    have hlast : ∀ b, Credentials cfg.passwords s.accounts email password b →
        updateLastLogin s.accounts a.id m.now = updateLastLogin s.accounts b.id m.now := by
      intro b hb
      rw [credentials_unique hd hb ha]
    obtain ⟨hstaff, haction, rfl⟩ | ⟨hstaff, haction, rfl⟩ := hcases
    · exact {
        signedIn := ⟨fun _ => ⟨a, ha, hstaff⟩, fun _ => rfl⟩
        refused := fun hne => absurd rfl hne
        entry := ⟨e, hrows, fun _ => haction, fun hne => absurd rfl hne, hnames⟩
        lastLogin := hlast
        others := fun hnone => absurd ha (hnone a) }
    · exact {
        signedIn := by
          refine ⟨fun hok => absurd hok hne, ?_⟩
          rintro ⟨b, hb, hbstaff⟩
          rw [credentials_unique hd hb ha, hstaff] at hbstaff
          cases hbstaff
        refused := fun _ => rfl
        entry := ⟨e, hrows, fun hok => absurd hok hne, fun _ => haction, hnames⟩
        lastLogin := hlast
        others := fun hnone => absurd ha (hnone a) }
  · have hnames : ∀ k, e.actorUser = some k ↔
        ∃ b, Credentials cfg.passwords s.accounts email password b ∧ b.id = k := by
      intro k
      rw [hactor]
      constructor
      · intro hk
        cases hk
      · rintro ⟨a, ha, -⟩
        exact absurd ha (hnone a)
    exact {
      signedIn := ⟨fun hok => absurd hok hne, fun ⟨a, ha, _⟩ => absurd ha (hnone a)⟩
      refused := fun _ => rfl
      entry := ⟨e, hrows, fun hok => absurd hok hne, fun _ => haction, hnames⟩
      lastLogin := fun a ha => absurd ha (hnone a)
      others := fun _ => rfl }

/-- A login that gets to its view, and how the view ends. -/
def LoginEnds (cfg : Config) (t : State) (i : Input) (email password : String) (now : Time)
    (t' : State) (res : Except Stop Unit) : Prop :=
  ∃ r m t₁ user, i = .request (.login (.ok (email, password))) r m ∧ m.now = now ∧
    initial cfg t (.login (.ok (email, password))) r m = some (t₁, .ok user) ∧
    act cfg t₁ user r m (.login (.ok (email, password))) = some (t', res)

/-- **Staff login, exactly:** from a state in which the addresses are distinct in upper case, in
every run that saves none that is taken there, each login whose body gives an address and a password
and that gets to its view ends as the accounts stored then say, with one entry. -/
theorem login_exact {l : List Input} (hd : DistinctEmails cfg.passwords s.accounts)
    (hnew : Along (step cfg) (fun t i _ => NewAddresses cfg t i) s l) :
    Along (step cfg) (fun t i t' => ∀ email password now res,
      LoginEnds cfg t i email password now t' res →
      Answered cfg t email password now t' res) s l := by
  refine along_mono (P := fun t i _ => NewAddresses cfg t i)
    (fun t => DistinctEmails cfg.passwords t.accounts)
    (fun t i t' hd hi ht => distinctEmails_of_step hd hi ht) (fun t i t' hd _ _ => ?_) hd hnew
  rintro email password now res ⟨r, m, t₁, user, rfl, rfl, hinitial, hact⟩
  obtain ⟨_, -, -, hres⟩ | ⟨_, -, ⟨-, _, hres⟩ | ⟨-, ⟨throttles, rfl⟩, -⟩⟩ := initial_cases hinitial
  · cases hres
  · cases hres
  · replace hact : loginPost cfg { t with throttles } r m (.ok (email, password)) =
      some (t', res) := hact
    replace hd : DistinctEmails cfg.passwords ({ t with throttles } : State).accounts := hd
    obtain ⟨hsigned, hrefused, hentry, hlast, hothers⟩ := answered_of_loginPost hd hact
    exact ⟨hsigned, hrefused, hentry, hlast, hothers⟩

/-- The clerk signs in, is deactivated, and tries again. -/
def attempts : List Input :=
  [.request (.login (.ok ("clerk@awards.test", "pw"))) { requestedWith := some "XMLHttpRequest" }
      (moment 160 ⟨70, 1⟩),
    .saveAccount { clerk with isActive := false },
    .request (.login (.ok ("clerk@awards.test", "pw"))) { requestedWith := some "XMLHttpRequest" }
      (moment 170 ⟨71, 2⟩)]

theorem login_exact_attempts :
    (run (step demo) office attempts).map (fun s =>
      s.db.audit.rows.map fun e => (e.action, e.actorUser)) =
        some [(.staffLogin, some 8), (.staffLoginFailed, none)] ∧
    Along (step demo) (fun t i t' => ∀ email password now res,
      LoginEnds demo t i email password now t' res → Answered demo t email password now t' res)
      office attempts := by
  have hrows : office.accounts.rows = [clerk] := rfl
  have hdistinct : DistinctEmails demo.passwords office.accounts := by
    intro a ha b hb _
    rw [hrows] at ha hb
    rw [List.mem_singleton.mp ha, List.mem_singleton.mp hb]
  exact ⟨by decide +kernel, login_exact hdistinct (by decide +kernel)⟩

end KwAwards.Api.StaffLogin
