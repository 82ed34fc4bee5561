import KwAwards.Api.Revocation
import KwAwards.References

/-! # References across requests

The accounts are referred to as well: by the votes that they voided, the nominations that they
reviewed and the entries that name them (`Stored`). A deletion of an account is refused for the
first and the last, and clears the second. From a state in which every reference is to a stored row,
every run ends in one (`stored_of_run`). -/

namespace KwAwards.Api.Integrity

open KwAwards.Lib.Tables KwAwards.Lib.ForeignKeys KwAwards.Lib.Run KwAwards.Common.Base
open KwAwards.Accounts.Authentication KwAwards.Audit.Log KwAwards.Nominations.Models
open KwAwards.Voting.Models KwAwards.Voting.Votes KwAwards.Voting.Purge KwAwards.Store
open KwAwards.References KwAwards.Api.Dispatch KwAwards.Api.Actions KwAwards.Api.Provenance
open KwAwards.Api.Revocation
open KwAwards.Accounts.Login (updateLastLogin)

/-- **Every reference is to a stored row**, those to accounts too. -/
structure Stored (s : State) : Prop where
  database : References.Integrity s.db
  voidedBy : Refers s.db.votes.rows Vote.voidedBy s.accounts
  reviewedBy : Refers s.db.nominations.rows Nomination.reviewedBy s.accounts
  actorUser : Refers s.db.audit.rows AuditLog.actorUser s.accounts

variable {cfg : Config} {s s' : State} {i : Input}

/-- The entry of a refusal or of a login names no voter. -/
theorem integrity_of_logged {db : Database} {audit : Table AuditLog} {e : AuditLog}
    (h : References.Integrity db) (hrows : audit.rows = db.audit.rows ++ [e])
    (he : e.actorVoter = none) :
    References.Integrity { db with audit } :=
  { h with auditActorVoter := refers_appends h.auditActorVoter hrows he }

/-- A deletion of an account clears what its nominations say of their reviewer. -/
theorem integrity_forgotten {db : Database} (h : References.Integrity db) (account : Id) :
    References.Integrity { db with
      nominations := db.nominations.map (forgetReviewer account) (id_forgetReviewer account) } := by
  have hkeep :
      Keeps db.nominations
        (db.nominations.map (forgetReviewer account) (id_forgetReviewer account)) :=
    keeps_map _ _ _
  have hrow : ∀ n, (forgetReviewer account n).nominee = n.nominee ∧
      (forgetReviewer account n).award = n.award := by
    intro n
    unfold forgetReviewer
    split_ifs
    · exact ⟨rfl, rfl⟩
    · exact ⟨rfl, rfl⟩
  exact { h with
    nominationNominee := h.nominationNominee.mono fun n' hn' => by
      obtain ⟨n, hn, rfl⟩ := List.mem_map.mp hn'
      exact ⟨n, hn, congrArg some (hrow n).1⟩
    nominationAward := h.nominationAward.mono fun n' hn' => by
      obtain ⟨n, hn, rfl⟩ := List.mem_map.mp hn'
      exact ⟨n, hn, congrArg some (hrow n).2⟩
    voteNomination := h.voteNomination.keeps hkeep
    paymentNomination := h.paymentNomination.keeps hkeep }

/-- Nothing that happens breaks a reference between the tables. -/
theorem integrity_of_happens (hs : References.Integrity s.db) (h : step cfg s i = some s') :
    References.Integrity s'.db := by
  cases happens_of_step h with
  | idle hdb => exact hdb ▸ hs
  | denied p role account e audit _ _ _ he _ hrows hdb =>
    exact hdb ▸ integrity_of_logged hs hrows (actorVoter_of_denied he)
  | login email password res e audit _ hrows hvoter _ _ hdb =>
    exact hdb ▸ integrity_of_logged hs hrows hvoter
  | ran user op _ _ _ hstep => exact integrity_of_step hs hstep
  | forgotten _ hdb => exact hdb ▸ integrity_forgotten hs _
  | blocked hdb => exact hdb ▸ hs.setBlocked _ _ _
  | purged _ =>
    obtain rfl := Option.some.inj h
    exact hs.purge _ _ _

/-! ### The accounts -/

/-- An account stays, unless it is deleted and neither a vote nor an entry refers to it. -/
theorem account_cases {k : Id} (h : step cfg s i = some s')
    (hk : (s.accounts.get? k).isSome = true) :
    (s'.accounts.get? k).isSome = true ∨ i = .deleteAccount k ∧ isReferenced s.db k = false := by
  have hmove := accountsMove_of_step h
  generalize s'.accounts = accounts at hmove ⊢
  cases hmove with
  | kept => exact Or.inl hk
  | loggedIn account now => exact Or.inl (keeps_modify s.accounts account _ _ k hk)
  | saved account => exact Or.inl (keeps_put s.accounts account k hk)
  | deleted account hfree =>
    by_cases heq : k = account
    · subst heq
      exact Or.inr ⟨rfl, hfree⟩
    · obtain ⟨a, ha⟩ := Option.isSome_iff_exists.mp hk
      have hid : a.id = k := Table.key_of_get? ha
      refine Or.inl ?_
      rw [Table.get?_filter, ha, Option.filter_some, if_pos (decide_eq_true (hid ▸ heq))]
      rfl

/-- The votes, the entries and the reviewers after a deletion that is not refused. -/
theorem deleteAccount_of_free {k : Id} (h : step cfg s (.deleteAccount k) = some s')
    (hfree : isReferenced s.db k = false) : s'.db.votes = s.db.votes ∧ s'.db.audit = s.db.audit ∧
      ∀ n ∈ s'.db.nominations.rows, n.reviewedBy ≠ some k := by
  obtain rfl := Option.some.inj h
  unfold deleteAccount
  rw [if_neg (by simp [hfree])]
  refine ⟨rfl, rfl, fun n' hn' => ?_⟩
  obtain ⟨n, -, rfl⟩ := List.mem_map.mp hn'
  unfold forgetReviewer
  split_ifs with hreviewer
  · simp
  · exact hreviewer

theorem isReferenced_eq_false {db : Database} {k : Id} : isReferenced db k = false ↔
    (∀ v ∈ db.votes.rows, v.voidedBy ≠ some k) ∧ ∀ e ∈ db.audit.rows, e.actorUser ≠ some k := by
  simp only [isReferenced, Bool.or_eq_false_iff, List.any_eq_false, decide_eq_true_eq, ne_eq]

/-- **No step breaks a reference.** -/
theorem stored_of_step (hs : Stored s) (h : step cfg s i = some s') : Stored s' := by
  refine ⟨integrity_of_happens hs.database h, fun w hw k hk => ?_, fun w hw k hk => ?_,
    fun e he k hk => ?_⟩
  · have hstored : (s.accounts.get? k).isSome = true := by
      obtain ⟨v, hv, -, hvk⟩ | ⟨account, hget, -⟩ := voidedBy_cases h hw hk
      · exact hs.voidedBy v hv k hvk
      · exact Option.isSome_iff_exists.mpr ⟨account, hget⟩
    obtain hkept | ⟨rfl, hfree⟩ := account_cases h hstored
    · exact hkept
    · rw [(deleteAccount_of_free h hfree).1] at hw
      exact absurd hk ((isReferenced_eq_false.mp hfree).1 w hw)
  · have hstored : (s.accounts.get? k).isSome = true := by
      obtain ⟨n, hn, -, hnk⟩ | ⟨account, hget, -⟩ := reviewedBy_cases h hw hk
      · exact hs.reviewedBy n hn k hnk
      · exact Option.isSome_iff_exists.mpr ⟨account, hget⟩
    obtain hkept | ⟨rfl, hfree⟩ := account_cases h hstored
    · exact hkept
    · exact absurd hk ((deleteAccount_of_free h hfree).2.2 w hw)
  · have hstored : (s.accounts.get? k).isSome = true := by
      by_cases hold : e ∈ s.db.audit.rows
      · exact hs.actorUser e hold k hk
      · obtain ⟨account, hget, -⟩ := active_of_names (accountable_of_new h he hold).actor hk
        exact Option.isSome_iff_exists.mpr ⟨account, hget⟩
    obtain hkept | ⟨rfl, hfree⟩ := account_cases h hstored
    · exact hkept
    · rw [(deleteAccount_of_free h hfree).2.1] at he
      exact absurd hk ((isReferenced_eq_false.mp hfree).2 e he)

/-- **No run breaks a reference:** from a state in which every reference is to a stored row, such as
the one without rows, every run of requests, of saves and deletions of accounts, of blocks and of
purges ends in one. -/
theorem stored_of_run {l : List Input} (hs : Stored s) (hr : run (step cfg) s l = some s') :
    Stored s' :=
  run_inv Stored (fun _ _ _ hs h => stored_of_step hs h) hs hr

/-- Without rows there are no references. -/
theorem stored_fresh : Stored (fresh {}) where
  database :=
    ⟨refers_nil, refers_nil, refers_nil, refers_nil, refers_nil, refers_nil, refers_nil, refers_nil,
    refers_nil, refers_nil, refers_nil, refers_nil⟩
  voidedBy := refers_nil
  reviewedBy := refers_nil
  actorUser := refers_nil

/-- After a recount the chair is to be deleted, the gala too, and the voters that are not
verified. -/
def cleanup : List Input :=
  recount ++
    [.deleteAccount 9, .request (.destroyEvent "gala") (withToken "chair") (moment 80 ⟨78, 9⟩),
      .purge 0 true 90]

theorem stored_of_run_cleanup : ∃ s, run (step demo) (fresh {}) cleanup = some s ∧
    s.db.events.rows.length = 1 ∧ s.accounts.rows.length = 1 ∧ Stored s := by
  have hrun : (run (step demo) (fresh {}) cleanup).map (fun s =>
      (s.db.events.rows.length, s.accounts.rows.length)) = some (1, 1) := by
    decide +kernel
  obtain ⟨s, hs, hlen⟩ := Option.map_eq_some_iff.mp hrun
  obtain ⟨hevents, haccounts⟩ := Prod.mk.inj hlen
  exact ⟨s, hs, hevents, haccounts, stored_of_run stored_fresh hs⟩

end KwAwards.Api.Integrity
