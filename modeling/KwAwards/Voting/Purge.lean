import Mathlib.Data.List.Sort
import KwAwards.Store

/-! # Purging unverified voters

`handle` is the command `purge_unverified_voters`: the voters that were never verified, are older
than a cutoff and have no vote and no payment are deleted one by one, each with its challenges. The
delete of a voter that a vote, a payment or an audit entry refers to is refused, and counted.

The loop deletes the candidates without audit entries and counts the others (`foldl_purgeOne_eq`),
which is what a dry run predicts (`handle_exact`). -/

namespace KwAwards.Voting.Purge

open KwAwards.Lib.Tables KwAwards.Common.Base KwAwards.Audit.Log KwAwards.Voting.Models
open KwAwards.Voting.Votes KwAwards.Store

/-- The first and the last instant of Python's `datetime`, in microseconds from the epoch. -/
def datetimeMin : ℤ := -62135596800000000

def datetimeMax : ℤ := 253402300799999999

/-- `timezone.now() - timedelta(hours=…)`; `none` is the `OverflowError`. -/
def cutoff (now : Time) (olderThanHours : ℤ) : Option ℤ :=
  let t : ℤ := now - olderThanHours * 3600000000
  if datetimeMin ≤ t ∧ t ≤ datetimeMax then some t else none

/-- A vote or a payment of the voter. -/
def hasVotesOrPayments (db : Database) (voter : Id) : Bool :=
  db.votes.rows.any (fun v => v.voter = voter) || db.payments.rows.any fun p => p.voter = voter

/-- An audit entry that refers to the voter. -/
def isAudited (db : Database) (voter : Id) : Bool :=
  db.audit.rows.any fun e => e.actorVoter = some voter

/-- The primary keys of the candidates, in order. -/
def candidates (db : Database) (before : ℤ) : List Id :=
  ((db.voters.rows.filter fun v => decide (v.verifiedAt = none) && decide
    ((v.createdAt : ℤ) < before) &&
    !hasVotesOrPayments db v.id).map Voter.id).insertionSort (· ≤ ·)

/-- `voter.delete()`: the voter and its challenges; `none` is the `ProtectedError`. -/
def deleteVoter (db : Database) (voter : Id) : Option Database :=
  if hasVotesOrPayments db voter || isAudited db voter then none
  else some { db with
    voters := db.voters.filter fun v => v.id ≠ voter
    challenges := db.challenges.filter fun c => c.voter ≠ voter }

/-- What an executed purge reports. -/
structure Report where
  deleted : ℕ := 0
  challengesDeleted : ℕ := 0
  skipped : ℕ := 0
  deriving DecidableEq, Repr

/-- One candidate of the loop; one that is gone is passed over. -/
def purgeOne (acc : Database × Report) (voter : Id) : Database × Report :=
  match acc.1.voters.get? voter with
  | none => acc
  | some _ =>
    match deleteVoter acc.1 voter with
    | none => (acc.1, { acc.2 with skipped := acc.2.skipped + 1 })
    | some db => (db, { acc.2 with
        deleted := acc.2.deleted + 1
        challengesDeleted := acc.2.challengesDeleted +
          (acc.1.challenges.rows.filter fun c => c.voter = voter).length })

/-- What the command prints. -/
inductive Output
  | dryRun (total deletable skipped : ℕ)
  | executed (r : Report)
  deriving DecidableEq, Repr

/-- **`handle`**: a dry run, unless `execute` is set. -/
def handle (db : Database) (now : Time) (olderThanHours : ℤ) (execute : Bool) :
    Database × Option Output :=
  match cutoff now olderThanHours with
  | none => (db, none)
  | some before =>
    let ids := candidates db before
    if execute then
      let (db', r) := ids.foldl purgeOne (db, {})
      (db', some (.executed r))
    else
      let skipped := (ids.filter fun k => isAudited db k).length
      (db, some (.dryRun ids.length (ids.length - skipped) skipped))

/-! ### What is deleted, exactly -/

/-- The database without some voters and without their challenges. -/
def without (db : Database) (ids : List Id) : Database :=
  { db with
    voters := db.voters.filter fun v => v.id ∉ ids
    challenges := db.challenges.filter fun c => c.voter ∉ ids }

theorem without_nil (db : Database) : without db [] = db := by
  have hvoters : db.voters.filter (fun v => v.id ∉ ([] : List Id)) = db.voters :=
    Table.ext_rows (List.filter_eq_self.mpr fun _ _ => by simp)
  have hchallenges : db.challenges.filter (fun c => c.voter ∉ ([] : List Id)) = db.challenges :=
    Table.ext_rows (List.filter_eq_self.mpr fun _ _ => by simp)
  unfold without
  rw [hvoters, hchallenges]

theorem without_without (db : Database) (k : Id) (ids : List Id) :
    without (without db [k]) ids = without db (k :: ids) := by
  have hvoters : (db.voters.filter fun v => v.id ∉ [k]).filter (fun v => v.id ∉ ids) =
      db.voters.filter fun v => v.id ∉ k :: ids := by
    refine Table.ext_rows ?_
    rw [Table.rows_filter, Table.rows_filter, Table.rows_filter, List.filter_filter]
    exact List.filter_congr fun v _ => by simp [Bool.and_comm]
  have hchallenges : (db.challenges.filter fun c => c.voter ∉ [k]).filter (fun c => c.voter ∉ ids) =
      db.challenges.filter fun c => c.voter ∉ k :: ids := by
    refine Table.ext_rows ?_
    rw [Table.rows_filter, Table.rows_filter, Table.rows_filter, List.filter_filter]
    exact List.filter_congr fun c _ => by simp [Bool.and_comm]
  unfold without
  rw [← hvoters, ← hchallenges]

/-- The challenges of some voters. -/
def challengesOf (db : Database) (ids : List Id) : ℕ :=
  (db.challenges.rows.filter fun c => c.voter ∈ ids).length

theorem challengesOf_cons (db : Database) {k : Id} {ids : List Id} (hk : k ∉ ids) :
    challengesOf db (k :: ids) = (db.challenges.rows.filter fun c => c.voter = k).length +
      challengesOf (without db [k]) ids := by
  have hone : (db.challenges.rows.filter fun c => c.voter ∈ k :: ids).filter
    (fun c => c.voter = k) =
      db.challenges.rows.filter fun c => c.voter = k := by
    rw [List.filter_filter]
    refine List.filter_congr fun c _ => ?_
    by_cases hc : c.voter = k
    · simp [hc]
    · simp [hc]
  have hrest : (db.challenges.rows.filter fun c => c.voter ∈ k :: ids).filter
      (fun c => !decide (c.voter = k)) =
        (db.challenges.rows.filter fun c => c.voter ∉ [k]).filter fun c => c.voter ∈ ids := by
    rw [List.filter_filter, List.filter_filter]
    refine List.filter_congr fun c _ => ?_
    by_cases hc : c.voter = k
    · simp [hc, hk]
    · simp [hc]
  have hsplit := List.length_eq_length_filter_add (l := db.challenges.rows.filter fun c =>
    c.voter ∈ k :: ids) fun c => decide (c.voter = k)
  rw [hone, hrest] at hsplit
  exact hsplit

theorem deleteVoter_eq {db : Database} {k : Id} (h : hasVotesOrPayments db k = false) :
    deleteVoter db k = if isAudited db k then none else some (without db [k]) := by
  unfold deleteVoter without
  rw [h, Bool.false_or]
  simp only [List.mem_singleton]

/-- What the report of some more rounds says. -/
def Report.add (r : Report) (db : Database) (ids : List Id) : Report where
  deleted := r.deleted + (ids.filter fun k => !isAudited db k).length
  challengesDeleted := r.challengesDeleted + challengesOf db (ids.filter fun k => !isAudited db k)
  skipped := r.skipped + (ids.filter fun k => isAudited db k).length

theorem Report.add_of_audited (r : Report) {db : Database} {k : Id} (h : isAudited db k = true)
    (ids : List Id) :
    r.add db (k :: ids) = Report.add { r with skipped := r.skipped + 1 } db ids := by
  simp only [Report.add, List.filter_cons, h, Bool.not_true, Bool.false_eq_true, if_false, if_true,
    List.length_cons, Report.mk.injEq, true_and]
  omega

theorem Report.add_of_free (r : Report) {db : Database} {k : Id} (h : isAudited db k = false)
    {ids : List Id} (hk : k ∉ ids) : r.add db (k :: ids) = Report.add
      { r with
        deleted := r.deleted + 1
        challengesDeleted := r.challengesDeleted +
          (db.challenges.rows.filter fun c => c.voter = k).length } (without db [k]) ids := by
  have haudit : isAudited (without db [k]) = isAudited db := rfl
  have hnot : k ∉ ids.filter fun k => !isAudited db k := fun hmem =>
    hk (List.mem_of_mem_filter hmem)
  simp only [Report.add, List.filter_cons, h, haudit, Bool.not_false, Bool.false_eq_true,
    if_false, if_true, List.length_cons, Report.mk.injEq, and_true, challengesOf_cons db hnot]
  omega

/-- **The loop** over voters without votes and payments: those without audit entries go. -/
theorem foldl_purgeOne_eq {db : Database} {r : Report} {ids : List Id} (hnodup : ids.Nodup)
    (hids : ∀ k ∈ ids, (db.voters.get? k).isSome ∧ hasVotesOrPayments db k = false) :
    ids.foldl purgeOne (db, r) =
      (without db (ids.filter fun k => !isAudited db k), r.add db ids) := by
  induction ids generalizing db r with
  | nil =>
    rw [List.foldl_nil, List.filter_nil, without_nil]
    simp [Report.add, challengesOf]
  | cons k ids ih =>
    obtain ⟨hk, hnodup⟩ := List.nodup_cons.mp hnodup
    obtain ⟨⟨hsome, hfree⟩, hids⟩ := List.forall_mem_cons.mp hids
    obtain ⟨v, hv⟩ := Option.isSome_iff_exists.mp hsome
    have hdelete := deleteVoter_eq hfree
    rw [List.foldl_cons]
    by_cases ha : isAudited db k = true
    · have hone : purgeOne (db, r) k = (db, { r with skipped := r.skipped + 1 }) := by
        rw [if_pos ha] at hdelete
        simp only [purgeOne, hv, hdelete]
      rw [hone, ih hnodup hids, r.add_of_audited ha, List.filter_cons_of_neg (by simp [ha])]
    · rw [if_neg ha] at hdelete
      rw [Bool.not_eq_true] at ha
      have hids' : ∀ j ∈ ids, ((without db [k]).voters.get? j).isSome ∧
          hasVotesOrPayments (without db [k]) j = false := by
        intro j hj
        obtain ⟨hsome, hfree⟩ := hids j hj
        obtain ⟨w, hw⟩ := Option.isSome_iff_exists.mp hsome
        have hid : w.id = j := Table.key_of_get? hw
        have hne : w.id ≠ k := fun he => hk (he ▸ hid ▸ hj)
        refine ⟨?_, hfree⟩
        show ((db.voters.filter fun v => v.id ∉ [k]).get? j).isSome
        rw [Table.get?_filter, hw, Option.filter_some, if_pos (by simp [hne])]
        rfl
      rw [r.add_of_free ha hk, List.filter_cons_of_pos (by simp [ha]), ← without_without]
      have hstep := ih (r := { r with
        deleted := r.deleted + 1
        challengesDeleted := r.challengesDeleted +
          (db.challenges.rows.filter fun c => c.voter = k).length }) hnodup hids'
      simp only [purgeOne, hv, hdelete]
      exact hstep

theorem mem_candidates {db : Database} {before : ℤ} {k : Id} : k ∈ candidates db before ↔
    ∃ v ∈ db.voters.rows, v.id = k ∧ v.verifiedAt = none ∧ (v.createdAt : ℤ) < before ∧
      hasVotesOrPayments db k = false := by
  unfold candidates
  rw [List.mem_insertionSort, List.mem_map]
  constructor
  · rintro ⟨v, hv, rfl⟩
    obtain ⟨hmem, hcond⟩ := List.mem_filter.mp hv
    simp only [Bool.and_eq_true, decide_eq_true_eq, Bool.not_eq_true'] at hcond
    exact ⟨v, hmem, rfl, hcond.1.1, hcond.1.2, hcond.2⟩
  · rintro ⟨v, hmem, rfl, hnone, hlt, hfree⟩
    refine ⟨v, List.mem_filter.mpr ⟨hmem, ?_⟩, rfl⟩
    simp [hnone, hlt, hfree]

/-- Never verified, older than the cutoff, without vote and without payment. -/
def Candidate (db : Database) (before : ℤ) (v : Voter) : Prop :=
  v.verifiedAt = none ∧ (v.createdAt : ℤ) < before ∧ (∀ x ∈ db.votes.rows, x.voter ≠ v.id) ∧
    ∀ p ∈ db.payments.rows, p.voter ≠ v.id

/-- No audit entry refers to the voter. -/
def Unaudited (db : Database) (v : Voter) : Prop := ∀ e ∈ db.audit.rows, e.actorVoter ≠ some v.id

instance (db : Database) (before : ℤ) (v : Voter) : Decidable (Candidate db before v) := by
  unfold Candidate; infer_instance

instance (db : Database) (v : Voter) :
    Decidable (Unaudited db v) := by unfold Unaudited; infer_instance

/-- The challenge of a voter that is deleted. -/
def Orphaned (db : Database) (before : ℤ) (c : OTPChallenge) : Prop :=
  ∃ v ∈ db.voters.rows, Candidate db before v ∧ Unaudited db v ∧ v.id = c.voter

instance (db : Database) (before : ℤ) (c : OTPChallenge) : Decidable (Orphaned db before c) := by
  unfold Orphaned; infer_instance

/-- **What the command does** with a cutoff: the database it leaves and what it prints, executed and
as a dry run. -/
structure Exact (db : Database) (before : ℤ)
    (executed dryRun : Database × Option Output) : Prop where
  database : executed.1 = { db with
    voters := db.voters.filter fun v => ¬ (Candidate db before v ∧ Unaudited db v)
    challenges := db.challenges.filter fun c => ¬ Orphaned db before c }
  unchanged : dryRun.1 = db
  output : ∃ r : Report, executed.2 = some (.executed r) ∧
    r.deleted = (db.voters.rows.filter fun v => Candidate db before v ∧ Unaudited db v).length ∧
    r.challengesDeleted = (db.challenges.rows.filter fun c => Orphaned db before c).length ∧
    r.skipped = (db.voters.rows.filter fun v => Candidate db before v ∧ ¬ Unaudited db v).length ∧
    dryRun.2 =
      some (.dryRun (db.voters.rows.filter fun v => Candidate db before v).length r.deleted
        r.skipped)

variable {db : Database} {before : ℤ}

theorem hasVotesOrPayments_eq_false {k : Id} : hasVotesOrPayments db k = false ↔
    (∀ x ∈ db.votes.rows, x.voter ≠ k) ∧ ∀ p ∈ db.payments.rows, p.voter ≠ k := by
  simp [hasVotesOrPayments]

theorem isAudited_eq_false {v : Voter} : isAudited db v.id = false ↔ Unaudited db v := by
  simp [isAudited, Unaudited]

theorem candidates_perm : List.Perm (candidates db before)
    ((db.voters.rows.filter fun v => Candidate db before v).map Voter.id) := by
  unfold candidates
  refine (List.perm_insertionSort _ _).trans (List.Perm.of_eq (congrArg (List.map Voter.id) ?_))
  refine List.filter_congr fun v _ => ?_
  rw [Bool.eq_iff_iff]
  simp only [Bool.and_eq_true, decide_eq_true_eq, Bool.not_eq_true', hasVotesOrPayments_eq_false,
    and_assoc]
  exact Iff.rfl

theorem nodup_candidates : (candidates db before).Nodup :=
  candidates_perm.nodup_iff.mpr (db.voters.nodup.sublist (List.filter_sublist.map _))

theorem mem_deleted {v : Voter} (hv : v ∈ db.voters.rows) :
    v.id ∈ (candidates db before).filter (fun k => !isAudited db k) ↔
      Candidate db before v ∧ Unaudited db v := by
  rw [List.mem_filter, candidates_perm.mem_iff, Bool.not_eq_true', isAudited_eq_false, List.mem_map]
  refine and_congr_left fun _ => ⟨?_, fun h => ⟨v, List.mem_filter.mpr ⟨hv, decide_eq_true h⟩, rfl⟩⟩
  rintro ⟨w, hw, hid⟩
  obtain ⟨hw, hcond⟩ := List.mem_filter.mp hw
  obtain rfl : w = v := Table.eq_of_key hw hv hid
  exact of_decide_eq_true hcond

theorem mem_deleted_iff_orphaned {c : OTPChallenge} :
    c.voter ∈ (candidates db before).filter (fun k => !isAudited db k) ↔ Orphaned db before c := by
  constructor
  · intro h
    obtain ⟨v, hv, hid, -⟩ := mem_candidates.mp (List.mem_of_mem_filter h)
    rw [← hid] at h
    obtain ⟨hcandidate, hunaudited⟩ := (mem_deleted hv).mp h
    exact ⟨v, hv, hcandidate, hunaudited, hid⟩
  · rintro ⟨v, hv, hcandidate, hunaudited, hid⟩
    exact hid ▸ (mem_deleted hv).mpr ⟨hcandidate, hunaudited⟩

/-- The candidates with some property, counted among the voters. -/
theorem length_candidates (p : Id → Bool) : ((candidates db before).filter p).length =
    (db.voters.rows.filter fun v => p v.id && decide (Candidate db before v)).length := by
  rw [(candidates_perm.filter p).length_eq, List.filter_map, List.length_map, List.filter_filter]
  rfl

theorem length_total :
    (candidates db before).length =
      (db.voters.rows.filter fun v => Candidate db before v).length := by
  rw [candidates_perm.length_eq, List.length_map]

theorem length_skipped : ((candidates db before).filter fun k => isAudited db k).length =
    (db.voters.rows.filter fun v => Candidate db before v ∧ ¬ Unaudited db v).length := by
  rw [length_candidates]
  refine congrArg List.length (List.filter_congr fun v _ => ?_)
  rw [Bool.eq_iff_iff]
  simp only [Bool.and_eq_true, decide_eq_true_eq, ← isAudited_eq_false, Bool.not_eq_false]
  exact and_comm

theorem length_deleted : ((candidates db before).filter fun k => !isAudited db k).length =
    (db.voters.rows.filter fun v => Candidate db before v ∧ Unaudited db v).length := by
  rw [length_candidates]
  refine congrArg List.length (List.filter_congr fun v _ => ?_)
  rw [Bool.eq_iff_iff]
  simp only [Bool.and_eq_true, decide_eq_true_eq, ← isAudited_eq_false, Bool.not_eq_true']
  exact and_comm

theorem challengesOf_deleted :
    challengesOf db ((candidates db before).filter fun k => !isAudited db k) =
    (db.challenges.rows.filter fun c => Orphaned db before c).length := by
  unfold challengesOf
  exact congrArg List.length
    (List.filter_congr fun c _ => decide_eq_decide.mpr mem_deleted_iff_orphaned)

theorem without_deleted : without db ((candidates db before).filter fun k => !isAudited db k) =
    { db with
      voters := db.voters.filter fun v => ¬ (Candidate db before v ∧ Unaudited db v)
      challenges := db.challenges.filter fun c => ¬ Orphaned db before c } := by
  have hvoters :
      db.voters.filter (fun v => v.id ∉ (candidates db before).filter fun k => !isAudited db k) =
      db.voters.filter fun v => ¬ (Candidate db before v ∧ Unaudited db v) :=
    Table.ext_rows (List.filter_congr fun v hv => decide_eq_decide.mpr (not_congr (mem_deleted hv)))
  have hchallenges : db.challenges.filter (fun c => c.voter ∉
      (candidates db before).filter fun k => !isAudited db k) =
        db.challenges.filter fun c => ¬ Orphaned db before c :=
    Table.ext_rows
      (List.filter_congr fun c _ => decide_eq_decide.mpr (not_congr mem_deleted_iff_orphaned))
  rw [without, hvoters, hchallenges]

theorem handle_executed {now : Time} {olderThanHours : ℤ}
    (hcut : cutoff now olderThanHours = some before) :
    handle db now olderThanHours true =
      (without db ((candidates db before).filter fun k => !isAudited db k),
        some (.executed (Report.add {} db (candidates db before)))) := by
  have hids : ∀ k ∈ candidates db before,
      (db.voters.get? k).isSome ∧ hasVotesOrPayments db k = false := by
    intro k hk
    obtain ⟨v, hv, rfl, -, -, hfree⟩ := mem_candidates.mp hk
    exact ⟨Option.isSome_iff_exists.mpr ⟨v, Table.get?_key hv⟩, hfree⟩
  have hloop := foldl_purgeOne_eq (r := {}) nodup_candidates hids
  simp only [handle, hcut, if_true, hloop]

theorem handle_dryRun {now : Time} {olderThanHours : ℤ}
    (hcut : cutoff now olderThanHours = some before) :
    handle db now olderThanHours false = (db, some (.dryRun (candidates db before).length
      ((candidates db before).length -
        ((candidates db before).filter fun k => isAudited db k).length)
      ((candidates db before).filter fun k => isAudited db k).length)) := by
  simp only [handle, hcut, Bool.false_eq_true, if_false]

/-- **The purge does what its dry run predicts, and nothing else.** -/
theorem handle_exact (db : Database) {now : Time} {olderThanHours : ℤ}
    (hcut : cutoff now olderThanHours = some before) :
    Exact db before (handle db now olderThanHours true) (handle db now olderThanHours false) := by
  have hsplit := List.length_eq_length_filter_add (l := candidates db before) fun k =>
    isAudited db k
  rw [handle_executed hcut, handle_dryRun hcut]
  refine ⟨without_deleted, rfl, _, rfl, ?_, ?_, ?_, ?_⟩
  · show 0 + _ = _
    rw [Nat.zero_add, length_deleted]
  · show 0 + _ = _
    rw [Nat.zero_add, challengesOf_deleted]
  · show 0 + _ = _
    rw [Nat.zero_add, length_skipped]
  · simp only [Report.add, length_total, length_skipped, length_deleted, Nat.zero_add,
      Option.some.injEq, Output.dryRun.injEq, true_and, and_true]
    rw [length_total, length_skipped, length_deleted] at hsplit
    omega

/-- A voter to delete, one that an entry refers to, one that has paid, and a recent one. -/
def mixed : Database where
  voters := ⟨[{ id := 50, phoneE164 := "+254712345678", createdAt := 1 },
    { id := 51, phoneE164 := "+254712345679", createdAt := 1 },
    { id := 52, phoneE164 := "+254712345670", createdAt := 1 },
    { id := 53, phoneE164 := "+254712345671", createdAt := 9000000000 }], by decide⟩
  challenges := ⟨[{ id := 60, voter := 50, codeHash := "h", expiresAt := 2 },
    { id := 61, voter := 51, codeHash := "h", expiresAt := 2 }], by decide⟩
  payments := ⟨[{ id := 70, voter := 52, nomination := 40 }], by decide⟩
  audit := ⟨[⟨80, 1, 1, none, some 51, .otpRequested, none, [], none, ""⟩], by decide⟩

theorem handle_exact_mixed : Exact mixed 5400000000 (handle mixed 9000000000 1 true)
    (handle mixed 9000000000 1 false) :=
  handle_exact mixed (by decide)

/-! ### What follows for other tables -/

/-- **What a purge leaves:** the other tables, and the voters that were verified or are referred
to. -/
structure Purged (db db' : Database) : Prop where
  frame : db' = { db with voters := db'.voters, challenges := db'.challenges }
  voters : ∀ k, db'.voters.get? k = db.voters.get? k ∨
    (db'.voters.get? k = none ∧ (∀ v, db.voters.get? k = some v → v.verifiedAt = none) ∧
      hasVotesOrPayments db k = false ∧ isAudited db k = false)
  rows : ∀ v ∈ db'.voters.rows, v ∈ db.voters.rows

theorem Purged.refl (db : Database) : Purged db db := ⟨rfl, fun _ => Or.inl rfl, fun _ hv => hv⟩

theorem get?_handle_executed {now : Time} {olderThanHours : ℤ}
    (hcut : cutoff now olderThanHours = some before) (k : Id) :
    (handle db now olderThanHours true).1.voters.get? k =
      (db.voters.get? k).filter fun v => ¬ (Candidate db before v ∧ Unaudited db v) := by
  rw [handle_executed hcut, without_deleted]
  exact Table.get?_filter ..

theorem purged_handle (db : Database) (now : Time) (olderThanHours : ℤ) (execute : Bool) :
    Purged db (handle db now olderThanHours execute).1 := by
  rcases hcut : cutoff now olderThanHours with _ | before
  · rw [show handle db now olderThanHours execute = (db, none) by simp only [handle, hcut]]
    exact Purged.refl db
  cases execute with
  | false => rw [handle_dryRun hcut]; exact Purged.refl db
  | true =>
    refine ⟨by rw [handle_executed hcut]; rfl, fun k => ?_, fun v hv => ?_⟩
    · rw [get?_handle_executed hcut]
      rcases hk : db.voters.get? k with _ | v
      · exact Or.inl rfl
      · rw [Option.filter_some]
        split_ifs with hkept
        · exact Or.inl rfl
        · have hgone : Candidate db before v ∧ Unaudited db v := by simpa using hkept
          have hid : v.id = k := Table.key_of_get? hk
          refine Or.inr ⟨rfl, fun w hw => Option.some.inj hw ▸ hgone.1.1, ?_, ?_⟩
          · exact hid ▸ hasVotesOrPayments_eq_false.mpr hgone.1.2.2
          · exact hid ▸ isAudited_eq_false.mpr hgone.2
    · rw [handle_executed hcut] at hv
      exact List.mem_of_mem_filter hv

/-- **When no candidate is referred to** every one of them is deleted, and none is skipped. -/
theorem handle_of_unreferenced {db : Database} {now : Time} {olderThanHours before : ℤ}
    (hcut : cutoff now olderThanHours = some before)
    (hfree : ∀ v ∈ db.voters.rows, v.verifiedAt = none →
      hasVotesOrPayments db v.id = false ∧ isAudited db v.id = false) :
    ∃ db' r, handle db now olderThanHours true = (db', some (.executed r)) ∧ r.skipped = 0 ∧
      ∀ v ∈ db.voters.rows, v.verifiedAt = none → (v.createdAt : ℤ) < before →
        db'.voters.get? v.id = none := by
  have hout : (handle db now olderThanHours true).2 =
      some (.executed (Report.add {} db (candidates db before))) := by rw [handle_executed hcut]
  refine ⟨_, _, Prod.ext rfl hout, ?_, fun v hv hnone hlt => ?_⟩
  · show 0 + _ = 0
    rw [Nat.zero_add, length_skipped, List.length_eq_zero_iff, List.filter_eq_nil_iff]
    intro v hv hcond
    obtain ⟨hcandidate, haudited⟩ := of_decide_eq_true hcond
    exact haudited (isAudited_eq_false.mp (hfree v hv hcandidate.1).2)
  · have hget : db.voters.get? v.id = some v := Table.get?_key hv
    obtain ⟨hvotes, haudit⟩ := hfree v hv hnone
    have hgone : Candidate db before v ∧ Unaudited db v :=
      ⟨⟨hnone, hlt, hasVotesOrPayments_eq_false.mp hvotes⟩, isAudited_eq_false.mp haudit⟩
    rw [get?_handle_executed hcut, hget, Option.filter_some, if_neg (by simpa using hgone)]

end KwAwards.Voting.Purge
