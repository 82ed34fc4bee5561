import KwAwards.Lib.Run
import KwAwards.Nominations.Services
import KwAwards.Nominations.Submission

/-! # A nomination is decided once

Any number of calls of `review_nomination` run interleaved, from the API and from the admin's bulk
action, each with the instance its caller has loaded. A call takes the lock of the row and rereads
it (`lock`), saves the row and inserts the entry (`write`), and makes both visible (`commit`); the
save is refused when the reason does not fit its column. Between its `lock` and its `commit` no
other call has the lock, so a commit does what `reviewNomination` does on the database it finds
(`commit_eq_reviewNomination`).

A pending nomination then stays as it is until one call decides it, and from there on stays as that
call has left it (`decided_once`). -/

namespace KwAwards.Nominations.ReviewOnce

open KwAwards.Lib.Tables KwAwards.Lib.Run KwAwards.Common.Base KwAwards.Common.Phone
open KwAwards.Common.Exceptions KwAwards.Audit.Log KwAwards.Nominations.Models
open KwAwards.Nominations.Services KwAwards.Nominations.Submission KwAwards.Store

/-- A call: an approval, or a rejection with a reason, as both callers check. The instance may be
stale. -/
structure Call where
  nomination : Nomination
  approve : Bool
  reviewer : Id
  reason : String := ""
  request : Option Request := none
  reasoned : approve = true ∨ reason ≠ ""

def Call.args (c : Call) : ReviewArgs where
  nomination := c.nomination.id
  approve := c.approve
  reviewer := c.reviewer
  reason := c.reason
  request := c.request

/-- What the call stores as the reason fits the column. -/
def Call.Fits (c : Call) : Prop := c.approve = true ∨ c.reason.length ≤ 500

/-- Where a call stands; `row` is the row as reread under the lock, `at_` the instant of the
save. -/
inductive Phase
  | idle
  | locked (c : Call) (row : Nomination)
  | written (c : Call) (row : Nomination) (at_ : Time) (entry : AuditLog)
  | done (c : Call) (r : Except Raised Nomination)

/-- The call and the row of a call that has the lock. -/
def Phase.holds : Phase → Option (Call × Nomination)
  | .locked c row => some (c, row)
  | .written c row _ _ => some (c, row)
  | _ => none

/-- The committed database, the clock, the sequence of the audit table, the row locks and the
calls. -/
structure State where
  db : Database
  now : Time
  nextSeq : ℕ
  locks : Id → Option ℕ := fun _ => none
  calls : ℕ → Phase := fun _ => .idle

def State.setCall (s : State) (i : ℕ) (p : Phase) : State :=
  { s with calls := Function.update s.calls i p }

def State.setLock (s : State) (nomination : Id) (holder : Option ℕ) : State :=
  { s with locks := Function.update s.locks nomination holder }

/-- What can happen; `nextval` is a number of the sequence that goes to another transaction. -/
inductive Label
  | tick (d : ℕ)
  | nextval
  | lock (i : ℕ) (c : Call)
  | write (i : ℕ) (id : Id)
  | commit (i : ℕ)

/-- The exception for a nomination that is not pending. -/
def alreadyReviewed (row : Nomination) : Raised :=
  .api (.alreadyReviewed
    ("This nomination has already been reviewed (status: " ++ row.status.value ++ ")."))

/-- The entry of a call. -/
def entryOf (c : Call) (row : Nomination) (now : Time) (ak : Keys) : Option AuditLog :=
  log ak now (reviewAction c.args) c.request (some c.reviewer) none (some (nominationTarget row.id))
    (reviewMetadata (reviewed row c.args now) c.args)

def step (s : State) : Label → Option State
  | .tick d => some { s with now := s.now + d }
  | .nextval => some { s with nextSeq := s.nextSeq + 1 }
  | .lock i c =>
    match s.calls i, s.locks c.nomination.id with
    | .idle, none =>
      match s.db.nominations.get? c.nomination.id with
      | none => some (s.setCall i (.done c (.error .doesNotExist)))
      | some row =>
        if row.status = .pending then
          some ((s.setLock c.nomination.id (some i)).setCall i (.locked c row))
        else some (s.setCall i (.done c (.error (alreadyReviewed row))))
    | _, _ => none
  | .write i id =>
    match s.calls i with
    | .locked c row =>
      match reviewError (reviewed row c.args s.now) with
      | some e => some ((s.setLock c.nomination.id none).setCall i (.done c (.error (.db e))))
      | none =>
        (entryOf c row s.now ⟨id, s.nextSeq⟩).map fun entry =>
          { s with nextSeq := s.nextSeq + 1 }.setCall i (.written c row s.now entry)
    | _ => none
  | .commit i =>
    match s.calls i with
    | .written c row at_ entry =>
      (({ s.db with nominations := s.db.nominations.put (reviewed row c.args at_) } :
          Database).write
        (some entry)).map fun db =>
          (({ s with db }.setLock c.nomination.id none).setCall i
            (.done c (.ok (reviewed row c.args at_))))
    | _ => none

/-! ### What is said about a nomination -/

/-- An entry about the review of a nomination. -/
def IsReview (nomination : Id) (e : AuditLog) : Prop :=
  (e.action = .nominationApproved ∨ e.action = .nominationRejected) ∧
    e.target = some (nominationTarget nomination)

instance (nomination : Id) (e : AuditLog) : Decidable (IsReview nomination e) :=
  inferInstanceAs (Decidable (_ ∧ _))

/-- The entries about the review of a nomination. -/
def reviewLog (db : Database) (nomination : Id) : List AuditLog :=
  db.audit.rows.filter fun e => decide (IsReview nomination e)

/-- A call about the nomination has returned `r`. -/
def Returned (s : State) (nomination : Id) (i : ℕ) (c : Call)
    (r : Except Raised Nomination) : Prop :=
  s.calls i = .done c r ∧ c.nomination.id = nomination

/-- The row and the only entry of a nomination are those of the decision of `c` at the instant
`at_`. -/
structure Decision (n : Nomination) (db : Database) (c : Call) (at_ : Time) : Prop where
  row : db.nominations.get? n.id = some (reviewed n c.args at_)
  entry : ∃ e, reviewLog db n.id = [e] ∧ e.action = reviewAction c.args ∧
    e.actorUser = some c.reviewer ∧ e.metadata = reviewMetadata n c.args

/-- **Decided once:** the call `i` has decided the nomination, and every other call that has
returned was told so, or had a reason that does not fit. -/
structure DecidedBy (n : Nomination) (s : State) (i : ℕ) (c : Call) (at_ : Time) : Prop where
  winner : Returned s n.id i c (.ok (reviewed n c.args at_))
  decision : Decision n s.db c at_
  others : ∀ j c' r, j ≠ i → Returned s n.id j c' r →
    r = .error (alreadyReviewed (reviewed n c.args at_)) ∨
      (¬ c'.Fits ∧ r = .error (.db .stringTooLong))

/-- Not decided yet: the row is as it was, and only calls whose reason does not fit have
returned. -/
structure Undecided (n : Nomination) (s : State) : Prop where
  row : s.db.nominations.get? n.id = some n
  unlogged : reviewLog s.db n.id = []
  returned : ∀ j c r, Returned s n.id j c r → ¬ c.Fits ∧ r = .error (.db .stringTooLong)

/-! ### The lock -/

/-- The lock of a row belongs to the call that holds the row, which is pending and as that call read
it. -/
structure LockInv (s : State) : Prop where
  holder : ∀ i c row, (s.calls i).holds = some (c, row) → s.locks c.nomination.id = some i ∧
    s.db.nominations.get? c.nomination.id = some row ∧ row.status = .pending
  written : ∀ i c row at_ entry, s.calls i = .written c row at_ entry → c.Fits ∧
    ∃ ak, entryOf c row at_ ak = some entry

/-- The save is refused exactly when the reason does not fit. -/
theorem reviewError_reviewed (c : Call) (row : Nomination) (now : Time) :
    (c.Fits ∧ reviewError (reviewed row c.args now) = none) ∨
      (¬ c.Fits ∧ reviewError (reviewed row c.args now) = some .stringTooLong) := by
  unfold Call.Fits reviewError
  cases ha : c.approve with
  | true =>
    refine Or.inl ⟨Or.inl rfl, ?_⟩
    simp [reviewed, Call.args, ha, Nomination.checks]
  | false =>
    have hreason : c.reason ≠ "" := c.reasoned.resolve_left (by simp [ha])
    by_cases hlen : c.reason.length ≤ 500
    · refine Or.inl ⟨Or.inr hlen, ?_⟩
      simp [reviewed, Call.args, ha, Nomination.checks, hreason, hlen]
    · refine Or.inr ⟨by simp [hlen], ?_⟩
      simp [reviewed, Call.args, ha, Nat.lt_of_not_le hlen]

/-- A save that is refused ends the call and leaves the rows. -/
theorem step_write_failed {s : State} {i : ℕ} {id : Id} {c : Call} {row : Nomination} {e : DbError}
    (hi : s.calls i = .locked c row) (he : reviewError (reviewed row c.args s.now) = some e) :
    step s (.write i id) =
      some ((s.setLock c.nomination.id none).setCall i (.done c (.error (.db e)))) := by
  simp only [step, hi, he]

theorem ne_of_locked {s : State} (h : LockInv s) {i j : ℕ} {c c' : Call} {row row' : Nomination}
    (hi : (s.calls i).holds = some (c, row)) (hj : (s.calls j).holds = some (c', row'))
    (hij : i ≠ j) : c.nomination.id ≠ c'.nomination.id := by
  intro he
  have hli := (h.holder i c row hi).1
  have hlj := (h.holder j c' row' hj).1
  rw [he, hlj] at hli
  exact hij (Option.some.inj hli).symm

/-- The state after the call `i` has committed. -/
def committed (s : State) (i : ℕ) (c : Call) (row : Nomination) (at_ : Time)
    (audit : Table AuditLog) :
    State :=
  ({ s with db := { s.db with
      nominations := s.db.nominations.put (reviewed row c.args at_), audit } }.setLock
        c.nomination.id none).setCall i (.done c (.ok (reviewed row c.args at_)))

/-- **What a step does:** it leaves the calls, starts one that holds nothing but its row's lock,
writes, returns an error, or commits. -/
inductive Steps (s : State) : State → Prop
  | quiet (now : Time) (nextSeq : ℕ) : Steps s { s with now, nextSeq }
  | missing (i : ℕ) (c : Call) (idle : s.calls i = .idle)
      (row : s.db.nominations.get? c.nomination.id = none) :
      Steps s (s.setCall i (.done c (.error .doesNotExist)))
  | refused (i : ℕ) (c : Call) (row : Nomination) (idle : s.calls i = .idle)
      (read : s.db.nominations.get? c.nomination.id = some row) (reviewed : row.status ≠ .pending) :
      Steps s (s.setCall i (.done c (.error (alreadyReviewed row))))
  | locked (i : ℕ) (c : Call) (row : Nomination) (idle : s.calls i = .idle)
      (free : s.locks c.nomination.id = none)
      (read : s.db.nominations.get? c.nomination.id = some row) (pending : row.status = .pending) :
      Steps s ((s.setLock c.nomination.id (some i)).setCall i (.locked c row))
  | failed (i : ℕ) (c : Call) (row : Nomination) (held : s.calls i = .locked c row)
      (long : ¬ c.Fits) :
      Steps s ((s.setLock c.nomination.id none).setCall i (.done c (.error (.db .stringTooLong))))
  | written (i : ℕ) (c : Call) (row : Nomination) (ak : Keys) (entry : AuditLog)
      (held : s.calls i = .locked c row) (fits : c.Fits)
      (ofCall : entryOf c row s.now ak = some entry) :
      Steps s ({ s with nextSeq := s.nextSeq + 1 }.setCall i (.written c row s.now entry))
  | committed (i : ℕ) (c : Call) (row : Nomination) (at_ : Time) (entry : AuditLog)
      (audit : Table AuditLog) (held : s.calls i = .written c row at_ entry)
      (inserted : s.db.audit.insert entry = some audit) : Steps s (committed s i c row at_ audit)

theorem steps_of_step {s s' : State} {l : Label} (h : step s l = some s') : Steps s s' := by
  cases l with
  | tick d =>
    obtain rfl := Option.some.inj h
    exact .quiet _ _
  | nextval =>
    obtain rfl := Option.some.inj h
    exact .quiet _ _
  | lock i c =>
    simp only [step] at h
    split at h
    · next hidle hfree =>
      split at h
      · next hrow =>
        obtain rfl := Option.some.inj h
        exact .missing i c hidle hrow
      · next row hrow =>
        split_ifs at h with hp
        · obtain rfl := Option.some.inj h
          exact .locked i c row hidle hfree hrow hp
        · obtain rfl := Option.some.inj h
          exact .refused i c row hidle hrow hp
    · simp at h
  | write i id =>
    simp only [step] at h
    split at h
    · next c row hi =>
      obtain ⟨hfits, he⟩ | ⟨hlong, he⟩ := reviewError_reviewed c row s.now
      · rw [he] at h
        obtain ⟨entry, hentry, rfl⟩ := Option.map_eq_some_iff.mp h
        exact .written i c row _ entry hi hfits hentry
      · rw [he] at h
        obtain rfl := Option.some.inj h
        exact .failed i c row hi hlong
    · simp at h
  | commit i =>
    simp only [step] at h
    split at h
    · next c row at_ entry hi =>
      obtain ⟨db, hw, rfl⟩ := Option.map_eq_some_iff.mp h
      obtain ⟨e, he, hw⟩ := Option.bind_eq_some_iff.mp hw
      obtain ⟨audit, ha, rfl⟩ := Option.map_eq_some_iff.mp hw
      obtain rfl := Option.some.inj he
      exact .committed i c row at_ entry audit hi ha
    · simp at h

theorem id_reviewed (row : Nomination) (a : ReviewArgs) (now : Time) :
    (reviewed row a now).id = row.id := rfl

theorem reviewed_not_pending (row : Nomination) (a : ReviewArgs) (now : Time) :
    (reviewed row a now).status ≠ .pending := by
  unfold reviewed
  cases a.approve <;> simp

/-- The row that a commit leaves for a nomination. -/
theorem get?_committed {s : State} (hs : LockInv s) {i : ℕ} {c : Call} {row : Nomination}
    {at_ : Time} {entry : AuditLog} (audit : Table AuditLog)
    (hi : s.calls i = .written c row at_ entry) (id : Id) :
    (committed s i c row at_ audit).db.nominations.get? id =
      if id = c.nomination.id then some (reviewed row c.args at_)
      else s.db.nominations.get? id := by
  obtain ⟨-, hrow, -⟩ := hs.holder i c row (by rw [hi]; rfl)
  have hid : row.id = c.nomination.id := Table.key_of_get? hrow
  show (s.db.nominations.put (reviewed row c.args at_)).get? id = _
  rw [Table.get?_put, key_nomination, id_reviewed, hid]

/-- The lock invariant for a state with the same rows, in which every call that holds a row is one
that held it before or the call `i`. -/
theorem lockInv_of_holds {s s' : State} (hs : LockInv s) {i : ℕ} (hdb : s'.db = s.db)
    (hlocks : ∀ j c row, j ≠ i → (s.calls j).holds = some (c, row) →
      s'.locks c.nomination.id = s.locks c.nomination.id)
    (hcalls : ∀ j, j ≠ i → s'.calls j = s.calls j)
    (hheld : ∀ c row, (s'.calls i).holds = some (c, row) → s'.locks c.nomination.id = some i ∧
      s.db.nominations.get? c.nomination.id = some row ∧ row.status = .pending)
    (hwritten : ∀ c row at_ entry, s'.calls i = .written c row at_ entry → c.Fits ∧
      ∃ ak, entryOf c row at_ ak = some entry) : LockInv s' := by
  refine ⟨fun j c row hj => ?_, fun j c row at_ entry hj => ?_⟩
  · rw [hdb]
    by_cases hji : j = i
    · subst hji
      exact hheld c row hj
    · rw [hcalls j hji] at hj
      rw [hlocks j c row hji hj]
      exact hs.holder j c row hj
  · by_cases hji : j = i
    · subst hji
      exact hwritten c row at_ entry hj
    · rw [hcalls j hji] at hj
      exact hs.written j c row at_ entry hj

theorem lockInv_committed {s : State} (hs : LockInv s) {i : ℕ} {c : Call} {row : Nomination}
    {at_ : Time} {entry : AuditLog} (audit : Table AuditLog)
    (hi : s.calls i = .written c row at_ entry) : LockInv (committed s i c row at_ audit) := by
  have hholds : (s.calls i).holds = some (c, row) := by rw [hi]; rfl
  refine ⟨fun j c' row' hj => ?_, fun j c' row' at' entry' hj => ?_⟩
  · obtain ⟨-, hp⟩ | ⟨hne, hj⟩ := read_update_cases Phase.holds hj
    · simp [Phase.holds] at hp
    · have hother := ne_of_locked hs hj hholds hne
      obtain ⟨hlock, hheld, hp⟩ := hs.holder j c' row' hj
      rw [get?_committed hs audit hi, if_neg hother]
      refine ⟨?_, hheld, hp⟩
      show Function.update s.locks c.nomination.id none c'.nomination.id = some j
      rw [Function.update_of_ne hother, hlock]
  · obtain ⟨-, hp⟩ | ⟨-, hj⟩ := update_cases hj
    · simp at hp
    · exact hs.written j c' row' at' entry' hj

/-- A call that ends before it holds its row leaves what the others hold. -/
theorem lockInv_done {s : State} (hs : LockInv s) (i : ℕ) (c : Call)
    (r : Except Raised Nomination) :
    LockInv (s.setCall i (.done c r)) := by
  refine lockInv_of_holds (i := i) hs rfl (fun _ _ _ _ _ => rfl)
    (fun j hj => Function.update_of_ne hj ..)
    (fun c' row' hi => ?_) (fun c' row' at_ entry hi => ?_)
  · simp [State.setCall, Phase.holds] at hi
  · simp [State.setCall] at hi

/-- **The locks are kept** by every step. -/
theorem lockInv_step {s s' : State} (hs : LockInv s) (h : Steps s s') : LockInv s' := by
  cases h with
  | quiet now nextSeq => exact ⟨hs.holder, hs.written⟩
  | missing i c idle row => exact lockInv_done hs i c _
  | refused i c row idle read hreviewed => exact lockInv_done hs i c _
  | locked i c row idle free read pending =>
    refine lockInv_of_holds (i := i) hs rfl (fun j c' row' _ hj => ?_)
      (fun j hj => Function.update_of_ne hj ..) (fun c' row' hi => ?_)
      (fun c' row' at_ entry hi => by simp [State.setCall] at hi)
    · have hother : c'.nomination.id ≠ c.nomination.id := fun he => by
        have hlock := (hs.holder j c' row' hj).1
        rw [he, free] at hlock
        simp at hlock
      exact Function.update_of_ne hother ..
    · obtain ⟨-, hp⟩ | ⟨hne, -⟩ := read_update_cases Phase.holds hi
      · obtain ⟨rfl, rfl⟩ := Prod.mk.inj (Option.some.inj hp)
        exact ⟨Function.update_self .., read, pending⟩
      · exact absurd rfl hne
  | failed i c row held long =>
    refine lockInv_of_holds (i := i) hs rfl (fun j c' row' hne hj => ?_)
      (fun j hj => Function.update_of_ne hj ..)
      (fun c' row' hi => by simp [State.setCall, Phase.holds] at hi)
      (fun c' row' at_ entry hi => by simp [State.setCall] at hi)
    have hholds : (s.calls i).holds = some (c, row) := by rw [held]; rfl
    exact Function.update_of_ne (ne_of_locked hs hj hholds hne) ..
  | written i c row ak entry held fits ofCall =>
    refine lockInv_of_holds (i := i) hs rfl (fun _ _ _ _ _ => rfl)
      (fun j hj => Function.update_of_ne hj ..) (fun c' row' hi => ?_)
      (fun c' row' at_ entry' hi => ?_)
    · obtain ⟨-, hp⟩ | ⟨hne, -⟩ := read_update_cases Phase.holds hi
      · obtain ⟨rfl, rfl⟩ := Prod.mk.inj (Option.some.inj hp)
        exact hs.holder i c row (by rw [held]; rfl)
      · exact absurd rfl hne
    · obtain ⟨-, hp⟩ | ⟨hne, -⟩ := update_cases hi
      · obtain ⟨rfl, rfl, rfl, rfl⟩ := Phase.written.inj hp
        exact ⟨fits, ak, ofCall⟩
      · exact absurd rfl hne
  | committed i c row at_ entry audit held inserted => exact lockInv_committed hs audit held

/-- **A commit is the call:** it does what the call run without interruption would do on the
database it finds. -/
theorem commit_eq_reviewNomination {s s' : State} {i : ℕ} (hs : LockInv s)
    (h : step s (.commit i) = some s') : ∃ (c : Call) (row : Nomination) (at_ : Time) (ak : Keys),
      reviewNomination s.db c.args at_ ak = some (s'.db, .ok (reviewed row c.args at_)) ∧
      s'.calls i = .done c (.ok (reviewed row c.args at_)) := by
  simp only [step] at h
  split at h
  · next c row at_ entry hi =>
    obtain ⟨db, hw, rfl⟩ := Option.map_eq_some_iff.mp h
    obtain ⟨-, hrow, hp⟩ := hs.holder i c row (by rw [hi]; rfl)
    obtain ⟨hfits, ak, hentry⟩ := hs.written i c row at_ entry hi
    have hsave : reviewError (reviewed row c.args at_) = none := by
      obtain ⟨-, he⟩ | ⟨hlong, -⟩ := reviewError_reviewed c row at_
      · exact he
      · exact absurd hfits hlong
    have hlog : log ak at_ (reviewAction c.args) c.args.request (some c.args.reviewer) none
        (some (nominationTarget (reviewed row c.args at_).id))
        (reviewMetadata (reviewed row c.args at_) c.args) = some entry := hentry
    refine ⟨c, row, at_, ak, ?_, Function.update_self ..⟩
    unfold reviewNomination
    rw [show c.args.nomination = c.nomination.id from rfl, hrow]
    simp only [hp, not_true_eq_false, if_false, hsave, hlog, hw, Option.map_some]
    rfl
  · simp at h

/-! ### The decision -/

/-- The entries about a nomination after a commit. -/
theorem reviewLog_committed {s : State} (hs : LockInv s) {i : ℕ} {c : Call} {row : Nomination}
    {at_ : Time} {entry : AuditLog} {audit : Table AuditLog}
    (hi : s.calls i = .written c row at_ entry) (ha : s.db.audit.insert entry = some audit)
    (id : Id) :
    reviewLog (committed s i c row at_ audit).db id =
      if c.nomination.id = id then reviewLog s.db id ++ [entry] else reviewLog s.db id := by
  obtain ⟨-, hrow, -⟩ := hs.holder i c row (by rw [hi]; rfl)
  obtain ⟨-, ak, hentry⟩ := hs.written i c row at_ entry hi
  obtain ⟨-, -, haction, htarget, -⟩ := log_eq_some hentry
  have hid : row.id = c.nomination.id := Table.key_of_get? hrow
  have hrows : (committed s i c row at_ audit).db.audit.rows = s.db.audit.rows ++ [entry] :=
    (Table.insert_eq_some.mp ha).2
  have hiff : IsReview id entry ↔ c.nomination.id = id := by
    have hact : entry.action = .nominationApproved ∨ entry.action = .nominationRejected := by
      rw [haction, reviewAction]
      cases c.args.approve <;> simp
    rw [IsReview, htarget, Option.some.injEq, nominationTarget, nominationTarget,
      Target.mk.injEq, hid]
    exact ⟨fun h => h.2.2, fun h => ⟨hact, rfl, h⟩⟩
  unfold reviewLog
  rw [hrows, List.filter_append, List.filter_singleton]
  split_ifs with hk
  · rw [decide_eq_true (hiff.mpr hk)]
    rfl
  · rw [decide_eq_false fun h => hk (hiff.mp h)]
    exact List.append_nil _

/-- What a call returns that does not commit. -/
inductive Answer (db : Database) (c : Call) : Except Raised Nomination → Prop
  | missing (row : db.nominations.get? c.nomination.id = none) : Answer db c (.error .doesNotExist)
  | reviewed (row : Nomination) (read : db.nominations.get? c.nomination.id = some row)
      (decided : row.status ≠ .pending) : Answer db c (.error (alreadyReviewed row))
  | tooLong (long : ¬ c.Fits) : Answer db c (.error (.db .stringTooLong))

/-- What has returned after a call that had not returned has moved to the phase `p`. -/
theorem done_update {calls : ℕ → Phase} {db : Database} {i : ℕ} {p : Phase}
    (hi : ∀ c r, calls i ≠ .done c r) (hp : ∀ c r, p = .done c r → Answer db c r) :
    (∀ j c r, calls j = .done c r → Function.update calls i p j = .done c r) ∧
      ∀ j c r, Function.update calls i p j = .done c r → calls j = .done c r ∨ Answer db c r := by
  refine ⟨fun j c r hj => ?_, fun j c r hj => ?_⟩
  · have hji : j ≠ i := fun he => hi c r (he ▸ hj)
    rw [Function.update_of_ne hji, hj]
  · obtain ⟨-, hp'⟩ | ⟨-, hold⟩ := update_cases hj
    · exact Or.inr (hp c r hp')
    · exact Or.inl hold

/-- **A step is a commit, or leaves the database** and what has returned, and a call that returns
gets its answer. -/
theorem steps_cases {s s' : State} (h : Steps s s') :
    (s'.db = s.db ∧ (∀ j c r, s.calls j = .done c r → s'.calls j = .done c r) ∧
      ∀ j c r, s'.calls j = .done c r → s.calls j = .done c r ∨ Answer s.db c r) ∨
    ∃ i c row at_ entry audit, s.calls i = .written c row at_ entry ∧
      s.db.audit.insert entry = some audit ∧ s' = committed s i c row at_ audit := by
  cases h with
  | quiet now nextSeq => exact Or.inl ⟨rfl, fun _ _ _ h => h, fun _ _ _ h => Or.inl h⟩
  | missing i c idle row =>
    refine Or.inl ⟨rfl, done_update (by simp [idle]) fun c' r hp => ?_⟩
    obtain ⟨rfl, rfl⟩ := Phase.done.inj hp
    exact .missing row
  | refused i c row idle read decided =>
    refine Or.inl ⟨rfl, done_update (by simp [idle]) fun c' r hp => ?_⟩
    obtain ⟨rfl, rfl⟩ := Phase.done.inj hp
    exact .reviewed row read decided
  | locked i c row idle free read pending =>
    exact Or.inl ⟨rfl, done_update (by simp [idle]) (by simp)⟩
  | failed i c row held long =>
    refine Or.inl ⟨rfl, done_update (by simp [held]) fun c' r hp => ?_⟩
    obtain ⟨rfl, rfl⟩ := Phase.done.inj hp
    exact .tooLong long
  | written i c row ak entry held fits ofCall =>
    exact Or.inl ⟨rfl, done_update (by simp [held]) (by simp)⟩
  | committed i c row at_ entry audit held inserted =>
    exact Or.inr ⟨i, c, row, at_, entry, audit, held, inserted, rfl⟩

/-- What has returned after a commit. -/
theorem done_committed {s : State} {i : ℕ} {c : Call} {row : Nomination} {at_ : Time}
    {audit : Table AuditLog} {j : ℕ} {d : Call} {r : Except Raised Nomination}
    (h : (committed s i c row at_ audit).calls j = .done d r) :
    (j = i ∧ d = c) ∨ (j ≠ i ∧ s.calls j = .done d r) := by
  obtain ⟨hj, hp⟩ | ⟨hj, hp⟩ := update_cases h
  · exact Or.inl ⟨hj, (Phase.done.inj hp).1.symm⟩
  · exact Or.inr ⟨hj, hp⟩

/-- **The first commit decides** an undecided nomination. -/
theorem decidedBy_commit {s : State} (hs : LockInv s) {n : Nomination} (hu : Undecided n s) {i : ℕ}
    {c : Call} {row : Nomination} {at_ : Time} {entry : AuditLog} {audit : Table AuditLog}
    (hi : s.calls i = .written c row at_ entry) (ha : s.db.audit.insert entry = some audit)
    (hid : c.nomination.id = n.id) : DecidedBy n (committed s i c row at_ audit) i c at_ := by
  obtain ⟨-, hrow, -⟩ := hs.holder i c row (by rw [hi]; rfl)
  rw [hid, hu.row] at hrow
  obtain rfl := Option.some.inj hrow
  obtain ⟨-, ak, hentry⟩ := hs.written i c n at_ entry hi
  obtain ⟨-, -, haction, -, hmeta, hactor, -⟩ := log_eq_some hentry
  refine ⟨⟨Function.update_self .., hid⟩, ⟨?_, entry, ?_, haction, hactor, hmeta⟩, ?_⟩
  · rw [get?_committed hs audit hi, if_pos hid.symm]
  · rw [reviewLog_committed hs hi ha, if_pos hid, hu.unlogged]
    rfl
  · rintro j d r hj ⟨hret, hd⟩
    obtain ⟨rfl, -⟩ | ⟨-, hold⟩ := done_committed hret
    · exact absurd rfl hj
    · exact Or.inr (hu.returned j d r ⟨hold, hd⟩)

theorem undecided_step {s s' : State} (hs : LockInv s) {n : Nomination} (hp : n.status = .pending)
    (hu : Undecided n s) (h : Steps s s') : Undecided n s' ∨ ∃ i c at_, DecidedBy n s' i c at_ := by
  obtain ⟨hdb, -, hret⟩ | ⟨i, c, row, at_, entry, audit, hi, ha, rfl⟩ := steps_cases h
  · refine Or.inl ⟨hdb ▸ hu.row, hdb ▸ hu.unlogged, ?_⟩
    rintro j d r ⟨hj, hd⟩
    obtain hold | hnew := hret j d r hj
    · exact hu.returned j d r ⟨hold, hd⟩
    · cases hnew with
      | missing row =>
        rw [hd, hu.row] at row
        simp at row
      | reviewed row read decided =>
        rw [hd, hu.row] at read
        obtain rfl := Option.some.inj read
        exact absurd hp decided
      | tooLong long => exact ⟨long, rfl⟩
  · by_cases hid : c.nomination.id = n.id
    · exact Or.inr ⟨i, c, at_, decidedBy_commit hs hu hi ha hid⟩
    · refine Or.inl ⟨?_, ?_, ?_⟩
      · rw [get?_committed hs audit hi, if_neg (Ne.symm hid), hu.row]
      · rw [reviewLog_committed hs hi ha, if_neg hid, hu.unlogged]
      · rintro j d r ⟨hj, hd⟩
        obtain ⟨-, rfl⟩ | ⟨-, hold⟩ := done_committed hj
        · exact absurd hd hid
        · exact hu.returned j d r ⟨hold, hd⟩

/-- The lock of a row that is not pending is free, so a commit is about another row. -/
theorem ne_of_reviewed {s : State} (hs : LockInv s) {id : Id} {row row' : Nomination}
    (hrow : s.db.nominations.get? id = some row) (hp : row.status ≠ .pending) {i : ℕ} {c : Call}
    (hi : (s.calls i).holds = some (c, row')) : c.nomination.id ≠ id := by
  intro he
  obtain ⟨-, hread, hp'⟩ := hs.holder i c row' hi
  rw [he, hrow] at hread
  obtain rfl := Option.some.inj hread
  exact hp hp'

/-- **A nomination that is reviewed is not touched again.** -/
theorem row_kept {s s' : State} (hs : LockInv s) {id : Id} {row : Nomination}
    (hrow : s.db.nominations.get? id = some row) (hp : row.status ≠ .pending) (h : Steps s s') :
    s'.db.nominations.get? id = some row := by
  obtain ⟨hdb, -⟩ | ⟨i, c, row', at_, entry, audit, hi, -, rfl⟩ := steps_cases h
  · rw [hdb, hrow]
  · have hother := ne_of_reviewed hs hrow hp (i := i) (by rw [hi]; rfl)
    rw [get?_committed hs audit hi, if_neg (Ne.symm hother), hrow]

/-- **The decision is kept:** whoever comes later is refused. -/
theorem decidedBy_step {s s' : State} (hs : LockInv s) {n : Nomination} {i : ℕ} {c : Call}
    {at_ : Time} (hd : DecidedBy n s i c at_) (h : Steps s s') : DecidedBy n s' i c at_ := by
  have hreviewed := reviewed_not_pending n c.args at_
  have hrow := row_kept hs hd.decision.row hreviewed h
  obtain ⟨e, hlog, hsays⟩ := hd.decision.entry
  obtain ⟨hdb, hkept, hret⟩ | ⟨k, c', row, at', entry, audit, hk, ha, rfl⟩ := steps_cases h
  · refine ⟨⟨hkept i c _ hd.winner.1, hd.winner.2⟩, ⟨hrow, e, hdb ▸ hlog, hsays⟩, ?_⟩
    rintro j d r hji ⟨hj, hid⟩
    obtain hold | hnew := hret j d r hj
    · exact hd.others j d r hji ⟨hold, hid⟩
    · cases hnew with
      | missing row =>
        rw [hid, hd.decision.row] at row
        simp at row
      | reviewed row read decided =>
        rw [hid, hd.decision.row] at read
        obtain rfl := Option.some.inj read
        exact Or.inl rfl
      | tooLong long => exact Or.inr ⟨long, rfl⟩
  · have hother := ne_of_reviewed hs hd.decision.row hreviewed (i := k) (by rw [hk]; rfl)
    have hik : i ≠ k := fun he => by
      rw [← he, hd.winner.1] at hk
      simp at hk
    refine ⟨⟨(Function.update_of_ne hik ..).trans hd.winner.1, hd.winner.2⟩,
      ⟨hrow, e, ?_, hsays⟩, ?_⟩
    · rw [reviewLog_committed hs hk ha, if_neg hother, hlog]
    · rintro j d r hji ⟨hj, hid⟩
      obtain ⟨-, rfl⟩ | ⟨-, hold⟩ := done_committed hj
      · exact absurd hid hother
      · exact hd.others j d r hji ⟨hold, hid⟩

/-! ### From a pending nomination -/

/-- No call has begun, and the nomination is pending and without an entry about a review. -/
structure Start (n : Nomination) (s : State) : Prop where
  idle : ∀ i, s.calls i = .idle
  row : s.db.nominations.get? n.id = some n
  pending : n.status = .pending
  unlogged : reviewLog s.db n.id = []

/-- **A submitted nomination** is such a nomination. -/
theorem start_of_created {lib : PhoneNumbers} {clean : Bool → String → String}
    {upper : String → String}
    {captcha : Bool} {db db' : Database} {a : SubmissionAttrs} {request : Request} {now : Time}
    {nominee : Id} {nk ak : Keys} {n : Nomination} {nextSeq : ℕ}
    (h : createNomination lib clean upper captcha db a request now nominee nk ak =
      some (db', .ok n))
    (hnew : ∀ e ∈ db.audit.rows, e.target ≠ some (nominationTarget n.id)) :
    Start n { db := db', now, nextSeq } := by
  obtain ⟨-, e, he⟩ | ⟨s, nominees, nominations, audit, e, -, -, hn, he, ha, hok, rfl⟩ :=
    createNomination_cases h
  · simp at he
  · obtain rfl := Except.ok.inj hok
    refine ⟨fun _ => rfl, ?_, rfl, ?_⟩
    · rw [Table.get?_of_insert hn, key_nomination, if_pos rfl]
    · unfold reviewLog
      rw [List.filter_eq_nil_iff]
      intro e' he' hreview
      replace hreview := of_decide_eq_true hreview
      rw [ha] at he'
      rcases List.mem_append.mp he' with hold | hnew'
      · exact hnew e' hold hreview.2
      · obtain rfl := List.mem_singleton.mp hnew'
        have haction := (log_eq_some he).2.2.1
        rw [IsReview, haction] at hreview
        simp at hreview

/-- **A nomination is decided exactly once**, in every state that any interleaving of calls reaches.
Until a call whose reason fits returns, the nomination is as it was; then one call has decided it,
the row and the entry are that call's, the others were refused, and this stays so. -/
theorem decided_once {n : Nomination} {s s' : State} {l : List Label} (hs : Start n s)
    (hr : run step s l = some s') :
    (Undecided n s' ∨ ∃ i c at_, DecidedBy n s' i c at_) ∧
      (∀ i c at_, DecidedBy n s' i c at_ → ∀ l' s'', run step s' l' = some s'' →
        DecidedBy n s'' i c at_) ∧
      ∀ id row, s'.db.nominations.get? id = some row → row.status ≠ .pending →
        ∀ l' s'', run step s' l' = some s'' → s''.db.nominations.get? id = some row := by
  have hlock : LockInv s :=
    ⟨fun i c row hi => by simp [hs.idle i, Phase.holds] at hi,
      fun i c row at_ entry hi => by simp [hs.idle i] at hi⟩
  have hstart : Undecided n s :=
    ⟨hs.row, hs.unlogged, fun j c r hret => by simp [Returned, hs.idle j] at hret⟩
  have hboth : LockInv s' ∧ (Undecided n s' ∨ ∃ i c at_, DecidedBy n s' i c at_) := by
    refine run_inv (fun s => LockInv s ∧ (Undecided n s ∨ ∃ i c at_, DecidedBy n s i c at_))
      (fun m label m' hm hk => ?_) ⟨hlock, Or.inl hstart⟩ hr
    have hk := steps_of_step hk
    refine ⟨lockInv_step hm.1 hk, ?_⟩
    obtain hu | ⟨i, c, at_, hd⟩ := hm.2
    · exact undecided_step hm.1 hs.pending hu hk
    · exact Or.inr ⟨i, c, at_, decidedBy_step hm.1 hd hk⟩
  refine ⟨hboth.2, fun i c at_ hd l' s'' hr' => ?_, fun id row hrow hp l' s'' hr' => ?_⟩
  · have hkept : LockInv s'' ∧ DecidedBy n s'' i c at_ :=
      run_inv (fun s => LockInv s ∧ DecidedBy n s i c at_)
        (fun m label m' hm hk =>
          ⟨lockInv_step hm.1 (steps_of_step hk), decidedBy_step hm.1 hm.2 (steps_of_step hk)⟩)
        ⟨hboth.1, hd⟩ hr'
    exact hkept.2
  · have hkept : LockInv s'' ∧ s''.db.nominations.get? id = some row :=
      run_inv (fun s => LockInv s ∧ s.db.nominations.get? id = some row)
        (fun m label m' hm hk =>
          ⟨lockInv_step hm.1 (steps_of_step hk), row_kept hm.1 hm.2 hp (steps_of_step hk)⟩)
        ⟨hboth.1, hrow⟩ hr'
    exact hkept.2

/-- A nomination waits for its review. -/
def waiting : Nomination := { id := 42, nominee := 30, award := 20 }

def waitingDb : Database :=
  { galaDb with nominations := ⟨galaDb.nominations.rows ++ [waiting], by decide⟩ }

theorem start_waiting : Start waiting { db := waitingDb, now := 5, nextSeq := 1 } :=
  ⟨fun _ => rfl, by rfl, rfl, by rfl⟩

def approval : Call where
  nomination := waiting
  approve := true
  reviewer := 7
  reasoned := Or.inl rfl

def rejection : Call where
  nomination := waiting
  approve := false
  reviewer := 8
  reason := "Off topic"
  reasoned := Or.inr (by decide)

/-- Two reviewers have the nomination on their screens; the rejection comes while the approval holds
the lock. -/
def race : List Label :=
  [.lock 0 approval, .write 0 70, .tick 2, .commit 0, .lock 1 rejection]

theorem decided_once_race :
    ∃ s', run step { db := waitingDb, now := 5, nextSeq := 1 } race = some s' ∧
    ∃ i c at_, DecidedBy waiting s' i c at_ := by
  have hr : (run step { db := waitingDb, now := 5, nextSeq := 1 } race).map
      (fun s => s.db.nominations.get? 42) = some (some (reviewed waiting approval.args 5)) := by rfl
  obtain ⟨s', hs', hrow⟩ := Option.map_eq_some_iff.mp hr
  refine ⟨s', hs', ((decided_once start_waiting hs').1).resolve_left fun hu => ?_⟩
  have hsame : some waiting = some (reviewed waiting approval.args 5) := hu.row.symm.trans hrow
  exact absurd hsame (by decide)

/-- `n` times the letter U+0958, which NFC writes in two code points. -/
def reasonOf (n : ℕ) : String :=
  String.ofList (List.replicate n ['\u0915', '\u093c']).flatten

theorem length_reasonOf (n : ℕ) : (reasonOf n).length = 2 * n := by
  rw [reasonOf, String.length_ofList, List.length_flatten, List.map_replicate, List.sum_replicate]
  simp [Nat.mul_comm]

/-- The raw reason has 251 characters, which the serializer takes. -/
def longRejection : Call where
  nomination := waiting
  approve := false
  reviewer := 8
  reason := reasonOf 251
  reasoned := Or.inr fun h => by
    have hlen := length_reasonOf 251
    rw [h] at hlen
    simp at hlen

theorem reason_longRejection : longRejection.reason = reasonOf 251 := rfl

/-- The rejection has the lock. -/
def longLocked : State :=
  ({ db := waitingDb, now := 5, nextSeq := 1 : State }.setLock 42 (some 0)).setCall 0
    (.locked longRejection waiting)

/-- The rejection has been refused. -/
def longRefused : State :=
  (longLocked.setLock 42 none).setCall 0 (.done longRejection (.error (.db .stringTooLong)))

/-- **A reason that does not fit decides nothing:** the only call has ended with the database's
error, and the nomination is pending. -/
theorem undecided_long : ∃ s', run step { db := waitingDb, now := 5, nextSeq := 1 }
    [.lock 0 longRejection, .write 0 70] = some s' ∧
      Returned s' waiting.id 0 longRejection (.error (.db .stringTooLong)) ∧
      (∀ i, i ≠ 0 → s'.calls i = .idle) ∧ s'.db.nominations.get? waiting.id = some waiting := by
  have hlong : ¬ longRejection.Fits := by
    rintro (h | h)
    · exact Bool.noConfusion h
    · rw [reason_longRejection, length_reasonOf] at h
      omega
  have herr : reviewError (reviewed waiting longRejection.args 5) = some .stringTooLong :=
    ((reviewError_reviewed longRejection waiting 5).resolve_left fun h => hlong h.1).2
  have hlock : step { db := waitingDb, now := 5, nextSeq := 1 } (.lock 0 longRejection) =
      some longLocked := by rfl
  have hwrite : step longLocked (.write 0 70) = some longRefused := step_write_failed (by rfl) herr
  refine ⟨longRefused, ?_, ⟨by rfl, rfl⟩, fun i hi => ?_, by rfl⟩
  · rw [run_cons, hlock, Option.bind_some, run_cons, hwrite, Option.bind_some, run_nil]
  · exact (Function.update_of_ne hi ..).trans (Function.update_of_ne hi ..)

end KwAwards.Nominations.ReviewOnce
