import KwAwards.Lib.Run
import KwAwards.Lib.Walk
import KwAwards.Events.Services
import KwAwards.Events.Views

/-! # The audit trail of an event's status

Any number of calls of `change_status` run interleaved, each as the transaction it is: it takes the
lock of its event's row and rereads it (`lock`), saves the row and inserts the entry with the next
number of the sequence (`write`), and makes both visible (`commit`). Between its `lock` and its
`commit` no other call has the lock, so a commit does what `changeStatus` does on the database it
finds (`commit_eq_changeStatus`).

The entries about an event, in the order of their numbers, are then a walk of the status machine
from the draft to the status the event has (`statusTrail`). -/

namespace KwAwards.Events.StatusTrail

open KwAwards.Lib.Tables KwAwards.Lib.Run KwAwards.Lib.Walk KwAwards.Common.Base
open KwAwards.Common.Exceptions KwAwards.Audit.Log KwAwards.Events.Models
open KwAwards.Events.Serializers KwAwards.Events.Services KwAwards.Events.Views KwAwards.Store

/-- The arguments of a call. -/
structure Call where
  event : Id
  new : EventStatus
  request : Option Request := none
  deriving DecidableEq, Repr

/-- Where a call stands; `row` is the row as reread under the lock, `at_` the instant of the
save. -/
inductive Phase
  | idle
  | locked (c : Call) (row : Event)
  | written (c : Call) (row : Event) (at_ : Time) (entry : AuditLog)
  | done (r : Except Raised Event)

/-- The call and the row of a call that has the lock. -/
def Phase.holds : Phase → Option (Call × Event)
  | .locked c row => some (c, row)
  | .written c row _ _ => some (c, row)
  | _ => none

/-- The committed database, the clock, the sequence of the audit table, the row locks and the
calls. -/
structure State where
  db : Database
  now : Time
  nextSeq : ℕ
  locks : Id → Option ℕ := fun _ => none
  calls : ℕ → Phase := fun _ => .idle

def State.setCall (s : State) (i : ℕ) (p : Phase) : State :=
  { s with calls := Function.update s.calls i p }

def State.setLock (s : State) (event : Id) (holder : Option ℕ) : State :=
  { s with locks := Function.update s.locks event holder }

/-- What can happen; `nextval` is a number of the sequence that goes to another transaction. -/
inductive Label
  | tick (d : ℕ)
  | nextval
  | lock (i : ℕ) (c : Call)
  | write (i : ℕ) (id : Id)
  | commit (i : ℕ)

/-- The entry of a call. -/
def entryOf (c : Call) (row : Event) (now : Time) (ak : Keys) : Option AuditLog :=
  log ak now .eventStatusChanged c.request none none (some (eventTarget c.event))
    (statusMetadata row.status c.new)

def step (s : State) : Label → Option State
  | .tick d => some { s with now := s.now + d }
  | .nextval => some { s with nextSeq := s.nextSeq + 1 }
  | .lock i c =>
    match s.calls i, s.locks c.event with
    | .idle, none =>
      match s.db.events.get? c.event with
      | none => some (s.setCall i (.done (.error .doesNotExist)))
      | some row =>
        match statusError row c.new with
        | some e => some (s.setCall i (.done (.error (.api e))))
        | none => some ((s.setLock c.event (some i)).setCall i (.locked c row))
    | _, _ => none
  | .write i id =>
    match s.calls i with
    | .locked c row =>
      (entryOf c row s.now ⟨id, s.nextSeq⟩).map fun entry =>
        { s with nextSeq := s.nextSeq + 1 }.setCall i (.written c row s.now entry)
    | _ => none
  | .commit i =>
    match s.calls i with
    | .written c row at_ entry =>
      (({ s.db with events := saveStatus s.db.events c.event c.new at_ } : Database).write
        (some entry)).map fun db =>
          (({ s with db }.setLock c.event none).setCall i (.done (.ok (withStatus row c.new at_))))
    | _ => none

/-! ### The trail of an event -/

/-- The entries about the status of an event. -/
def statusLog (db : Database) (event : Id) : List AuditLog :=
  db.audit.rows.filter fun e =>
    decide (e.action = .eventStatusChanged) && decide (e.target = some (eventTarget event))

/-- The entries in the order of their numbers. -/
def trail (db : Database) (event : Id) : List AuditLog :=
  (statusLog db event).mergeSort fun a b => a.seq ≤ b.seq

/-- An edge of the status machine. -/
def Edge (a b : EventStatus) : Prop := b ∈ statusTransitions a

/-- What the entries of a walk say: `from` and `to`. -/
def walkMetadata (path : List (EventStatus × EventStatus)) : List Metadata :=
  path.map fun p => statusMetadata p.1 p.2

/-- The status of an event. -/
def statusOf (db : Database) (event : Id) : Option EventStatus :=
  (db.events.get? event).map Event.status

/-- **The trail is the event's history:** a walk of the status machine from the draft to its status,
and results have a publication time exactly while they are published. -/
def TrailFaithful (db : Database) (event : Id) : Prop :=
  ∃ row path, db.events.get? event = some row ∧
    (trail db event).map AuditLog.metadata = walkMetadata path ∧
    IsWalk Edge .draft path row.status ∧
    (row.resultsPublishedAt.isSome = true ↔ row.status = .resultsPublished)

/-! ### The invariant -/

/-- What is known of the entry of a call that has written it. -/
structure Pending (s : State) (c : Call) (row : Event) (at_ : Time) (entry : AuditLog) : Prop where
  ofCall : ∃ ak, entryOf c row at_ ak = some entry
  below : entry.seq < s.nextSeq
  later : ∀ e ∈ statusLog s.db c.event, e.seq < entry.seq

/-- The lock of a row belongs to the call that holds the row, and the row is as that call read
it. -/
structure LockInv (s : State) : Prop where
  below : ∀ e ∈ s.db.audit.rows, e.seq < s.nextSeq
  holder : ∀ i c row, (s.calls i).holds = some (c, row) → s.locks c.event = some i ∧
    s.db.events.get? c.event = some row ∧ statusError row c.new = none
  pending : ∀ i c row at_ entry, s.calls i = .written c row at_ entry →
    Pending s c row at_ entry

/-- What the committed entries about an event say. -/
structure TrailInv (event : Id) (db : Database) : Prop where
  ordered : (statusLog db event).Pairwise fun a b => a.seq < b.seq
  history : ∃ row path, db.events.get? event = some row ∧
    (statusLog db event).map AuditLog.metadata = walkMetadata path ∧
    IsWalk Edge .draft path row.status ∧
    (row.resultsPublishedAt.isSome = true ↔ row.status = .resultsPublished)

theorem trail_of_ordered {db : Database} {event : Id}
    (h : (statusLog db event).Pairwise fun a b => a.seq < b.seq) :
    trail db event = statusLog db event := by
  unfold trail
  refine List.mergeSort_of_pairwise (h.imp fun hab => ?_)
  exact decide_eq_true hab.le

theorem TrailInv.faithful {db : Database} {event : Id} (h : TrailInv event db) :
    TrailFaithful db event := by
  obtain ⟨row, path, hrow, hmeta, hwalk⟩ := h.history
  refine ⟨row, path, hrow, ?_, hwalk⟩
  rw [trail_of_ordered h.ordered]
  exact hmeta

theorem statusLog_append {db db' : Database} {c : Call} {row : Event} {at_ : Time} {ak : Keys}
    {e : AuditLog} (event : Id) (h : db'.audit.rows = db.audit.rows ++ [e])
    (he : entryOf c row at_ ak = some e) : statusLog db' event =
      if c.event = event then statusLog db event ++ [e] else statusLog db event := by
  obtain ⟨-, -, haction, htarget, -⟩ := log_eq_some he
  have hiff : e.target = some (eventTarget event) ↔ c.event = event := by
    rw [htarget, Option.some.injEq, eventTarget, eventTarget, Target.mk.injEq]
    exact and_iff_right rfl
  unfold statusLog
  rw [h, List.filter_append, List.filter_singleton, decide_eq_true haction, Bool.true_and]
  split_ifs with hk
  · rw [decide_eq_true (hiff.mpr hk)]
    rfl
  · rw [decide_eq_false fun h => hk (hiff.mp h)]
    exact List.append_nil _

/-! ### One step -/

@[simp] theorem calls_setCall (s : State) (i : ℕ) (p : Phase) :
    (s.setCall i p).calls = Function.update s.calls i p := rfl

theorem ne_of_locked {s : State} (h : LockInv s) {i j : ℕ} {c c' : Call} {row row' : Event}
    (hi : (s.calls i).holds = some (c, row)) (hj : (s.calls j).holds = some (c', row'))
    (hij : i ≠ j) : c.event ≠ c'.event := by
  intro he
  have hli := (h.holder i c row hi).1
  have hlj := (h.holder j c' row' hj).1
  rw [he, hlj] at hli
  exact hij (Option.some.inj hli).symm

/-- The state after the call `i` has committed. -/
def committed (s : State) (i : ℕ) (c : Call) (row : Event) (at_ : Time) (audit : Table AuditLog) :
    State :=
  ({ s with db := { s.db with
      events := saveStatus s.db.events c.event c.new at_, audit } }.setLock c.event none).setCall i
    (.done (.ok (withStatus row c.new at_)))

/-- **What a step does:** it commits a call that has written, or leaves the database. -/
theorem step_cases {s s' : State} {l : Label} (h : step s l = some s') :
    ((∀ i, l ≠ .commit i) ∧ s'.db = s.db) ∨ ∃ i c row at_ entry audit, l = .commit i ∧
      s.calls i = .written c row at_ entry ∧ s.db.audit.insert entry = some audit ∧
      s' = committed s i c row at_ audit := by
  cases l with
  | tick d =>
    obtain rfl := Option.some.inj h
    exact Or.inl ⟨by simp, rfl⟩
  | nextval =>
    obtain rfl := Option.some.inj h
    exact Or.inl ⟨by simp, rfl⟩
  | lock i c =>
    refine Or.inl ⟨by simp, ?_⟩
    simp only [step] at h
    split at h
    · split at h
      · obtain rfl := Option.some.inj h; rfl
      · split at h <;> (obtain rfl := Option.some.inj h; rfl)
    · simp at h
  | write i id =>
    refine Or.inl ⟨by simp, ?_⟩
    simp only [step] at h
    split at h
    · obtain ⟨entry, -, rfl⟩ := Option.map_eq_some_iff.mp h
      rfl
    · simp at h
  | commit i =>
    refine Or.inr ?_
    simp only [step] at h
    split at h
    · next c row at_ entry hi =>
      obtain ⟨db, hw, rfl⟩ := Option.map_eq_some_iff.mp h
      obtain ⟨e, he, hw⟩ := Option.bind_eq_some_iff.mp hw
      obtain ⟨audit, ha, rfl⟩ := Option.map_eq_some_iff.mp hw
      obtain rfl := Option.some.inj he
      exact ⟨i, c, row, at_, entry, audit, rfl, hi, ha, rfl⟩
    · simp at h

/-- The entry of a call has a number above those of the entries that are there. -/
theorem pending_of_entry {s : State} {c : Call} {row : Event} {id : Id} {entry : AuditLog}
    (hs : LockInv s) (h : entryOf c row s.now ⟨id, s.nextSeq⟩ = some entry) :
    Pending { s with nextSeq := s.nextSeq + 1 } c row s.now entry := by
  have hseq : entry.seq = s.nextSeq := (log_eq_some h).2.1
  refine ⟨⟨_, h⟩, ?_, fun e he => ?_⟩
  · show entry.seq < s.nextSeq + 1
    omega
  · rw [hseq]
    exact hs.below e (List.mem_of_mem_filter he)

theorem Pending.mono {s s' : State} {c : Call} {row : Event} {at_ : Time} {entry : AuditLog}
    (h : Pending s c row at_ entry) (hn : s.nextSeq ≤ s'.nextSeq)
    (hlog : statusLog s'.db c.event = statusLog s.db c.event) : Pending s' c row at_ entry :=
  ⟨h.ofCall, h.below.trans_le hn, hlog ▸ h.later⟩

/-- A call that is refused holds nothing, before and after. -/
theorem lockInv_refused {s : State} (hs : LockInv s) (i : ℕ) (r : Except Raised Event) :
    LockInv (s.setCall i (.done r)) := by
  refine ⟨hs.below, fun j c row hj => ?_, fun j c row at_ entry hj => ?_⟩
  · obtain ⟨-, hp⟩ | ⟨-, hj⟩ := read_update_cases Phase.holds hj
    · simp [Phase.holds] at hp
    · exact hs.holder j c row hj
  · obtain ⟨-, hp⟩ | ⟨-, hj⟩ := update_cases hj
    · simp at hp
    · exact (hs.pending j c row at_ entry hj).mono le_rfl rfl

theorem lockInv_locked {s : State} (hs : LockInv s) {i : ℕ} {c : Call} {row : Event}
    (hfree : s.locks c.event = none) (hrow : s.db.events.get? c.event = some row)
    (herr : statusError row c.new = none) :
    LockInv ((s.setLock c.event (some i)).setCall i (.locked c row)) := by
  refine ⟨hs.below, fun j c' row' hj => ?_, fun j c' row' at_ entry hj => ?_⟩
  · show Function.update s.locks c.event (some i) c'.event = some j ∧ _
    obtain ⟨rfl, hp⟩ | ⟨hne, hj⟩ := read_update_cases Phase.holds hj
    · obtain ⟨rfl, rfl⟩ := Prod.mk.inj (Option.some.inj hp)
      exact ⟨Function.update_self .., hrow, herr⟩
    · obtain ⟨hlock, hheld⟩ := hs.holder j c' row' hj
      have hother : c'.event ≠ c.event := fun he => by
        rw [he, hfree] at hlock
        simp at hlock
      rw [Function.update_of_ne hother]
      exact ⟨hlock, hheld⟩
  · obtain ⟨-, hp⟩ | ⟨-, hj⟩ := update_cases hj
    · simp at hp
    · exact (hs.pending j c' row' at_ entry hj).mono le_rfl rfl

theorem lockInv_written {s : State} (hs : LockInv s) {i : ℕ} {c : Call} {row : Event} {id : Id}
    {entry : AuditLog} (hi : s.calls i = .locked c row)
    (he : entryOf c row s.now ⟨id, s.nextSeq⟩ = some entry) :
    LockInv ({ s with nextSeq := s.nextSeq + 1 }.setCall i (.written c row s.now entry)) := by
  refine ⟨fun e hmem => (hs.below e hmem).trans (Nat.lt_succ_self _), fun j c' row' hj => ?_,
    fun j c' row' at_ entry' hj => ?_⟩
  · obtain ⟨rfl, hp⟩ | ⟨-, hj⟩ := read_update_cases Phase.holds hj
    · obtain ⟨rfl, rfl⟩ := Prod.mk.inj (Option.some.inj hp)
      exact hs.holder j c row (by rw [hi]; rfl)
    · exact hs.holder j c' row' hj
  · obtain ⟨-, hp⟩ | ⟨-, hj⟩ := update_cases hj
    · obtain ⟨rfl, rfl, rfl, rfl⟩ := Phase.written.inj hp
      exact (pending_of_entry hs he).mono le_rfl rfl
    · exact (hs.pending j c' row' at_ entry' hj).mono (Nat.le_succ _) rfl

theorem lockInv_committed {s : State} (hs : LockInv s) {i : ℕ} {c : Call} {row : Event} {at_ : Time}
    {entry : AuditLog} {audit : Table AuditLog} (hi : s.calls i = .written c row at_ entry)
    (ha : audit.rows = s.db.audit.rows ++ [entry]) : LockInv (committed s i c row at_ audit) := by
  have hpend := hs.pending i c row at_ entry hi
  have hholds : (s.calls i).holds = some (c, row) := by rw [hi]; rfl
  have hother : ∀ j c' row', j ≠ i → (s.calls j).holds = some (c', row') → c.event ≠ c'.event :=
    fun j c' row' hne hj => ne_of_locked hs hholds hj hne.symm
  refine ⟨fun e hmem => ?_, fun j c' row' hj => ?_, fun j c' row' at' entry' hj => ?_⟩
  · replace hmem : e ∈ audit.rows := hmem
    rw [ha] at hmem
    rcases List.mem_append.mp hmem with hmem | hmem
    · exact hs.below e hmem
    · rw [List.mem_singleton.mp hmem]
      exact hpend.below
  · show Function.update s.locks c.event none c'.event = some j ∧
      (saveStatus s.db.events c.event c.new at_).get? c'.event = some row' ∧ _
    obtain ⟨-, hp⟩ | ⟨hne, hj⟩ := read_update_cases Phase.holds hj
    · simp [Phase.holds] at hp
    · have hev := (hother j c' row' hne hj).symm
      obtain ⟨hlock, hheld, herr⟩ := hs.holder j c' row' hj
      rw [Function.update_of_ne hev, get?_saveStatus, if_neg hev]
      exact ⟨hlock, hheld, herr⟩
  · obtain ⟨-, hp⟩ | ⟨hne, hj⟩ := update_cases hj
    · simp at hp
    · replace hj : s.calls j = .written c' row' at' entry' := hj
      have hev := hother j c' row' hne (by rw [hj]; rfl)
      refine (hs.pending j c' row' at' entry' hj).mono le_rfl ?_
      have hrows : (committed s i c row at_ audit).db.audit.rows = s.db.audit.rows ++ [entry] := ha
      obtain ⟨ak, hentry⟩ := hpend.ofCall
      rw [statusLog_append c'.event hrows hentry, if_neg hev]

/-- **The locks are kept** by every step. -/
theorem lockInv_step {s s' : State} {l : Label} (hs : LockInv s) (h : step s l = some s') :
    LockInv s' := by
  cases l with
  | tick d =>
    obtain rfl := Option.some.inj h
    exact ⟨hs.below, hs.holder, fun i c row at_ entry hi =>
      (hs.pending i c row at_ entry hi).mono le_rfl rfl⟩
  | nextval =>
    obtain rfl := Option.some.inj h
    exact ⟨fun e he => (hs.below e he).trans (Nat.lt_succ_self _), hs.holder,
      fun i c row at_ entry hi => (hs.pending i c row at_ entry hi).mono (Nat.le_succ _) rfl⟩
  | lock i c =>
    simp only [step] at h
    split at h
    · next hfree =>
      split at h
      · obtain rfl := Option.some.inj h
        exact lockInv_refused hs i _
      · next row hrow =>
        split at h
        · obtain rfl := Option.some.inj h
          exact lockInv_refused hs i _
        · next herr =>
          obtain rfl := Option.some.inj h
          exact lockInv_locked hs hfree hrow herr
    · simp at h
  | write i id =>
    simp only [step] at h
    split at h
    · next c row hi =>
      obtain ⟨entry, he, rfl⟩ := Option.map_eq_some_iff.mp h
      exact lockInv_written hs hi he
    · simp at h
  | commit i =>
    obtain ⟨hl, -⟩ | ⟨i', c, row, at_, entry, audit, hl, hi, ha, rfl⟩ := step_cases h
    · exact absurd rfl (hl i)
    · obtain rfl := Label.commit.inj hl
      exact lockInv_committed hs hi (Table.insert_eq_some.mp ha).2

/-! ### A commit -/

/-- **A commit is the call:** it does what the call run without interruption would do on the
database it finds. -/
theorem commit_eq_changeStatus {s s' : State} {i : ℕ} (hs : LockInv s)
    (h : step s (.commit i) = some s') : ∃ (c : Call) (row : Event) (at_ : Time) (ak : Keys),
      changeStatus s.db c.event c.new c.request at_ ak =
        some (s'.db, .ok (withStatus row c.new at_)) ∧
      s'.calls i = .done (.ok (withStatus row c.new at_)) := by
  obtain ⟨hl, -⟩ | ⟨i', c, row, at_, entry, audit, hl, hi, ha, rfl⟩ := step_cases h
  · exact absurd rfl (hl i)
  · obtain rfl := Label.commit.inj hl
    obtain ⟨-, hrow, herr⟩ := hs.holder i c row (by rw [hi]; rfl)
    obtain ⟨ak, hentry⟩ := (hs.pending i c row at_ entry hi).ofCall
    have hlog : log ak at_ .eventStatusChanged c.request none none (some (eventTarget c.event))
        (statusMetadata row.status c.new) = some entry := hentry
    refine ⟨c, row, at_, ak, ?_, Function.update_self ..⟩
    simp only [changeStatus, hrow, herr, hlog, Database.write, Option.bind_some, ha,
      Option.map_some]
    rfl

/-- Publishing sets the publication time and withdrawing the results clears it. -/
theorem published_withStatus {row : Event} (new : EventStatus) (now : Time)
    (h : row.resultsPublishedAt.isSome = true ↔ row.status = .resultsPublished) :
    (withStatus row new now).resultsPublishedAt.isSome = true ↔ new = .resultsPublished := by
  unfold withStatus
  split_ifs with hnew hold
  · exact iff_of_true rfl hnew
  · exact iff_of_false (by simp) hnew
  · exact iff_of_false (fun hs => hold (h.mp hs)) hnew

/-- **The history grows** by the edge that a commit takes. -/
theorem trailInv_step {s s' : State} {l : Label} {event : Id} (hs : LockInv s)
    (ht : TrailInv event s.db) (h : step s l = some s') : TrailInv event s'.db := by
  obtain ⟨-, hdb⟩ | ⟨i, c, row, at_, entry, audit, -, hi, ha, rfl⟩ := step_cases h
  · rw [hdb]
    exact ht
  · obtain ⟨-, hheld, herr⟩ := hs.holder i c row (by rw [hi]; rfl)
    have hpend := hs.pending i c row at_ entry hi
    obtain ⟨ak, hentry⟩ := hpend.ofCall
    have hrows : (committed s i c row at_ audit).db.audit.rows = s.db.audit.rows ++ [entry] :=
      (Table.insert_eq_some.mp ha).2
    have hlog := statusLog_append event hrows hentry
    have hget : (committed s i c row at_ audit).db.events.get? event =
        if event = c.event then some (withStatus row c.new at_) else s.db.events.get? event := by
      show (saveStatus s.db.events c.event c.new at_).get? event = _
      rw [get?_saveStatus, hheld, Option.map_some]
    obtain ⟨row', path, hrow', hmeta, hwalk, hpub⟩ := ht.history
    by_cases hk : c.event = event
    · subst hk
      obtain rfl := Option.some.inj (hheld.symm.trans hrow')
      rw [if_pos rfl] at hlog hget
      refine ⟨?_, withStatus row c.new at_, path ++ [(row.status, c.new)], hget, ?_, ?_, ?_⟩
      · rw [hlog, List.pairwise_append]
        refine ⟨ht.ordered, List.pairwise_singleton _ _, fun e he e' he' => ?_⟩
        rw [List.mem_singleton.mp he']
        exact hpend.later e he
      · have hsays : entry.metadata = statusMetadata row.status c.new :=
          (log_eq_some hentry).2.2.2.2.1
        rw [hlog, List.map_append, hmeta, walkMetadata, walkMetadata, List.map_append,
          List.map_singleton, List.map_singleton, hsays]
      · exact isWalk_snoc hwalk (statusError_eq_none.mp herr).1
      · exact published_withStatus c.new at_ hpub
    · rw [if_neg hk] at hlog
      rw [if_neg (Ne.symm hk)] at hget
      exact ⟨hlog ▸ ht.ordered, row', path, hget.trans hrow', hlog ▸ hmeta, hwalk, hpub⟩

/-! ### Voting is not undone -/

/-- Voting has been opened. -/
def Opened (db : Database) (event : Id) : Prop :=
  ∃ status, statusOf db event = some status ∧ status ≠ .draft ∧ status ≠ .nominationsOpen

theorem edge_of_opened {a b : EventStatus} (h : Edge a b) (hd : a ≠ .draft)
    (hn : a ≠ .nominationsOpen) : b ≠ .draft ∧ b ≠ .nominationsOpen := by
  unfold Edge at h
  cases a <;> cases b <;> simp_all [statusTransitions]

theorem opened_step {s s' : State} {l : Label} {event : Id} (hs : LockInv s)
    (ho : Opened s.db event) (h : step s l = some s') : Opened s'.db event := by
  obtain ⟨-, hdb⟩ | ⟨i, c, row, at_, entry, audit, -, hi, -, rfl⟩ := step_cases h
  · rw [hdb]
    exact ho
  · obtain ⟨-, hheld, herr⟩ := hs.holder i c row (by rw [hi]; rfl)
    obtain ⟨status, hstatus, hd, hn⟩ := ho
    unfold Opened statusOf
    show ∃ status, ((saveStatus s.db.events c.event c.new at_).get? event).map Event.status =
      some status ∧ _
    rw [get?_saveStatus, hheld]
    split_ifs with hk
    · subst hk
      unfold statusOf at hstatus
      rw [hheld] at hstatus
      obtain rfl : row.status = status := Option.some.inj hstatus
      exact ⟨c.new, rfl, edge_of_opened (statusError_eq_none.mp herr).1 hd hn⟩
    · exact ⟨status, hstatus, hd, hn⟩

/-! ### From the creation of an event -/

section Clean

variable {clean : Bool → String → String}

theorem saveEvent_ok {db db' : Database} {row row' : Event}
    (h : saveEvent db row = (db', .ok row')) :
    row' = row ∧ db' = { db with events := db.events.put row } := by
  unfold saveEvent at h
  split_ifs at h
  · obtain ⟨rfl, hr⟩ := Prod.mk.inj h
    exact ⟨(Except.ok.inj hr).symm, rfl⟩
  · simp at h
  · simp at h

/-- **A created event** is a draft without a publication time. -/
theorem created_draft {db db' : Database} {a : EventAttrs} {now : Time} {k : Keys} {row : Event}
    (h : createEvent clean db a now k = some (db', .ok row)) :
    db'.events.get? k.id = some row ∧ row.status = .draft ∧ row.resultsPublishedAt = none ∧
      db'.audit = db.audit := by
  unfold createEvent at h
  split at h
  · simp at h
  · split_ifs at h with hk
    obtain ⟨rfl, rfl⟩ := saveEvent_ok (Option.some.inj h)
    refine ⟨?_, rfl, rfl, rfl⟩
    rw [Table.get?_put]
    exact if_pos rfl

/-- No call has begun, and the numbers of the entries have been drawn. -/
structure Start (s : State) : Prop where
  idle : ∀ i, s.calls i = .idle
  drawn : ∀ e ∈ s.db.audit.rows, e.seq < s.nextSeq

theorem lockInv_of_start {s : State} (h : Start s) : LockInv s :=
  ⟨h.drawn, fun i c row hi => by simp [h.idle i, Phase.holds] at hi,
    fun i c row at_ entry hi => by simp [h.idle i] at hi⟩

/-- The step from `s` to `s'` ends the call `i` with an error. -/
def Refused (s s' : State) (i : ℕ) (e : Raised) : Prop :=
  s'.calls i ≠ s.calls i ∧ s'.calls i = .done (.error e)

/-- **The audit trail of a created event**, in every state that any interleaving of calls reaches:
it is the history of the status, opened voting is never undone, and a refused call writes
nothing. -/
theorem statusTrail {db : Database} {a : EventAttrs} {now : Time} {k : Keys} {row : Event}
    {s s' : State} {l : List Label} (hc : createEvent clean db a now k = some (s.db, .ok row))
    (hnew : ∀ e ∈ db.audit.rows, e.target ≠ some (eventTarget k.id)) (hs : Start s)
    (hr : run step s l = some s') :
    TrailFaithful s'.db k.id ∧
      (statusOf s'.db k.id = some .votingOpen → ∀ l' s'', run step s' l' = some s'' →
        statusOf s''.db k.id ≠ some .draft ∧ statusOf s''.db k.id ≠ some .nominationsOpen) ∧
      (∀ i e label s'', step s' label = some s'' → Refused s' s'' i e → s''.db = s'.db) := by
  obtain ⟨hrow, hdraft, hpub, haudit⟩ := created_draft hc
  have hempty : statusLog s.db k.id = [] := by
    unfold statusLog
    rw [haudit, List.filter_eq_nil_iff]
    intro e he h
    rw [Bool.and_eq_true] at h
    exact hnew e he (of_decide_eq_true h.2)
  have hstart : TrailInv k.id s.db := by
    refine ⟨by rw [hempty]; exact List.Pairwise.nil, row, [], hrow, by
      rw [hempty]; rfl, hdraft.symm, ?_⟩
    rw [hpub, hdraft]
    simp
  have hboth : LockInv s' ∧ TrailInv k.id s'.db :=
    run_inv (fun s => LockInv s ∧ TrailInv k.id s.db)
      (fun m label m' hm hk => ⟨lockInv_step hm.1 hk, trailInv_step hm.1 hm.2 hk⟩)
      ⟨lockInv_of_start hs, hstart⟩ hr
  refine ⟨hboth.2.faithful, fun hopen l' s'' hr' => ?_, fun i e label s'' hk href => ?_⟩
  · have hkept : LockInv s'' ∧ Opened s''.db k.id :=
      run_inv (fun s => LockInv s ∧ Opened s.db k.id)
        (fun m label m' hm hk => ⟨lockInv_step hm.1 hk, opened_step hm.1 hm.2 hk⟩)
        ⟨hboth.1, .votingOpen, hopen, by simp, by simp⟩ hr'
    obtain ⟨status, hstatus, hd, hn⟩ := hkept.2
    rw [hstatus]
    exact ⟨fun h => hd (Option.some.inj h), fun h => hn (Option.some.inj h)⟩
  · obtain ⟨-, hdb⟩ | ⟨j, c, row, at_, entry, audit, -, hj, -, rfl⟩ := step_cases hk
    · exact hdb
    · -- a commit moves one call, which returns
      by_cases hij : i = j
      · have hok :
            (committed s' j c row at_ audit).calls i = .done (.ok (withStatus row c.new at_)) := by
          rw [hij]
          exact Function.update_self ..
        rw [href.2] at hok
        simp at hok
      · exact absurd (Function.update_of_ne hij ..) href.1

end Clean

/-- An event is created with its nomination window, nominations are opened, and a second call that
asks for the same is refused. -/
def opensNominations : List Label :=
  [.lock 0 ⟨3, .nominationsOpen, none⟩, .write 0 70, .nextval, .commit 0,
    .lock 1 ⟨3, .nominationsOpen, none⟩]

def finalsAttrs : EventAttrs where
  name := some "Finals"
  slug := some "finals"
  year := some 2026
  nominationsOpenAt := some (some 10)
  nominationsCloseAt := some (some 20)

/-- The row of the event that is created. -/
def finals : Event := { finalsAttrs.assign { id := 3, name := "", slug := "", year := 0 } with
  createdAt := 5, updatedAt := 5 }

theorem statusTrail_finals : ∃ s s', createEvent (fun _ t => t) galaDb finalsAttrs 5 ⟨3, 0⟩ =
    some (s.db, .ok finals) ∧ run step s opensNominations = some s' ∧ TrailFaithful s'.db 3 := by
  have hc : createEvent (fun _ t => t) galaDb finalsAttrs 5 ⟨3, 0⟩ =
      some ({ galaDb with events := galaDb.events.put finals }, .ok finals) := by rfl
  have hr :
      (run step { db := { galaDb with events := galaDb.events.put finals }, now := 5, nextSeq := 1 }
      opensNominations).isSome := by rfl
  obtain ⟨s', hs'⟩ := Option.isSome_iff_exists.mp hr
  exact ⟨_, s', hc, hs', (statusTrail hc (by decide) ⟨fun _ => rfl, by decide⟩ hs').1⟩

end KwAwards.Events.StatusTrail
