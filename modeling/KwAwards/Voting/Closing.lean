import KwAwards.Events.Services
import KwAwards.Voting.Concurrent

/-! # Closing an event while votes are cast

The concurrent calls of `Voting.Concurrent` interleaved with changes of status. A cast reads the
event at its query and checks that copy; nothing rereads the row when the vote is inserted. So a
vote can be committed after the event was closed (`closingRace`), and `committed_while_open_iff`
says in which runs that does not happen: those in which, at every insert, the event has the status
the cast read and the window it read has not ended (`Undisturbed`). -/

namespace KwAwards.Voting.Closing

open KwAwards.Lib.Tables KwAwards.Lib.Run KwAwards.Common.Base KwAwards.Common.Exceptions
open KwAwards.Events.Models KwAwards.Events.Services KwAwards.Voting.Votes KwAwards.Store
open KwAwards.Voting.Services
open KwAwards.Voting.Concurrent (State Phase Call Moves moves_of_step galaState galaCast)

/-- A step of the calls or the clock, or a change of status. -/
inductive Label
  | call (l : Concurrent.Label)
  | changeStatus (event : Id) (new : EventStatus) (request : Option Request) (ak : Keys)

def step (s : State) : Label → Option State
  | .call l => Concurrent.step s l
  | .changeStatus event new request ak =>
    (changeStatus s.db event new request s.now ak).map fun (db, _) => { s with db }

/-- Every vote a step commits is committed while the stored event is open for voting, at an instant
of its window. -/
def CommittedWhileOpen (s : State) (_ : Label) (s' : State) : Prop :=
  ∀ v ∈ s'.db.votes.rows.drop s.db.votes.rows.length,
    (s'.db.events.get? v.event).any fun e => e.votingIsOpen v.createdAt

instance (s : State) (l : Label) (s' : State) : Decidable (CommittedWhileOpen s l s') := by
  unfold CommittedWhileOpen; infer_instance

/-- When a free slot is filled, the event has the status the cast read and the window it read has
not ended. -/
def Undisturbed (s : State) (l : Label) (_ : State) : Prop :=
  match l with
  | .call (.insert i _ _) =>
    match s.calls i with
    | .checked a c _ => ¬ Taken s.db.votes a.voter c.award.id →
        (∀ e, s.db.events.get? c.event.id = some e → e.status = c.event.status) ∧
          ∀ closes, c.event.votingClosesAt = some closes → s.now < closes
    | _ => True
  | _ => True

/-! ### What a cast has read -/

/-- The stored event still has the voting window that was read. -/
def SameWindow (db : Database) (read : Event) : Prop :=
  ∃ e, db.events.get? read.id = some e ∧ e.votingOpensAt = read.votingOpensAt ∧
    e.votingClosesAt = read.votingClosesAt

/-- A cast's copy of the event has the stored window, and was open when it was checked. -/
def Current (db : Database) (now : Time) : Phase → Prop
  | .fetched _ c => SameWindow db c.event
  | .checked _ c t | .refused _ c t =>
    SameWindow db c.event ∧ c.event.votingIsOpen t = true ∧ t ≤ now
  | _ => True

def Inv (s : State) : Prop := ∀ i, Current s.db s.now (s.calls i)

theorem inv_of_quiet {s : State} (h : s.Quiet) : Inv s := by
  intro i
  rw [h i]; trivial

theorem sameWindow_of_getNomination {db : Database} {nid : Id} {c : Candidate}
    (h : getNomination db nid = some c) : SameWindow db c.event := by
  obtain ⟨hj, -⟩ := getNomination_eq_some.mp h
  have hget : db.events.get? c.event.id = some c.event := by
    rw [← (linked_of_joined hj).2.event]
    exact (joined_eq_some.mp hj).2.2.2
  exact ⟨c.event, hget, rfl, rfl⟩

theorem current_congr {db db' : Database} {now now' : Time} (hnow : now ≤ now')
    (hdb : ∀ e, SameWindow db e → SameWindow db' e) {p : Phase} (h : Current db now p) :
    Current db' now' p := by
  cases p with
  | idle | started | done => trivial
  | fetched a c => exact hdb _ h
  | checked a c t | refused a c t => exact ⟨hdb _ h.1, h.2.1, h.2.2.trans hnow⟩

theorem inv_setCall {s : State} {i : ℕ} {p : Phase} (hs : Inv s) (hp : Current s.db s.now p) :
    Inv (s.setCall i p) := by
  intro j
  by_cases hj : j = i
  · subst hj
    rwa [Concurrent.calls_setCall_self]
  · rw [Concurrent.calls_setCall_of_ne s p hj]
    exact hs j

theorem inv_of_moves {s s' : State} {l : Concurrent.Label} (hs : Inv s) (h : Moves s l s') :
    Inv s' := by
  have hdb : ∀ e, SameWindow s.db e → SameWindow s'.db e := by
    intro e he
    rw [Concurrent.db_of_moves h]
    exact he
  have hkeep : Inv { s with db := s'.db } := fun i => current_congr le_rfl hdb (hs i)
  cases h with
  | tick n => exact fun i => current_congr (Nat.le_add_right _ _) (fun _ => id) (hs i)
  | fetched hi hc => exact inv_setCall hs (sameWindow_of_getNomination hc)
  | @opened i a c hi ho =>
    have hc : Current s.db s.now (.fetched a c) := hi ▸ hs i
    exact inv_setCall hs ⟨hc, ho, le_rfl⟩
  | @refused i a c t vk ak hi hf ht =>
    have hc : Current s.db s.now (.checked a c t) := hi ▸ hs i
    exact inv_setCall hs hc
  | invoked | missing | closed | inserted | logged | voidRefused | voided =>
    exact inv_setCall hkeep trivial

/-- A change of status keeps the windows. -/
theorem sameWindow_changeStatus {db db' : Database} {event : Id} {new : EventStatus}
    {request : Option Request} {now : Time} {ak : Keys} {r : Except Raised Event}
    (h : changeStatus db event new request now ak = some (db', r)) {read : Event}
    (hw : SameWindow db read) : SameWindow db' read := by
  rcases changeStatus_cases h with ⟨rfl, -⟩ | ⟨locked, audit, e, hl, -, -, -, -, rfl⟩
  · exact hw
  · obtain ⟨e, he, ho, hc⟩ := hw
    simp only [SameWindow, get?_saveStatus]
    by_cases hid : read.id = event
    · rw [if_pos hid, ← hid, he]
      exact ⟨_, rfl, ho, hc⟩
    · rw [if_neg hid]
      exact ⟨e, he, ho, hc⟩

theorem inv_of_step {s s' : State} {l : Label} (hs : Inv s) (h : step s l = some s') : Inv s' := by
  cases l with
  | call l => exact inv_of_moves hs (moves_of_step h)
  | changeStatus event new request ak =>
    obtain ⟨⟨db, r⟩, hx, rfl⟩ := Option.map_eq_some_iff.mp h
    exact fun i => current_congr le_rfl (fun _ => sameWindow_changeStatus hx) (hs i)

/-! ### When a vote is committed -/

/-- **A vote is committed while its event is open** exactly when nothing came between. -/
theorem open_iff_of_current {db : Database} {now t : Time} {a : Concurrent.CastArgs}
    {c : Candidate} (h : Current db now (.checked a c t)) :
    ((db.events.get? c.event.id).any fun e => e.votingIsOpen now) = true ↔
      (∀ e, db.events.get? c.event.id = some e → e.status = c.event.status) ∧
        ∀ closes, c.event.votingClosesAt = some closes → now < closes := by
  obtain ⟨⟨e, he, hopens, hcloses⟩, ho, htn⟩ := h
  obtain ⟨hstatus, hwithin⟩ := Event.votingIsOpen_iff.mp ho
  obtain ⟨o, x, hox, hxx, hot, htx⟩ := within_iff.mp hwithin
  simp only [he, Option.any_some, Event.votingIsOpen, Bool.and_eq_true, decide_eq_true_eq, hopens,
    hcloses, within_iff, hox, hxx, hstatus, Option.some.injEq]
  constructor
  · rintro ⟨hs, o', x', rfl, rfl, -, hx⟩
    exact ⟨fun e' he' => he' ▸ hs, fun y hy => hy ▸ hx⟩
  · rintro ⟨hs, hx⟩
    exact ⟨hs e rfl, o, x, rfl, rfl, hot.trans htn, hx x rfl⟩

theorem committed_of_noVotes {s s' : State} (l : Label)
    (h : s'.db.votes.rows.drop s.db.votes.rows.length = []) : CommittedWhileOpen s l s' := by
  unfold CommittedWhileOpen
  rw [h]
  simp

theorem committed_iff_of_moves {s s' : State} {l : Concurrent.Label} (hs : Inv s)
    (h : Moves s l s') : CommittedWhileOpen s (.call l) s' ↔ Undisturbed s (.call l) s' := by
  cases h with
  | tick | invoked | missing | fetched | opened | closed | logged | voidRefused =>
    exact iff_of_true (committed_of_noVotes _ List.drop_length) trivial
  | @refused i a c t vk ak hi hf ht =>
    refine iff_of_true (committed_of_noVotes _ List.drop_length) ?_
    simp only [Undisturbed, hi]
    exact fun hn => absurd ht hn
  | @inserted i a c t vk ak votes audit e hi hf ht hv he ha hx =>
    have hcurrent : Current s.db s.now (.checked a c t) := hi ▸ hs i
    have hnew : votes.rows.drop s.db.votes.rows.length =
        [newVote c a.voter a.request s.now vk] := by rw [hv, List.drop_left]
    have hcommitted : CommittedWhileOpen s (.call (.insert i vk ak))
        ({ s with db := { s.db with votes, audit } }.setCall i
          (.done (.cast a) (.ok (newVote c a.voter a.request s.now vk)))) ↔
        ((s.db.events.get? c.event.id).any fun e => e.votingIsOpen s.now) = true := by
      simp only [CommittedWhileOpen, Concurrent.State.db_setCall, hnew, List.mem_singleton,
        forall_eq]
      rfl
    rw [hcommitted, open_iff_of_current hcurrent]
    simp only [Undisturbed, hi]
    exact ⟨fun h _ => h, fun h => h ht⟩
  | @voided i a ak vote votes audit e hi hm hid hact hv he ha hx =>
    refine iff_of_true (committed_of_noVotes _ ?_) trivial
    show votes.rows.drop s.db.votes.rows.length = _
    rw [hv, List.drop_eq_nil_iff, List.length_map]

theorem committed_iff_of_step {s s' : State} {l : Label} (hs : Inv s) (h : step s l = some s') :
    CommittedWhileOpen s l s' ↔ Undisturbed s l s' := by
  cases l with
  | call l => exact committed_iff_of_moves hs (moves_of_step h)
  | changeStatus event new request ak =>
    obtain ⟨⟨db, r⟩, hx, rfl⟩ := Option.map_eq_some_iff.mp h
    refine iff_of_true (committed_of_noVotes _ ?_) trivial
    rcases changeStatus_cases hx with ⟨rfl, -⟩ | ⟨locked, audit, e, -, -, -, -, -, rfl⟩ <;>
      exact List.drop_length

/-! ### A closed event -/

/-- The stored event is not open for voting. -/
def NotOpen (event : Id) (s : State) (_ : Label) (_ : State) : Prop :=
  ∀ e, s.db.events.get? event = some e → e.status ≠ .votingOpen

instance (event : Id) (s : State) (l : Label) (s' : State) : Decidable (NotOpen event s l s') :=
  inferInstanceAs (Decidable (∀ e ∈ s.db.events.get? event, e.status ≠ .votingOpen))

/-- Every vote of the event in `t'` was in `t`, perhaps before it was voided. -/
def NoNewVotes (event : Id) (t t' : VoteTable) : Prop :=
  ∀ v ∈ t'.rows, v.event = event → ∃ w ∈ t.rows, w.id = v.id

theorem noNewVotes_of_step {event : Id} {t : VoteTable} {s s' : State} {l : Label}
    (ht : NoNewVotes event t s.db.votes) (hc : CommittedWhileOpen s l s')
    (hn : NotOpen event s l s') (h : step s l = some s') : NoNewVotes event t s'.db.votes := by
  cases l with
  | changeStatus event' new request ak =>
    obtain ⟨⟨db, r⟩, hx, rfl⟩ := Option.map_eq_some_iff.mp h
    rcases changeStatus_cases hx with ⟨rfl, -⟩ | ⟨locked, audit, e, -, -, -, -, -, rfl⟩ <;> exact ht
  | call l =>
    cases moves_of_step h with
    | tick | invoked | missing | fetched | opened | closed | refused | logged | voidRefused =>
      exact ht
    | @inserted i a c t vk ak votes audit e hi hf ht' hv he ha hx =>
      intro v hv' hev
      replace hv' : v ∈ votes.rows := hv'
      rw [hv] at hv'
      rcases List.mem_append.mp hv' with hv' | hv'
      · exact ht v hv' hev
      · obtain rfl := List.mem_singleton.mp hv'
        have hnew : newVote c a.voter a.request s.now vk ∈
            votes.rows.drop s.db.votes.rows.length := by
          rw [hv, List.drop_left]; exact List.mem_singleton_self _
        obtain ⟨e', he', ho⟩ := (Option.any_eq_true _ _).mp (hc _ hnew)
        exact absurd (Event.votingIsOpen_iff.mp ho).1 (hn e' (hev ▸ he'))
    | @voided i a ak vote votes audit e hi hm hid hact hv he ha hx =>
      intro v hv' hev
      replace hv' : v ∈ votes.rows := hv'
      rw [hv] at hv'
      obtain ⟨w, hw, rfl⟩ := List.mem_map.mp hv'
      by_cases hwid : w.id = vote.id
      · rw [if_pos hwid] at hev ⊢
        exact ht vote hm hev
      · rw [if_neg hwid] at hev ⊢
        exact ht w hw hev

/-- **While an event is not open** no vote for it is added, as long as votes are committed while
their event is open. -/
theorem noNewVotes_of_run {event : Id} {s s' : State} {l : List Label}
    (hc : Along step CommittedWhileOpen s l) (hn : Along step (NotOpen event) s l)
    (hr : run step s l = some s') : NoNewVotes event s.db.votes s'.db.votes :=
  run_inv_along (fun m => NoNewVotes event s.db.votes m.db.votes)
    (fun _ _ _ hm hp hk => noNewVotes_of_step hm hp.1 hp.2 hk)
    (fun v hv _ => ⟨v, hv, rfl⟩) (along_and hc hn) hr

/-- **When no vote is committed after closing:** in a run, every vote is committed while its event
is open exactly when every insert finds the event undisturbed; then no vote of an event is added in
any stretch of the run in which the event is not open. -/
theorem committed_while_open_iff {s s' : State} {l : List Label} (hs : s.Quiet)
    (hr : run step s l = some s') :
    (Along step CommittedWhileOpen s l ↔ Along step Undisturbed s l) ∧
      (Along step Undisturbed s l → ∀ l₁ l₂ l₃ m m' event, l = l₁ ++ (l₂ ++ l₃) →
        run step s l₁ = some m → run step m l₂ = some m' → Along step (NotOpen event) m l₂ →
          NoNewVotes event m.db.votes m'.db.votes) := by
  have hiff : Along step CommittedWhileOpen s l ↔ Along step Undisturbed s l :=
    along_congr Inv (fun _ _ _ hm _ hk => inv_of_step hm hk)
      (fun _ _ _ hm hk => committed_iff_of_step hm hk) (inv_of_quiet hs)
  refine ⟨hiff, ?_⟩
  rintro hu l₁ l₂ l₃ m m' event rfl hm hm' hn
  have hc := ((along_append hm).mp (hiff.mpr hu)).2
  exact noNewVotes_of_run ((along_append hm').mp hc).1 hn hm'

/-- A vote is cast before the gala is closed. -/
def orderlyClosing : List Label :=
  [.call (.invoke 0 (galaCast 40)), .call (.fetch 0), .call (.check 0),
    .call (.insert 0 ⟨60, 1⟩ ⟨70, 1⟩), .changeStatus 1 .closed none ⟨71, 2⟩]

/-- Another cast comes after it. -/
def lateCast : List Label :=
  [.call (.invoke 1 (galaCast 40)), .call (.fetch 1), .call (.check 1)]

theorem committed_while_open_iff_gala :
    ∃ m s', run step galaState orderlyClosing = some m ∧ run step m lateCast = some s' ∧
      m.db.votes.rows.length = 1 ∧
      Along step CommittedWhileOpen galaState (orderlyClosing ++ lateCast) ∧
      Along step Undisturbed galaState (orderlyClosing ++ lateCast) ∧
      NoNewVotes 1 m.db.votes s'.db.votes := by
  have hruns : ((run step galaState orderlyClosing).bind fun m => (run step m lateCast).map fun _ =>
      (m.db.votes.rows.length, decide (Along step (NotOpen 1) m lateCast))) = some (1, true) := by
    decide
  obtain ⟨m, hm, hruns⟩ := Option.bind_eq_some_iff.mp hruns
  obtain ⟨s', hs', hruns⟩ := Option.map_eq_some_iff.mp hruns
  obtain ⟨hvotes, hnot⟩ := Prod.mk.inj hruns
  have hr : run step galaState (orderlyClosing ++ lateCast) = some s' := (run_append hm).trans hs'
  have hcommitted : Along step CommittedWhileOpen galaState (orderlyClosing ++ lateCast) := by
    decide
  obtain ⟨hiff, hno⟩ := committed_while_open_iff (fun _ => rfl) hr
  refine ⟨m, s', hm, hs', hvotes, hcommitted, hiff.mp hcommitted, ?_⟩
  exact hno (hiff.mp hcommitted) orderlyClosing lateCast [] m s' 1 (by rw [List.append_nil]) hm hs'
    (of_decide_eq_true hnot)

/-- A cast that checks the gala just before it is closed. -/
def closingRace : List Label :=
  [.call (.invoke 0 (galaCast 40)), .call (.fetch 0), .call (.check 0),
    .changeStatus 1 .closed none ⟨70, 1⟩, .call (.insert 0 ⟨60, 1⟩ ⟨71, 2⟩)]

/-- The vote of `closingRace` is committed while the gala is closed. -/
theorem not_always_committed_while_open : ¬ ∀ (s s' : State) (l : List Label), s.Quiet →
    run step s l = some s' → Along step CommittedWhileOpen s l := by
  intro h
  have hsome : (run step galaState closingRace).isSome := by decide
  obtain ⟨s', hr⟩ := Option.isSome_iff_exists.mp hsome
  exact absurd (h galaState s' closingRace (fun _ => rfl) hr) (by decide)

end KwAwards.Voting.Closing
