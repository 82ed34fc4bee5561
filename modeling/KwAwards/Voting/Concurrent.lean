import KwAwards.Lib.Run
import KwAwards.Voting.Services

/-! # Concurrent calls of the voting services

Any number of calls of `cast_free_vote` and `void_vote` run interleaved over one database under an
advancing clock. A cast takes one step for its query (`fetch`), one for `voting_is_open` (`check`),
one for its transaction (`insert`) and, when the unique index refused the row, one for the entry it
writes afterwards (`logDuplicate`). A void holds the lock of its row from its read to its commit and
is one step.

`Moves` lists everything a step can do, `moves_of_step` is the inversion lemma all invariants rest
on. -/

namespace KwAwards.Voting.Concurrent

open KwAwards.Lib.Tables KwAwards.Lib.Run KwAwards.Common.Base KwAwards.Common.Exceptions
open KwAwards.Audit.Log
open KwAwards.Events.Models KwAwards.Voting.Votes KwAwards.Store KwAwards.Voting.Services

/-- The arguments of `cast_free_vote`. -/
structure CastArgs where
  voter : Id
  nomination : Id
  request : Request
  deriving DecidableEq, Repr

/-- The arguments of `void_vote`. -/
structure VoidArgs where
  vote : Id
  byUser : Id
  reason : String
  request : Option Request
  deriving DecidableEq, Repr

inductive Call
  | cast (a : CastArgs)
  | void (a : VoidArgs)
  deriving DecidableEq, Repr

/-- What a call returns or raises. -/
abbrev Result := Except Raised Vote

/-- Where a call stands. -/
inductive Phase
  | idle
  | started (call : Call)
  | fetched (a : CastArgs) (c : Candidate)
  | checked (a : CastArgs) (c : Candidate) (at_ : Time)
  | refused (a : CastArgs) (c : Candidate) (at_ : Time)
  | done (call : Call) (result : Result)

/-- The database, the clock and the calls. -/
structure State where
  db : Database
  now : Time
  calls : ℕ → Phase

/-- Every call is still to come. -/
def State.Quiet (s : State) : Prop := ∀ i, s.calls i = .idle

def State.setCall (s : State) (i : ℕ) (p : Phase) : State :=
  { s with calls := Function.update s.calls i p }

@[simp] theorem State.db_setCall (s : State) (i : ℕ) (p : Phase) : (s.setCall i p).db = s.db := rfl

@[simp] theorem State.calls_setCall (s : State) (i : ℕ) (p : Phase) :
    (s.setCall i p).calls = Function.update s.calls i p := rfl

/-- What can happen. `vk` and `ak` are the keys of the vote and of the audit entry. -/
inductive Label
  | tick (d : ℕ)
  | invoke (i : ℕ) (call : Call)
  | fetch (i : ℕ)
  | check (i : ℕ)
  | insert (i : ℕ) (vk ak : Keys)
  | logDuplicate (i : ℕ) (ak : Keys)
  | void (i : ℕ) (ak : Keys)
  deriving DecidableEq, Repr

/-- The call a phase belongs to. -/
def Phase.call? : Phase → Option Call
  | .idle => none
  | .started call => some call
  | .fetched a _ | .checked a _ _ | .refused a _ _ => some (.cast a)
  | .done call _ => some call

/-- The outcome of a call, once it is decided. -/
def Phase.fate : Phase → Option Result
  | .refused _ _ _ => some (.error (.api .alreadyVoted))
  | .done _ r => some r
  | _ => none

/-- When the window was checked; a cast that ends before its insert checks it now. -/
def Phase.checkedAt (now : Time) : Phase → Time
  | .checked _ _ t => t
  | _ => now

/-- The call that takes the step. -/
def Label.call? : Label → Option ℕ
  | .tick _ => none
  | .invoke i _ | .fetch i | .check i | .insert i _ _ | .logDuplicate i _ | .void i _ => some i

/-- One step of the call `i`, of the clock, or the arrival of a call. -/
def step (s : State) : Label → Option State
  | .tick d => some { s with now := s.now + d }
  | .invoke i call =>
    match s.calls i with
    | .idle => some (s.setCall i (.started call))
    | _ => none
  | .fetch i =>
    match s.calls i with
    | .started (.cast a) =>
      match getNomination s.db a.nomination with
      | none => some (s.setCall i (.done (.cast a) (.error nominationNotFound)))
      | some c => some (s.setCall i (.fetched a c))
    | _ => none
  | .check i =>
    match s.calls i with
    | .fetched a c =>
      if c.event.votingIsOpen s.now then some (s.setCall i (.checked a c s.now))
      else some (s.setCall i (.done (.cast a) (.error (.api .votingClosed))))
    | _ => none
  | .insert i vk ak =>
    match s.calls i with
    | .checked a c t =>
      (insertVote s.db c a.voter a.request s.now vk ak).map fun (db, r) =>
        match r with
        | .ok vote => { s with db }.setCall i (.done (.cast a) (.ok vote))
        | .error e =>
          if isUniqueViolation e then { s with db }.setCall i (.refused a c t)
          else { s with db }.setCall i (.done (.cast a) (.error (.db e)))
    | _ => none
  | .logDuplicate i ak =>
    match s.calls i with
    | .refused a c _ =>
      (logDuplicate s.db c a.voter a.request s.now ak).map fun db =>
        { s with db }.setCall i (.done (.cast a) (.error (.api .alreadyVoted)))
    | _ => none
  | .void i ak =>
    match s.calls i with
    | .started (.void a) =>
      (voidVote s.db a.vote a.byUser a.reason a.request s.now ak).map fun (db, r) =>
        { s with db }.setCall i (.done (.void a) r)
    | _ => none

/-- **What a step can do.** -/
inductive Moves (s : State) : Label → State → Prop
  | tick (d : ℕ) : Moves s (.tick d) { s with now := s.now + d }
  | invoked {i : ℕ} (call : Call) (hi : s.calls i = .idle) :
      Moves s (.invoke i call) (s.setCall i (.started call))
  | missing {i : ℕ} {a : CastArgs} (hi : s.calls i = .started (.cast a))
      (hc : getNomination s.db a.nomination = none) :
      Moves s (.fetch i) (s.setCall i (.done (.cast a) (.error nominationNotFound)))
  | fetched {i : ℕ} {a : CastArgs} {c : Candidate} (hi : s.calls i = .started (.cast a))
      (hc : getNomination s.db a.nomination = some c) :
      Moves s (.fetch i) (s.setCall i (.fetched a c))
  | opened {i : ℕ} {a : CastArgs} {c : Candidate} (hi : s.calls i = .fetched a c)
      (ho : c.event.votingIsOpen s.now = true) :
      Moves s (.check i) (s.setCall i (.checked a c s.now))
  | closed {i : ℕ} {a : CastArgs} {c : Candidate} (hi : s.calls i = .fetched a c)
      (ho : c.event.votingIsOpen s.now = false) :
      Moves s (.check i) (s.setCall i (.done (.cast a) (.error (.api .votingClosed))))
  | refused {i : ℕ} {a : CastArgs} {c : Candidate} {t : Time} {vk ak : Keys}
      (hi : s.calls i = .checked a c t) (hf : FreshVote s.db.votes vk)
      (ht : Taken s.db.votes a.voter c.award.id) :
      Moves s (.insert i vk ak) (s.setCall i (.refused a c t))
  | inserted {i : ℕ} {a : CastArgs} {c : Candidate} {t : Time} {vk ak : Keys} {votes : VoteTable}
      {audit : Table AuditLog} {e : AuditLog}
      (hi : s.calls i = .checked a c t) (hf : FreshVote s.db.votes vk)
      (ht : ¬ Taken s.db.votes a.voter c.award.id)
      (hv : votes.rows = s.db.votes.rows ++ [newVote c a.voter a.request s.now vk])
      (he : log ak s.now .voteCast (some a.request) none (some a.voter)
        (some (voteTarget (newVote c a.voter a.request s.now vk))) (castMetadata c) = some e)
      (ha : audit.rows = s.db.audit.rows ++ [e])
      (hx : insertVote s.db c a.voter a.request s.now vk ak =
        some ({ s.db with votes, audit }, .ok (newVote c a.voter a.request s.now vk))) :
      Moves s (.insert i vk ak) ({ s with db := { s.db with votes, audit } }.setCall i
        (.done (.cast a) (.ok (newVote c a.voter a.request s.now vk))))
  | logged {i : ℕ} {a : CastArgs} {c : Candidate} {t : Time} {ak : Keys}
      {audit : Table AuditLog} {e : AuditLog} (hi : s.calls i = .refused a c t)
      (he : log ak s.now .voteDuplicate (some a.request) none (some a.voter) none
        (castMetadata c) = some e)
      (ha : audit.rows = s.db.audit.rows ++ [e]) :
      Moves s (.logDuplicate i ak) ({ s with db := { s.db with audit } }.setCall i
        (.done (.cast a) (.error (.api .alreadyVoted))))
  | voidRefused {i : ℕ} {a : VoidArgs} {ak : Keys} {x : Raised}
      (hi : s.calls i = .started (.void a)) (hne : x ≠ .api .alreadyVoted)
      (hx : voidVote s.db a.vote a.byUser a.reason a.request s.now ak = some (s.db, .error x)) :
      Moves s (.void i ak) (s.setCall i (.done (.void a) (.error x)))
  | voided {i : ℕ} {a : VoidArgs} {ak : Keys} {vote : Vote} {votes : VoteTable}
      {audit : Table AuditLog} {e : AuditLog} (hi : s.calls i = .started (.void a))
      (hm : vote ∈ s.db.votes.rows) (hid : vote.id = a.vote) (hact : vote.voidedAt = none)
      (hv : votes.rows = s.db.votes.rows.map fun v =>
        if v.id = vote.id then Services.void vote a.byUser a.reason s.now else v)
      (he : log ak s.now .voteVoided a.request (some a.byUser) none (some (voteTarget vote))
        (voidMetadata vote a.reason) = some e)
      (ha : audit.rows = s.db.audit.rows ++ [e])
      (hx : voidVote s.db a.vote a.byUser a.reason a.request s.now ak =
        some ({ s.db with votes, audit }, .ok (Services.void vote a.byUser a.reason s.now))) :
      Moves s (.void i ak) ({ s with db := { s.db with votes, audit } }.setCall i
        (.done (.void a) (.ok (Services.void vote a.byUser a.reason s.now))))

theorem moves_of_step {s s' : State} {l : Label} (h : step s l = some s') : Moves s l s' := by
  cases l with
  | tick d =>
    obtain rfl := Option.some.inj h
    exact .tick d
  | invoke i call =>
    simp only [step] at h
    split at h
    · next hi =>
      obtain rfl := Option.some.inj h
      exact .invoked call hi
    · simp at h
  | fetch i =>
    simp only [step] at h
    split at h
    · next a hi =>
      split at h
      · next hc =>
        obtain rfl := Option.some.inj h
        exact .missing hi hc
      · next c hc =>
        obtain rfl := Option.some.inj h
        exact .fetched hi hc
    · simp at h
  | check i =>
    simp only [step] at h
    split at h
    · next a c hi =>
      split_ifs at h with ho
      · obtain rfl := Option.some.inj h
        exact .opened hi ho
      · obtain rfl := Option.some.inj h
        have hshut : c.event.votingIsOpen s.now = false := by simpa using ho
        exact .closed hi hshut
    · simp at h
  | insert i vk ak =>
    simp only [step] at h
    split at h
    · next a c t hi =>
      obtain ⟨⟨db, r⟩, hx, h⟩ := Option.map_eq_some_iff.mp h
      rcases insertVote_cases hx with
        ⟨hf, ⟨ht, rfl, rfl⟩ | ⟨ht, rfl, votes, audit, e, hv, he, ha, rfl⟩⟩
      · obtain rfl := h
        exact .refused hi hf ht
      · obtain rfl := h
        exact .inserted hi hf ht hv he ha hx
    · simp at h
  | logDuplicate i ak =>
    simp only [step] at h
    split at h
    · next a c t hi =>
      obtain ⟨db, hx, h⟩ := Option.map_eq_some_iff.mp h
      obtain ⟨e, audit, he, -, ha, rfl⟩ := Database.write_eq_some hx
      obtain rfl := h
      exact .logged hi he ha
    · simp at h
  | void i ak =>
    simp only [step] at h
    split at h
    · next a hi =>
      obtain ⟨⟨db, r⟩, hx, h⟩ := Option.map_eq_some_iff.mp h
      rcases voidVote_cases hx with
        ⟨rfl, x, rfl, hne⟩ | ⟨vote, hm, hid, hact, rfl, votes, audit, e, hv, he, ha, rfl⟩
      · obtain rfl := h
        exact .voidRefused hi hne hx
      · obtain rfl := h
        exact .voided hi hm hid hact hv he ha hx
    · simp at h

theorem calls_setCall_self (s : State) (i : ℕ) (p : Phase) : (s.setCall i p).calls i = p :=
  Function.update_self ..

theorem calls_setCall_of_ne (s : State) {i j : ℕ} (p : Phase) (h : j ≠ i) :
    (s.setCall i p).calls j = s.calls j :=
  Function.update_of_ne h ..

/-- The votes and the audit log are all that the calls write. -/
theorem db_of_moves {s s' : State} {l : Label} (h : Moves s l s') :
    s'.db = { s.db with votes := s'.db.votes, audit := s'.db.audit } := by
  cases h <;> rfl

theorem getNomination_of_moves {s s' : State} {l : Label} (h : Moves s l s') (nid : Id) :
    getNomination s'.db nid = getNomination s.db nid := by
  rw [db_of_moves h]; rfl

/-- What a call has read is still stored, and its check still stands. -/
def Phase.Sound (db : Database) : Phase → Prop
  | .fetched a c => getNomination db a.nomination = some c
  | .checked a c t | .refused a c t =>
    getNomination db a.nomination = some c ∧ c.event.votingIsOpen t = true
  | _ => True

def State.Sound (s : State) : Prop := ∀ i, (s.calls i).Sound s.db

theorem sound_of_quiet {s : State} (h : s.Quiet) : s.Sound := by
  intro i
  rw [h i]; trivial

theorem sound_setCall {s : State} {i : ℕ} {p : Phase} (hs : s.Sound) (hp : p.Sound s.db) :
    (s.setCall i p).Sound := by
  intro j
  by_cases hj : j = i
  · subst hj
    rwa [calls_setCall_self]
  · rw [calls_setCall_of_ne s p hj]
    exact hs j

theorem sound_congr {db db' : Database}
    (h : ∀ nid, getNomination db' nid = getNomination db nid) (p : Phase) :
    p.Sound db' ↔ p.Sound db := by
  cases p <;> simp only [Phase.Sound, h]

/-- **A step keeps** what the calls have read and checked. -/
theorem sound_of_moves {s s' : State} {l : Label} (hs : s.Sound) (h : Moves s l s') :
    s'.Sound := by
  have hdb : State.Sound { s with db := s'.db } := fun i =>
    (sound_congr (getNomination_of_moves h) (s.calls i)).mpr (hs i)
  cases h with
  | tick d => exact hs
  | fetched hi hc => exact sound_setCall hdb hc
  | @opened i a c hi ho =>
    have hc : (Phase.fetched a c).Sound s.db := hi ▸ hs i
    exact sound_setCall hdb ⟨hc, ho⟩
  | @refused i a c t vk ak hi hf ht =>
    have hc : (Phase.checked a c t).Sound s.db := hi ▸ hs i
    exact sound_setCall hdb hc
  | invoked | missing | closed | inserted | logged | voidRefused | voided =>
    exact sound_setCall hdb trivial

/-! ### Every vote is for an approved nomination of its award -/

/-- Nominations refer to nominees, and votes to approved nominations of their award. -/
structure Grounded (db : Database) : Prop where
  nominees : ∀ n ∈ db.nominations.rows, (db.nominees.get? n.nominee).isSome
  votes : ∀ v ∈ db.votes.rows, ∃ n ∈ db.nominations.rows, n.id = v.nomination ∧
    n.status = .approved ∧ n.award = v.award

theorem grounded_newVote {db : Database} {nid : Id} {c : Candidate}
    (hc : getNomination db nid = some c) (voter : Id) (request : Request) (now : Time) (k : Keys) :
    ∃ n ∈ db.nominations.rows, n.id = (newVote c voter request now k).nomination ∧
      n.status = .approved ∧ n.award = (newVote c voter request now k).award := by
  obtain ⟨hj, hvot⟩ := getNomination_eq_some.mp hc
  have hlinked := (linked_of_joined hj).2
  simp only [Candidate.votable, Bool.and_eq_true, decide_eq_true_eq] at hvot
  exact ⟨c.nomination, (Table.get?_eq_some.mp (joined_eq_some.mp hj).1).1, rfl, hvot.1.1,
    hlinked.award⟩

/-- **A step keeps** the votes grounded. -/
theorem grounded_of_moves {s s' : State} {l : Label} (hs : s.Sound) (hg : Grounded s.db)
    (h : Moves s l s') : Grounded s'.db := by
  cases h with
  | tick | invoked | missing | fetched | opened | closed | refused | voidRefused => exact hg
  | logged => exact ⟨hg.nominees, hg.votes⟩
  | @inserted i a c t vk ak votes audit e hi hf ht hv he ha hx =>
    obtain ⟨hc, -⟩ : (Phase.checked a c t).Sound s.db := hi ▸ hs i
    refine ⟨hg.nominees, fun v hmem => ?_⟩
    replace hmem : v ∈ votes.rows := hmem
    rw [hv] at hmem
    rcases List.mem_append.mp hmem with hmem | hmem
    · exact hg.votes v hmem
    · rw [List.mem_singleton.mp hmem]
      exact grounded_newVote hc a.voter a.request s.now vk
  | @voided i a ak vote votes audit e hi hm hid hact hv he ha hx =>
    refine ⟨hg.nominees, fun v hmem => ?_⟩
    replace hmem : v ∈ votes.rows := hmem
    rw [hv] at hmem
    obtain ⟨w, hw, rfl⟩ := List.mem_map.mp hmem
    by_cases hid' : w.id = vote.id
    · rw [if_pos hid']
      exact hg.votes vote hm
    · rw [if_neg hid']
      exact hg.votes w hw

/-- Votes that start grounded stay grounded. -/
theorem grounded_of_run {s s' : State} {l : List Label} (hs : s.Quiet) (hg : Grounded s.db)
    (hr : run step s l = some s') : Grounded s'.db := by
  have h : s'.Sound ∧ Grounded s'.db :=
    run_inv (fun m : State => m.Sound ∧ Grounded m.db)
      (fun m k m' hm hk => ⟨sound_of_moves hm.1 (moves_of_step hk),
        grounded_of_moves hm.1 hm.2 (moves_of_step hk)⟩) ⟨sound_of_quiet hs, hg⟩ hr
  exact h.2

/-! ### A small run -/

/-- The gala database at an instant of its voting window, before any call. -/
def galaState : State where
  db := galaDb
  now := 150
  calls := fun _ => .idle

/-- A cast by voter 50 for a nomination of the gala. -/
def galaCast (nomination : Id) : Call :=
  .cast { voter := 50, nomination, request := ⟨none, "", .voter 50⟩ }

/-- Two racing casts of one voter; the one that wins is voided. -/
def galaRace : List Label :=
  [.invoke 0 (galaCast 40), .invoke 1 (galaCast 41), .fetch 0, .fetch 1, .check 1, .check 0,
    .insert 1 ⟨60, 1⟩ ⟨70, 1⟩, .tick 5, .insert 0 ⟨61, 2⟩ ⟨71, 2⟩, .logDuplicate 0 ⟨71, 2⟩,
    .invoke 2 (.void ⟨60, 5, "fraud", none⟩), .void 2 ⟨72, 3⟩]

end KwAwards.Voting.Concurrent
