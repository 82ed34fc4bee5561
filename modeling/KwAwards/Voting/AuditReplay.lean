import KwAwards.Lib.Run
import KwAwards.Voting.Concurrent
import KwAwards.Voting.Results

/-! # The audit log replays to the tally

Votes, audit entries and tallies are written independently. `Replayed` ties them together: the
`VOTE_CAST` entries are the votes, in the same order, and the `VOTE_VOIDED` entries are the voided
votes. `replayed_of_moves` keeps it over every step; `auditReplays_of_replayed` counts. -/

namespace KwAwards.Voting.AuditReplay

open KwAwards.Lib.Tables KwAwards.Lib.Run KwAwards.Lib.Group KwAwards.Common.Base
open KwAwards.Audit.Log KwAwards.Nominations.Models KwAwards.Voting.Votes KwAwards.Store
open KwAwards.Voting.Services KwAwards.Voting.Concurrent KwAwards.Voting.Results

/-- The entries of one action. -/
def entriesOf (action : AuditAction) (db : Database) : List AuditLog :=
  db.audit.rows.filter fun e => e.action = action

/-- How many entries of an action target a vote. -/
def targeting (action : AuditAction) (v : Vote) (db : Database) : ℕ :=
  (entriesOf action db).countP fun e => e.target = some (voteTarget v)

/-- How many entries of an action have a nomination in their metadata. -/
def about (action : AuditAction) (nomination : Id) (db : Database) : ℕ :=
  (entriesOf action db).countP fun e => e.meta? "nomination_id" = some (.id nomination)

/-- What an entry says of a vote: its target and its nomination. -/
def entryStamp (e : AuditLog) : Option Target × Option MetaValue :=
  (e.target, e.meta? "nomination_id")

def voteStamp (v : Vote) : Option Target × Option MetaValue :=
  (some (voteTarget v), some (.id v.nomination))

/-- The voided votes. -/
def voidedVotes (db : Database) : List Vote := db.votes.rows.filter fun v => !v.active

/-- **The invariant:** the entries are the votes. -/
structure Replayed (db : Database) : Prop where
  casts : (entriesOf .voteCast db).map entryStamp = db.votes.rows.map voteStamp
  voids : List.Perm ((entriesOf .voteVoided db).map entryStamp) ((voidedVotes db).map voteStamp)
  free : ∀ v ∈ db.votes.rows, v.source = .free

theorem entriesOf_append {db db' : Database} {e : AuditLog} (action : AuditAction)
    (h : db'.audit.rows = db.audit.rows ++ [e]) : entriesOf action db' =
      entriesOf action db ++ if e.action = action then [e] else [] := by
  rw [entriesOf, h, List.filter_append]
  by_cases he : e.action = action <;> simp [entriesOf, he]

theorem voteStamp_void (v : Vote) (byUser : Id) (reason : String) (now : Time) :
    voteStamp (void v byUser reason now) = voteStamp v := rfl

/-- An entry that is about no vote. -/
theorem Replayed.log {db : Database} (hp : Replayed db) {audit : Table AuditLog} {e : AuditLog}
    (ha : audit.rows = db.audit.rows ++ [e]) (hact : e.action = .voteDuplicate) :
    Replayed { db with audit } := by
  have hentries : ∀ action, action ≠ .voteDuplicate →
      entriesOf action { db with audit } = entriesOf action db := by
    intro action hne
    rw [entriesOf_append action ha, hact, if_neg (Ne.symm hne), List.append_nil]
  constructor
  · exact (congrArg (List.map entryStamp) (hentries .voteCast (by decide))).trans hp.casts
  · exact (congrArg (List.map entryStamp) (hentries .voteVoided (by decide))) ▸ hp.voids
  · exact hp.free

/-- A new free vote, and its entry. -/
theorem Replayed.insert {db : Database} (hp : Replayed db) {v : Vote} {votes : VoteTable}
    {audit : Table AuditLog} {e : AuditLog} (hfree : v.source = .free) (hactive : v.active = true)
    (hv : votes.rows = db.votes.rows ++ [v]) (ha : audit.rows = db.audit.rows ++ [e])
    (hact : e.action = .voteCast) (hstamp : entryStamp e = voteStamp v) :
    Replayed { db with votes, audit } := by
  have hcast : entriesOf .voteCast { db with votes, audit } = entriesOf .voteCast db ++ [e] := by
    rw [entriesOf_append .voteCast ha, if_pos hact]
  have hvoid : entriesOf .voteVoided { db with votes, audit } = entriesOf .voteVoided db := by
    rw [entriesOf_append .voteVoided ha, hact, if_neg (by decide), List.append_nil]
  constructor
  · show (entriesOf .voteCast { db with votes, audit }).map entryStamp = votes.rows.map voteStamp
    rw [hcast, hv, List.map_append, List.map_append, hp.casts, List.map_singleton,
      List.map_singleton, hstamp]
  · show List.Perm ((entriesOf .voteVoided { db with votes, audit }).map entryStamp)
      ((votes.rows.filter fun v => !v.active).map voteStamp)
    have hnil : [v].filter (fun v => !v.active) = [] := by simp [hactive]
    rw [hvoid, hv, List.filter_append, hnil, List.append_nil]
    exact hp.voids
  · intro w hmem
    replace hmem : w ∈ votes.rows := hmem
    rw [hv] at hmem
    rcases List.mem_append.mp hmem with hmem | hmem
    · exact hp.free w hmem
    · rw [List.mem_singleton.mp hmem]
      exact hfree

/-- A vote that is voided, and its entry. -/
theorem Replayed.void {db : Database} (hp : Replayed db) {vote : Vote} {byUser : Id}
    {reason : String} {now : Time} {votes : VoteTable} {audit : Table AuditLog} {e : AuditLog}
    (hm : vote ∈ db.votes.rows) (hact : vote.voidedAt = none)
    (hv : votes.rows = db.votes.rows.map fun v =>
      if v.id = vote.id then Services.void vote byUser reason now else v)
    (ha : audit.rows = db.audit.rows ++ [e]) (haction : e.action = .voteVoided)
    (hstamp : entryStamp e = voteStamp vote) : Replayed { db with votes, audit } := by
  obtain ⟨l₁, l₂, hsplit, hmap⟩ := VoteTable.exists_split hm (Services.void vote byUser reason now)
  rw [hmap] at hv
  have hcast : entriesOf .voteCast { db with votes, audit } = entriesOf .voteCast db := by
    rw [entriesOf_append .voteCast ha, haction, if_neg (by decide), List.append_nil]
  have hvoid : entriesOf .voteVoided { db with votes, audit } = entriesOf .voteVoided db ++
      [e] := by
    rw [entriesOf_append .voteVoided ha, if_pos haction]
  constructor
  · show (entriesOf .voteCast { db with votes, audit }).map entryStamp = votes.rows.map voteStamp
    rw [hcast, hp.casts, hsplit, hv]
    simp only [List.map_append, List.map_cons, voteStamp_void]
  · show List.Perm ((entriesOf .voteVoided { db with votes, audit }).map entryStamp)
      ((votes.rows.filter fun v => !v.active).map voteStamp)
    have hvoids := hp.voids
    have hactive : vote.active = true := by rw [Vote.active, hact]; rfl
    rw [voidedVotes, hsplit] at hvoids
    rw [hvoid, hv]
    simp only [List.map_append, List.map_singleton, List.filter_append, List.filter_cons, hstamp,
      hactive, Bool.not_true, Bool.false_eq_true, if_false] at hvoids ⊢
    have hinactive : (!(Services.void vote byUser reason now).active) = true := rfl
    rw [if_pos hinactive, List.map_cons, voteStamp_void]
    exact (hvoids.append_right _).trans (List.perm_append_singleton _ _ |>.trans
      List.perm_middle.symm)
  · intro v hmem
    replace hmem : v ∈ votes.rows := hmem
    rw [hv] at hmem
    rcases List.mem_append.mp hmem with hmem | hmem
    · exact hp.free v (hsplit ▸ List.mem_append_left _ hmem)
    · rcases List.mem_cons.mp hmem with rfl | hmem
      · exact hp.free vote hm
      · exact hp.free v (hsplit ▸ List.mem_append_right _ (List.mem_cons_of_mem _ hmem))

/-- **A step keeps the invariant.** -/
theorem replayed_of_moves {s s' : State} {l : Label} (hp : Replayed s.db) (h : Moves s l s') :
    Replayed s'.db := by
  cases h with
  | tick | invoked | missing | fetched | opened | closed | refused | voidRefused => exact hp
  | @logged i a c t ak audit e hi he ha =>
    obtain ⟨-, -, hact, -⟩ := log_eq_some he
    exact hp.log ha hact
  | @inserted i a c t vk ak votes audit e hi hf ht hv he ha hx =>
    obtain ⟨-, -, hact, htarget, hmeta, -⟩ := log_eq_some he
    have hstamp : entryStamp e = voteStamp (newVote c a.voter a.request s.now vk) := by
      rw [entryStamp, htarget, AuditLog.meta?, hmeta]; rfl
    exact hp.insert rfl rfl hv ha hact hstamp
  | @voided i a ak vote votes audit e hi hm hid hact hv he ha hx =>
    obtain ⟨-, -, haction, htarget, hmeta, -⟩ := log_eq_some he
    have hstamp : entryStamp e = voteStamp vote := by
      rw [entryStamp, htarget, AuditLog.meta?, hmeta]; rfl
    exact hp.void hm hact hv ha haction hstamp

theorem replayed_of_run {s s' : State} {l : List Label} (hp : Replayed s.db)
    (hr : run step s l = some s') : Replayed s'.db :=
  run_inv (fun m : State => Replayed m.db)
    (fun _ _ _ hm hk => replayed_of_moves hm (moves_of_step hk)) hp hr

/-! ### Counting -/

/-- A row is the only one of its list with its primary key. -/
theorem countP_id {l : List Vote} (hn : (l.map Vote.id).Nodup) {v : Vote} (hv : v ∈ l) :
    (l.countP fun w => some (voteTarget w) = some (voteTarget v)) = 1 := by
  have hcount : (l.map Vote.id).count v.id = 1 :=
    List.count_eq_one_of_mem hn (List.mem_map_of_mem hv)
  rw [List.count, List.countP_map] at hcount
  rw [← hcount]
  refine List.countP_congr fun w _ => ?_
  simp [voteTarget]

theorem countP_target_eq_zero {l : List Vote} {v : Vote} (h : ∀ w ∈ l, w.id ≠ v.id) :
    (l.countP fun w => some (voteTarget w) = some (voteTarget v)) = 0 := by
  rw [List.countP_eq_zero]
  intro w hw
  simpa [voteTarget] using h w hw

section Counts

variable {db : Database}

theorem targeting_voteCast (hp : Replayed db) (v : Vote) : targeting .voteCast v db =
    db.votes.rows.countP fun w => some (voteTarget w) = some (voteTarget v) := by
  have h := congrArg (List.countP fun st => st.1 = some (voteTarget v)) hp.casts
  rwa [List.countP_map, List.countP_map] at h

theorem targeting_voteVoided (hp : Replayed db) (v : Vote) : targeting .voteVoided v db =
    (voidedVotes db).countP fun w => some (voteTarget w) = some (voteTarget v) := by
  have h := hp.voids.countP_eq fun st => st.1 = some (voteTarget v)
  rwa [List.countP_map, List.countP_map] at h

theorem about_voteCast (hp : Replayed db) (n : Id) :
    about .voteCast n db = db.votes.rows.countP fun w => w.nomination = n := by
  have h := congrArg (List.countP fun st => st.2 = some (.id n)) hp.casts
  rw [List.countP_map, List.countP_map] at h
  refine h.trans (List.countP_congr fun w _ => ?_)
  simp [voteStamp]

theorem about_voteVoided (hp : Replayed db) (n : Id) :
    about .voteVoided n db = (voidedVotes db).countP fun w => w.nomination = n := by
  have h := hp.voids.countP_eq fun st => st.2 = some (.id n)
  rw [List.countP_map, List.countP_map] at h
  refine h.trans (List.countP_congr fun w _ => ?_)
  simp [voteStamp]

/-- With free votes only, a nomination's votes are the number of its non-voided votes. -/
theorem votesFor_eq_countP (hp : Replayed db) (hg : Grounded db) {n : Nomination}
    (hn : n ∈ db.nominations.rows) :
    votesFor db n.award n.id = (activeVotes db).countP fun w => w.nomination = n.id := by
  unfold votesFor sumAt activeVotes
  have hone : ∀ v ∈ (((db.votes.rows.filter Vote.active).filter fun v => v.award = n.award).filter
      fun v => v.nomination = n.id), v.quantity = 1 := by
    intro v hv
    have hmem : v ∈ db.votes.rows :=
      List.mem_of_mem_filter (List.mem_of_mem_filter (List.mem_of_mem_filter hv))
    exact Vote.quantity_of_free (db.votes.checked v hmem) (hp.free v hmem)
  rw [List.map_congr_left hone, List.map_const', List.sum_replicate, smul_eq_mul, mul_one,
    ← List.countP_eq_length_filter, List.countP_filter]
  refine List.countP_congr fun v hv => ?_
  -- the award of a vote is that of its nomination
  have haward : v.nomination = n.id → v.award = n.award := by
    intro hid
    obtain ⟨n', hn', hid', -, haward⟩ := hg.votes v (List.mem_of_mem_filter hv)
    obtain rfl := Table.eq_of_key hn' hn (hid'.trans hid)
    exact haward.symm
  simp only [Bool.and_eq_true, decide_eq_true_eq]
  exact ⟨fun h => h.1, fun h => ⟨h, haward h⟩⟩

/-- A nomination's votes and its voided votes are all votes cast for it. -/
theorem votesFor_add_voided (hp : Replayed db) (hg : Grounded db) {n : Nomination}
    (hn : n ∈ db.nominations.rows) :
    votesFor db n.award n.id + about .voteVoided n.id db = about .voteCast n.id db := by
  rw [votesFor_eq_countP hp hg hn, about_voteVoided hp, about_voteCast hp]
  exact (List.countP_eq_countP_filter_add _ _ _).symm

end Counts

/-- The audit log of a database replays to its votes and its tallies. -/
structure AuditReplays (lower url : String → String) (db : Database) : Prop where
  cast : ∀ v ∈ db.votes.rows, targeting .voteCast v db = 1
  target : ∀ e ∈ entriesOf .voteCast db, ∃! v, v ∈ db.votes.rows ∧ e.target = some (voteTarget v)
  voided : ∀ v ∈ db.votes.rows, (v.voidedAt ≠ none ↔ targeting .voteVoided v db = 1) ∧
    (v.voidedAt = none ↔ targeting .voteVoided v db = 0)
  shown : ∀ n ∈ db.nominations.rows, n.status = .approved →
    ∃ e ∈ awardTally lower url db n.award, e.nominationId = n.id
  tally : ∀ n ∈ db.nominations.rows, ∀ e ∈ awardTally lower url db n.award, e.nominationId = n.id →
    (e.votes : ℤ) = about .voteCast n.id db - about .voteVoided n.id db

theorem auditReplays_of_replayed (lower url : String → String) {db : Database} (hp : Replayed db)
    (hg : Grounded db) : AuditReplays lower url db where
  cast := fun v hv => (targeting_voteCast hp v).trans (countP_id db.votes.nodup_ids hv)
  target := by
    intro e he
    have hmem : entryStamp e ∈ db.votes.rows.map voteStamp :=
      hp.casts ▸ List.mem_map_of_mem he
    obtain ⟨v, hv, hstamp⟩ := List.mem_map.mp hmem
    refine ⟨v, ⟨hv, (congrArg Prod.fst hstamp).symm⟩, fun w hw => ?_⟩
    have hid : some (voteTarget w) = some (voteTarget v) :=
      hw.2.symm.trans (congrArg Prod.fst hstamp).symm
    simp only [Option.some.injEq, voteTarget, Target.mk.injEq, true_and] at hid
    exact VoteTable.eq_of_id hw.1 hv hid
  voided := by
    intro v hv
    rw [targeting_voteVoided hp v]
    by_cases hvoid : v.voidedAt = none
    · have hnone : ∀ w ∈ voidedVotes db, w.id ≠ v.id := by
        intro w hw hid
        obtain ⟨hmem, hact⟩ := List.mem_filter.mp hw
        obtain rfl := VoteTable.eq_of_id hmem hv hid
        rw [Vote.active, hvoid] at hact
        simp at hact
      rw [countP_target_eq_zero hnone]
      simp [hvoid]
    · have hmem : v ∈ voidedVotes db := by
        refine List.mem_filter.mpr ⟨hv, ?_⟩
        rw [Vote.active]
        cases hat : v.voidedAt with
        | none => exact absurd hat hvoid
        | some _ => rfl
      have hn : ((voidedVotes db).map Vote.id).Nodup :=
        db.votes.nodup_ids.sublist (List.filter_sublist.map _)
      rw [countP_id hn hmem]
      simp [hvoid]
  shown := fun n hn happroved => exists_mem_awardTally lower url hn happroved (hg.nominees n hn)
  tally := by
    intro n hn e he hid
    have hvotes : e.votes = votesFor db n.award n.id := hid ▸ votes_of_mem_awardTally he
    have hsum := votesFor_add_voided hp hg hn
    omega

/-- **The audit log replays to the tally**, in every state that casts and voids reach from an empty
vote table whose log has no entries of theirs. -/
theorem audit_log_replays {s s' : State} {l : List Label} (lower url : String → String)
    (hs : s.Quiet) (hvotes : s.db.votes.rows = [])
    (hlog : ∀ e ∈ s.db.audit.rows, e.action ≠ .voteCast ∧ e.action ≠ .voteVoided)
    (hnominees : ∀ n ∈ s.db.nominations.rows, (s.db.nominees.get? n.nominee).isSome)
    (hr : run step s l = some s') : AuditReplays lower url s'.db := by
  have hg : Grounded s.db := ⟨hnominees, by simp [hvotes]⟩
  have hp : Replayed s.db := by
    have hcast : entriesOf .voteCast s.db = [] :=
      List.filter_eq_nil_iff.mpr fun e he => by simpa using (hlog e he).1
    have hvoid : entriesOf .voteVoided s.db = [] :=
      List.filter_eq_nil_iff.mpr fun e he => by simpa using (hlog e he).2
    refine ⟨?_, ?_, by simp [hvotes]⟩
    · rw [hcast, hvotes]; rfl
    · rw [hvoid, voidedVotes, hvotes]; exact List.Perm.refl _
  exact auditReplays_of_replayed lower url (replayed_of_run hp hr) (grounded_of_run hs hg hr)

theorem audit_log_replays_gala :
    ∃ s', run step galaState galaRace = some s' ∧ AuditReplays lower id s'.db := by
  have hsome : (run step galaState galaRace).isSome := by decide
  obtain ⟨s', hr⟩ := Option.isSome_iff_exists.mp hsome
  refine ⟨s', hr, audit_log_replays lower id (fun _ => rfl) rfl ?_ ?_ hr⟩
  · intro e he
    cases he
  · show ∀ n ∈ galaDb.nominations.rows, (galaDb.nominees.get? n.nominee).isSome
    decide

end KwAwards.Voting.AuditReplay
