import KwAwards.Api.Integrity
import KwAwards.Voting.FinalResults

/-! # Results are final

While the status of an event is not VOTING_OPEN, only an event admin can take away from its results
or add votes to them: in every run without a request of one, the entries keep their votes, their
ranks and their order, and what a moderator approves in the meantime is shown without votes
(`final_of_run`). -/

namespace KwAwards.Api.Finality

open KwAwards.Lib.Tables KwAwards.Lib.Run KwAwards.Common.Base KwAwards.Accounts.Permissions
open KwAwards.Events.Models KwAwards.Events.Reads KwAwards.Nominations.Models
open KwAwards.Nominations.Services KwAwards.Nominations.Submission KwAwards.Voting.Votes
open KwAwards.Voting.Services KwAwards.Voting.Otp KwAwards.Voting.Entries KwAwards.Voting.Purge
open KwAwards.Voting.EventResults KwAwards.Voting.FinalResults KwAwards.Store KwAwards.References
open KwAwards.Api.Dispatch KwAwards.Api.Actions KwAwards.Api.Guards KwAwards.Api.Provenance
open KwAwards.Api.Integrity
open KwAwards.Platform (Op LegitVote)

/-! ### What a step keeps -/

/-- **The nominees and the nominations that were decided** are kept. -/
structure DecisionsKept (db db' : Database) : Prop where
  nominees : ∀ k m, db.nominees.get? k = some m → db'.nominees.get? k = some m
  decided : ∀ k n, db.nominations.get? k = some n → n.status ≠ .pending → ∃ n',
    db'.nominations.get? k = some n' ∧ n'.nominee = n.nominee ∧ n'.award = n.award ∧
    n'.status = n.status

theorem decisionsKept_of_eq {db db' : Database} (hm : db'.nominees = db.nominees)
    (hn : db'.nominations = db.nominations) : DecisionsKept db db' :=
  ⟨fun _ _ h => by rw [hm, h], fun _ n h _ => ⟨n, by rw [hn, h], rfl, rfl, rfl⟩⟩

theorem get?_of_insert_of_some {α κ : Type*} [Keyed α κ] [DecidableEq κ] {t t' : Table α}
    {row r : α} {k : κ} (h : t.insert row = some t') (hk : t.get? k = some r) :
    t'.get? k = some r := by
  obtain ⟨hfresh, -⟩ := Table.insert_eq_some.mp h
  rw [Table.get?_of_insert h, if_neg, hk]
  rintro rfl
  rw [hfresh] at hk
  cases hk

/-- An operation that takes no event admin. -/
theorem decisionsKept_of_platform {pcfg : Platform.Config} {p p' : Platform.State} {op : Op}
    (h : Platform.step pcfg p op = some p') (hrole : roleOf op ≠ some eventAdmin) :
    DecisionsKept p.db p'.db := by
  cases op with
  | changeStatus | createEvent | updateEvent | destroyEvent | createCategory | updateCategory
  | destroyCategory | createAward | updateAward | destroyAward | voidVote => exact absurd rfl hrole
  | submitNomination captcha a user client now nominee nk ak =>
    obtain ⟨⟨db, x⟩, hx, rfl⟩ := Option.map_eq_some_iff.mp h
    obtain ⟨rfl, -⟩ | ⟨d, nominees, nominations, _, _, -, hm, hn, -, -, -, rfl⟩ :=
      createNomination_cases hx
    · exact decisionsKept_of_eq rfl rfl
    · exact ⟨fun k m hk => get?_of_insert_of_some hm hk,
        fun k n hk _ => ⟨n, get?_of_insert_of_some hn hk, rfl, rfl, rfl⟩⟩
  | reviewNomination a now ak =>
    obtain ⟨⟨db, x⟩, hx, rfl⟩ := Option.map_eq_some_iff.mp h
    obtain ⟨rfl, -⟩ | ⟨locked, _, _, hget, hpending, -, -, -, rfl⟩ := reviewNomination_cases hx
    · exact decisionsKept_of_eq rfl rfl
    · refine ⟨fun _ _ hk => hk, fun k n hk hs => ⟨n, ?_, rfl, rfl, rfl⟩⟩
      show (p.db.nominations.put (reviewed locked a now)).get? k = some n
      have hid : locked.id = a.nomination := Table.key_of_get? hget
      rw [Table.get?_put, if_neg, hk]
      -- the reviewed row was pending
      intro hkey
      replace hkey : k = a.nomination := hkey.trans hid
      rw [hkey, hget] at hk
      exact hs (Option.some.inj hk ▸ hpending)
  | requestOtp phoneE164 client code now vk ck ak =>
    obtain ⟨⟨db, cache, x⟩, hx, rfl⟩ := Option.map_eq_some_iff.mp h
    obtain ⟨db₁, _, _, _, _, hv, -, -, -, -, rfl⟩ := requestOtp_entry hx
    rcases getOrCreateVoter_cases hv with ⟨-, rfl⟩ | ⟨-, -, -, -, -, _, -, rfl⟩
    · exact decisionsKept_of_eq rfl rfl
    · exact decisionsKept_of_eq rfl rfl
  | verifyOtp phoneE164 code client now ak =>
    obtain ⟨⟨db, o, x⟩, hx, rfl⟩ := Option.map_eq_some_iff.mp h
    obtain ⟨_, _, _, -, -, ⟨_, -, -, -, -, rfl⟩ | ⟨-, -, rfl⟩⟩ := verifyOtp_entry hx
    · exact decisionsKept_of_eq rfl rfl
    · exact decisionsKept_of_eq rfl rfl
  | setBlocked voter blocked now =>
    obtain rfl := Option.some.inj h
    exact decisionsKept_of_eq rfl rfl
  | castVote header nomination client authAt checkAt now vk ak =>
    simp only [Platform.step] at h
    split at h
    · obtain ⟨⟨db, x⟩, hx, rfl⟩ := Option.map_eq_some_iff.mp h
      obtain rfl | ⟨_, _, _, -, -, -, -, rfl, -⟩ := castFreeVote_entry hx
      · exact decisionsKept_of_eq rfl rfl
      · exact decisionsKept_of_eq rfl rfl
    · obtain rfl := Option.some.inj h
      exact decisionsKept_of_eq rfl rfl
  | purge olderThanHours execute now =>
    obtain rfl := Option.some.inj h
    have hframe := (purged_handle p.db now olderThanHours execute).frame
    exact decisionsKept_of_eq (by rw [hframe]) (by rw [hframe])

theorem decisionsKept_forgotten (db : Database) (account : Id) : DecisionsKept db { db with
    nominations := db.nominations.map (forgetReviewer account) (id_forgetReviewer account) } := by
  refine ⟨fun _ _ hk => hk, fun k n hk _ => ⟨forgetReviewer account n, ?_, ?_⟩⟩
  · show (db.nominations.map (forgetReviewer account) (id_forgetReviewer account)).get? k = _
    rw [Table.get?_map, hk, Option.map_some]
  · unfold forgetReviewer
    split_ifs
    · exact ⟨rfl, rfl, rfl⟩
    · exact ⟨rfl, rfl, rfl⟩

variable {cfg : Config} {s s' : State} {i : Input}

theorem decisionsKept_of_step (h : step cfg s i = some s') (hno : ¬ Holds cfg s i eventAdmin) :
    DecisionsKept s.db s'.db := by
  cases happens_of_step h with
  | idle hdb | denied _ _ _ _ _ _ _ _ _ _ _ hdb | login _ _ _ _ _ _ _ _ _ _ hdb | blocked hdb =>
    exact decisionsKept_of_eq (by rw [hdb]) (by rw [hdb])
  | ran user op hauth hallow hruns hstep =>
    exact decisionsKept_of_platform hstep fun hrole => hno (holds_of_runs hauth hallow hruns hrole)
  | forgotten _ hdb =>
    rw [hdb]
    exact decisionsKept_forgotten s.db _
  | purged hdb =>
    have hframe := hdb.frame
    exact decisionsKept_of_eq (by rw [hframe]) (by rw [hframe])

/-- A step without a request of an event admin adds no vote in an event whose voting is not open. -/
theorem votesIn_of_step {e : Event} (h : step cfg s i = some s') (hno : ¬ Holds cfg s i eventAdmin)
    (he : s.db.events.get? e.id = some e) (hs : e.status ≠ .votingOpen) :
    (s'.db.votes.rows.filter fun v => v.event = e.id) = s.db.votes.rows.filter fun v =>
      v.event = e.id := by
  obtain hsame | ⟨call, r, m, user, op, rfl, hauth, hallow, hruns, hmove⟩ :=
    votes_of_happens (happens_of_step h)
  · rw [hsame]
  · cases hmove with
    | kept hsame => rw [hsame]
    | cast voter c _ _ hc hopen hrows =>
      obtain ⟨hj, -⟩ := getNomination_eq_some.mp hc
      obtain ⟨-, -, -, hevent⟩ := joined_eq_some.mp hj
      obtain ⟨-, hlinked⟩ := linked_of_joined hj
      have hne : c.event.id ≠ e.id := by
        intro hid
        rw [hlinked.event, hid, he] at hevent
        exact hs (Option.some.inj hevent ▸ (Event.votingIsOpen_iff.mp hopen).1)
      rw [hrows, List.filter_append, List.filter_singleton]
      simp [newVote, hne]
    | voided => exact absurd (holds_of_runs hauth hallow hruns rfl) hno

/-- **A step without a request of an event admin** keeps the tallies of an event whose voting is not
open. -/
theorem talliesKept_of_step {e : Event} (h : step cfg s i = some s')
    (hno : ¬ Holds cfg s i eventAdmin) (he : s.db.events.get? e.id = some e)
    (hs : e.status ≠ .votingOpen) : TalliesKept e.id s.db s'.db := by
  obtain ⟨hevents, hcategories, hawards, -⟩ := unadministered_of_step h hno
  obtain ⟨hnominees, hdecided⟩ := decisionsKept_of_step h hno
  exact ⟨hevents, hcategories, hawards, hnominees, hdecided, votesIn_of_step h hno he hs⟩

/-! ### Every run -/

theorem talliesKept_of_run {e : Event} {l : List Input} (hr : run (step cfg) s l = some s')
    (hno : Along (step cfg) (fun s i _ => ¬ Holds cfg s i eventAdmin) s l)
    (he : s.db.events.get? e.id = some e) (hs : e.status ≠ .votingOpen) :
    TalliesKept e.id s.db s'.db := by
  refine run_inv_along (fun t => TalliesKept e.id s.db t.db) (fun t i t' hkept hi ht => ?_)
    (talliesKept_refl e.id s.db) hno hr
  exact hkept.trans (talliesKept_of_step ht hi (by rw [hkept.events, he]) hs)

/-- Nominations that are approved at the end were approved at the start, where no moderator made a
request. -/
theorem approved_of_undecided (h : Undecided s s') {n' : Nomination}
    (hn' : n' ∈ s'.db.nominations.rows) (hs : n'.status = .approved) :
    ∃ n, s.db.nominations.get? n'.id = some n ∧ n.status = .approved := by
  obtain ⟨new, hrows, hnew⟩ := h
  have hmem : decision n' ∈ s.db.nominations.rows.map decision ++ new :=
    hrows ▸ List.mem_map_of_mem hn'
  rcases List.mem_append.mp hmem with hold | hpending
  · obtain ⟨n, hn, heq⟩ := List.mem_map.mp hold
    have hid : n.id = n'.id := congrArg (fun d => d.1) heq
    have hstatus : n.status = n'.status := congrArg (fun d => d.2.2.2) heq
    exact ⟨n, hid ▸ Table.get?_key hn, hstatus.trans hs⟩
  · exact absurd (hs.symm.trans (hnew _ hpending)) (by decide)

/-- **Results are final.** From every state that is reached from the one without rows, in every run
without a request of an event admin, the results of an event whose status is not VOTING_OPEN keep
what they show: each entry has the votes and the rank it had, in the order it had, the totals are
the same, and an entry that is new has no votes. Without a request of a moderator the results are
the same. -/
theorem final_of_run {e : Event} {l₀ l : List Input} (hr₀ : run (step cfg) (fresh {}) l₀ = some s)
    (hr : run (step cfg) s l = some s')
    (hno : Along (step cfg) (fun s i _ => ¬ Holds cfg s i eventAdmin) s l)
    (he : s.db.events.get? e.id = some e) (hs : e.status ≠ .votingOpen)
    (cmp : Column → Column → Ordering) (lower url : String → String) (now : Time) :
    s'.db.events.get? e.id = some e ∧
      ExtendsResults (eventResults cmp lower url s.db now e)
        (eventResults cmp lower url s'.db now e) ∧
      (Along (step cfg) (fun s i _ => ¬ Holds cfg s i moderator) s l →
        eventResults cmp lower url s'.db now e = eventResults cmp lower url s.db now e) := by
  have hkept := talliesKept_of_run hr hno he hs
  have hi := (stored_of_run stored_fresh hr₀).database
  refine ⟨by rw [hkept.events, he], ?_, fun hno' => ?_⟩
  · exact extends_of_kept cmp lower url hkept hi (sound_of_run rfl hr₀).1 now now
  · have hundecided := undecided_of_run hr hno hno'
    exact eventResults_eq cmp lower url hkept hi
      (fun n' hn' => approved_of_undecided hundecided hn') now

/-- A season with a second nomination; its voting is closed, and the results are published. -/
def published : List Input :=
  season.take 6 ++
    [.saveAccount { id := 8, email := "clerk@awards.test", isStaff := true, groups := [moderator] },
      .request
        (.submitNomination true
          { annAttrs with name := "Bob", contactEmail := some "bob@awards.test" } 31
        ⟨41, 2⟩) {} (moment 25 ⟨90, 9⟩)] ++
    season.drop 6 ++
    [.request (.setStatus "gala" (.ok .closed)) (withToken "chair") (moment 91 ⟨91, 10⟩),
      .request (.setStatus "gala" (.ok .resultsPublished)) (withToken "chair") (moment 92 ⟨92, 11⟩)]

/-- The moderator approves the second nomination, and the voter would vote for it. -/
def lateApproval : List Input :=
  [.request (.approve 41) (withToken "clerk") (moment 93 ⟨93, 12⟩),
    .request (.castVote (.ok 41) 94 ⟨61, 2⟩) (withToken "ann") (moment 94 ⟨94, 13⟩)]

/-- The nominations that are approved. -/
def approvedIds (s : State) : List Id :=
  (s.db.nominations.rows.filter fun n => n.status = .approved).map Nomination.id

/-- Columns by their numbers, which is how the nominations of an event are ordered. -/
def byNumber : Column → Column → Ordering
  | .num n, .num n' => compare n n'
  | _, _ => .eq

theorem final_of_run_lateApproval :
    ∃ s s' e, run (step demo) (fresh {}) published = some s ∧
      run (step demo) s lateApproval = some s' ∧
      (e.status = .resultsPublished ∧ approvedIds s = [40] ∧ approvedIds s' = [40, 41]) ∧
      s'.db.events.get? e.id = some e ∧
      ExtendsResults (eventResults byNumber Common.Base.lower ("/media/" ++ ·) s.db 95 e)
        (eventResults byNumber Common.Base.lower ("/media/" ++ ·) s'.db 95 e) := by
  have hrun : ((run (step demo) (fresh {}) published).bind fun s =>
      (run (step demo) s lateApproval).map fun s' => (approvedIds s, approvedIds s',
        decide (Along (step demo) (fun s i _ => ¬ Holds demo s i eventAdmin) s lateApproval),
        (s.db.events.get? 1).map Event.status)) =
      some ([40], [40, 41], true, some .resultsPublished) := by decide +kernel
  obtain ⟨s, hs, hrun⟩ := Option.bind_eq_some_iff.mp hrun
  obtain ⟨s', hs', hrun⟩ := Option.map_eq_some_iff.mp hrun
  obtain ⟨hbefore, hrun⟩ := Prod.mk.inj hrun
  obtain ⟨hafter, hrun⟩ := Prod.mk.inj hrun
  obtain ⟨hno, hstatus⟩ := Prod.mk.inj hrun
  obtain ⟨e, he, hstatus⟩ := Option.map_eq_some_iff.mp hstatus
  have hid : e.id = 1 := Table.key_of_get? he
  obtain ⟨hevent, hresults, -⟩ := final_of_run hs hs' (of_decide_eq_true hno) (hid.symm ▸ he)
    (by rw [hstatus]; decide) byNumber Common.Base.lower
    ("/media/" ++ ·) 95
  exact ⟨s, s', e, hs, hs', ⟨hstatus, hbefore, hafter⟩, hevent, hresults⟩

end KwAwards.Api.Finality
