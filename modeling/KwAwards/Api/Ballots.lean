import KwAwards.Api.Journal
import KwAwards.Api.Provenance
import KwAwards.Api.RateLimits
import KwAwards.Voting.BallotBox

/-! # The API is a ballot box

A cast or a void that is answered with success is a ballot (`ballotsIn`); nothing else is. In every
run the ballots, in the order of the answers, can be cast into an empty box and leave in it what the
vote table holds (`boxed_of_step`), a further cast is answered with success exactly where no ballot
stands, and the tallies count the ballots that stand (`ballots_of_run`). -/

namespace KwAwards.Api.Ballots

open KwAwards.Lib.Tables KwAwards.Lib.Run KwAwards.Lib.Ballots KwAwards.Common.Base
open KwAwards.Common.Exceptions KwAwards.Accounts.Authentication KwAwards.Accounts.Permissions
open KwAwards.Audit.Log KwAwards.Nominations.Models KwAwards.Voting.Models KwAwards.Voting.Votes
open KwAwards.Voting.Votes.VoteTable KwAwards.Voting.Services KwAwards.Voting.Results
open KwAwards.Voting.Entries KwAwards.Voting.BallotBox KwAwards.Store KwAwards.Api.Dispatch
open KwAwards.Api.Actions KwAwards.Api.Provenance KwAwards.Api.Journal KwAwards.Api.RateLimits
open KwAwards.Platform (Op LegitVote)

/-- **The ballot of a request** that is answered with success: of a cast, for the award of its
nomination, and of a void, the withdrawal of the vote's. -/
def ballotsIn (cfg : Config) (s : State) : Input → State → List (Ballot Id Id Id)
  | .request (.castVote (.ok nomination) checkAt vk) r m, _ =>
    match authenticated cfg s (.castVote (.ok nomination) checkAt vk) r m,
      getNomination s.db nomination,
        dispatch cfg s (.castVote (.ok nomination) checkAt vk) r m with
    | .ok (.voter v), some c, some (_, .ok ()) => [.cast v.id c.award.id nomination]
    | _, _, _ => []
  | .request (.voidVote pk data) r m, _ =>
    match s.db.votes.get? pk, dispatch cfg s (.voidVote pk data) r m with
    | some vote, some (_, .ok ()) => [.withdraw vote.voter vote.award]
    | _, _ => []
  | _, _ => []

/-- The ballots of a run. -/
def ballots (cfg : Config) (s : State) (l : List Input) : List (Ballot Id Id Id) :=
  emitted (step cfg) (ballotsIn cfg) s l

variable {cfg : Config} {s s' : State} {call : Call} {r : HttpRequest} {m : Moment}

/-! ### One step -/

/-- What a step with a ballot, or without one, does to the box. -/
structure Boxed (db db' : Database) (l : List (Ballot Id Id Id)) : Prop where
  box : run Lib.Ballots.step (boxOf db.votes) l = some (boxOf db'.votes)
  free : AllFree db'.votes

theorem boxed_of_kept {db db' : Database} (hfree : AllFree db.votes) (h : db'.votes = db.votes) :
    Boxed db db' [] :=
  ⟨by rw [run_nil, h], h ▸ hfree⟩

/-- A request that gets to a cast, with its voter. -/
theorem voter_of_permitted {data : Except ApiError Id} {checkAt : Time} {vk : Keys}
    {user : RequestUser} (h : permitted cfg s (.castVote data checkAt vk) r m = some user) :
    ∃ v, user = .voter v ∧ authenticated cfg s (.castVote data checkAt vk) r m =
      .ok (.voter v) := by
  obtain ⟨hauth, hallow⟩ := permitted_eq_some.mp h
  have hvoter := firstDenial_eq_none hallow _ (List.mem_singleton_self Permission.isVoter)
  rcases user with _ | account | v
  · cases hvoter
  · cases hvoter
  · exact ⟨v, rfl, hauth⟩

/-- **How a cast is answered:** with success where no ballot of the voter for the award stands, and
else with an error, that of a second ballot where voting for the nomination is open. -/
theorem answer_of_cast {nomination : Id} {checkAt : Time} {vk : Keys} {res : Except Stop Unit}
    (h : dispatch cfg s (.castVote (.ok nomination) checkAt vk) r m = some (s', res)) :
    (∃ v c now request, authenticated cfg s (.castVote (.ok nomination) checkAt vk) r m =
      .ok (.voter v) ∧
        getNomination s.db nomination = some c ∧ res = .ok () ∧ ¬ Taken s.db.votes v.id c.award.id ∧
        s'.db.votes.rows = s.db.votes.rows ++ [newVote c v.id request now vk]) ∨
      (s'.db.votes = s.db.votes ∧ ∃ stop, res = .error stop ∧
        (letThrough cfg s (.castVote (.ok nomination) checkAt vk) r m = true → ∀ v c,
          authenticated cfg s (.castVote (.ok nomination) checkAt vk) r m = .ok (.voter v) →
          getNomination s.db nomination = some c → c.event.votingIsOpen checkAt = true →
            Taken s.db.votes v.id c.award.id ∧ stop = .raised (.api .alreadyVoted))) := by
  obtain ⟨hnot, haudit, stop, rfl⟩ | ⟨user, throttles, -, hpermitted, hact⟩ := act_of_dispatch h
  · refine Or.inr ⟨by rw [haudit], stop, rfl, fun hthrough => ?_⟩
    rw [hnot] at hthrough
    cases hthrough
  · obtain ⟨v, rfl, hauth⟩ := voter_of_permitted hpermitted
    obtain ⟨db, rfl, ⟨y, hy, rfl⟩ | ⟨e, hy, rfl⟩⟩ := commit_cases hact
    · obtain ⟨c, hc, -, hfree, hrows⟩ | ⟨-, e, he, -⟩ := castFreeVote_outcome hy
      · exact Or.inl ⟨v, c, _, _, hauth, hc, rfl, hfree, hrows⟩
      · cases he
    · obtain ⟨c, -, hok, -⟩ | ⟨hvotes, e', he, hrefused⟩ := castFreeVote_outcome hy
      · cases hok
      · obtain rfl := Except.error.inj he
        refine Or.inr ⟨hvotes, _, rfl, fun _ v' c hauth' hc hopen => ?_⟩
        obtain rfl : v = v' := RequestUser.voter.inj (Except.ok.inj (hauth.symm.trans hauth'))
        obtain ⟨htaken, rfl⟩ := hrefused c hc hopen
        exact ⟨htaken, rfl⟩

/-- **How a void is answered:** with success where the vote counts, which is voided. -/
theorem answer_of_void {pk : Id} {data : Except ApiError String} {res : Except Stop Unit}
    (h : dispatch cfg s (.voidVote pk data) r m = some (s', res)) :
    (∃ v user reason now, s.db.votes.get? pk = some v ∧ res = .ok () ∧ v.voidedAt = none ∧
        s'.db.votes.rows = s.db.votes.rows.map fun w =>
          if w.id = v.id then void v user reason now else w) ∨
      (s'.db.votes = s.db.votes ∧ ∃ stop, res = .error stop) := by
  obtain ⟨-, haudit, stop, rfl⟩ | ⟨user, throttles, -, -, hact⟩ := act_of_dispatch h
  · exact Or.inr ⟨by rw [haudit], stop, rfl⟩
  · replace hact : voteVoid { s with throttles } user r m pk data = some (s', res) := hact
    unfold voteVoid at hact
    split at hact
    · obtain ⟨rfl, rfl⟩ := Prod.mk.inj (Option.some.inj hact)
      exact Or.inr ⟨rfl, _, rfl⟩
    · obtain ⟨rfl, rfl⟩ := Prod.mk.inj (Option.some.inj hact)
      exact Or.inr ⟨rfl, _, rfl⟩
    · obtain ⟨rfl, rfl⟩ := Prod.mk.inj (Option.some.inj hact)
      exact Or.inr ⟨rfl, _, rfl⟩
    · next reason vote account hget _ =>
      replace hget : s.db.votes.get? pk = some vote := hget
      obtain ⟨db, rfl, ⟨y, hy, rfl⟩ | ⟨e, hy, rfl⟩⟩ := commit_cases hact
      · obtain ⟨-, e, he, -⟩ | ⟨v, hv, hid, hactive, -, votes, audit, e, hrows, -, -, rfl⟩ :=
          voidVote_cases hy
        · cases he
        · obtain rfl := eq_of_id hv (get?_eq_some.mp hget).1 hid
          exact Or.inl ⟨v, _, _, _, hget, rfl, hactive, hrows⟩
      · obtain ⟨rfl, -⟩ | ⟨v, -, -, -, hok, -⟩ := voidVote_cases hy
        · exact Or.inr ⟨rfl, _, rfl⟩
        · cases hok

/-- A cast that is refused is no ballot. -/
theorem ballotsIn_of_refused_cast {nomination : Id} {checkAt : Time} {vk : Keys} {stop : Stop}
    (h : dispatch cfg s (.castVote (.ok nomination) checkAt vk) r m = some (s', .error stop)) :
    ballotsIn cfg s (.request (.castVote (.ok nomination) checkAt vk) r m) s' = [] := by
  simp only [ballotsIn, h]
  split
  · next hd => cases hd
  · rfl

/-- A void that is refused is no ballot. -/
theorem ballotsIn_of_refused_void {pk : Id} {data : Except ApiError String} {stop : Stop}
    (h : dispatch cfg s (.voidVote pk data) r m = some (s', .error stop)) :
    ballotsIn cfg s (.request (.voidVote pk data) r m) s' = [] := by
  simp only [ballotsIn, h]
  split
  · next hd => cases hd
  · rfl

/-- The operations that move votes. -/
def movesVotes : Call → Bool
  | .castVote .. | .voidVote .. => true
  | _ => false

/-- **The other requests** leave the votes. -/
theorem votes_of_request (h : step cfg s (.request call r m) = some s')
    (hcall : movesVotes call = false) :
    s'.db.votes = s.db.votes := by
  cases happens_of_step h with
  | idle hdb | denied _ _ _ _ _ _ _ _ _ _ _ hdb | login _ _ _ _ _ _ _ _ _ _ hdb => rw [hdb]
  | ran _ op _ _ hruns hstep =>
    cases votesMove_of_step hstep with
    | kept hvotes => exact hvotes
    | cast _ _ _ _ _ _ _ _ _ _ _ =>
      cases hruns
      cases hcall
    | voided _ _ _ _ _ _ _ _ _ _ =>
      cases hruns
      cases hcall

/-- **Every step casts its ballot**, or leaves the box. -/
theorem boxed_of_step {i : Input} (hfree : AllFree s.db.votes) (h : step cfg s i = some s') :
    Boxed s.db s'.db (ballotsIn cfg s i s') := by
  cases i with
  | saveAccount account =>
    obtain rfl := Option.some.inj h
    refine boxed_of_kept hfree ?_
    unfold saveAccount
    split_ifs
    · rfl
    · rfl
  | deleteAccount account =>
    obtain rfl := Option.some.inj h
    refine boxed_of_kept hfree ?_
    unfold deleteAccount
    split_ifs
    · rfl
    · rfl
  | setBlocked voter blocked now =>
    obtain rfl := Option.some.inj h
    exact boxed_of_kept hfree rfl
  | purge olderThanHours execute now =>
    obtain rfl := Option.some.inj h
    refine boxed_of_kept hfree ?_
    show (Voting.Purge.handle s.db now olderThanHours execute).1.votes = s.db.votes
    rw [(Voting.Purge.purged_handle s.db now olderThanHours execute).frame]
  | request call r m =>
    obtain ⟨⟨s₁, res⟩, hdispatch, rfl⟩ := Option.map_eq_some_iff.mp h
    cases call with
    | castVote data checkAt vk =>
      rcases data with e | nomination
      · refine boxed_of_kept hfree ?_
        obtain ⟨-, haudit, -⟩ | ⟨user, throttles, -, -, hact⟩ := act_of_dispatch hdispatch
        · rw [haudit]
        · obtain ⟨rfl, -⟩ := Prod.mk.inj (Option.some.inj hact)
          rfl
      · obtain ⟨v, c, now, request, hauth, hc, rfl, hslot, hrows⟩ | ⟨hvotes, stop, rfl, -⟩ :=
          answer_of_cast hdispatch
        · obtain rfl : c.nomination.id = nomination :=
            (linked_of_joined (getNomination_eq_some.mp hc).1).1
          simp only [ballotsIn, hauth, hc, hdispatch]
          refine ⟨?_, allFree_cast hfree hrows⟩
          rw [run_cons, step_cast (boxOf_eq_none.mpr hslot), Option.bind_some, run_nil,
            boxOf_cast hrows hslot]
        · rw [ballotsIn_of_refused_cast hdispatch]
          exact boxed_of_kept hfree hvotes
    | voidVote pk data =>
      obtain ⟨v, user, reason, now, hget, rfl, hactive, hrows⟩ | ⟨hvotes, stop, rfl⟩ :=
        answer_of_void hdispatch
      · have hv := (get?_eq_some.mp hget).1
        obtain ⟨hstands, hbox⟩ := boxOf_void hv hactive (hfree v hv) hrows
        simp only [ballotsIn, hget, hdispatch]
        refine ⟨?_, allFree_void hfree hv hrows⟩
        rw [run_cons, step_withdraw (by rw [hstands]; simp), Option.bind_some, run_nil, hbox]
      · rw [ballotsIn_of_refused_void hdispatch]
        exact boxed_of_kept hfree hvotes
    | _ => exact boxed_of_kept hfree (votes_of_request h rfl)

/-! ### Every run -/

theorem ballots_run {l : List Input} (h0 : s.db = {}) (hr : run (step cfg) s l = some s') :
    run Lib.Ballots.step Box.empty (ballots cfg s l) = some (boxOf s'.db.votes) ∧
    AllFree s'.db.votes := by
  have hfree : AllFree s.db.votes := by
    rw [h0]
    exact fun v hv => absurd hv List.not_mem_nil
  have hkeep : ∀ t i t', AllFree t.db.votes → step cfg t i = some t' → AllFree t'.db.votes :=
    fun _ _ _ hf ht => (boxed_of_step hf ht).free
  have hempty : boxOf s.db.votes = Box.empty := by
    rw [h0]
    rfl
  refine ⟨?_, run_inv (fun t => AllFree t.db.votes) hkeep hfree hr⟩
  have hbox : ∀ t i t', AllFree t.db.votes → step cfg t i = some t' →
      run Lib.Ballots.step (boxOf t.db.votes) (ballotsIn cfg t i t') = some (boxOf t'.db.votes) :=
    fun _ _ _ hf ht => (boxed_of_step hf ht).box
  rw [← hempty]
  exact simulates (fun t => AllFree t.db.votes) (fun t => boxOf t.db.votes) hkeep hbox hfree hr

/-- **The API is a ballot box.** In every run from an empty database, with any other requests,
account saves and deletions, voter blocking and purges in it, the casts and the voids that are
answered with success are a run of a box with one ballot for each voter and award. A voter's cast
that gets to its action, for a nomination whose voting is open, is answered with success exactly
where none of its ballots stands, and else as a second vote. And the tally of an award counts, for
each entry, the verified voters whose ballot stands for it, so that it never counts more than there
are verified voters. -/
theorem ballots_of_run {l : List Input} (h0 : s.db = {}) (hr : run (step cfg) s l = some s') :
    run Lib.Ballots.step Box.empty (ballots cfg s l) = some (standing (ballots cfg s l)) ∧
      (∀ nomination checkAt vk r m s'' res v c,
        dispatch cfg s' (.castVote (.ok nomination) checkAt vk) r m = some (s'', res) →
        letThrough cfg s' (.castVote (.ok nomination) checkAt vk) r m = true →
        authenticated cfg s' (.castVote (.ok nomination) checkAt vk) r m = .ok (.voter v) →
        getNomination s'.db nomination = some c → c.event.votingIsOpen checkAt = true →
          (res = .ok () ∧ standing (ballots cfg s l) v.id c.award.id = none) ∨
            (res = .error (.raised (.api .alreadyVoted)) ∧
              standing (ballots cfg s l) v.id c.award.id ≠ none)) ∧
      ∀ lower url award,
        (∀ e ∈ awardTally lower url s'.db award, e.votes =
          tally (standing (ballots cfg s l)) (electorate s'.db) award e.nominationId) ∧
        ((awardTally lower url s'.db award).map fun e => e.votes).sum ≤
          (electorate s'.db).length := by
  obtain ⟨hbox, hfree⟩ := ballots_run h0 hr
  have hstanding := eq_standing hbox
  have hlegit : ∀ v ∈ s'.db.votes.rows, LegitVote s'.db v := by
    refine run_inv (fun t => ∀ v ∈ t.db.votes.rows, LegitVote t.db v)
      (fun _ _ _ hl ht => (effect_of_step ht).legit hl) ?_ hr
    rw [h0]
    exact fun v hv => absurd hv List.not_mem_nil
  rw [← hstanding]
  refine ⟨hbox, ?_, fun lower url award => ?_⟩
  · intro nomination checkAt vk r m s'' res v c hdispatch hthrough hauth hc hopen
    obtain ⟨v', c', now, request, hauth', hc', rfl, hslot, -⟩ | ⟨-, stop, rfl, hrefused⟩ :=
      answer_of_cast hdispatch
    · obtain rfl : v = v' := RequestUser.voter.inj (Except.ok.inj (hauth.symm.trans hauth'))
      obtain rfl := Option.some.inj (hc.symm.trans hc')
      exact Or.inl ⟨rfl, boxOf_eq_none.mpr hslot⟩
    · obtain ⟨htaken, rfl⟩ := hrefused hthrough v c hauth hc hopen
      exact Or.inr ⟨rfl, fun hnone => boxOf_eq_none.mp hnone htaken⟩
  · have hvotes : ∀ e ∈ awardTally lower url s'.db award, e.votes =
        tally (boxOf s'.db.votes) (electorate s'.db) award e.nominationId := by
      intro e he
      rw [votes_of_mem_awardTally he, votesFor_eq_tally hfree hlegit]
    refine ⟨hvotes, ?_⟩
    have hids : ((awardTally lower url s'.db award).map fun e => e.nominationId).Nodup := by
      have hperm := (perm_rank lower (awardEntries url s'.db award)).map Entry.nominationId
      rw [List.map_map] at hperm
      exact hperm.nodup_iff.mpr (nodup_awardEntries url s'.db award)
    calc ((awardTally lower url s'.db award).map fun e => e.votes).sum
        = (((awardTally lower url s'.db award).map fun e => e.nominationId).map
            (tally (boxOf s'.db.votes) (electorate s'.db) award)).sum := by
          rw [List.map_map]
          exact congrArg List.sum (List.map_congr_left hvotes)
      _ ≤ (electorate s'.db).length := sum_tally_le _ _ _ hids

/-- After the season, the voter votes again, its vote is voided, and it votes once more. -/
def recast : List Input :=
  season ++ [.request (.castVote (.ok 40) 64 ⟨61, 2⟩) (withToken "ann") (moment 64 ⟨77, 8⟩),
    .request (.voidVote 60 (.ok "mistake")) (withToken "chair") (moment 65 ⟨78, 9⟩),
    .request (.castVote (.ok 40) 66 ⟨62, 3⟩) (withToken "ann") (moment 66 ⟨79, 10⟩)]

theorem ballots_of_run_recast : ∃ s, run (step demo) (fresh {}) recast = some s ∧
    ballots demo (fresh {}) recast = [.cast 50 20 40, .withdraw 50 20, .cast 50 20 40] ∧
    run Lib.Ballots.step Box.empty (ballots demo (fresh {}) recast) =
      some (standing (ballots demo (fresh {}) recast)) ∧
    ∀ e ∈ awardTally id id s.db 20,
      e.votes = tally (standing [.cast 50 20 40, .withdraw 50 20, .cast 50 20 40])
        (electorate s.db) 20
        e.nominationId := by
  have hrun : (run (step demo) (fresh {}) recast).map (fun _ => ballots demo (fresh {}) recast) =
      some [.cast 50 20 40, .withdraw 50 20, .cast 50 20 40] := by decide +kernel
  obtain ⟨s, hs, hballots⟩ := Option.map_eq_some_iff.mp hrun
  obtain ⟨hbox, -, htally⟩ := ballots_of_run rfl hs
  refine ⟨s, hs, hballots, hbox, fun e he => ?_⟩
  rw [← hballots]
  exact (htally id id 20).1 e he

end KwAwards.Api.Ballots
