import KwAwards.Lib.Ballots
import KwAwards.Platform
import KwAwards.Voting.Results

/-! # The vote table is a box of ballots

The ballot of a voter for an award is its free vote in it that is not voided (`boxOf`). A cast that
succeeds puts a ballot into the box where none stood, and one that fails on the insert is refused
because one stands (`castFreeVote_outcome`); a void takes one out (`boxOf_void`). As long as there
are only free votes, the votes of an entry are the ballots of verified voters that stand for it
(`votesFor_eq_tally`). -/

namespace KwAwards.Voting.BallotBox

open KwAwards.Lib.Tables KwAwards.Lib.Ballots KwAwards.Lib.Group KwAwards.Common.Base
open KwAwards.Common.Exceptions KwAwards.Audit.Log KwAwards.Voting.Models KwAwards.Voting.Votes
open KwAwards.Voting.Votes.VoteTable KwAwards.Voting.Services KwAwards.Voting.Results KwAwards.Store
open KwAwards.Platform (LegitVote Verified)

/-- The ballot of a voter for an award, and what it is for. -/
def boxOf (t : VoteTable) : Box Id Id Id := fun voter award =>
  (t.rows.find? fun v => v.activeFree && decide (v.voter = voter) && decide (v.award = award)).map
    Vote.nomination

/-- Every vote is a free one. -/
def AllFree (t : VoteTable) : Prop := ∀ v ∈ t.rows, v.source = .free

variable {t t' : VoteTable} {voter award : Id}

theorem boxOf_eq_some {nomination : Id} : boxOf t voter award = some nomination ↔
    ∃ v ∈ t.rows, v.activeFree = true ∧ v.voter = voter ∧ v.award = award ∧
      v.nomination = nomination := by
  unfold boxOf
  rw [Option.map_eq_some_iff]
  constructor
  · rintro ⟨v, hfind, hnomination⟩
    have hp := List.find?_some hfind
    simp only [Bool.and_eq_true, decide_eq_true_eq] at hp
    exact ⟨v, List.mem_of_find?_eq_some hfind, hp.1.1, hp.1.2, hp.2, hnomination⟩
  · rintro ⟨v, hv, hfree, hvoter, haward, hnomination⟩
    cases hfind : t.rows.find? fun v =>
      v.activeFree && decide (v.voter = voter) && decide (v.award = award) with
    | none =>
      have hnot := List.find?_eq_none.mp hfind v hv
      simp [hfree, hvoter, haward] at hnot
    | some w =>
      have hp := List.find?_some hfind
      simp only [Bool.and_eq_true, decide_eq_true_eq] at hp
      have hw : w = v := t.activeFree_unique (List.mem_of_find?_eq_some hfind) hv hp.1.1 hfree
        (hp.1.2.trans hvoter.symm) (hp.2.trans haward.symm)
      exact ⟨w, rfl, hw ▸ hnomination⟩

theorem boxOf_eq_none : boxOf t voter award = none ↔ ¬ Taken t voter award := by
  rw [Option.eq_none_iff_forall_ne_some]
  constructor
  · rintro hnone ⟨v, hv, hfree, hvoter, haward⟩
    exact hnone v.nomination (boxOf_eq_some.mpr ⟨v, hv, hfree, hvoter, haward, rfl⟩)
  · intro hfree nomination hsome
    obtain ⟨v, hv, hactive, hvoter, haward, -⟩ := boxOf_eq_some.mp hsome
    exact hfree ⟨v, hv, hactive, hvoter, haward⟩

/-- Boxes with the same ballots. -/
theorem boxOf_ext {b : Box Id Id Id} (h : ∀ voter award nomination,
    boxOf t voter award = some nomination ↔ b voter award = some nomination) : boxOf t = b :=
  funext fun voter => funext fun award => Option.ext fun nomination => h voter award nomination

/-! ### Casting and voiding -/

section Move

variable {c : Candidate} {request : Request} {now : Time} {vk : Keys}

/-- **A cast puts its ballot into the box.** -/
theorem boxOf_cast (hrows : t'.rows = t.rows ++ [newVote c voter request now vk])
    (hfree : ¬ Taken t voter c.award.id) :
    boxOf t' = (boxOf t).set voter c.award.id (some c.nomination.id) := by
  refine boxOf_ext fun voter' award' nomination => ?_
  rw [boxOf_eq_some, hrows]
  unfold Box.set
  split_ifs with hself
  · obtain ⟨rfl, rfl⟩ := hself
    constructor
    · rintro ⟨v, hv, hactive, hvoter, haward, rfl⟩
      rcases List.mem_append.mp hv with hv | hv
      · exact absurd ⟨v, hv, hactive, hvoter, haward⟩ hfree
      · rw [List.mem_singleton.mp hv]
        rfl
    · intro h
      obtain rfl := Option.some.inj h
      exact ⟨_, List.mem_append_right _ (List.mem_singleton_self _), newVote_activeFree .., rfl,
        rfl, rfl⟩
  · rw [boxOf_eq_some]
    constructor
    · rintro ⟨v, hv, hactive, hvoter, haward, hnomination⟩
      rcases List.mem_append.mp hv with hv | hv
      · exact ⟨v, hv, hactive, hvoter, haward, hnomination⟩
      · rw [List.mem_singleton.mp hv] at hvoter haward
        exact absurd ⟨hvoter.symm, haward.symm⟩ hself
    · rintro ⟨v, hv, hrest⟩
      exact ⟨v, List.mem_append_left _ hv, hrest⟩

theorem allFree_cast (h : AllFree t)
    (hrows : t'.rows = t.rows ++ [newVote c voter request now vk]) :
    AllFree t' := by
  intro v hv
  rw [hrows] at hv
  rcases List.mem_append.mp hv with hv | hv
  · exact h v hv
  · rw [List.mem_singleton.mp hv]
    rfl

/-- **How a cast ends:** with a ballot where none stood, or with an error, which is the refusal of a
second ballot where voting for the nomination is open. -/
theorem castFreeVote_outcome {db db' : Database} {nomination : Id} {checkAt : Time} {ak : Keys}
    {r : Except Raised Vote}
    (h : castFreeVote db voter nomination request checkAt now vk ak = some (db', r)) :
    (∃ c, getNomination db nomination = some c ∧ r = .ok (newVote c voter request now vk) ∧
        ¬ Taken db.votes voter c.award.id ∧
        db'.votes.rows = db.votes.rows ++ [newVote c voter request now vk]) ∨
      (db'.votes = db.votes ∧ ∃ e, r = .error e ∧ ∀ c, getNomination db nomination = some c →
        c.event.votingIsOpen checkAt = true → Taken db.votes voter c.award.id ∧
        e = .api .alreadyVoted) := by
  unfold castFreeVote at h
  split at h
  · next hnone =>
    obtain ⟨rfl, rfl⟩ := Prod.mk.inj (Option.some.inj h)
    refine Or.inr ⟨rfl, _, rfl, fun c hc => ?_⟩
    rw [hnone] at hc
    cases hc
  · next c hc =>
    split_ifs at h with hopen
    · obtain ⟨⟨db₁, r₁⟩, hx, h⟩ := Option.bind_eq_some_iff.mp h
      rcases insertVote_cases hx with
        ⟨-, ⟨htaken, rfl, rfl⟩ | ⟨hfree, rfl, votes, audit, e, hv, -, -, rfl⟩⟩
      · simp only [isUniqueViolation_iff.mpr, if_true] at h
        obtain ⟨db₂, hw, h⟩ := Option.map_eq_some_iff.mp h
        obtain ⟨rfl, rfl⟩ := Prod.mk.inj h
        obtain ⟨e, audit, -, -, -, rfl⟩ := Database.write_eq_some hw
        refine Or.inr ⟨rfl, _, rfl, fun c' hc' _ => ⟨?_, rfl⟩⟩
        obtain rfl := Option.some.inj (hc.symm.trans hc')
        exact htaken
      · obtain ⟨rfl, rfl⟩ := Prod.mk.inj (Option.some.inj h)
        exact Or.inl ⟨c, hc, rfl, hfree, hv⟩
    · obtain ⟨rfl, rfl⟩ := Prod.mk.inj (Option.some.inj h)
      refine Or.inr ⟨rfl, _, rfl, fun c' hc' hopen' => ?_⟩
      obtain rfl := Option.some.inj (hc.symm.trans hc')
      exact absurd hopen' hopen

/-- **A void takes its ballot out.** -/
theorem boxOf_void {v : Vote} {user : Id} {reason : String} (hv : v ∈ t.rows)
    (hactive : v.voidedAt = none) (hsource : v.source = .free)
    (hrows : t'.rows = t.rows.map fun w => if w.id = v.id then void v user reason now else w) :
    boxOf t v.voter v.award = some v.nomination ∧
    boxOf t' = (boxOf t).set v.voter v.award none := by
  have hfree : v.activeFree = true := by simp [Vote.activeFree, Vote.active, hsource, hactive]
  refine ⟨boxOf_eq_some.mpr ⟨v, hv, hfree, rfl, rfl, rfl⟩, boxOf_ext
    fun voter' award' nomination => ?_⟩
  -- the rows that stand after the void
  have hmem : ∀ w, w.activeFree = true → (w ∈ t'.rows ↔ w ∈ t.rows ∧ w.id ≠ v.id) := by
    intro w hw
    rw [hrows, List.mem_map]
    constructor
    · rintro ⟨w', hw', rfl⟩
      split_ifs at hw ⊢ with hid
      · simp [Vote.activeFree, Vote.active, void] at hw
      · exact ⟨hw', hid⟩
    · rintro ⟨hw', hid⟩
      exact ⟨w, hw', if_neg hid⟩
  rw [boxOf_eq_some]
  unfold Box.set
  split_ifs with hself
  · obtain ⟨rfl, rfl⟩ := hself
    refine iff_of_false ?_ (by simp)
    rintro ⟨w, hw, hwfree, hvoter, haward, -⟩
    obtain ⟨hw, hid⟩ := (hmem w hwfree).mp hw
    exact hid (congrArg Vote.id (t.activeFree_unique hw hv hwfree hfree hvoter haward))
  · rw [boxOf_eq_some]
    refine exists_congr fun w => ⟨?_, ?_⟩
    · rintro ⟨hw, hwfree, hrest⟩
      exact ⟨((hmem w hwfree).mp hw).1, hwfree, hrest⟩
    · rintro ⟨hw, hwfree, hvoter, haward, hrest⟩
      refine ⟨(hmem w hwfree).mpr ⟨hw, fun hid => hself ?_⟩, hwfree, hvoter, haward, hrest⟩
      obtain rfl := t.eq_of_id hw hv hid
      exact ⟨hvoter.symm, haward.symm⟩

theorem allFree_void (h : AllFree t) {v : Vote} (hv : v ∈ t.rows) {user : Id} {reason : String}
    (hrows : t'.rows = t.rows.map fun w => if w.id = v.id then void v user reason now else w) :
    AllFree t' := by
  intro w hw
  rw [hrows] at hw
  obtain ⟨w', hw', rfl⟩ := List.mem_map.mp hw
  split_ifs
  · exact h v hv
  · exact h w' hw'

end Move

/-! ### What the results count -/

/-- The voters who can cast ballots: those that are verified. -/
def electorate (db : Database) : List Id :=
  (db.voters.rows.filter fun v => v.verifiedAt.isSome).map Voter.id

theorem mem_electorate {db : Database} {k : Id} : k ∈ electorate db ↔ Verified db k := by
  simp only [electorate, List.mem_map, List.mem_filter, Verified]
  constructor
  · rintro ⟨v, ⟨hv, hverified⟩, rfl⟩
    exact ⟨v, Table.get?_key hv, hverified⟩
  · rintro ⟨v, hget, hverified⟩
    obtain ⟨hv, hid⟩ := Table.get?_eq_some.mp hget
    exact ⟨v, ⟨hv, hverified⟩, hid⟩

theorem nodup_electorate (db : Database) : (electorate db).Nodup :=
  db.voters.nodup.sublist (List.filter_sublist.map _)

/-- **The votes of an entry are the ballots that stand for it.** -/
theorem votesFor_eq_tally {db : Database} (hfree : AllFree db.votes)
    (hlegit : ∀ v ∈ db.votes.rows, LegitVote db v) (award nomination : Id) :
    votesFor db award nomination = tally (boxOf db.votes) (electorate db) award nomination := by
  -- the active votes of the award for the nomination, which count once each
  have hlength :
      votesFor db award nomination =
        (db.votes.rows.filter fun v => v.active = true ∧ v.award = award ∧
      v.nomination = nomination).length := by
    unfold votesFor activeVotes sumAt
    rw [List.filter_filter, List.filter_filter]
    have hone : ∀ v ∈ db.votes.rows.filter fun v =>
        decide (v.nomination = nomination) && decide (v.award = award) && v.active,
          v.quantity = 1 := by
      intro v hv
      have hmem := List.mem_of_mem_filter hv
      exact Vote.quantity_of_free (db.votes.checked v hmem) (hfree v hmem)
    rw [List.map_congr_left hone, List.map_const', List.sum_replicate, smul_eq_mul, Nat.mul_one]
    refine congrArg List.length (List.filter_congr fun v _ => ?_)
    rw [Bool.eq_iff_iff]
    simp only [Bool.and_eq_true, decide_eq_true_eq]
    exact ⟨fun h => ⟨h.2, h.1.2, h.1.1⟩, fun h => ⟨⟨h.2.2, h.2.1⟩, h.1⟩⟩
  have hactive : ∀ {v}, v ∈ db.votes.rows → v.active = true → v.activeFree = true := by
    intro v hv ha
    simp [Vote.activeFree, hfree v hv, ha]
  have hmem : ∀ {v}, v ∈ db.votes.rows.filter (fun v => decide (v.active = true ∧ v.award = award ∧
      v.nomination = nomination)) → v ∈ db.votes.rows ∧ v.activeFree = true ∧ v.award = award ∧
        v.nomination = nomination := by
    intro v hv
    obtain ⟨hv, hp⟩ := List.mem_filter.mp hv
    obtain ⟨ha, haward, hnomination⟩ := of_decide_eq_true hp
    exact ⟨hv, hactive hv ha, haward, hnomination⟩
  -- their voters are those whose ballot stands for the nomination
  have hperm : List.Perm ((db.votes.rows.filter fun v => v.active = true ∧ v.award = award ∧
      v.nomination = nomination).map Vote.voter)
      ((electorate db).filter fun k => boxOf db.votes k award = some nomination) := by
    refine (List.perm_ext_iff_of_nodup ?_ ((nodup_electorate db).filter _)).mpr fun k => ?_
    · have hrows : (db.votes.rows.filter fun v => v.active = true ∧ v.award = award ∧
          v.nomination = nomination).Nodup := db.votes.nodup_ids.of_map.filter _
      refine hrows.map_on fun v hv w hw hvoter => ?_
      obtain ⟨hv, hvfree, hvaward, -⟩ := hmem hv
      obtain ⟨hw, hwfree, hwaward, -⟩ := hmem hw
      exact db.votes.activeFree_unique hv hw hvfree hwfree hvoter (hvaward.trans hwaward.symm)
    · rw [List.mem_filter, decide_eq_true_eq, mem_electorate, boxOf_eq_some, List.mem_map]
      constructor
      · rintro ⟨v, hv, rfl⟩
        obtain ⟨hv, hvfree, haward, hnomination⟩ := hmem hv
        exact ⟨(hlegit v hv).voter, v, hv, hvfree, rfl, haward, hnomination⟩
      · rintro ⟨-, v, hv, hvfree, hvoter, haward, hnomination⟩
        have ha : v.active = true := ((Bool.and_eq_true ..).mp hvfree).2
        exact ⟨v, List.mem_filter.mpr ⟨hv, decide_eq_true ⟨ha, haward, hnomination⟩⟩, hvoter⟩
  rw [hlength]
  simpa [tally] using hperm.length_eq

end KwAwards.Voting.BallotBox
