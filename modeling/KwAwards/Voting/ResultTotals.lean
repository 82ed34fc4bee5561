import KwAwards.Voting.EventStats

/-! # Results, tallies and totals

Three queries add up the same votes: `eventResults` by the event in the vote's own column,
`awardTally` by the award there, and the dashboard over the whole event. Where no vote has drifted
they agree (`results_agree`): the votes of a nomination are the same in both lists, and the totals
of the listed awards leave out the votes on inactive awards and on nominations that are not approved
(`unlisted`). -/

namespace KwAwards.Voting.ResultTotals

open KwAwards.Lib.Tables KwAwards.Lib.Group KwAwards.Lib.ListViews KwAwards.Common.Base
open KwAwards.Events.Models KwAwards.Events.Reads KwAwards.Nominations.Models
open KwAwards.Nominations.Reads KwAwards.Voting.Votes KwAwards.Voting.Denormalised
open KwAwards.Voting.Results KwAwards.Voting.EventResults KwAwards.Voting.EventStats KwAwards.Store

/-- The non-voided votes for the approved nominations of an award, added up. -/
def approvedVotes (db : Database) (award : Id) : ℕ :=
  (((activeVotes db).filter fun v => (approvedOf db award).any fun n => n.id = v.nomination).map
    Vote.quantity).sum

/-- A vote on an inactive award or on a nomination that is not approved. -/
def unlisted (db : Database) (v : Vote) : Bool :=
  (db.awards.get? v.award).any (fun w => !w.isActive) ||
    (db.nominations.get? v.nomination).any fun n => n.status ≠ .approved

/-- **The results of an event agree** with the tallies of its awards and with its dashboard. -/
structure Agree (cmp : Column → Column → Ordering) (lower url : String → String) (db : Database)
    (now : Time) (e : Event) : Prop where
  listed : ∀ c ∈ db.categories.rows, c.event = e.id → ∀ w ∈ db.awards.rows, w.category = c.id →
    w.isActive → ∃ r ∈ (eventResults cmp lower url db now e).categories, ∃ a ∈ r.awards, a.id = w.id
  tally : ∀ r ∈ (eventResults cmp lower url db now e).categories, ∀ a ∈ r.awards,
    a.nominations = awardTally lower url db a.id ∧ a.totalVotes = approvedVotes db a.id
  total : ∀ {Day : Type} [LinearOrder Day] (truncDate : Time → Day),
    (((eventResults cmp lower url db now e).categories.flatMap CategoryResults.awards).map
      AwardResults.totalVotes).sum +
        (((activeOf db e.id).filter (unlisted db)).map Vote.quantity).sum =
        (eventStats cmp truncDate db e).totals.votes

variable {cmp : Column → Column → Ordering} {lower url : String → String} {db : Database}

/-! ### The votes of a nomination -/

theorem eq_award_of_noDrift (hd : NoDrift db) {v : Vote} (hv : v ∈ db.votes.rows) {n : Nomination}
    (hn : n ∈ db.nominations.rows) (h : v.nomination = n.id) : v.award = n.award := by
  have hget : db.nominations.get? n.id = some n := Table.get?_key hn
  have ha := (hd v hv).1
  rw [h, awardOf, hget, Option.map_some] at ha
  exact (Option.some.inj ha).symm

/-- Where no vote has drifted, the votes for a nomination in its award are all its non-voided
votes. -/
theorem votesFor_of_noDrift (hd : NoDrift db) {n : Nomination} (hn : n ∈ db.nominations.rows) :
    votesFor db n.award n.id = sumAt Vote.nomination Vote.quantity (activeVotes db) n.id := by
  unfold votesFor sumAt
  rw [List.filter_filter]
  congr 2
  refine List.filter_congr fun v hv => ?_
  by_cases h : v.nomination = n.id
  · simp [h, eq_award_of_noDrift hd (List.mem_of_mem_filter hv) hn h]
  · simp [h]

/-- An entry reads one total. -/
theorem entry_congr {n : Nomination} {nominee : Nominee} {totals totals' : List (Id × ℕ)}
    (h : (totals.lookup n.id).getD 0 = (totals'.lookup n.id).getD 0) :
    entry url n nominee totals = entry url n nominee totals' := by
  unfold entry
  rw [h]

/-- A listed award with its category and its event. -/
structure Listed (db : Database) (e : Event) (w : Award) : Prop where
  award : w ∈ db.awards.rows
  active : w.isActive
  category : ∃ c ∈ db.categories.rows, w.category = c.id ∧ c.event = e.id

/-- The nominations of a listed award, joined. -/
theorem joinNomination_of_listed {e : Event} (he : e ∈ db.events.rows) {w : Award}
    (hw : Listed db e w) :
    ∃ x : AwardRow, x.award = w ∧ x.event = e ∧ ∀ n : Nomination, n.award = w.id →
      joinNomination db n = (db.nominees.get? n.nominee).map fun nominee => ⟨n, nominee, x⟩ := by
  obtain ⟨c, hc, hwc, hce⟩ := hw.category
  have hgw : db.awards.get? w.id = some w := Table.get?_key hw.award
  have hgc : db.categories.get? c.id = some c := Table.get?_key hc
  have hge : db.events.get? e.id = some e := Table.get?_key he
  refine ⟨⟨w, c, e⟩, rfl, rfl, fun n hn => ?_⟩
  rw [joinNomination, hn, hgw, Option.bind_some, joinAward, hwc, hgc, Option.bind_some, hce, hge]
  cases db.nominees.get? n.nominee <;> rfl

/-- **The entries of a listed award** are those of its own tally, in some order. -/
theorem perm_byAward_awardEntries (hd : NoDrift db) {e : Event} (he : e ∈ db.events.rows)
    {w : Award} (hw : Listed db e w) :
    List.Perm (byAward cmp url db e.id w.id) (awardEntries url db w.id) := by
  obtain ⟨x, hxw, hxe, hjoin⟩ := joinNomination_of_listed he hw
  have hperm : List.Perm (byAward cmp url db e.id w.id)
      ((((nominationRows db).filter fun r => decide (r.award.event.id = e.id) &&
          decide (r.nomination.status = .approved)).filter fun r =>
            r.nomination.award = w.id).map fun r =>
        entry url r.nomination r.nominee (totalsByNomination db fun v => v.event = e.id)) :=
    ((perm_orderBy cmp _ _).filter _).map _
  refine hperm.trans (List.Perm.of_eq ?_)
  unfold nominationRows awardEntries approvedOf
  rw [List.filter_filter, List.filter_filterMap, List.map_filterMap, List.filterMap_filter]
  refine List.filterMap_congr fun n hn => ?_
  by_cases hnw : n.award = w.id
  · have hj := hjoin n hnw
    cases hm : db.nominees.get? n.nominee with
    | none => simp [hj, hm]
    | some nominee =>
      rw [hm, Option.map_some] at hj
      have hvotes :
          sumAt Vote.nomination Vote.quantity ((activeVotes db).filter fun v => v.event = e.id)
          n.id = votesFor db w.id n.id := by
        have hin :=
          votesInEvent_of_noDrift hd
            (show (⟨n, nominee, x⟩ : NominationRow).Stored db from ⟨hn, hj⟩)
        have hfor := votesFor_of_noDrift hd hn
        rw [hxe] at hin
        rw [hnw] at hfor
        exact hin.trans hfor.symm
      have hentry : entry url n nominee (totalsByNomination db fun v => v.event = e.id) =
          entry url n nominee (totalsByNomination db fun v => v.award = w.id) :=
        entry_congr ((lookup_groupSum ..).trans (hvotes.trans (lookup_groupSum ..).symm))
      by_cases hs : n.status = .approved
      · simp [hj, hxe, hnw, hs, hentry]
      · simp [hj, hs]
  · cases hj : joinNomination db n with
    | none => simp [hnw]
    | some r =>
      have hr : r.nomination = n := (joinNomination_eq_some.mp hj).1
      simp [hr, hnw]

/-- **The list of a listed award** is its tally. -/
theorem nominations_eq_awardTally (hd : NoDrift db) {e : Event} (he : e ∈ db.events.rows)
    {w : Award} (hw : Listed db e w) :
    (awardResults cmp lower url db e.id w).nominations = awardTally lower url db w.id := by
  have hperm : List.Perm (byAward cmp url db e.id w.id) (awardEntries url db w.id) :=
    perm_byAward_awardEntries hd he hw
  exact (rank_eq_of_perm lower hperm.symm (nodup_awardEntries url db w.id)).symm

/-! ### The totals -/

theorem awardEntries_ids (hfk : ForeignKeys db) (award : Id) :
    (awardEntries url db award).map Entry.nominationId = (approvedOf db award).map
      Nomination.id := by
  have hsome : ∀ n ∈ approvedOf db award, (db.nominees.get? n.nominee).isSome := fun n hn =>
    hfk.nominee n (List.mem_of_mem_filter hn)
  unfold awardEntries
  generalize approvedOf db award = ns at hsome
  induction ns with
  | nil => rfl
  | cons n ns ih =>
    obtain ⟨hn, hsome⟩ := List.forall_mem_cons.mp hsome
    obtain ⟨nominee, hm⟩ := Option.isSome_iff_exists.mp hn
    simp only [List.filterMap_cons, hm, Option.map_some, List.map_cons]
    exact congrArg (n.id :: ·) (ih hsome)

/-- A tally adds up to the votes for the approved nominations. -/
theorem sum_awardTally_eq (hfk : ForeignKeys db) (hd : NoDrift db) (award : Id) :
    ((awardTally lower url db award).map fun e => e.votes).sum = approvedVotes db award := by
  have hperm := ((perm_rank lower (awardEntries url db award)).map Entry.votes).sum_eq
  rw [List.map_map] at hperm
  have hnodup := nodup_awardEntries url db award
  rw [awardEntries_ids hfk] at hnodup
  refine hperm.trans ?_
  rw [votes_awardEntries, awardEntries_ids hfk]
  show (((approvedOf db award).map Nomination.id).map (sumAt Vote.nomination Vote.quantity
    ((activeVotes db).filter fun v => v.award = award))).sum = _
  rw [sum_keys _ _ hnodup, List.filter_filter]
  unfold approvedVotes
  refine congrArg (fun l : List Vote => (l.map Vote.quantity).sum)
    (List.filter_congr fun v hv => ?_)
  rw [Bool.eq_iff_iff, Bool.and_eq_true, decide_eq_true_eq, decide_eq_true_eq, List.mem_map,
    List.any_eq_true]
  constructor
  · rintro ⟨⟨n, hn, hid⟩, -⟩
    exact ⟨n, hn, decide_eq_true hid⟩
  · rintro ⟨n, hn, hid⟩
    obtain ⟨hmem, hn'⟩ := List.mem_filter.mp hn
    have hid : n.id = v.nomination := of_decide_eq_true hid
    refine ⟨⟨n, hn, hid⟩, ?_⟩
    rw [eq_award_of_noDrift hd (List.mem_of_mem_filter hv) hmem hid.symm]
    exact (of_decide_eq_true hn').1

theorem totalVotes_eq (hfk : ForeignKeys db) (hd : NoDrift db) {e : Event} (he : e ∈ db.events.rows)
    {w : Award} (hw : Listed db e w) :
    (awardResults cmp lower url db e.id w).totalVotes = approvedVotes db w.id := by
  show (((awardResults cmp lower url db e.id w).nominations).map fun e => e.votes).sum = _
  rw [nominations_eq_awardTally hd he hw]
  exact sum_awardTally_eq hfk hd w.id

/-- **What is counted for a listed award:** the votes of the event that are not left out. -/
theorem counted_iff (hd : NoDrift db) {e : Event} {w : Award} (hw : Listed db e w) {v : Vote}
    (hv : v ∈ db.votes.rows) :
    ((approvedOf db w.id).any fun n => n.id = v.nomination) = true ↔
      v.award = w.id ∧ v.event = e.id ∧ unlisted db v = false := by
  obtain ⟨n, hn, hnid, haward⟩ : ∃ n ∈ db.nominations.rows, n.id = v.nomination ∧
      n.award = v.award := by
    obtain ⟨n, hn, haward⟩ := Option.map_eq_some_iff.mp (hd v hv).1
    exact ⟨n, (Table.get?_eq_some.mp hn).1, (Table.get?_eq_some.mp hn).2, haward⟩
  have hgn : db.nominations.get? v.nomination = some n := hnid ▸ Table.get?_key hn
  have hgw : db.awards.get? w.id = some w := Table.get?_key hw.award
  have hevent : v.award = w.id → v.event = e.id := by
    intro h
    obtain ⟨c, hc, hwc, hce⟩ := hw.category
    have hgc : db.categories.get? c.id = some c := Table.get?_key hc
    obtain ⟨c', -, hc', hev⟩ := derived_iff.mp (hd v hv)
    rw [h, categoryOf, hgw, Option.map_some, hwc] at hc'
    rw [← Option.some.inj hc', eventOf, hgc, Option.map_some, hce] at hev
    exact (Option.some.inj hev).symm
  rw [List.any_eq_true]
  constructor
  · rintro ⟨m, hm, hmid⟩
    obtain ⟨hmem, hm⟩ := List.mem_filter.mp hm
    obtain rfl : m = n := Table.eq_of_key hmem hn ((of_decide_eq_true hmid).trans hnid.symm)
    obtain ⟨hmw, hms⟩ := of_decide_eq_true hm
    have h : v.award = w.id := haward.symm.trans hmw
    refine ⟨h, hevent h, ?_⟩
    simp [unlisted, h, hgw, hgn, hms, hw.active]
  · rintro ⟨h, -, hlisted⟩
    simp only [unlisted, hgn, Bool.or_eq_false_iff, Option.any_some, decide_eq_false_iff_not,
      not_not] at hlisted
    refine ⟨n, List.mem_filter.mpr ⟨hn, decide_eq_true ⟨haward.trans h, hlisted.2⟩⟩,
      decide_eq_true hnid⟩

/-- The awards that the results list, in order. -/
def listedAwards (cmp : Column → Column → Ordering) (db : Database) (event : Id) : List Award :=
  (categoriesOf cmp db event).flatMap fun c => orderBy cmp awardOrdering
    (db.awards.rows.filter fun w => decide (w.category = c.id) && w.isActive)

theorem awards_eventResults (now : Time) (e : Event) :
    (eventResults cmp lower url db now e).categories.flatMap CategoryResults.awards =
      (listedAwards cmp db e.id).map (awardResults cmp lower url db e.id) := by
  unfold eventResults listedAwards
  rw [List.flatMap_map, List.map_flatMap]
  rfl

theorem mem_listedAwards {e : Event} {w : Award} :
    w ∈ listedAwards cmp db e.id ↔ Listed db e w := by
  rw [listedAwards, List.mem_flatMap]
  constructor
  · rintro ⟨c, hc, hw⟩
    obtain ⟨hc, hce⟩ := List.mem_filter.mp ((mem_orderBy cmp).mp hc)
    obtain ⟨hw, hcond⟩ := List.mem_filter.mp ((mem_orderBy cmp).mp hw)
    rw [Bool.and_eq_true, decide_eq_true_eq] at hcond
    exact ⟨hw, hcond.2, c, hc, hcond.1, of_decide_eq_true hce⟩
  · rintro ⟨hw, hactive, c, hc, hwc, hce⟩
    refine ⟨c, (mem_orderBy cmp).mpr (List.mem_filter.mpr ⟨hc, decide_eq_true hce⟩), ?_⟩
    refine (mem_orderBy cmp).mpr (List.mem_filter.mpr ⟨hw, ?_⟩)
    rw [Bool.and_eq_true, decide_eq_true_eq]
    exact ⟨hwc, hactive⟩

/-- An award is listed once. -/
theorem nodup_listedAwards (event : Id) : ((listedAwards cmp db event).map Award.id).Nodup := by
  have hawards : db.awards.rows.Nodup := db.awards.nodup.of_map
  have hcategories : (categoriesOf cmp db event).Nodup :=
    (perm_orderBy cmp _ _).nodup_iff.mpr (db.categories.nodup.of_map.filter _)
  have hmem : ∀ c, ∀ w ∈ orderBy cmp awardOrdering
      (db.awards.rows.filter fun w => decide (w.category = c) && w.isActive),
      w ∈ db.awards.rows ∧ w.category = c := by
    intro c w hw
    obtain ⟨hw, hcond⟩ := List.mem_filter.mp ((mem_orderBy cmp).mp hw)
    rw [Bool.and_eq_true, decide_eq_true_eq] at hcond
    exact ⟨hw, hcond.1⟩
  have hlisted : (listedAwards cmp db event).Nodup := by
    refine List.nodup_flatMap.mpr ⟨fun c _ => ?_, ?_⟩
    · exact (perm_orderBy cmp _ _).nodup_iff.mpr (hawards.filter _)
    · refine hcategories.imp_of_mem fun {c c'} hc hc' hne w hw hw' => hne ?_
      have hid : c.id = c'.id := (hmem c.id w hw).2.symm.trans (hmem c'.id w hw').2
      exact Table.eq_of_key (List.mem_of_mem_filter ((mem_orderBy cmp).mp hc))
        (List.mem_of_mem_filter ((mem_orderBy cmp).mp hc')) hid
  refine List.Nodup.map_on (fun w hw w' hw' hid => ?_) hlisted
  obtain ⟨c, -, hw⟩ := List.mem_flatMap.mp hw
  obtain ⟨c', -, hw'⟩ := List.mem_flatMap.mp hw'
  exact Table.eq_of_key (hmem c.id w hw).1 (hmem c'.id w' hw').1 hid

/-- The votes for a listed award, among those of the event that are not left out. -/
theorem approvedVotes_eq (hd : NoDrift db) {e : Event} {w : Award} (hw : Listed db e w) :
    approvedVotes db w.id =
      sumAt Vote.award Vote.quantity ((activeOf db e.id).filter fun v => !unlisted db v) w.id := by
  unfold approvedVotes sumAt activeVotes activeOf votesOf
  rw [List.filter_filter, List.filter_filter, List.filter_filter, List.filter_filter]
  refine congrArg (fun l : List Vote => (l.map Vote.quantity).sum)
    (List.filter_congr fun v hv => ?_)
  have hiff := counted_iff hd hw hv
  rw [Bool.eq_iff_iff, Bool.and_eq_true, hiff]
  simp only [Bool.and_eq_true, decide_eq_true_eq, Bool.not_eq_true']
  tauto

/-- A vote that is not left out is for a listed award. -/
theorem listed_of_not_unlisted (hd : NoDrift db) {e : Event} {v : Vote} (hv : v ∈ activeOf db e.id)
    (h : unlisted db v = false) : ∃ w, Listed db e w ∧ w.id = v.award := by
  have hmem := mem_votes_of_activeOf hv
  have hevent : v.event = e.id :=
    of_decide_eq_true (List.mem_filter.mp (List.mem_of_mem_filter hv)).2
  obtain ⟨c, -, hc, he⟩ := derived_iff.mp (hd v hmem)
  obtain ⟨w, hw, hwc⟩ := Option.map_eq_some_iff.mp hc
  obtain ⟨k, hk, hke⟩ := Option.map_eq_some_iff.mp he
  obtain ⟨hwmem, hwid⟩ := Table.get?_eq_some.mp hw
  obtain ⟨hkmem, hkid⟩ := Table.get?_eq_some.mp hk
  have hactive : w.isActive = true := by
    simp only [unlisted, hw, Option.any_some, Bool.or_eq_false_iff, Bool.not_eq_false'] at h
    exact h.1
  exact ⟨w, ⟨hwmem, hactive, k, hkmem, hwc.trans hkid.symm, hke.trans hevent⟩, hwid⟩

/-- **Results, tallies and totals agree** where every vote's award and event match its
nomination. -/
theorem results_agree (cmp : Column → Column → Ordering) (lower url : String → String)
    (hfk : ForeignKeys db) (hd : NoDrift db) {e : Event} (he : e ∈ db.events.rows) (now : Time) :
    Agree cmp lower url db now e where
  listed := by
    intro c hc hce w hw hwc hactive
    have hmem : awardResults cmp lower url db e.id w ∈
        (eventResults cmp lower url db now e).categories.flatMap CategoryResults.awards := by
      rw [awards_eventResults]
      exact List.mem_map_of_mem (mem_listedAwards.mpr ⟨hw, hactive, c, hc, hwc, hce⟩)
    obtain ⟨r, hr, ha⟩ := List.mem_flatMap.mp hmem
    exact ⟨r, hr, _, ha, rfl⟩
  tally := by
    intro r hr a ha
    have hmem := List.mem_flatMap.mpr ⟨r, hr, ha⟩
    rw [awards_eventResults] at hmem
    obtain ⟨w, hw, rfl⟩ := List.mem_map.mp hmem
    have hw := mem_listedAwards.mp hw
    exact ⟨nominations_eq_awardTally hd he hw, totalVotes_eq hfk hd he hw⟩
  total := by
    intro Day _ truncDate
    have hlisted : ∀ v ∈ (activeOf db e.id).filter fun v => !unlisted db v,
        v.award ∈ (listedAwards cmp db e.id).map Award.id := by
      intro v hv
      obtain ⟨hv, hl⟩ := List.mem_filter.mp hv
      obtain ⟨w, hw, hid⟩ := listed_of_not_unlisted hd hv (by simpa using hl)
      exact List.mem_map.mpr ⟨w, mem_listedAwards.mpr hw, hid⟩
    have htotals : ((listedAwards cmp db e.id).map fun w =>
        (awardResults cmp lower url db e.id w).totalVotes).sum =
          (((activeOf db e.id).filter fun v => !unlisted db v).map Vote.quantity).sum := by
      rw [← sum_fibres Vote.award Vote.quantity (nodup_listedAwards e.id) hlisted, List.map_map]
      refine congrArg List.sum (List.map_congr_left fun w hw => ?_)
      have hw := mem_listedAwards.mp hw
      exact (totalVotes_eq hfk hd he hw).trans (approvedVotes_eq hd hw)
    rw [awards_eventResults, List.map_map]
    exact (congrArg (· + _) htotals).trans (sum_filter_add Vote.quantity (unlisted db) _)

theorem results_agree_counted : Agree (fun _ _ => .eq) Common.Base.lower id countedDb 300 gala :=
  results_agree _ _ _ foreignKeys_countedDb (by decide) (by decide) 300

end KwAwards.Voting.ResultTotals
