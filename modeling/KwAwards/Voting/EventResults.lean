import KwAwards.Nominations.Reads
import KwAwards.Voting.Denormalised
import KwAwards.Voting.Results

/-! # The results of an event

`eventResults` puts the ranked tallies of the active awards of an event under its categories. The
votes of an entry are the non-voided votes for its nomination that have the event in their own
column (`votesInEvent`); the other non-voided votes for it have drifted (`driftedVotes`).

The results of a public event are read off its public rows, and off the votes shown for its public
nominations (`eventResults_congr`); these can be read off the results again (`votes_of_mem_results`,
`exists_mem_results`). -/

namespace KwAwards.Voting.EventResults

open KwAwards.Lib.Tables KwAwards.Lib.Group KwAwards.Lib.ListViews KwAwards.Common.Base
open KwAwards.Events.Models KwAwards.Events.Reads KwAwards.Nominations.Models
open KwAwards.Nominations.Reads KwAwards.Voting.Votes KwAwards.Voting.Denormalised
open KwAwards.Voting.Results KwAwards.Store

open List (Forall₂)

/-- `ResultAwardSerializer`. -/
structure AwardResults where
  id : Id
  name : String
  slug : String
  totalVotes : ℕ
  nominations : List RankedEntry
  deriving DecidableEq, Repr

/-- `ResultCategorySerializer`. -/
structure CategoryResults where
  id : Id
  name : String
  slug : String
  awards : List AwardResults
  deriving DecidableEq, Repr

/-- `ResultEventSerializer`. -/
structure EventRef where
  id : Id
  slug : String
  name : String
  year : ℕ
  status : EventStatus
  resultsPublishedAt : Option Time
  deriving DecidableEq, Repr

/-- `ResultsSerializer`. -/
structure ResultsData where
  event : EventRef
  generatedAt : Time
  categories : List CategoryResults
  deriving DecidableEq, Repr

section Results

variable (cmp : Column → Column → Ordering) (lower url : String → String) (db : Database)
  (event : Id)

/-- The approved nominations of an event, in the order of their model: `-seq`. -/
def approvedIn : List NominationRow :=
  orderBy cmp [⟨fun r => .num r.nomination.seq, true⟩] <| (nominationRows db).filter fun r =>
    decide (r.award.event.id = event) && decide (r.nomination.status = .approved)

/-- `by_award.get(award.id, [])`. -/
def byAward (award : Id) : List Entry :=
  let totals := totalsByNomination db fun v => v.event = event
  ((approvedIn cmp db event).filter fun r => r.nomination.award = award).map fun r =>
    entry url r.nomination r.nominee totals

def awardResults (w : Award) : AwardResults :=
  let entries := rank lower (byAward cmp url db event w.id)
  ⟨w.id, w.name, w.slug, (entries.map fun e => e.votes).sum, entries⟩

def categoryResults (c : Category) : CategoryResults :=
  let awards := orderBy cmp awardOrdering
    (db.awards.rows.filter fun w => decide (w.category = c.id) && w.isActive)
  ⟨c.id, c.name, c.slug, awards.map (awardResults cmp lower url db event)⟩

/-- **`event_results`**. -/
def eventResults (now : Time) (e : Event) : ResultsData where
  event := ⟨e.id, e.slug, e.name, e.year, e.status, e.resultsPublishedAt⟩
  generatedAt := now
  categories := (categoriesOf cmp db e.id).map (categoryResults cmp lower url db e.id)

end Results

/-! ### What is public of the votes -/

/-- The non-voided votes for a nomination. -/
def votesOn (db : Database) (nomination : Id) : ℕ :=
  sumAt Vote.nomination Vote.quantity (activeVotes db) nomination

/-- Those that have the event in their own column, which results are computed from. -/
def votesInEvent (db : Database) (event nomination : Id) : ℕ :=
  sumAt Vote.nomination Vote.quantity ((activeVotes db).filter fun v => v.event = event) nomination

/-- Those that have another event there. -/
def driftedVotes (db : Database) (event nomination : Id) : ℕ :=
  sumAt Vote.nomination Vote.quantity ((activeVotes db).filter fun v => v.event ≠ event) nomination

theorem votesInEvent_add_driftedVotes (db : Database) (event nomination : Id) :
    votesInEvent db event nomination + driftedVotes db event nomination = votesOn db nomination :=
  sumAt_filter_add _ _ _ _ (fun v => by by_cases h : v.event = event <;> simp [h]) _ _

/-- The votes of a public nomination, once the results of its event are published. -/
def publishedVotes (db : Database) (r : NominationRow) : Option ℕ :=
  if r.award.event.status = .resultsPublished then some (votesOn db r.nomination.id) else none

/-- The votes that the results of its event show for a public nomination. -/
def shownVotes (db : Database) (r : NominationRow) : Option ℕ :=
  if r.award.event.status = .resultsPublished then
    some (votesInEvent db r.award.event.id r.nomination.id)
  else none

/-- Two rows of two databases that are the same in public, with the same votes shown. -/
structure SameTally (db db' : Database) (r r' : NominationRow) : Prop extends
    SameNomination db db' r r' where
  votes : shownVotes db r = shownVotes db' r'

/-- The entry of a public nomination. -/
def publicEntry (url : String → String) (n : PublicNomination) (votes : Option ℕ) : Entry where
  nominationId := n.id
  nominee :=
    { id := n.nominee.id, name := n.nominee.name, stageName := n.nominee.stageName
      photo := if n.nominee.photo = "" then none else some (url n.nominee.photo) }
  votes := votes.getD 0

/-- The entries of the public nominations of an award. -/
def publicEntries (url : String → String) (db : Database) (award : Id) : List Entry :=
  ((publicNominations db).filter fun r => r.nomination.award = award).map fun r =>
    publicEntry url (.of r) (shownVotes db r)

variable {db db' : Database} {cmp : Column → Column → Ordering} {lower url : String → String}

/-- Where no vote has drifted, the votes of a nomination in its event are all its non-voided
votes. -/
theorem votesInEvent_of_noDrift (hd : NoDrift db) {r : NominationRow} (hr : r.Stored db) :
    votesInEvent db r.award.event.id r.nomination.id = votesOn db r.nomination.id := by
  obtain ⟨-, -, ha⟩ := joinNomination_eq_some.mp hr.2
  obtain ⟨w, hw, hj⟩ := Option.bind_eq_some_iff.mp ha
  obtain ⟨c, hc, hj⟩ := Option.bind_eq_some_iff.mp hj
  obtain ⟨e, he, hj⟩ := Option.map_eq_some_iff.mp hj
  have hevent : r.award.event.id = c.event := by
    rw [← hj]
    exact Table.key_of_get? he
  have haward : awardOf db r.nomination.id = some r.nomination.award := by
    have hget : db.nominations.get? r.nomination.id = some r.nomination := Table.get?_key hr.1
    rw [awardOf, hget, Option.map_some]
  have hcategory : categoryOf db r.nomination.award = some w.category := by
    rw [categoryOf, hw, Option.map_some]
  have heventOf : eventOf db w.category = some c.event := by
    rw [eventOf, hc, Option.map_some]
  unfold votesInEvent votesOn sumAt
  rw [List.filter_filter]
  congr 2
  refine List.filter_congr fun v hv => ?_
  by_cases hn : v.nomination = r.nomination.id
  · have hderived := (hd v (List.mem_filter.mp hv).1).2
    rw [hn, haward, Option.bind_some, hcategory, Option.bind_some, heventOf] at hderived
    simp [hn, hevent, Option.some.inj hderived]
  · simp [hn]

theorem driftedVotes_of_noDrift (hd : NoDrift db) {r : NominationRow} (hr : r.Stored db) :
    driftedVotes db r.award.event.id r.nomination.id = 0 := by
  have hall := votesInEvent_of_noDrift hd hr
  have hsum := votesInEvent_add_driftedVotes db r.award.event.id r.nomination.id
  omega

/-- A nomination of a public award is joined with it. -/
theorem award_of_stored {r : NominationRow} {x : AwardRow} (hr : r.Stored db)
    (hx : x ∈ publicAwards db) (h : r.nomination.award = x.award.id) : r.award = x := by
  obtain ⟨hmem, hj, -⟩ := mem_publicAwards.mp hx
  obtain ⟨-, -, ha⟩ := joinNomination_eq_some.mp hr.2
  have hget : db.awards.get? x.award.id = some x.award := Table.get?_key hmem
  rw [h, hget, Option.bind_some, hj] at ha
  exact (Option.some.inj ha).symm

/-- The approved nominations of a public award are public. -/
theorem approved_of_public {x : AwardRow} (hx : x ∈ publicAwards db) :
    ((nominationRows db).filter fun r => decide (r.award.event.id = x.event.id) &&
        decide (r.nomination.status = .approved)).filter
          (fun r => r.nomination.award = x.award.id) =
      (publicNominations db).filter fun r => r.nomination.award = x.award.id := by
  obtain ⟨-, -, hs, hactive⟩ := mem_publicAwards.mp hx
  unfold publicNominations
  rw [List.filter_filter, List.filter_filter]
  refine List.filter_congr fun r hr => ?_
  by_cases h : r.nomination.award = x.award.id
  · have haward := award_of_stored (mem_nominationRows.mp hr) hx h
    simp [NominationRow.isPublic, haward, hs, hactive]
  · simp [h]

theorem nodup_publicNominations (db : Database) :
    ((publicNominations db).map fun r => r.nomination.id).Nodup := by
  have hrows : (nominationRows db).Nodup := by
    refine List.Nodup.filterMap (fun n n' r hr hr' => ?_) db.nominations.nodup.of_map
    exact (joinNomination_eq_some.mp hr).1.symm.trans (joinNomination_eq_some.mp hr').1
  refine List.Nodup.map_on (fun r hr r' hr' hid => ?_) (hrows.filter _)
  obtain ⟨hmem, hj⟩ := mem_nominationRows.mp (List.mem_filter.mp hr).1
  obtain ⟨hmem', hj'⟩ := mem_nominationRows.mp (List.mem_filter.mp hr').1
  have hn : r.nomination = r'.nomination := Table.eq_of_key hmem hmem' hid
  exact Option.some.inj (hj.symm.trans (hn ▸ hj'))

/-- **The entries of a public award** whose results are published. -/
theorem perm_byAward {x : AwardRow} (hx : x ∈ publicAwards db)
    (hs : x.event.status = .resultsPublished) :
    List.Perm (byAward cmp url db x.event.id x.award.id) (publicEntries url db x.award.id) := by
  have hentry : (byAward cmp url db x.event.id x.award.id) =
      ((approvedIn cmp db x.event.id).filter fun r => r.nomination.award = x.award.id).map fun r =>
        publicEntry url (.of r) (some (votesInEvent db x.event.id r.nomination.id)) := by
    refine List.map_congr_left fun r _ => ?_
    unfold votesInEvent
    rw [← lookup_groupSum]
    rfl
  have hpublic : publicEntries url db x.award.id =
      ((publicNominations db).filter fun r => r.nomination.award = x.award.id).map fun r =>
        publicEntry url (.of r) (some (votesInEvent db x.event.id r.nomination.id)) := by
    refine List.map_congr_left fun r hr => ?_
    obtain ⟨hr, h⟩ := List.mem_filter.mp hr
    have hstored := mem_nominationRows.mp (List.mem_filter.mp hr).1
    have haward := award_of_stored hstored hx (of_decide_eq_true h)
    rw [shownVotes, haward, if_pos hs]
  rw [hentry, hpublic, ← approved_of_public hx]
  exact ((List.perm_insertionSort _ _).filter _).map _

/-- Public nominations that are the same in public have the same entries. -/
theorem publicEntries_eq
    (h : Forall₂ (SameTally db db') (publicNominations db) (publicNominations db')) (award : Id) :
    publicEntries url db award = publicEntries url db' award := by
  refine map_eq_of_forall₂ (fun r r' hr => ?_) (forall₂_filter (fun r r' hr => ?_) h)
  · rw [hr.same, hr.votes]
  · rw [hr.award_id]

theorem awardResults_congr
    (h : Forall₂ (SameTally db db') (publicNominations db) (publicNominations db')) {x : AwardRow}
    (hx : x ∈ publicAwards db) (hx' : x ∈ publicAwards db')
    (hs : x.event.status = .resultsPublished) :
    awardResults cmp lower url db x.event.id x.award = awardResults cmp lower url db' x.event.id
      x.award := by
  have hperm : List.Perm (byAward cmp url db x.event.id x.award.id)
      (byAward cmp url db' x.event.id x.award.id) :=
    (perm_byAward hx hs).trans (publicEntries_eq h x.award.id ▸ (perm_byAward hx' hs).symm)
  have hids : ((byAward cmp url db x.event.id x.award.id).map Entry.nominationId).Nodup := by
    rw [((perm_byAward hx hs).map Entry.nominationId).nodup_iff, publicEntries, List.map_map]
    exact (nodup_publicNominations db).sublist (List.filter_sublist.map _)
  unfold awardResults
  rw [rank_eq_of_perm lower hperm hids]

/-- **The results of a public event** are read off what is public. -/
theorem eventResults_congr (hcategories : publicCategories db = publicCategories db')
    (hawards : publicAwards db = publicAwards db')
    (h : Forall₂ (SameTally db db') (publicNominations db) (publicNominations db')) {now : Time}
    {e : Event} (he : e ∈ publicEvents db) (he' : e ∈ publicEvents db')
    (hs : e.status = .resultsPublished) :
    eventResults cmp lower url db now e = eventResults cmp lower url db' now e := by
  have hlist : (categoriesOf cmp db e.id).map (categoryResults cmp lower url db e.id) =
      (categoriesOf cmp db' e.id).map (categoryResults cmp lower url db' e.id) := by
    unfold categoriesOf
    rw [categories_of_public he, categories_of_public he', hcategories]
    refine List.map_congr_left fun c hc => ?_
    obtain ⟨r, hr, rfl⟩ := List.mem_map.mp ((mem_orderBy cmp).mp hc)
    obtain ⟨hr', hid⟩ := List.mem_filter.mp hr
    have hr : r ∈ publicCategories db := hcategories ▸ hr'
    simp only [categoryResults]
    rw [awards_of_public hr, awards_of_public hr', hawards]
    congr 1
    refine List.map_congr_left fun w hw => ?_
    obtain ⟨x, hx, rfl⟩ := List.mem_map.mp ((mem_orderBy cmp).mp hw)
    obtain ⟨hx', hcat⟩ := List.mem_filter.mp hx
    have hx : x ∈ publicAwards db := hawards ▸ hx'
    have hevent : x.event = e := (event_of_publicAward hx hr (of_decide_eq_true hcat)).trans
      (event_of_publicCategory hr he (of_decide_eq_true hid))
    rw [← hevent] at hs ⊢
    exact awardResults_congr h hx hx' hs
  unfold eventResults
  rw [hlist]

/-! ### What the results show -/

/-- Every entry shows the votes of its nomination in the event. -/
theorem votes_of_mem_results {now : Time} {e : Event} {c : CategoryResults}
    (hc : c ∈ (eventResults cmp lower url db now e).categories) {a : AwardResults}
    (ha : a ∈ c.awards) {x : RankedEntry} (hx : x ∈ a.nominations) :
    x.votes = votesInEvent db e.id x.nominationId := by
  obtain ⟨k, -, rfl⟩ := List.mem_map.mp hc
  obtain ⟨w, -, rfl⟩ := List.mem_map.mp ha
  have hentry : x.toEntry ∈ byAward cmp url db e.id w.id :=
    (perm_rank lower _).mem_iff.mp (List.mem_map.mpr ⟨x, hx, rfl⟩)
  obtain ⟨r, -, hr⟩ := List.mem_map.mp hentry
  rw [← hr]
  exact lookup_groupSum ..

/-- Every public nomination of the event has an entry. -/
theorem exists_mem_results (cmp : Column → Column → Ordering) (lower url : String → String)
    (now : Time) {r : NominationRow} (hr : r ∈ publicNominations db) :
    ∃ c ∈ (eventResults cmp lower url db now r.award.event).categories, ∃ a ∈ c.awards,
      ∃ x ∈ a.nominations, x.nominationId = r.nomination.id := by
  obtain ⟨hrow, hpublic⟩ := List.mem_filter.mp hr
  simp only [NominationRow.isPublic, Bool.and_eq_true, decide_eq_true_eq] at hpublic
  obtain ⟨⟨happroved, hactive⟩, -⟩ := hpublic
  have hstored := mem_nominationRows.mp hrow
  obtain ⟨-, -, hjoin⟩ := joinNomination_eq_some.mp hstored.2
  obtain ⟨w, hw, hj⟩ := Option.bind_eq_some_iff.mp hjoin
  obtain ⟨c, hc, hj⟩ := Option.bind_eq_some_iff.mp hj
  obtain ⟨e, he, hj⟩ := Option.map_eq_some_iff.mp hj
  have haward : r.award = ⟨w, c, e⟩ := hj.symm
  have hcid : c.id = w.category := Table.key_of_get? hc
  have heid : e.id = c.event := Table.key_of_get? he
  have hcat : c ∈ categoriesOf cmp db r.award.event.id := by
    rw [haward]
    refine (mem_orderBy cmp).mpr (List.mem_filter.mpr ⟨(Table.get?_eq_some.mp hc).1, ?_⟩)
    exact decide_eq_true heid.symm
  have hlisted : w ∈ orderBy cmp awardOrdering
      (db.awards.rows.filter fun w => decide (w.category = c.id) && w.isActive) := by
    refine (mem_orderBy cmp).mpr (List.mem_filter.mpr ⟨(Table.get?_eq_some.mp hw).1, ?_⟩)
    rw [haward] at hactive
    rw [Bool.and_eq_true, decide_eq_true_eq]
    exact ⟨hcid.symm, hactive⟩
  have hnomination : r ∈ (approvedIn cmp db r.award.event.id).filter
      fun r => r.nomination.award = w.id := by
    refine List.mem_filter.mpr ⟨(mem_orderBy cmp).mpr (List.mem_filter.mpr ⟨hrow, ?_⟩), ?_⟩
    · rw [Bool.and_eq_true, decide_eq_true_eq, decide_eq_true_eq]
      exact ⟨rfl, happroved⟩
    · rw [decide_eq_true_eq, hstored.award_id, haward]
  have hentry : entry url r.nomination r.nominee
      (totalsByNomination db fun v => v.event = r.award.event.id) ∈
        byAward cmp url db r.award.event.id w.id := List.mem_map.mpr ⟨r, hnomination, rfl⟩
  obtain ⟨x, hx, hxe⟩ := List.mem_map.mp ((perm_rank lower _).mem_iff.mpr hentry)
  exact ⟨_, List.mem_map_of_mem hcat, _, List.mem_map_of_mem hlisted, x, hx,
    congrArg Entry.nominationId hxe⟩

end KwAwards.Voting.EventResults
