import KwAwards.References
import KwAwards.Voting.EventResults
import KwAwards.Voting.Ranking

/-! # Results that are kept

`TalliesKept` relates two databases of which the second has the votes of the first in an event,
under the same categories and awards, and the nominations that were decided as they were.
Nominations may have been approved in between. What that does to the results of the event is
`Extends`: the entries that were shown are shown with the same votes and the same ranks in the same
order, and those that are new have no votes (`extends_of_kept`). Where no nomination was approved in
between, the results are the same (`eventResults_eq`). -/

namespace KwAwards.Voting.FinalResults

open KwAwards.Lib.Tables KwAwards.Lib.Group KwAwards.Lib.ListViews KwAwards.Lib.Ranking
open KwAwards.Common.Base KwAwards.Events.Models KwAwards.Events.Reads KwAwards.Nominations.Models
open KwAwards.Nominations.Reads KwAwards.Voting.Votes KwAwards.Voting.Results
open KwAwards.Voting.EventResults KwAwards.Store KwAwards.References

open List (Forall₂)

/-! ### Rankings with more entries -/

/-- The items of a list among those of a longer one. -/
theorem perm_filter_mem {α : Type*} [DecidableEq α] {l l' : List α} (hnd : l.Nodup)
    (hnd' : l'.Nodup) (hsub : l ⊆ l') : List.Perm l (l'.filter fun a => a ∈ l) := by
  rw [List.perm_ext_iff_of_nodup hnd (hnd'.filter _)]
  intro a
  rw [List.mem_filter, decide_eq_true_eq]
  exact ⟨fun ha => ⟨hsub ha, ha⟩, fun ha => ha.2⟩

/-- Sorting entries that are sorted leaves them. -/
theorem rank_of_sorted {lower : String → String} {entries : List Entry}
    (h : entries.Pairwise fun a b => a.precedes lower b) : rank lower entries =
      entries.map fun e => { e with rank := place Entry.votes entries e } := by
  unfold rank
  rw [List.mergeSort_of_pairwise h]
  rfl

/-- **More entries without votes** leave the entries of a ranking, their ranks and their order. -/
theorem rank_sublist (lower : String → String) {entries entries' : List Entry} (hnd : entries.Nodup)
    (hids : (entries'.map Entry.nominationId).Nodup) (hsub : entries ⊆ entries')
    (hzero : ∀ e ∈ entries', e ∉ entries → e.votes = 0) :
    List.Sublist (rank lower entries) (rank lower entries') := by
  have hsorted := pairwise_sorted lower entries'
  have hperm := List.mergeSort_perm entries' (Entry.precedes lower)
  set sorted := entries'.mergeSort (Entry.precedes lower) with hdef
  have hkept : List.Perm entries (sorted.filter fun e => e ∈ entries) :=
    perm_filter_mem hnd (hperm.nodup_iff.mpr hids.of_map) fun e he => hperm.mem_iff.mpr (hsub he)
  have hids' : (entries.map Entry.nominationId).Nodup := by
    rw [(hkept.map Entry.nominationId).nodup_iff]
    exact ((hperm.map _).nodup_iff.mpr hids).sublist (List.filter_sublist.map _)
  -- an entry with more votes than another has votes, so it is not a new one
  have hplace : ∀ e, place Entry.votes (sorted.filter fun e => e ∈ entries) e = place Entry.votes
      sorted e := by
    intro e
    refine place_filter fun o ho hlt => decide_eq_true ?_
    by_contra hnot
    have hvotes := hzero o (hperm.mem_iff.mp ho) hnot
    omega
  rw [rank_eq_of_perm lower hkept hids', rank_of_sorted (hsorted.filter _), rank, ← hdef]
  simp only [hplace]
  exact List.filter_sublist.map _

/-- The votes of a ranking are those of its entries. -/
theorem sum_rank (lower : String → String) (entries : List Entry) :
    ((rank lower entries).map fun e => e.votes).sum = (entries.map Entry.votes).sum := by
  have hperm := ((perm_rank lower entries).map Entry.votes).sum_eq
  rw [List.map_map] at hperm
  exact hperm

theorem sum_of_zero {entries entries' : List Entry} (hnd : entries.Nodup) (hnd' : entries'.Nodup)
    (hsub : entries ⊆ entries') (hzero : ∀ e ∈ entries', e ∉ entries → e.votes = 0) :
    (entries'.map Entry.votes).sum = (entries.map Entry.votes).sum := by
  have hkept := ((perm_filter_mem hnd hnd' hsub).map Entry.votes).sum_eq
  have hsplit := sum_filter_add Entry.votes (fun e => decide (e ∈ entries)) entries'
  have hrest : ((entries'.filter fun e => !decide (e ∈ entries)).map Entry.votes).sum = 0 := by
    refine List.sum_eq_zero fun n hn => ?_
    obtain ⟨e, he, rfl⟩ := List.mem_map.mp hn
    obtain ⟨hmem, hnot⟩ := List.mem_filter.mp he
    exact hzero e hmem (by simpa using hnot)
  omega

/-! ### The votes of an event that are kept -/

/-- **What is kept:** the catalogue, the nominees, the nominations that were decided, and the votes
in an event. -/
structure TalliesKept (event : Id) (db db' : Database) : Prop where
  events : db'.events = db.events
  categories : db'.categories = db.categories
  awards : db'.awards = db.awards
  nominees : ∀ k m, db.nominees.get? k = some m → db'.nominees.get? k = some m
  decided : ∀ k n, db.nominations.get? k = some n → n.status ≠ .pending → ∃ n',
    db'.nominations.get? k = some n' ∧ n'.nominee = n.nominee ∧ n'.award = n.award ∧
    n'.status = n.status
  votes : (db'.votes.rows.filter fun v => v.event = event) = db.votes.rows.filter fun v =>
    v.event = event

variable {event : Id} {db db' db'' : Database}

theorem talliesKept_refl (event : Id) (db : Database) : TalliesKept event db db :=
  ⟨rfl, rfl, rfl, fun _ _ h => h, fun _ n h _ => ⟨n, h, rfl, rfl, rfl⟩, rfl⟩

theorem TalliesKept.trans (h : TalliesKept event db db') (h' : TalliesKept event db' db'') :
    TalliesKept event db db'' where
  events := h'.events.trans h.events
  categories := h'.categories.trans h.categories
  awards := h'.awards.trans h.awards
  nominees k m hm := h'.nominees k m (h.nominees k m hm)
  decided k n hn hs := by
    obtain ⟨n', hn', hnominee, haward, hstatus⟩ := h.decided k n hn hs
    obtain ⟨n'', hn'', hnominee', haward', hstatus'⟩ := h'.decided k n' hn' (hstatus ▸ hs)
    exact ⟨n'', hn'', hnominee'.trans hnominee, haward'.trans haward, hstatus'.trans hstatus⟩
  votes := h'.votes.trans h.votes

variable (cmp : Column → Column → Ordering) (lower url : String → String)

theorem joinAward_kept (h : TalliesKept event db db') : joinAward db' = joinAward db := by
  unfold joinAward
  rw [h.categories, h.events]

/-- The totals of an event are kept with its votes. -/
theorem totals_kept (h : TalliesKept event db db') :
    (totalsByNomination db' fun v => v.event = event) =
    totalsByNomination db fun v => v.event = event := by
  unfold totalsByNomination activeVotes
  rw [List.filter_comm, h.votes, List.filter_comm]

/-- The entries of an award of the event. -/
theorem mem_byAward {award : Id} {e : Entry} : e ∈ byAward cmp url db event award ↔
    ∃ r : NominationRow, r.Stored db ∧ r.award.event.id = event ∧ r.nomination.status = .approved ∧
      r.nomination.award = award ∧
      entry url r.nomination r.nominee (totalsByNomination db fun v => v.event = event) = e := by
  simp only [byAward, approvedIn, List.mem_map, List.mem_filter, mem_orderBy, mem_nominationRows,
    Bool.and_eq_true, decide_eq_true_eq, and_assoc]

theorem nodup_byAward (db : Database) (event award : Id) :
    ((byAward cmp url db event award).map Entry.nominationId).Nodup := by
  have hids : ((nominationRows db).map fun r => r.nomination.id).Nodup := by
    have hmap : (nominationRows db).map (fun r => r.nomination.id) =
        (db.nominations.rows.filter fun n => (joinNomination db n).isSome).map Nomination.id := by
      unfold nominationRows
      rw [List.map_filterMap, ← List.filterMap_eq_filter, List.map_filterMap]
      refine List.filterMap_congr fun n _ => ?_
      cases hj : joinNomination db n with
      | none => simp [Option.guard, hj]
      | some r => simp [Option.guard, hj, (joinNomination_eq_some.mp hj).1]
    rw [hmap]
    exact db.nominations.nodup.sublist (List.filter_sublist.map _)
  unfold byAward approvedIn
  rw [List.map_map]
  refine ((((perm_orderBy cmp _ _).filter _).map _).nodup_iff).mpr ?_
  exact hids.sublist ((List.filter_sublist.trans List.filter_sublist).map _)

/-- An approved nomination is shown with the same nominee under the same award. -/
theorem row_kept (h : TalliesKept event db db') {r : NominationRow} (hr : r.Stored db)
    (hs : r.nomination.status = .approved) : ∃ r' : NominationRow, r'.Stored db' ∧
      r'.nomination.id = r.nomination.id ∧ r'.nomination.award = r.nomination.award ∧
      r'.nomination.status = .approved ∧ r'.nominee = r.nominee ∧ r'.award = r.award := by
  obtain ⟨hmem, hj⟩ := hr
  obtain ⟨-, hnominee, haward⟩ := joinNomination_eq_some.mp hj
  obtain ⟨n', hn', hnominee', haward', hstatus'⟩ :=
    h.decided _ _ (Table.get?_key hmem) (by simp [hs])
  have hrow : joinNomination db' n' = some ⟨n', r.nominee, r.award⟩ := by
    rw [joinNomination_eq_some, hnominee', haward', h.awards, joinAward_kept h]
    exact ⟨rfl, h.nominees _ _ hnominee, haward⟩
  exact ⟨⟨n', r.nominee, r.award⟩, ⟨(Table.get?_eq_some.mp hn').1, hrow⟩,
    Table.key_of_get? hn', haward', hstatus'.trans hs, rfl, rfl⟩

theorem entry_congr {n n' : Nomination} (h : n'.id = n.id) (nominee : Nominee)
    (totals : List (Id × ℕ)) :
    entry url n' nominee totals = entry url n nominee totals := by
  unfold entry
  rw [h]

/-- **The entries that were shown are shown.** -/
theorem byAward_subset (h : TalliesKept event db db') (award : Id) :
    byAward cmp url db event award ⊆ byAward cmp url db' event award := by
  intro e he
  obtain ⟨r, hr, hevent, hs, haward, rfl⟩ := (mem_byAward cmp url).mp he
  obtain ⟨r', hr', hid, haward', hs', hnominee, hrow⟩ := row_kept h hr hs
  refine (mem_byAward cmp url).mpr ⟨r', hr', hrow ▸ hevent, hs', haward'.trans haward, ?_⟩
  rw [totals_kept h, hnominee, entry_congr url hid]

/-- A nomination that was approved, of which every reference is to a stored row, was shown. -/
theorem stored_of_approved (hi : Integrity db) {n : Nomination} (hn : n ∈ db.nominations.rows) :
    ∃ r : NominationRow, r.Stored db ∧ r.nomination = n := by
  obtain ⟨nominee, hnominee⟩ := Option.isSome_iff_exists.mp (hi.nominationNominee n hn _ rfl)
  obtain ⟨award, haward⟩ := Option.isSome_iff_exists.mp (hi.nominationAward n hn _ rfl)
  obtain ⟨category, hcategory⟩ := Option.isSome_iff_exists.mp
    (hi.awardCategory award (Table.get?_eq_some.mp haward).1 _ rfl)
  obtain ⟨e, hevent⟩ := Option.isSome_iff_exists.mp
    (hi.categoryEvent category (Table.get?_eq_some.mp hcategory).1 _ rfl)
  refine ⟨⟨n, nominee, award, category, e⟩, ⟨hn, ?_⟩, rfl⟩
  rw [joinNomination_eq_some, haward, Option.bind_some, joinAward, hcategory,
    Option.bind_some, hevent]
  exact ⟨rfl, hnominee, rfl⟩

/-- The entry of a nomination that was approved before is one of those that were shown. -/
theorem mem_byAward_of_approved (h : TalliesKept event db db') (hi : Integrity db) {award : Id}
    {e : Entry} (he : e ∈ byAward cmp url db' event award)
    (hs : ∃ n, db.nominations.get? e.nominationId = some n ∧ n.status = .approved) :
    e ∈ byAward cmp url db event award := by
  obtain ⟨n, hn, hs⟩ := hs
  obtain ⟨r, hr, rfl⟩ := stored_of_approved hi (Table.get?_eq_some.mp hn).1
  obtain ⟨r', hr', hid', haward', -, hnominee', hrow'⟩ := row_kept h hr hs
  obtain ⟨r'', hr'', hevent, -, haward, rfl⟩ := (mem_byAward cmp url).mp he
  have hid : r.nomination.id = r''.nomination.id := Table.key_of_get? hn
  have hsame : r'' = r' := by
    have hnomination : r''.nomination = r'.nomination :=
      Table.eq_of_key hr''.1 hr'.1 (hid.symm.trans hid'.symm)
    exact Option.some.inj (hr''.2.symm.trans (hnomination ▸ hr'.2))
  subst hsame
  refine (mem_byAward cmp url).mpr ⟨r, hr, hrow' ▸ hevent, hs, haward' ▸ haward, ?_⟩
  rw [totals_kept h, hnominee', entry_congr url hid'.symm]

/-- Where the votes are legitimate, a new entry has none. -/
theorem zero_of_new (h : TalliesKept event db db') (hi : Integrity db)
    (hlegit : ∀ v ∈ db.votes.rows, Platform.LegitVote db v) {award : Id} {e : Entry}
    (he : e ∈ byAward cmp url db' event award) (hnew : e ∉ byAward cmp url db event award) :
    e.votes = 0 := by
  obtain ⟨r, hr, hevent, hs, haward, rfl⟩ := (mem_byAward cmp url).mp he
  have hvotes :
      (entry url r.nomination r.nominee (totalsByNomination db' fun v => v.event = event)).votes =
      Lib.Group.sumAt Vote.nomination Vote.quantity
        ((activeVotes db').filter fun v => v.event = event) r.nomination.id := lookup_groupSum ..
  rw [hvotes]
  refine sumAt_eq_zero fun hmem => hnew (mem_byAward_of_approved cmp url h hi he ?_)
  obtain ⟨v, hv, hid⟩ := List.mem_map.mp hmem
  have hv : v ∈ db'.votes.rows.filter fun v => v.event = event := by
    obtain ⟨hactive, hevent⟩ := List.mem_filter.mp hv
    exact List.mem_filter.mpr ⟨(List.mem_filter.mp hactive).1, hevent⟩
  rw [h.votes] at hv
  have happroved : Platform.Approved db v.nomination :=
    (hlegit v (List.mem_filter.mp hv).1).nomination
  rw [hid] at happroved
  exact happroved

/-! ### The results of the event -/

/-- The results of an award, with more entries that have no votes. -/
structure ExtendsAward (a a' : AwardResults) : Prop where
  id : a'.id = a.id
  name : a'.name = a.name
  slug : a'.slug = a.slug
  totalVotes : a'.totalVotes = a.totalVotes
  entries : List.Sublist a.nominations a'.nominations
  new : ∀ e ∈ a'.nominations, e ∈ a.nominations ∨ e.votes = 0

structure ExtendsCategory (c c' : CategoryResults) : Prop where
  id : c'.id = c.id
  name : c'.name = c.name
  slug : c'.slug = c.slug
  awards : Forall₂ ExtendsAward c.awards c'.awards

/-- **The results of an event, with more entries that have no votes.** -/
structure ExtendsResults (d d' : ResultsData) : Prop where
  event : d'.event = d.event
  categories : Forall₂ ExtendsCategory d.categories d'.categories

theorem mem_rank {entries : List Entry} {e : RankedEntry} (h : e ∈ rank lower entries) :
    e.toEntry ∈ entries := (perm_rank lower entries).mem_iff.mp (List.mem_map_of_mem h)

theorem extendsAward_of_kept (h : TalliesKept event db db') (hi : Integrity db)
    (hlegit : ∀ v ∈ db.votes.rows, Platform.LegitVote db v) (w : Award) :
    ExtendsAward (awardResults cmp lower url db event w)
      (awardResults cmp lower url db' event w) := by
  have hsub := byAward_subset cmp url h w.id
  have hids := nodup_byAward cmp url db event w.id
  have hids' := nodup_byAward cmp url db' event w.id
  have hzero : ∀ e ∈ byAward cmp url db' event w.id, e ∉ byAward cmp url db event w.id →
    e.votes = 0 :=
    fun e he hnew => zero_of_new cmp url h hi hlegit he hnew
  have hranked := rank_sublist lower hids.of_map hids' hsub hzero
  refine ⟨rfl, rfl, rfl, ?_, hranked, fun e he => ?_⟩
  · show ((rank lower _).map fun e => e.votes).sum = ((rank lower _).map fun e => e.votes).sum
    rw [sum_rank, sum_rank, sum_of_zero hids.of_map hids'.of_map hsub hzero]
  · by_cases hold : e.toEntry ∈ byAward cmp url db event w.id
    · refine Or.inl ?_
      obtain ⟨e₀, he₀, heq⟩ := List.mem_map.mp ((perm_rank lower _).mem_iff.mpr hold)
      have hnodup : ((rank lower (byAward cmp url db' event w.id)).map RankedEntry.toEntry).Nodup :=
        (perm_rank lower _).nodup_iff.mpr hids'.of_map
      rw [List.inj_on_of_nodup_map hnodup he (hranked.subset he₀) heq.symm]
      exact he₀
    · exact Or.inr (hzero _ (mem_rank lower he) hold)

/-- **Results extend** what they were while the tallies are kept. -/
theorem extends_of_kept {e : Event} (h : TalliesKept e.id db db') (hi : Integrity db)
    (hlegit : ∀ v ∈ db.votes.rows, Platform.LegitVote db v) (now now' : Time) :
    ExtendsResults (eventResults cmp lower url db now e)
      (eventResults cmp lower url db' now' e) := by
  refine ⟨rfl, ?_⟩
  simp only [eventResults, categoriesOf, h.categories]
  rw [List.forall₂_map_left_iff, List.forall₂_map_right_iff]
  refine List.forall₂_same.mpr fun c _ => ⟨rfl, rfl, rfl, ?_⟩
  simp only [categoryResults, h.awards]
  rw [List.forall₂_map_left_iff, List.forall₂_map_right_iff]
  exact List.forall₂_same.mpr fun w _ => extendsAward_of_kept cmp lower url h hi hlegit w

/-- **Results are the same** where no nomination was approved in between. -/
theorem eventResults_eq {e : Event} (h : TalliesKept e.id db db') (hi : Integrity db)
    (hold : ∀ n' ∈ db'.nominations.rows, n'.status = .approved →
      ∃ n, db.nominations.get? n'.id = some n ∧ n.status = .approved) (now : Time) :
    eventResults cmp lower url db' now e = eventResults cmp lower url db now e := by
  have hentries :
      ∀ award, List.Perm (byAward cmp url db' e.id award) (byAward cmp url db e.id award) := by
    intro award
    rw [List.perm_ext_iff_of_nodup (nodup_byAward cmp url db' e.id award).of_map
      (nodup_byAward cmp url db e.id award).of_map]
    refine fun x => ⟨fun hx => ?_, fun hx => byAward_subset cmp url h award hx⟩
    obtain ⟨r, hr, -, hs, -, hrow⟩ := (mem_byAward cmp url).mp hx
    refine mem_byAward_of_approved cmp url h hi hx ?_
    rw [← hrow]
    exact hold r.nomination hr.1 hs
  have hawards : awardResults cmp lower url db' e.id = awardResults cmp lower url db e.id := by
    funext w
    simp only [awardResults]
    rw [rank_eq_of_perm lower (hentries w.id) (nodup_byAward cmp url db' e.id w.id)]
  have hcategories :
      categoryResults cmp lower url db' e.id = categoryResults cmp lower url db e.id := by
    funext c
    simp only [categoryResults]
    rw [h.awards, hawards]
  simp only [eventResults, categoriesOf]
  rw [h.categories, hcategories]

end KwAwards.Voting.FinalResults
