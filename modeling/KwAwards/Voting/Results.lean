import Mathlib.Data.Prod.Lex
import Mathlib.Data.String.Basic
import KwAwards.Lib.Group
import KwAwards.Store

/-! # Results

Results are computed, never stored: `totalsByNomination` sums the quantities of the non-voided votes
that a filter selects, `awardTally` ranks the approved nominations of an award by them. `lower` is
`str.lower` and `url` the address of a stored photo.

* `rank_eq_of_perm`: the order of the entries before they are ranked does not matter.
* `votes_of_mem_awardTally` reads the votes of one entry off the vote table.
* `sum_awardTally` adds an award's tally up again. -/

namespace KwAwards.Voting.Results

open KwAwards.Lib.Tables KwAwards.Lib.Group KwAwards.Common.Base KwAwards.Nominations.Models
open KwAwards.Voting.Votes KwAwards.Voting.Votes.VoteTable KwAwards.Store

/-- `VoteQuerySet.active`: votes that count. -/
def activeVotes (db : Database) : List Vote := db.votes.rows.filter Vote.active

/-- `_totals_by_nomination`; `filters` is the condition of the call. -/
def totalsByNomination (db : Database) (filters : Vote → Bool) : List (Id × ℕ) :=
  groupSum Vote.nomination Vote.quantity ((activeVotes db).filter filters)

/-- What an entry shows of a nominee. -/
structure NomineeSummary where
  id : Id
  name : String
  stageName : String
  photo : Option String
  deriving DecidableEq, Repr

/-- An entry of a tally, before it is ranked. -/
structure Entry where
  nominationId : Id
  nominee : NomineeSummary
  votes : ℕ
  deriving DecidableEq, Repr

/-- An entry with its rank. -/
structure RankedEntry extends Entry where
  rank : ℕ
  deriving DecidableEq, Repr

section Rank

variable (lower : String → String)

/-- The sort key `(-votes, name.lower(), str(nomination_id))`. The texts of two primary keys are in
the order of the keys. -/
def Entry.precedes (a b : Entry) : Bool :=
  decide (b.votes < a.votes) || (decide (a.votes = b.votes) &&
    (decide (lower a.nominee.name < lower b.nominee.name) ||
      (decide (lower a.nominee.name = lower b.nominee.name) &&
        decide (a.nominationId ≤ b.nominationId))))

/-- `_rank`: ties share a rank (1, 1, 3). -/
def rank (entries : List Entry) : List RankedEntry :=
  let sorted := entries.mergeSort (Entry.precedes lower)
  sorted.map fun e => { e with rank := 1 + (sorted.filter fun o => e.votes < o.votes).length }

end Rank

/-- `_entry`; `url` is `nominee.photo.url`, made absolute when there is a request. -/
def entry (url : String → String) (n : Nomination) (nominee : Nominee) (totals : List (Id × ℕ)) :
    Entry where
  nominationId := n.id
  nominee :=
    { id := nominee.id, name := nominee.name, stageName := nominee.stageName
      photo := if nominee.photo = "" then none else some (url nominee.photo) }
  votes := (totals.lookup n.id).getD 0

/-- The approved nominations of an award. -/
def approvedOf (db : Database) (award : Id) : List Nomination :=
  db.nominations.rows.filter fun n => n.award = award ∧ n.status = .approved

/-- The entries of an award, joined with the nominees. -/
def awardEntries (url : String → String) (db : Database) (award : Id) : List Entry :=
  let totals := totalsByNomination db fun v => v.award = award
  (approvedOf db award).filterMap fun n =>
    (db.nominees.get? n.nominee).map fun nominee => entry url n nominee totals

/-- **`award_tally`**. -/
def awardTally (lower url : String → String) (db : Database) (award : Id) : List RankedEntry :=
  rank lower (awardEntries url db award)

/-! ### The votes of an entry -/

/-- The sum of the quantities of an award's non-voided votes for a nomination. -/
def votesFor (db : Database) (award nomination : Id) : ℕ :=
  sumAt Vote.nomination Vote.quantity ((activeVotes db).filter fun v => v.award = award) nomination

theorem map_toEntry_rank (lower : String → String) (entries : List Entry) :
    (rank lower entries).map RankedEntry.toEntry = entries.mergeSort (Entry.precedes lower) := by
  unfold rank
  rw [List.map_map]
  exact List.map_id _

theorem perm_rank (lower : String → String) (entries : List Entry) :
    List.Perm ((rank lower entries).map RankedEntry.toEntry) entries :=
  map_toEntry_rank lower entries ▸ List.mergeSort_perm entries (Entry.precedes lower)

/-- The sort key. -/
def Entry.sortKey (lower : String → String) (e : Entry) : ℕᵒᵈ ×ₗ String ×ₗ Id :=
  toLex (OrderDual.toDual e.votes, toLex (lower e.nominee.name, e.nominationId))

theorem precedes_iff {lower : String → String} {a b : Entry} :
    a.precedes lower b = true ↔ a.sortKey lower ≤ b.sortKey lower := by
  unfold Entry.precedes Entry.sortKey
  rw [Prod.Lex.toLex_le_toLex, Prod.Lex.toLex_le_toLex]
  simp only [Bool.or_eq_true, Bool.and_eq_true, decide_eq_true_eq, OrderDual.toDual_lt_toDual,
    OrderDual.toDual_inj]

theorem pairwise_sorted (lower : String → String) (entries : List Entry) :
    (entries.mergeSort (Entry.precedes lower)).Pairwise fun a b => a.precedes lower b := by
  have htrans : ∀ a b c : Entry, a.precedes lower b → b.precedes lower c → a.precedes lower c :=
    fun a b c hab hbc => precedes_iff.mpr ((precedes_iff.mp hab).trans (precedes_iff.mp hbc))
  have htotal : ∀ a b : Entry, (a.precedes lower b || b.precedes lower a) = true := fun a b => by
    rw [Bool.or_eq_true]
    exact (le_total (a.sortKey lower) (b.sortKey lower)).imp precedes_iff.mpr precedes_iff.mpr
  exact List.pairwise_mergeSort htrans htotal entries

/-- The entries of one nomination each are sorted in one way only. -/
theorem rank_eq_of_perm (lower : String → String) {entries entries' : List Entry}
    (h : List.Perm entries entries') (hids : (entries.map Entry.nominationId).Nodup) :
    rank lower entries = rank lower entries' := by
  have hperm : List.Perm (entries.mergeSort (Entry.precedes lower))
      (entries'.mergeSort (Entry.precedes lower)) :=
    (List.mergeSort_perm ..).trans (h.trans (List.mergeSort_perm ..).symm)
  have heq : entries.mergeSort (Entry.precedes lower) = entries'.mergeSort
      (Entry.precedes lower) := by
    refine List.Perm.eq_of_pairwise (fun a b ha hb hab hba => ?_) (pairwise_sorted lower _)
      (pairwise_sorted lower _) hperm
    have hkey : a.sortKey lower = b.sortKey lower :=
      le_antisymm (precedes_iff.mp hab) (precedes_iff.mp hba)
    have hid : a.nominationId = b.nominationId := congrArg (fun k => (ofLex (ofLex k).2).2) hkey
    exact List.inj_on_of_nodup_map hids (List.mem_mergeSort.mp ha)
      (h.mem_iff.mpr (List.mem_mergeSort.mp hb)) hid
  unfold rank
  rw [heq]

theorem votes_entry (url : String → String) (db : Database) (award : Id) (n : Nomination)
    (nominee : Nominee) :
    (entry url n nominee (totalsByNomination db fun v => v.award = award)).votes =
      votesFor db award n.id :=
  lookup_groupSum ..

theorem mem_awardEntries {url : String → String} {db : Database} {award : Id} {e : Entry} :
    e ∈ awardEntries url db award ↔ ∃ n ∈ approvedOf db award, ∃ nominee,
      db.nominees.get? n.nominee = some nominee ∧
        entry url n nominee (totalsByNomination db fun v => v.award = award) = e := by
  simp only [awardEntries, List.mem_filterMap, Option.map_eq_some_iff]

theorem mem_awardEntries_of (url : String → String) {db : Database} {award : Id} {n : Nomination}
    {nominee : Nominee} (hn : n ∈ approvedOf db award)
    (hnominee : db.nominees.get? n.nominee = some nominee) :
    entry url n nominee (totalsByNomination db fun v => v.award = award) ∈
      awardEntries url db award :=
  mem_awardEntries.mpr ⟨n, hn, nominee, hnominee, rfl⟩

/-- The votes shown for a nomination are the non-voided ones it has in the award. -/
theorem votes_of_mem_awardTally {lower url : String → String} {db : Database} {award : Id}
    {e : RankedEntry} (h : e ∈ awardTally lower url db award) :
    e.votes = votesFor db award e.nominationId := by
  have hmem : e.toEntry ∈ awardEntries url db award :=
    (perm_rank lower _).mem_iff.mp (List.mem_map.mpr ⟨e, h, rfl⟩)
  obtain ⟨n, -, nominee, -, he⟩ := mem_awardEntries.mp hmem
  rw [← he, votes_entry]; rfl

/-- Every approved nomination of the award has an entry. -/
theorem exists_mem_awardTally (lower url : String → String) {db : Database} {n : Nomination}
    (hn : n ∈ db.nominations.rows) (ha : n.status = .approved)
    (hnominee : (db.nominees.get? n.nominee).isSome) :
    ∃ e ∈ awardTally lower url db n.award, e.nominationId = n.id := by
  obtain ⟨nominee, hnominee⟩ := Option.isSome_iff_exists.mp hnominee
  have hmem : n ∈ approvedOf db n.award := by simp [approvedOf, hn, ha]
  have he := mem_awardEntries_of url hmem hnominee
  obtain ⟨e, he, heq⟩ := List.mem_map.mp ((perm_rank lower _).mem_iff.mpr he)
  exact ⟨e, he, congrArg Entry.nominationId heq⟩

/-- Every non-voided vote of the award is for an approved nomination of it whose nominee exists. -/
def Covered (db : Database) (award : Id) : Prop :=
  ∀ v ∈ activeVotes db, v.award = award → ∃ n ∈ approvedOf db award, n.id = v.nomination ∧
    (db.nominees.get? n.nominee).isSome

theorem votes_awardEntries (url : String → String) (db : Database) (award : Id) :
    (awardEntries url db award).map Entry.votes =
      ((awardEntries url db award).map Entry.nominationId).map (votesFor db award) := by
  rw [List.map_map]
  refine List.map_congr_left fun e he => ?_
  obtain ⟨n, -, nominee, -, rfl⟩ := mem_awardEntries.mp he
  exact votes_entry url db award n nominee

theorem nodup_awardEntries (url : String → String) (db : Database) (award : Id) :
    ((awardEntries url db award).map Entry.nominationId).Nodup := by
  have hsub : List.Sublist ((awardEntries url db award).map Entry.nominationId)
      ((approvedOf db award).map Nomination.id) := by
    unfold awardEntries
    generalize approvedOf db award = ns
    induction ns with
    | nil => exact List.Sublist.slnil
    | cons n ns ih =>
      rw [List.filterMap_cons, List.map_cons]
      rcases db.nominees.get? n.nominee with _ | nominee
      · exact ih.cons _
      · exact ih.cons_cons _
  exact List.Nodup.sublist hsub (db.nominations.nodup.sublist (List.filter_sublist.map _))

/-- **An award's tally adds up** to the quantities of its non-voided votes. -/
theorem sum_awardTally (lower url : String → String) {db : Database} {award : Id}
    (h : Covered db award) :
    ((awardTally lower url db award).map fun e => e.votes).sum =
      (((activeVotes db).filter fun v => v.award = award).map Vote.quantity).sum := by
  have hsum : ((awardTally lower url db award).map fun e => e.votes).sum =
      ((awardEntries url db award).map Entry.votes).sum := by
    have hp := ((perm_rank lower (awardEntries url db award)).map Entry.votes).sum_eq
    rwa [List.map_map] at hp
  rw [hsum, votes_awardEntries]
  refine sum_fibres Vote.nomination Vote.quantity (nodup_awardEntries url db award) fun v hv => ?_
  obtain ⟨hv, ha⟩ := List.mem_filter.mp hv
  obtain ⟨n, hn, hid, hs⟩ := h v hv (of_decide_eq_true ha)
  obtain ⟨nominee, hnominee⟩ := Option.isSome_iff_exists.mp hs
  exact List.mem_map.mpr ⟨_, mem_awardEntries_of url hn hnominee, hid⟩

/-! ### The votes of one source -/

/-- The database with the votes of one source only. -/
def ofSource (source : VoteSource) (db : Database) : Database :=
  { db with votes := db.votes.filter fun v => v.source = source }

theorem activeVotes_ofSource (source : VoteSource) (db : Database) (award : Id) :
    ((activeVotes (ofSource source db)).filter fun v => v.award = award) =
      ((activeVotes db).filter fun v => v.award = award).filter fun v => v.source = source := by
  unfold activeVotes ofSource
  simp only [rows_filter, List.filter_filter]
  refine List.filter_congr fun v _ => ?_
  rw [← Bool.and_assoc, Bool.and_comm]

/-- A nomination's votes are its free ones and its paid ones. -/
theorem votesFor_ofSource (db : Database) (award nomination : Id) :
    votesFor (ofSource .free db) award nomination + votesFor (ofSource .paid db) award nomination =
      votesFor db award nomination := by
  unfold votesFor
  rw [activeVotes_ofSource, activeVotes_ofSource]
  refine sumAt_filter_add _ _ _ _ (fun v => ?_) _ _
  cases v.source <;> rfl

end KwAwards.Voting.Results
