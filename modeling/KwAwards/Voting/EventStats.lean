import KwAwards.Voting.EventResults

/-! # The numbers of the dashboard

`eventStats` counts the votes that have the event in their own column: in all, by the category of
their award, and by the day they were cast. `truncDate` is the calendar day of an instant in the
current time zone. A vote that is voided leaves one row of each list (`lessBy_of_void`). -/

namespace KwAwards.Voting.EventStats

open KwAwards.Lib.Tables KwAwards.Lib.Group KwAwards.Lib.ListViews KwAwards.Common.Base
open KwAwards.Events.Models KwAwards.Events.Reads KwAwards.Nominations.Models KwAwards.Voting.Votes
open KwAwards.Voting.Denormalised KwAwards.Voting.Services KwAwards.Store

/-- `StatsTotalsSerializer`. -/
structure Totals where
  votes : ℕ
  voters : ℕ
  voidedVotes : ℕ
  pendingNominations : ℕ
  approvedNominations : ℕ
  deriving DecidableEq, Repr

structure DayStats (Day : Type) where
  date : Day
  votes : ℕ
  deriving DecidableEq, Repr

structure CategoryStats where
  categoryId : Id
  category : String
  votes : ℕ
  voters : ℕ
  deriving DecidableEq, Repr

structure EventRef where
  id : Id
  slug : String
  name : String
  status : EventStatus
  deriving DecidableEq, Repr

structure StatsData (Day : Type) where
  event : EventRef
  totals : Totals
  votesOverTime : List (DayStats Day)
  perCategory : List CategoryStats
  deriving DecidableEq, Repr

/-- A vote with the category of its award. -/
structure VoteRow where
  vote : Vote
  category : Category
  deriving DecidableEq, Repr

def joinVote (db : Database) (vote : Vote) : Option VoteRow :=
  ((db.awards.get? vote.award).bind fun w => db.categories.get? w.category).map fun c => ⟨vote, c⟩

/-- `award__category_id`, `award__category__name`. -/
def VoteRow.key (r : VoteRow) : Id × String := (r.category.id, r.category.name)

def categoryStats (k : Id × String) (rows : List VoteRow) : CategoryStats where
  categoryId := k.1
  category := k.2
  votes := (rows.map fun r => r.vote.quantity).sum
  voters := distinct (fun r => r.vote.voter) rows

def dayStats {Day : Type} (day : Day) (votes : List Vote) : DayStats Day where
  date := day
  votes := (votes.map Vote.quantity).sum

section Stats

variable {Day : Type} [LinearOrder Day] (cmp : Column → Column → Ordering) (truncDate : Time → Day)
  (db : Database) (event : Id)

/-- `Vote.objects.filter(event=event)`. -/
def votesOf : List Vote := db.votes.rows.filter fun v => v.event = event

def activeOf : List Vote := (votesOf db event).filter Vote.active

/-- `award__category__event`. -/
def nominationsOf : List Nomination :=
  db.nominations.rows.filter fun n => (categoryOf db n.award).bind (eventOf db) = some event

/-- `GROUP BY award__category_id, award__category__name`. -/
def categoryGroups : List CategoryStats :=
  groupRows VoteRow.key categoryStats ((activeOf db event).filterMap (joinVote db))

/-- `order_by("award__category__name")`. -/
def perCategory : List CategoryStats :=
  orderBy cmp [⟨fun r => .text r.category, false⟩] (categoryGroups db event)

/-- `GROUP BY day`. -/
def dayGroups : List (DayStats Day) :=
  groupRows (fun v => truncDate v.createdAt) dayStats (activeOf db event)

/-- `order_by("day")`. -/
def votesOverTime : List (DayStats Day) :=
  (dayGroups truncDate db event).insertionSort fun a b => a.date ≤ b.date

def totals : Totals where
  votes := ((activeOf db event).map Vote.quantity).sum
  voters := distinct Vote.voter (activeOf db event)
  voidedVotes := ((votesOf db event).filter fun v => v.voidedAt.isSome).length
  pendingNominations := ((nominationsOf db event).filter fun n => n.status = .pending).length
  approvedNominations := ((nominationsOf db event).filter fun n => n.status = .approved).length

/-- **`event_stats`**. -/
def eventStats (e : Event) : StatsData Day where
  event := ⟨e.id, e.slug, e.name, e.status⟩
  totals := totals db e.id
  votesOverTime := votesOverTime truncDate db e.id
  perCategory := perCategory cmp db e.id

end Stats

/-! ### Partitions -/

/-- **Consistent partitions** of the non-voided votes of an event. -/
structure Partitions {Day : Type} [LinearOrder Day] (db : Database) (event : Id)
    (s : StatsData Day) :
    Prop where
  votes : s.totals.votes =
    ((db.votes.rows.filter fun v => v.event = event ∧ v.voidedAt = none).map Vote.quantity).sum
  categories : (s.perCategory.map CategoryStats.categoryId).Nodup
  perCategory : (s.perCategory.map CategoryStats.votes).sum = s.totals.votes
  days : (s.votesOverTime.map DayStats.date).Pairwise (· < ·)
  overTime : (s.votesOverTime.map DayStats.votes).sum = s.totals.votes
  voters : s.totals.voters ≤ s.totals.votes
  votersByCategory : s.totals.voters ≤ (s.perCategory.map CategoryStats.voters).sum

variable {Day : Type} [LinearOrder Day] {cmp : Column → Column → Ordering} {truncDate : Time → Day}
  {db db' : Database} {event : Id}

/-- The joined votes are the votes. -/
theorem map_vote_join (hfk : ForeignKeys db) {votes : List Vote}
    (h : ∀ v ∈ votes, v ∈ db.votes.rows) :
    (votes.filterMap (joinVote db)).map VoteRow.vote = votes := by
  have hjoin : ∀ v ∈ votes, ∃ c, joinVote db v = some ⟨v, c⟩ := by
    intro v hv
    obtain ⟨w, hw⟩ := Option.isSome_iff_exists.mp (hfk.award v (h v hv))
    obtain ⟨c, hc⟩ := Option.isSome_iff_exists.mp (hfk.category w (Table.get?_eq_some.mp hw).1)
    exact ⟨c, by rw [joinVote, hw, Option.bind_some, hc, Option.map_some]⟩
  clear h
  induction votes with
  | nil => rfl
  | cons v votes ih =>
    obtain ⟨⟨c, hc⟩, hjoin⟩ := List.forall_mem_cons.mp hjoin
    rw [List.filterMap_cons_some hc, List.map_cons, ih hjoin]

theorem mem_votes_of_activeOf {v : Vote} (h : v ∈ activeOf db event) : v ∈ db.votes.rows :=
  List.mem_of_mem_filter (List.mem_of_mem_filter h)

theorem sum_joined (hfk : ForeignKeys db) :
    (((activeOf db event).filterMap (joinVote db)).map fun r => r.vote.quantity).sum =
      ((activeOf db event).map Vote.quantity).sum := by
  have hmap : ((activeOf db event).filterMap (joinVote db)).map VoteRow.vote = activeOf db event :=
    map_vote_join hfk fun v hv => mem_votes_of_activeOf hv
  nth_rewrite 2 [← hmap]
  rw [List.map_map]
  rfl

theorem distinct_joined (hfk : ForeignKeys db) :
    distinct (fun r : VoteRow => r.vote.voter) ((activeOf db event).filterMap (joinVote db)) =
      distinct Vote.voter (activeOf db event) := by
  have hmap : ((activeOf db event).filterMap (joinVote db)).map VoteRow.vote = activeOf db event :=
    map_vote_join hfk fun v hv => mem_votes_of_activeOf hv
  unfold distinct
  nth_rewrite 2 [← hmap]
  rw [List.map_map]
  rfl

/-- A category row has the name of its category. -/
theorem name_of_perCategory {r : CategoryStats} (h : r ∈ perCategory cmp db event) :
    ∃ c ∈ db.categories.rows, c.id = r.categoryId ∧ c.name = r.category := by
  obtain ⟨x, hx, rfl⟩ := mem_groupRows.mp ((mem_orderBy cmp).mp h)
  obtain ⟨v, -, hv⟩ := List.mem_filterMap.mp hx
  obtain ⟨c, hc, rfl⟩ := Option.map_eq_some_iff.mp hv
  obtain ⟨w, -, hc⟩ := Option.bind_eq_some_iff.mp hc
  exact ⟨c, (Table.get?_eq_some.mp hc).1, rfl, rfl⟩

theorem category_inj {r r' : CategoryStats} (h : r ∈ perCategory cmp db event)
    (h' : r' ∈ perCategory cmp db event) (hid : r.categoryId = r'.categoryId) :
    r.category = r'.category := by
  obtain ⟨c, hc, hcid, hname⟩ := name_of_perCategory h
  obtain ⟨c', hc', hcid', hname'⟩ := name_of_perCategory h'
  have heq : c = c' := Table.eq_of_key hc hc' (hcid.trans (hid.trans hcid'.symm))
  rw [← hname, heq, hname']

theorem nodup_perCategory :
    ((perCategory cmp db event).map CategoryStats.categoryId).Nodup := by
  have hpairs : ((perCategory cmp db event).map fun r => (r.categoryId, r.category)).Nodup :=
    ((List.perm_insertionSort _ _).map _).nodup_iff.mpr
      (nodup_groupRows (fun r : CategoryStats => (r.categoryId, r.category)) fun _ _ => rfl)
  refine List.Nodup.map_on (fun r hr r' hr' hid => ?_) hpairs.of_map
  exact List.inj_on_of_nodup_map hpairs hr hr' (Prod.ext hid (category_inj hr hr' hid))

theorem pairwise_votesOverTime :
    ((votesOverTime truncDate db event).map DayStats.date).Pairwise (· < ·) := by
  have hsorted : (votesOverTime truncDate db event).Pairwise fun a b => a.date ≤ b.date := by
    have htotal : Std.Total fun a b : DayStats Day => a.date ≤ b.date := ⟨fun a b => le_total _ _⟩
    have htrans : IsTrans (DayStats Day) fun a b => a.date ≤ b.date := ⟨fun _ _ _ => le_trans⟩
    exact List.pairwise_insertionSort _ _
  have hnodup : ((votesOverTime truncDate db event).map DayStats.date).Nodup :=
    ((List.perm_insertionSort _ _).map _).nodup_iff.mpr
      (nodup_groupRows DayStats.date fun _ _ => rfl)
  rw [List.pairwise_map]
  exact hsorted.imp₂ (fun a b hle hne => lt_of_le_of_ne hle hne) (List.pairwise_map.mp hnodup)

theorem voters_le_votes :
    distinct Vote.voter (activeOf db event) ≤ ((activeOf db event).map Vote.quantity).sum := by
  have hpos : ∀ q ∈ (activeOf db event).map Vote.quantity, 1 ≤ q := by
    intro q hq
    obtain ⟨v, hv, rfl⟩ := List.mem_map.mp hq
    exact of_decide_eq_true (db.votes.checked v (mem_votes_of_activeOf hv)).2.1
  calc distinct Vote.voter (activeOf db event)
      ≤ (activeOf db event).length := distinct_le_length _ _
    _ = ((activeOf db event).map Vote.quantity).length := (List.length_map _).symm
    _ ≤ ((activeOf db event).map Vote.quantity).sum := List.length_le_sum_of_one_le _ hpos

theorem partitions_eventStats (hfk : ForeignKeys db) (e : Event) :
    Partitions db e.id (eventStats cmp truncDate db e) where
  votes := by
    show ((activeOf db e.id).map Vote.quantity).sum = _
    unfold activeOf votesOf
    rw [List.filter_filter]
    refine congrArg (fun l : List Vote => (l.map Vote.quantity).sum)
      (List.filter_congr fun v _ => ?_)
    rw [Vote.active, Bool.decide_and, Bool.and_comm]
    cases v.voidedAt <;> rfl
  categories := nodup_perCategory
  perCategory := by
    refine ((perm_orderBy cmp _ (categoryGroups db e.id)).map CategoryStats.votes).sum_eq.trans ?_
    exact ((sum_groupRows (fun r : VoteRow => r.vote.quantity) CategoryStats.votes
      (fun _ _ => rfl) _).trans (sum_joined hfk))
  days := pairwise_votesOverTime
  overTime := by
    refine ((List.perm_insertionSort _ (dayGroups truncDate db e.id)).map
      DayStats.votes).sum_eq.trans ?_
    exact (sum_groupRows Vote.quantity DayStats.votes (fun _ _ => rfl) _)
  voters := voters_le_votes
  votersByCategory := by
    refine le_of_le_of_eq ?_
      ((perm_orderBy cmp _ (categoryGroups db e.id)).map CategoryStats.voters).sum_eq.symm
    show distinct Vote.voter (activeOf db e.id) ≤ _
    rw [← distinct_joined hfk]
    exact distinct_le_sum _ CategoryStats.voters (fun _ _ => rfl) _

/-! ### A vote that is voided -/

/-- **One vote less:** its quantity is gone from the total, from the row of its category and from
the row of its day, and from no other. -/
structure LessBy (truncDate : Time → Day) (v : Vote) (category : Id)
    (s s' : StatsData Day) : Prop where
  positive : 1 ≤ v.quantity
  votes : s'.totals.votes + v.quantity = s.totals.votes
  voidedVotes : s'.totals.voidedVotes = s.totals.voidedVotes + 1
  perCategory :
      OneRowLess CategoryStats.categoryId CategoryStats.votes category v.quantity s.perCategory
    s'.perCategory
  overTime :
      OneRowLess DayStats.date DayStats.votes (truncDate v.createdAt) v.quantity s.votesOverTime
    s'.votesOverTime

/-- The vote tables before and after a vote of the event is voided. -/
structure Voids (db db' : Database) (v v' : Vote) (l₁ l₂ : List Vote) : Prop where
  before : db.votes.rows = l₁ ++ v :: l₂
  after : db'.votes.rows = l₁ ++ v' :: l₂
  event : v'.event = v.event
  active : v.voidedAt = none
  voided : v'.voidedAt.isSome
  awards : db'.awards = db.awards
  categories : db'.categories = db.categories

theorem voids_of_voidVote {v v' : Vote} (hv : v ∈ db.votes.rows) {byUser : Id} {reason : String}
    {request : Option Request} {now : Time} {ak : Keys}
    (h : voidVote db v.id byUser reason request now ak = some (db', .ok v')) :
    ∃ v' l₁ l₂, Voids db db' v v' l₁ l₂ := by
  rcases voidVote_cases h with
    ⟨-, e, he, -⟩ | ⟨vote, hmem, hid, hact, -, votes, audit, e, hrows, -, -, rfl⟩
  · cases he
  · obtain rfl : vote = v := VoteTable.eq_of_id hmem hv hid
    obtain ⟨l₁, l₂, hsplit, hmap⟩ := VoteTable.exists_split hmem (void vote byUser reason now)
    exact ⟨_, l₁, l₂, hsplit, hrows.trans hmap, rfl, hact, rfl, rfl, rfl⟩

section Voided

variable {v v' : Vote} {l₁ l₂ : List Vote} (h : Voids db db' v v' l₁ l₂)

include h

theorem Voids.rows : votesOf db v.event =
      l₁.filter (fun x => x.event = v.event) ++ v :: l₂.filter (fun x => x.event = v.event) ∧
    votesOf db' v.event =
      l₁.filter (fun x => x.event = v.event) ++ v' :: l₂.filter (fun x => x.event = v.event) := by
  unfold votesOf
  rw [h.before, h.after, List.filter_append, List.filter_append, List.filter_cons, List.filter_cons,
    if_pos (decide_eq_true rfl), if_pos (decide_eq_true h.event)]
  exact ⟨rfl, rfl⟩

/-- The votes that count, before and after. -/
theorem Voids.actives : ∃ a₁ a₂, activeOf db v.event = a₁ ++ v :: a₂ ∧
    activeOf db' v.event = a₁ ++ a₂ := by
  obtain ⟨hbefore, hafter⟩ := h.rows
  have hactive : v.active = true := by rw [Vote.active, h.active]; rfl
  have hvoided : ¬ v'.active = true := by
    have hsome := h.voided
    rw [Option.isSome_iff_ne_none] at hsome
    rw [Vote.active, Option.isNone_iff_eq_none]
    exact hsome
  refine ⟨(l₁.filter fun x => x.event = v.event).filter Vote.active,
    (l₂.filter fun x => x.event = v.event).filter Vote.active, ?_, ?_⟩
  · rw [activeOf, hbefore, List.filter_append, List.filter_cons_of_pos hactive]
  · rw [activeOf, hafter, List.filter_append, List.filter_cons_of_neg hvoided]

theorem Voids.voidedMore :
    (totals db' v.event).voidedVotes = (totals db v.event).voidedVotes + 1 := by
  obtain ⟨hbefore, hafter⟩ := h.rows
  show ((votesOf db' v.event).filter fun x => x.voidedAt.isSome).length =
    ((votesOf db v.event).filter fun x => x.voidedAt.isSome).length + 1
  rw [hbefore, hafter, List.filter_append, List.filter_append,
    List.filter_cons_of_pos (by simp [h.voided]), List.filter_cons_of_neg (by simp [h.active]),
    List.length_append, List.length_append, List.length_cons]
  omega

theorem Voids.categoryLess {c : Category} (hc : c ∈ db.categories.rows)
    (hjoin : joinVote db v = some ⟨v, c⟩) :
    OneRowLess CategoryStats.categoryId CategoryStats.votes c.id v.quantity
      (perCategory cmp db v.event)
      (perCategory cmp db' v.event) := by
  obtain ⟨a₁, a₂, hbefore, hafter⟩ := h.actives
  have hsame : joinVote db' = joinVote db := by
    unfold joinVote
    rw [h.awards, h.categories]
  have hrows : OneRowLess (fun r : CategoryStats => (r.categoryId, r.category)) CategoryStats.votes
      (c.id, c.name) v.quantity (categoryGroups db v.event) (categoryGroups db' v.event) := by
    unfold categoryGroups
    rw [hbefore, hafter, hsame, List.filterMap_append, List.filterMap_cons_some hjoin,
      List.filterMap_append]
    exact oneRowLess_groupRows VoteRow.key categoryStats (fun r => (r.categoryId, r.category))
      (fun _ _ => rfl) _ (fun r => r.vote.quantity) (fun _ _ => rfl) _ _ ⟨v, c⟩
  have hname : ∀ r ∈ perCategory cmp db' v.event, r.categoryId = c.id →
      (r.categoryId, r.category) = (c.id, c.name) := by
    intro r hr hid
    obtain ⟨c', hc', hcid, hcname⟩ := name_of_perCategory hr
    rw [h.categories] at hc'
    rw [← hcname, Table.eq_of_key hc' hc (hcid.trans hid), hid]
  exact (hrows.congr (fun _ => mem_orderBy cmp) fun _ => mem_orderBy cmp).mapKey Prod.fst hname

theorem Voids.dayLess : OneRowLess DayStats.date DayStats.votes (truncDate v.createdAt) v.quantity
    (votesOverTime truncDate db v.event) (votesOverTime truncDate db' v.event) := by
  obtain ⟨a₁, a₂, hbefore, hafter⟩ := h.actives
  have hrows : OneRowLess DayStats.date DayStats.votes (truncDate v.createdAt) v.quantity
      (dayGroups truncDate db v.event) (dayGroups truncDate db' v.event) := by
    unfold dayGroups
    rw [hbefore, hafter]
    exact oneRowLess_groupRows (fun v : Vote => truncDate v.createdAt) dayStats DayStats.date
      (fun _ _ => rfl) _ Vote.quantity (fun _ _ => rfl) _ _ v
  exact hrows.congr (fun _ => List.mem_insertionSort _) fun _ => List.mem_insertionSort _

theorem Voids.lessBy {c : Category} (hv : v ∈ db.votes.rows) (hc : c ∈ db.categories.rows)
    (hjoin : joinVote db v = some ⟨v, c⟩) {e : Event} (he : v.event = e.id) :
    LessBy truncDate v c.id (eventStats cmp truncDate db e) (eventStats cmp truncDate db' e) where
  positive := of_decide_eq_true (db.votes.checked v hv).2.1
  votes := by
    obtain ⟨a₁, a₂, hbefore, hafter⟩ := h.actives
    show ((activeOf db' e.id).map Vote.quantity).sum + v.quantity =
      ((activeOf db e.id).map Vote.quantity).sum
    rw [← he, hbefore, hafter, List.map_append, List.map_append, List.map_cons, List.sum_append,
      List.sum_append, List.sum_cons]
    omega
  voidedVotes := by
    have hvoided := h.voidedMore
    rwa [he] at hvoided
  perCategory := by
    show OneRowLess _ _ c.id v.quantity (perCategory cmp db e.id) (perCategory cmp db' e.id)
    rw [← he]
    exact h.categoryLess hc hjoin
  overTime := by
    show OneRowLess _ _ _ v.quantity (votesOverTime truncDate db e.id)
      (votesOverTime truncDate db' e.id)
    rw [← he]
    exact h.dayLess

end Voided

/-- The gala with an inactive award, a pending nomination and a paid vote that is voided. -/
def countedDb : Database where
  events := galaDb.events
  categories := galaDb.categories
  awards := ⟨galaDb.awards.rows ++
    [{ id := 22, category := 10, name := "Album", slug := "album", isActive := false }], by decide⟩
  nominees := galaDb.nominees
  nominations :=
    ⟨[{ id := 40, nominee := 30, award := 20, status := .approved, reviewedAt := some 1 },
      { id := 42, nominee := 31, award := 20 },
    { id := 43, nominee := 30, award := 22, status := .approved, reviewedAt := some 1 }], by decide⟩
  voters := galaDb.voters
  votes := ⟨[
    { id := 60, event := 1, award := 20, nomination := 40, voter := 50, seq := 1,
      createdAt := 150 },
    { id := 61, event := 1, award := 20, nomination := 40, voter := 50, source := .paid,
      quantity := 5,
      payment := some 80, voidedAt := some 170, voidReason := "refund", seq :=
        2, createdAt := 160 },
    { id := 62, event := 1, award := 22, nomination := 43, voter := 50, seq := 3,
      createdAt := 180 }],
    by decide, by decide⟩

theorem foreignKeys_countedDb : ForeignKeys countedDb := ⟨by decide, by decide, by decide⟩

/-- **The numbers of the dashboard are consistent**, and a void takes one vote out of them. -/
structure Consistent (cmp : Column → Column → Ordering) (truncDate : Time → Day) (db : Database)
    (e : Event) :
    Prop where
  partitions : Partitions db e.id (eventStats cmp truncDate db e)
  lessBy : ∀ v ∈ db.votes.rows, v.event = e.id → ∀ byUser reason request now ak db' v',
    voidVote db v.id byUser reason request now ak = some (db', .ok v') →
      ∃ category, LessBy truncDate v category (eventStats cmp truncDate db e)
        (eventStats cmp truncDate db' e)

theorem eventStats_consistent (cmp : Column → Column → Ordering) (truncDate : Time → Day)
    (hfk : ForeignKeys db) (e : Event) : Consistent cmp truncDate db e where
  partitions := partitions_eventStats hfk e
  lessBy := by
    intro v hv he byUser reason request now ak db' v' h
    obtain ⟨v'', l₁, l₂, hvoids⟩ := voids_of_voidVote hv h
    obtain ⟨w, hw⟩ := Option.isSome_iff_exists.mp (hfk.award v hv)
    obtain ⟨c, hc⟩ := Option.isSome_iff_exists.mp (hfk.category w (Table.get?_eq_some.mp hw).1)
    have hjoin : joinVote db v = some ⟨v, c⟩ := by
      rw [joinVote, hw, Option.bind_some, hc, Option.map_some]
    exact ⟨c.id, hvoids.lessBy hv (Table.get?_eq_some.mp hc).1 hjoin he⟩

theorem eventStats_consistent_counted :
    Consistent (fun _ _ => .eq) (fun t => t / seconds 86400) countedDb gala :=
  eventStats_consistent _ _ foreignKeys_countedDb gala

end KwAwards.Voting.EventStats
