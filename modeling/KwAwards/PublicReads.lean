import KwAwards.Voting.EventResults

/-! # Public reads

`get` answers the anonymous `GET` requests on events, results, categories, awards, nominations and
nominees. The framework, the filter forms and the addresses of stored files are a `Site`: they read
the parameters of a request and never the database.

`publicProjection` is what of a database is public. Two databases where it is the same give the same
answers exactly when the drifted votes of each published nomination add up to the same in both
(`get_congr_iff`), for instance where no vote has drifted; nothing else of a database influences the
answers. -/

namespace KwAwards.PublicReads

open KwAwards.Lib.Tables KwAwards.Lib.ListViews KwAwards.Common.Base KwAwards.Common.Exceptions
open KwAwards.Events.Models KwAwards.Events.Reads KwAwards.Nominations.Models
open KwAwards.Nominations.Reads KwAwards.Voting.Denormalised KwAwards.Voting.EventResults
open KwAwards.Store

open List (Forall₂)

/-- What answers a request besides the database, for query strings `Q`. -/
structure Site (Q : Type) where
  backend : Backend Q Column ApiError
  eventFilter : Q → Except ApiError EventFilter
  categoryFilter : Q → Except ApiError CategoryFilter
  awardFilter : Q → Except ApiError AwardFilter
  nominationFilter : Q → Except ApiError NominationFilter
  lower : String → String
  url : String → String

/-- A `GET`; a primary key that is not a UUID is `none`. -/
inductive Get (Q : Type)
  | events (q : Q)
  | event (slug : String) (q : Q)
  | results (slug : String) (q : Q)
  | categories (q : Q)
  | category (pk : Option Id) (q : Q)
  | awards (q : Q)
  | award (pk : Option Id) (q : Q)
  | awardNominations (award : Id) (q : Q)
  | nominations (q : Q)
  | nomination (pk : Option Id) (q : Q)
  | nominee (pk : Option Id) (q : Q)

/-- The body of an answer. -/
inductive Body
  | events (page : Page EventData)
  | event (data : EventData)
  | results (data : ResultsData)
  | categories (page : Page CategoryData)
  | category (data : CategoryData)
  | awards (page : Page AwardData)
  | award (data : AwardData)
  | nominations (page : Page NominationData)
  | nomination (data : NominationData)
  | nominee (data : NomineeProfileData)
  deriving DecidableEq, Repr

/-- The detail of `get_object_or_404` for a model. -/
def noMatch (model : String) : ApiError := .notFound ("No " ++ model ++ " matches the given query.")

section Views

variable {Q : Type} (site : Site Q) (db : Database) (now : Time)

/-- `get_object` by primary key. -/
def getObject {α : Type} (view : View Q α Column ApiError) (rows : List α) (id : α → Id)
    (model : String) (pk : Option Id) (q : Q) : Except ApiError α :=
  match pk with
  | some k => retrieve site.backend view q (fun a => id a = k) (noMatch model) rows
  | none => retrieve site.backend view q (fun _ => false) (.notFound "Not found.") rows

/-- `get_object` of `EventViewSet`: by slug. -/
def getEvent (isEventAdmin : Bool) (slug : String) (q : Q) : Except ApiError Event :=
  retrieve site.backend (eventView site.eventFilter) q (fun e => e.slug = slug) (noMatch "Event")
    (eventQueryset db isEventAdmin)

/-- `EventViewSet.results`: public only once the results are published. -/
def results (isEventAdmin : Bool) (slug : String) (q : Q) : Except ApiError ResultsData :=
  match getEvent site db isEventAdmin slug q with
  | .error e => .error e
  | .ok e =>
    if !isEventAdmin && decide (e.status ≠ .resultsPublished) then .error (.notFound "Not found.")
    else .ok (eventResults site.backend.compare site.lower site.url db now e)

/-- `AwardNominationsView`: the award first, then its public nominations. -/
def awardNominations (award : Id) (q : Q) : Except ApiError (Page NominationData) :=
  match activeAward db award with
  | none => .error (noMatch "Award")
  | some r =>
    list site.backend awardNominationsView q (nominationData site.url)
      ((publicNominations db).filter fun x => x.nomination.award = r.award.id)

/-- **The answer to an anonymous request.** -/
def get : Get Q → Except ApiError Body
  | .events q =>
    (list site.backend (eventView site.eventFilter) q (eventData site.backend.compare db false now)
      (eventQueryset db false)).map .events
  | .event slug q =>
    ((getEvent site db false slug q).map (eventData site.backend.compare db false now)).map .event
  | .results slug q => (results site db now false slug q).map .results
  | .categories q =>
    (list site.backend (categoryView site.categoryFilter) q
      (categoryData site.backend.compare db false)
      (categoryQueryset db false)).map .categories
  | .category pk q =>
    ((getObject site (categoryView site.categoryFilter) (categoryQueryset db false)
      (fun r => r.category.id) "Category" pk q).map
        (categoryData site.backend.compare db false)).map
        .category
  | .awards q =>
    (list site.backend (awardView site.awardFilter) q awardData (awardQueryset db false)).map
      .awards
  | .award pk q =>
    ((getObject site (awardView site.awardFilter) (awardQueryset db false)
      (fun r => r.award.id) "Award"
      pk q).map awardData).map .award
  | .awardNominations award q => (awardNominations site db award q).map .nominations
  | .nominations q =>
    (list site.backend (nominationView site.nominationFilter) q (nominationData site.url)
      (publicNominations db)).map .nominations
  | .nomination pk q =>
    ((getObject site (nominationView site.nominationFilter) (publicNominations db)
      (fun r => r.nomination.id) "Nomination" pk q).map (nominationData site.url)).map .nomination
  | .nominee pk q =>
    ((getObject site nomineeView (nomineeQueryset db) Nominee.id "Nominee" pk q).map
      (nomineeProfile site.backend.compare site.url db)).map .nominee

end Views

/-! ### What is public -/

/-- The public part of a database. -/
structure PublicProjection where
  events : List Event
  categories : List CategoryRow
  awards : List AwardRow
  nominations : List (PublicNomination × Option ℕ)
  deriving DecidableEq, Repr

/-- **The public projection**: the events that are not drafts, their categories and active awards,
the approved nominations of these with what is public of their nominees, and their votes where the
results of the event are published. -/
def publicProjection (db : Database) : PublicProjection where
  events := publicEvents db
  categories := publicCategories db
  awards := publicAwards db
  nominations := (publicNominations db).map fun r => (.of r, publishedVotes db r)

/-- The drifted votes of the published nominations add up to the same. -/
def DriftedAlike (db db' : Database) : Prop :=
  ∀ r ∈ publicNominations db, r.award.event.status = .resultsPublished →
    driftedVotes db r.award.event.id r.nomination.id =
      driftedVotes db' r.award.event.id r.nomination.id

instance (db db' : Database) : Decidable (DriftedAlike db db') := by
  unfold DriftedAlike; infer_instance

/-- Two databases that are the same in public, row by row, and show the same votes. -/
structure Same (db db' : Database) : Prop where
  events : publicEvents db = publicEvents db'
  categories : publicCategories db = publicCategories db'
  awards : publicAwards db = publicAwards db'
  nominations : Forall₂ (SameTally db db') (publicNominations db) (publicNominations db')

variable {db db' : Database}

/-- The public nominations of two databases with the same projection. -/
theorem forall₂_of_publicProjection (h : publicProjection db = publicProjection db') :
    Forall₂ (fun r r' => SameNomination db db' r r' ∧ publishedVotes db r = publishedVotes db' r')
      (publicNominations db) (publicNominations db') := by
  have hrows := forall₂_of_map_eq (congrArg PublicProjection.nominations h)
  have hsame : (publicNominations db).map PublicNomination.of =
      (publicNominations db').map PublicNomination.of :=
    map_eq_of_forall₂ (fun _ _ hr => congrArg Prod.fst hr) hrows
  exact Forall₂.mp (fun r r' hsame hr => ⟨hsame, congrArg Prod.snd hr⟩)
    (forall₂_sameNomination hsame) hrows

/-- What is shown and what has drifted add up to what is public. -/
theorem shownVotes_eq_iff {r r' : NominationRow} (hsame : SameNomination db db' r r')
    (hvotes : publishedVotes db r = publishedVotes db' r')
    (hs : r.award.event.status = .resultsPublished) :
    shownVotes db r = shownVotes db' r' ↔
      driftedVotes db r.award.event.id r.nomination.id =
        driftedVotes db' r.award.event.id r.nomination.id := by
  unfold publishedVotes at hvotes
  unfold shownVotes
  rw [← hsame.award, ← hsame.id, if_pos hs, if_pos hs, Option.some.injEq] at *
  have hsum := votesInEvent_add_driftedVotes db r.award.event.id r.nomination.id
  have hsum' := votesInEvent_add_driftedVotes db' r.award.event.id r.nomination.id
  omega

theorem same_of_publicProjection (h : publicProjection db = publicProjection db')
    (hd : DriftedAlike db db') : Same db db' where
  events := congrArg PublicProjection.events h
  categories := congrArg PublicProjection.categories h
  awards := congrArg PublicProjection.awards h
  nominations := by
    refine (forall₂_with_mem (forall₂_of_publicProjection h)).imp fun r r' hr => ⟨hr.1.1, ?_⟩
    obtain ⟨⟨hsame, hvotes⟩, hr, -⟩ := hr
    by_cases hs : r.award.event.status = .resultsPublished
    · exact (shownVotes_eq_iff hsame hvotes hs).mpr (hd r hr hs)
    · unfold shownVotes
      rw [← hsame.award, if_neg hs, if_neg hs]

/-- Where no vote has drifted, the drifted votes add up to nothing. -/
theorem driftedAlike_of_noDrift (h : publicProjection db = publicProjection db') (hd : NoDrift db)
    (hd' : NoDrift db') : DriftedAlike db db' := by
  intro r hr _
  obtain ⟨r', -, hsame, -⟩ := exists_of_forall₂ (forall₂_of_publicProjection h) hr
  rw [driftedVotes_of_noDrift hd hsame.stored, hsame.award, hsame.id,
    driftedVotes_of_noDrift hd' hsame.stored']

/-! ### One endpoint at a time -/

section Answers

variable {Q : Type} (site : Site Q)

/-- Related rows are found and shown together. -/
theorem getObject_congr {α β : Type} {R : α → α → Prop} {view : View Q α Column ApiError}
    (hview : view.Respects R) {id : α → Id} (hid : Respects R id) {rows rows' : List α}
    (hrows : Forall₂ R rows rows') {serialize serialize' : α → β}
    (hs : ∀ a a', R a a' → serialize a = serialize' a') (model : String) (pk : Option Id) (q : Q) :
    (getObject site view rows id model pk q).map serialize =
      (getObject site view rows' id model pk q).map serialize' := by
  unfold getObject
  cases pk with
  | none => exact map_eq_of_agree (agree_retrieve hview (fun _ _ _ => rfl) _ hrows) hs
  | some k =>
    have hlookup : Respects R fun a => decide (id a = k) := fun a a' ha => by
      show decide (id a = k) = decide (id a' = k)
      rw [hid a a' ha]
    exact map_eq_of_agree (agree_retrieve hview hlookup _ hrows) hs

/-- The same rows, shown in the same way. -/
theorem getObject_map_congr {α β : Type} (view : View Q α Column ApiError) (id : α → Id)
    {rows : List α} {serialize serialize' : α → β} (hs : ∀ a ∈ rows, serialize a = serialize' a)
    (model : String) (pk : Option Id) (q : Q) :
    (getObject site view rows id model pk q).map serialize =
      (getObject site view rows id model pk q).map serialize' := by
  have hrows : Forall₂ (fun a a' => a = a' ∧ a ∈ rows) rows rows :=
    List.forall₂_same.mpr fun a ha => ⟨rfl, ha⟩
  refine getObject_congr site (view.respects_of_eq fun a a' h => h.1)
    (fun a a' h => congrArg id h.1)
    hrows ?_ model pk q
  rintro a _ ⟨rfl, ha⟩
  exact hs a ha

variable (h : Same db db')

include h

/-- The rows that an anonymous request can reach. -/
theorem Same.eventQueryset : eventQueryset db false = eventQueryset db' false := h.events

theorem Same.categoryQueryset : categoryQueryset db false = categoryQueryset db' false :=
  h.categories

theorem Same.awardQueryset : awardQueryset db false = awardQueryset db' false := by
  rw [awardQueryset_false, awardQueryset_false, h.awards]

theorem Same.sameNomination :
    Forall₂ (SameNomination db db') (publicNominations db) (publicNominations db') :=
  h.nominations.imp fun _ _ hr => hr.toSameNomination

theorem Same.nomineeQueryset :
    Forall₂ (SameNominee db db') (nomineeQueryset db) (nomineeQueryset db') :=
  forall₂_dedup biUnique_sameNominee (forall₂_sameNominee h.sameNomination)

theorem Same.activeAward (award : Id) : activeAward db award = activeAward db' award := by
  have hfind : ∀ d : Database, Nominations.Reads.activeAward d award =
      (publicAwards d).find? fun r => r.award.id = award := by
    intro d
    unfold Nominations.Reads.activeAward publicAwards
    rw [List.find?_filter]
    congr 1
    funext r
    cases r.award.isActive <;> simp [and_comm]
  rw [hfind, hfind, h.awards]

theorem Same.getEvent (slug : String) (q : Q) :
    getEvent site db false slug q = getEvent site db' false slug q := by
  unfold PublicReads.getEvent
  rw [h.eventQueryset]

variable (now : Time)

theorem eventData_same {e : Event} (he : e ∈ eventQueryset db' false) :
    eventData site.backend.compare db false now e = eventData site.backend.compare db' false
      now e := by
  have hlawful := site.backend.lawful
  have he' : e ∈ publicEvents db := h.events ▸ he
  exact eventData_congr h.categories h.awards he' he

theorem categoryData_same {r : CategoryRow} (hr : r ∈ categoryQueryset db' false) :
    categoryData site.backend.compare db false r = categoryData site.backend.compare db'
      false r := by
  have hlawful := site.backend.lawful
  have hr' : r ∈ publicCategories db := h.categories ▸ hr
  exact categoryData_congr h.awards hr' hr

theorem results_same (slug : String) (q : Q) :
    results site db now false slug q = results site db' now false slug q := by
  unfold results
  rw [h.getEvent site slug q]
  rcases hget : PublicReads.getEvent site db' false slug q with _ | e
  · rfl
  · have he' : e ∈ publicEvents db' := mem_of_retrieve hget
    have he : e ∈ publicEvents db := h.events ▸ he'
    by_cases hs : e.status = .resultsPublished
    · simp [hs, eventResults_congr h.categories h.awards h.nominations he he' hs]
    · simp [hs]

theorem awardNominations_same (award : Id) (q : Q) :
    awardNominations site db award q = awardNominations site db' award q := by
  unfold awardNominations
  rw [h.activeAward award]
  rcases activeAward db' award with _ | r
  · rfl
  · refine list_eq respects_awardNominationsView (fun x x' hx => hx.nominationData site.url)
      (forall₂_filter (fun x x' hx => ?_) h.sameNomination)
    rw [hx.award_id]

end Answers

/-! ### Two databases with the same public part -/

/-- A place in the order of a column, nulls last. -/
def columnKey : Column → List ℕ
  | .text (some s) => 0 :: s.toList.map Char.toNat
  | .time (some t) => [0, t]
  | .text none | .time none => [1]
  | .num n | .id n => [n]
  | .flag b => [b.toNat]

/-- The answers to requests without parameters, of at most one page. -/
def plainSite : Site Unit where
  backend :=
    { search := fun _ => .ok fun _ => true
      ordering := fun _ _ => none
      compare := compareOn columnKey
      lawful := inferInstance
      paginate := fun _ _ => .ok ⟨0, 25, none, none⟩ }
  eventFilter _ := .ok {}
  categoryFilter _ := .ok {}
  awardFilter _ := .ok {}
  nominationFilter _ := .ok {}
  lower := Common.Base.lower
  url name := "/media/" ++ name

/-- The gala with its results published, and an event where votes are still cast. -/
def published : Database where
  events := ⟨[{ gala with status := .resultsPublished, resultsPublishedAt := some 300 },
    { id := 2, name := "Other", slug := "other", year := 2026, status := .votingOpen }], by decide⟩
  categories := galaDb.categories
  awards := ⟨[{ id := 20, category := 10, name := "Song", slug := "song" },
    { id := 21, category := 11, name := "Drama", slug := "drama" }], by decide⟩
  nominees := galaDb.nominees
  nominations :=
    ⟨[{ id := 40, nominee := 30, award := 20, status := .approved, reviewedAt := some 1 },
      { id := 41, nominee := 31, award := 21, status := .approved, reviewedAt := some 1 }], by
        decide⟩
  votes := ⟨[
    { id := 60, event := 1, award := 20, nomination := 40, voter := 50, seq := 1,
      createdAt := 150 }],
    by decide, by decide⟩

/-- The same, but the vote was cast while the award was in a category of the other event. -/
def publishedMoved : Database where
  events := published.events
  categories := published.categories
  awards := published.awards
  nominees := published.nominees
  nominations := published.nominations
  votes := ⟨[
    { id := 60, event := 2, award := 20, nomination := 40, voter := 50, seq := 1,
      createdAt := 150 }],
    by decide, by decide⟩

/-- The same in public, with a draft, an inactive award, contact data, a pending nomination, and a
vote whose results are not published. -/
def publishedToo : Database where
  events := ⟨published.events.rows ++ [{ id := 3, name := "Draft", slug := "draft", year := 2027 }],
    by decide⟩
  categories :=
    ⟨galaDb.categories.rows ++ [{ id := 12, event := 3, name := "Dance", slug := "dance" }],
    by decide⟩
  awards := ⟨published.awards.rows ++
    [{ id := 22, category := 10, name := "Album", slug := "album", isActive := false }], by decide⟩
  nominees := ⟨[{ id := 30, name := "Ann", contactPhone := "+254712345678" },
    { id := 31, name := "Bob", owner := some 70 }], by decide⟩
  nominations := ⟨published.nominations.rows ++ [{ id := 42, nominee := 31, award := 20 },
    { id := 43, nominee := 30, award := 22, status := .approved, reviewedAt := some 1 }], by decide⟩
  votes := ⟨published.votes.rows ++
    [{ id := 61, event := 2, award := 21, nomination := 41, voter := 50, seq := 2,
       createdAt := 160 }],
    by decide, by decide⟩

/-! ### Every endpoint -/

/-- Databases that show the same votes give the same answers. -/
theorem get_congr {Q : Type} (site : Site Q) (now : Time) {db db' : Database} (hsame : Same db db')
    (request : Get Q) : get site db now request = get site db' now request := by
  cases request with
  | events q =>
    refine congrArg (Except.map Body.events) ?_
    rw [hsame.eventQueryset]
    exact list_congr fun e he => eventData_same site hsame now he
  | event slug q =>
    refine congrArg (Except.map Body.event) ?_
    rw [hsame.getEvent site slug q]
    rcases hget : getEvent site db' false slug q with _ | e
    · rfl
    · exact congrArg Except.ok (eventData_same site hsame now (mem_of_retrieve hget))
  | results slug q => exact congrArg (Except.map Body.results) (results_same site hsame now slug q)
  | categories q =>
    refine congrArg (Except.map Body.categories) ?_
    rw [hsame.categoryQueryset]
    exact list_congr fun r hr => categoryData_same site hsame hr
  | category pk q =>
    refine congrArg (Except.map Body.category) ?_
    rw [hsame.categoryQueryset]
    exact getObject_map_congr site _ _ (fun r hr => categoryData_same site hsame hr) _ pk q
  | awards q =>
    refine congrArg (Except.map Body.awards) ?_
    rw [hsame.awardQueryset]
  | award pk q =>
    refine congrArg (Except.map Body.award) ?_
    rw [hsame.awardQueryset]
  | awardNominations award q =>
    exact congrArg (Except.map Body.nominations) (awardNominations_same site hsame award q)
  | nominations q =>
    refine congrArg (Except.map Body.nominations) ?_
    exact list_eq (respects_nominationView _) (fun r r' hr => hr.nominationData site.url)
      hsame.sameNomination
  | nomination pk q =>
    refine congrArg (Except.map Body.nomination) ?_
    exact getObject_congr site (respects_nominationView _) (fun r r' hr => hr.id)
      hsame.sameNomination
      (fun r r' hr => hr.nominationData site.url) _ pk q
  | nominee pk q =>
    refine congrArg (Except.map Body.nominee) ?_
    exact getObject_congr site respects_nomineeView (fun m m' hm => hm.id) hsame.nomineeQueryset
      (fun m m' hm => nomineeProfile_congr _ site.url hsame.sameNomination hm) _ pk q

/-- `Event.slug` is unique. -/
def UniqueSlugs (db : Database) : Prop := (db.events.rows.map Event.slug).Nodup

instance (db : Database) : Decidable (UniqueSlugs db) := by unfold UniqueSlugs; infer_instance

/-- A public event is found by its slug. -/
theorem getEvent_slug {db : Database} (hslug : UniqueSlugs db) {e : Event}
    (he : e ∈ publicEvents db) : getEvent plainSite db false e.slug () = .ok e := by
  refine retrieve_of_unique rfl rfl he rfl rfl (decide_eq_true rfl) fun e' he' hs => ?_
  exact List.inj_on_of_nodup_map hslug (List.mem_of_mem_filter he') (List.mem_of_mem_filter he)
    (of_decide_eq_true hs)

/-- The results of a public event, once they are published. -/
theorem get_results {db : Database} (hslug : UniqueSlugs db) {e : Event} (he : e ∈ publicEvents db)
    (hs : e.status = .resultsPublished) {now : Time} :
    get plainSite db now (.results e.slug ()) = .ok (.results
      (eventResults plainSite.backend.compare plainSite.lower plainSite.url db now e)) := by
  simp only [get, results]
  rw [getEvent_slug hslug he]
  simp [hs, Except.map]

theorem event_of_publicNomination {db : Database} {r : NominationRow}
    (hr : r ∈ publicNominations db) : r.award.event ∈ publicEvents db := by
  obtain ⟨hrow, hpublic⟩ := List.mem_filter.mp hr
  simp only [NominationRow.isPublic, Bool.and_eq_true, decide_eq_true_eq] at hpublic
  obtain ⟨-, -, hjoin⟩ := joinNomination_eq_some.mp (mem_nominationRows.mp hrow).2
  obtain ⟨w, -, hj⟩ := Option.bind_eq_some_iff.mp hjoin
  obtain ⟨c, -, hj⟩ := Option.bind_eq_some_iff.mp hj
  obtain ⟨e, he, hj⟩ := Option.map_eq_some_iff.mp hj
  have hevent : r.award.event = e := congrArg AwardRow.event hj.symm
  rw [hevent] at hpublic ⊢
  exact List.mem_filter.mpr ⟨(Table.get?_eq_some.mp he).1, decide_eq_true hpublic.2⟩

/-- Databases with the same results of an event show the same votes for its nominations. -/
theorem votesInEvent_of_results {db db' : Database} {r : NominationRow}
    (hr : r ∈ publicNominations db) {cmp : Column → Column → Ordering} {lower url : String → String}
    {now : Time} (h : eventResults cmp lower url db now r.award.event =
      eventResults cmp lower url db' now r.award.event) :
    votesInEvent db r.award.event.id r.nomination.id =
      votesInEvent db' r.award.event.id r.nomination.id := by
  obtain ⟨c, hc, a, ha, x, hx, hid⟩ := exists_mem_results cmp lower url now hr
  have hvotes := votes_of_mem_results hc ha hx
  have hvotes' := votes_of_mem_results (h ▸ hc) ha hx
  rw [← hid, ← hvotes, ← hvotes']

/-- **Public reads reveal only the public projection** when, and only when, the drifted votes of the
published nominations add up to the same. -/
theorem get_congr_iff {db db' : Database} (hslug : UniqueSlugs db) (hslug' : UniqueSlugs db')
    (h : publicProjection db = publicProjection db') :
    (∀ (Q : Type) (site : Site Q) (now : Time) (request : Get Q),
      get site db now request = get site db' now request) ↔ DriftedAlike db db' := by
  constructor
  · intro hget r hr hs
    obtain ⟨r', -, hsame, hvotes⟩ := exists_of_forall₂ (forall₂_of_publicProjection h) hr
    have he : r.award.event ∈ publicEvents db := event_of_publicNomination hr
    have hevents : publicEvents db = publicEvents db' := congrArg PublicProjection.events h
    have hanswer := hget Unit plainSite 0 (.results r.award.event.slug ())
    rw [get_results hslug he hs, get_results hslug' (hevents ▸ he) hs] at hanswer
    have hshown := votesInEvent_of_results hr (Body.results.inj (Except.ok.inj hanswer))
    refine (shownVotes_eq_iff hsame hvotes hs).mp ?_
    unfold shownVotes
    rw [← hsame.award, ← hsame.id, if_pos hs, if_pos hs, hshown]
  · intro hd Q site now request
    exact get_congr site now (same_of_publicProjection h hd) request

theorem get_congr_iff_published :
    (NoDrift published ∧ NoDrift publishedToo) ∧
      published.votes.rows ≠ publishedToo.votes.rows ∧
      get plainSite published 400 (.results "gala" ()) =
        get plainSite publishedToo 400 (.results "gala" ()) := by
  refine ⟨by decide, by decide, ?_⟩
  have halike : DriftedAlike published publishedToo :=
    driftedAlike_of_noDrift (by decide) (by decide) (by decide)
  exact (get_congr_iff (by decide) (by decide) (by decide)).mpr halike Unit plainSite 400 _

/-- A vote whose award was moved is missing from the results that are published. -/
theorem not_always_get_congr : ¬ ∀ (db db' : Database), UniqueSlugs db → UniqueSlugs db' →
    publicProjection db = publicProjection db' →
      ∀ (Q : Type) (site : Site Q) (now : Time) (request : Get Q),
        get site db now request = get site db' now request := by
  intro h
  have hget := h published publishedMoved (by decide) (by decide) (by decide) Unit plainSite 400
    (.results "gala" ())
  exact absurd hget (by decide +kernel)

end KwAwards.PublicReads
