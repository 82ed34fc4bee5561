import KwAwards.Lib.ListViews
import KwAwards.Store

/-! # Reading events, categories and awards

The list and the detail of `EventViewSet`, `CategoryViewSet` and `AwardViewSet`: what they query
(`exclude_drafts`), what their filter sets, search fields and ordering fields are, and what they
serialise. The rows of a query come joined with the rows their `select_related` names.

The public rows are those of an anonymous request; what an event or a category nests is read off
them (`eventData_congr`, `categoryData_congr`). -/

namespace KwAwards.Events.Reads

open KwAwards.Lib.Tables KwAwards.Lib.ListViews KwAwards.Common.Base KwAwards.Common.Exceptions
open KwAwards.Events.Models KwAwards.Store

/-- A value that rows are ordered by; a null is `none`. -/
inductive Column
  | text (s : Option String)
  | num (n : ℕ)
  | id (i : Id)
  | time (t : Option Time)
  | flag (b : Bool)
  deriving DecidableEq, Repr

/-! ### The rows -/

/-- A category with its event. -/
structure CategoryRow where
  category : Category
  event : Event
  deriving DecidableEq, Repr

/-- An award with its category and its event. -/
structure AwardRow where
  award : Award
  category : Category
  event : Event
  deriving DecidableEq, Repr

def joinCategory (db : Database) (category : Category) : Option CategoryRow :=
  (db.events.get? category.event).map fun event => ⟨category, event⟩

def joinAward (db : Database) (award : Award) : Option AwardRow :=
  (db.categories.get? award.category).bind fun category =>
    (db.events.get? category.event).map fun event => ⟨award, category, event⟩

def categoryRows (db : Database) : List CategoryRow :=
  db.categories.rows.filterMap (joinCategory db)

def awardRows (db : Database) : List AwardRow := db.awards.rows.filterMap (joinAward db)

/-- `exclude_drafts`: only event admins see draft events, and what is inside them. -/
def excludeDrafts {α : Type} (isEventAdmin : Bool) (status : α → EventStatus)
    (rows : List α) : List α :=
  if isEventAdmin then rows else rows.filter fun r => status r ≠ .draft

/-- `EventViewSet.get_queryset`. -/
def eventQueryset (db : Database) (isEventAdmin : Bool) : List Event :=
  excludeDrafts isEventAdmin Event.status db.events.rows

/-- `CategoryViewSet.get_queryset`. -/
def categoryQueryset (db : Database) (isEventAdmin : Bool) : List CategoryRow :=
  excludeDrafts isEventAdmin (fun r => r.event.status) (categoryRows db)

/-- `AwardViewSet.get_queryset`. -/
def awardQueryset (db : Database) (isEventAdmin : Bool) : List AwardRow :=
  let rows := excludeDrafts isEventAdmin (fun r => r.event.status) (awardRows db)
  if isEventAdmin then rows else rows.filter fun r => r.award.isActive

/-! ### Filters, search and order -/

/-- The cleaned parameters of `EventFilter`. -/
structure EventFilter where
  year : Option ℤ := none
  status : Option EventStatus := none

def EventFilter.passes (f : EventFilter) (e : Event) : Bool :=
  f.year.all (fun y => (e.year : ℤ) = y) && f.status.all fun s => e.status = s

/-- The cleaned parameter of `CategoryFilter`: a slug. -/
structure CategoryFilter where
  event : Option String := none

def CategoryFilter.passes (f : CategoryFilter) (r : CategoryRow) : Bool :=
  f.event.all fun slug => r.event.slug = slug

/-- The cleaned parameters of `AwardFilter`. -/
structure AwardFilter where
  event : Option String := none
  category : Option Id := none
  isActive : Option Bool := none

def AwardFilter.passes (f : AwardFilter) (r : AwardRow) : Bool :=
  f.event.all (fun slug => r.event.slug = slug) && f.category.all (fun c => r.award.category = c) &&
    f.isActive.all fun b => r.award.isActive = b

/-- `Event.Meta.ordering`: `-year`, `name`. -/
def eventOrdering : List (Term Event Column) :=
  [⟨fun e => .num e.year, true⟩, ⟨fun e => .text e.name, false⟩]

/-- `Category.Meta.ordering`. -/
def categoryOrdering : List (Term Category Column) :=
  [⟨fun c => .num c.displayOrder, false⟩, ⟨fun c => .text c.name, false⟩]

/-- `Award.Meta.ordering`. -/
def awardOrdering : List (Term Award Column) :=
  [⟨fun w => .num w.displayOrder, false⟩, ⟨fun w => .text w.name, false⟩]

section Views

variable {Q : Type}

/-- `EventViewSet`; `parse` is the form of `EventFilter`. -/
def eventView (parse : Q → Except ApiError EventFilter) : View Q Event Column ApiError where
  filterset q := (parse q).map EventFilter.passes
  searchFields := some fun e => [e.name, e.slug]
  orderingFields :=
    [("year", [⟨fun e => .num e.year, false⟩]), ("name", [⟨fun e => .text e.name, false⟩]),
      ("created_at", [⟨fun e => .time e.createdAt, false⟩])]
  ordering := eventOrdering

/-- `CategoryViewSet`: it names no ordering fields, so the fields of its serializer are; a relation
is ordered by the order of its model. -/
def categoryView (parse : Q → Except ApiError CategoryFilter) :
    View Q CategoryRow Column ApiError where
  filterset q := (parse q).map CategoryFilter.passes
  searchFields := some fun r => [r.category.name, r.category.slug]
  orderingFields :=
    [("id", [⟨fun r => .id r.category.id, false⟩]),
      ("event", eventOrdering.map (·.on CategoryRow.event)),
      ("name", [⟨fun r => .text r.category.name, false⟩]),
      ("slug", [⟨fun r => .text r.category.slug, false⟩]),
      ("description", [⟨fun r => .text r.category.description, false⟩]),
      ("display_order", [⟨fun r => .num r.category.displayOrder, false⟩]),
      ("created_at", [⟨fun r => .time r.category.createdAt, false⟩]),
      ("updated_at", [⟨fun r => .time r.category.updatedAt, false⟩])]
  ordering := categoryOrdering.map (·.on CategoryRow.category)

/-- `AwardViewSet`, with the fields of its serializer as well. -/
def awardView (parse : Q → Except ApiError AwardFilter) : View Q AwardRow Column ApiError where
  filterset q := (parse q).map AwardFilter.passes
  searchFields := some fun r => [r.award.name, r.award.slug, r.award.description]
  orderingFields :=
    [("id", [⟨fun r => .id r.award.id, false⟩]),
      ("category", categoryOrdering.map (·.on AwardRow.category)),
      ("category__event", eventOrdering.map (·.on AwardRow.event)),
      ("name", [⟨fun r => .text r.award.name, false⟩]),
      ("slug", [⟨fun r => .text r.award.slug, false⟩]),
      ("description", [⟨fun r => .text r.award.description, false⟩]),
      ("display_order", [⟨fun r => .num r.award.displayOrder, false⟩]),
      ("is_active", [⟨fun r => .flag r.award.isActive, false⟩]),
      ("created_at", [⟨fun r => .time r.award.createdAt, false⟩]),
      ("updated_at", [⟨fun r => .time r.award.updatedAt, false⟩])]
  ordering := awardOrdering.map (·.on AwardRow.award)

end Views

/-! ### Serializers -/

/-- `NestedAwardSerializer`. -/
structure NestedAwardData where
  id : Id
  name : String
  slug : String
  description : String
  displayOrder : ℕ
  isActive : Bool
  deriving DecidableEq, Repr

def nestedAward (w : Award) : NestedAwardData :=
  ⟨w.id, w.name, w.slug, w.description, w.displayOrder, w.isActive⟩

/-- `NestedCategorySerializer`. -/
structure NestedCategoryData where
  id : Id
  name : String
  slug : String
  description : String
  displayOrder : ℕ
  awards : List NestedAwardData
  deriving DecidableEq, Repr

/-- `EventSerializer`. -/
structure EventData where
  id : Id
  name : String
  slug : String
  year : ℕ
  status : EventStatus
  nominationsOpenAt : Option Time
  nominationsCloseAt : Option Time
  votingOpensAt : Option Time
  votingClosesAt : Option Time
  resultsPublishedAt : Option Time
  votingIsOpen : Bool
  nominationsAreOpen : Bool
  categories : List NestedCategoryData
  createdAt : Time
  updatedAt : Time
  deriving DecidableEq, Repr

/-- `CategorySerializer`. -/
structure CategoryData where
  id : Id
  event : Id
  name : String
  slug : String
  description : String
  displayOrder : ℕ
  awards : List NestedAwardData
  createdAt : Time
  updatedAt : Time
  deriving DecidableEq, Repr

/-- `AwardSerializer`; `event` is a slug. -/
structure AwardData where
  id : Id
  category : Id
  event : String
  name : String
  slug : String
  description : String
  displayOrder : ℕ
  isActive : Bool
  createdAt : Time
  updatedAt : Time
  deriving DecidableEq, Repr

section Serializers

variable (cmp : Column → Column → Ordering) (db : Database) (includeInactive : Bool)

/-- `event.categories.all()`. -/
def categoriesOf (event : Id) : List Category :=
  orderBy cmp categoryOrdering (db.categories.rows.filter fun c => c.event = event)

/-- `category.awards.all()`. -/
def awardsOf (category : Id) : List Award :=
  orderBy cmp awardOrdering (db.awards.rows.filter fun w => w.category = category)

/-- `get_awards`: active ones only, unless the viewer is an event admin. -/
def getAwards (category : Id) : List NestedAwardData :=
  ((awardsOf cmp db category).filter fun w => includeInactive || w.isActive).map nestedAward

def nestedCategory (c : Category) : NestedCategoryData :=
  ⟨c.id, c.name, c.slug, c.description, c.displayOrder, getAwards cmp db includeInactive c.id⟩

def eventData (now : Time) (e : Event) : EventData where
  id := e.id
  name := e.name
  slug := e.slug
  year := e.year
  status := e.status
  nominationsOpenAt := e.nominationsOpenAt
  nominationsCloseAt := e.nominationsCloseAt
  votingOpensAt := e.votingOpensAt
  votingClosesAt := e.votingClosesAt
  resultsPublishedAt := e.resultsPublishedAt
  votingIsOpen := e.votingIsOpen now
  nominationsAreOpen := e.nominationsAreOpen now
  categories := (categoriesOf cmp db e.id).map (nestedCategory cmp db includeInactive)
  createdAt := e.createdAt
  updatedAt := e.updatedAt

def categoryData (r : CategoryRow) : CategoryData where
  id := r.category.id
  event := r.category.event
  name := r.category.name
  slug := r.category.slug
  description := r.category.description
  displayOrder := r.category.displayOrder
  awards := getAwards cmp db includeInactive r.category.id
  createdAt := r.category.createdAt
  updatedAt := r.category.updatedAt

end Serializers

def awardData (r : AwardRow) : AwardData where
  id := r.award.id
  category := r.award.category
  event := r.event.slug
  name := r.award.name
  slug := r.award.slug
  description := r.award.description
  displayOrder := r.award.displayOrder
  isActive := r.award.isActive
  createdAt := r.award.createdAt
  updatedAt := r.award.updatedAt

/-! ### The public rows -/

/-- The events that are not drafts. -/
def publicEvents (db : Database) : List Event := db.events.rows.filter fun e => e.status ≠ .draft

/-- Their categories. -/
def publicCategories (db : Database) : List CategoryRow :=
  (categoryRows db).filter fun r => r.event.status ≠ .draft

/-- Their active awards. -/
def publicAwards (db : Database) : List AwardRow :=
  (awardRows db).filter fun r => decide (r.event.status ≠ .draft) && r.award.isActive

theorem awardQueryset_false (db : Database) : awardQueryset db false = publicAwards db := by
  unfold awardQueryset publicAwards excludeDrafts
  simp only [Bool.false_eq_true, if_false, List.filter_filter]
  exact List.filter_congr fun r _ => Bool.and_comm ..

variable {db db' : Database} {cmp : Column → Column → Ordering}

theorem mem_publicCategories {r : CategoryRow} : r ∈ publicCategories db ↔
    r.category ∈ db.categories.rows ∧ db.events.get? r.category.event = some r.event ∧
      r.event.status ≠ .draft := by
  unfold publicCategories categoryRows joinCategory
  rw [List.mem_filter, List.mem_filterMap, decide_eq_true_eq]
  constructor
  · rintro ⟨⟨c, hc, h⟩, hs⟩
    obtain ⟨e, he, rfl⟩ := Option.map_eq_some_iff.mp h
    exact ⟨hc, he, hs⟩
  · rintro ⟨hc, he, hs⟩
    exact ⟨⟨r.category, hc, by rw [he]; rfl⟩, hs⟩

theorem mem_publicAwards {x : AwardRow} : x ∈ publicAwards db ↔
    x.award ∈ db.awards.rows ∧ joinAward db x.award = some x ∧ x.event.status ≠ .draft ∧
      x.award.isActive = true := by
  unfold publicAwards awardRows
  rw [List.mem_filter, List.mem_filterMap, Bool.and_eq_true, decide_eq_true_eq]
  constructor
  · rintro ⟨⟨w, hw, h⟩, hs⟩
    obtain ⟨c, -, hj⟩ := Option.bind_eq_some_iff.mp h
    obtain ⟨e, -, rfl⟩ := Option.map_eq_some_iff.mp hj
    exact ⟨hw, h, hs⟩
  · rintro ⟨hw, h, hs⟩
    exact ⟨⟨x.award, hw, h⟩, hs⟩

/-- A public category is joined with its event. -/
theorem event_of_publicCategory {r : CategoryRow} {e : Event} (hr : r ∈ publicCategories db)
    (he : e ∈ publicEvents db) (h : r.category.event = e.id) : r.event = e := by
  obtain ⟨-, hevent, -⟩ := mem_publicCategories.mp hr
  have hget : db.events.get? e.id = some e := Table.get?_key (List.mem_filter.mp he).1
  rw [h, hget] at hevent
  exact (Option.some.inj hevent).symm

/-- An award of a public category is in its event. -/
theorem event_of_publicAward {x : AwardRow} {r : CategoryRow} (hx : x ∈ publicAwards db)
    (hr : r ∈ publicCategories db) (h : x.award.category = r.category.id) : x.event = r.event := by
  obtain ⟨-, hj, -⟩ := mem_publicAwards.mp hx
  obtain ⟨hmem, hevent, -⟩ := mem_publicCategories.mp hr
  have hget : db.categories.get? r.category.id = some r.category := Table.get?_key hmem
  rw [joinAward, h, hget, Option.bind_some, hevent, Option.map_some] at hj
  rw [← Option.some.inj hj]

/-- The categories of a public event are public. -/
theorem categories_of_public {e : Event} (he : e ∈ publicEvents db) :
    (db.categories.rows.filter fun c => c.event = e.id) =
      ((publicCategories db).filter fun r => r.category.event = e.id).map CategoryRow.category := by
  obtain ⟨hmem, hs⟩ := List.mem_filter.mp he
  have hget : db.events.get? e.id = some e := Table.get?_key hmem
  unfold publicCategories categoryRows
  rw [List.filter_filter]
  refine (map_filter_filterMap (fun c _ r hr => ?_) fun c _ hc => ?_).symm
  · obtain ⟨e', he', rfl⟩ := Option.map_eq_some_iff.mp hr
    refine ⟨rfl, ?_⟩
    by_cases hc : c.event = e.id
    · obtain rfl := Option.some.inj (hget.symm.trans (hc ▸ he'))
      simp [hc, of_decide_eq_true hs]
    · simp [hc]
  · by_cases hce : c.event = e.id
    · rw [joinCategory, hce, hget] at hc
      simp at hc
    · simp [hce]

/-- The active awards of a public category are public. -/
theorem awards_of_public {r : CategoryRow} (hr : r ∈ publicCategories db) :
    (db.awards.rows.filter fun w => decide (w.category = r.category.id) && w.isActive) =
      ((publicAwards db).filter fun x => x.award.category = r.category.id).map AwardRow.award := by
  obtain ⟨hmem, hevent, hs⟩ := mem_publicCategories.mp hr
  have hget : db.categories.get? r.category.id = some r.category := Table.get?_key hmem
  unfold publicAwards awardRows
  rw [List.filter_filter]
  refine (map_filter_filterMap (fun w _ x hx => ?_) fun w _ hw => ?_).symm
  · obtain ⟨c, hc, hx⟩ := Option.bind_eq_some_iff.mp hx
    obtain ⟨e, he, rfl⟩ := Option.map_eq_some_iff.mp hx
    refine ⟨rfl, ?_⟩
    by_cases hw : w.category = r.category.id
    · obtain rfl := Option.some.inj (hget.symm.trans (hw ▸ hc))
      obtain rfl := Option.some.inj (hevent.symm.trans he)
      simp [hw, hs]
    · simp [hw]
  · by_cases hwc : w.category = r.category.id
    · rw [joinAward, hwc, hget, Option.bind_some, hevent] at hw
      simp at hw
    · simp [hwc]

theorem getAwards_of_public [Std.TransCmp cmp] {r : CategoryRow} (hr : r ∈ publicCategories db) :
    getAwards cmp db false r.category.id =
      (orderBy cmp awardOrdering (((publicAwards db).filter fun x =>
      x.award.category = r.category.id).map AwardRow.award)).map nestedAward := by
  unfold getAwards awardsOf
  rw [filter_orderBy, List.filter_filter, ← awards_of_public hr]
  congr 2
  refine List.filter_congr fun w _ => ?_
  rw [Bool.false_or, Bool.and_comm]

/-- **What a public category shows** is read off the public awards. -/
theorem categoryData_congr [Std.TransCmp cmp] (hawards : publicAwards db = publicAwards db')
    {r : CategoryRow} (hr : r ∈ publicCategories db) (hr' : r ∈ publicCategories db') :
    categoryData cmp db false r = categoryData cmp db' false r := by
  unfold categoryData
  rw [getAwards_of_public hr, getAwards_of_public hr', hawards]

/-- **What a public event shows** is read off the public categories and awards. -/
theorem eventData_congr [Std.TransCmp cmp]
    (hcategories : publicCategories db = publicCategories db')
    (hawards : publicAwards db = publicAwards db') {now : Time} {e : Event}
    (he : e ∈ publicEvents db) (he' : e ∈ publicEvents db') :
    eventData cmp db false now e = eventData cmp db' false now e := by
  have hnested : (categoriesOf cmp db e.id).map (nestedCategory cmp db false) =
      (categoriesOf cmp db' e.id).map (nestedCategory cmp db' false) := by
    unfold categoriesOf
    rw [categories_of_public he, categories_of_public he', hcategories]
    refine List.map_congr_left fun c hc => ?_
    obtain ⟨r, hr, rfl⟩ := List.mem_map.mp ((mem_orderBy cmp).mp hc)
    have hr' : r ∈ publicCategories db' := (List.mem_filter.mp hr).1
    unfold nestedCategory
    rw [getAwards_of_public (hcategories ▸ hr'), getAwards_of_public hr', hawards]
  unfold eventData
  rw [hnested]

end KwAwards.Events.Reads
