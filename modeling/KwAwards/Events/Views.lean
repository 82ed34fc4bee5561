import KwAwards.Events.Serializers

/-! # Creating, editing and deleting events, categories and awards

The write actions of the three view sets for an event admin. A save writes every column of the row
it is given (`saveEvent`, `saveCategory`, `saveAward`) and is refused by the constraints of the
table; an update saves the instance it read with the accepted attributes set. A delete collects the
subtree of the instance (`eventSubtree`, `categorySubtree`, `awardSubtree`) and is refused when a
vote or a payment protects a row of it. -/

namespace KwAwards.Events.Views

open KwAwards.Lib.Tables KwAwards.Common.Base KwAwards.Common.Exceptions KwAwards.Events.Models
open KwAwards.Events.Serializers KwAwards.Store

/-! ### Saving a row -/

/-- The check constraint a row violates. -/
def eventConstraint (e : Event) : String :=
  if ¬ e.nominationWindowOrdered then "event_nomination_window_ordered"
  else if ¬ e.votingWindowOrdered then "event_voting_window_ordered"
  else if ¬ e.nominationsCloseBeforeVotingOpens then
    "event_nominations_close_before_voting_opens"
  else "event_published_has_timestamp"

/-- Whether the constraints of the table let a row in. -/
def eventFits (db : Database) (row : Event) : Bool :=
  row.checks && eventSlugFree db row.slug (some row.id)

/-- `save()` of an event: all its columns. -/
def saveEvent (db : Database) (row : Event) : Database × Except Raised Event :=
  if ¬ row.checks then (db, .error (.db (.checkViolation (eventConstraint row))))
  else if ¬ eventSlugFree db row.slug (some row.id) then (db, .error (.db .uniqueViolation))
  else ({ db with events := db.events.put row }, .ok row)

/-- `save()` of a category. -/
def saveCategory (db : Database) (row : Category) : Database × Except Raised Category :=
  if ¬ categorySlugFree db row.event row.slug (some row.id) then (db, .error (.db .uniqueViolation))
  else ({ db with categories := db.categories.put row }, .ok row)

/-- `save()` of an award. -/
def saveAward (db : Database) (row : Award) : Database × Except Raised Award :=
  if ¬ awardSlugFree db row.category row.slug (some row.id) then (db, .error (.db .uniqueViolation))
  else ({ db with awards := db.awards.put row }, .ok row)

theorem saveEvent_cases (db : Database) (row : Event) :
    (eventFits db row = false ∧ (saveEvent db row).1 = db) ∨
      (eventFits db row = true ∧
        (saveEvent db row).1 = { db with events := db.events.put row }) := by
  unfold saveEvent eventFits
  split_ifs with h1 h2
  · exact Or.inr ⟨by rw [h1, h2]; rfl, rfl⟩
  · exact Or.inl ⟨by simp [h2], rfl⟩
  · exact Or.inl ⟨by simp [h1], rfl⟩

theorem saveCategory_cases (db : Database) (row : Category) :
    (saveCategory db row).1 = db ∨
      (saveCategory db row).1 = { db with categories := db.categories.put row } := by
  unfold saveCategory
  split_ifs
  · exact Or.inr rfl
  · exact Or.inl rfl

theorem saveCategory_of_free {db : Database} {row : Category}
    (h : categorySlugFree db row.event row.slug (some row.id) = true) :
    (saveCategory db row).1 = { db with categories := db.categories.put row } := by
  rw [saveCategory, if_neg (not_not.mpr h)]

theorem saveAward_cases (db : Database) (row : Award) :
    (saveAward db row).1 = db ∨
      (saveAward db row).1 = { db with awards := db.awards.put row } := by
  unfold saveAward
  split_ifs
  · exact Or.inr rfl
  · exact Or.inl rfl

theorem saveAward_of_free {db : Database} {row : Award}
    (h : awardSlugFree db row.category row.slug (some row.id) = true) :
    (saveAward db row).1 = { db with awards := db.awards.put row } := by
  rw [saveAward, if_neg (not_not.mpr h)]

/-! ### Creating and updating -/

section Edit

variable (clean : Bool → String → String)

/-- The row of an event's slug. -/
def eventBySlug (db : Database) (slug : String) : Option Event :=
  db.events.rows.find? fun e => e.slug = slug

def notFound (model : String) : Raised :=
  .api (.notFound ("No " ++ model ++ " matches the given query."))

/-- What an update of an event is about to save: `get_object`, then the accepted attributes. -/
def editEvent (db : Database) (slug : String) (full : Bool) (a : EventAttrs) :
    Except Raised (Event × EventAttrs) :=
  match eventBySlug db slug with
  | none => .error (notFound "Event")
  | some e =>
    match acceptEvent clean db (some e) full a with
    | .error x => .error (.api x)
    | .ok a => .ok (e, a)

/-- The row an update of an event saves. -/
def editedEvent (e : Event) (a : EventAttrs) (now : Time) : Event :=
  { a.assign e with updatedAt := now }

/-- **`EventViewSet.update`** and `partial_update`, without interruption. -/
def updateEvent (db : Database) (slug : String) (full : Bool) (a : EventAttrs) (now : Time) :
    Database × Except Raised Event :=
  match editEvent clean db slug full a with
  | .error x => (db, .error x)
  | .ok (e, a) => saveEvent db (editedEvent e a now)

/-- `EventViewSet.create`; `none` when the new primary key is taken. -/
def createEvent (db : Database) (a : EventAttrs) (now : Time) (k : Keys) :
    Option (Database × Except Raised Event) :=
  match acceptEvent clean db none true a with
  | .error x => some (db, .error (.api x))
  | .ok a =>
    if (db.events.get? k.id).isSome then none
    else some (saveEvent db (a.assign
      { id := k.id, name := "", slug := "", year := 0, createdAt := now, updatedAt := now }))

/-- The row an update of a category saves. -/
def editedCategory (c : Category) (a : CategoryAttrs) (now : Time) : Category :=
  { a.assign c with updatedAt := now }

/-- The row an update of an award saves. -/
def editedAward (w : Award) (a : AwardAttrs) (now : Time) : Award :=
  { a.assign w with updatedAt := now }

/-- `CategoryViewSet.update` and `partial_update`. -/
def updateCategory (db : Database) (pk : Id) (full : Bool) (a : CategoryAttrs) (now : Time) :
    Database × Except Raised Category :=
  match db.categories.get? pk with
  | none => (db, .error (notFound "Category"))
  | some c =>
    match acceptCategory clean db (some c) full a with
    | .error x => (db, .error (.api x))
    | .ok a => saveCategory db (editedCategory c a now)

/-- `CategoryViewSet.create`. -/
def createCategory (db : Database) (a : CategoryAttrs) (now : Time) (k : Keys) :
    Option (Database × Except Raised Category) :=
  match acceptCategory clean db none true a with
  | .error x => some (db, .error (.api x))
  | .ok a =>
    if (db.categories.get? k.id).isSome then none
    else some (saveCategory db (a.assign
      { id := k.id, event := 0, name := "", slug := "", createdAt := now, updatedAt := now }))

/-- `AwardViewSet.update` and `partial_update`. -/
def updateAward (db : Database) (pk : Id) (full : Bool) (a : AwardAttrs) (now : Time) :
    Database × Except Raised Award :=
  match db.awards.get? pk with
  | none => (db, .error (notFound "Award"))
  | some w =>
    match acceptAward clean db (some w) full a with
    | .error x => (db, .error (.api x))
    | .ok a => saveAward db (editedAward w a now)

/-- `AwardViewSet.create`. -/
def createAward (db : Database) (a : AwardAttrs) (now : Time) (k : Keys) :
    Option (Database × Except Raised Award) :=
  match acceptAward clean db none true a with
  | .error x => some (db, .error (.api x))
  | .ok a =>
    if (db.awards.get? k.id).isSome then none
    else some (saveAward db (a.assign
      { id := k.id, category := 0, name := "", slug := "", createdAt := now, updatedAt := now }))

variable {clean}

/-- **What an update of an award does:** the accepted attributes are saved, or nothing is. -/
theorem updateAward_cases (db : Database) (pk : Id) (full : Bool) (a : AwardAttrs) (now : Time) :
    (∃ w a', db.awards.get? pk = some w ∧ acceptAward clean db (some w) full a = .ok a' ∧
      (updateAward clean db pk full a now).1 =
        { db with awards := db.awards.put (editedAward w a' now) }) ∨
      ((∀ w a', db.awards.get? pk = some w → acceptAward clean db (some w) full a ≠ .ok a') ∧
        (updateAward clean db pk full a now).1 = db) := by
  rcases hw : db.awards.get? pk with _ | w
  · refine Or.inr ⟨fun w a' h => (by cases h), ?_⟩
    simp only [updateAward, hw]
  · rcases ha : acceptAward clean db (some w) full a with x | a'
    · refine Or.inr ⟨fun w' a' h => ?_, ?_⟩
      · obtain rfl := Option.some.inj h
        rw [ha]
        exact fun hx => by simp at hx
      · simp only [updateAward, hw, ha]
    · refine Or.inl ⟨w, a', rfl, ha, ?_⟩
      obtain ⟨-, hfree⟩ := acceptAward_ok clean ha
      simp only [updateAward, hw, ha]
      exact saveAward_of_free hfree

/-- **What an update of a category does:** the accepted attributes are saved, or nothing is. -/
theorem updateCategory_cases (db : Database) (pk : Id) (full : Bool) (a : CategoryAttrs)
    (now : Time) :
    (∃ c a', db.categories.get? pk = some c ∧ acceptCategory clean db (some c) full a = .ok a' ∧
      (updateCategory clean db pk full a now).1 =
        { db with categories := db.categories.put (editedCategory c a' now) }) ∨
      ((∀ c a', db.categories.get? pk = some c →
        acceptCategory clean db (some c) full a ≠ .ok a') ∧
        (updateCategory clean db pk full a now).1 = db) := by
  rcases hc : db.categories.get? pk with _ | c
  · refine Or.inr ⟨fun c a' h => (by cases h), ?_⟩
    simp only [updateCategory, hc]
  · rcases ha : acceptCategory clean db (some c) full a with x | a'
    · refine Or.inr ⟨fun c' a' h => ?_, ?_⟩
      · obtain rfl := Option.some.inj h
        rw [ha]
        exact fun hx => by simp at hx
      · simp only [updateCategory, hc, ha]
    · refine Or.inl ⟨c, a', rfl, ha, ?_⟩
      obtain ⟨-, hfree⟩ := acceptCategory_ok clean ha
      simp only [updateCategory, hc, ha]
      exact saveCategory_of_free hfree

end Edit

/-! ### Deleting -/

/-- The rows that a delete collects. -/
structure Subtree where
  events : List Id
  categories : List Id
  awards : List Id
  nominations : List Id
  deriving DecidableEq, Repr

/-- What hangs below the given events, categories and awards. -/
def subtree (db : Database) (events categories awards : List Id) : Subtree :=
  let categories := categories ++
    (db.categories.rows.filter fun c => c.event ∈ events).map Category.id
  let awards := awards ++ (db.awards.rows.filter fun w => w.category ∈ categories).map Award.id
  { events, categories, awards
    nominations :=
      (db.nominations.rows.filter fun n => n.award ∈ awards).map fun n => n.id }

def eventSubtree (db : Database) (event : Id) : Subtree := subtree db [event] [] []
def categorySubtree (db : Database) (category : Id) : Subtree := subtree db [] [category] []
def awardSubtree (db : Database) (award : Id) : Subtree := subtree db [] [] [award]

/-- A vote or a payment refers to a row of the subtree. -/
def isProtected (db : Database) (t : Subtree) : Bool :=
  db.votes.rows.any (fun v => v.event ∈ t.events || v.award ∈ t.awards ||
    v.nomination ∈ t.nominations) ||
  db.payments.rows.any fun p => p.nomination ∈ t.nominations

/-- The database without the subtree. -/
def cascade (db : Database) (t : Subtree) : Database :=
  { db with
    events := db.events.filter fun e => e.id ∉ t.events
    categories := db.categories.filter fun c => c.id ∉ t.categories
    awards := db.awards.filter fun w => w.id ∉ t.awards
    nominations := db.nominations.filter fun n => n.id ∉ t.nominations }

/-- **`perform_destroy`**: all of the subtree or nothing. -/
def performDestroy (db : Database) (t : Subtree) : Database × Except Raised Unit :=
  if isProtected db t then
    (db,
      .error (.api (.conflict "This item cannot be deleted because votes already reference it.")))
  else (cascade db t, .ok ())

def destroyEvent (db : Database) (slug : String) : Database × Except Raised Unit :=
  match eventBySlug db slug with
  | none => (db, .error (notFound "Event"))
  | some e => performDestroy db (eventSubtree db e.id)

def destroyCategory (db : Database) (pk : Id) : Database × Except Raised Unit :=
  match db.categories.get? pk with
  | none => (db, .error (notFound "Category"))
  | some c => performDestroy db (categorySubtree db c.id)

def destroyAward (db : Database) (pk : Id) : Database × Except Raised Unit :=
  match db.awards.get? pk with
  | none => (db, .error (notFound "Award"))
  | some w => performDestroy db (awardSubtree db w.id)

end KwAwards.Events.Views
