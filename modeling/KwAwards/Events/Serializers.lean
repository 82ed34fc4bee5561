import KwAwards.Store

/-! # What the event serializers accept

The attributes of a payload (`EventAttrs`, `CategoryAttrs`, `AwardAttrs`) are what the serializer
fields have parsed; a field the payload omits is `none`. `acceptEvent`, `acceptCategory` and
`acceptAward` are the checks that follow: required fields (of a create or a PUT), unique slugs and
related rows, then `validate`. `clean` is `clean_text`; its first argument is `multiline`. -/

namespace KwAwards.Events.Serializers

open KwAwards.Lib.Tables KwAwards.Common.Base KwAwards.Common.Exceptions KwAwards.Events.Models
open KwAwards.Store

/-- Fields with their messages. -/
abbrev Errors := List (String × String)

/-- A field that must be in the payload. -/
def required (full : Bool) (name : String) (present : Bool) : Errors :=
  if full && !present then [(name, "This field is required.")] else []

/-- A related row that must exist. -/
def related (name : String) (pk : Option Id) (found : Id → Bool) : Errors :=
  match pk with
  | none => []
  | some k =>
    if found k then [] else [(name, "Invalid pk \"" ++ toString k ++ "\" - object does not exist.")]

/-- The errors, or else what follows. -/
def raiseIf {α : Type} (errors : Errors) (next : Except ApiError α) : Except ApiError α :=
  if errors.isEmpty then next else .error (.validation errors)

theorem raiseIf_ok {α : Type} {errors : Errors} {next : Except ApiError α} {a : α} :
    raiseIf errors next = .ok a ↔ errors = [] ∧ next = .ok a := by
  unfold raiseIf
  rcases errors with _ | ⟨e, errors⟩ <;> simp

section Clean

variable (clean : Bool → String → String)

/-- `PlainTextMixin.validate` on one field. -/
def plainText (multiline allowBlank : Bool) (name : String) (value : Option String) : Errors :=
  match value with
  | none => []
  | some v =>
    if clean multiline v = "" ∧ ¬ allowBlank then [(name, "This field may not be blank.")] else []

/-! ### Events -/

structure EventAttrs where
  name : Option String := none
  slug : Option String := none
  year : Option ℕ := none
  nominationsOpenAt : Option (Option Time) := none
  nominationsCloseAt : Option (Option Time) := none
  votingOpensAt : Option (Option Time) := none
  votingClosesAt : Option (Option Time) := none
  deriving DecidableEq, Repr

/-- The instance with the attributes set. -/
def EventAttrs.assign (a : EventAttrs) (e : Event) : Event :=
  { e with
    name := a.name.getD e.name
    slug := a.slug.getD e.slug
    year := a.year.getD e.year
    nominationsOpenAt := a.nominationsOpenAt.getD e.nominationsOpenAt
    nominationsCloseAt := a.nominationsCloseAt.getD e.nominationsCloseAt
    votingOpensAt := a.votingOpensAt.getD e.votingOpensAt
    votingClosesAt := a.votingClosesAt.getD e.votingClosesAt }

/-- The value a window field will have: the payload's, else the instance's, else null. -/
def windowValue (sent : Option (Option Time)) (stored : Option (Option Time)) : Option Time :=
  sent.getD (stored.getD none)

/-- The window errors of `EventSerializer.validate`. -/
def windowErrors (inst : Option Event) (a : EventAttrs) : Errors :=
  let nomOpen := windowValue a.nominationsOpenAt (inst.map Event.nominationsOpenAt)
  let nomClose := windowValue a.nominationsCloseAt (inst.map Event.nominationsCloseAt)
  let voteOpen := windowValue a.votingOpensAt (inst.map Event.votingOpensAt)
  let voteClose := windowValue a.votingClosesAt (inst.map Event.votingClosesAt)
  (if nullOrLt nomOpen nomClose then []
    else [("nominations_close_at", "Must be after nominations_open_at.")]) ++
  (if nullOrLt voteOpen voteClose then []
    else [("voting_closes_at", "Must be after voting_opens_at.")]) ++
  (if nullOrLe nomClose voteOpen then []
    else [("voting_opens_at", "Voting cannot open before nominations close.")])

/-- `EventSerializer.validate`. -/
def validateEvent (inst : Option Event) (a : EventAttrs) : Except ApiError EventAttrs :=
  let cleaned := { a with name := a.name.map (clean false) }
  raiseIf (plainText clean false false "name" a.name) <|
    raiseIf (windowErrors inst cleaned) (.ok cleaned)

/-- No other event has the slug. -/
def eventSlugFree (db : Database) (slug : String) (except : Option Id) : Bool :=
  db.events.rows.all fun e => e.slug ≠ slug || some e.id = except

/-- The checks of a create (`inst = none`) or an update; a PUT is `full`. -/
def acceptEvent (db : Database) (inst : Option Event) (full : Bool) (a : EventAttrs) :
    Except ApiError EventAttrs :=
  raiseIf (required full "name" a.name.isSome ++ required full "slug" a.slug.isSome ++
      required full "year" a.year.isSome ++
      (if a.slug.all fun s => eventSlugFree db s (inst.map Event.id) then []
        else [("slug", "event with this slug already exists.")])) <|
    validateEvent clean inst a

/-! ### Categories -/

structure CategoryAttrs where
  event : Option Id := none
  name : Option String := none
  slug : Option String := none
  description : Option String := none
  displayOrder : Option ℕ := none
  deriving DecidableEq, Repr

/-- The instance with the attributes set. -/
def CategoryAttrs.assign (a : CategoryAttrs) (c : Category) : Category :=
  { c with
    event := a.event.getD c.event
    name := a.name.getD c.name
    slug := a.slug.getD c.slug
    description := a.description.getD c.description
    displayOrder := a.displayOrder.getD c.displayOrder }

/-- No other category of the event has the slug. -/
def categorySlugFree (db : Database) (event : Id) (slug : String) (except : Option Id) : Bool :=
  db.categories.rows.all fun c => c.event ≠ event || c.slug ≠ slug || some c.id = except

/-- The error of a `UniqueTogetherValidator`. -/
def uniqueTogether (fields : String) (free : Bool) : Errors :=
  if free then [] else
    [("non_field_errors", "The fields " ++ fields ++ " must make a unique set.")]

theorem uniqueTogether_eq_nil {fields : String} {free : Bool} :
    uniqueTogether fields free = [] ↔ free = true := by
  cases free <;> simp [uniqueTogether]

/-- The checks of a create (`inst = none`) or an update; a PUT is `full`. -/
def acceptCategory (db : Database) (inst : Option Category) (full : Bool) (a : CategoryAttrs) :
    Except ApiError CategoryAttrs :=
  let row := a.assign (inst.getD { id := 0, event := 0, name := "", slug := "" })
  raiseIf (required full "event" a.event.isSome ++ required full "name" a.name.isSome ++
      required full "slug" a.slug.isSome ++
      related "event" a.event fun k => (db.events.get? k).isSome) <|
    raiseIf (uniqueTogether "event, slug"
      (categorySlugFree db row.event row.slug (inst.map Category.id))) <|
    raiseIf (plainText clean false false "name" a.name ++
      plainText clean true true "description" a.description) <|
    .ok { a with name := a.name.map (clean false), description := a.description.map (clean true) }

/-! ### Awards -/

structure AwardAttrs where
  category : Option Id := none
  name : Option String := none
  slug : Option String := none
  description : Option String := none
  displayOrder : Option ℕ := none
  isActive : Option Bool := none
  deriving DecidableEq, Repr

/-- The instance with the attributes set. -/
def AwardAttrs.assign (a : AwardAttrs) (w : Award) : Award :=
  { w with
    category := a.category.getD w.category
    name := a.name.getD w.name
    slug := a.slug.getD w.slug
    description := a.description.getD w.description
    displayOrder := a.displayOrder.getD w.displayOrder
    isActive := a.isActive.getD w.isActive }

/-- No other award of the category has the slug. -/
def awardSlugFree (db : Database) (category : Id) (slug : String) (except : Option Id) : Bool :=
  db.awards.rows.all fun w => w.category ≠ category || w.slug ≠ slug || some w.id = except

/-- The checks of a create (`inst = none`) or an update; a PUT is `full`. -/
def acceptAward (db : Database) (inst : Option Award) (full : Bool) (a : AwardAttrs) :
    Except ApiError AwardAttrs :=
  let row := a.assign (inst.getD { id := 0, category := 0, name := "", slug := "" })
  raiseIf (required full "category" a.category.isSome ++ required full "name" a.name.isSome ++
      required full "slug" a.slug.isSome ++
      related "category" a.category fun k => (db.categories.get? k).isSome) <|
    raiseIf (uniqueTogether "category, slug"
      (awardSlugFree db row.category row.slug (inst.map Award.id))) <|
    raiseIf (plainText clean false false "name" a.name ++
      plainText clean true true "description" a.description) <|
    .ok { a with name := a.name.map (clean false), description := a.description.map (clean true) }

theorem acceptCategory_ok {db : Database} {c : Category} {full : Bool} {a a' : CategoryAttrs}
    (h : acceptCategory clean db (some c) full a = .ok a') :
    a'.event = a.event ∧ categorySlugFree db (a'.assign c).event (a'.assign c).slug
      (some c.id) := by
  obtain ⟨-, h⟩ := raiseIf_ok.mp h
  obtain ⟨hu, h⟩ := raiseIf_ok.mp h
  obtain ⟨-, h⟩ := raiseIf_ok.mp h
  obtain rfl := Except.ok.inj h
  exact ⟨rfl, uniqueTogether_eq_nil.mp hu⟩

theorem acceptAward_ok {db : Database} {w : Award} {full : Bool} {a a' : AwardAttrs}
    (h : acceptAward clean db (some w) full a = .ok a') :
    a'.category = a.category ∧
      awardSlugFree db (a'.assign w).category (a'.assign w).slug (some w.id) := by
  obtain ⟨-, h⟩ := raiseIf_ok.mp h
  obtain ⟨hu, h⟩ := raiseIf_ok.mp h
  obtain ⟨-, h⟩ := raiseIf_ok.mp h
  obtain rfl := Except.ok.inj h
  exact ⟨rfl, uniqueTogether_eq_nil.mp hu⟩

end Clean

end KwAwards.Events.Serializers
