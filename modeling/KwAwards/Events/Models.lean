import KwAwards.Common.Exceptions

/-! # Events, categories and awards

The rows of `events`, the status machine `statusTransitions`, the two predicates that decide whether
an event accepts nominations or votes at an instant, and the check constraints of the event table. A
null timestamp is `none`. -/

namespace KwAwards.Events.Models

open KwAwards.Lib.Tables KwAwards.Common.Base

inductive EventStatus
  | draft
  | nominationsOpen
  | votingOpen
  | closed
  | resultsPublished
  deriving DecidableEq, Repr

/-- The stored text of a status. -/
def EventStatus.value : EventStatus → String
  | draft => "draft"
  | nominationsOpen => "nominations_open"
  | votingOpen => "voting_open"
  | closed => "closed"
  | resultsPublished => "results_published"

/-- **`STATUS_TRANSITIONS`**: where a status may go next. -/
def statusTransitions : EventStatus → List EventStatus
  | .draft => [.nominationsOpen]
  | .nominationsOpen => [.votingOpen, .draft]
  | .votingOpen => [.closed]
  | .closed => [.resultsPublished, .votingOpen]
  | .resultsPublished => [.closed]

/-- A row of `events_event`. -/
structure Event where
  id : Id
  name : String
  slug : String
  year : ℕ
  status : EventStatus := .draft
  nominationsOpenAt : Option Time := none
  nominationsCloseAt : Option Time := none
  votingOpensAt : Option Time := none
  votingClosesAt : Option Time := none
  resultsPublishedAt : Option Time := none
  createdAt : Time := 0
  updatedAt : Time := 0
  deriving DecidableEq, Repr

/-- A row of `events_category`. -/
structure Category where
  id : Id
  event : Id
  name : String
  slug : String
  description : String := ""
  displayOrder : ℕ := 0
  createdAt : Time := 0
  updatedAt : Time := 0
  deriving DecidableEq, Repr

/-- A row of `events_award`. -/
structure Award where
  id : Id
  category : Id
  name : String
  slug : String
  description : String := ""
  displayOrder : ℕ := 0
  isActive : Bool := true
  createdAt : Time := 0
  updatedAt : Time := 0
  deriving DecidableEq, Repr

instance : Keyed Event Id := ⟨Event.id⟩
instance : Keyed Category Id := ⟨Category.id⟩
instance : Keyed Award Id := ⟨Award.id⟩

@[simp] theorem key_event (e : Event) : key e = e.id := rfl
@[simp] theorem key_category (c : Category) : key c = c.id := rfl
@[simp] theorem key_award (a : Award) : key a = a.id := rfl

/-- `opens <= at < closes`, both ends set. -/
def within (opens closes : Option Time) (at_ : Time) : Bool :=
  match opens, closes with
  | some o, some c => decide (o ≤ at_) && decide (at_ < c)
  | _, _ => false

theorem within_iff {opens closes : Option Time} {at_ : Time} : within opens closes at_ = true ↔
    ∃ o c, opens = some o ∧ closes = some c ∧ o ≤ at_ ∧ at_ < c := by
  rcases opens with _ | o <;> rcases closes with _ | c <;> simp [within]

namespace Event

/-- Status and window must both allow it: opens inclusive, closes exclusive. -/
def nominationsAreOpen (e : Event) (at_ : Time) : Bool :=
  decide (e.status = .nominationsOpen) && within e.nominationsOpenAt e.nominationsCloseAt at_

/-- Status and window must both allow it: opens inclusive, closes exclusive. -/
def votingIsOpen (e : Event) (at_ : Time) : Bool :=
  decide (e.status = .votingOpen) && within e.votingOpensAt e.votingClosesAt at_

theorem votingIsOpen_iff {e : Event} {at_ : Time} : e.votingIsOpen at_ = true ↔
    e.status = .votingOpen ∧ within e.votingOpensAt e.votingClosesAt at_ = true := by
  simp [votingIsOpen]

end Event

/-! ### Check constraints -/

/-- `a IS NULL OR b IS NULL OR a < b`. -/
def nullOrLt : Option Time → Option Time → Bool
  | some a, some b => decide (a < b)
  | _, _ => true

/-- `a IS NULL OR b IS NULL OR a <= b`. -/
def nullOrLe : Option Time → Option Time → Bool
  | some a, some b => decide (a ≤ b)
  | _, _ => true

namespace Event

/-- `event_nomination_window_ordered`. -/
def nominationWindowOrdered (e : Event) : Bool := nullOrLt e.nominationsOpenAt e.nominationsCloseAt

/-- `event_voting_window_ordered`. -/
def votingWindowOrdered (e : Event) : Bool := nullOrLt e.votingOpensAt e.votingClosesAt

/-- `event_nominations_close_before_voting_opens`. -/
def nominationsCloseBeforeVotingOpens (e : Event) : Bool :=
  nullOrLe e.nominationsCloseAt e.votingOpensAt

/-- `event_published_has_timestamp`. -/
def publishedHasTimestamp (e : Event) : Bool :=
  decide (e.status ≠ .resultsPublished) || e.resultsPublishedAt.isSome

/-- The check constraints of the table. -/
def checks (e : Event) : Bool :=
  e.nominationWindowOrdered && e.votingWindowOrdered && e.nominationsCloseBeforeVotingOpens &&
    e.publishedHasTimestamp

end Event

end KwAwards.Events.Models
