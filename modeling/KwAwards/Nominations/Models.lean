import KwAwards.Common.Exceptions

/-! # Nominees and nominations

The row of a nominee, with its public and its private columns, and the nomination row with its
review. -/

namespace KwAwards.Nominations.Models

open KwAwards.Lib.Tables KwAwards.Common.Base

/-- The link columns; a null is `none`. -/
structure Links where
  websiteUrl : Option String := none
  instagramUrl : Option String := none
  facebookUrl : Option String := none
  xUrl : Option String := none
  youtubeUrl : Option String := none
  tiktokUrl : Option String := none
  deriving DecidableEq, Repr

/-- A row of `nominations_nominee`; the contact columns and the owner are private. -/
structure Nominee where
  id : Id
  name : String
  stageName : String := ""
  bio : String := ""
  photo : String := ""
  links : Links := {}
  contactPhone : String := ""
  contactEmail : String := ""
  owner : Option Id := none
  createdAt : Time := 0
  updatedAt : Time := 0
  deriving DecidableEq, Repr

inductive NominationStatus
  | pending
  | approved
  | rejected
  | withdrawn
  deriving DecidableEq, Repr

/-- The stored text of a status. -/
def NominationStatus.value : NominationStatus → String
  | pending => "pending"
  | approved => "approved"
  | rejected => "rejected"
  | withdrawn => "withdrawn"

/-- A row of `nominations_nomination`. -/
structure Nomination where
  id : Id
  nominee : Id
  award : Id
  status : NominationStatus := .pending
  submittedByIp : Option String := none
  reviewedBy : Option Id := none
  reviewedAt : Option Time := none
  rejectionReason : String := ""
  seq : ℕ := 0
  createdAt : Time := 0
  updatedAt : Time := 0
  deriving DecidableEq, Repr

instance : Keyed Nominee Id := ⟨Nominee.id⟩
instance : Keyed Nomination Id := ⟨Nomination.id⟩

@[simp] theorem key_nominee (n : Nominee) : key n = n.id := rfl
@[simp] theorem key_nomination (n : Nomination) : key n = n.id := rfl

/-- `nomination_rejected_has_reason` and `nomination_reviewed_has_timestamp`. -/
def Nomination.checks (n : Nomination) : Bool :=
  (decide (n.status ≠ .rejected) || decide (n.rejectionReason ≠ "")) &&
    (decide (n.status = .pending ∨ n.status = .withdrawn) || n.reviewedAt.isSome)

end KwAwards.Nominations.Models
