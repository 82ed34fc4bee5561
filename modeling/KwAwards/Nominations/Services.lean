import KwAwards.Store

/-! # Reviewing nominations

`reviewNomination` decides a pending nomination, once, under the lock of its row.
`reviewNomination_cases` says everything it can do. -/

namespace KwAwards.Nominations.Services

open KwAwards.Lib.Tables KwAwards.Common.Base KwAwards.Common.Exceptions KwAwards.Audit.Log
open KwAwards.Nominations.Models KwAwards.Store

/-- The arguments of `review_nomination`. -/
structure ReviewArgs where
  nomination : Id
  approve : Bool
  reviewer : Id
  reason : String := ""
  request : Option Request := none
  deriving DecidableEq, Repr

/-- The row that is saved. -/
def reviewed (n : Nomination) (a : ReviewArgs) (now : Time) : Nomination :=
  { n with
    status := if a.approve then .approved else .rejected
    reviewedBy := some a.reviewer
    reviewedAt := some now
    rejectionReason := if a.approve then "" else a.reason
    updatedAt := now }

def nominationTarget (nomination : Id) : Target := ⟨"nominations.nomination", nomination⟩

def reviewMetadata (n : Nomination) (a : ReviewArgs) : Metadata :=
  [("award_id", .id n.award), ("nominee_id", .id n.nominee)] ++
    if a.approve then [] else [("reason", .str a.reason)]

def reviewAction (a : ReviewArgs) : AuditAction :=
  if a.approve then .nominationApproved else .nominationRejected

/-- Why the row cannot be saved. -/
def reviewError (n : Nomination) : Option DbError :=
  if 500 < n.rejectionReason.length then some .stringTooLong
  else if ¬ n.checks then some (.checkViolation "nomination_rejected_has_reason")
  else none

/-- **`review_nomination`**. -/
def reviewNomination (db : Database) (a : ReviewArgs) (now : Time) (ak : Keys) :
    Option (Database × Except Raised Nomination) :=
  match db.nominations.get? a.nomination with
  | none => some (db, .error .doesNotExist)
  | some locked =>
    if ¬ locked.status = .pending then
      some (db, .error (.api (.alreadyReviewed
        ("This nomination has already been reviewed (status: " ++ locked.status.value ++ ")."))))
    else
      let row := reviewed locked a now
      match reviewError row with
      | some e => some (db, .error (.db e))
      | none =>
        let nominations := db.nominations.put row
        (({ db with nominations } : Database).write
          (log ak now (reviewAction a) a.request (some a.reviewer) none
            (some (nominationTarget row.id)) (reviewMetadata row a))).map fun db => (db, .ok row)

/-- **What a review does:** nothing and an error, or the decided row and its entry. -/
theorem reviewNomination_cases {db db' : Database} {a : ReviewArgs} {now : Time} {ak : Keys}
    {r : Except Raised Nomination} (h : reviewNomination db a now ak = some (db', r)) :
    (db' = db ∧ ∃ e, r = .error e) ∨
      ∃ locked audit e, db.nominations.get? a.nomination = some locked ∧
        locked.status = .pending ∧ r = .ok (reviewed locked a now) ∧
        log ak now (reviewAction a) a.request (some a.reviewer) none
          (some (nominationTarget locked.id)) (reviewMetadata (reviewed locked a now) a) = some e ∧
        audit.rows = db.audit.rows ++ [e] ∧
        db' = { db with nominations := db.nominations.put (reviewed locked a now), audit } := by
  unfold reviewNomination at h
  split at h
  · obtain ⟨rfl, rfl⟩ := Prod.mk.inj (Option.some.inj h)
    exact Or.inl ⟨rfl, _, rfl⟩
  · next locked hl =>
    split_ifs at h with hp
    · simp only at h
      split at h
      · obtain ⟨rfl, rfl⟩ := Prod.mk.inj (Option.some.inj h)
        exact Or.inl ⟨rfl, _, rfl⟩
      · obtain ⟨db₁, hw, h⟩ := Option.map_eq_some_iff.mp h
        obtain ⟨rfl, rfl⟩ := Prod.mk.inj h
        obtain ⟨e, audit, he, -, ha, rfl⟩ := Database.write_eq_some hw
        exact Or.inr ⟨locked, audit, e, hl, hp, rfl, he, ha, rfl⟩
    · obtain ⟨rfl, rfl⟩ := Prod.mk.inj (Option.some.inj h)
      exact Or.inl ⟨rfl, _, rfl⟩

end KwAwards.Nominations.Services
