import KwAwards.Store

/-! # Changing the status of an event

`changeStatus` is one transaction under the lock of the event's row: it validates the transition and
the window against the locked row (`statusError`), saves three columns (`withStatus`) and writes an
audit entry with the two statuses. `changeStatus_cases` says everything it can do. -/

namespace KwAwards.Events.Services

open KwAwards.Lib.Tables KwAwards.Common.Base KwAwards.Common.Exceptions KwAwards.Audit.Log
open KwAwards.Events.Models KwAwards.Store

/-- Why a row may not go to a status. -/
def statusError (locked : Event) (new : EventStatus) : Option ApiError :=
  if new ∉ statusTransitions locked.status then
    some (.invalidTransition
      ("Cannot change status from '" ++ locked.status.value ++ "' to '" ++ new.value ++ "'."))
  else if new = .nominationsOpen ∧
      ¬ (locked.nominationsOpenAt.isSome ∧ locked.nominationsCloseAt.isSome) then
    some (.windowRequired "Set the nomination window before opening nominations.")
  else if new = .votingOpen ∧ ¬ (locked.votingOpensAt.isSome ∧ locked.votingClosesAt.isSome) then
    some (.windowRequired "Set the voting window before opening voting.")
  else none

/-- The row that is saved: `status`, `results_published_at` and `updated_at` change. -/
def withStatus (locked : Event) (new : EventStatus) (now : Time) : Event :=
  { locked with
    status := new
    resultsPublishedAt :=
      if new = .resultsPublished then some now
      else if locked.status = .resultsPublished then none
      else locked.resultsPublishedAt
    updatedAt := now }

theorem key_withStatus (e : Event) (new : EventStatus) (now : Time) :
    key (withStatus e new now) = key e := rfl

/-- `locked.save(update_fields=["status", "results_published_at", "updated_at"])`. -/
def saveStatus (events : Table Event) (event : Id) (new : EventStatus) (now : Time) : Table Event :=
  events.modify event (fun e => withStatus e new now) fun e => key_withStatus e new now

theorem get?_saveStatus (events : Table Event) (event : Id) (new : EventStatus) (now : Time)
    (k : Id) : (saveStatus events event new now).get? k =
      if k = event then (events.get? event).map fun e => withStatus e new now
      else events.get? k :=
  Table.get?_modify ..

def eventTarget (event : Id) : Target := ⟨"events.event", event⟩

def statusMetadata (old new : EventStatus) : Metadata :=
  [("from", .str old.value), ("to", .str new.value)]

/-- **`change_status`**. -/
def changeStatus (db : Database) (event : Id) (new : EventStatus) (request : Option Request)
    (now : Time) (ak : Keys) : Option (Database × Except Raised Event) :=
  match db.events.get? event with
  | none => some (db, .error .doesNotExist)
  | some locked =>
    match statusError locked new with
    | some e => some (db, .error (.api e))
    | none =>
      let events := saveStatus db.events event new now
      (({ db with events } : Database).write (log ak now .eventStatusChanged request none none
        (some (eventTarget event)) (statusMetadata locked.status new))).map fun db =>
          (db, .ok (withStatus locked new now))

/-- **What a change of status does:** nothing and an error, or the saved row and its entry. -/
theorem changeStatus_cases {db db' : Database} {event : Id} {new : EventStatus}
    {request : Option Request} {now : Time} {ak : Keys} {r : Except Raised Event}
    (h : changeStatus db event new request now ak = some (db', r)) :
    (db' = db ∧ ∃ e, r = .error e) ∨
      ∃ locked audit e, db.events.get? event = some locked ∧ statusError locked new = none ∧
        r = .ok (withStatus locked new now) ∧
        log ak now .eventStatusChanged request none none (some (eventTarget event))
          (statusMetadata locked.status new) = some e ∧
        audit.rows = db.audit.rows ++ [e] ∧
        db' = { db with events := saveStatus db.events event new now, audit } := by
  unfold changeStatus at h
  split at h
  · obtain ⟨rfl, rfl⟩ := Prod.mk.inj (Option.some.inj h)
    exact Or.inl ⟨rfl, _, rfl⟩
  · next locked hl =>
    split at h
    · obtain ⟨rfl, rfl⟩ := Prod.mk.inj (Option.some.inj h)
      exact Or.inl ⟨rfl, _, rfl⟩
    · next herr =>
      obtain ⟨db₁, hw, h⟩ := Option.map_eq_some_iff.mp h
      obtain ⟨rfl, rfl⟩ := Prod.mk.inj h
      obtain ⟨e, audit, he, -, ha, rfl⟩ := Database.write_eq_some hw
      exact Or.inr ⟨locked, audit, e, hl, herr, rfl, he, ha, rfl⟩

/-- A row is saved along an edge of the status machine, with the window of the phase it opens. -/
theorem statusError_eq_none {locked : Event} {new : EventStatus} : statusError locked new = none ↔
    new ∈ statusTransitions locked.status ∧
      (new = .nominationsOpen →
        locked.nominationsOpenAt.isSome ∧ locked.nominationsCloseAt.isSome) ∧
      (new = .votingOpen → locked.votingOpensAt.isSome ∧ locked.votingClosesAt.isSome) := by
  unfold statusError
  split_ifs with h1 h2 h3
  · simp only [false_iff]
    rintro ⟨-, h, -⟩
    exact h2.2 (h h2.1)
  · simp only [false_iff]
    rintro ⟨-, -, h⟩
    exact h3.2 (h h3.1)
  · simp only [true_iff]
    exact ⟨h1, fun h => not_not.mp fun hn => h2 ⟨h, hn⟩, fun h => not_not.mp fun hn => h3 ⟨h, hn⟩⟩
  · simp [h1]

end KwAwards.Events.Services
