import KwAwards.Audit.Log
import KwAwards.Events.Models
import KwAwards.Nominations.Models
import KwAwards.Voting.Models
import KwAwards.Voting.Votes

/-! # The database

All tables of the platform in one record, so that a service is a function from databases to
databases. Primary keys are unique by construction of `Table` and `VoteTable`. -/

namespace KwAwards.Store

open KwAwards.Lib.Tables KwAwards.Common.Base KwAwards.Audit.Log KwAwards.Events.Models
open KwAwards.Nominations.Models KwAwards.Voting.Models KwAwards.Voting.Votes

/-- A row of `payments_payment`: what it refers to. -/
structure Payment where
  id : Id
  voter : Id
  nomination : Id
  deriving DecidableEq, Repr

instance : Keyed Payment Id := ⟨Payment.id⟩

/-- The stored state. -/
structure Database where
  events : Table Event := .empty
  categories : Table Category := .empty
  awards : Table Award := .empty
  nominees : Table Nominee := .empty
  nominations : Table Nomination := .empty
  voters : Table Voter := .empty
  challenges : Table OTPChallenge := .empty
  votes : VoteTable := .empty
  payments : Table Payment := .empty
  audit : Table AuditLog := .empty

namespace Database

/-- Insert an audit entry. The entry's keys are fresh, so an insert that is refused does not
happen. -/
def write (db : Database) (entry : Option AuditLog) : Option Database :=
  entry.bind fun e => (db.audit.insert e).map fun audit => { db with audit }

theorem write_eq_some {db db' : Database} {entry : Option AuditLog}
    (h : db.write entry = some db') : ∃ e audit, entry = some e ∧ db.audit.get? e.id = none ∧
      audit.rows = db.audit.rows ++ [e] ∧ db' = { db with audit } := by
  obtain ⟨e, he, h⟩ := Option.bind_eq_some_iff.mp h
  obtain ⟨audit, ha, rfl⟩ := Option.map_eq_some_iff.mp h
  obtain ⟨hk, hr⟩ := Table.insert_eq_some.mp ha
  exact ⟨e, audit, he, hk, hr, rfl⟩

theorem write_of_fresh {db : Database} {e : AuditLog} (h : db.audit.get? e.id = none) :
    ∃ db', db.write (some e) = some db' := by
  have hi : (db.audit.insert e).isSome := by
    unfold Table.insert
    rw [dif_pos (show db.audit.get? (key e) = none from h)]; rfl
  obtain ⟨audit, ha⟩ := Option.isSome_iff_exists.mp hi
  exact ⟨{ db with audit }, by simp [write, ha]⟩

/-- The database apart from the audit log. -/
def unlogged (db : Database) : Database := { db with audit := .empty }

theorem votes_of_unlogged {db d : Database} (h : d.unlogged = db.unlogged) :
    d.votes = db.votes := by
  have hv : d.unlogged.votes = db.unlogged.votes := by rw [h]
  exact hv

theorem unlogged_write {db db' : Database} {entry : Option AuditLog}
    (h : db.write entry = some db') : db'.unlogged = db.unlogged := by
  obtain ⟨e, audit, -, -, -, rfl⟩ := write_eq_some h
  rfl

end Database

/-- A key that no row of a table has. -/
theorem exists_fresh {α : Type*} [Keyed α Id] (t : Table α) : ∃ k : Id, t.get? k = none := by
  obtain ⟨k, hk⟩ := Infinite.exists_notMem_finset (t.rows.map key).toFinset
  refine ⟨k, Table.get?_eq_none.mpr fun r hr he => hk ?_⟩
  rw [List.mem_toFinset]
  exact List.mem_map.mpr ⟨r, hr, he⟩

/-- An entry written to one database can be written to any other, with other keys. -/
theorem Database.exists_write {db db' : Database} {k : Keys} {now : Time} {action : AuditAction}
    {request : Option Request} {actorUser actorVoter : Option Id} {target : Option Target}
    {metadata : Metadata}
    (h : db.write (log k now action request actorUser actorVoter target metadata) = some db')
    (d : Database) : ∃ k' d',
      d.write (log k' now action request actorUser actorVoter target metadata) = some d' := by
  obtain ⟨e, -, he, -⟩ := write_eq_some h
  obtain ⟨id, hid⟩ := exists_fresh d.audit
  have he' := log_of_keys he ⟨id, 0⟩
  have hfresh : d.audit.get? ({ e with id := id, seq := 0 } : AuditLog).id = none := hid
  obtain ⟨d', hd'⟩ := write_of_fresh hfresh
  exact ⟨⟨id, 0⟩, d', he' ▸ hd'⟩

/-- What the foreign keys of these columns enforce. -/
structure ForeignKeys (db : Database) : Prop where
  nominee : ∀ n ∈ db.nominations.rows, (db.nominees.get? n.nominee).isSome
  award : ∀ v ∈ db.votes.rows, (db.awards.get? v.award).isSome
  category : ∀ w ∈ db.awards.rows, (db.categories.get? w.category).isSome

/-! ### A small database -/

/-- An event whose voting window is `[100, 200)`. -/
def gala : Event where
  id := 1
  name := "Gala"
  slug := "gala"
  year := 2025
  status := .votingOpen
  votingOpensAt := some 100
  votingClosesAt := some 200

/-- The gala with one award and two approved nominations, and an event with a category of its
own. -/
def galaDb : Database where
  events := ⟨[gala, { id := 2, name := "Other", slug := "other", year := 2026 }], by decide⟩
  categories := ⟨[{ id := 10, event := 1, name := "Music", slug := "music" },
    { id := 11, event := 2, name := "Film", slug := "film" }], by decide⟩
  awards := ⟨[{ id := 20, category := 10, name := "Song", slug := "song" }], by decide⟩
  nominees := ⟨[{ id := 30, name := "Ann" }, { id := 31, name := "Bob" }], by decide⟩
  nominations :=
    ⟨[{ id := 40, nominee := 30, award := 20, status := .approved, reviewedAt := some 1 },
      { id := 41, nominee := 31, award := 20, status := .approved, reviewedAt := some 1 }], by
        decide⟩
  voters := ⟨[{ id := 50, phoneE164 := "+254712345678", verifiedAt := some 1 }], by decide⟩

end KwAwards.Store
