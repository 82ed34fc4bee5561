import KwAwards.Events.Services
import KwAwards.Events.Views
import KwAwards.Nominations.Services
import KwAwards.Voting.Concurrent

/-! # The denormalised columns of a vote

A vote copies the award and the event of its nomination. `Derived` says that the copies are those
its nomination leads to now. The operations of the API run one after another (`Op`): casts, voids,
reviews, changes of status, and the event admins' creates, updates and deletes.

Every operation keeps the copies right except two: an award may be moved to a category of another
event, and a category to another event, while votes exist. `noDrift_iff` says that these are the
only ways (`Stays`). -/

namespace KwAwards.Voting.Denormalised

open KwAwards.Lib.Tables KwAwards.Lib.Run KwAwards.Common.Base KwAwards.Common.Exceptions
open KwAwards.Events.Models KwAwards.Events.Serializers KwAwards.Events.Services
open KwAwards.Events.Views KwAwards.Nominations.Models KwAwards.Nominations.Services
open KwAwards.Voting.Votes KwAwards.Store KwAwards.Voting.Services
open KwAwards.Voting.Concurrent (CastArgs VoidArgs)

/-- `nomination.award_id`. -/
def awardOf (db : Database) (nomination : Id) : Option Id :=
  (db.nominations.get? nomination).map fun n => n.award

/-- `award.category_id`. -/
def categoryOf (db : Database) (award : Id) : Option Id :=
  (db.awards.get? award).map fun w => w.category

/-- `category.event_id`. -/
def eventOf (db : Database) (category : Id) : Option Id :=
  (db.categories.get? category).map fun c => c.event

/-- `vote.award = vote.nomination.award` and `vote.event = vote.nomination.award.category.event`. -/
def Derived (db : Database) (v : Vote) : Prop :=
  awardOf db v.nomination = some v.award ∧
    ((awardOf db v.nomination).bind (categoryOf db)).bind (eventOf db) = some v.event

instance (db : Database) (v : Vote) : Decidable (Derived db v) := by unfold Derived; infer_instance

/-- Every vote has the award and the event its nomination leads to. -/
def NoDrift (db : Database) : Prop := ∀ v ∈ db.votes.rows, Derived db v

instance (db : Database) : Decidable (NoDrift db) := by unfold NoDrift; infer_instance

/-- An operation, with its clock readings and the keys of its new rows. -/
inductive Op
  | cast (a : CastArgs) (checkAt now : Time) (vk ak : Keys)
  | void (a : VoidArgs) (now : Time) (ak : Keys)
  | review (a : ReviewArgs) (now : Time) (ak : Keys)
  | changeStatus (event : Id) (new : EventStatus) (request : Option Request) (now : Time)
    (ak : Keys)
  | createEvent (a : EventAttrs) (now : Time) (k : Keys)
  | updateEvent (slug : String) (full : Bool) (a : EventAttrs) (now : Time)
  | destroyEvent (slug : String)
  | createCategory (a : CategoryAttrs) (now : Time) (k : Keys)
  | updateCategory (pk : Id) (full : Bool) (a : CategoryAttrs) (now : Time)
  | destroyCategory (pk : Id)
  | createAward (a : AwardAttrs) (now : Time) (k : Keys)
  | updateAward (pk : Id) (full : Bool) (a : AwardAttrs) (now : Time)
  | destroyAward (pk : Id)

section Clean

variable (clean : Bool → String → String)

/-- The database after an operation. -/
def step (db : Database) : Op → Option Database
  | .cast a checkAt now vk ak =>
    (castFreeVote db a.voter a.nomination a.request checkAt now vk ak).map Prod.fst
  | .void a now ak => (voidVote db a.vote a.byUser a.reason a.request now ak).map Prod.fst
  | .review a now ak => (reviewNomination db a now ak).map Prod.fst
  | .changeStatus event new request now ak =>
    (changeStatus db event new request now ak).map Prod.fst
  | .createEvent a now k => (createEvent clean db a now k).map Prod.fst
  | .updateEvent slug full a now => some (updateEvent clean db slug full a now).1
  | .destroyEvent slug => some (destroyEvent db slug).1
  | .createCategory a now k => (createCategory clean db a now k).map Prod.fst
  | .updateCategory pk full a now => some (updateCategory clean db pk full a now).1
  | .destroyCategory pk => some (destroyCategory db pk).1
  | .createAward a now k => (createAward clean db a now k).map Prod.fst
  | .updateAward pk full a now => some (updateAward clean db pk full a now).1
  | .destroyAward pk => some (destroyAward db pk).1

/-- **What keeps the copies right:** an accepted update leaves an award with votes in its event, and
a category whose awards have votes with its event. -/
def Stays (db : Database) (op : Op) (_ : Database) : Prop :=
  match op with
  | .updateAward pk full a _ => ∀ w a', db.awards.get? pk = some w →
      acceptAward clean db (some w) full a = .ok a' → (∃ v ∈ db.votes.rows, v.award = pk) →
        eventOf db (a.category.getD w.category) = eventOf db w.category
  | .updateCategory pk full a _ => ∀ c a', db.categories.get? pk = some c →
      acceptCategory clean db (some c) full a = .ok a' →
        (∃ v ∈ db.votes.rows, categoryOf db v.award = some pk) → a.event.getD c.event = c.event
  | _ => True

end Clean

/-! ### Frames -/

theorem derived_iff {db : Database} {v : Vote} : Derived db v ↔ ∃ c,
    awardOf db v.nomination = some v.award ∧ categoryOf db v.award = some c ∧
      eventOf db c = some v.event := by
  unfold Derived
  constructor
  · rintro ⟨ha, he⟩
    rw [ha, Option.bind_some] at he
    obtain ⟨c, hc, he⟩ := Option.bind_eq_some_iff.mp he
    exact ⟨c, ha, hc, he⟩
  · rintro ⟨c, ha, hc, he⟩
    rw [ha, Option.bind_some, hc, Option.bind_some]
    exact ⟨rfl, he⟩

/-- The parents in `db` are still the parents in `db'`. -/
structure Extends (db db' : Database) : Prop where
  award : ∀ n w, awardOf db n = some w → awardOf db' n = some w
  category : ∀ w c, categoryOf db w = some c → categoryOf db' w = some c
  event : ∀ c e, eventOf db c = some e → eventOf db' c = some e

theorem Extends.refl (db : Database) : Extends db db :=
  ⟨fun _ _ => id, fun _ _ => id, fun _ _ => id⟩

theorem Extends.derived {db db' : Database} (h : Extends db db') {v : Vote} (hv : Derived db v) :
    Derived db' v := by
  obtain ⟨c, ha, hc, he⟩ := derived_iff.mp hv
  exact derived_iff.mpr ⟨c, h.award _ _ ha, h.category _ _ hc, h.event _ _ he⟩

/-- Votes with the columns of votes that were there, in a database with the same parents, do not
drift. -/
theorem noDrift_of_extends {db db' : Database} (h : Extends db db') (hd : NoDrift db)
    (hv : ∀ v ∈ db'.votes.rows, v ∈ db.votes.rows ∨ Derived db v) : NoDrift db' := by
  intro v hmem
  rcases hv v hmem with hmem | hd'
  · exact h.derived (hd v hmem)
  · exact h.derived hd'

/-- A put row with the parent of the row it replaces, or in no row's place, keeps the parents. -/
theorem parent_put {α : Type} [Keyed α Id] {t : Table α} {row : α} (f : α → Id)
    (h : ∀ r, t.get? (key row) = some r → f row = f r) (k p : Id)
    (hp : (t.get? k).map f = some p) : ((t.put row).get? k).map f = some p := by
  obtain ⟨r, hr, rfl⟩ := Option.map_eq_some_iff.mp hp
  rw [Table.get?_put]
  split_ifs with hk
  · rw [Option.map_some, h r (hk ▸ hr)]
  · rw [hr]; rfl

theorem extends_of_eq {db db' : Database} (hn : db'.nominations = db.nominations)
    (ha : db'.awards = db.awards) (hc : db'.categories = db.categories) : Extends db db' := by
  refine ⟨fun n w h => ?_, fun w c h => ?_, fun c e h => ?_⟩
  · rwa [awardOf, hn]
  · rwa [categoryOf, ha]
  · rwa [eventOf, hc]

theorem extends_putNomination {db : Database} {row : Nomination} (audit : Table Audit.Log.AuditLog)
    (h : ∀ r, db.nominations.get? row.id = some r → row.award = r.award) :
    Extends db { db with nominations := db.nominations.put row, audit } :=
  ⟨fun _ _ hp => parent_put Nomination.award h _ _ hp, fun _ _ => id, fun _ _ => id⟩

theorem extends_putCategory {db : Database} {row : Category}
    (h : ∀ r, db.categories.get? row.id = some r → row.event = r.event) :
    Extends db { db with categories := db.categories.put row } :=
  ⟨fun _ _ => id, fun _ _ => id, fun _ _ hp => parent_put Category.event h _ _ hp⟩

theorem extends_putAward {db : Database} {row : Award}
    (h : ∀ r, db.awards.get? row.id = some r → row.category = r.category) :
    Extends db { db with awards := db.awards.put row } :=
  ⟨fun _ _ => id, fun _ _ hp => parent_put Award.category h _ _ hp, fun _ _ => id⟩

/-- The votes are the same and the parents are kept. -/
theorem noDrift_of_votes {db db' : Database} (h : Extends db db') (hd : NoDrift db)
    (hv : db'.votes = db.votes) : NoDrift db' :=
  noDrift_of_extends h hd fun _ hmem => Or.inl (hv ▸ hmem)

/-! ### Casts, voids, reviews, changes of status -/

theorem derived_newVote {db : Database} {nid : Id} {c : Candidate}
    (hc : getNomination db nid = some c) (voter : Id) (request : Request) (now : Time) (k : Keys) :
    Derived db (newVote c voter request now k) := by
  obtain ⟨hj, -⟩ := getNomination_eq_some.mp hc
  obtain ⟨hn, ha, hcat, -⟩ := joined_eq_some.mp hj
  obtain ⟨hid, hlinked⟩ := linked_of_joined hj
  refine derived_iff.mpr ⟨c.category.id, ?_, ?_, ?_⟩
  · show (db.nominations.get? c.nomination.id).map (fun n => n.award) = some c.award.id
    rw [hid, hn, Option.map_some, hlinked.award]
  · show (db.awards.get? c.award.id).map (fun w => w.category) = some c.category.id
    rw [← hlinked.award, ha, Option.map_some, hlinked.category]
  · show (db.categories.get? c.category.id).map (fun k => k.event) = some c.event.id
    rw [← hlinked.category, hcat, Option.map_some, hlinked.event]

theorem noDrift_cast {db db' : Database} {a : CastArgs} {checkAt now : Time} {vk ak : Keys}
    {r : Except Raised Vote} (hd : NoDrift db)
    (h : castFreeVote db a.voter a.nomination a.request checkAt now vk ak = some (db', r)) :
    NoDrift db' := by
  obtain ⟨hdb, hv⟩ := castFreeVote_cases h
  have hext : Extends db db' := by rw [hdb]; exact extends_of_eq rfl rfl rfl
  rcases hv with hv | ⟨c, hc, hv⟩
  · exact noDrift_of_votes hext hd hv
  · refine noDrift_of_extends hext hd fun v hmem => ?_
    rw [hv] at hmem
    rcases List.mem_append.mp hmem with hmem | hmem
    · exact Or.inl hmem
    · rw [List.mem_singleton.mp hmem]
      exact Or.inr (derived_newVote hc a.voter a.request now vk)

theorem noDrift_void {db db' : Database} {a : VoidArgs} {now : Time} {ak : Keys}
    {r : Except Raised Vote} (hd : NoDrift db)
    (h : voidVote db a.vote a.byUser a.reason a.request now ak = some (db', r)) : NoDrift db' := by
  rcases voidVote_cases h with ⟨rfl, -⟩ | ⟨vote, hm, -, -, -, votes, audit, e, hv, -, -, rfl⟩
  · exact hd
  · have hext : Extends db { db with votes, audit } := extends_of_eq rfl rfl rfl
    refine noDrift_of_extends hext hd fun v hmem => ?_
    replace hmem : v ∈ votes.rows := hmem
    rw [hv] at hmem
    obtain ⟨w, hw, rfl⟩ := List.mem_map.mp hmem
    by_cases hid : w.id = vote.id
    · rw [if_pos hid]
      exact Or.inr (hd vote hm)
    · rw [if_neg hid]
      exact Or.inl hw

theorem noDrift_review {db db' : Database} {a : ReviewArgs} {now : Time} {ak : Keys}
    {r : Except Raised Nomination} (hd : NoDrift db)
    (h : reviewNomination db a now ak = some (db', r)) : NoDrift db' := by
  rcases reviewNomination_cases h with ⟨rfl, -⟩ | ⟨locked, audit, e, hl, -, -, -, -, rfl⟩
  · exact hd
  · refine noDrift_of_votes (extends_putNomination audit fun r hr => ?_) hd rfl
    have hid : locked.id = a.nomination := Table.key_of_get? hl
    have hrow : db.nominations.get? locked.id = some r := hr
    rw [hid, hl] at hrow
    rw [← Option.some.inj hrow]; rfl

theorem noDrift_changeStatus {db db' : Database} {event : Id} {new : EventStatus}
    {request : Option Request} {now : Time} {ak : Keys} {r : Except Raised Event} (hd : NoDrift db)
    (h : changeStatus db event new request now ak = some (db', r)) : NoDrift db' := by
  rcases changeStatus_cases h with ⟨rfl, -⟩ | ⟨locked, audit, e, -, -, -, -, -, rfl⟩
  · exact hd
  · exact noDrift_of_votes (extends_of_eq rfl rfl rfl) hd rfl

/-! ### Creates and the updates of events -/

theorem noDrift_saveEvent {db : Database} (hd : NoDrift db) (row : Event) :
    NoDrift (saveEvent db row).1 := by
  rcases saveEvent_cases db row with ⟨-, h⟩ | ⟨-, h⟩
  · rw [h]; exact hd
  · rw [h]; exact noDrift_of_votes (extends_of_eq rfl rfl rfl) hd rfl

section Clean

variable {clean : Bool → String → String}

theorem noDrift_updateEvent {db : Database} (hd : NoDrift db) (slug : String) (full : Bool)
    (a : EventAttrs) (now : Time) : NoDrift (updateEvent clean db slug full a now).1 := by
  unfold updateEvent
  split
  · exact hd
  · exact noDrift_saveEvent hd _

theorem noDrift_createEvent {db db' : Database} {a : EventAttrs} {now : Time} {k : Keys}
    {r : Except Raised Event} (hd : NoDrift db)
    (h : createEvent clean db a now k = some (db', r)) : NoDrift db' := by
  unfold createEvent at h
  split at h
  · obtain ⟨rfl, rfl⟩ := Prod.mk.inj (Option.some.inj h)
    exact hd
  · split_ifs at h
    obtain rfl : _ = db' := congrArg Prod.fst (Option.some.inj h)
    exact noDrift_saveEvent hd _

theorem noDrift_createCategory {db db' : Database} {a : CategoryAttrs} {now : Time} {k : Keys}
    {r : Except Raised Category} (hd : NoDrift db)
    (h : createCategory clean db a now k = some (db', r)) : NoDrift db' := by
  unfold createCategory at h
  split at h
  · obtain ⟨rfl, rfl⟩ := Prod.mk.inj (Option.some.inj h)
    exact hd
  · split_ifs at h with hk
    obtain rfl : _ = db' := congrArg Prod.fst (Option.some.inj h)
    rcases saveCategory_cases db _ with hs | hs
    · rw [hs]; exact hd
    · rw [hs]
      refine noDrift_of_votes (extends_putCategory fun r hr => ?_) hd rfl
      exact absurd (Option.isSome_iff_exists.mpr ⟨r, hr⟩) hk

theorem noDrift_createAward {db db' : Database} {a : AwardAttrs} {now : Time} {k : Keys}
    {r : Except Raised Award} (hd : NoDrift db)
    (h : createAward clean db a now k = some (db', r)) : NoDrift db' := by
  unfold createAward at h
  split at h
  · obtain ⟨rfl, rfl⟩ := Prod.mk.inj (Option.some.inj h)
    exact hd
  · split_ifs at h with hk
    obtain rfl : _ = db' := congrArg Prod.fst (Option.some.inj h)
    rcases saveAward_cases db _ with hs | hs
    · rw [hs]; exact hd
    · rw [hs]
      refine noDrift_of_votes (extends_putAward fun r hr => ?_) hd rfl
      exact absurd (Option.isSome_iff_exists.mpr ⟨r, hr⟩) hk

/-! ### The updates of awards and categories -/

/-- **Moving an award** keeps the copies right exactly when it keeps the event of an award with
votes. -/
theorem noDrift_putAward {db : Database} {w row : Award} (hd : NoDrift db)
    (hw : db.awards.get? row.id = some w) :
    NoDrift { db with awards := db.awards.put row } ↔
      ((∃ v ∈ db.votes.rows, v.award = row.id) →
        eventOf db row.category = eventOf db w.category) := by
  have hcat : ∀ k, categoryOf { db with awards := db.awards.put row } k =
      if k = row.id then some row.category else categoryOf db k := by
    intro k
    simp only [categoryOf, Table.get?_put, key_award]
    split_ifs <;> rfl
  constructor
  · rintro hd' ⟨v, hv, hva⟩
    obtain ⟨c, -, hc, he⟩ := derived_iff.mp (hd v hv)
    obtain ⟨c', -, hc', he'⟩ := derived_iff.mp (hd' v hv)
    rw [hcat, if_pos hva] at hc'
    obtain rfl := Option.some.inj hc'
    rw [categoryOf, hva, hw] at hc
    obtain rfl := Option.some.inj hc
    exact Eq.trans he' he.symm
  · intro hstay v hv
    obtain ⟨c, ha, hc, he⟩ := derived_iff.mp (hd v hv)
    by_cases hva : v.award = row.id
    · have hmoved : categoryOf { db with awards := db.awards.put row } v.award =
          some row.category := by rw [hcat, if_pos hva]
      rw [categoryOf, hva, hw] at hc
      obtain rfl := Option.some.inj hc
      exact derived_iff.mpr ⟨row.category, ha, hmoved, (hstay ⟨v, hv, hva⟩).trans he⟩
    · have hkept : categoryOf { db with awards := db.awards.put row } v.award = some c := by
        rw [hcat, if_neg hva]
        exact hc
      exact derived_iff.mpr ⟨c, ha, hkept, he⟩

/-- **Moving a category** keeps the copies right exactly when it keeps the event of a category whose
awards have votes. -/
theorem noDrift_putCategory {db : Database} {c row : Category} (hd : NoDrift db)
    (hc : db.categories.get? row.id = some c) :
    NoDrift { db with categories := db.categories.put row } ↔
      ((∃ v ∈ db.votes.rows, categoryOf db v.award = some row.id) → row.event = c.event) := by
  have hevent : ∀ k, eventOf { db with categories := db.categories.put row } k =
      if k = row.id then some row.event else eventOf db k := by
    intro k
    simp only [eventOf, Table.get?_put, key_category]
    split_ifs <;> rfl
  have hold : eventOf db row.id = some c.event := by rw [eventOf, hc]; rfl
  constructor
  · rintro hd' ⟨v, hv, hvc⟩
    obtain ⟨k, -, hk, he⟩ := derived_iff.mp (hd v hv)
    obtain ⟨k', -, hk', he'⟩ := derived_iff.mp (hd' v hv)
    obtain rfl : row.id = k := Option.some.inj (hvc.symm.trans hk)
    obtain rfl : row.id = k' := Option.some.inj (hvc.symm.trans hk')
    rw [hevent, if_pos rfl] at he'
    exact Option.some.inj (he'.trans (he.symm.trans hold))
  · intro hstay v hv
    obtain ⟨k, ha, hk, he⟩ := derived_iff.mp (hd v hv)
    refine derived_iff.mpr ⟨k, ha, hk, ?_⟩
    rw [hevent]
    split_ifs with hid
    · subst hid
      rw [hstay ⟨v, hv, hk⟩, ← hold]
      exact he
    · exact he

theorem noDrift_updateAward {db : Database} (hd : NoDrift db) (pk : Id) (full : Bool)
    (a : AwardAttrs) (now : Time) : NoDrift (updateAward clean db pk full a now).1 ↔
      Stays clean db (.updateAward pk full a now) (updateAward clean db pk full a now).1 := by
  rcases updateAward_cases db pk full a now with
    ⟨w, a', hw, ha, hdb⟩ | ⟨hno, hdb⟩
  · obtain ⟨hcat, -⟩ := acceptAward_ok clean ha
    obtain rfl : w.id = pk := Table.key_of_get? hw
    have hrow : (editedAward w a' now).category = a.category.getD w.category := by rw [← hcat]; rfl
    have hkey : db.awards.get? (editedAward w a' now).id = some w := hw
    rw [hdb, noDrift_putAward hd hkey]
    constructor
    · intro h w' a'' hw' _ hv
      obtain rfl := Option.some.inj (hw.symm.trans hw')
      exact hrow ▸ h hv
    · intro h hv
      exact (congrArg (eventOf db) hrow).trans (h w a' hw ha hv)
  · rw [hdb]
    exact iff_of_true hd fun w a' hw ha => absurd ha (hno w a' hw)

theorem noDrift_updateCategory {db : Database} (hd : NoDrift db) (pk : Id) (full : Bool)
    (a : CategoryAttrs) (now : Time) : NoDrift (updateCategory clean db pk full a now).1 ↔
      Stays clean db (.updateCategory pk full a now)
        (updateCategory clean db pk full a now).1 := by
  rcases updateCategory_cases db pk full a now with
    ⟨c, a', hc, ha, hdb⟩ | ⟨hno, hdb⟩
  · obtain ⟨hev, -⟩ := acceptCategory_ok clean ha
    obtain rfl : c.id = pk := Table.key_of_get? hc
    have hrow : (editedCategory c a' now).event = a.event.getD c.event := by rw [← hev]; rfl
    have hkey : db.categories.get? (editedCategory c a' now).id = some c := hc
    rw [hdb, noDrift_putCategory hd hkey]
    constructor
    · intro h c' a'' hc' _ hv
      obtain rfl := Option.some.inj (hc.symm.trans hc')
      exact hrow ▸ h hv
    · intro h hv
      exact hrow.trans (h c a' hc ha hv)
  · rw [hdb]
    exact iff_of_true hd fun c a' hc ha => absurd ha (hno c a' hc)

end Clean

/-! ### Deletes -/

/-- The chain of a vote survives the delete of a subtree that no vote protects. -/
theorem noDrift_performDestroy {db : Database} (hd : NoDrift db)
    (events categories awards : List Id) :
    NoDrift (performDestroy db (subtree db events categories awards)).1 := by
  unfold performDestroy
  split_ifs with hp
  · exact hd
  · intro v hv
    replace hv : v ∈ db.votes.rows := hv
    obtain ⟨c, ha, hc, he⟩ := derived_iff.mp (hd v hv)
    have hfree : v.event ∉ (subtree db events categories awards).events ∧
        v.award ∉ (subtree db events categories awards).awards ∧
        v.nomination ∉ (subtree db events categories awards).nominations := by
      rw [isProtected, Bool.or_eq_true, not_or, List.any_eq_true] at hp
      have hnot := fun h => hp.1 ⟨v, hv, h⟩
      simp only [Bool.or_eq_true, decide_eq_true_eq] at hnot
      tauto
    obtain ⟨-, haward, hnom⟩ := hfree
    obtain ⟨n, hn, hna⟩ := Option.map_eq_some_iff.mp ha
    obtain ⟨w, hw, rfl⟩ := Option.map_eq_some_iff.mp hc
    obtain ⟨k, hk, hke⟩ := Option.map_eq_some_iff.mp he
    have hcat : w.category ∉ (subtree db events categories awards).categories := by
      intro hmem
      obtain ⟨hwm, hwid⟩ := Table.get?_eq_some.mp hw
      refine haward (List.mem_append_right _ (List.mem_map.mpr ⟨w, ?_, hwid⟩))
      exact List.mem_filter.mpr ⟨hwm, decide_eq_true hmem⟩
    refine derived_iff.mpr ⟨w.category, ?_, ?_, ?_⟩
    · have hnid : n.id = v.nomination := Table.key_of_get? hn
      simp only [cascade, awardOf, Table.get?_filter, hn]
      rw [Option.filter_some, if_pos (decide_eq_true (hnid ▸ hnom)), Option.map_some, hna]
    · have hwid : w.id = v.award := Table.key_of_get? hw
      simp only [cascade, categoryOf, Table.get?_filter, hw]
      rw [Option.filter_some, if_pos (decide_eq_true (hwid ▸ haward)), Option.map_some]
    · have hkid : k.id = w.category := Table.key_of_get? hk
      simp only [cascade, eventOf, Table.get?_filter, hk]
      rw [Option.filter_some, if_pos (decide_eq_true (hkid ▸ hcat)), Option.map_some, hke]

/-! ### All operations -/

section Clean

variable (clean : Bool → String → String)

/-- **One operation** keeps the copies right exactly when it keeps voted awards and categories in
their event. -/
theorem noDrift_iff_of_step {db db' : Database} {op : Op} (hd : NoDrift db)
    (h : step clean db op = some db') : NoDrift db' ↔ Stays clean db op db' := by
  cases op with
  | cast a checkAt now vk ak =>
    obtain ⟨⟨db₁, r⟩, hx, rfl⟩ := Option.map_eq_some_iff.mp h
    exact iff_of_true (noDrift_cast hd hx) trivial
  | void a now ak =>
    obtain ⟨⟨db₁, r⟩, hx, rfl⟩ := Option.map_eq_some_iff.mp h
    exact iff_of_true (noDrift_void hd hx) trivial
  | review a now ak =>
    obtain ⟨⟨db₁, r⟩, hx, rfl⟩ := Option.map_eq_some_iff.mp h
    exact iff_of_true (noDrift_review hd hx) trivial
  | changeStatus event new request now ak =>
    obtain ⟨⟨db₁, r⟩, hx, rfl⟩ := Option.map_eq_some_iff.mp h
    exact iff_of_true (noDrift_changeStatus hd hx) trivial
  | createEvent a now k =>
    obtain ⟨⟨db₁, r⟩, hx, rfl⟩ := Option.map_eq_some_iff.mp h
    exact iff_of_true (noDrift_createEvent hd hx) trivial
  | createCategory a now k =>
    obtain ⟨⟨db₁, r⟩, hx, rfl⟩ := Option.map_eq_some_iff.mp h
    exact iff_of_true (noDrift_createCategory hd hx) trivial
  | createAward a now k =>
    obtain ⟨⟨db₁, r⟩, hx, rfl⟩ := Option.map_eq_some_iff.mp h
    exact iff_of_true (noDrift_createAward hd hx) trivial
  | updateEvent slug full a now =>
    obtain rfl := Option.some.inj h
    exact iff_of_true (noDrift_updateEvent hd slug full a now) trivial
  | updateCategory pk full a now =>
    obtain rfl := Option.some.inj h
    exact noDrift_updateCategory hd pk full a now
  | updateAward pk full a now =>
    obtain rfl := Option.some.inj h
    exact noDrift_updateAward hd pk full a now
  | destroyEvent slug =>
    obtain rfl := Option.some.inj h
    refine iff_of_true ?_ trivial
    unfold destroyEvent
    split
    · exact hd
    · exact noDrift_performDestroy hd _ _ _
  | destroyCategory pk =>
    obtain rfl := Option.some.inj h
    refine iff_of_true ?_ trivial
    unfold destroyCategory
    split
    · exact hd
    · exact noDrift_performDestroy hd _ _ _
  | destroyAward pk =>
    obtain rfl := Option.some.inj h
    refine iff_of_true ?_ trivial
    unfold destroyAward
    split
    · exact hd
    · exact noDrift_performDestroy hd _ _ _

/-- The copies are right after the operation. -/
def StaysRight (_ : Database) (_ : Op) (db' : Database) : Prop := NoDrift db'

instance (db : Database) (op : Op) (db' : Database) : Decidable (StaysRight db op db') := by
  unfold StaysRight; infer_instance

/-- **When the denormalised columns drift:** from a state where they are right, they are right in
every state of a run exactly when no accepted update takes an award with votes, or a category whose
awards have votes, to another event. -/
theorem noDrift_iff {db : Database} {ops : List Op} (hd : NoDrift db) :
    Along (step clean) StaysRight db ops ↔ Along (step clean) (Stays clean) db ops := by
  have hkeep : ∀ m op m', NoDrift m → StaysRight m op m' → step clean m op = some m' → NoDrift m' :=
    fun _ _ _ _ hp _ => hp
  have hiff : ∀ m op m', NoDrift m → step clean m op = some m' →
      (StaysRight m op m' ↔ Stays clean m op m') :=
    fun _ _ _ hm hk => noDrift_iff_of_step clean hm hk
  exact along_congr NoDrift hkeep hiff hd

end Clean

/-- A vote for a nomination of the gala's award, whose name is then changed. -/
def renamedAward : List Op :=
  [.cast ⟨50, 40, ⟨none, "", .voter 50⟩⟩ 150 150 ⟨60, 1⟩ ⟨70, 1⟩,
    .updateAward 20 false { name := some "Best song" } 160]

theorem noDrift_iff_gala :
    (run (step fun _ s => s) galaDb renamedAward).map (fun db =>
      (db.votes.rows.map fun v => (v.award, v.event), (db.awards.get? 20).map Award.name)) =
        some ([(20, 1)], some "Best song") ∧
    Along (step fun _ s => s) StaysRight galaDb renamedAward ∧
    Along (step fun _ s => s) (Stays fun _ s => s) galaDb renamedAward := by
  have hright : Along (step fun _ s => s) StaysRight galaDb renamedAward := by decide
  exact ⟨by decide, hright, (noDrift_iff _ (by decide)).mp hright⟩

/-- A vote for a nomination of the gala's award, which is then moved to a category of another
event. -/
def movedAward : List Op :=
  [.cast ⟨50, 40, ⟨none, "", .voter 50⟩⟩ 150 150 ⟨60, 1⟩ ⟨70, 1⟩,
    .updateAward 20 false { category := some 11 } 160]

/-- After `movedAward` the vote's event is not the event its nomination leads to. -/
theorem not_always_noDrift : ¬ ∀ (db : Database) (ops : List Op), NoDrift db →
    Along (step fun _ s => s) StaysRight db ops := by
  intro h
  exact absurd (h galaDb movedAward (by decide)) (by decide)

end KwAwards.Voting.Denormalised
