import KwAwards.Events.Views

/-! # Deleting a tree of rows

`instance.delete()` collects the rows that go along, level by level: a foreign key that cascades is
followed, one that protects stops the delete when a row refers to what was collected. Nothing is
deleted before everything is collected.

`deleteInstance` follows the foreign keys as the models declare them, and `destroy` turns its
`ProtectedError` into a conflict; it is the `performDestroy` of the view sets (`performDestroy_eq`).
The rows of an instance are told by `HasCategory`, `HasAward` and `HasNomination`: all of them go or
none (`destroy_allOrNothing`). -/

namespace KwAwards.Events.Deletion

open KwAwards.Lib.Tables KwAwards.Common.Base KwAwards.Common.Exceptions KwAwards.Events.Models
open KwAwards.Events.Views KwAwards.Nominations.Models KwAwards.Store

/-- What `perform_destroy` is given. -/
inductive Instance
  | event (e : Event)
  | category (c : Category)
  | award (w : Award)
  deriving DecidableEq, Repr

/-! ### The collector -/

section Collect

variable (db : Database)

/-- Nominations: `Vote.nomination` and `Payment.nomination` protect them. `none` is the
`ProtectedError`. -/
def collectNominations (ids : List Id) : Option Subtree :=
  if db.votes.rows.any (fun v => v.nomination ∈ ids) || db.payments.rows.any fun p =>
    p.nomination ∈ ids then
    none
  else some { events := [], categories := [], awards := [], nominations := ids }

/-- Awards: `Vote.award` protects them, `Nomination.award` cascades. -/
def collectAwards (ids : List Id) : Option Subtree :=
  if db.votes.rows.any fun v => v.award ∈ ids then none
  else (collectNominations db
    ((db.nominations.rows.filter fun n => n.award ∈ ids).map fun n => n.id)).map
    fun t => { t with awards := ids }

/-- Categories: `Award.category` cascades. -/
def collectCategories (ids : List Id) : Option Subtree :=
  (collectAwards db ((db.awards.rows.filter fun w => w.category ∈ ids).map Award.id)).map
    fun t => { t with categories := ids }

/-- Events: `Vote.event` protects them, `Category.event` cascades. -/
def collectEvents (ids : List Id) : Option Subtree :=
  if db.votes.rows.any fun v => v.event ∈ ids then none
  else (collectCategories db
    ((db.categories.rows.filter fun c => c.event ∈ ids).map Category.id)).map
    fun t => { t with events := ids }

def collect : Instance → Option Subtree
  | .event e => collectEvents db [e.id]
  | .category c => collectCategories db [c.id]
  | .award w => collectAwards db [w.id]

/-- `instance.delete()`. -/
def deleteInstance (i : Instance) : Option Database := (collect db i).map (cascade db)

/-- **`perform_destroy`**. -/
def destroy (i : Instance) : Database × Except Raised Unit :=
  match deleteInstance db i with
  | some db => (db, .ok ())
  | none =>
    (db,
      .error (.api (.conflict "This item cannot be deleted because votes already reference it.")))

end Collect

/-- The subtree of an instance. -/
def Instance.subtree (db : Database) : Instance → Subtree
  | .event e => eventSubtree db e.id
  | .category c => categorySubtree db c.id
  | .award w => awardSubtree db w.id

variable {db : Database}

theorem filter_mem_nil {α : Type} (f : α → Id) (l : List α) :
    (l.filter fun a => f a ∈ ([] : List Id)) = [] :=
  List.filter_eq_nil_iff.mpr fun _ _ => by simp

theorem subtree_awards (ids : List Id) : subtree db [] [] ids =
    { events := [], categories := [], awards := ids
      nominations := (db.nominations.rows.filter fun n => n.award ∈ ids).map fun n => n.id } := by
  simp only [subtree, filter_mem_nil, List.map_nil, List.append_nil]

theorem subtree_categories (ids : List Id) : subtree db [] ids [] =
    { subtree db [] [] ((db.awards.rows.filter fun w => w.category ∈ ids).map Award.id) with
      categories := ids } := by
  simp only [subtree, filter_mem_nil, List.map_nil, List.append_nil, List.nil_append]

theorem subtree_events (ids : List Id) : subtree db ids [] [] =
    { subtree db [] ((db.categories.rows.filter fun c => c.event ∈ ids).map Category.id) [] with
      events := ids } := by
  simp only [subtree, filter_mem_nil, List.map_nil, List.append_nil, List.nil_append]

theorem any_or {α : Type} (p q : α → Bool) (l : List α) :
    (l.any fun a => p a || q a) = (l.any p || l.any q) := by
  induction l with
  | nil => rfl
  | cons a l ih =>
    rw [List.any_cons, List.any_cons, List.any_cons, ih, Bool.or_assoc, Bool.or_assoc,
      Bool.or_left_comm (q a)]

/-- The votes and payments that protect, one foreign key after the other. -/
theorem isProtected_eq (db : Database) (t : Subtree) : isProtected db t =
    (db.votes.rows.any (fun v => v.event ∈ t.events) ||
      (db.votes.rows.any (fun v => v.award ∈ t.awards) ||
      (db.votes.rows.any (fun v => v.nomination ∈ t.nominations) ||
        db.payments.rows.any fun p => p.nomination ∈ t.nominations))) := by
  rw [isProtected, any_or, any_or, Bool.or_assoc, Bool.or_assoc]

theorem any_mem_nil {α : Type} (f : α → Id) (l : List α) :
    (l.any fun a => f a ∈ ([] : List Id)) = false := by
  simp

/-- The votes for the events of a subtree, and what protects the rest of it. -/
theorem isProtected_events {t : Subtree} (h : t.events = []) (ids : List Id) :
    isProtected db { t with events := ids } =
      (db.votes.rows.any (fun v => v.event ∈ ids) || isProtected db t) := by
  rw [isProtected_eq db t, isProtected_eq, h, any_mem_nil, Bool.false_or]

/-- A level that a condition stops, over levels that another stops. -/
theorem map_ite_none {α β : Type} (a b : Bool) (t : α) (f : α → β) :
    (if a then none else (if b then none else some t).map f) = if a || b then none
      else some (f t) := by
  cases a
  · cases b
    · rfl
    · rfl
  · rfl

theorem collectAwards_eq (ids : List Id) : collectAwards db ids =
    if isProtected db (subtree db [] [] ids) then none else some (subtree db [] [] ids) := by
  rw [subtree_awards, collectAwards, collectNominations, map_ite_none, isProtected_eq, any_mem_nil,
    Bool.false_or]

theorem collectCategories_eq (ids : List Id) : collectCategories db ids =
    if isProtected db (subtree db [] ids []) then none else some (subtree db [] ids []) := by
  rw [subtree_categories, collectCategories, collectAwards_eq]
  exact map_ite_none false _ _ _

theorem collectEvents_eq (ids : List Id) : collectEvents db ids =
    if isProtected db (subtree db ids [] []) then none else some (subtree db ids [] []) := by
  have hnil : ∀ c, (subtree db [] c []).events = [] := fun _ => rfl
  rw [subtree_events, isProtected_events (hnil _), collectEvents, collectCategories_eq,
    map_ite_none]

/-- **The collector** meets a protected row of the subtree, or collects the subtree. -/
theorem collect_eq (db : Database) (i : Instance) :
    collect db i = if isProtected db (i.subtree db) then none else some (i.subtree db) := by
  cases i with
  | event e => exact collectEvents_eq [e.id]
  | category c => exact collectCategories_eq [c.id]
  | award w => exact collectAwards_eq [w.id]

/-- The view sets delete what the collector collects. -/
theorem performDestroy_eq (db : Database) (i : Instance) :
    performDestroy db (i.subtree db) = destroy db i := by
  unfold performDestroy destroy deleteInstance
  rw [collect_eq]
  cases isProtected db (i.subtree db)
  · rfl
  · rfl

/-! ### The rows of an instance -/

namespace Instance

/-- The instance is the event with this key. -/
def IsEvent : Instance → Id → Prop
  | event e, id => id = e.id
  | _, _ => False

/-- The instance is the category with this key, or the event of it. -/
def HasCategory (db : Database) : Instance → Id → Prop
  | event e, id => ∃ c ∈ db.categories.rows, c.event = e.id ∧ c.id = id
  | category c, id => id = c.id
  | award _, _ => False

/-- The instance is the award with this key. -/
def IsAward : Instance → Id → Prop
  | award w, id => id = w.id
  | _, _ => False

/-- The award is the instance or in a category of it. -/
def HasAward (db : Database) (i : Instance) (id : Id) : Prop :=
  i.IsAward id ∨ ∃ w ∈ db.awards.rows, i.HasCategory db w.category ∧ w.id = id

/-- The nomination is for an award of the instance. -/
def HasNomination (db : Database) (i : Instance) (id : Id) : Prop :=
  ∃ n ∈ db.nominations.rows, i.HasAward db n.award ∧ n.id = id

end Instance

theorem mem_events {i : Instance} {k : Id} : k ∈ (i.subtree db).events ↔ i.IsEvent k := by
  cases i with
  | event e => exact List.mem_singleton
  | category c => exact iff_of_false List.not_mem_nil id
  | award w => exact iff_of_false List.not_mem_nil id

theorem mem_categories {i : Instance} {k : Id} :
    k ∈ (i.subtree db).categories ↔ i.HasCategory db k := by
  cases i with
  | event e => simp [Instance.subtree, eventSubtree, subtree, Instance.HasCategory, and_assoc]
  | category c => simp [Instance.subtree, categorySubtree, subtree_categories, Instance.HasCategory]
  | award w => simp [Instance.subtree, awardSubtree, subtree_awards, Instance.HasCategory]

theorem mem_awards {i : Instance} {k : Id} : k ∈ (i.subtree db).awards ↔ i.HasAward db k := by
  have hbelow : ∀ events categories awards : List Id,
    k ∈ (subtree db events categories awards).awards ↔
      k ∈ awards ∨ ∃ w ∈ db.awards.rows,
        w.category ∈ (subtree db events categories awards).categories ∧
        w.id = k := by
    intro events categories awards
    simp only [subtree, List.mem_append, List.mem_map, List.mem_filter, decide_eq_true_eq,
      and_assoc]
  have hcategories : (∃ w ∈ db.awards.rows, w.category ∈ (i.subtree db).categories ∧ w.id = k) ↔
      ∃ w ∈ db.awards.rows, i.HasCategory db w.category ∧ w.id = k :=
    exists_congr fun w => and_congr_right fun _ => and_congr_left fun _ => mem_categories
  unfold Instance.HasAward
  rw [← hcategories]
  cases i with
  | event e => exact (hbelow [e.id] [] []).trans (or_congr_left (iff_of_false List.not_mem_nil id))
  | category c =>
    exact (hbelow [] [c.id] []).trans (or_congr_left (iff_of_false List.not_mem_nil id))
  | award w => exact (hbelow [] [] [w.id]).trans (or_congr_left List.mem_singleton)

theorem mem_nominations {i : Instance} {k : Id} :
    k ∈ (i.subtree db).nominations ↔ i.HasNomination db k := by
  have hbelow : ∀ events categories awards : List Id,
      k ∈ (subtree db events categories awards).nominations ↔
        ∃ n ∈ db.nominations.rows, n.award ∈ (subtree db events categories awards).awards ∧
          n.id = k := by
    intro events categories awards
    simp only [subtree, List.mem_map, List.mem_filter, decide_eq_true_eq, and_assoc]
  have hawards : (∃ n ∈ db.nominations.rows, n.award ∈ (i.subtree db).awards ∧ n.id = k) ↔
      i.HasNomination db k :=
    exists_congr fun n => and_congr_right fun _ => and_congr_left fun _ => mem_awards
  rw [← hawards]
  cases i with
  | event e => exact hbelow [e.id] [] []
  | category c => exact hbelow [] [c.id] []
  | award w => exact hbelow [] [] [w.id]

/-- No vote and no payment refers to a row of the instance. -/
def Unreferenced (db : Database) (i : Instance) : Prop :=
  (∀ v ∈ db.votes.rows, ¬ i.IsEvent v.event ∧ ¬ i.HasAward db v.award ∧
    ¬ i.HasNomination db v.nomination) ∧
  ∀ p ∈ db.payments.rows, ¬ i.HasNomination db p.nomination

/-- **The instance and what is below it is gone**, and nothing else. -/
structure Removed (db : Database) (i : Instance) (db' : Database) : Prop where
  frame : db' = { db with
    events := db'.events, categories := db'.categories, awards := db'.awards, nominations :=
      db'.nominations }
  events : ∀ e, e ∈ db'.events.rows ↔ e ∈ db.events.rows ∧ ¬ i.IsEvent e.id
  categories : ∀ c, c ∈ db'.categories.rows ↔ c ∈ db.categories.rows ∧ ¬ i.HasCategory db c.id
  awards : ∀ w, w ∈ db'.awards.rows ↔ w ∈ db.awards.rows ∧ ¬ i.HasAward db w.id
  nominations : ∀ n, n ∈ db'.nominations.rows ↔ n ∈ db.nominations.rows ∧ ¬ i.HasNomination db n.id

theorem unreferenced_iff {i : Instance} :
    Unreferenced db i ↔ isProtected db (i.subtree db) = false := by
  simp only [Unreferenced, isProtected, Bool.or_eq_false_iff, List.any_eq_false, Bool.or_eq_true,
    decide_eq_true_eq, not_or, mem_events, mem_awards, mem_nominations, and_assoc]

theorem removed_cascade (db : Database) (i : Instance) :
    Removed db i (cascade db (i.subtree db)) where
  frame := rfl
  events e := by
    simp only [cascade, Table.rows_filter, List.mem_filter, decide_eq_true_eq, mem_events]
  categories c := by
    simp only [cascade, Table.rows_filter, List.mem_filter, decide_eq_true_eq, mem_categories]
  awards w := by
    simp only [cascade, Table.rows_filter, List.mem_filter, decide_eq_true_eq, mem_awards]
  nominations n := by
    simp only [cascade, Table.rows_filter, List.mem_filter, decide_eq_true_eq, mem_nominations]

/-- **All or nothing.** -/
structure AllOrNothing (db : Database) (i : Instance) : Prop where
  succeeds : (destroy db i).2 = .ok () ↔ Unreferenced db i
  removed : Unreferenced db i → Removed db i (destroy db i).1
  refused : ¬ Unreferenced db i → destroy db i =
    (db,
      .error (.api (.conflict "This item cannot be deleted because votes already reference it.")))

theorem destroy_allOrNothing (db : Database) (i : Instance) : AllOrNothing db i := by
  have hfree : Unreferenced db i → destroy db i = (cascade db (i.subtree db), .ok ()) := by
    intro h
    rw [← performDestroy_eq, performDestroy, unreferenced_iff.mp h]
    rfl
  have hrefused : ¬ Unreferenced db i → destroy db i =
      (db,
        .error (.api
          (.conflict "This item cannot be deleted because votes already reference it."))) := by
    intro h
    rw [unreferenced_iff, Bool.not_eq_false] at h
    rw [← performDestroy_eq, performDestroy, if_pos h]
  refine ⟨⟨fun hok => ?_, fun h => by rw [hfree h]⟩, fun h => ?_, hrefused⟩
  · by_contra h
    rw [hrefused h] at hok
    simp at hok
  · rw [hfree h]
    exact removed_cascade db i

end KwAwards.Events.Deletion
