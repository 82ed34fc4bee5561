import KwAwards.Lib.Run
import KwAwards.Events.Services
import KwAwards.Events.Views

/-! # The window of an open phase

A change of status demands the window of the phase it opens. Later updates may write the window
fields in every status, null included, so an update can take the window away from under an open
phase (`clearedWindow`). `hasWindows_iff` says that this is the only way: every open phase has its
window in every state of a run exactly when no saved update clears a field of it (`KeepsWindow`). -/

namespace KwAwards.Events.OpenWindow

open KwAwards.Lib.Tables KwAwards.Lib.Run KwAwards.Common.Base KwAwards.Common.Exceptions
open KwAwards.Events.Models KwAwards.Events.Serializers KwAwards.Events.Services
open KwAwards.Events.Views KwAwards.Store

/-- The window of the phase that is open is set. -/
structure HasWindow (e : Event) : Prop where
  nominations : e.status = .nominationsOpen →
    e.nominationsOpenAt.isSome = true ∧ e.nominationsCloseAt.isSome = true
  voting : e.status = .votingOpen →
    e.votingOpensAt.isSome = true ∧ e.votingClosesAt.isSome = true

theorem hasWindow_iff {e : Event} : HasWindow e ↔
    (e.status = .nominationsOpen →
      e.nominationsOpenAt.isSome = true ∧ e.nominationsCloseAt.isSome = true) ∧
    (e.status = .votingOpen → e.votingOpensAt.isSome = true ∧ e.votingClosesAt.isSome = true) :=
  ⟨fun h => ⟨h.1, h.2⟩, fun h => ⟨h.1, h.2⟩⟩

theorem hasWindow_of_draft {e : Event} (h : e.status = .draft) : HasWindow e :=
  ⟨fun hs => by simp [h] at hs, fun hs => by simp [h] at hs⟩

instance (e : Event) : Decidable (HasWindow e) := decidable_of_iff _ hasWindow_iff.symm

/-- Every open phase has its window. -/
def HasWindows (db : Database) : Prop := ∀ e ∈ db.events.rows, HasWindow e

instance (db : Database) : Decidable (HasWindows db) := by unfold HasWindows; infer_instance

/-- The operations that write events. -/
inductive Op
  | create (a : EventAttrs) (now : Time) (k : Keys)
  | update (slug : String) (full : Bool) (a : EventAttrs) (now : Time)
  | changeStatus (event : Id) (new : EventStatus) (request : Option Request) (now : Time)
    (ak : Keys)

/-- A window field that the payload does not set to null. -/
def kept (sent : Option (Option Time)) : Bool := decide (sent ≠ some none)

/-- The payload leaves the window of the open phase. -/
def LeavesWindow (e : Event) (a : EventAttrs) : Prop :=
  (e.status = .nominationsOpen →
    kept a.nominationsOpenAt = true ∧ kept a.nominationsCloseAt = true) ∧
  (e.status = .votingOpen → kept a.votingOpensAt = true ∧ kept a.votingClosesAt = true)

section Clean

variable (clean : Bool → String → String)

/-- The database after an operation. -/
def step (db : Database) : Op → Option Database
  | .create a now k => (createEvent clean db a now k).map Prod.fst
  | .update slug full a now => some (updateEvent clean db slug full a now).1
  | .changeStatus event new request now ak =>
    (changeStatus db event new request now ak).map Prod.fst

/-- **What keeps the windows:** an update that is accepted and saved does not set a window field of
the open phase to null. -/
def KeepsWindow (db : Database) (op : Op) (_ : Database) : Prop :=
  match op with
  | .update slug full a now => ∀ e a', editEvent clean db slug full a = .ok (e, a') →
      eventFits db (editedEvent e a' now) = true → LeavesWindow e a
  | _ => True

/-! ### One operation -/

variable {clean}

/-- What is accepted has the window fields of the payload. -/
theorem editEvent_ok {db : Database} {slug : String} {full : Bool} {a a' : EventAttrs} {e : Event}
    (h : editEvent clean db slug full a = .ok (e, a')) :
    e ∈ db.events.rows ∧ a'.nominationsOpenAt = a.nominationsOpenAt ∧
      a'.nominationsCloseAt = a.nominationsCloseAt ∧ a'.votingOpensAt = a.votingOpensAt ∧
      a'.votingClosesAt = a.votingClosesAt := by
  unfold editEvent at h
  split at h
  · simp at h
  · next e₀ he =>
    split at h
    · simp at h
    · next a₀ ha =>
      obtain ⟨rfl, rfl⟩ := Prod.mk.inj (Except.ok.inj h)
      obtain ⟨-, hv⟩ := raiseIf_ok.mp ha
      obtain ⟨-, hv⟩ := raiseIf_ok.mp hv
      obtain ⟨-, hv⟩ := raiseIf_ok.mp hv
      obtain rfl := Except.ok.inj hv
      exact ⟨List.mem_of_find?_eq_some he, rfl, rfl, rfl, rfl⟩

/-- A field that was set stays set unless the payload clears it. -/
theorem isSome_getD {sent : Option (Option Time)} {stored : Option Time}
    (h : stored.isSome = true) :
    (sent.getD stored).isSome = true ↔ kept sent = true := by
  rcases sent with _ | _ | t <;> simp [kept, h]

/-- **The edited row** has the window of the open phase exactly when the payload leaves it. -/
theorem hasWindow_edited {db : Database} {slug : String} {full : Bool} {a a' : EventAttrs}
    {e : Event} {now : Time} (h : editEvent clean db slug full a = .ok (e, a')) (he : HasWindow e) :
    HasWindow (editedEvent e a' now) ↔ LeavesWindow e a := by
  obtain ⟨-, h1, h2, h3, h4⟩ := editEvent_ok h
  have hrow : editedEvent e a' now = { editedEvent e a' now with
      status := e.status
      nominationsOpenAt := a.nominationsOpenAt.getD e.nominationsOpenAt
      nominationsCloseAt := a.nominationsCloseAt.getD e.nominationsCloseAt
      votingOpensAt := a.votingOpensAt.getD e.votingOpensAt
      votingClosesAt := a.votingClosesAt.getD e.votingClosesAt } := by
    rw [← h1, ← h2, ← h3, ← h4]
    rfl
  rw [hrow, hasWindow_iff]
  refine and_congr (forall_congr' fun hs => ?_) (forall_congr' fun hs => ?_)
  · obtain ⟨ho, hc⟩ := he.nominations hs
    rw [isSome_getD ho, isSome_getD hc]
  · obtain ⟨ho, hc⟩ := he.voting hs
    rw [isSome_getD ho, isSome_getD hc]

theorem hasWindows_put {db : Database} {row : Event} (h : HasWindows db) :
    HasWindows { db with events := db.events.put row } ↔ HasWindow row := by
  constructor
  · intro hall
    exact hall row (Table.mem_put.mpr (Or.inl rfl))
  · intro hrow e he
    rcases Table.mem_put.mp he with rfl | ⟨he, -⟩
    · exact hrow
    · exact h e he

/-- **An update** keeps the windows exactly when, saved, it leaves the window of its event. -/
theorem hasWindows_update {db : Database} (h : HasWindows db) (slug : String) (full : Bool)
    (a : EventAttrs) (now : Time) : HasWindows (updateEvent clean db slug full a now).1 ↔
      KeepsWindow clean db (.update slug full a now) (updateEvent clean db slug full a now).1 := by
  show _ ↔ ∀ e a', editEvent clean db slug full a = .ok (e, a') →
    eventFits db (editedEvent e a' now) = true → LeavesWindow e a
  rcases hedit : editEvent clean db slug full a with x | ⟨e, a'⟩
  · have hdb : (updateEvent clean db slug full a now).1 = db := by simp only [updateEvent, hedit]
    rw [hdb]
    exact iff_of_true h fun e a' he => by simp at he
  · have he := h e (editEvent_ok hedit).1
    have hup :
        (updateEvent clean db slug full a now).1 = (saveEvent db (editedEvent e a' now)).1 := by
      simp only [updateEvent, hedit]
    rw [hup]
    rcases saveEvent_cases db (editedEvent e a' now) with ⟨hfit, hdb⟩ | ⟨hfit, hdb⟩
    · rw [hdb]
      refine iff_of_true h fun e₁ a₁ heq hf => ?_
      obtain ⟨rfl, rfl⟩ := Prod.mk.inj (Except.ok.inj heq)
      rw [hfit] at hf
      simp at hf
    · rw [hdb, hasWindows_put h, hasWindow_edited hedit he]
      refine ⟨fun hl e₁ a₁ heq _ => ?_, fun hl => hl e a' rfl hfit⟩
      obtain ⟨rfl, rfl⟩ := Prod.mk.inj (Except.ok.inj heq)
      exact hl

theorem hasWindows_create {db db' : Database} {a : EventAttrs} {now : Time} {k : Keys}
    {r : Except Raised Event} (h : HasWindows db)
    (hc : createEvent clean db a now k = some (db', r)) : HasWindows db' := by
  unfold createEvent at hc
  split at hc
  · obtain ⟨rfl, -⟩ := Prod.mk.inj (Option.some.inj hc)
    exact h
  · next a' ha =>
    split_ifs at hc with hk
    obtain rfl : _ = db' := congrArg Prod.fst (Option.some.inj hc)
    rcases saveEvent_cases db _ with ⟨-, hdb⟩ | ⟨-, hdb⟩
    · rw [hdb]
      exact h
    · rw [hdb, hasWindows_put h]
      exact hasWindow_of_draft rfl

/-- **A change of status** opens a phase with its window. -/
theorem hasWindows_changeStatus {db db' : Database} {event : Id} {new : EventStatus}
    {request : Option Request} {now : Time} {ak : Keys} {r : Except Raised Event}
    (h : HasWindows db) (hc : changeStatus db event new request now ak = some (db', r)) :
    HasWindows db' := by
  rcases changeStatus_cases hc with ⟨rfl, -⟩ | ⟨locked, audit, e, hl, herr, -, -, -, rfl⟩
  · exact h
  · obtain ⟨-, hnom, hvote⟩ := statusError_eq_none.mp herr
    intro e' he'
    have hget : (saveStatus db.events event new now).get? e'.id = some e' := Table.get?_key he'
    rw [get?_saveStatus, hl] at hget
    split_ifs at hget with hid
    · obtain rfl := Option.some.inj hget
      exact ⟨hnom, hvote⟩
    · exact h e' (Table.get?_eq_some.mp hget).1

variable (clean)

theorem hasWindows_iff_of_step {db db' : Database} {op : Op} (h : HasWindows db)
    (hs : step clean db op = some db') : HasWindows db' ↔ KeepsWindow clean db op db' := by
  cases op with
  | create a now k =>
    obtain ⟨⟨db₁, r⟩, hx, rfl⟩ := Option.map_eq_some_iff.mp hs
    exact iff_of_true (hasWindows_create h hx) trivial
  | update slug full a now =>
    obtain rfl := Option.some.inj hs
    exact hasWindows_update h slug full a now
  | changeStatus event new request now ak =>
    obtain ⟨⟨db₁, r⟩, hx, rfl⟩ := Option.map_eq_some_iff.mp hs
    exact iff_of_true (hasWindows_changeStatus h hx) trivial

/-! ### Runs -/

/-- Every open phase has its window after the operation. -/
def StaysOpenable (_ : Database) (_ : Op) (db' : Database) : Prop := HasWindows db'

instance (db : Database) (op : Op) (db' : Database) : Decidable (StaysOpenable db op db') := by
  unfold StaysOpenable; infer_instance

/-- **When open phases lose their window:** in every state of a run each has it exactly when no
saved update of an event clears a field of the window of the phase that is open. -/
theorem hasWindows_iff {db : Database} {ops : List Op} (h : HasWindows db) :
    Along (step clean) StaysOpenable db ops ↔ Along (step clean) (KeepsWindow clean) db ops := by
  have hkeep : ∀ m op m', HasWindows m → StaysOpenable m op m' → step clean m op = some m' →
      HasWindows m' := fun _ _ _ _ hp _ => hp
  have hiff : ∀ m op m', HasWindows m → step clean m op = some m' →
      (StaysOpenable m op m' ↔ KeepsWindow clean m op m') :=
    fun _ _ _ hm hk => hasWindows_iff_of_step clean hm hk
  exact along_congr HasWindows hkeep hiff h

end Clean

/-- While voting is open it is made to close later. -/
def laterClose : List Op := [.update "gala" false { votingClosesAt := some (some 300) } 150]

theorem hasWindows_iff_gala :
    (run (step fun _ t => t) galaDb laterClose).map (fun db =>
      (db.events.get? 1).map fun e => (e.status, e.votingClosesAt)) =
        some (some (.votingOpen, some 300)) ∧
    Along (step fun _ t => t) StaysOpenable galaDb laterClose ∧
    Along (step fun _ t => t) (KeepsWindow fun _ t => t) galaDb laterClose := by
  have hopenable : Along (step fun _ t => t) StaysOpenable galaDb laterClose := by decide
  exact ⟨by decide, hopenable, (hasWindows_iff _ (by decide)).mp hopenable⟩

/-- While voting is open the instant it closes is set to null. -/
def clearedWindow : List Op := [.update "gala" false { votingClosesAt := some none } 150]

/-- After `clearedWindow` voting is open and has no window. -/
theorem not_always_hasWindows : ¬ ∀ (db : Database) (ops : List Op), HasWindows db →
    Along (step fun _ t => t) StaysOpenable db ops := by
  intro h
  exact absurd (h galaDb clearedWindow (by decide)) (by decide)

end KwAwards.Events.OpenWindow
