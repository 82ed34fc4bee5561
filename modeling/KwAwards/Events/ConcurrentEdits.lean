import KwAwards.Lib.Run
import KwAwards.Events.Services
import KwAwards.Events.Views

/-! # Edits of events while their status changes

Any number of edits of events run interleaved with changes of status. An edit reads the row and
validates the payload in one step (`read`) and later saves every column of the row it read (`save`);
nothing rereads the row in between. So an edit that only renames an event can put back a status
(`staleRename`), and `byMachine_iff` says in which runs that does not happen: those in which every
save still finds the status and the publication time that its edit read (`SavesWhatStands`). -/

namespace KwAwards.Events.ConcurrentEdits

open KwAwards.Lib.Tables KwAwards.Lib.Run KwAwards.Common.Base KwAwards.Common.Exceptions
open KwAwards.Audit.Log KwAwards.Events.Models KwAwards.Events.Serializers
open KwAwards.Events.Services KwAwards.Events.Views KwAwards.Store

/-- Where an edit stands. -/
inductive EditPhase
  | idle
  | loaded (e : Event) (a : EventAttrs)
  | done (r : Except Raised Event)

/-- The database, the clock and the edits. -/
structure State where
  db : Database
  now : Time
  edits : ℕ → EditPhase

def State.setEdit (s : State) (i : ℕ) (p : EditPhase) : State :=
  { s with edits := Function.update s.edits i p }

/-- What can happen. -/
inductive Label
  | tick (d : ℕ)
  | changeStatus (event : Id) (new : EventStatus) (request : Option Request) (ak : Keys)
  | read (i : ℕ) (slug : String) (full : Bool) (a : EventAttrs)
  | save (i : ℕ)

def Label.isSave : Label → Bool
  | .save _ => true
  | _ => false

section Clean

variable (clean : Bool → String → String)

def step (s : State) : Label → Option State
  | .tick d => some { s with now := s.now + d }
  | .changeStatus event new request ak =>
    (changeStatus s.db event new request s.now ak).map fun (db, _) => { s with db }
  | .read i slug full a =>
    match s.edits i with
    | .idle =>
      match editEvent clean s.db slug full a with
      | .error x => some (s.setEdit i (.done (.error x)))
      | .ok (e, a) => some (s.setEdit i (.loaded e a))
    | _ => none
  | .save i =>
    match s.edits i with
    | .loaded e a =>
      let saved := saveEvent s.db (editedEvent e a s.now)
      some ({ s with db := saved.1 }.setEdit i (.done saved.2))
    | _ => none

end Clean

/-! ### What a step may do to an event -/

/-- The metadata of the `EVENT_STATUS_CHANGED` entries about an event that a step adds. -/
def statusEntries (event : Id) (db db' : Database) : List Metadata :=
  ((db'.audit.rows.drop db.audit.rows.length).filter fun x =>
    x.action = .eventStatusChanged ∧ x.target = some (eventTarget event)).map AuditLog.metadata

/-- From `e` to `e'` the status stays, or goes along an edge with one entry that says so; a save
keeps the status and the publication time. -/
def Faithful (db db' : Database) (isSave : Bool) (e e' : Event) : Prop :=
  (e'.status ≠ e.status → e'.status ∈ statusTransitions e.status ∧
    statusEntries e.id db db' = [statusMetadata e.status e'.status]) ∧
  (isSave = true → e'.status = e.status ∧ e'.resultsPublishedAt = e.resultsPublishedAt)

instance (db db' : Database) (isSave : Bool) (e e' : Event) :
    Decidable (Faithful db db' isSave e e') := by
  unfold Faithful; infer_instance

/-- Every stored event is still there and has changed by the status machine only. -/
def ByMachine (s : State) (l : Label) (s' : State) : Prop :=
  ∀ e ∈ s.db.events.rows, match s'.db.events.get? e.id with
    | none => False
    | some e' => Faithful s.db s'.db l.isSave e e'

instance (s : State) (l : Label) (s' : State) : Decidable (ByMachine s l s') := by
  unfold ByMachine
  have (e : Event) : Decidable (match s'.db.events.get? e.id with
      | none => False
      | some e' => Faithful s.db s'.db l.isSave e e') := by
    split <;> infer_instance
  infer_instance

/-- A save that the table lets in finds the status and the publication time that its edit read. -/
def SavesWhatStands (s : State) (l : Label) (_ : State) : Prop :=
  match l with
  | .save i =>
    match s.edits i with
    | .loaded e a => eventFits s.db (editedEvent e a s.now) = true →
        ∀ stored, s.db.events.get? e.id = some stored →
          stored.status = e.status ∧ stored.resultsPublishedAt = e.resultsPublishedAt
    | _ => True
  | _ => True

theorem byMachine_iff_forall {s s' : State} {l : Label} : ByMachine s l s' ↔
    ∀ e ∈ s.db.events.rows, ∃ e', s'.db.events.get? e.id = some e' ∧
      Faithful s.db s'.db l.isSave e e' := by
  refine forall₂_congr fun e _ => ?_
  split <;> simp_all

theorem faithful_refl (db db' : Database) (isSave : Bool) (e : Event) :
    Faithful db db' isSave e e :=
  ⟨fun h => absurd rfl h, fun _ => ⟨rfl, rfl⟩⟩

theorem byMachine_of_events {s s' : State} (l : Label) (h : s'.db.events = s.db.events) :
    ByMachine s l s' := by
  refine byMachine_iff_forall.mpr fun e he => ?_
  have hget : s'.db.events.get? e.id = some e := by
    rw [h]
    exact Table.get?_key he
  exact ⟨e, hget, faithful_refl ..⟩

/-- **A change of status** is an edge with its entry. -/
theorem byMachine_changeStatus {s : State} {db : Database} {event : Id} {new : EventStatus}
    {request : Option Request} {ak : Keys} {r : Except Raised Event}
    (h : changeStatus s.db event new request s.now ak = some (db, r)) :
    ByMachine s (.changeStatus event new request ak) { s with db } := by
  rcases changeStatus_cases h with ⟨rfl, -⟩ | ⟨locked, audit, x, hl, herr, -, hx, ha, rfl⟩
  · exact byMachine_of_events _ rfl
  · refine byMachine_iff_forall.mpr fun e he => ?_
    show ∃ e', (saveStatus s.db.events event new s.now).get? e.id = some e' ∧ _
    rw [get?_saveStatus]
    by_cases hid : e.id = event
    · obtain rfl : locked = e := by
        have hget := Table.get?_key he
        rw [key_event, hid, hl] at hget
        exact Option.some.inj hget
      rw [if_pos hid, hl]
      refine ⟨withStatus locked new s.now, rfl, fun _ => ?_, fun h => ?_⟩
      · obtain ⟨-, -, haction, htarget, hmeta, -⟩ := log_eq_some hx
        refine ⟨(statusError_eq_none.mp herr).1, ?_⟩
        have hdrop : audit.rows.drop s.db.audit.rows.length = [x] := by rw [ha, List.drop_left]
        unfold statusEntries
        rw [hdrop, hid, List.filter_singleton, haction, htarget, decide_eq_true ⟨rfl, rfl⟩]
        exact congrArg (fun m => [m]) hmeta
      · cases h
    · rw [if_neg hid]
      exact ⟨e, Table.get?_key he, faithful_refl ..⟩

/-- **A save** is by the machine exactly when it finds what its edit read. -/
theorem byMachine_save {s : State} {i : ℕ} {e : Event} {a : EventAttrs} (p : EditPhase)
    (hi : s.edits i = .loaded e a) :
    ByMachine s (.save i)
      ({ s with db := (saveEvent s.db (editedEvent e a s.now)).1 }.setEdit i p) ↔
      SavesWhatStands s (.save i) s := by
  simp only [SavesWhatStands, hi]
  rcases saveEvent_cases s.db (editedEvent e a s.now) with ⟨hfit, hdb⟩ | ⟨hfit, hdb⟩
  · have hevents : (saveEvent s.db (editedEvent e a s.now)).1.events = s.db.events := by rw [hdb]
    have hnot : eventFits s.db (editedEvent e a s.now) ≠ true := by simp [hfit]
    exact iff_of_true (byMachine_of_events _ hevents) fun h => absurd h hnot
  · rw [byMachine_iff_forall]
    have hget : ∀ k, (saveEvent s.db (editedEvent e a s.now)).1.events.get? k =
        if k = e.id then some (editedEvent e a s.now) else s.db.events.get? k := by
      intro k
      rw [hdb]
      exact Table.get?_put ..
    constructor
    · intro h _ stored hstored
      obtain ⟨hmem, hid⟩ := Table.get?_eq_some.mp hstored
      obtain ⟨e', he', -, hsave⟩ := h stored hmem
      have hid' : stored.id = e.id := hid
      replace he' : (saveEvent s.db (editedEvent e a s.now)).1.events.get? stored.id = some e' :=
        he'
      rw [hget, if_pos hid'] at he'
      obtain rfl := Option.some.inj he'
      obtain ⟨hs, hr⟩ := hsave rfl
      exact ⟨hs.symm, hr.symm⟩
    · intro h stored hmem
      show ∃ e', (saveEvent s.db (editedEvent e a s.now)).1.events.get? stored.id = some e' ∧ _
      rw [hget]
      have hstored : s.db.events.get? stored.id = some stored := Table.get?_key hmem
      by_cases hid : stored.id = e.id
      · obtain ⟨hs, hr⟩ := h hfit stored (hid ▸ hstored)
        exact ⟨_, if_pos hid, fun hne => absurd hs.symm hne, fun _ => ⟨hs.symm, hr.symm⟩⟩
      · rw [if_neg hid]
        exact ⟨stored, hstored, faithful_refl ..⟩

variable (clean : Bool → String → String)

theorem byMachine_iff_of_step {s s' : State} {l : Label} (h : step clean s l = some s') :
    ByMachine s l s' ↔ SavesWhatStands s l s' := by
  cases l with
  | tick d =>
    obtain rfl := Option.some.inj h
    exact iff_of_true (byMachine_of_events _ rfl) trivial
  | changeStatus event new request ak =>
    obtain ⟨⟨db, r⟩, hx, rfl⟩ := Option.map_eq_some_iff.mp h
    exact iff_of_true (byMachine_changeStatus hx) trivial
  | read i slug full a =>
    refine iff_of_true (byMachine_of_events _ ?_) trivial
    simp only [step] at h
    split at h
    · split at h <;> (obtain rfl := Option.some.inj h; rfl)
    · simp at h
  | save i =>
    simp only [step] at h
    split at h
    · next e a hi =>
      obtain rfl := Option.some.inj h
      exact byMachine_save _ hi
    · simp at h

/-- **When the status changes only by the status machine:** in every step of a run exactly when
every accepted save finds the status and the publication time its edit read. -/
theorem byMachine_iff (s : State) (l : List Label) :
    Along (step clean) ByMachine s l ↔ Along (step clean) SavesWhatStands s l := by
  have hkeep : ∀ m k m', True → ByMachine m k m' → step clean m k = some m' → True :=
    fun _ _ _ _ _ _ => trivial
  have hiff : ∀ m k m', True → step clean m k = some m' →
      (ByMachine m k m' ↔ SavesWhatStands m k m') :=
    fun _ _ _ _ hk => byMachine_iff_of_step clean hk
  exact along_congr (fun _ => True) hkeep hiff trivial

/-- The gala is renamed by an edit that read it before it was closed. -/
def staleRename : List Label :=
  [.read 0 "gala" false { name := some "Grand gala" },
    .changeStatus 1 .closed none ⟨70, 1⟩, .save 0]

/-- After `staleRename` the gala is open again, without an entry. -/
theorem not_always_byMachine : ¬ ∀ (s : State) (l : List Label), (∀ i, s.edits i = .idle) →
    Along (step fun _ t => t) ByMachine s l := by
  intro h
  exact absurd (h ⟨galaDb, 150, fun _ => .idle⟩ staleRename fun _ => rfl) (by decide)

end KwAwards.Events.ConcurrentEdits
