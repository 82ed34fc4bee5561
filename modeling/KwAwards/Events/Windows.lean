import KwAwards.Events.Serializers

/-! # The windows of an event, checked twice

`EventSerializer.validate` compares the windows of a payload, merged with those of the instance,
before the database checks the row that is saved. Here an instant is an integer, the microseconds
from the epoch, which it may lie before, and a window is the `datetime` that Python compares: a
value of the payload is in the time zone of the settings, `Africa/Nairobi`, and a stored one in
UTC. Two `datetime`s of one zone are compared by what its clocks show, which is not the order of
the instants around the one time the clocks were put back (`turn`, in January 1930).

Away from it the two checks say the same (`windowErrors_eq_nil_iff`). At the turn the serializer
refuses windows that are in order (`Payload.Swapped`) and takes some that are not
(`Payload.Masked`), and `agrees_iff` says of which payloads the two still agree. -/

namespace KwAwards.Events.Windows

open KwAwards.Common.Base KwAwards.Events.Models KwAwards.Events.Serializers

/-! ### Datetimes -/

/-- The zones of the `datetime`s; `nairobi` is `TIME_ZONE`. -/
inductive Zone
  | utc
  | nairobi
  deriving DecidableEq, Repr

/-- The end of 4 January 1930 in Nairobi, when the clocks went back by half an hour. -/
def turn : ℤ := -1261969200000000

def halfHour : ℤ := 1800000000

/-- `utcoffset`, in seconds; for Nairobi as in the time zone database. -/
def Zone.utcoffset : Zone → ℤ → ℤ
  | .utc, _ => 0
  | .nairobi, t =>
    if t < -1946168836000000 then 8836
    else if t < -1309746600000000 then 9000
    else if t < turn then 10800
    else if t < -1041388200000000 then 9000
    else if t < -865305900000000 then 9900
    else 10800

/-- What the clocks of a zone show. -/
def Zone.clock (z : Zone) (t : ℤ) : ℤ := t + z.utcoffset t * 1000000

/-- An aware `datetime`. -/
structure DateTime where
  instant : ℤ
  zone : Zone
  deriving DecidableEq, Repr

/-- `a < b`: by the clocks in one zone, by the instants in two. -/
def DateTime.lt (a b : DateTime) : Bool :=
  if a.zone = b.zone then decide (a.zone.clock a.instant < b.zone.clock b.instant)
  else decide (a.instant < b.instant)

/-- `a <= b`. -/
def DateTime.le (a b : DateTime) : Bool :=
  if a.zone = b.zone then decide (a.zone.clock a.instant ≤ b.zone.clock b.instant)
  else decide (a.instant ≤ b.instant)

/-- `r a b`, unless one of them is null. -/
def nullOr {α : Type} (r : α → α → Bool) : Option α → Option α → Bool
  | some a, some b => r a b
  | _, _ => true

/-! ### The stored row and the payload -/

/-- The window columns of a row. -/
structure WindowColumns where
  nominationsOpenAt : Option ℤ := none
  nominationsCloseAt : Option ℤ := none
  votingOpensAt : Option ℤ := none
  votingClosesAt : Option ℤ := none
  deriving DecidableEq, Repr

/-- `event_nomination_window_ordered`, `event_voting_window_ordered` and
`event_nominations_close_before_voting_opens`. -/
def WindowColumns.checks (w : WindowColumns) : Bool :=
  nullOr (fun a b => decide (a < b)) w.nominationsOpenAt w.nominationsCloseAt &&
    nullOr (fun a b => decide (a < b)) w.votingOpensAt w.votingClosesAt &&
      nullOr (fun a b => decide (a ≤ b)) w.nominationsCloseAt w.votingOpensAt

/-- The window fields of a payload: omitted, null, or an instant. -/
structure Payload where
  nominationsOpenAt : Option (Option ℤ) := none
  nominationsCloseAt : Option (Option ℤ) := none
  votingOpensAt : Option (Option ℤ) := none
  votingClosesAt : Option (Option ℤ) := none
  deriving DecidableEq, Repr

/-- The row that a create (`inst = none`) or an update saves. None of the fields is required, so
that a full update keeps what it omits as well. -/
def Payload.saved (p : Payload) (inst : Option WindowColumns) : WindowColumns :=
  let row := inst.getD {}
  { nominationsOpenAt := p.nominationsOpenAt.getD row.nominationsOpenAt
    nominationsCloseAt := p.nominationsCloseAt.getD row.nominationsCloseAt
    votingOpensAt := p.votingOpensAt.getD row.votingOpensAt
    votingClosesAt := p.votingClosesAt.getD row.votingClosesAt }

/-- `value(name)`: a field of the payload, else of the instance. -/
def value (sent : Option (Option ℤ)) (stored : Option (Option ℤ)) : Option DateTime :=
  match sent with
  | some v => v.map fun t => ⟨t, .nairobi⟩
  | none => (stored.getD none).map fun t => ⟨t, .utc⟩

/-- **The window errors of `EventSerializer.validate`.** -/
def windowErrors (inst : Option WindowColumns) (p : Payload) : Errors :=
  let nomOpen := value p.nominationsOpenAt (inst.map WindowColumns.nominationsOpenAt)
  let nomClose := value p.nominationsCloseAt (inst.map WindowColumns.nominationsCloseAt)
  let voteOpen := value p.votingOpensAt (inst.map WindowColumns.votingOpensAt)
  let voteClose := value p.votingClosesAt (inst.map WindowColumns.votingClosesAt)
  (if nullOr DateTime.lt nomOpen nomClose then []
    else [("nominations_close_at", "Must be after nominations_open_at.")]) ++
  (if nullOr DateTime.lt voteOpen voteClose then []
    else [("voting_closes_at", "Must be after voting_opens_at.")]) ++
  (if nullOr DateTime.le nomClose voteOpen then []
    else [("voting_opens_at", "Voting cannot open before nominations close.")])

/-! ### The clocks -/

/-- The two instants lie on the two sides of the turn, half an hour apart or less. -/
def Straddles (s t : ℤ) : Prop := s < turn ∧ turn ≤ t ∧ t ≤ s + halfHour

instance (s t : ℤ) : Decidable (Straddles s t) := inferInstanceAs (Decidable (_ ∧ _ ∧ _))

/-- Away from the turn the clocks show instants in their order. -/
theorem nairobi_clock_lt_iff {s t : ℤ} (h : ¬ Straddles s t) (h' : ¬ Straddles t s) :
    Zone.nairobi.clock s < Zone.nairobi.clock t ↔ s < t := by
  unfold Straddles turn halfHour at h h'
  simp only [Zone.clock, Zone.utcoffset, turn]
  split_ifs <;> omega

/-- Two `datetime`s are in the order of their instants. -/
def Ordered (a b : DateTime) : Prop :=
  a.zone = .nairobi → b.zone = .nairobi →
    ¬ Straddles a.instant b.instant ∧ ¬ Straddles b.instant a.instant

theorem Ordered.symm {a b : DateTime} (h : Ordered a b) : Ordered b a :=
  fun hb ha => (h ha hb).symm

/-- So are their clocks, in one zone. -/
theorem Ordered.clock_lt_iff {a b : DateTime} (h : Ordered a b) (hz : a.zone = b.zone) :
    a.zone.clock a.instant < b.zone.clock b.instant ↔ a.instant < b.instant := by
  rcases hzone : b.zone with _ | _
  · simp [hz, hzone, Zone.clock, Zone.utcoffset]
  · obtain ⟨h₁, h₂⟩ := h (hz.trans hzone) hzone
    rw [hz, hzone]
    exact nairobi_clock_lt_iff h₁ h₂

theorem lt_eq {a b : DateTime} (h : Ordered a b) : a.lt b = decide (a.instant < b.instant) := by
  unfold DateTime.lt
  split_ifs with hz
  · exact decide_eq_decide.mpr (h.clock_lt_iff hz)
  · rfl

theorem le_eq {a b : DateTime} (h : Ordered a b) : a.le b = decide (a.instant ≤ b.instant) := by
  unfold DateTime.le
  split_ifs with hz
  · refine decide_eq_decide.mpr ?_
    rw [← not_lt, ← not_lt, h.symm.clock_lt_iff hz.symm]
  · rfl

/-! ### The two checks -/

/-- The instants of two fields that the payload assigns do not straddle the turn. -/
def Apart (a b : Option (Option ℤ)) : Prop :=
  ∀ s t, a = some (some s) → b = some (some t) → ¬ Straddles s t ∧ ¬ Straddles t s

/-- **Away from the turn:** no two instants of the payload that are compared straddle it. -/
structure Payload.Steady (p : Payload) : Prop where
  nominations : Apart p.nominationsOpenAt p.nominationsCloseAt
  voting : Apart p.votingOpensAt p.votingClosesAt
  between : Apart p.nominationsCloseAt p.votingOpensAt

/-- A field that is compared has the instant that is saved. -/
theorem map_instant_value (sent : Option (Option ℤ)) (stored : Option (Option ℤ)) :
    (value sent stored).map DateTime.instant = sent.getD (stored.getD none) := by
  rcases sent with _ | v
  · simp [value, Function.comp_def]
  · simp [value, Function.comp_def]

/-- In the zone of the settings it comes from the payload. -/
theorem sent_of_zone {sent stored : Option (Option ℤ)} {a : DateTime}
    (h : value sent stored = some a) (hz : a.zone = .nairobi) : sent = some (some a.instant) := by
  rcases sent with _ | v
  · obtain ⟨t, -, rfl⟩ := Option.map_eq_some_iff.mp h
    simp at hz
  · obtain ⟨t, rfl, rfl⟩ := Option.map_eq_some_iff.mp h
    rfl

theorem ordered_value {a b s t : Option (Option ℤ)} (h : Apart a b) {x y : DateTime}
    (hx : value a s = some x) (hy : value b t = some y) : Ordered x y :=
  fun hxz hyz => h _ _ (sent_of_zone hx hxz) (sent_of_zone hy hyz)

/-- Two fields compared as `datetime`s and as what is saved. -/
theorem nullOr_value {r : DateTime → DateTime → Bool} {q : ℤ → ℤ → Bool}
    (hr : ∀ {x y : DateTime}, Ordered x y → r x y = q x.instant y.instant)
    {a b s t : Option (Option ℤ)} (h : Apart a b) :
    nullOr r (value a s) (value b t) = nullOr q (a.getD (s.getD none)) (b.getD (t.getD none)) := by
  rw [← map_instant_value, ← map_instant_value]
  rcases hx : value a s with _ | x
  · rfl
  · rcases hy : value b t with _ | y
    · rfl
    · exact hr (ordered_value h hx hy)

/-- A stored field, null when there is no instance. -/
theorem stored_eq (inst : Option WindowColumns) (f : WindowColumns → Option ℤ) (hf : f {} = none) :
    (inst.map f).getD none = f (inst.getD {}) := by
  cases inst with
  | none => exact hf.symm
  | some w => rfl

theorem ifs_eq_nil {a b c : Bool} {e₁ e₂ e₃ : String × String} :
    (if a then [] else [e₁]) ++ (if b then [] else [e₂]) ++ (if c then [] else [e₃]) =
      ([] : Errors) ↔
      (a && b && c) = true := by
  cases a <;> cases b <;> cases c <;> simp

/-- Away from the turn the errors are about the row that would be saved. -/
theorem windowErrors_eq (inst : Option WindowColumns) {p : Payload} (hp : p.Steady) :
    windowErrors inst p =
      (if nullOr (fun x y => decide (x < y)) (p.saved inst).nominationsOpenAt
          (p.saved inst).nominationsCloseAt then []
        else [("nominations_close_at", "Must be after nominations_open_at.")]) ++
      (if nullOr (fun x y => decide (x < y)) (p.saved inst).votingOpensAt
          (p.saved inst).votingClosesAt then []
        else [("voting_closes_at", "Must be after voting_opens_at.")]) ++
      (if nullOr (fun x y => decide (x ≤ y)) (p.saved inst).nominationsCloseAt
          (p.saved inst).votingOpensAt then []
        else [("voting_opens_at", "Voting cannot open before nominations close.")]) := by
  simp only [windowErrors]
  rw [nullOr_value (q := fun x y => decide (x < y)) lt_eq hp.nominations,
    nullOr_value (q := fun x y => decide (x < y)) lt_eq hp.voting,
    nullOr_value (q := fun x y => decide (x ≤ y)) le_eq hp.between, stored_eq inst _ rfl,
    stored_eq inst _ rfl, stored_eq inst _ rfl, stored_eq inst _ rfl]
  rfl

/-- **Away from the turn the serializer accepts the windows of a payload exactly when the database
accepts the row** that would be saved. -/
theorem windowErrors_eq_nil_iff (inst : Option WindowColumns) {p : Payload} (hp : p.Steady) :
    windowErrors inst p = [] ↔ (p.saved inst).checks = true := by
  rw [windowErrors_eq inst hp, ifs_eq_nil]
  rfl

/-! ### At the turn -/

/-- On the two sides of the turn, less than half an hour apart: the clocks show the later first. -/
def Within (s t : ℤ) : Prop := s < turn ∧ turn ≤ t ∧ t < s + halfHour

instance (s t : ℤ) : Decidable (Within s t) := inferInstanceAs (Decidable (_ ∧ _ ∧ _))

theorem Straddles.lt {s t : ℤ} (h : Straddles s t) : s < t := lt_of_lt_of_le h.1 h.2.1

theorem Within.lt {s t : ℤ} (h : Within s t) : s < t := lt_of_lt_of_le h.1 h.2.1

/-- When the clocks show one instant before another. Exactly half an hour apart they show the two
alike. -/
theorem nairobi_lt_iff (s t : ℤ) : Zone.nairobi.clock s < Zone.nairobi.clock t ↔
    ¬ Straddles s t ∧ (s < t ∨ Within t s) := by
  unfold Straddles Within turn halfHour
  simp only [Zone.clock, Zone.utcoffset, turn]
  split_ifs <;> omega

theorem nairobi_le_iff (s t : ℤ) : Zone.nairobi.clock s ≤ Zone.nairobi.clock t ↔
    ¬ Within s t ∧ (s ≤ t ∨ Straddles t s) := by
  have hboth : Straddles t s → ¬ Within s t := fun h h' => lt_asymm h.lt h'.lt
  rw [← not_lt, nairobi_lt_iff, ← not_lt]
  tauto

/-- Both fields are sent, not null, with instants in the relation. -/
def Sent (r : ℤ → ℤ → Prop) : Option (Option ℤ) → Option (Option ℤ) → Prop
  | some (some s), some (some t) => r s t
  | _, _ => False

instance (r : ℤ → ℤ → Prop) [DecidableRel r] : DecidableRel (Sent r)
  | some (some s), some (some t) => inferInstanceAs (Decidable (r s t))
  | some (some _), some none => inferInstanceAs (Decidable False)
  | some (some _), none => inferInstanceAs (Decidable False)
  | some none, _ => inferInstanceAs (Decidable False)
  | none, _ => inferInstanceAs (Decidable False)

/-- A comparison of two fields, one of which may come from the row: `back` are the instants in
order that it refuses, `forth` those out of order that it lets through. -/
theorem nullOr_value_iff {r : DateTime → DateTime → Bool} {q : ℤ → ℤ → Bool}
    {back forth : ℤ → ℤ → Prop}
    (hr : ∀ {x y : DateTime}, Ordered x y → r x y = q x.instant y.instant)
    (hturn : ∀ s t, r ⟨s, .nairobi⟩ ⟨t, .nairobi⟩ = true ↔ ¬ back s t ∧ (q s t = true ∨ forth s t))
    (a b s t : Option (Option ℤ)) :
    nullOr r (value a s) (value b t) = true ↔
      ¬ Sent back a b ∧
        (nullOr q (a.getD (s.getD none)) (b.getD (t.getD none)) = true ∨ Sent forth a b) := by
  have hplain : Apart a b → ¬ Sent back a b → ¬ Sent forth a b →
      (nullOr r (value a s) (value b t) = true ↔ ¬ Sent back a b ∧
        (nullOr q (a.getD (s.getD none)) (b.getD (t.getD none)) = true ∨ Sent forth a b)) := by
    intro h hb hf
    rw [nullOr_value hr h]
    simp [hb, hf]
  -- only two instants of the payload are compared by the clocks
  match a, b with
  | some (some x), some (some y) => exact hturn x y
  | none, _ => exact hplain (fun _ _ h => by cases h) id id
  | some none, _ => exact hplain (fun _ _ h => by cases h) id id
  | some (some _), none => exact hplain (fun _ _ _ h => by cases h) id id
  | some (some _), some none => exact hplain (fun _ _ _ h => by cases h) id id

/-- Two instants of the payload that are compared are in order and, at the turn, their clocks
are not. -/
def Payload.Swapped (p : Payload) : Prop :=
  Sent Straddles p.nominationsOpenAt p.nominationsCloseAt ∨
    Sent Straddles p.votingOpensAt p.votingClosesAt ∨
      Sent Within p.nominationsCloseAt p.votingOpensAt

instance (p : Payload) : Decidable p.Swapped := inferInstanceAs (Decidable (_ ∨ _ ∨ _))

/-- Every pair of the row that is out of order comes from the payload and, at the turn, its clocks
are in order. -/
def Payload.Masked (p : Payload) (inst : Option WindowColumns) : Prop :=
  let row := p.saved inst
  (nullOr (fun s t => decide (s < t)) row.nominationsOpenAt row.nominationsCloseAt = true ∨
      Sent (fun s t => Within t s) p.nominationsOpenAt p.nominationsCloseAt) ∧
    (nullOr (fun s t => decide (s < t)) row.votingOpensAt row.votingClosesAt = true ∨
        Sent (fun s t => Within t s) p.votingOpensAt p.votingClosesAt) ∧
      (nullOr (fun s t => decide (s ≤ t)) row.nominationsCloseAt row.votingOpensAt = true ∨
        Sent (fun s t => Straddles t s) p.nominationsCloseAt p.votingOpensAt)

instance (p : Payload) (inst : Option WindowColumns) : Decidable (p.Masked inst) :=
  inferInstanceAs (Decidable (_ ∧ _ ∧ _))

theorem masked_of_checks {p : Payload} {inst : Option WindowColumns}
    (h : (p.saved inst).checks = true) : p.Masked inst := by
  simp only [WindowColumns.checks, Bool.and_eq_true] at h
  exact ⟨.inl h.1.1, .inl h.1.2, .inl h.2⟩

/-- **What the serializer accepts**, of any payload. -/
theorem windowErrors_eq_nil (inst : Option WindowColumns) (p : Payload) :
    windowErrors inst p = [] ↔ ¬ p.Swapped ∧ p.Masked inst := by
  have hlt (s t : ℤ) : DateTime.lt ⟨s, .nairobi⟩ ⟨t, .nairobi⟩ = true ↔
      ¬ Straddles s t ∧ (decide (s < t) = true ∨ Within t s) := by
    simp [DateTime.lt, nairobi_lt_iff]
  have hle (s t : ℤ) : DateTime.le ⟨s, .nairobi⟩ ⟨t, .nairobi⟩ = true ↔
      ¬ Within s t ∧ (decide (s ≤ t) = true ∨ Straddles t s) := by
    simp [DateTime.le, nairobi_le_iff]
  simp only [windowErrors]
  rw [ifs_eq_nil, Bool.and_eq_true, Bool.and_eq_true,
    nullOr_value_iff (q := fun s t => decide (s < t)) lt_eq hlt,
    nullOr_value_iff (q := fun s t => decide (s < t)) lt_eq hlt,
    nullOr_value_iff (q := fun s t => decide (s ≤ t)) le_eq hle, stored_eq inst _ rfl,
    stored_eq inst _ rfl, stored_eq inst _ rfl, stored_eq inst _ rfl]
  unfold Payload.Swapped Payload.Masked Payload.saved
  tauto

/-- **The clocks do not mislead:** of windows in order none is swapped, and where some are not,
they are not all masked, or another pair is swapped. -/
structure Payload.Shown (p : Payload) (inst : Option WindowColumns) : Prop where
  ordered : (p.saved inst).checks = true → ¬ p.Swapped
  disordered : (p.saved inst).checks = false → p.Masked inst → p.Swapped

/-- **The serializer accepts the windows of a payload exactly when the database accepts the row**
that would be saved, precisely for the payloads whose clocks do not mislead. -/
theorem agrees_iff (inst : Option WindowColumns) (p : Payload) :
    (windowErrors inst p = [] ↔ (p.saved inst).checks = true) ↔ p.Shown inst := by
  rw [windowErrors_eq_nil]
  constructor
  · intro h
    refine ⟨fun hchecks => (h.mpr hchecks).1, fun hchecks hmasked => ?_⟩
    by_contra hswapped
    rw [h.mp ⟨hswapped, hmasked⟩] at hchecks
    cases hchecks
  · rintro ⟨hordered, hdisordered⟩
    constructor
    · rintro ⟨hswapped, hmasked⟩
      by_contra hchecks
      exact hswapped (hdisordered (Bool.not_eq_true _ ▸ hchecks) hmasked)
    · intro hchecks
      exact ⟨hordered hchecks, masked_of_checks hchecks⟩

/-- Nominations that open five minutes after the turn and close a quarter of an hour before it. -/
def reversed : Payload where
  nominationsOpenAt := some (some (turn + 300000000))
  nominationsCloseAt := some (some (turn - 900000000))

/-- The serializer accepts them, and the save fails. -/
theorem reversed_accepted :
    ¬ (windowErrors none reversed = [] ↔ (reversed.saved none).checks = true) := by
  decide

/-- Nominations that open a quarter of an hour before the turn and close five minutes after it. -/
def turned : Payload where
  nominationsOpenAt := some (some (turn - 900000000))
  nominationsCloseAt := some (some (turn + 300000000))

-- the serializer refuses a row that the database accepts
example : windowErrors none turned ≠ [] ∧ (turned.saved none).checks = true := by decide

/-! ### From the epoch on -/

/-- The window columns of an event. -/
def columns (e : Event) : WindowColumns where
  nominationsOpenAt := e.nominationsOpenAt.map Nat.cast
  nominationsCloseAt := e.nominationsCloseAt.map Nat.cast
  votingOpensAt := e.votingOpensAt.map Nat.cast
  votingClosesAt := e.votingClosesAt.map Nat.cast

/-- The window fields of the attributes. -/
def payload (a : EventAttrs) : Payload where
  nominationsOpenAt := a.nominationsOpenAt.map (Option.map Nat.cast)
  nominationsCloseAt := a.nominationsCloseAt.map (Option.map Nat.cast)
  votingOpensAt := a.votingOpensAt.map (Option.map Nat.cast)
  votingClosesAt := a.votingClosesAt.map (Option.map Nat.cast)

/-- The turn was before the epoch. -/
theorem apart_cast (a b : Option (Option Time)) :
    Apart (a.map (Option.map Nat.cast)) (b.map (Option.map Nat.cast)) := by
  have hepoch : ∀ (n : ℕ) (t : ℤ), ¬ Straddles n t := by
    rintro n t ⟨hn, -⟩
    unfold turn at hn
    omega
  intro s t hs ht
  obtain ⟨v, -, hv⟩ := Option.map_eq_some_iff.mp hs
  obtain ⟨m, -, rfl⟩ := Option.map_eq_some_iff.mp hv
  obtain ⟨w, -, hw⟩ := Option.map_eq_some_iff.mp ht
  obtain ⟨n, -, rfl⟩ := Option.map_eq_some_iff.mp hw
  exact ⟨hepoch m _, hepoch n _⟩

theorem steady_payload (a : EventAttrs) : (payload a).Steady :=
  ⟨apart_cast _ _, apart_cast _ _, apart_cast _ _⟩

theorem nullOr_lt_cast (a b : Option Time) :
    nullOr (fun x y : ℤ => decide (x < y)) (a.map Nat.cast) (b.map Nat.cast) = nullOrLt a b := by
  rcases a with _ | a <;> rcases b with _ | b <;> simp [nullOr, nullOrLt]

theorem nullOr_le_cast (a b : Option Time) :
    nullOr (fun x y : ℤ => decide (x ≤ y)) (a.map Nat.cast) (b.map Nat.cast) = nullOrLe a b := by
  rcases a with _ | a <;> rcases b with _ | b <;> simp [nullOr, nullOrLe]

/-- The window constraints of an event, among its checks. -/
theorem checks_columns (e : Event) : (columns e).checks =
    (e.nominationWindowOrdered && e.votingWindowOrdered &&
      e.nominationsCloseBeforeVotingOpens) := by
  unfold WindowColumns.checks columns
  rw [nullOr_lt_cast, nullOr_lt_cast, nullOr_le_cast]
  rfl

/-- The merged fields, as integers. -/
theorem saved_payload (inst : Option Event) (a : EventAttrs) :
    (payload a).saved (inst.map columns) =
    { nominationsOpenAt :=
        (windowValue a.nominationsOpenAt (inst.map Event.nominationsOpenAt)).map Nat.cast
      nominationsCloseAt :=
        (windowValue a.nominationsCloseAt (inst.map Event.nominationsCloseAt)).map Nat.cast
      votingOpensAt := (windowValue a.votingOpensAt (inst.map Event.votingOpensAt)).map Nat.cast
      votingClosesAt :=
        (windowValue a.votingClosesAt (inst.map Event.votingClosesAt)).map Nat.cast } := by
  have hmerge : ∀ (sent : Option (Option Time)) (stored : Option Time),
      (sent.map (Option.map Nat.cast)).getD (stored.map Nat.cast) =
        (sent.getD stored).map (Nat.cast (R := ℤ)) := by
    intro sent stored
    cases sent <;> rfl
  rcases inst with _ | e
  · simp only [Payload.saved, payload, windowValue, Option.map_none, Option.getD_none, ← hmerge]
  · simp only [Payload.saved, payload, columns, windowValue, Option.map_some,
      Option.getD_some, hmerge]

/-- **On instants from the epoch on** this is `Serializers.windowErrors`. -/
theorem windowErrors_payload (inst : Option Event) (a : EventAttrs) :
    windowErrors (inst.map columns) (payload a) = Serializers.windowErrors inst a := by
  rw [windowErrors_eq _ (steady_payload a), saved_payload]
  simp only [nullOr_lt_cast, nullOr_le_cast]
  rfl

/-- **An accepted update** of an event satisfies its window constraints. -/
theorem checks_assign_iff (e : Event) (a : EventAttrs) : Serializers.windowErrors (some e) a = [] ↔
    ((a.assign e).nominationWindowOrdered && (a.assign e).votingWindowOrdered &&
      (a.assign e).nominationsCloseBeforeVotingOpens) = true := by
  have hsaved : (payload a).saved (some (columns e)) = columns (a.assign e) :=
    saved_payload (some e) a
  rw [← windowErrors_payload, windowErrors_eq, ifs_eq_nil, ← checks_columns, ← hsaved]
  · rfl
  · exact steady_payload a

end KwAwards.Events.Windows
