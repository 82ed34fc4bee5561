import KwAwards.Common.Exceptions

/-! # The vote table as PostgreSQL keeps it

A `VoteTable` carries what the database enforces on its rows: the check constraints (`Checks`) and
the unique indexes, the partial one on `(voter, award)` of the non-voided free votes included
(`Clash`). Rows enter by `insertRow` and change by `updateRow`, which fires the append-only trigger.

`Follows r r'` is what the trigger leaves open for a later version `r'` of a row `r`. -/

namespace KwAwards.Voting.Votes

open KwAwards.Lib.Tables KwAwards.Common.Base KwAwards.Common.Exceptions

inductive VoteSource
  | free
  | paid
  deriving DecidableEq, Repr

/-- A row of `voting_vote`. -/
structure Vote where
  id : Id
  event : Id
  award : Id
  nomination : Id
  voter : Id
  source : VoteSource := .free
  quantity : ℕ := 1
  payment : Option Id := none
  ipAddress : Option String := none
  userAgent : String := ""
  voidedAt : Option Time := none
  voidedBy : Option Id := none
  voidReason : String := ""
  seq : ℕ
  createdAt : Time
  updatedAt : Time := 0
  deriving DecidableEq, Repr

/-- The columns that may not change after the insert. -/
structure Immutable where
  id : Id
  event : Id
  award : Id
  nomination : Id
  voter : Id
  source : VoteSource
  quantity : ℕ
  payment : Option Id
  ipAddress : Option String
  userAgent : String
  createdAt : Time
  seq : ℕ
  deriving DecidableEq, Repr

/-- The voiding columns. -/
structure Voiding where
  voidedAt : Option Time
  voidedBy : Option Id
  voidReason : String
  deriving DecidableEq, Repr

namespace Vote

/-- The row value the trigger compares. -/
def immutable (v : Vote) : Immutable :=
  { id := v.id, event := v.event, award := v.award, nomination := v.nomination, voter := v.voter
    source := v.source, quantity := v.quantity, payment := v.payment, ipAddress := v.ipAddress
    userAgent := v.userAgent, createdAt := v.createdAt, seq := v.seq }

def voiding (v : Vote) : Voiding :=
  { voidedAt := v.voidedAt, voidedBy := v.voidedBy, voidReason := v.voidReason }

/-- A vote that counts. -/
def active (v : Vote) : Bool := v.voidedAt.isNone

/-- The condition of the partial unique index. -/
def activeFree (v : Vote) : Bool := decide (v.source = .free) && v.active

/-- `vote_source_rules`. -/
def sourceRules (v : Vote) : Bool :=
  (decide (v.source = .free) && decide (v.quantity = 1) && v.payment.isNone) ||
    (decide (v.source = .paid) && v.payment.isSome)

/-- `vote_quantity_positive`. -/
def quantityPositive (v : Vote) : Bool := decide (1 ≤ v.quantity)

/-- `vote_void_has_reason`. -/
def voidHasReason (v : Vote) : Bool := v.voidedAt.isNone || decide (v.voidReason ≠ "")

/-- The lengths of `varchar(300)` and `varchar(500)`. -/
def fits (v : Vote) : Bool :=
  decide (v.userAgent.length ≤ 300) && decide (v.voidReason.length ≤ 500)

/-- The column types and the check constraints. -/
def Checks (v : Vote) : Prop :=
  v.fits ∧ v.quantityPositive ∧ v.sourceRules ∧ v.voidHasReason

instance (v : Vote) : Decidable v.Checks := by unfold Checks; infer_instance

/-- What is answered for a row that fails `Checks`. -/
def checkError (v : Vote) : DbError :=
  if ¬ v.fits then .stringTooLong
  else if ¬ v.quantityPositive then .checkViolation "vote_quantity_positive"
  else if ¬ v.sourceRules then .checkViolation "vote_source_rules"
  else .checkViolation "vote_void_has_reason"

theorem quantity_of_free {v : Vote} (h : v.Checks) (hs : v.source = .free) : v.quantity = 1 := by
  have hrules := h.2.2.1
  simp only [sourceRules, hs, decide_true, Bool.true_and, Bool.or_eq_true, Bool.and_eq_true,
    decide_eq_true_eq, reduceCtorEq, false_and, or_false] at hrules
  exact hrules.1

end Vote

/-- Two rows that no unique index lets stand together: the primary key, `seq`, and
`vote_one_active_free_per_voter_per_award`. -/
def Clash (a b : Vote) : Prop :=
  a.id = b.id ∨ a.seq = b.seq ∨
    (a.activeFree ∧ b.activeFree ∧ a.voter = b.voter ∧ a.award = b.award)

instance (a b : Vote) : Decidable (Clash a b) := by unfold Clash; infer_instance

theorem Clash.symm {a b : Vote} (h : Clash a b) : Clash b a := by
  rcases h with h | h | ⟨ha, hb, hv, hw⟩
  · exact Or.inl h.symm
  · exact Or.inr (Or.inl h.symm)
  · exact Or.inr (Or.inr ⟨hb, ha, hv.symm, hw.symm⟩)

/-- **The vote table**, with what the indexes and constraints enforce. -/
structure VoteTable where
  rows : List Vote
  unique : rows.Pairwise fun a b => ¬ Clash a b
  checked : ∀ v ∈ rows, v.Checks

namespace VoteTable

theorem ext_rows {t u : VoteTable} (h : t.rows = u.rows) : t = u := by
  cases t; cases u; cases h; rfl

/-- The table without rows. -/
def empty : VoteTable := ⟨[], List.Pairwise.nil, by simp⟩

/-- The rows that satisfy a condition. -/
def filter (t : VoteTable) (p : Vote → Bool) : VoteTable where
  rows := t.rows.filter p
  unique := t.unique.sublist List.filter_sublist
  checked := fun v hv => t.checked v (List.mem_of_mem_filter hv)

@[simp] theorem rows_filter (t : VoteTable) (p : Vote → Bool) :
    (t.filter p).rows = t.rows.filter p := rfl

/-- The row with a primary key. -/
def get? (t : VoteTable) (id : Id) : Option Vote := t.rows.find? fun v => v.id = id

theorem eq_of_clash {t : VoteTable} {a b : Vote} (ha : a ∈ t.rows) (hb : b ∈ t.rows)
    (h : Clash a b) : a = b := by
  by_contra hne
  have hsymm : Std.Symm fun a b : Vote => ¬ Clash a b := ⟨fun _ _ hn hc => hn hc.symm⟩
  exact t.unique.forall ha hb hne h

theorem eq_of_id {t : VoteTable} {a b : Vote} (ha : a ∈ t.rows) (hb : b ∈ t.rows)
    (h : a.id = b.id) : a = b :=
  eq_of_clash ha hb (Or.inl h)

theorem get?_eq_some {t : VoteTable} {id : Id} {v : Vote} :
    t.get? id = some v ↔ v ∈ t.rows ∧ v.id = id := by
  constructor
  · intro h
    exact ⟨List.mem_of_find?_eq_some h, by simpa using List.find?_some h⟩
  · rintro ⟨hv, rfl⟩
    cases hf : t.get? v.id with
    | none => have := List.find?_eq_none.mp hf v hv; simp at this
    | some w =>
      have hw : w.id = v.id := by simpa using List.find?_some hf
      rw [eq_of_id (List.mem_of_find?_eq_some hf) hv hw]

theorem get?_eq_none {t : VoteTable} {id : Id} : t.get? id = none ↔ ∀ v ∈ t.rows, v.id ≠ id := by
  simp [get?, List.find?_eq_none]

theorem nodup_ids (t : VoteTable) : (t.rows.map Vote.id).Nodup := by
  rw [List.Nodup, List.pairwise_map]
  exact t.unique.imp fun hn he => hn (Or.inl he)

/-- Where a row stands, before and after it is replaced. -/
theorem exists_split {t : VoteTable} {v : Vote} (hv : v ∈ t.rows) (new : Vote) :
    ∃ l₁ l₂, t.rows = l₁ ++ v :: l₂ ∧
      (t.rows.map fun r => if r.id = v.id then new else r) = l₁ ++ new :: l₂ := by
  obtain ⟨l₁, l₂, hsplit⟩ := List.append_of_mem hv
  have hn := t.nodup_ids
  rw [hsplit, List.map_append, List.map_cons, List.nodup_append] at hn
  obtain ⟨-, hn₂, hn⟩ := hn
  have h₁ : ∀ r ∈ l₁, (if r.id = v.id then new else r) = r := fun r hr =>
    if_neg (hn r.id (List.mem_map_of_mem hr) v.id List.mem_cons_self)
  have h₂ : ∀ r ∈ l₂, (if r.id = v.id then new else r) = r := fun r hr =>
    if_neg fun he : r.id = v.id => (List.nodup_cons.mp hn₂).1 (he ▸ List.mem_map_of_mem hr)
  refine ⟨l₁, l₂, hsplit, ?_⟩
  rw [hsplit, List.map_append, List.map_cons, if_pos rfl, List.map_congr_left h₁,
    List.map_congr_left h₂, List.map_id', List.map_id']

/-- At most one non-voided free vote of a voter in an award. -/
theorem activeFree_unique {t : VoteTable} {a b : Vote} (ha : a ∈ t.rows) (hb : b ∈ t.rows)
    (haf : a.activeFree) (hbf : b.activeFree) (hv : a.voter = b.voter) (hw : a.award = b.award) :
    a = b :=
  eq_of_clash ha hb (Or.inr (Or.inr ⟨haf, hbf, hv, hw⟩))

/-! ### Inserting a row -/

/-- `INSERT` of one row. -/
def insertRow (t : VoteTable) (v : Vote) : Except DbError VoteTable :=
  if hv : v.Checks then
    if hc : ∀ r ∈ t.rows, ¬ Clash r v then
      .ok {
        rows := t.rows ++ [v]
        unique := by
          rw [List.pairwise_append]
          exact ⟨t.unique, by simp, by simpa using hc⟩
        checked := by
          intro w hw
          rcases List.mem_append.mp hw with hw | hw
          · exact t.checked w hw
          · rw [List.mem_singleton.mp hw]; exact hv }
    else .error .uniqueViolation
  else .error v.checkError

theorem insertRow_ok {t t' : VoteTable} {v : Vote} : t.insertRow v = .ok t' ↔
    v.Checks ∧ (∀ r ∈ t.rows, ¬ Clash r v) ∧ t'.rows = t.rows ++ [v] := by
  unfold insertRow
  split_ifs with hv hc
  · simp only [Except.ok.injEq, hv, true_and]
    exact ⟨fun e => e ▸ ⟨hc, rfl⟩, fun h => ext_rows h.2.symm⟩
  · simp [hc]
  · simp [hv]

/-- A row that fits is refused by a unique index or not at all. -/
theorem insertRow_error {t : VoteTable} {v : Vote} {e : DbError} (hv : v.Checks)
    (h : t.insertRow v = .error e) : e = .uniqueViolation ∧ ∃ r ∈ t.rows, Clash r v := by
  unfold insertRow at h
  rw [dif_pos hv] at h
  split_ifs at h with hc
  push Not at hc
  exact ⟨by simpa using h.symm, hc⟩

/-! ### The append-only trigger -/

/-- `voting_vote_append_only` before an `UPDATE`; `≠` on rows with nulls is `IS DISTINCT FROM`. -/
def appendOnly (old new : Vote) : Except DbError Vote :=
  if new.immutable ≠ old.immutable then
    .error (.raiseException "voting_vote is append-only: only the voiding columns may change")
  else if old.voidedAt ≠ none ∧ (new.voidedAt ≠ old.voidedAt ∨ new.voidReason ≠ old.voidReason ∨
      new.voidedBy ≠ old.voidedBy) then
    .error (.raiseException "voting_vote: a voided vote cannot be changed")
  else .ok new

/-- `voting_vote_append_only` before a `DELETE`. -/
def appendOnlyDelete : DbError :=
  .raiseException "voting_vote is append-only: DELETE is not allowed"

/-- What a later version of a row keeps: the immutable columns, and the voiding ones once voided. -/
def Follows (r r' : Vote) : Prop :=
  r'.immutable = r.immutable ∧ (r.voidedAt ≠ none → r'.voiding = r.voiding)

theorem Follows.refl (r : Vote) : Follows r r := ⟨rfl, fun _ => rfl⟩

theorem Follows.trans {a b c : Vote} (hab : Follows a b) (hbc : Follows b c) : Follows a c := by
  refine ⟨hbc.1.trans hab.1, fun ha => ?_⟩
  have hv := hab.2 ha
  have hb : b.voidedAt ≠ none := by
    have : b.voidedAt = a.voidedAt := congrArg Voiding.voidedAt hv
    rwa [this]
  exact (hbc.2 hb).trans hv

/-- **The trigger lets through exactly the versions that follow.** -/
theorem appendOnly_ok {old new v : Vote} :
    appendOnly old new = .ok v ↔ v = new ∧ Follows old new := by
  unfold appendOnly Follows Vote.voiding
  split_ifs with h1 h2
  · simp [h1]
  · simp only [Voiding.mk.injEq, false_iff, not_and]
    rintro - - hf
    obtain ⟨ha, hr, hb⟩ := hf h2.1
    rcases h2.2 with h | h | h
    · exact h ha
    · exact h hb
    · exact h hr
  · push Not at h1 h2
    simp only [Except.ok.injEq, h1, Voiding.mk.injEq, true_and]
    exact ⟨fun e => ⟨e.symm, fun ho => ⟨(h2 ho).1, (h2 ho).2.2, (h2 ho).2.1⟩⟩, fun e => e.1.symm⟩

/-! ### Updating a row -/

/-- `UPDATE` of the row `old` to `new`. -/
def updateRow (t : VoteTable) (old new : Vote) : Except DbError VoteTable :=
  match h : appendOnly old new with
  | .error e => .error e
  | .ok _ =>
    if hv : new.Checks then
      if hc : ∀ r ∈ t.rows, r.id ≠ old.id → ¬ Clash r new then
        .ok {
          rows := t.rows.map fun r => if r.id = old.id then new else r
          unique := by
            rw [List.pairwise_map]
            refine t.unique.imp_of_mem fun {a b} ha hb hab => ?_
            split_ifs with h1 h2 h2
            · exact absurd (Or.inl (h1.trans h2.symm)) hab
            · exact fun hcl => hc b hb h2 hcl.symm
            · exact hc a ha h1
            · exact hab
          checked := by
            intro w hw
            obtain ⟨r, hr, rfl⟩ := List.mem_map.mp hw
            split_ifs
            · exact hv
            · exact t.checked r hr }
      else .error .uniqueViolation
    else .error new.checkError

theorem updateRow_ok {t t' : VoteTable} {old new : Vote} : t.updateRow old new = .ok t' ↔
    Follows old new ∧ new.Checks ∧ (∀ r ∈ t.rows, r.id ≠ old.id → ¬ Clash r new) ∧
      t'.rows = t.rows.map fun r => if r.id = old.id then new else r := by
  unfold updateRow
  split
  · next e h =>
    simp only [reduceCtorEq, false_iff]
    rintro ⟨hf, -⟩
    rw [appendOnly_ok.mpr ⟨rfl, hf⟩] at h
    simp at h
  · next v h =>
    have hf := (appendOnly_ok.mp h).2
    split_ifs with hv hc
    · simp only [Except.ok.injEq, hf, hv, true_and]
      exact ⟨fun e => e ▸ ⟨hc, rfl⟩, fun h => ext_rows h.2.symm⟩
    · simp [hc]
    · simp [hv]

/-- Every row has a following version after the update of one of them. -/
theorem follows_of_updateRow {t t' : VoteTable} {old new : Vote} (hold : old ∈ t.rows)
    (h : t.updateRow old new = .ok t') : ∀ r ∈ t.rows, ∃ r' ∈ t'.rows, Follows r r' := by
  obtain ⟨hf, -, -, hrows⟩ := updateRow_ok.mp h
  intro r hr
  by_cases hid : r.id = old.id
  · refine ⟨new, ?_, eq_of_id hr hold hid ▸ hf⟩
    rw [hrows]
    exact List.mem_map.mpr ⟨r, hr, if_pos hid⟩
  · refine ⟨r, ?_, Follows.refl r⟩
    rw [hrows]
    exact List.mem_map.mpr ⟨r, hr, if_neg hid⟩

end VoteTable

end KwAwards.Voting.Votes
