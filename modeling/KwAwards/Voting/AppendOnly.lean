import KwAwards.Voting.Votes

/-! # Votes are append-only against arbitrary SQL

A `Statement` on `voting_vote` inserts rows (with or without `ON CONFLICT`), updates any rows to
anything, or deletes rows; `exec` fires the trigger on every row touched and takes effect as a whole
or not at all. `kept_execute` is what one statement leaves of the rows, `kept_history` what any
number of statements leave of them. -/

namespace KwAwards.Voting.AppendOnly

open KwAwards.Common.Base KwAwards.Common.Exceptions KwAwards.Voting.Votes
open KwAwards.Voting.Votes.VoteTable

/-- A statement on `voting_vote`. `onConflict r v` is the version `DO UPDATE` gives to the row `r`
that clashes with the proposed row `v`, `none` is `DO NOTHING`; `set` is `none` on the rows that the
`WHERE` clause leaves out. -/
inductive Statement
  | insert (values : List Vote) (onConflict : Option (Vote → Vote → Option Vote))
  | update (set : Vote → Option Vote)
  | delete (cond : Vote → Bool)

/-- `INSERT` of the proposed row `v`. -/
def insertOne (onConflict : Option (Vote → Vote → Option Vote)) (t : VoteTable) (v : Vote) :
    Except DbError VoteTable :=
  match onConflict, t.rows.find? fun r => Clash r v with
  | some f, some r =>
    if v.Checks then
      match f r v with
      | some new => t.updateRow r new
      | none => .ok t
    else .error v.checkError
  | _, _ => t.insertRow v

/-- `INSERT` of the proposed rows, one after the other. -/
def insertAll (onConflict : Option (Vote → Vote → Option Vote)) :
    List Vote → VoteTable → Except DbError VoteTable
  | [], t => .ok t
  | v :: rest, t =>
    match insertOne onConflict t v with
    | .ok t' => insertAll onConflict rest t'
    | .error e => .error e

/-- `UPDATE` of the listed rows, one after the other. -/
def updateAll (set : Vote → Option Vote) : List Vote → VoteTable → Except DbError VoteTable
  | [], t => .ok t
  | old :: rest, t =>
    match set old with
    | none => updateAll set rest t
    | some new =>
      match t.updateRow old new with
      | .ok t' => updateAll set rest t'
      | .error e => .error e

/-- One statement: the new table, or the error that undoes it. -/
def exec (t : VoteTable) : Statement → Except DbError VoteTable
  | .insert values onConflict => insertAll onConflict values t
  | .update set => updateAll set t.rows t
  | .delete cond => if t.rows.any cond then .error appendOnlyDelete else .ok t

/-- The table after a statement; a refused one changes nothing. -/
def execute (t : VoteTable) (st : Statement) : VoteTable :=
  match exec t st with
  | .ok t' => t'
  | .error _ => t

/-- The table after a list of statements. -/
def history (t : VoteTable) (sts : List Statement) : VoteTable := sts.foldl execute t

/-- Every row of `t` has a following version in `t'`. -/
def Kept (t t' : VoteTable) : Prop := ∀ r ∈ t.rows, ∃ r' ∈ t'.rows, Follows r r'

theorem Kept.refl (t : VoteTable) : Kept t t := fun r hr => ⟨r, hr, Follows.refl r⟩

theorem Kept.trans {t u w : VoteTable} (h : Kept t u) (h' : Kept u w) : Kept t w := by
  intro r hr
  obtain ⟨r', hr', hf⟩ := h r hr
  obtain ⟨r'', hr'', hf'⟩ := h' r' hr'
  exact ⟨r'', hr'', hf.trans hf'⟩

theorem kept_insertRow {t t' : VoteTable} {v : Vote} (h : t.insertRow v = .ok t') : Kept t t' := by
  intro r hr
  refine ⟨r, ?_, Follows.refl r⟩
  rw [(insertRow_ok.mp h).2.2]
  exact List.mem_append_left _ hr

theorem kept_insertOne {f : Option (Vote → Vote → Option Vote)} {t t' : VoteTable} {v : Vote}
    (h : insertOne f t v = .ok t') : Kept t t' := by
  unfold insertOne at h
  split at h
  · next r hr =>
    split_ifs at h
    split at h
    · exact follows_of_updateRow (List.mem_of_find?_eq_some hr) h
    · obtain rfl := Except.ok.inj h
      exact Kept.refl t
  · exact kept_insertRow h

theorem kept_insertAll {f : Option (Vote → Vote → Option Vote)} {vs : List Vote}
    {t t' : VoteTable} (h : insertAll f vs t = .ok t') : Kept t t' := by
  induction vs generalizing t with
  | nil =>
    obtain rfl := Except.ok.inj h
    exact Kept.refl t
  | cons v rest ih =>
    unfold insertAll at h
    split at h
    · next u hu => exact (kept_insertOne hu).trans (ih h)
    · simp at h

/-- The rows still to be updated are those of the statement's start: an update of one row leaves
the others as they are. -/
theorem kept_updateAll {set : Vote → Option Vote} {olds : List Vote} {t t' : VoteTable}
    (hn : (olds.map Vote.id).Nodup) (hm : ∀ r ∈ olds, r ∈ t.rows)
    (h : updateAll set olds t = .ok t') : Kept t t' := by
  induction olds generalizing t with
  | nil =>
    obtain rfl := Except.ok.inj h
    exact Kept.refl t
  | cons old rest ih =>
    obtain ⟨hold, hn⟩ := List.nodup_cons.mp hn
    have hrest : ∀ r ∈ rest, r ∈ t.rows := fun r hr => hm r (List.mem_cons_of_mem _ hr)
    unfold updateAll at h
    split at h
    · exact ih hn hrest h
    · split at h
      · next u hu =>
        have hrows := (updateRow_ok.mp hu).2.2.2
        have hstill : ∀ r ∈ rest, r ∈ u.rows := by
          intro r hr
          have hne : r.id ≠ old.id := fun he => hold (List.mem_map.mpr ⟨r, hr, he⟩)
          rw [hrows]
          exact List.mem_map.mpr ⟨r, hrest r hr, if_neg hne⟩
        have hfirst : Kept t u := follows_of_updateRow (hm old List.mem_cons_self) hu
        exact hfirst.trans (ih hn hstill h)
      · simp at h

/-- **One statement** leaves every row a following version. -/
theorem kept_execute (t : VoteTable) (st : Statement) : Kept t (execute t st) := by
  unfold execute
  split
  · next t' h =>
    cases st with
    | insert values onConflict => exact kept_insertAll h
    | update set => exact kept_updateAll (nodup_ids t) (fun r hr => hr) h
    | delete cond =>
      simp only [exec] at h
      split_ifs at h
      obtain rfl := Except.ok.inj h
      exact Kept.refl t
  · exact Kept.refl t

/-- **Any number of statements** leave every row a following version. -/
theorem kept_history (t : VoteTable) (sts : List Statement) : Kept t (history t sts) := by
  induction sts generalizing t with
  | nil => exact Kept.refl t
  | cons st sts ih => exact (kept_execute t st).trans (ih (execute t st))

/-- **Votes are append-only.** A row present after some statements is present after any later ones
with the same immutable columns; once it is voided its voiding columns are as they were then, with
a reason. -/
theorem votes_append_only (t : VoteTable) (before after : List Statement) (r : Vote)
    (hr : r ∈ (history t before).rows) :
    ∃ r' ∈ (history t (before ++ after)).rows, r'.immutable = r.immutable ∧
      (r.voidedAt ≠ none → r'.voiding = r.voiding ∧ r'.voidReason ≠ "") := by
  have happ : history t (before ++ after) = history (history t before) after :=
    List.foldl_append ..
  obtain ⟨r', hr', himm, hvoid⟩ := kept_history (history t before) after r hr
  refine ⟨r', happ ▸ hr', himm, fun hv => ⟨hvoid hv, ?_⟩⟩
  have hat : r'.voidedAt = r.voidedAt := congrArg Voiding.voidedAt (hvoid hv)
  have hreason := ((history (history t before) after).checked r' hr').2.2.2
  rw [Vote.voidHasReason, hat] at hreason
  rcases hs : r.voidedAt with _ | at_
  · exact absurd hs hv
  · simpa [hs] using hreason

/-- A vote with the keys 7. -/
def sampleVote : Vote where
  id := 7
  event := 1
  award := 2
  nomination := 3
  voter := 4
  seq := 7
  createdAt := 100

/-- Voids every vote. -/
def voidAll : Statement :=
  .update fun v => some { v with voidedAt := some 200, voidedBy := some 5, voidReason := "fraud" }

theorem votes_append_only_sample : ∃ r' ∈ (history .empty
    [.insert [sampleVote] none, voidAll, .update fun v => some { v with voidReason := "" },
      .delete fun _ => true]).rows,
    r'.immutable = sampleVote.immutable ∧ r'.voidReason ≠ "" := by
  have hr : { sampleVote with voidedAt := some 200, voidedBy := some 5, voidReason := "fraud" } ∈
      (history .empty [.insert [sampleVote] none, voidAll]).rows := by decide
  obtain ⟨r', hr', himm, hvoid⟩ := votes_append_only .empty [.insert [sampleVote] none, voidAll]
    [.update fun v => some { v with voidReason := "" }, .delete fun _ => true] _ hr
  exact ⟨r', hr', himm, (hvoid (by decide)).2⟩

end KwAwards.Voting.AppendOnly
