import KwAwards.Lib.Ranking
import KwAwards.Voting.Results

/-! # Ranking a tally

`_rank` sorts the entries in place and then sets the rank of one entry after the other, counting in
the list it is writing to (`assignRanks`). A rank that is set is not looked at, so the loop gives
every entry its `place` by votes (`rankInPlace_eq`). What is shown is a competition ranking
(`rank_isRanking`). -/

namespace KwAwards.Voting.Ranking

open KwAwards.Lib.Ranking KwAwards.Voting.Results

/-- An entry while it is ranked: the key `rank` is missing until it is set. -/
structure Slot extends Entry where
  rank : Option ℕ := none
  deriving DecidableEq, Repr

def Slot.ofEntry (e : Entry) : Slot := { e with }

def Slot.ofRanked (e : RankedEntry) : Slot := { e with rank := some e.rank }

/-- `entry["rank"] = 1 + sum(1 for other in entries if other["votes"] > entry["votes"])` for the
entry at a position. -/
def setRank (entries : List Slot) (i : ℕ) : List Slot :=
  entries.modify i fun entry =>
    { entry with rank := some (1 + (entries.filter fun other => entry.votes < other.votes).length) }

/-- The loop over the entries. -/
def assignRanks (entries : List Slot) : List Slot :=
  (List.range entries.length).foldl setRank entries

/-- `_rank` as it runs. -/
def rankInPlace (lower : String → String) (entries : List Entry) : List Slot :=
  assignRanks ((entries.mergeSort (Entry.precedes lower)).map .ofEntry)

/-- The entries after `i` rounds: the first `i` of them have their places. -/
def ranked (entries : List Entry) (i : ℕ) : List Slot :=
  (entries.take i).map (fun e => { e with rank := some (place Entry.votes entries e) }) ++
    (entries.drop i).map .ofEntry

/-- Ranks that are set do not change a place. -/
theorem length_higher (entries : List Entry) (i v : ℕ) :
    ((ranked entries i).filter fun other => v < other.votes).length =
      (entries.filter fun other => v < other.votes).length := by
  have hset : ∀ (g : Entry → Slot) (l : List Entry), (∀ e, (g e).votes = e.votes) →
      ((l.map g).filter fun other => v < other.votes).length =
        (l.filter fun other => v < other.votes).length := by
    intro g l hg
    rw [List.filter_map, List.length_map]
    exact congrArg List.length (List.filter_congr fun e _ => by rw [Function.comp_apply, hg])
  calc ((ranked entries i).filter fun other => v < other.votes).length
      = ((entries.take i).filter fun other => v < other.votes).length +
          ((entries.drop i).filter fun other => v < other.votes).length := by
        unfold ranked
        rw [List.filter_append, List.length_append, hset _ _ fun _ => rfl, hset _ _ fun _ => rfl]
    _ = (entries.filter fun other => v < other.votes).length := by
        rw [← List.length_append, ← List.filter_append, List.take_append_drop]

theorem modify_append_cons (f : Slot → Slot) {l₁ : List Slot} {i : ℕ} (h : l₁.length = i) (a : Slot)
    (l₂ : List Slot) : (l₁ ++ a :: l₂).modify i f = l₁ ++ f a :: l₂ :=
  h ▸ List.modifyTailIdx_add (List.modifyHead f) 0 l₁ (a :: l₂)

/-- One round sets one more rank. -/
theorem setRank_ranked {entries : List Entry} {i : ℕ} (h : i < entries.length) :
    setRank (ranked entries i) i = ranked entries (i + 1) := by
  have hlen : ((entries.take i).map fun e =>
      ({ e with rank := some (place Entry.votes entries e) } : Slot)).length = i := by
    rw [List.length_map, List.length_take, min_eq_left h.le]
  have hdrop : entries.drop i = entries[i] :: entries.drop (i + 1) := List.drop_eq_getElem_cons h
  have htake : entries.take (i + 1) = entries.take i ++ [entries[i]] :=
    List.take_succ_eq_append_getElem h
  unfold setRank
  simp only [length_higher]
  unfold ranked
  rw [hdrop, htake, List.map_cons, List.map_append, List.append_assoc]
  exact modify_append_cons _ hlen _ _

theorem foldl_setRank (entries : List Entry) {n : ℕ} (h : n ≤ entries.length) :
    (List.range n).foldl setRank (entries.map .ofEntry) = ranked entries n := by
  induction n with
  | zero => simp [ranked]
  | succ n ih =>
    rw [List.range_succ, List.foldl_append, ih (by omega)]
    exact setRank_ranked h

/-- **The loop in place** gives the entries of `rank`. -/
theorem rankInPlace_eq (lower : String → String) (entries : List Entry) :
    rankInPlace lower entries = (rank lower entries).map .ofRanked := by
  unfold rankInPlace assignRanks
  rw [List.length_map, foldl_setRank _ le_rfl]
  unfold ranked rank
  rw [List.take_length, List.drop_length, List.map_nil, List.append_nil, List.map_map]
  rfl

/-! ### What is shown -/

/-- The order of two entries: more votes first, then the name without regard to case, then the
key. -/
def Before (lower : String → String) (a b : RankedEntry) : Prop :=
  b.votes < a.votes ∨ (b.votes = a.votes ∧ (lower a.nominee.name < lower b.nominee.name ∨
    (lower a.nominee.name = lower b.nominee.name ∧ a.nominationId < b.nominationId)))

/-- **A competition ranking** of some entries. -/
structure IsRanking (lower : String → String) (entries : List Entry) (shown : List RankedEntry) :
    Prop where
  loop : rankInPlace lower entries = shown.map .ofRanked
  perm : List.Perm (shown.map RankedEntry.toEntry) entries
  anyOrder : ∀ entries', List.Perm entries entries' → rank lower entries' = shown
  sorted : shown.Pairwise (Before lower)
  position : ∀ pre e post, shown = pre ++ e :: post → e.rank ≤ pre.length + 1 ∧
    (e.rank = pre.length + 1 ↔ ∀ o ∈ pre, o.votes ≠ e.votes)
  ties : ∀ a ∈ shown, ∀ b ∈ shown, a.rank = b.rank ↔ a.votes = b.votes
  first : ∀ e ∈ shown.head?, e.rank = 1

theorem rank_of_mem {lower : String → String} {entries : List Entry} {e : RankedEntry}
    (h : e ∈ rank lower entries) : e.rank = place (fun e => e.votes) (rank lower entries) e := by
  obtain ⟨a, -, rfl⟩ := List.mem_map.mp h
  unfold place
  rw [rank, List.filter_map, List.length_map]
  rfl

theorem sorted_rank (lower : String → String) {entries : List Entry}
    (hids : (entries.map Entry.nominationId).Nodup) :
    (rank lower entries).Pairwise (Before lower) := by
  have hnodup : (entries.mergeSort (Entry.precedes lower)).Pairwise
      fun a b => a.nominationId ≠ b.nominationId := by
    rw [← List.pairwise_map]
    exact ((List.mergeSort_perm ..).map _).nodup_iff.mpr hids
  unfold rank
  rw [List.pairwise_map]
  refine (pairwise_sorted lower entries).imp₂ (fun a b hab hne => ?_) hnodup
  simp only [Entry.precedes, Bool.or_eq_true, Bool.and_eq_true, decide_eq_true_eq] at hab
  refine hab.imp_right fun ⟨hvotes, hab⟩ => ⟨hvotes.symm, hab.imp_right fun ⟨hname, hid⟩ => ?_⟩
  exact ⟨hname, lt_of_le_of_ne hid hne⟩

theorem Before.votes {lower : String → String} {a b : RankedEntry} (h : Before lower a b) :
    b.votes ≤ a.votes := by
  rcases h with h | ⟨h, -⟩
  · exact h.le
  · exact h.le

/-- **Competition ranking:** whatever the order of the entries. -/
theorem rank_isRanking (lower : String → String) {entries : List Entry}
    (hids : (entries.map Entry.nominationId).Nodup) :
    IsRanking lower entries (rank lower entries) := by
  have hsorted := sorted_rank lower hids
  have hvotes : (rank lower entries).Pairwise fun a b => b.votes ≤ a.votes :=
    hsorted.imp Before.votes
  refine ⟨rankInPlace_eq lower entries, perm_rank lower entries,
    fun entries' h => (rank_eq_of_perm lower h hids).symm, hsorted, ?_, ?_, ?_⟩
  · intro pre e post h
    have he : e ∈ rank lower entries := h ▸ List.mem_append_right _ List.mem_cons_self
    rw [rank_of_mem he]
    rw [h] at hvotes ⊢
    exact ⟨place_le hvotes, place_eq_iff_first hvotes⟩
  · intro a ha b hb
    rw [rank_of_mem ha, rank_of_mem hb]
    exact place_eq_iff ha hb
  · intro e he
    obtain ⟨post, h⟩ := List.head?_eq_some_iff.mp he
    have hmem : e ∈ rank lower entries := h ▸ List.mem_cons_self
    rw [rank_of_mem hmem]
    rw [h] at hvotes ⊢
    exact @place_append_cons _ _ _ _ [] post e hvotes

/-- Two entries with the same votes before a third. -/
def tied : List Entry :=
  [⟨1, ⟨11, "Zed", "", none⟩, 2⟩, ⟨2, ⟨12, "amy", "", none⟩, 2⟩, ⟨3, ⟨13, "Bob", "", none⟩, 1⟩]

theorem rank_isRanking_tied : IsRanking Common.Base.lower tied (rank Common.Base.lower tied) :=
  rank_isRanking Common.Base.lower (by decide)

end KwAwards.Voting.Ranking
