import KwAwards.Voting.Linearization
import KwAwards.Voting.Results

/-! # One active free vote, linearizably

What holds of any interleaving of casts and voids, gathered in `OneVote`:

* the votes of a voter in an award include at most one non-voided free one,
* the outcomes are those of the calls run one after another (`Linearizes`), in an order that
  respects real time,
* at its point, a cast that passes its checks is refused exactly when the slot is taken
  (`refusal_of_moves`),
* a refused cast has written one `VOTE_DUPLICATE` entry and nothing else (`wrote_of_run`),
* after a void frees a slot, the first cast for it succeeds and no other before the next void,
* an award's free tally counts its voters (`freeTally_eq`). -/

namespace KwAwards.Voting.OneVote

open KwAwards.Lib.Run KwAwards.Lib.Linearize KwAwards.Common.Base KwAwards.Common.Exceptions
open KwAwards.Audit.Log KwAwards.Events.Models KwAwards.Nominations.Models KwAwards.Voting.Votes
open KwAwards.Store KwAwards.Voting.Services KwAwards.Voting.Concurrent
open KwAwards.Voting.Linearization KwAwards.Voting.Results

/-! ### What a call has written -/

/-- A row added to the vote table or to the audit log. -/
inductive Write
  | vote (v : Vote)
  | entry (e : AuditLog)

/-- The rows a step adds, with the call that adds them. -/
def writes (s : State) (l : Label) (s' : State) : List (ℕ × Write) :=
  match Label.call? l with
  | none => []
  | some i =>
    ((s'.db.votes.rows.drop s.db.votes.rows.length).map fun v => (i, Write.vote v)) ++
      (s'.db.audit.rows.drop s.db.audit.rows.length).map fun e => (i, Write.entry e)

/-- The rows added by one call. -/
def writesOf (i : ℕ) (ws : List (ℕ × Write)) : List Write :=
  (ws.filter fun w => w.1 = i).map Prod.snd

/-- What a call in a phase has written: a returned vote comes with its row and its entry, a
duplicate with one entry, and every other call has written nothing. -/
def Wrote : Phase → List Write → Prop
  | .done (.cast _) (.ok v), ws => ∃ e, ws = [.vote v, .entry e] ∧ e.action = .voteCast ∧
      e.target = some (voteTarget v)
  | .done (.cast a) (.error (.api .alreadyVoted)), ws => ∃ e, ws = [.entry e] ∧
      e.action = .voteDuplicate ∧ e.actorVoter = some a.voter ∧
      e.meta? "nomination_id" = some (.id a.nomination)
  | .done (.void _) (.ok v), ws => ∃ e, ws = [.entry e] ∧ e.action = .voteVoided ∧
      e.target = some (voteTarget v)
  | _, ws => ws = []

theorem writesOf_append (i : ℕ) (ws ws' : List (ℕ × Write)) :
    writesOf i (ws ++ ws') = writesOf i ws ++ writesOf i ws' := by
  rw [writesOf, List.filter_append, List.map_append]; rfl

theorem writesOf_map_self (i : ℕ) (ws : List Write) :
    writesOf i (ws.map fun w => (i, w)) = ws := by
  have hfilter : ((ws.map fun w => (i, w)).filter fun w => w.1 = i) = ws.map fun w => (i, w) :=
    List.filter_eq_self.mpr fun w hw => by
      obtain ⟨w', -, rfl⟩ := List.mem_map.mp hw
      simp
  rw [writesOf, hfilter, List.map_map]
  exact List.map_id ws

theorem writesOf_map_of_ne {i j : ℕ} (h : j ≠ i) (ws : List Write) :
    writesOf j (ws.map fun w => (i, w)) = [] := by
  have hfilter : ((ws.map fun w => (i, w)).filter fun w => w.1 = j) = [] :=
    List.filter_eq_nil_iff.mpr fun w hw => by
      obtain ⟨w', -, rfl⟩ := List.mem_map.mp hw
      simpa using Ne.symm h
  rw [writesOf, hfilter]; rfl

/-- The rows added by a step of the call `i`. -/
theorem writes_eq {s s' : State} {l : Label} {i : ℕ} {vs : List Vote} {es : List AuditLog}
    (hl : Label.call? l = some i) (hv : s'.db.votes.rows.drop s.db.votes.rows.length = vs)
    (he : s'.db.audit.rows.drop s.db.audit.rows.length = es) :
    writes s l s' = (vs.map Write.vote ++ es.map Write.entry).map fun w => (i, w) := by
  simp only [writes, hl, hv, he, List.map_append, List.map_map]
  rfl

theorem wrote_setCall {s s₁ : State} {l : Label} {i : ℕ} {p q : Phase} {ws : List Write}
    {out : List (ℕ × Write)} (hcalls : s₁.calls = s.calls)
    (hw : writes s l (s₁.setCall i q) = ws.map fun w => (i, w)) (hi : s.calls i = p)
    (hold : ∀ ws, Wrote p ws → ws = []) (hq : Wrote q ws)
    (h : ∀ j, Wrote (s.calls j) (writesOf j out)) (j : ℕ) :
    Wrote ((s₁.setCall i q).calls j) (writesOf j (out ++ writes s l (s₁.setCall i q))) := by
  rw [writesOf_append, hw]
  by_cases hj : j = i
  · subst hj
    have hnone : writesOf j out = [] := hold _ (hi ▸ h j)
    rwa [calls_setCall_self, writesOf_map_self, hnone, List.nil_append]
  · rw [calls_setCall_of_ne _ _ hj, hcalls, writesOf_map_of_ne hj, List.append_nil]
    exact h j

theorem drop_length_append {α : Type*} {l l' m : List α} (h : l' = l ++ m) :
    l'.drop l.length = m := by
  rw [h, List.drop_left]

theorem drop_length_self {α : Type*} (l : List α) : l.drop l.length = [] :=
  List.drop_length

/-- **A step keeps** the account of what each call has written. -/
theorem wrote_of_moves {s s' : State} {l : Label} {out : List (ℕ × Write)} (hs : s.Sound)
    (h : Moves s l s') (hout : ∀ j, Wrote (s.calls j) (writesOf j out)) :
    ∀ j, Wrote (s'.calls j) (writesOf j (out ++ writes s l s')) := by
  cases h with
  | tick n =>
    intro j
    have hnone : writes s (.tick n) { s with now := s.now + n } = [] := rfl
    rw [hnone, List.append_nil]
    exact hout j
  | invoked call hi =>
    exact wrote_setCall rfl (writes_eq rfl (drop_length_self _) (drop_length_self _))
      hi (fun _ => id) rfl hout
  | missing hi | fetched hi | opened hi | closed hi | refused hi | voidRefused hi =>
    exact wrote_setCall rfl (writes_eq rfl (drop_length_self _) (drop_length_self _))
      hi (fun _ => id) rfl hout
  | @inserted i a c t vk ak votes audit e hi hf ht hv he ha hx =>
    obtain ⟨-, -, hact, htarget, -⟩ := log_eq_some he
    exact wrote_setCall rfl (writes_eq rfl (drop_length_append hv) (drop_length_append ha))
      hi (fun _ => id) ⟨e, rfl, hact, htarget⟩ hout
  | @logged i a c t ak audit e hi he ha =>
    obtain ⟨-, -, hact, -, hmeta, -, hvoter⟩ := log_eq_some he
    obtain ⟨hc, -⟩ : (Phase.refused a c t).Sound s.db := hi ▸ hs i
    obtain ⟨hid, -⟩ := linked_of_joined (getNomination_eq_some.mp hc).1
    have hmeta' : e.meta? "nomination_id" = some (.id a.nomination) := by
      rw [AuditLog.meta?, hmeta, ← hid]; rfl
    exact wrote_setCall rfl (writes_eq rfl (drop_length_self _) (drop_length_append ha))
      hi (fun _ => id) ⟨e, rfl, hact, hvoter, hmeta'⟩ hout
  | @voided i a ak vote votes audit e hi hm hid hact hv he ha hx =>
    obtain ⟨-, -, haction, htarget, -⟩ := log_eq_some he
    have hdrop : votes.rows.drop s.db.votes.rows.length = [] := by
      rw [hv, List.drop_eq_nil_iff, List.length_map]
    exact wrote_setCall rfl (writes_eq rfl hdrop (drop_length_append ha))
      hi (fun _ => id) ⟨e, rfl, haction, htarget⟩ hout

theorem wrote_of_run {s s' : State} {l : List Label} (hs : s.Quiet)
    (hr : run step s l = some s') (i : ℕ) :
    Wrote (s'.calls i) (writesOf i (emitted step writes s l)) := by
  have h : s'.Sound ∧ ∀ i, Wrote (s'.calls i) (writesOf i (emitted step writes s l)) := by
    refine run_emitted_inv (fun m out => m.Sound ∧ ∀ i, Wrote (m.calls i) (writesOf i out)) ?_
      ⟨sound_of_quiet hs, fun i => ?_⟩ hr
    · rintro m k m' out ⟨hm, hout⟩ hk
      exact ⟨sound_of_moves hm (moves_of_step hk), wrote_of_moves hm (moves_of_step hk) hout⟩
    · rw [hs i]; rfl
  exact h.2 i

/-! ### When a cast is refused -/

/-- A cast decided by the step after passing its checks returns a vote or is refused, and is refused
exactly when its slot is taken. -/
def RefusedIffTaken (s : State) (l : Label) (s' : State) : Prop :=
  ∀ p r a c, (p, r) ∈ points s l s' → p.call = .cast a → getNomination s.db a.nomination = some c →
    c.event.votingIsOpen p.checkAt = true →
      (r = .error (.api .alreadyVoted) ↔ Taken s.db.votes a.voter c.award.id) ∧
        (r = .error (.api .alreadyVoted) ∨ ∃ v, r = .ok v)

theorem refusal_of_moves {s s' : State} {l : Label} (hs : s.Sound) (h : Moves s l s') :
    RefusedIffTaken s l s' := by
  intro p r a c hp hcall hc ho
  cases h with
  | tick n => exact absurd hp List.not_mem_nil
  | invoked call hi => exact absurd hp (notMem_points rfl hi rfl)
  | fetched hi hc' => exact absurd hp (notMem_points rfl hi rfl)
  | opened hi ho' => exact absurd hp (notMem_points rfl hi rfl)
  | logged hi he ha => exact absurd hp (notMem_points rfl hi rfl)
  | @missing i b hi hn =>
    obtain ⟨rfl, rfl⟩ := Prod.mk.inj (eq_of_mem_points rfl hi rfl rfl rfl hp)
    obtain rfl := Call.cast.inj hcall
    rw [hn] at hc
    simp at hc
  | @closed i b c' hi hshut =>
    have hc' : (Phase.fetched b c').Sound s.db := hi ▸ hs i
    obtain ⟨rfl, rfl⟩ := Prod.mk.inj (eq_of_mem_points rfl hi rfl rfl rfl hp)
    obtain rfl := Call.cast.inj hcall
    obtain rfl : c' = c := Option.some.inj (hc'.symm.trans hc)
    have hopen : c'.event.votingIsOpen s.now = true := ho
    rw [hshut] at hopen
    simp at hopen
  | @refused i b c' t vk ak hi hf ht =>
    obtain ⟨hc', -⟩ : (Phase.checked b c' t).Sound s.db := hi ▸ hs i
    obtain ⟨rfl, rfl⟩ := Prod.mk.inj (eq_of_mem_points rfl hi rfl rfl rfl hp)
    obtain rfl := Call.cast.inj hcall
    obtain rfl : c' = c := Option.some.inj (hc'.symm.trans hc)
    exact ⟨⟨fun _ => ht, fun _ => rfl⟩, Or.inl rfl⟩
  | @inserted i b c' t vk ak votes audit e hi hf ht hv he ha hx =>
    obtain ⟨hc', -⟩ : (Phase.checked b c' t).Sound s.db := hi ▸ hs i
    obtain ⟨rfl, rfl⟩ := Prod.mk.inj (eq_of_mem_points rfl hi rfl rfl rfl hp)
    obtain rfl := Call.cast.inj hcall
    obtain rfl : c' = c := Option.some.inj (hc'.symm.trans hc)
    exact ⟨⟨fun h => by simp at h, fun h => absurd h ht⟩, Or.inr ⟨_, rfl⟩⟩
  | voidRefused hi hne hx =>
    obtain ⟨rfl, rfl⟩ := Prod.mk.inj (eq_of_mem_points rfl hi rfl rfl rfl hp)
    simp at hcall
  | voided hi hm hid hact hv he ha hx =>
    obtain ⟨rfl, rfl⟩ := Prod.mk.inj (eq_of_mem_points rfl hi rfl rfl rfl hp)
    simp at hcall

/-! ### The slot of a voter in an award -/

/-- Whether the call returned a vote. -/
def Phase.returned : Phase → Bool
  | .done _ (.ok _) => true
  | _ => false

/-- What a step does to the slot of a voter in an award: a cast that reaches its insert takes it or
is refused, the void of a free vote releases it. -/
def slotOps (voter award : Id) (s : State) (l : Label) (s' : State) : List (SlotOp × Bool) :=
  match l with
  | .insert i _ _ =>
    match s.calls i with
    | .checked a c _ =>
      if a.voter = voter ∧ c.award.id = award then [(.take, Phase.returned (s'.calls i))] else []
    | _ => []
  | .void i _ =>
    match s'.calls i with
    | .done _ (.ok v) =>
      if v.source = .free ∧ v.voter = voter ∧ v.award = award then [(.release, true)] else []
    | _ => []
  | _ => []

theorem taken_append {t t' : VoteTable} {v : Vote} (h : t'.rows = t.rows ++ [v])
    (hv : v.activeFree = true) (voter award : Id) :
    Taken t' voter award ↔ Taken t voter award ∨ (v.voter = voter ∧ v.award = award) := by
  simp [Taken, h, hv, or_and_right, exists_or]

theorem activeFree_void (v : Vote) (byUser : Id) (reason : String) (now : Time) :
    (void v byUser reason now).activeFree = false := by
  simp [Vote.activeFree, Vote.active, void]

/-- After the void of one of its votes a slot is taken exactly when another vote takes it. -/
theorem taken_void {t t' : VoteTable} {vote : Vote} {byUser : Id} {reason : String} {now : Time}
    (h : t'.rows = t.rows.map fun v => if v.id = vote.id then void vote byUser reason now else v)
    (voter award : Id) : Taken t' voter award ↔
      ∃ v ∈ t.rows, v.id ≠ vote.id ∧ v.activeFree ∧ v.voter = voter ∧ v.award = award := by
  constructor
  · rintro ⟨w, hw, haf, hv, ha⟩
    rw [h] at hw
    obtain ⟨v, hmem, rfl⟩ := List.mem_map.mp hw
    by_cases hid : v.id = vote.id
    · rw [if_pos hid, activeFree_void] at haf
      cases haf
    · rw [if_neg hid] at haf hv ha
      exact ⟨v, hmem, hid, haf, hv, ha⟩
  · rintro ⟨v, hmem, hid, haf, hv, ha⟩
    refine ⟨v, ?_, haf, hv, ha⟩
    rw [h]
    exact List.mem_map.mpr ⟨v, hmem, if_neg hid⟩

/-- **The slot is a test-and-set cell:** a step does to it what its operation says. -/
theorem slot_of_moves (voter award : Id) {s s' : State} {l : Label} (h : Moves s l s') :
    Replays slotSeq (decide (Taken s.db.votes voter award)) (slotOps voter award s l s')
      (decide (Taken s'.db.votes voter award)) := by
  cases h with
  | tick n => rfl
  | invoked call hi | missing hi | fetched hi | opened hi | closed hi | logged hi => rfl
  | @refused i a c t vk ak hi hf ht =>
    simp only [slotOps, hi, calls_setCall_self, State.db_setCall]
    split_ifs with hslot
    · obtain ⟨rfl, rfl⟩ := hslot
      refine replays_singleton.mpr ⟨?_, ?_⟩ <;> simp [ht, Phase.returned]
    · rfl
  | @inserted i a c t vk ak votes audit e hi hf ht hv he ha hx =>
    have htaken := taken_append hv (newVote_activeFree c a.voter a.request s.now vk) voter award
    simp only [slotOps, hi, calls_setCall_self, State.db_setCall]
    split_ifs with hslot
    · obtain ⟨rfl, rfl⟩ := hslot
      refine replays_singleton.mpr ⟨?_, ?_⟩
      · simp [ht, Phase.returned]
      · exact decide_eq_true (htaken.mpr (Or.inr ⟨rfl, rfl⟩))
    · refine decide_eq_decide.mpr (htaken.trans ⟨fun h => ?_, Or.inl⟩).symm
      exact h.resolve_right hslot
  | @voidRefused i a ak x hi hne hx =>
    simp only [slotOps, calls_setCall_self, State.db_setCall]
    rfl
  | @voided i a ak vote votes audit e hi hm hid hact hv he ha hx =>
    have htaken := taken_void hv voter award
    have hactive : vote.active = true := by rw [Vote.active, hact]; rfl
    simp only [slotOps, calls_setCall_self, State.db_setCall]
    split_ifs with hslot
    · obtain ⟨hfree, hvoter, haward⟩ := hslot
      have haf : vote.activeFree = true := by
        rw [Vote.activeFree, hactive, Bool.and_true]
        exact decide_eq_true hfree
      refine replays_singleton.mpr ⟨?_, rfl, ?_⟩
      · exact decide_eq_true ⟨vote, hm, haf, hvoter, haward⟩
      · refine decide_eq_false fun ht => ?_
        obtain ⟨v, hvm, hne, hvf, hvv, hva⟩ := htaken.mp ht
        exact hne (congrArg Vote.id (VoteTable.activeFree_unique hvm hm hvf haf
          (hvv.trans hvoter.symm) (hva.trans haward.symm)))
    · refine decide_eq_decide.mpr (htaken.trans ⟨?_, ?_⟩).symm
      · rintro ⟨v, hvm, -, hvf, hvv, hva⟩
        exact ⟨v, hvm, hvf, hvv, hva⟩
      · rintro ⟨v, hvm, hvf, hvv, hva⟩
        refine ⟨v, hvm, fun hvid => ?_, hvf, hvv, hva⟩
        obtain rfl := VoteTable.eq_of_id hvm hm hvid
        refine hslot ⟨?_, hvv, hva⟩
        simp only [Vote.activeFree, Bool.and_eq_true, decide_eq_true_eq] at hvf
        exact hvf.1

/-! ### The free part of a tally -/

/-- The voters with a non-voided free vote in an award. -/
def freeVoters (db : Database) (award : Id) : Finset Id :=
  ((db.votes.rows.filter fun v => v.activeFree && decide (v.award = award)).map
    Vote.voter).toFinset

theorem freeVotes_eq (db : Database) (award : Id) :
    ((activeVotes (ofSource .free db)).filter fun v => v.award = award) =
      db.votes.rows.filter fun v => v.activeFree && decide (v.award = award) := by
  rw [activeVotes_ofSource]
  unfold activeVotes
  simp only [List.filter_filter]
  refine List.filter_congr fun v _ => ?_
  rw [Vote.activeFree, Bool.and_comm (decide (v.award = award)), Bool.and_assoc]

theorem covered_of_grounded {db : Database} (hg : Grounded db) (source : VoteSource) (award : Id) :
    Covered (ofSource source db) award := by
  intro v hv ha
  have hmem : v ∈ db.votes.rows := List.mem_of_mem_filter (List.mem_of_mem_filter hv)
  obtain ⟨n, hn, hid, happroved, haward⟩ := hg.votes v hmem
  refine ⟨n, ?_, hid, hg.nominees n hn⟩
  exact List.mem_filter.mpr ⟨hn, decide_eq_true ⟨haward.trans ha, happroved⟩⟩

/-- **The free part of an award's tally** is the number of its voters with a free vote. -/
theorem freeTally_eq (lower url : String → String) {db : Database} (hg : Grounded db) (award : Id) :
    ((awardTally lower url (ofSource .free db) award).map fun e => e.votes).sum =
      (freeVoters db award).card := by
  rw [sum_awardTally lower url (covered_of_grounded hg .free award), freeVotes_eq]
  have hmem : ∀ v ∈ db.votes.rows.filter fun v => v.activeFree && decide (v.award = award),
      v ∈ db.votes.rows ∧ v.activeFree = true ∧ v.award = award := by
    intro v hv
    obtain ⟨hv, hp⟩ := List.mem_filter.mp hv
    rw [Bool.and_eq_true, decide_eq_true_eq] at hp
    exact ⟨hv, hp.1, hp.2⟩
  have hone : ∀ v ∈ db.votes.rows.filter fun v => v.activeFree && decide (v.award = award),
      v.quantity = 1 := by
    intro v hv
    obtain ⟨hv, haf, -⟩ := hmem v hv
    rw [Vote.activeFree, Bool.and_eq_true, decide_eq_true_eq] at haf
    exact Vote.quantity_of_free (db.votes.checked v hv) haf.1
  have hnodup : ((db.votes.rows.filter fun v => v.activeFree && decide (v.award = award)).map
      Vote.voter).Nodup := by
    rw [List.Nodup, List.pairwise_map]
    refine (db.votes.unique.sublist List.filter_sublist).imp_of_mem fun {a b} ha hb hn hvoter => ?_
    obtain ⟨-, haf, haward⟩ := hmem a ha
    obtain ⟨-, hbf, hbward⟩ := hmem b hb
    exact hn (Or.inr (Or.inr ⟨haf, hbf, hvoter, haward.trans hbward.symm⟩))
  rw [freeVoters, List.toFinset_card_of_nodup hnodup, List.length_map, List.map_congr_left hone,
    List.map_const', List.sum_replicate, smul_eq_mul, mul_one]

/-! ### All together -/

/-- The run of `l` from `s` to `s'` is its decided calls run one after another, in an order that
respects real time: what is decided before a call is invoked comes before it. -/
structure Linearizes (s : State) (l : List Label) (s' : State) (order : List (Point × Result)) :
    Prop where
  nodup : (order.map fun p => p.1.id).Nodup
  replay : ∃ db, Replays Sequential s.db order db ∧ db.votes = s'.db.votes
  outcome : ∀ i call r, s'.calls i = .done call r → ∃ p, (p, r) ∈ order ∧ p.id = i ∧ p.call = call
  invoked : ∀ p ∈ order, .invoke p.1.id p.1.call ∈ l
  realTime : ∀ l₁ l₂ m, l = l₁ ++ l₂ → run step s l₁ = some m → ∃ o₁ o₂, order = o₁ ++ o₂ ∧
    (∀ i call r, m.calls i = .done call r → ∃ p ∈ o₁, p.1.id = i) ∧
      ∀ p ∈ o₁, m.calls p.1.id ≠ .idle

theorem linearizes_of_run {s s' : State} {l : List Label} (hs : s.Quiet)
    (hr : run step s l = some s') : Linearizes s l s' (emitted step points s l) := by
  obtain ⟨hnodup, hfate⟩ := points_decide hs hr
  have hcall := call_of_mem_points hr
  constructor
  · exact hnodup
  · obtain ⟨db, hdb, hu⟩ := points_replay (sound_of_quiet hs) hr
    exact ⟨db, hdb, Database.votes_of_unlogged hu⟩
  · intro i call r hi
    have hri : fate s' i = some r := by rw [fate, hi]; rfl
    obtain ⟨p, hp, rfl⟩ := (hfate i r).mp hri
    refine ⟨p, hp, rfl, ?_⟩
    have hpc : Phase.call? (s'.calls p.id) = some p.call := hcall _ hp
    rw [hi] at hpc
    exact (Option.some.inj hpc).symm
  · intro p hp
    rcases invoked_of_run hr (hcall p hp) with h | h
    · rw [hs p.1.id] at h
      cases h
    · exact h
  · rintro l₁ l₂ m rfl hm
    obtain ⟨-, hfate₁⟩ := points_decide hs hm
    refine ⟨_, _, emitted_append hm, fun i call r hi => ?_, fun p hp hidle => ?_⟩
    · have hri : fate m i = some r := by rw [fate, hi]; rfl
      obtain ⟨p, hp, hid⟩ := (hfate₁ i r).mp hri
      exact ⟨(p, r), hp, hid⟩
    · have hpc := call_of_mem_points hm p hp
      rw [hidle] at hpc
      cases hpc

/-- What holds of a run of casts and voids from `s` to `s'`. -/
structure OneFreeVote (s : State) (l : List Label) (s' : State) : Prop where
  unique : ∀ a ∈ s'.db.votes.rows, ∀ b ∈ s'.db.votes.rows, a.activeFree → b.activeFree →
    a.voter = b.voter → a.award = b.award → a = b
  linear : Linearizes s l s' (emitted step points s l)
  refusal : Along step RefusedIffTaken s l
  writes : ∀ i, Wrote (s'.calls i) (writesOf i (emitted step writes s l))
  revote : ∀ voter award pre mid post ok,
    emitted step (slotOps voter award) s l = pre ++ (.release, ok) :: (mid ++ post) →
      (∀ p ∈ mid, p.1 = .take) →
        mid = [] ∨ ∃ n, mid = (.take, true) :: List.replicate n (.take, false)
  tally : Grounded s.db → ∀ lower url award,
    ((awardTally lower url (ofSource .free s'.db) award).map fun e => e.votes).sum =
      (freeVoters s'.db award).card

/-- **One active free vote, linearizably:** for every interleaving of casts and voids. -/
theorem one_free_vote_linearizably {s s' : State} {l : List Label} (hs : s.Quiet)
    (hr : run step s l = some s') : OneFreeVote s l s' where
  unique := fun _ ha _ hb haf hbf hv hw => VoteTable.activeFree_unique ha hb haf hbf hv hw
  linear := linearizes_of_run hs hr
  refusal := along_of_run State.Sound
    (fun _ _ _ hm hi => sound_of_moves hm (moves_of_step hi))
    (fun _ _ _ hm hi => refusal_of_moves hm (moves_of_step hi)) (sound_of_quiet hs)
  writes := wrote_of_run hs hr
  revote := by
    intro voter award pre mid post ok heq hmid
    obtain ⟨b, hb, -⟩ := replays_of_run (fun _ : State => True) (fun _ _ _ _ _ => trivial)
      (fun m b => b = decide (Taken m.db.votes voter award))
      (fun m k m' b _ hb hk => ⟨_, hb ▸ slot_of_moves voter award (moves_of_step hk), rfl⟩)
      trivial rfl hr
    rw [heq] at hb
    exact first_take hb hmid
  tally := fun hg lower url award => freeTally_eq lower url (grounded_of_run hs hg hr) award

theorem one_free_vote_linearizably_gala :
    ∃ s', run step galaState galaRace = some s' ∧ OneFreeVote galaState galaRace s' := by
  have hsome : (run step galaState galaRace).isSome := by decide
  obtain ⟨s', hr⟩ := Option.isSome_iff_exists.mp hsome
  exact ⟨s', hr, one_free_vote_linearizably (fun _ => rfl) hr⟩

end KwAwards.Voting.OneVote
