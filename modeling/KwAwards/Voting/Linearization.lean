import KwAwards.Lib.Linearize
import KwAwards.Voting.Concurrent

/-! # The calls linearize

`points` emits a call, with its outcome, at the step that decides it: a cast at its insert, or at
the query or the check that ends it; a void at its transaction. `Sequential` is one call run alone,
by the functions of `Services`. `points_replay` replays the points of any run one call after another
with the same outcomes and the same votes; the audit logs may differ in the order of their entries,
since a `VOTE_DUPLICATE` entry is written after its point. -/

namespace KwAwards.Voting.Linearization

open KwAwards.Lib.Run KwAwards.Lib.Linearize KwAwards.Common.Base KwAwards.Common.Exceptions
open KwAwards.Events.Models KwAwards.Voting.Votes KwAwards.Store KwAwards.Voting.Services
open KwAwards.Voting.Concurrent

/-- The keys of the vote. -/
def Label.voteKeys : Label → Keys
  | .insert _ vk _ => vk
  | _ => ⟨0, 0⟩

/-- A call with the clock readings and the vote's keys it gets. -/
structure Point where
  id : ℕ
  call : Call
  checkAt : Time
  now : Time
  vk : Keys
  deriving DecidableEq, Repr

/-- The call decided by a step, with its outcome. -/
def points (s : State) (l : Label) (s' : State) : List (Point × Result) :=
  match Label.call? l with
  | none => []
  | some i =>
    match Phase.call? (s.calls i), Phase.fate (s.calls i), Phase.fate (s'.calls i) with
    | some call, none, some r =>
      [({ id := i, call, checkAt := Phase.checkedAt s.now (s.calls i), now := s.now
          vk := Label.voteKeys l }, r)]
    | _, _, _ => []

/-- **One call run alone.** The keys of its audit entry are any fresh ones. -/
def Sequential (db : Database) (p : Point) (db' : Database) (r : Result) : Prop :=
  ∃ ak, match p.call with
    | .cast a =>
      castFreeVote db a.voter a.nomination a.request p.checkAt p.now p.vk ak = some (db', r)
    | .void a => voidVote db a.vote a.byUser a.reason a.request p.now ak = some (db', r)

/-! ### Casting alone -/

section Alone

variable {db : Database} {a : CastArgs} {c : Candidate} {i : ℕ} {t now : Time} {vk : Keys}

theorem sequential_missing (hc : getNomination db a.nomination = none) :
    Sequential db ⟨i, .cast a, t, now, vk⟩ db (.error nominationNotFound) := by
  refine ⟨⟨0, 0⟩, ?_⟩
  simp only [castFreeVote, hc]

theorem sequential_closed (hc : getNomination db a.nomination = some c)
    (ho : c.event.votingIsOpen t = false) :
    Sequential db ⟨i, .cast a, t, now, vk⟩ db (.error (.api .votingClosed)) := by
  refine ⟨⟨0, 0⟩, ?_⟩
  simp only [castFreeVote, hc, ho, Bool.false_eq_true, if_false]

theorem sequential_refused (hc : getNomination db a.nomination = some c)
    (ho : c.event.votingIsOpen t = true) (hf : FreshVote db.votes vk)
    (ht : Taken db.votes a.voter c.award.id) :
    ∃ db', Sequential db ⟨i, .cast a, t, now, vk⟩ db' (.error (.api .alreadyVoted)) ∧
      db'.unlogged = db.unlogged := by
  obtain ⟨ak, db', hd⟩ := exists_logDuplicate db c a.voter a.request now
  refine ⟨db', ⟨ak, ?_⟩, Database.unlogged_write hd⟩
  have hu : isUniqueViolation .uniqueViolation = true := isUniqueViolation_iff.mpr rfl
  simp only [castFreeVote, hc, ho, if_true, insertVote_of_taken hf ht, Option.bind_some, hu, hd,
    Option.map_some]

theorem sequential_inserted {db₀ db₁ : Database} {ak : Keys} {v : Vote}
    (hc : getNomination db a.nomination = some c) (ho : c.event.votingIsOpen t = true)
    (hdb : db.unlogged = db₀.unlogged)
    (hx : insertVote db₀ c a.voter a.request now vk ak = some (db₁, .ok v)) :
    ∃ db', Sequential db ⟨i, .cast a, t, now, vk⟩ db' (.ok v) ∧ db'.unlogged = db₁.unlogged := by
  obtain ⟨ak', db', hx', hu⟩ := insertVote_unlogged hdb hx
  refine ⟨db', ⟨ak', ?_⟩, hu⟩
  simp only [castFreeVote, hc, ho, if_true, hx', Option.bind_some]

end Alone

/-! ### The simulation -/

theorem getNomination_unlogged {db d : Database} (h : d.unlogged = db.unlogged) (nid : Id) :
    getNomination d nid = getNomination db nid := by
  have hn : getNomination d.unlogged nid = getNomination db.unlogged nid := by rw [h]
  exact hn

section Points

variable {s s₁ : State} {l : Label} {i : ℕ} {p q : Phase}

/-- The point of a step that takes the call `i` from an undecided phase to a decided one. -/
theorem points_decided {call : Call} {r : Result} (hl : Label.call? l = some i)
    (hi : s.calls i = p) (hcall : Phase.call? p = some call) (hnone : Phase.fate p = none)
    (hq : Phase.fate q = some r) :
    points s l (s₁.setCall i q) =
      [({ id := i, call, checkAt := Phase.checkedAt s.now p, now := s.now,
          vk := Label.voteKeys l }, r)] := by
  subst hi
  simp only [points, hl, hcall, hnone, calls_setCall_self, hq]

/-- A step that keeps the fate of its call has no point. -/
theorem points_undecided (hl : Label.call? l = some i) (hi : s.calls i = p)
    (hq : Phase.fate q = Phase.fate p) : points s l (s₁.setCall i q) = [] := by
  subst hi
  simp only [points, hl, calls_setCall_self, hq]
  rcases Phase.call? (s.calls i) with _ | call <;> rcases Phase.fate (s.calls i) with _ | r <;> rfl

theorem notMem_points {x : Point × Result} (hl : Label.call? l = some i) (hi : s.calls i = p)
    (hq : Phase.fate q = Phase.fate p) : x ∉ points s l (s₁.setCall i q) := by
  rw [points_undecided hl hi hq]
  exact List.not_mem_nil

theorem eq_of_mem_points {call : Call} {r : Result} {x : Point × Result}
    (hl : Label.call? l = some i) (hi : s.calls i = p) (hcall : Phase.call? p = some call)
    (hnone : Phase.fate p = none) (hq : Phase.fate q = some r)
    (hx : x ∈ points s l (s₁.setCall i q)) :
    x = (⟨i, call, Phase.checkedAt s.now p, s.now, Label.voteKeys l⟩, r) := by
  rw [points_decided hl hi hcall hnone hq] at hx
  exact List.mem_singleton.mp hx

theorem replays_undecided {d : Database} (hl : Label.call? l = some i) (hi : s.calls i = p)
    (hq : Phase.fate q = Phase.fate p) :
    Replays Sequential d (points s l (s₁.setCall i q)) d := by
  rw [points_undecided hl hi hq]
  rfl

theorem replays_decided {d d' : Database} {call : Call} {r : Result}
    (hl : Label.call? l = some i) (hi : s.calls i = p) (hcall : Phase.call? p = some call)
    (hnone : Phase.fate p = none) (hq : Phase.fate q = some r)
    (hseq : Sequential d ⟨i, call, Phase.checkedAt s.now p, s.now, Label.voteKeys l⟩ d' r) :
    Replays Sequential d (points s l (s₁.setCall i q)) d' := by
  rw [points_decided hl hi hcall hnone hq]
  exact replays_singleton.mpr hseq

end Points

/-- **One step is one call alone, or nothing.** -/
theorem points_sim {s s' : State} {l : Label} {d : Database} (hs : s.Sound)
    (hd : d.unlogged = s.db.unlogged) (h : Moves s l s') :
    ∃ d', Replays Sequential d (points s l s') d' ∧ d'.unlogged = s'.db.unlogged := by
  have hget := getNomination_unlogged hd
  have hvotes : d.votes = s.db.votes := Database.votes_of_unlogged hd
  cases h with
  | tick n => exact ⟨d, rfl, hd⟩
  | invoked call hi => exact ⟨d, replays_undecided rfl hi rfl, hd⟩
  | @missing i a hi hc =>
    exact ⟨d, replays_decided rfl hi rfl rfl rfl (sequential_missing ((hget _).trans hc)), hd⟩
  | fetched hi hc => exact ⟨d, replays_undecided rfl hi rfl, hd⟩
  | opened hi ho => exact ⟨d, replays_undecided rfl hi rfl, hd⟩
  | @closed i a c hi ho =>
    have hc : (Phase.fetched a c).Sound s.db := hi ▸ hs i
    exact ⟨d, replays_decided rfl hi rfl rfl rfl (sequential_closed ((hget _).trans hc) ho), hd⟩
  | @refused i a c t vk ak hi hf ht =>
    obtain ⟨hc, ho⟩ : (Phase.checked a c t).Sound s.db := hi ▸ hs i
    obtain ⟨d', hseq, hu⟩ := sequential_refused ((hget _).trans hc) ho (hvotes ▸ hf) (hvotes ▸ ht)
    exact ⟨d', replays_decided rfl hi rfl rfl rfl hseq, hu.trans hd⟩
  | @inserted i a c t vk ak votes audit e hi hf ht hv he ha hx =>
    obtain ⟨hc, ho⟩ : (Phase.checked a c t).Sound s.db := hi ▸ hs i
    obtain ⟨d', hseq, hu⟩ := sequential_inserted ((hget _).trans hc) ho hd hx
    exact ⟨d', replays_decided rfl hi rfl rfl rfl hseq, hu⟩
  | logged hi he ha => exact ⟨d, replays_undecided rfl hi rfl, hd⟩
  | @voidRefused i a ak x hi hne hx =>
    obtain ⟨ak', d', hx', hu⟩ := voidVote_unlogged hd hx
    exact ⟨d', replays_decided rfl hi rfl rfl rfl ⟨ak', hx'⟩, hu⟩
  | @voided i a ak vote votes audit e hi hm hid hact hv he ha hx =>
    obtain ⟨ak', d', hx', hu⟩ := voidVote_unlogged hd hx
    exact ⟨d', replays_decided rfl hi rfl rfl rfl ⟨ak', hx'⟩, hu⟩

/-- **Any run is its points, one call after another.** -/
theorem points_replay {s s' : State} {l : List Label} (hs : s.Sound)
    (hr : run step s l = some s') :
    ∃ d, Replays Sequential s.db (emitted step points s l) d ∧ d.unlogged = s'.db.unlogged :=
  replays_of_run State.Sound (fun _ _ _ hm hi => sound_of_moves hm (moves_of_step hi))
    (fun m (d : Database) => d.unlogged = m.db.unlogged)
    (fun _ _ _ _ hm hd hi => points_sim hm hd (moves_of_step hi)) hs rfl hr

/-! ### Every call is decided once -/

def fate (s : State) (i : ℕ) : Option Result := Phase.fate (s.calls i)

theorem fate_setCall (s : State) (i : ℕ) (p : Phase) :
    fate (s.setCall i p) = Function.update (fate s) i (Phase.fate p) := by
  ext1 j
  by_cases hj : j = i
  · subst hj
    rw [fate, calls_setCall_self, Function.update_self]
  · rw [fate, calls_setCall_of_ne s p hj, Function.update_of_ne hj]; rfl

section SetCall

variable {s s₁ : State} {l : Label} {i : ℕ} {p q : Phase}

/-- A step of a call that keeps its fate decides nothing. -/
theorem undecided_setCall (hl : Label.call? l = some i) (hcalls : s₁.calls = s.calls)
    (hi : s.calls i = p) (hq : Phase.fate q = Phase.fate p) :
    points s l (s₁.setCall i q) = [] ∧ fate (s₁.setCall i q) = fate s := by
  have hfate : fate s₁ = fate s := by unfold fate; rw [hcalls]
  have hsame : Phase.fate q = fate s i := by rw [hq, ← hi]; rfl
  refine ⟨points_undecided hl hi hq, ?_⟩
  rw [fate_setCall, hsame, hfate]
  exact Function.update_eq_self i (fate s)

/-- A step that gives an undecided call a fate decides it. -/
theorem decided_setCall {call : Call} {r : Result} (hl : Label.call? l = some i)
    (hcalls : s₁.calls = s.calls) (hi : s.calls i = p) (hcall : Phase.call? p = some call)
    (hnone : Phase.fate p = none) (hq : Phase.fate q = some r) :
    ∃ x r, points s l (s₁.setCall i q) = [(x, r)] ∧ fate s x.id = none ∧
      fate (s₁.setCall i q) = Function.update (fate s) x.id (some r) := by
  have hfate : fate s₁ = fate s := by unfold fate; rw [hcalls]
  have hopen : fate s i = none := by rw [fate, hi]; exact hnone
  refine ⟨_, r, points_decided hl hi hcall hnone hq, hopen, ?_⟩
  rw [fate_setCall, hfate, hq]

end SetCall

/-- A step emits the call it decides, which was undecided. -/
theorem fate_of_moves {s s' : State} {l : Label} (h : Moves s l s') :
    (points s l s' = [] ∧ fate s' = fate s) ∨
      ∃ p r, points s l s' = [(p, r)] ∧ fate s p.id = none ∧
        fate s' = Function.update (fate s) p.id (some r) := by
  cases h with
  | tick n => exact Or.inl ⟨rfl, rfl⟩
  | invoked call hi => exact Or.inl (undecided_setCall rfl rfl hi rfl)
  | fetched hi hc => exact Or.inl (undecided_setCall rfl rfl hi rfl)
  | opened hi ho => exact Or.inl (undecided_setCall rfl rfl hi rfl)
  | logged hi he ha => exact Or.inl (undecided_setCall rfl rfl hi rfl)
  | missing hi | closed hi | refused hi | inserted hi | voidRefused hi | voided hi =>
    exact Or.inr (decided_setCall rfl rfl hi rfl rfl rfl)

/-- **Every call is decided at most once**, and the points hold its outcome. -/
theorem points_decide {s s' : State} {l : List Label} (hs : s.Quiet)
    (hr : run step s l = some s') :
    ((emitted step points s l).map fun p => p.1.id).Nodup ∧
      ∀ i r, fate s' i = some r ↔ ∃ p, (p, r) ∈ emitted step points s l ∧ p.id = i := by
  have hf : ∀ m k m', step m k = some m' → (points m k m' = [] ∧ fate m' = fate m) ∨
      ∃ p r, points m k m' = [(p, r)] ∧ fate m p.id = none ∧
        fate m' = Function.update (fate m) p.id (some r) :=
    fun _ _ _ hi => fate_of_moves (moves_of_step hi)
  refine fate_run Point.id fate hf (fun i => ?_) hr
  rw [fate, hs i]; rfl

/-! ### Invocations -/

theorem call?_setCall {s s₁ : State} {i : ℕ} {p : Phase} (hcalls : s₁.calls = s.calls)
    (hp : Phase.call? p = Phase.call? (s.calls i)) (j : ℕ) :
    Phase.call? ((s₁.setCall i p).calls j) = Phase.call? (s.calls j) := by
  by_cases hj : j = i
  · subst hj
    rwa [calls_setCall_self]
  · rw [calls_setCall_of_ne _ _ hj, hcalls]

/-- A call is about what it was invoked with. -/
theorem call?_of_moves {s s' : State} {l : Label} (h : Moves s l s') (j : ℕ) :
    Phase.call? (s'.calls j) = Phase.call? (s.calls j) ∨
      ∃ call, l = .invoke j call ∧ s.calls j = .idle ∧ s'.calls j = .started call := by
  cases h with
  | tick n => exact Or.inl rfl
  | @invoked i call hi =>
    by_cases hj : j = i
    · subst hj
      exact Or.inr ⟨call, rfl, hi, calls_setCall_self ..⟩
    · exact Or.inl (congrArg Phase.call? (calls_setCall_of_ne s _ hj))
  | missing hi | fetched hi | opened hi | closed hi | refused hi | inserted hi | logged hi
    | voidRefused hi | voided hi => exact Or.inl (call?_setCall rfl (by rw [hi]; rfl) j)

theorem call?_mono {s s' : State} {l : Label} (h : Moves s l s') {j : ℕ} {call : Call}
    (hj : Phase.call? (s.calls j) = some call) : Phase.call? (s'.calls j) = some call := by
  rcases call?_of_moves h j with heq | ⟨_, -, hidle, -⟩
  · rw [heq, hj]
  · rw [hidle] at hj
    cases hj

/-- A call in progress was invoked in the run or before. -/
theorem invoked_of_run {l : List Label} {s s' : State} {i : ℕ} {call : Call}
    (hr : run step s l = some s') (hcall : Phase.call? (s'.calls i) = some call) :
    Phase.call? (s.calls i) = some call ∨ .invoke i call ∈ l := by
  induction l generalizing s with
  | nil =>
    obtain rfl := Option.some.inj hr
    exact Or.inl hcall
  | cons k l ih =>
    obtain ⟨m, hm, hr⟩ := run_cons_some.mp hr
    rcases ih hr with hc | hmem
    · rcases call?_of_moves (moves_of_step hm) i with heq | ⟨call', rfl, -, hstart⟩
      · exact Or.inl (heq ▸ hc)
      · rw [hstart] at hc
        cases hc
        exact Or.inr List.mem_cons_self
    · exact Or.inr (List.mem_cons_of_mem _ hmem)

/-- A point is about the call its number was invoked with. -/
theorem call_of_mem_points {s s' : State} {l : List Label} (hr : run step s l = some s') :
    ∀ p ∈ emitted step points s l, Phase.call? (s'.calls p.1.id) = some p.1.call := by
  refine run_emitted_inv
    (fun m (out : List (Point × Result)) =>
      ∀ p ∈ out, Phase.call? (m.calls p.1.id) = some p.1.call) ?_ (by simp) hr
  intro m k m' out hout hk p hp
  have hmove := moves_of_step hk
  rcases List.mem_append.mp hp with hp | hp
  · exact call?_mono hmove (hout p hp)
  · unfold points at hp
    split at hp
    · simp at hp
    · split at hp
      · next hcall _ _ =>
        rw [List.mem_singleton.mp hp]
        exact call?_mono hmove hcall
      · simp at hp

end KwAwards.Voting.Linearization
