import KwAwards.Lib.Run

/-! # Linearization

A concurrent system is linearized by the operations its steps emit: a step emits an operation when
it decides the outcome of a call. `Replays seq` runs such a list one operation after another.

* `replays_of_run`: a forward simulation of the system by the sequential specification `seq` replays
  every run.
* `fate_run`: when each emitted operation decides a call that was undecided, every call is decided
  at most once, and the decided calls are those of the list, with their outcomes.
* `first_take`: the test-and-set slot as a sequential specification; of the takes between two
  releases the first one wins and no other. -/

namespace KwAwards.Lib.Linearize

open KwAwards.Lib.Run

variable {δ ω ρ : Type*}

/-- The operations, one after another, lead from `d` to `d'` with the outcomes noted. -/
def Replays (seq : δ → ω → δ → ρ → Prop) : δ → List (ω × ρ) → δ → Prop
  | d, [], d' => d = d'
  | d, p :: ps, d' => ∃ m, seq d p.1 m p.2 ∧ Replays seq m ps d'

variable {seq : δ → ω → δ → ρ → Prop}

theorem replays_append {ps qs : List (ω × ρ)} {d d' : δ} :
    Replays seq d (ps ++ qs) d' ↔ ∃ m, Replays seq d ps m ∧ Replays seq m qs d' := by
  induction ps generalizing d with
  | nil => simp [Replays]
  | cons p ps ih =>
    simp only [List.cons_append, Replays, ih]
    constructor
    · rintro ⟨k, hk, m, hm, hq⟩
      exact ⟨m, ⟨k, hk, hm⟩, hq⟩
    · rintro ⟨m, ⟨k, hk, hm⟩, hq⟩
      exact ⟨k, hk, m, hm, hq⟩

theorem replays_singleton {o : ω} {r : ρ} {d d' : δ} :
    Replays seq d [(o, r)] d' ↔ seq d o d' r := by
  simp [Replays]

section System

variable {σ ι : Type*} {step : σ → ι → Option σ} {emit : σ → ι → σ → List (ω × ρ)}

/-- **Forward simulation:** what the steps of a run emit replays in the sequential specification. -/
theorem replays_of_run (I : σ → Prop) (hI : ∀ s i s', I s → step s i = some s' → I s')
    (R : σ → δ → Prop)
    (hR : ∀ s i s' d, I s → R s d → step s i = some s' →
      ∃ d', Replays seq d (emit s i s') d' ∧ R s' d')
    {l : List ι} {s s' : σ} {d : δ} (hs : I s) (hd : R s d) (hr : run step s l = some s') :
    ∃ d', Replays seq d (emitted step emit s l) d' ∧ R s' d' := by
  have h : I s' ∧ ∃ k, Replays seq d (emitted step emit s l) k ∧ R s' k := by
    refine run_emitted_inv (fun m out => I m ∧ ∃ k, Replays seq d out k ∧ R m k) ?_
      ⟨hs, d, rfl, hd⟩ hr
    rintro m i m' out ⟨hm, k, hk, hRk⟩ hi
    obtain ⟨k', hk', hRk'⟩ := hR m i m' k hm hRk hi
    exact ⟨hI m i m' hm hi, k', replays_append.mpr ⟨k, hk, hk'⟩, hRk'⟩
  exact h.2

variable {κ : Type*} [DecidableEq κ]

/-- **Every call is decided at most once**, and as the list says. `fate s k` is the outcome that the
call `k` has in the state `s`, if it is decided. -/
theorem fate_run (name : ω → κ) (fate : σ → κ → Option ρ)
    (hf : ∀ s i s', step s i = some s' → (emit s i s' = [] ∧ fate s' = fate s) ∨
      ∃ o r, emit s i s' = [(o, r)] ∧ fate s (name o) = none ∧
        fate s' = Function.update (fate s) (name o) (some r))
    {l : List ι} {s s' : σ} (hs : ∀ k, fate s k = none) (hr : run step s l = some s') :
    ((emitted step emit s l).map fun p => name p.1).Nodup ∧
      ∀ k r, fate s' k = some r ↔ ∃ o, (o, r) ∈ emitted step emit s l ∧ name o = k := by
  refine run_emitted_inv (fun m out => (out.map fun p => name p.1).Nodup ∧
    ∀ k r, fate m k = some r ↔ ∃ o, (o, r) ∈ out ∧ name o = k) ?_ ?_ hr
  · rintro m i m' out ⟨hn, ho⟩ hi
    rcases hf m i m' hi with ⟨he, hfate⟩ | ⟨o, r, he, hnone, hfate⟩
    · rw [he, hfate, List.append_nil]
      exact ⟨hn, ho⟩
    · rw [he, hfate]
      have hnot : ∀ p ∈ out, name p.1 ≠ name o := by
        intro p hp hname
        have hsome := (ho (name o) p.2).mpr ⟨p.1, hp, hname⟩
        rw [hnone] at hsome
        simp at hsome
      refine ⟨?_, fun k r' => ?_⟩
      · rw [List.map_append, List.nodup_append]
        refine ⟨hn, by simp, fun a ha b hb hab => ?_⟩
        obtain ⟨p, hp, rfl⟩ := List.mem_map.mp ha
        simp only [List.map_cons, List.map_nil, List.mem_singleton] at hb
        exact hnot p hp (hab.trans hb)
      · by_cases hk : k = name o
        · subst hk
          simp only [Function.update_self, List.mem_append, List.mem_singleton, Prod.mk.injEq]
          constructor
          · intro h
            exact ⟨o, Or.inr ⟨rfl, (Option.some.inj h).symm⟩, rfl⟩
          · rintro ⟨o', h | ⟨-, hr'⟩, hname⟩
            · exact absurd hname (hnot _ h)
            · rw [hr']
        · rw [Function.update_of_ne hk, ho k r']
          simp only [List.mem_append, List.mem_singleton, Prod.mk.injEq]
          constructor
          · rintro ⟨o', h, hname⟩
            exact ⟨o', Or.inl h, hname⟩
          · rintro ⟨o', h | ⟨rfl, -⟩, hname⟩
            · exact ⟨o', h, hname⟩
            · exact absurd hname.symm hk
  · exact ⟨by simp, fun k r => by simp [hs k]⟩

end System

/-! ### The test-and-set slot -/

inductive SlotOp
  | take
  | release
  deriving DecidableEq, Repr

/-- A take succeeds when the slot is free and leaves it taken; a release frees a taken slot. -/
def slotSeq : Bool → SlotOp → Bool → Bool → Prop
  | taken, .take, taken', ok => ok = !taken ∧ taken' = true
  | taken, .release, taken', ok => taken = true ∧ ok = true ∧ taken' = false

theorem takes_of_taken : ∀ {ps : List (SlotOp × Bool)} {b : Bool}, Replays slotSeq true ps b →
    (∀ p ∈ ps, p.1 = .take) → ps = List.replicate ps.length (.take, false)
  | [], _, _, _ => rfl
  | (.take, ok) :: ps, b, ⟨m, ⟨hok, hm⟩, h⟩, hp => by
    subst hok hm
    have hrest := takes_of_taken h fun p hp' => hp p (List.mem_cons_of_mem _ hp')
    rw [List.length_cons, List.replicate_succ, ← hrest]
    rfl
  | (.release, ok) :: ps, _, _, hp => by
    have := hp (.release, ok) List.mem_cons_self
    simp at this

/-- **After a release, exactly the first take succeeds** until the next release. -/
theorem first_take {pre mid post : List (SlotOp × Bool)} {b b' ok : Bool}
    (h : Replays slotSeq b (pre ++ (.release, ok) :: (mid ++ post)) b')
    (hmid : ∀ p ∈ mid, p.1 = .take) :
    mid = [] ∨ ∃ n, mid = (.take, true) :: List.replicate n (.take, false) := by
  obtain ⟨m, -, k, ⟨-, -, rfl⟩, hk⟩ := replays_append.mp h
  obtain ⟨j, hj, -⟩ := replays_append.mp hk
  rcases mid with _ | ⟨⟨op, r⟩, mid⟩
  · exact Or.inl rfl
  · obtain rfl : op = .take := hmid _ List.mem_cons_self
    obtain ⟨i, ⟨rfl, rfl⟩, hi⟩ := hj
    refine Or.inr ⟨mid.length, ?_⟩
    rw [← takes_of_taken hi fun p hp => hmid p (List.mem_cons_of_mem _ hp)]
    rfl

end KwAwards.Lib.Linearize
