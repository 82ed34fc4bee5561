import Mathlib.Tactic

/-! # Runs of a step function

A system is a step function `step : σ → ι → Option σ`: `ι` are the things that can happen, and
`none` means that the thing named cannot happen in this state. A run is a list of labels.

* `run_inv`: what every step preserves holds at the end of every run, so in every state reached.
* `Sometime P`: some step taken satisfies `P`; `entered_of_run`: what holds at the end and not at
  the start began to hold at a step.
* `Along P`: every step taken satisfies `P`; `along_mono` and `along_congr` go from one such
  condition to another where an invariant holds, and `run_inv_along` is `run_inv` for steps that
  satisfy a condition.
* `emitted`: what the steps of a run emit, in order; `run_emitted_inv` is `run_inv` for a property
  of the state and of what was emitted on the way to it, `simulates` that what is emitted is a run
  of another system, and `spent_of_run` bounds what is spent by what was there and what was
  earned. -/

namespace KwAwards.Lib.Run

variable {σ ι : Type*} {step : σ → ι → Option σ}

/-- The state after the labels of `l`, if each of them can happen. -/
def run (step : σ → ι → Option σ) : σ → List ι → Option σ
  | s, [] => some s
  | s, i :: l => (step s i).bind fun s' => run step s' l

@[simp] theorem run_nil (s : σ) : run step s [] = some s := rfl

@[simp] theorem run_cons (s : σ) (i : ι) (l : List ι) :
    run step s (i :: l) = (step s i).bind fun s' => run step s' l := rfl

theorem run_cons_some {s s' : σ} {i : ι} {l : List ι} :
    run step s (i :: l) = some s' ↔ ∃ m, step s i = some m ∧ run step m l = some s' := by
  rw [run_cons, Option.bind_eq_some_iff]

theorem run_append {s m : σ} {l₁ l₂ : List ι} (h : run step s l₁ = some m) :
    run step s (l₁ ++ l₂) = run step m l₂ := by
  induction l₁ generalizing s with
  | nil =>
    obtain rfl := Option.some.inj h
    rfl
  | cons i l ih =>
    obtain ⟨k, hk, h⟩ := run_cons_some.mp h
    rw [List.cons_append, run_cons, hk, Option.bind_some, ih h]

/-- **The run rule:** what every step preserves holds in every state reached. -/
theorem run_inv (I : σ → Prop) (hI : ∀ s i s', I s → step s i = some s' → I s') {l : List ι}
    {s s' : σ} (h : I s) (hr : run step s l = some s') : I s' := by
  induction l generalizing s with
  | nil =>
    obtain rfl := Option.some.inj hr
    exact h
  | cons i l ih =>
    obtain ⟨m, hm, hr⟩ := run_cons_some.mp hr
    exact ih (hI s i m h hm) hr

/-- What is read of a family of which one member has moved: of the member that moved, or of another
one as it was. -/
theorem read_update_cases {α β γ : Type*} [DecidableEq α] {f : α → β} {i j : α} {p : β} (g : β → γ)
    {x : γ} (h : g (Function.update f i p j) = x) : (j = i ∧ g p = x) ∨ (j ≠ i ∧ g (f j) = x) := by
  rw [Function.update_apply] at h
  split_ifs at h with hj
  · exact Or.inl ⟨hj, h⟩
  · exact Or.inr ⟨hj, h⟩

theorem update_cases {α β : Type*} [DecidableEq α] {f : α → β} {i j : α} {p q : β}
    (h : Function.update f i p j = q) : (j = i ∧ p = q) ∨ (j ≠ i ∧ f j = q) :=
  read_update_cases id h

/-- Some step of the run of `l` from `s` satisfies `P`. -/
def Sometime (step : σ → ι → Option σ) (P : σ → ι → σ → Prop) (s : σ) (l : List ι) : Prop :=
  ∃ l₁ i l₂ m m', l = l₁ ++ i :: l₂ ∧ run step s l₁ = some m ∧ step m i = some m' ∧ P m i m'

theorem Sometime.mono {P Q : σ → ι → σ → Prop} {s : σ} {l : List ι} (h : Sometime step P s l)
    (hPQ : ∀ m i m', step m i = some m' → P m i m' → Q m i m') : Sometime step Q s l := by
  obtain ⟨l₁, i, l₂, m, m', hl, hm, hi, hP⟩ := h
  exact ⟨l₁, i, l₂, m, m', hl, hm, hi, hPQ m i m' hi hP⟩

theorem Sometime.cons {P : σ → ι → σ → Prop} {s m : σ} {i : ι} {l : List ι} (hm : step s i = some m)
    (h : Sometime step P m l) : Sometime step P s (i :: l) := by
  obtain ⟨l₁, j, l₂, k, k', rfl, hk, hj, hP⟩ := h
  exact ⟨i :: l₁, j, l₂, k, k', rfl, run_cons_some.mpr ⟨m, hm, hk⟩, hj, hP⟩

/-- **The origin rule:** what holds at the end of a run and not at its start began to hold at a
step. -/
theorem entered_of_run (R : σ → Prop) {l : List ι} {s s' : σ} (hr : run step s l = some s')
    (h0 : ¬ R s) (h : R s') : Sometime step (fun m _ m' => ¬ R m ∧ R m') s l := by
  induction l generalizing s with
  | nil =>
    obtain rfl := Option.some.inj hr
    exact absurd h h0
  | cons i l ih =>
    obtain ⟨m, hm, hr⟩ := run_cons_some.mp hr
    by_cases hR : R m
    · exact ⟨[], i, l, s, m, rfl, rfl, hm, h0, hR⟩
    · exact (ih hr hR).cons hm

/-! ### Conditions on the steps of a run -/

/-- Every step of the run of `l` from `s` satisfies `P`. -/
def Along (step : σ → ι → Option σ) (P : σ → ι → σ → Prop) : σ → List ι → Prop
  | _, [] => True
  | s, i :: l => ∀ m, step s i = some m → P s i m ∧ Along step P m l

variable {P Q : σ → ι → σ → Prop}

@[simp] theorem along_nil (s : σ) : Along step P s [] := trivial

theorem along_cons {s m : σ} {i : ι} {l : List ι} (h : step s i = some m) :
    Along step P s (i :: l) ↔ P s i m ∧ Along step P m l := by
  simp only [Along, h, Option.some.injEq]
  exact ⟨fun H => H m rfl, fun H m' hm => hm ▸ H⟩

instance decidableAlong [∀ s i m, Decidable (P s i m)] :
    ∀ (s : σ) (l : List ι), Decidable (Along step P s l)
  | _, [] => isTrue trivial
  | s, i :: l =>
    match h : step s i with
    | none => isTrue fun m hm => by rw [h] at hm; cases hm
    | some m =>
      have := decidableAlong m l
      decidable_of_iff (P s i m ∧ Along step P m l) (along_cons h).symm

theorem along_append {s m : σ} {l₁ l₂ : List ι} (h : run step s l₁ = some m) :
    Along step P s (l₁ ++ l₂) ↔ Along step P s l₁ ∧ Along step P m l₂ := by
  induction l₁ generalizing s with
  | nil => cases h; simp
  | cons i l ih =>
    obtain ⟨k, hk, hr⟩ := run_cons_some.mp h
    rw [List.cons_append, along_cons hk, along_cons hk, ih hr, and_assoc]

theorem along_and {s : σ} {l : List ι} (hP : Along step P s l) (hQ : Along step Q s l) :
    Along step (fun s i s' => P s i s' ∧ Q s i s') s l := by
  induction l generalizing s with
  | nil => trivial
  | cons i l ih =>
    intro m hm
    obtain ⟨hp, hP⟩ := (along_cons hm).mp hP
    obtain ⟨hq, hQ⟩ := (along_cons hm).mp hQ
    exact ⟨⟨hp, hq⟩, ih hP hQ⟩

/-- Two conditions that agree on the steps from states with an invariant agree along runs, when the
first one keeps the invariant. -/
theorem along_congr (I : σ → Prop) (hI : ∀ s i s', I s → P s i s' → step s i = some s' → I s')
    (hPQ : ∀ s i s', I s → step s i = some s' → (P s i s' ↔ Q s i s')) {l : List ι} {s : σ}
    (h : I s) : Along step P s l ↔ Along step Q s l := by
  induction l generalizing s with
  | nil => rfl
  | cons i l ih =>
    refine forall₂_congr fun m hm => ?_
    rw [← hPQ s i m h hm]
    exact and_congr_right fun hp => ih (hI s i m h hp hm)

/-- A condition on the steps that keeps an invariant gives what it implies there. -/
theorem along_mono (I : σ → Prop) (hI : ∀ s i s', I s → P s i s' → step s i = some s' → I s')
    (hPQ : ∀ s i s', I s → P s i s' → step s i = some s' → Q s i s') {l : List ι} {s : σ}
    (h : I s) (ha : Along step P s l) : Along step Q s l := by
  induction l generalizing s with
  | nil => trivial
  | cons i l ih =>
    intro m hm
    obtain ⟨hp, ha⟩ := (along_cons hm).mp ha
    exact ⟨hPQ s i m h hp hm, ih (hI s i m h hp hm) ha⟩

/-- What holds of every step from a state with the invariant holds along every run. -/
theorem along_of_run (I : σ → Prop) (hI : ∀ s i s', I s → step s i = some s' → I s')
    (hP : ∀ s i s', I s → step s i = some s' → P s i s') {l : List ι} {s : σ} (h : I s) :
    Along step P s l := by
  induction l generalizing s with
  | nil => trivial
  | cons i l ih =>
    intro m hm
    exact ⟨hP s i m h hm, ih (hI s i m h hm)⟩

theorem along_true (s : σ) (l : List ι) : Along step (fun _ _ _ => True) s l :=
  along_of_run (fun _ => True) (fun _ _ _ _ _ => trivial) (fun _ _ _ _ _ => trivial) trivial

/-- The run rule for steps that satisfy a condition. -/
theorem run_inv_along (I : σ → Prop)
    (hI : ∀ s i s', I s → P s i s' → step s i = some s' → I s') {l : List ι} {s s' : σ} (h : I s)
    (ha : Along step P s l) (hr : run step s l = some s') : I s' := by
  induction l generalizing s with
  | nil =>
    obtain rfl := Option.some.inj hr
    exact h
  | cons i l ih =>
    obtain ⟨m, hm, hr⟩ := run_cons_some.mp hr
    obtain ⟨hp, ha⟩ := (along_cons hm).mp ha
    exact ih (hI s i m h hp hm) ha hr

/-! ### What the steps of a run emit -/

section Emit

variable {α : Type*}

/-- What the steps of the run of `l` from `s` emit, in order. -/
def emitted (step : σ → ι → Option σ) (emit : σ → ι → σ → List α) : σ → List ι → List α
  | _, [] => []
  | s, i :: l =>
    match step s i with
    | none => []
    | some m => emit s i m ++ emitted step emit m l

variable {emit : σ → ι → σ → List α}

@[simp] theorem emitted_nil (s : σ) : emitted step emit s [] = [] := rfl

theorem emitted_cons {s m : σ} {i : ι} {l : List ι} (h : step s i = some m) :
    emitted step emit s (i :: l) = emit s i m ++ emitted step emit m l := by
  simp only [emitted, h]

theorem emitted_append {s m : σ} {l₁ l₂ : List ι} (h : run step s l₁ = some m) :
    emitted step emit s (l₁ ++ l₂) = emitted step emit s l₁ ++ emitted step emit m l₂ := by
  induction l₁ generalizing s with
  | nil => cases h; rfl
  | cons i l ih =>
    obtain ⟨k, hk, hr⟩ := run_cons_some.mp h
    rw [List.cons_append, emitted_cons hk, emitted_cons hk, ih hr, List.append_assoc]

theorem run_emitted_from (J : σ → List α → Prop)
    (hJ : ∀ s i s' out, J s out → step s i = some s' → J s' (out ++ emit s i s')) {l : List ι}
    {s s' : σ} {out : List α} (h : J s out) (hr : run step s l = some s') :
    J s' (out ++ emitted step emit s l) := by
  induction l generalizing s out with
  | nil =>
    obtain rfl := Option.some.inj hr
    rwa [emitted_nil, List.append_nil]
  | cons i l ih =>
    obtain ⟨m, hm, hr⟩ := run_cons_some.mp hr
    rw [emitted_cons hm, ← List.append_assoc]
    exact ih (hJ s i m out h hm) hr

/-- **The run rule with what was emitted:** every step keeps `J` when what it emits is added. -/
theorem run_emitted_inv (J : σ → List α → Prop)
    (hJ : ∀ s i s' out, J s out → step s i = some s' → J s' (out ++ emit s i s'))
    {l : List ι} {s s' : σ} (hs : J s []) (hr : run step s l = some s') :
    J s' (emitted step emit s l) :=
  run_emitted_from J hJ hs hr

/-- **The simulation rule:** where what a step emits takes a second system from what stands for the
state to what stands for the next one, what a run emits is a run of the second system. -/
theorem simulates {τ : Type*} {step' : τ → α → Option τ} (I : σ → Prop) (f : σ → τ)
    (hI : ∀ s i s', I s → step s i = some s' → I s')
    (hf : ∀ s i s', I s → step s i = some s' → run step' (f s) (emit s i s') = some (f s'))
    {l : List ι} {s s' : σ} (h : I s) (hr : run step s l = some s') :
    run step' (f s) (emitted step emit s l) = some (f s') := by
  induction l generalizing s with
  | nil =>
    obtain rfl := Option.some.inj hr
    rfl
  | cons i l ih =>
    obtain ⟨m, hm, hr⟩ := run_cons_some.mp hr
    rw [emitted_cons hm, run_append (hf s i m h hm)]
    exact ih (hI s i m h hm) hr

/-- What is counted of one emission at every step is counted of the other. -/
theorem length_filter_emitted_le {β : Type*} {emit' : σ → ι → σ → List β} {p : α → Bool}
    {q : β → Bool}
    (h : ∀ s i s', step s i = some s' →
      ((emit s i s').filter p).length ≤ ((emit' s i s').filter q).length)
    (s : σ) (l : List ι) :
    ((emitted step emit s l).filter p).length ≤ ((emitted step emit' s l).filter q).length := by
  induction l generalizing s with
  | nil => exact le_rfl
  | cons i l ih =>
    cases hm : step s i with
    | none => simp [emitted, hm]
    | some m =>
      rw [emitted_cons hm, emitted_cons hm, List.filter_append, List.filter_append,
        List.length_append, List.length_append]
      exact Nat.add_le_add (h s i m hm) (ih m)

/-- **The budget rule:** where every step spends at most what it takes from the budget `φ`, to which
each thing earned adds at most `k`, a run spends at most the budget of its start and `k` for each
thing earned. -/
theorem spent_of_run {β : Type*} {earn : σ → ι → σ → List β} (I : σ → Prop) (φ : σ → ℕ) (k : ℕ)
    (hI : ∀ s i s', I s → step s i = some s' → I s')
    (hφ : ∀ s i s', I s → step s i = some s' →
      (emit s i s').length + φ s' ≤ φ s + k * (earn s i s').length) {l : List ι} {s s' : σ}
      (h : I s)
    (hr : run step s l = some s') :
    (emitted step emit s l).length + φ s' ≤ φ s + k * (emitted step earn s l).length := by
  induction l generalizing s with
  | nil =>
    obtain rfl := Option.some.inj hr
    simp
  | cons i l ih =>
    obtain ⟨m, hm, hr⟩ := run_cons_some.mp hr
    have hhead := hφ s i m h hm
    have htail := ih (hI s i m h hm) hr
    rw [emitted_cons hm, emitted_cons hm, List.length_append, List.length_append, Nat.mul_add]
    omega

end Emit

end KwAwards.Lib.Run
