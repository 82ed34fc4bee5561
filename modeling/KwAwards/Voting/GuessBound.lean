import KwAwards.Voting.OtpConcurrent

/-! # How often a code can be guessed

Over any interleaving of requests and verifications, `guesses` lists how the verifications end, and
`compares` picks the ones in which a submitted code was compared with the challenge's. The counter
of a challenge is the number of comparisons made (`Counted`), so the limit on the counter bounds
them; `guesses_bounded` adds that a challenge is used up at most once and that a failed call leaves
its increment and one `OTP_FAILED` entry although it raises. -/

namespace KwAwards.Voting.GuessBound

open KwAwards.Lib.Tables KwAwards.Lib.Run KwAwards.Common.Base KwAwards.Common.Exceptions
open KwAwards.Common.SmsBudget KwAwards.Voting.Models KwAwards.Store
open KwAwards.Voting.Otp KwAwards.Voting.OtpConcurrent

/-- The verification that a step ends, with its outcome. -/
def outcomes (_ : State) (l : Label) (s' : State) : List (ℕ × Outcome) :=
  match l with
  | .finish i _ _ =>
    match s'.calls i with
    | .verified _ o _ => [(i, o)]
    | _ => []
  | _ => []

/-- A code was compared with that of the challenge `k`. -/
def compares (k : Id) (x : ℕ × Outcome) : Bool :=
  decide (x.2 = .succeeded k ∨ x.2 = .invalidCode k)

/-- The challenge `k` was used up. -/
def uses (k : Id) (x : ℕ × Outcome) : Bool := decide (x.2 = .succeeded k)

theorem outcomes_of_ne {s s' : State} {l : Label} (h : ∀ j pick ak, l ≠ .finish j pick ak) :
    outcomes s l s' = [] := by
  unfold outcomes
  split
  · next i pick ak => exact absurd rfl (h i pick ak)
  · rfl

@[simp] theorem calls_setCall (s : State) (i : ℕ) (p : Phase) : (s.setCall i p).calls i = p :=
  Function.update_self ..

theorem outcomes_finish {s s' : State} {i : ℕ} {pick : Option Id} {ak : Keys} {a : VerifyArgs}
    {o : Outcome} {r : Except ApiError Voter} (h : s'.calls i = .verified a o r) :
    outcomes s (.finish i pick ak) s' = [(i, o)] := by
  unfold outcomes
  simp only [h]

variable (cfg : OtpSettings)

/-- How the verifications of a run end, in order. -/
def guesses (s : State) (l : List Label) : List (ℕ × Outcome) := emitted (step cfg) outcomes s l

/-- What the challenge table says of the verifications that have ended. -/
structure Counted (s : State) (out : List (ℕ × Outcome)) : Prop where
  absent : ∀ k, s.db.challenges.get? k = none →
    out.countP (compares k) = 0 ∧ out.countP (uses k) = 0
  present : ∀ k c, s.db.challenges.get? k = some c →
    out.countP (compares k) = c.attempts ∧ c.attempts ≤ cfg.maxAttempts ∧
      out.countP (uses k) = if c.consumedAt = none then 0 else 1

variable {cfg} {s s' : State} {out : List (ℕ × Outcome)}

theorem counted_of_fresh (h : s.Fresh) : Counted cfg s [] := by
  refine ⟨fun _ _ => ⟨rfl, rfl⟩, fun k c hk => ?_⟩
  have hm := (Table.get?_eq_some.mp hk).1
  rw [h.empty] at hm
  simp at hm

/-- Steps that change no challenge and end no verification. -/
theorem Counted.keep (h : Counted cfg s out) {l : Label}
    (hc : s'.db.challenges = s.db.challenges) (hl : outcomes s l s' = []) :
    Counted cfg s' (out ++ outcomes s l s') := by
  rw [hl, List.append_nil]
  exact ⟨fun k hk => h.absent k (hc ▸ hk), fun k c hk => h.present k c (hc ▸ hk)⟩

/-- An end without a comparison. -/
theorem Counted.miss (h : Counted cfg s out) (hc : s'.db.challenges = s.db.challenges) (i : ℕ)
    {o : Outcome} (ho : ∀ k, o ≠ .succeeded k ∧ o ≠ .invalidCode k) :
    Counted cfg s' (out ++ [(i, o)]) := by
  have hno : ∀ k, compares k (i, o) = false ∧ uses k (i, o) = false := by
    intro k
    obtain ⟨h₁, h₂⟩ := ho k
    exact ⟨by simp [compares, h₁, h₂], by simp [uses, h₁]⟩
  have hcmp : ∀ k, (out ++ [(i, o)]).countP (compares k) = out.countP (compares k) := by
    intro k
    rw [List.countP_append, List.countP_singleton, (hno k).1]
    rfl
  have huse : ∀ k, (out ++ [(i, o)]).countP (uses k) = out.countP (uses k) := by
    intro k
    rw [List.countP_append, List.countP_singleton, (hno k).2]
    rfl
  refine ⟨fun k hk => ?_, fun k c hk => ?_⟩
  · rw [hcmp, huse]
    exact h.absent k (hc ▸ hk)
  · rw [hcmp, huse]
    exact h.present k c (hc ▸ hk)

/-- A comparison with the open challenge `c`, which becomes `c'`. -/
theorem Counted.compare (h : Counted cfg s out) (i : ℕ) {c : OTPChallenge} (c' : OTPChallenge)
    {o : Outcome} (hc : s.db.challenges.get? c.id = some c) (hopen : c.consumedAt = none)
    (hlt : c.attempts < cfg.maxAttempts) (ho : o = .succeeded c.id ∨ o = .invalidCode c.id)
    (hget : ∀ k, s'.db.challenges.get? k = if k = c.id then some c' else s.db.challenges.get? k)
    (hat : c'.attempts = c.attempts + 1) (hco : c'.consumedAt = none ↔ o ≠ .succeeded c.id) :
    Counted cfg s' (out ++ [(i, o)]) := by
  have hother : ∀ k, k ≠ c.id → compares k (i, o) = false ∧ uses k (i, o) = false := by
    intro k hk
    rcases ho with rfl | rfl <;> simp [compares, uses, Ne.symm hk]
  refine ⟨fun k hk => ?_, fun k d hd => ?_⟩
  · rw [hget] at hk
    split_ifs at hk with hkc
    rw [List.countP_append, List.countP_append, List.countP_singleton, List.countP_singleton,
      (hother k hkc).1, (hother k hkc).2]
    exact h.absent k hk
  · rw [hget] at hd
    rw [List.countP_append, List.countP_append, List.countP_singleton, List.countP_singleton]
    split_ifs at hd with hkc
    · obtain rfl := Option.some.inj hd
      obtain ⟨hcmp, hmax, huse⟩ := h.present c.id c hc
      rw [if_pos hopen] at huse
      have hself : compares c.id (i, o) = true := decide_eq_true ho
      rw [hkc, hself, hcmp, huse, hat, if_pos rfl]
      refine ⟨rfl, hlt, ?_⟩
      by_cases hs : o = .succeeded c.id
      · have hused : uses c.id (i, o) = true := decide_eq_true hs
        rw [hused, if_pos rfl, if_neg fun hn => hco.mp hn hs]
      · have hused : uses c.id (i, o) = false := decide_eq_false hs
        rw [hused, if_pos (hco.mpr hs)]
        rfl
    · rw [(hother k hkc).1, (hother k hkc).2]
      exact h.present k d hd

/-- **Every step keeps the count.** -/
theorem Counted.step (h : Counted cfg s out) {l : Label} (hm : Moves cfg s l s') :
    Counted cfg s' (out ++ outcomes s l s') := by
  cases hm with
  | tick d => exact h.keep rfl rfl
  | blocked => exact h.keep rfl rfl
  | aside hp hp' hl hl' hc => exact h.keep hc (outcomes_of_ne hl)
  | started hi => exact h.keep rfl rfl
  | updated hi => exact h.keep rfl rfl
  | saved hi => exact h.keep rfl rfl
  | @issued i q seen savedAt ck ak db hi hx =>
    -- the new challenge has a fresh key, so nothing was compared with it
    show Counted cfg _ (out ++ [])
    rw [List.append_nil]
    obtain ⟨-, -, hf, -, hget⟩ := issue_eq_some hx
    refine ⟨fun k hk => ?_, fun k c hk => ?_⟩
    · replace hk : db.challenges.get? k = none := hk
      rw [hget] at hk
      split_ifs at hk
      exact h.absent k (Option.map_eq_none_iff.mp hk)
    · replace hk : db.challenges.get? k = some c := hk
      rw [hget] at hk
      split_ifs at hk with hkc
      · rw [hkc, ← Option.some.inj hk, (h.absent _ hf).1, (h.absent _ hf).2]
        exact ⟨rfl, Nat.zero_le _, rfl⟩
      · obtain ⟨d, hd, rfl⟩ := Option.map_eq_some_iff.mp hk
        obtain ⟨t, -, he⟩ := expire_eq q.voter.id q.now (fun k => decide (k ∈ seen)) d
        rw [he]
        exact h.present k d hd
  | @missed i a now voter pick ak db o hp ho hl hc =>
    rw [outcomes_finish (calls_setCall ..)]
    refine h.miss hc i fun k => ?_
    rcases ho with rfl | rfl <;> simp
  | @attempted i a now voter seen c ak db o hi hmem hs hopen hn hx =>
    rw [outcomes_finish (calls_setCall ..)]
    have hc : s.db.challenges.get? c.id = some c := Table.get?_key hmem
    rcases attempt_cases hx with ⟨-, rfl, -, -, hcs⟩ | ⟨hlt, -, rfl, -, -, hcs⟩ |
      ⟨hlt, -, rfl, -, -, hcs⟩
    · exact h.miss hcs i fun k => by simp
    · have hcounted : ∀ k, db.challenges.get? k =
          if k = c.id then some { c with attempts := c.attempts + 1 }
          else s.db.challenges.get? k := by
        intro k
        rw [hcs, get?_countAttempt hc]
      exact h.compare i _ hc hopen.2.1 hlt (Or.inr rfl) hcounted rfl
        (iff_of_true hopen.2.1 (by simp))
    · have hused : ∀ k, db.challenges.get? k =
          if k = c.id then
            some { c with attempts := c.attempts + 1, consumedAt := some now, updatedAt := s.now }
          else s.db.challenges.get? k := by
        intro k
        rw [hcs, get?_consume hc]
      exact h.compare i _ hc hopen.2.1 hlt (Or.inl rfl) hused rfl
        (iff_of_false (Option.some_ne_none _) (by simp))

/-! ### What a failed call leaves -/

/-- A verification that fails raises `InvalidOTP`, and by then its entry is committed, and its
increment when a code was compared. Before its end it writes nothing. -/
def FailureCommitted (s : State) (l : Label) (s' : State) : Prop :=
  match l with
  | .finish i _ _ => ∀ a o r, s'.calls i = .verified a o r → o.isSuccess = false →
      r = .error .invalidOTP ∧ Logged s.db s'.db .otpFailed ∧
        s'.db.challenges =
          match o with
          | .invalidCode k => countAttempt s.db.challenges k
          | _ => s.db.challenges
  | .verify _ _ | .find _ | .select _ => s'.db = s.db
  | _ => True

theorem failureCommitted_of_step {l : Label} (h : step cfg s l = some s') :
    FailureCommitted s l s' := by
  cases l with
  | verify i a =>
    simp only [OtpConcurrent.step] at h
    split at h
    · obtain rfl := Option.some.inj h
      rfl
    · simp at h
  | find i =>
    simp only [OtpConcurrent.step] at h
    split at h
    · obtain rfl := Option.some.inj h
      rfl
    · simp at h
  | select i =>
    simp only [OtpConcurrent.step] at h
    split at h
    · split_ifs at h
      obtain rfl := Option.some.inj h
      rfl
    · simp at h
  | finish i pick ak =>
    intro a o r hv ho
    cases moves_of_step h with
    | aside hp hp' hl => exact absurd rfl (hl i pick ak)
    | missed hp ho' hl hc =>
      rw [calls_setCall] at hv
      obtain ⟨rfl, rfl, rfl⟩ := Phase.verified.inj hv
      refine ⟨result_of_isSuccess ho, hl, ?_⟩
      rcases ho' with rfl | rfl <;> exact hc
    | attempted hi hmem hs hopen hn hx =>
      rw [calls_setCall] at hv
      obtain ⟨rfl, rfl, rfl⟩ := Phase.verified.inj hv
      refine ⟨result_of_isSuccess ho, ?_⟩
      rcases attempt_cases hx with ⟨-, rfl, hl, -, hcs⟩ | ⟨-, -, rfl, hl, -, hcs⟩ | ⟨-, -, rfl, -⟩
      · exact ⟨hl, hcs⟩
      · exact ⟨hl, hcs⟩
      · simp [Outcome.isSuccess] at ho
  | _ => trivial

/-- **Guesses are bounded:** each challenge is compared at most `OTP_MAX_ATTEMPTS` times, as often
as its counter says, and used up at most once; failed calls leave their mark. -/
theorem guesses_bounded {s₀ : State} {l : List Label} (h₀ : s₀.Fresh)
    (hr : run (step cfg) s₀ l = some s) :
    (∀ c ∈ s.db.challenges.rows, (guesses cfg s₀ l).countP (compares c.id) = c.attempts ∧
      c.attempts ≤ cfg.maxAttempts ∧ (guesses cfg s₀ l).countP (uses c.id) ≤ 1) ∧
      Along (step cfg) FailureCommitted s₀ l := by
  have hstep : ∀ s i s' out, Counted cfg s out → step cfg s i = some s' →
      Counted cfg s' (out ++ outcomes s i s') :=
    fun _ _ _ _ hc hs => hc.step (moves_of_step hs)
  have hcount : Counted cfg s (guesses cfg s₀ l) :=
    run_emitted_inv (Counted cfg) hstep (counted_of_fresh h₀) hr
  refine ⟨fun c hc => ?_, ?_⟩
  · obtain ⟨hcmp, hmax, huse⟩ := hcount.present c.id c (Table.get?_key hc)
    refine ⟨hcmp, hmax, ?_⟩
    rw [huse]
    split_ifs <;> omega
  · have hfail : ∀ s i s', True → step cfg s i = some s' → FailureCommitted s i s' :=
      fun _ _ _ _ hs => failureCommitted_of_step hs
    exact along_of_run (fun _ => True) (fun _ _ _ _ _ => trivial) hfail trivial

/-- A wrong and a right guess race for one challenge. -/
def galaGuesses : List Label :=
  [.request 0 galaAsks ⟨60, 2⟩ ⟨70, 1⟩, .reserve 0 ⟨70, 1⟩, .start 0 "123456", .update 0, .save 0,
    .commit 0 ⟨61, 1⟩ ⟨70, 1⟩,
    .verify 1 (galaTries "000000"), .verify 2 (galaTries "123456"), .find 1, .find 2,
    .select 1, .select 2, .finish 1 (some 61) ⟨71, 2⟩, .finish 2 (some 61) ⟨72, 3⟩]

theorem guesses_bounded_gala : ∃ s, run (step galaOtp) galaStart galaGuesses = some s ∧
    (∀ c ∈ s.db.challenges.rows,
      (guesses galaOtp galaStart galaGuesses).countP (compares c.id) = c.attempts ∧
        c.attempts ≤ galaOtp.maxAttempts ∧
        (guesses galaOtp galaStart galaGuesses).countP (uses c.id) ≤ 1) ∧
    Along (step galaOtp) FailureCommitted galaStart galaGuesses := by
  obtain ⟨s, hs⟩ := Option.isSome_iff_exists.mp
    (show (run (step galaOtp) galaStart galaGuesses).isSome = true by decide)
  exact ⟨s, hs, guesses_bounded galaStart_fresh hs⟩

end KwAwards.Voting.GuessBound
