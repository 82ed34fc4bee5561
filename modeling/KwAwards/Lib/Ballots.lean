import KwAwards.Lib.Group
import KwAwards.Lib.Run

/-! # A box of ballots

A box holds at most one ballot of each voter for each post. A ballot is cast where none stands, and
withdrawn where one stands (`step`). What stands after some ballots is the last one of the voter for
the post, unless it is withdrawn (`standing`, `eq_standing`). The ballots that stand for the
candidates of a post are no more than the voters (`sum_tally_le`). -/

namespace KwAwards.Lib.Ballots

open KwAwards.Lib.Group KwAwards.Lib.Run

/-- What each voter of `V` votes for in each post of `P`, among the candidates `C`. -/
def Box (V P C : Type*) := V → P → Option C

/-- What is done to a box. -/
inductive Ballot (V P C : Type*)
  | cast (voter : V) (post : P) (candidate : C)
  | withdraw (voter : V) (post : P)
  deriving DecidableEq, Repr

variable {V P C : Type*}

def Box.empty : Box V P C := fun _ _ => none

section Step

variable [DecidableEq V] [DecidableEq P]

/-- The box with another ballot of a voter for a post. -/
def Box.set (b : Box V P C) (v : V) (p : P) (x : Option C) : Box V P C :=
  fun v' p' => if v' = v ∧ p' = p then x else b v' p'

/-- One ballot for each voter and post. -/
def step (b : Box V P C) : Ballot V P C → Option (Box V P C)
  | .cast v p c => if b v p = none then some (b.set v p (some c)) else none
  | .withdraw v p => if b v p = none then none else some (b.set v p none)

theorem step_cast {b : Box V P C} {v : V} {p : P} (h : b v p = none) (c : C) :
    step b (.cast v p c) = some (b.set v p (some c)) :=
  if_pos h

theorem step_withdraw {b : Box V P C} {v : V} {p : P} (h : b v p ≠ none) :
    step b (.withdraw v p) = some (b.set v p none) :=
  if_neg h

/-- What a ballot leaves of what stands for a voter and a post. -/
def Ballot.after (v : V) (p : P) (x : Option C) : Ballot V P C → Option C
  | .cast v' p' c => if v = v' ∧ p = p' then some c else x
  | .withdraw v' p' => if v = v' ∧ p = p' then none else x

theorem step_eq {b b' : Box V P C} {x : Ballot V P C} (h : step b x = some b') (v : V) (p : P) :
    b' v p = x.after v p (b v p) := by
  cases x with
  | cast v' p' c =>
    simp only [step] at h
    split_ifs at h
    obtain rfl := Option.some.inj h
    rfl
  | withdraw v' p' =>
    simp only [step] at h
    split_ifs at h
    obtain rfl := Option.some.inj h
    rfl

/-- **What stands is the last ballot.** -/
theorem run_eq {b b' : Box V P C} {l : List (Ballot V P C)} (h : run step b l = some b') (v : V)
    (p : P) :
    b' v p = l.foldl (Ballot.after v p) (b v p) := by
  induction l generalizing b with
  | nil =>
    obtain rfl := Option.some.inj h
    rfl
  | cons x l ih =>
    obtain ⟨m, hm, h⟩ := run_cons_some.mp h
    rw [List.foldl_cons, ih h, step_eq hm]

/-- What stands after some ballots. -/
def standing (l : List (Ballot V P C)) : Box V P C := fun v p => l.foldl (Ballot.after v p) none

theorem eq_standing {b : Box V P C} {l : List (Ballot V P C)} (h : run step Box.empty l = some b) :
    b = standing l :=
  funext fun v => funext fun p => run_eq h v p

end Step

section Tally

variable [DecidableEq C]

/-- The ballots of some voters that stand for a candidate. -/
def tally (b : Box V P C) (voters : List V) (p : P) (c : C) : ℕ :=
  (voters.filter fun v => b v p = some c).length

theorem tally_eq_sumAt (b : Box V P C) (voters : List V) (p : P) (c : C) :
    tally b voters p c = sumAt (fun v => b v p) (fun _ => 1) voters (some c) := by
  simp [tally, sumAt]

/-- **One voter, one ballot:** no more ballots stand for candidates of a post than there are
voters. -/
theorem sum_tally_le (b : Box V P C) (voters : List V) (p : P) {cs : List C} (hcs : cs.Nodup) :
    (cs.map (tally b voters p)).sum ≤ voters.length := by
  have hkeys : (cs.map some).Nodup := hcs.map (Option.some_injective C)
  have hsum := sum_keys (fun v => b v p) (fun _ => 1) hkeys voters
  calc (cs.map (tally b voters p)).sum
      = ((cs.map some).map (sumAt (fun v => b v p) (fun _ => 1) voters)).sum := by
        rw [List.map_map]
        exact congrArg List.sum (List.map_congr_left fun c _ => tally_eq_sumAt b voters p c)
    _ = _ := hsum
    _ ≤ voters.length := by
        rw [List.map_const', List.sum_replicate, smul_eq_mul, Nat.mul_one]
        exact List.length_filter_le _ _

end Tally

end KwAwards.Lib.Ballots
