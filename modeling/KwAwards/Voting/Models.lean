import KwAwards.Common.Exceptions

/-! # Voters and one-time codes

The rows of `voting_voter` and `voting_otpchallenge`. A challenge stores a keyed hash of its code,
never the code. -/

namespace KwAwards.Voting.Models

open KwAwards.Lib.Tables KwAwards.Common.Base

/-- A row of `voting_voter`. -/
structure Voter where
  id : Id
  phoneE164 : String
  verifiedAt : Option Time := none
  isBlocked : Bool := false
  seq : ℕ := 0
  createdAt : Time := 0
  updatedAt : Time := 0
  deriving DecidableEq, Repr

inductive OTPPurpose
  | voteLogin
  deriving DecidableEq, Repr

/-- A row of `voting_otpchallenge`. -/
structure OTPChallenge where
  id : Id
  voter : Id
  codeHash : String
  purpose : OTPPurpose := .voteLogin
  expiresAt : Time
  attempts : ℕ := 0
  consumedAt : Option Time := none
  requestedIp : Option String := none
  userAgent : String := ""
  seq : ℕ := 0
  createdAt : Time := 0
  updatedAt : Time := 0
  deriving DecidableEq, Repr

instance : Keyed Voter Id := ⟨Voter.id⟩
instance : Keyed OTPChallenge Id := ⟨OTPChallenge.id⟩

/-- The voter with a phone number. -/
def voterByPhone (t : Table Voter) (phoneE164 : String) : Option Voter :=
  t.rows.find? fun v => v.phoneE164 = phoneE164

theorem voterByPhone_some {t : Table Voter} {p : String} {v : Voter}
    (h : voterByPhone t p = some v) : v ∈ t.rows ∧ v.phoneE164 = p :=
  ⟨List.mem_of_find?_eq_some h, by simpa using List.find?_some h⟩

/-- The primary key of the voter with a phone number. -/
def voterId (t : Table Voter) (phoneE164 : String) : Option Id :=
  (voterByPhone t phoneE164).map Voter.id

theorem voterId_eq_some {t : Table Voter} {p : String} {i : Id} :
    voterId t p = some i ↔ ∃ v, voterByPhone t p = some v ∧ v.id = i :=
  Option.map_eq_some_iff

/-- Two numbers do not share a voter. -/
theorem phone_of_voterId {t : Table Voter} {p p' : String} {i : Id} (h : voterId t p = some i)
    (h' : voterId t p' = some i) : p = p' := by
  obtain ⟨v, hv, hi⟩ := voterId_eq_some.mp h
  obtain ⟨v', hv', hi'⟩ := voterId_eq_some.mp h'
  obtain ⟨hm, rfl⟩ := voterByPhone_some hv
  obtain ⟨hm', rfl⟩ := voterByPhone_some hv'
  rw [Table.eq_of_key hm hm' (hi.trans hi'.symm)]

/-- Changing a row in other columns than the key and the phone does not move a number. -/
theorem voterId_modify (t : Table Voter) (k : Id) (f : Voter → Voter)
    (hf : ∀ v, key (f v) = key v) (hp : ∀ v, (f v).phoneE164 = v.phoneE164) (p : String) :
    voterId (t.modify k f hf) p = voterId t p := by
  have hcomp :
      ((fun v : Voter => decide (v.phoneE164 = p)) ∘ fun v => if key v = k then f v else v) =
      fun v => decide (v.phoneE164 = p) := by
    funext v
    have hphone : (if key v = k then f v else v).phoneE164 = v.phoneE164 := by
      split_ifs
      · exact hp v
      · rfl
    show decide ((if key v = k then f v else v).phoneE164 = p) = decide (v.phoneE164 = p)
    rw [hphone]
  unfold voterId voterByPhone
  rw [Table.rows_modify, List.find?_map, hcomp, Option.map_map]
  refine Option.map_congr fun v _ => ?_
  show (if key v = k then f v else v).id = v.id
  split_ifs
  · exact hf v
  · rfl

/-- A new row is the voter of its number only. -/
theorem voterId_of_new {t t' : Table Voter} {v : Voter} (hr : t'.rows = t.rows ++ [v])
    (hn : voterByPhone t v.phoneE164 = none) (p : String) :
    voterId t' p = if p = v.phoneE164 then some v.id else voterId t p := by
  unfold voterByPhone at hn
  unfold voterId voterByPhone
  rw [hr, List.find?_append]
  split_ifs with h
  · subst h
    rw [hn]; simp
  · simp [Ne.symm h]

end KwAwards.Voting.Models
