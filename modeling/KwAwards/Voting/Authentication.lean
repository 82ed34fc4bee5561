import KwAwards.Store

/-! # Voter tokens

`authenticate` is `VoterTokenAuthentication.authenticate`: the header names a bearer token, the
token library decodes it (`decode`: signature, expiry and token type, at the instant of the
request), and the voter it names must be stored, verified and not blocked. -/

namespace KwAwards.Voting.Authentication

open KwAwards.Lib.Tables KwAwards.Common.Base KwAwards.Voting.Models KwAwards.Store

/-- The `voter_id` of a token: missing, no UUID, or one. -/
inductive VoterId
  | missing
  | malformed
  | pk (id : Id)
  deriving DecidableEq, Repr

/-- What is read of a decoded token. -/
structure Claims where
  scope : Option String
  voterId : VoterId
  deriving DecidableEq, Repr

/-- `AuthenticationFailed`, with its text. -/
structure AuthenticationFailed where
  detail : String
  deriving DecidableEq, Repr

def voterScope : String := "vote"

/-- `bytes.split()`: ASCII whitespace separates. -/
def splitBytes (s : String) : List String :=
  ((s.toList.splitOnP fun c => (9 ≤ c.toNat && c.toNat ≤ 13) || c.toNat = 32).filter (· ≠ [])).map
    String.ofList

/-- `Voter.objects.filter(pk=…).first()`; an id that is no UUID raises. -/
def voterOf (db : Database) : VoterId → Except AuthenticationFailed (Option Voter)
  | .missing => .ok none
  | .malformed => .error ⟨"Invalid voter token."⟩
  | .pk id => .ok (db.voters.get? id)

/-- **`VoterTokenAuthentication.authenticate`**: `none` leaves the request anonymous. -/
def authenticate (decode : Time → String → Option Claims) (db : Database) (now : Time)
    (header : String) : Except AuthenticationFailed (Option Voter) :=
  match splitBytes header with
  | [] => .ok none
  | scheme :: rest =>
    if lower scheme ≠ "bearer" then .ok none
    else match rest with
      | [token] =>
        match decode now token with
        | none => .error ⟨"Invalid or expired voter token."⟩
        | some claims =>
          if claims.scope ≠ some voterScope then .error ⟨"Token scope does not allow voting."⟩
          else match voterOf db claims.voterId with
            | .error e => .error e
            | .ok none => .error ⟨"Voter is not allowed to vote."⟩
            | .ok (some voter) =>
              if voter.isBlocked ∨ voter.verifiedAt = none then
                .error ⟨"Voter is not allowed to vote."⟩
              else .ok (some voter)
      | _ => .error ⟨"Invalid Authorization header."⟩

/-- **Who is authenticated** is a stored voter, verified and not blocked. -/
theorem authenticate_eq_some {decode : Time → String → Option Claims} {db : Database} {now : Time}
    {header : String} {voter : Voter} (h : authenticate decode db now header = .ok (some voter)) :
    db.voters.get? voter.id = some voter ∧ voter.isBlocked = false ∧
    voter.verifiedAt.isSome = true := by
  unfold authenticate at h
  split at h
  · simp at h
  · split_ifs at h
    · simp at h
    · split at h
      · split at h
        · simp at h
        · next claims _ =>
          split_ifs at h
          split at h
          · simp at h
          · simp at h
          · next v hv =>
            split_ifs at h with hb
            obtain rfl := Option.some.inj (Except.ok.inj h)
            rcases hid : claims.voterId with _ | _ | id
            · simp [hid, voterOf] at hv
            · simp [hid, voterOf] at hv
            · rw [hid] at hv
              have hget : db.voters.get? id = some v := Except.ok.inj hv
              have hkey : v.id = id := Table.key_of_get? hget
              rw [not_or] at hb
              exact ⟨hkey ▸ hget, by simpa using hb.1, Option.isSome_iff_ne_none.mpr hb.2⟩
      · simp at h

example : splitBytes "Bearer  abc" = ["Bearer", "abc"] := by decide

end KwAwards.Voting.Authentication
