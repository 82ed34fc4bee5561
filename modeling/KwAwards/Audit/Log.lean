import KwAwards.Common.Exceptions

/-! # The audit log

An entry is built by `log` (explicit actors first, else the request's principal) or by
`logVoterEvent`, which refers to a voter only once that voter is verified and otherwise leaves a
masked phone and a keyed hash. `cleanMetadata` is the guard against sensitive keys. -/

namespace KwAwards.Audit.Log

open KwAwards.Lib.Tables KwAwards.Common.Base

/-- What an entry is about. -/
inductive AuditAction
  | nominationSubmitted | nominationApproved | nominationRejected
  | voteCast | voteDuplicate | voteVoided
  | otpRequested | otpVerified | otpFailed
  | eventStatusChanged
  | staffLogin | staffLoginFailed | permissionDenied
  | smsBudgetExhausted
  deriving DecidableEq, Repr

/-- A value of the JSON metadata; `id` is the `str` of a primary key. -/
inductive MetaValue
  | str (s : String)
  | id (i : Id)
  | num (n : ℕ)
  | bool (b : Bool)
  deriving DecidableEq, Repr

abbrev Metadata := List (String × MetaValue)

/-- A model instance an entry points at: its `label_lower` and its primary key. -/
structure Target where
  type : String
  id : Id
  deriving DecidableEq, Repr

/-- A row of `audit_auditlog`. -/
structure AuditLog where
  id : Id
  seq : ℕ
  createdAt : Time
  actorUser : Option Id
  actorVoter : Option Id
  action : AuditAction
  target : Option Target
  metadata : Metadata
  ipAddress : Option String
  userAgent : String
  deriving DecidableEq, Repr

instance : Keyed AuditLog Id := ⟨AuditLog.id⟩

/-- The value stored under a key of the metadata. -/
def AuditLog.meta? (e : AuditLog) (k : String) : Option MetaValue := e.metadata.lookup k

/-- Keys that must never be stored. -/
def forbiddenMetadataKeys : List String :=
  ["code", "otp", "password", "phone", "phone_e164", "token", "secret"]

/-- `none` is the `ValueError` for sensitive keys. -/
def cleanMetadata (m : Metadata) : Option Metadata :=
  if m.any fun kv => forbiddenMetadataKeys.contains (lower kv.1) then none else some m

/-- The staff user an entry is attributed to: the explicit one, else the principal. -/
def actorUserOf (request : Option Request) (actorUser actorVoter : Option Id) : Option Id :=
  match actorUser, actorVoter, request with
  | none, none, some r => match r.principal with
    | .user u => some u
    | _ => none
  | u, _, _ => u

/-- The voter an entry is attributed to: the explicit one, else the principal. -/
def actorVoterOf (request : Option Request) (actorUser actorVoter : Option Id) : Option Id :=
  match actorUser, actorVoter, request with
  | none, none, some r => match r.principal with
    | .voter v => some v
    | _ => none
  | _, v, _ => v

/-- **`audit.services.log`**: the entry written, with the keys `k` at the instant `now`. -/
def log (k : Keys) (now : Time) (action : AuditAction) (request : Option Request)
    (actorUser actorVoter : Option Id) (target : Option Target) (metadata : Metadata) :
    Option AuditLog :=
  (cleanMetadata metadata).map fun metadata =>
    { id := k.id, seq := k.seq, createdAt := now
      actorUser := actorUserOf request actorUser actorVoter
      actorVoter := actorVoterOf request actorUser actorVoter
      action, target, metadata
      ipAddress := request.bind Request.clientIp
      userAgent := slice 300 ((request.map Request.userAgent).getD "") }

theorem log_eq_some {k : Keys} {now : Time} {action : AuditAction} {request : Option Request}
    {actorUser actorVoter : Option Id} {target : Option Target} {metadata : Metadata}
    {e : AuditLog} (h : log k now action request actorUser actorVoter target metadata = some e) :
    e.id = k.id ∧ e.seq = k.seq ∧ e.action = action ∧ e.target = target ∧
      e.metadata = metadata ∧ e.actorUser = actorUserOf request actorUser actorVoter ∧
      e.actorVoter = actorVoterOf request actorUser actorVoter := by
  obtain ⟨m, hm, rfl⟩ := Option.map_eq_some_iff.mp h
  have : m = metadata := by
    unfold cleanMetadata at hm
    split_ifs at hm
    exact (Option.some.inj hm).symm
  exact ⟨rfl, rfl, rfl, rfl, this, rfl, rfl⟩

/-- An entry depends on its keys by its primary key and its `seq` only. -/
theorem log_of_keys {k : Keys} {now : Time} {action : AuditAction} {request : Option Request}
    {actorUser actorVoter : Option Id} {target : Option Target} {metadata : Metadata}
    {e : AuditLog} (h : log k now action request actorUser actorVoter target metadata = some e)
    (k' : Keys) : log k' now action request actorUser actorVoter target metadata =
      some { e with id := k'.id, seq := k'.seq } := by
  obtain ⟨m, hm, rfl⟩ := Option.map_eq_some_iff.mp h
  rw [log, hm]; rfl

/-- Metadata without sensitive keys is written. -/
theorem log_of_clean (k : Keys) (now : Time) (action : AuditAction) (request : Option Request)
    (actorUser actorVoter : Option Id) (target : Option Target) {metadata : Metadata}
    (hm : ∀ kv ∈ metadata, forbiddenMetadataKeys.contains (lower kv.1) = false) :
    ∃ e, log k now action request actorUser actorVoter target metadata = some e ∧ e.id = k.id := by
  have hclean : cleanMetadata metadata = some metadata := by
    unfold cleanMetadata
    rw [if_neg]
    simpa using hm
  unfold log
  rw [hclean]
  exact ⟨_, rfl, rfl⟩

/-- `mask_phone`: `+254712345612` is shown as `+2547******12`. -/
def maskPhone (value : String) : String :=
  let cs := value.toList
  if cs.length ≤ 7 then String.ofList (List.replicate cs.length '*')
  else String.ofList (cs.take 5 ++ List.replicate (cs.length - 7) '*' ++ cs.drop (cs.length - 2))

/-- **`log_voter_event`**: `verified` is whether the voter instance at hand is verified, `hashPhone`
the keyed HMAC of a phone number. -/
def logVoterEvent (hashPhone : String → String) (k : Keys) (now : Time) (action : AuditAction)
    (voter : Option Id) (verified : Bool) (phoneE164 : String) (request : Option Request)
    (target : Option Target) (metadata : Metadata) : Option AuditLog :=
  let masked := metadata ++ [("phone_masked", MetaValue.str (maskPhone phoneE164))]
  if verified then log k now action request none voter target masked
  else log k now action request none none target
    (masked ++ [("phone_hash", MetaValue.str (hashPhone phoneE164))])

theorem action_of_logVoterEvent {hashPhone : String → String} {k : Keys} {now : Time}
    {action : AuditAction} {voter : Option Id} {verified : Bool} {phoneE164 : String}
    {request : Option Request} {target : Option Target} {metadata : Metadata} {e : AuditLog}
    (h : logVoterEvent hashPhone k now action voter verified phoneE164 request target metadata =
      some e) : e.action = action := by
  unfold logVoterEvent at h
  split_ifs at h <;> exact (log_eq_some h).2.2.1

/-- What an entry takes from the request and the clock. -/
structure Stamped (request : Option Request) (now : Time) (e : AuditLog) : Prop where
  ipAddress : e.ipAddress = request.bind Request.clientIp
  userAgent : e.userAgent = slice 300 ((request.map Request.userAgent).getD "")
  createdAt : e.createdAt = now

theorem stamped_of_log {k : Keys} {now : Time} {action : AuditAction} {request : Option Request}
    {actorUser actorVoter : Option Id} {target : Option Target} {metadata : Metadata} {e : AuditLog}
    (h : log k now action request actorUser actorVoter target metadata = some e) :
    Stamped request now e := by
  obtain ⟨m, hm, rfl⟩ := Option.map_eq_some_iff.mp h
  exact ⟨rfl, rfl, rfl⟩

theorem stamped_of_logVoterEvent {hashPhone : String → String} {k : Keys} {now : Time}
    {action : AuditAction} {voter : Option Id} {verified : Bool} {phoneE164 : String}
    {request : Option Request} {target : Option Target} {metadata : Metadata} {e : AuditLog}
    (h : logVoterEvent hashPhone k now action voter verified phoneE164 request target metadata =
      some e) : Stamped request now e := by
  unfold logVoterEvent at h
  split_ifs at h
  · exact stamped_of_log h
  · exact stamped_of_log h

/-- The entry of an anonymous request names no user unless it is told one. -/
theorem actorUser_of_logVoterEvent {hashPhone : String → String} {k : Keys} {now : Time}
    {action : AuditAction} {voter : Option Id} {verified : Bool} {phoneE164 : String}
    {request : Request} {target : Option Target} {metadata : Metadata} {e : AuditLog}
    (h : logVoterEvent hashPhone k now action voter verified phoneE164 (some request) target
      metadata =
      some e) (hr : request.principal = .anonymous) : e.actorUser = none := by
  have hactor : ∀ v, actorUserOf (some request) none v = none := by
    intro v
    cases v with
    | none => simp [actorUserOf, hr]
    | some v => rfl
  unfold logVoterEvent at h
  split_ifs at h
  · rw [(log_eq_some h).2.2.2.2.2.1, hactor]
  · rw [(log_eq_some h).2.2.2.2.2.1, hactor]

end KwAwards.Audit.Log
