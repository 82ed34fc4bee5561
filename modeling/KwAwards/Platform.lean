import KwAwards.Events.Services
import KwAwards.Events.Views
import KwAwards.Lib.Run
import KwAwards.Nominations.Services
import KwAwards.Nominations.Submission
import KwAwards.Voting.Authentication
import KwAwards.Voting.Entries
import KwAwards.Voting.PhoneKeys
import KwAwards.Voting.Purge

/-! # The platform

Every operation of the API, the services and the purge command, each executed at once (`Op`,
`step`). Staff operations carry the user who acts; a vote is cast by whom the header of the request
authenticates, and the OTP views authenticate nobody. The instants are arguments, in any order.

`Effect` says what an operation may do to the rows that votes and audit entries refer to, and
`effect_of_step` that every operation keeps to it. From it follow, for every run, that stored votes
stay legitimate (`legit_of_run`) and that unverified voters stay reclaimable (`reclaimable`). -/

namespace KwAwards.Platform

open KwAwards.Lib.Tables KwAwards.Lib.Counters KwAwards.Lib.Run KwAwards.Common.Base
open KwAwards.Common.Phone KwAwards.Audit.Log KwAwards.Events.Models KwAwards.Events.Serializers
open KwAwards.Events.Services KwAwards.Events.Views KwAwards.Nominations.Models
open KwAwards.Nominations.Services KwAwards.Nominations.Submission KwAwards.Voting.Models
open KwAwards.Voting.Votes KwAwards.Voting.Services KwAwards.Voting.Otp
open KwAwards.Voting.Authentication KwAwards.Voting.Entries KwAwards.Voting.PhoneKeys
open KwAwards.Voting.Purge KwAwards.Store

/-- The settings, and the libraries the code calls. -/
structure Config where
  otp : OtpSettings
  phones : PhoneNumbers
  clean : Bool → String → String
  upper : String → String
  decode : Time → String → Option Claims

/-- The database and the shared cache. -/
structure State where
  db : Database
  cache : Cache Time

/-- An operation, with its arguments, its instants and its fresh keys. -/
inductive Op
  | submitNomination (captcha : Bool) (a : SubmissionAttrs) (user : Option Id) (client : Client)
      (now : Time) (nominee : Id) (nk ak : Keys)
  | reviewNomination (a : ReviewArgs) (now : Time) (ak : Keys)
  | changeStatus (event : Id) (new : EventStatus) (user : Id) (client : Client) (now : Time)
    (ak : Keys)
  | createEvent (a : EventAttrs) (now : Time) (k : Keys)
  | updateEvent (slug : String) (full : Bool) (a : EventAttrs) (now : Time)
  | destroyEvent (slug : String)
  | createCategory (a : CategoryAttrs) (now : Time) (k : Keys)
  | updateCategory (pk : Id) (full : Bool) (a : CategoryAttrs) (now : Time)
  | destroyCategory (pk : Id)
  | createAward (a : AwardAttrs) (now : Time) (k : Keys)
  | updateAward (pk : Id) (full : Bool) (a : AwardAttrs) (now : Time)
  | destroyAward (pk : Id)
  | requestOtp (phoneE164 : String) (client : Client) (code : String) (now : Time) (vk ck ak : Keys)
  | verifyOtp (phoneE164 code : String) (client : Client) (now : Time) (ak : Keys)
  | setBlocked (voter : Id) (blocked : Bool) (now : Time)
  | castVote (header : String) (nomination : Id) (client : Client) (authAt checkAt now : Time)
      (vk ak : Keys)
  | voidVote (vote user : Id) (reason : String) (client : Client) (now : Time) (ak : Keys)
  | purge (olderThanHours : ℤ) (execute : Bool) (now : Time)

/-- Who a staff request, or a public one, is authenticated as. -/
def principalOf : Option Id → Principal
  | some user => .user user
  | none => .anonymous

/-- **One operation**; `none` when a key it is given is taken. -/
def step (cfg : Config) (s : State) : Op → Option State
  | .submitNomination captcha a user client now nominee nk ak =>
    (createNomination cfg.phones cfg.clean cfg.upper captcha s.db a
      (client.request (principalOf user))
      now nominee nk ak).map fun (db, _) => { s with db }
  | .reviewNomination a now ak => (reviewNomination s.db a now ak).map fun (db, _) => { s with db }
  | .changeStatus event new user client now ak =>
    (changeStatus s.db event new (some (client.request (.user user))) now ak).map fun (db, _) =>
      { s with db }
  | .createEvent a now k => (createEvent cfg.clean s.db a now k).map fun (db, _) => { s with db }
  | .updateEvent slug full a now =>
    some { s with db := (updateEvent cfg.clean s.db slug full a now).1 }
  | .destroyEvent slug => some { s with db := (destroyEvent s.db slug).1 }
  | .createCategory a now k =>
    (createCategory cfg.clean s.db a now k).map fun (db, _) => { s with db }
  | .updateCategory pk full a now =>
    some { s with db := (updateCategory cfg.clean s.db pk full a now).1 }
  | .destroyCategory pk => some { s with db := (destroyCategory s.db pk).1 }
  | .createAward a now k => (createAward cfg.clean s.db a now k).map fun (db, _) => { s with db }
  | .updateAward pk full a now => some { s with db := (updateAward cfg.clean s.db pk full a now).1 }
  | .destroyAward pk => some { s with db := (destroyAward s.db pk).1 }
  | .requestOtp phoneE164 client code now vk ck ak =>
    (requestOtp cfg.otp s.db s.cache now phoneE164 (client.request .anonymous) code vk ck ak).map
      fun (db, cache, _) => { s with db, cache }
  | .verifyOtp phoneE164 code client now ak =>
    (verifyOtp cfg.otp s.db now phoneE164 code (client.request .anonymous) ak).map fun (db, _) =>
      { s with db }
  | .setBlocked voter blocked now =>
    some { s with db := { s.db with voters := setBlocked s.db.voters voter blocked now } }
  | .castVote header nomination client authAt checkAt now vk ak =>
    match authenticate cfg.decode s.db authAt header with
    | .ok (some voter) =>
      (castFreeVote s.db voter.id nomination (client.request (.voter voter.id)) checkAt now
        vk ak).map
        fun (db, _) => { s with db }
    | _ => some s
  | .voidVote vote user reason client now ak =>
    (voidVote s.db vote user reason (some (client.request (.user user))) now ak).map fun (db, _) =>
      { s with db }
  | .purge olderThanHours execute now =>
    some { s with db := (handle s.db now olderThanHours execute).1 }

/-! ### What operations keep -/

/-- The statuses an event with votes can have. -/
def votedStatuses : List EventStatus := [.votingOpen, .closed, .resultsPublished]

/-- No edge of the status machine leads back before voting opened. -/
theorem votedStatuses_closed {a b : EventStatus} (ha : a ∈ votedStatuses)
    (hb : b ∈ statusTransitions a) :
    b ∈ votedStatuses := by
  cases a <;> cases b <;> revert ha hb <;> decide

def Approved (db : Database) (nomination : Id) : Prop :=
  ∃ n, db.nominations.get? nomination = some n ∧ n.status = .approved

def Opened (db : Database) (event : Id) : Prop :=
  ∃ e, db.events.get? event = some e ∧ e.status ∈ votedStatuses

def Verified (db : Database) (voter : Id) : Prop :=
  ∃ v, db.voters.get? voter = some v ∧ v.verifiedAt.isSome = true

/-- **A legitimate vote:** its nomination is approved, voting in its event has opened, and its voter
is verified. -/
structure LegitVote (db : Database) (v : Vote) : Prop where
  nomination : Approved db v.nomination
  event : Opened db v.event
  voter : Verified db v.voter

/-- **What an operation may do** to the rows that votes and entries refer to, and to those. -/
structure Effect (db db' : Database) : Prop where
  approved : ∀ v ∈ db.votes.rows, Approved db v.nomination → Approved db' v.nomination
  opened : ∀ v ∈ db.votes.rows, Opened db v.event → Opened db' v.event
  verified : ∀ k, Verified db k → Verified db' k
  votes : ∀ v' ∈ db'.votes.rows, (∃ v ∈ db.votes.rows, v'.immutable = v.immutable) ∨
    LegitVote db' v'
  entries : ∀ e ∈ db'.audit.rows, e ∈ db.audit.rows ∨ ∀ k, e.actorVoter = some k → Verified db' k
  payments : db'.payments = db.payments

theorem votes_kept {db db' : Database} (h : db'.votes = db.votes) :
    ∀ v' ∈ db'.votes.rows, (∃ v ∈ db.votes.rows, v'.immutable = v.immutable) ∨
      LegitVote db' v' := by
  intro v hv
  rw [h] at hv
  exact Or.inl ⟨v, hv, rfl⟩

theorem Effect.refl (db : Database) : Effect db db :=
  ⟨fun _ _ h => h, fun _ _ h => h, fun _ h => h, votes_kept rfl, fun _ he => Or.inl he, rfl⟩

/-- The entries of an operation that refer to no voter. -/
theorem entries_append {db db' : Database} {e : AuditLog}
    (ha : db'.audit.rows = db.audit.rows ++ [e])
    (he : ∀ k, e.actorVoter = some k → Verified db' k) :
    ∀ e' ∈ db'.audit.rows, e' ∈ db.audit.rows ∨ ∀ k, e'.actorVoter = some k → Verified db' k := by
  intro e' he'
  rw [ha] at he'
  rcases List.mem_append.mp he' with hold | hnew
  · exact Or.inl hold
  · rw [List.mem_singleton.mp hnew]
    exact Or.inr he

/-- An operation that leaves the votes, the entries, the voters and the payments. -/
theorem effect_of_content {db db' : Database} (hv : db'.votes = db.votes)
    (ha : db'.audit = db.audit) (hw : db'.voters = db.voters) (hp : db'.payments = db.payments)
    (happroved : ∀ v ∈ db.votes.rows, Approved db v.nomination → Approved db' v.nomination)
    (hopened : ∀ v ∈ db.votes.rows, Opened db v.event → Opened db' v.event) : Effect db db' := by
  refine ⟨happroved, hopened, fun k h => ?_, votes_kept hv, fun e he => ?_, hp⟩
  · unfold Verified at h ⊢
    rw [hw]
    exact h
  · rw [ha] at he
    exact Or.inl he

/-- The entry of a request that no voter makes. -/
theorem actorVoter_of_staff {k : Keys} {now : Time} {action : AuditAction} {request : Request}
    {target : Option Target} {metadata : Metadata} {e : AuditLog}
    (hr : ∀ v, request.principal ≠ .voter v)
    (he : log k now action (some request) none none target metadata = some e) :
    e.actorVoter = none := by
  rw [(log_eq_some he).2.2.2.2.2.2, actorVoterOf]
  rcases hp : request.principal with _ | u | v
  · rfl
  · rfl
  · exact absurd hp (hr v)

/-! ### Events, categories and awards -/

theorem approved_of_eq {db db' : Database} (h : db'.nominations = db.nominations) {k : Id}
    (ha : Approved db k) : Approved db' k := by
  unfold Approved at ha ⊢
  rw [h]
  exact ha

theorem opened_of_eq {db db' : Database} (h : db'.events = db.events) {k : Id} (ho : Opened db k) :
    Opened db' k := by
  unfold Opened at ho ⊢
  rw [h]
  exact ho

/-- A save of an event that keeps the status of the row it replaces. -/
theorem effect_putEvent {db : Database} {row : Event}
    (hrow : ∀ e, db.events.get? row.id = some e → row.status = e.status) :
    Effect db { db with events := db.events.put row } := by
  refine effect_of_content rfl rfl rfl rfl (fun _ _ h => approved_of_eq rfl h) fun v _ hopen => ?_
  obtain ⟨e, he, hs⟩ := hopen
  by_cases hk : v.event = row.id
  · refine ⟨row, ?_, ?_⟩
    · show (db.events.put row).get? v.event = some row
      rw [Table.get?_put]
      exact if_pos hk
    · rw [hrow e (hk ▸ he)]
      exact hs
  · refine ⟨e, ?_, hs⟩
    show (db.events.put row).get? v.event = some e
    rw [Table.get?_put]
    exact (if_neg hk).trans he

theorem effect_saveEvent {db : Database} {row : Event}
    (hrow : ∀ e, db.events.get? row.id = some e → row.status = e.status) :
    Effect db (saveEvent db row).1 := by
  rcases saveEvent_cases db row with ⟨-, h⟩ | ⟨-, h⟩
  · rw [h]
    exact Effect.refl db
  · rw [h]
    exact effect_putEvent hrow

theorem effect_updateEvent (clean : Bool → String → String) (db : Database) (slug : String)
    (full : Bool) (a : EventAttrs) (now : Time) :
    Effect db (updateEvent clean db slug full a now).1 := by
  unfold updateEvent editEvent
  split
  · exact Effect.refl db
  · next e a' he =>
    refine effect_saveEvent fun e' he' => ?_
    split at he
    · simp at he
    · next inst hinst =>
      split at he
      · simp at he
      · obtain ⟨rfl, -⟩ := Prod.mk.inj (Except.ok.inj he)
        have hmem : db.events.get? inst.id = some inst :=
          Table.get?_key (List.mem_of_find?_eq_some hinst)
        obtain rfl := Option.some.inj (hmem.symm.trans he')
        rfl

theorem effect_createEvent {clean : Bool → String → String} {db : Database} {a : EventAttrs}
    {now : Time} {k : Keys} {r : Database × Except Common.Exceptions.Raised Event}
    (h : createEvent clean db a now k = some r) : Effect db r.1 := by
  unfold createEvent at h
  split at h
  · obtain rfl := Option.some.inj h
    exact Effect.refl db
  · split_ifs at h with hk
    obtain rfl := Option.some.inj h
    refine effect_saveEvent fun e he => ?_
    replace he : db.events.get? k.id = some e := he
    simp [he] at hk

/-- A save of a category or an award moves no event and no nomination. -/
theorem effect_saveCategory (db : Database) (row : Category) :
    Effect db (saveCategory db row).1 := by
  rcases saveCategory_cases db row with h | h
  · rw [h]
    exact Effect.refl db
  · rw [h]
    exact effect_of_content rfl rfl rfl rfl (fun _ _ h => approved_of_eq rfl h)
      fun _ _ h => opened_of_eq rfl h

theorem effect_saveAward (db : Database) (row : Award) : Effect db (saveAward db row).1 := by
  rcases saveAward_cases db row with h | h
  · rw [h]
    exact Effect.refl db
  · rw [h]
    exact effect_of_content rfl rfl rfl rfl (fun _ _ h => approved_of_eq rfl h)
      fun _ _ h => opened_of_eq rfl h

theorem effect_updateCategory (clean : Bool → String → String) (db : Database) (pk : Id)
    (full : Bool) (a : CategoryAttrs) (now : Time) :
    Effect db (updateCategory clean db pk full a now).1 := by
  unfold updateCategory
  split
  · exact Effect.refl db
  · split
    · exact Effect.refl db
    · exact effect_saveCategory db _

theorem effect_createCategory {clean : Bool → String → String} {db : Database} {a : CategoryAttrs}
    {now : Time} {k : Keys} {r : Database × Except Common.Exceptions.Raised Category}
    (h : createCategory clean db a now k = some r) : Effect db r.1 := by
  unfold createCategory at h
  split at h
  · obtain rfl := Option.some.inj h
    exact Effect.refl db
  · split_ifs at h
    obtain rfl := Option.some.inj h
    exact effect_saveCategory db _

theorem effect_updateAward (clean : Bool → String → String) (db : Database) (pk : Id) (full : Bool)
    (a : AwardAttrs) (now : Time) : Effect db (updateAward clean db pk full a now).1 := by
  unfold updateAward
  split
  · exact Effect.refl db
  · split
    · exact Effect.refl db
    · exact effect_saveAward db _

theorem effect_createAward {clean : Bool → String → String} {db : Database} {a : AwardAttrs}
    {now : Time} {k : Keys} {r : Database × Except Common.Exceptions.Raised Award}
    (h : createAward clean db a now k = some r) : Effect db r.1 := by
  unfold createAward at h
  split at h
  · obtain rfl := Option.some.inj h
    exact Effect.refl db
  · split_ifs at h
    obtain rfl := Option.some.inj h
    exact effect_saveAward db _

/-- **A delete** is refused when a vote refers to a row of the subtree. -/
theorem effect_performDestroy (db : Database) (t : Subtree) :
    Effect db (performDestroy db t).1 := by
  unfold performDestroy
  split_ifs with hp
  · exact Effect.refl db
  · have hfree : ∀ v ∈ db.votes.rows, v.event ∉ t.events ∧ v.nomination ∉ t.nominations := by
      intro v hv
      simp only [isProtected, Bool.or_eq_true, not_or] at hp
      constructor
      · exact fun hmem => hp.1 (List.any_eq_true.mpr ⟨v, hv, by simp [hmem]⟩)
      · exact fun hmem => hp.1 (List.any_eq_true.mpr ⟨v, hv, by simp [hmem]⟩)
    refine effect_of_content rfl rfl rfl rfl (fun v hv ha => ?_) fun v hv ho => ?_
    · obtain ⟨n, hn, hs⟩ := ha
      have hid : n.id = v.nomination := Table.key_of_get? hn
      refine ⟨n, ?_, hs⟩
      show (db.nominations.filter fun n => n.id ∉ t.nominations).get? v.nomination = some n
      rw [Table.get?_filter, hn, Option.filter_some, if_pos]
      simp [hid, (hfree v hv).2]
    · obtain ⟨e, he, hs⟩ := ho
      have hid : e.id = v.event := Table.key_of_get? he
      refine ⟨e, ?_, hs⟩
      show (db.events.filter fun e => e.id ∉ t.events).get? v.event = some e
      rw [Table.get?_filter, he, Option.filter_some, if_pos]
      simp [hid, (hfree v hv).1]

/-- **A change of status** leads from one of the statuses of an event with votes to another. -/
theorem effect_changeStatus {db db' : Database} {event : Id} {new : EventStatus} {request : Request}
    {now : Time} {ak : Keys} {r : Except Common.Exceptions.Raised Event}
    (hr : ∀ v, request.principal ≠ .voter v)
    (h : changeStatus db event new (some request) now ak = some (db', r)) : Effect db db' := by
  rcases changeStatus_cases h with ⟨rfl, -⟩ | ⟨locked, audit, e, hl, herr, -, he, ha, rfl⟩
  · exact Effect.refl db'
  · have hedge := (statusError_eq_none.mp herr).1
    refine ⟨fun _ _ h => approved_of_eq rfl h, fun v _ ho => ?_, fun _ h => h, votes_kept rfl,
      entries_append ha (by simp [actorVoter_of_staff hr he]), rfl⟩
    obtain ⟨e', he', hs⟩ := ho
    by_cases hk : v.event = event
    · refine ⟨withStatus e' new now, ?_, ?_⟩
      · show (saveStatus db.events event new now).get? v.event = _
        rw [get?_saveStatus, if_pos hk, ← hk, he']
        rfl
      · obtain rfl := Option.some.inj ((hk ▸ he').symm.trans hl)
        exact votedStatuses_closed hs hedge
    · refine ⟨e', ?_, hs⟩
      show (saveStatus db.events event new now).get? v.event = _
      rw [get?_saveStatus, if_neg hk]
      exact he'

theorem effect_destroyEvent (db : Database) (slug : String) :
    Effect db (destroyEvent db slug).1 := by
  unfold destroyEvent
  split
  · exact Effect.refl db
  · exact effect_performDestroy db _

theorem effect_destroyCategory (db : Database) (pk : Id) : Effect db (destroyCategory db pk).1 := by
  unfold destroyCategory
  split
  · exact Effect.refl db
  · exact effect_performDestroy db _

theorem effect_destroyAward (db : Database) (pk : Id) : Effect db (destroyAward db pk).1 := by
  unfold destroyAward
  split
  · exact Effect.refl db
  · exact effect_performDestroy db _

/-! ### Nominations -/

/-- **A submission** adds a nomination, in the place of none. -/
theorem effect_createNomination {lib : PhoneNumbers} {clean : Bool → String → String}
    {upper : String → String} {captcha : Bool} {db db' : Database} {a : SubmissionAttrs}
    {request : Request} {now : Time} {nominee : Id} {nk ak : Keys}
    {r : Except Common.Exceptions.Raised Nomination} (hr : ∀ v, request.principal ≠ .voter v)
    (h : createNomination lib clean upper captcha db a request now nominee nk ak = some (db', r)) :
    Effect db db' := by
  rcases createNomination_cases h with ⟨rfl, -⟩ |
    ⟨s, nominees, nominations, audit, e, -, -, hn, he, ha, -, rfl⟩
  · exact Effect.refl db'
  · refine ⟨fun v _ hv => ?_, fun _ _ h => opened_of_eq rfl h, fun _ h => h, votes_kept rfl,
      entries_append ha (by simp [actorVoter_of_staff hr he]), rfl⟩
    obtain ⟨n, hget, hs⟩ := hv
    refine ⟨n, ?_, hs⟩
    show nominations.get? v.nomination = some n
    rw [Table.get?_of_insert hn, if_neg, hget]
    rintro hk
    have hfree := (Table.insert_eq_some.mp hn).1
    rw [← hk, hget] at hfree
    simp at hfree

/-- **A review** saves a nomination that was pending, so none that was approved. -/
theorem effect_reviewNomination {db db' : Database} {a : ReviewArgs} {now : Time} {ak : Keys}
    {r : Except Common.Exceptions.Raised Nomination}
    (h : reviewNomination db a now ak = some (db', r)) :
    Effect db db' := by
  rcases reviewNomination_cases h with ⟨rfl, -⟩ | ⟨locked, audit, e, hl, hp, -, he, ha, rfl⟩
  · exact Effect.refl db'
  · have hnone : e.actorVoter = none := by
      rw [(log_eq_some he).2.2.2.2.2.2]
      rfl
    refine ⟨fun v _ hv => ?_, fun _ _ h => opened_of_eq rfl h, fun _ h => h, votes_kept rfl,
      entries_append ha (by simp [hnone]), rfl⟩
    obtain ⟨n, hget, hs⟩ := hv
    refine ⟨n, ?_, hs⟩
    show (db.nominations.put (reviewed locked a now)).get? v.nomination = some n
    rw [Table.get?_put, if_neg, hget]
    intro hk
    have hid : locked.id = a.nomination := Table.key_of_get? hl
    replace hk : v.nomination = a.nomination := hk.trans hid
    rw [hk, hl] at hget
    obtain rfl := Option.some.inj hget
    rw [hp] at hs
    simp at hs

/-! ### Voters and votes -/

/-- An operation on the voters, the challenges and the votes. -/
theorem effect_of_entry {db db' : Database} {e : AuditLog} (hn : db'.nominations = db.nominations)
    (hev : db'.events = db.events) (hver : ∀ k, Verified db k → Verified db' k)
    (hvotes : ∀ v' ∈ db'.votes.rows, (∃ v ∈ db.votes.rows, v'.immutable = v.immutable) ∨
      LegitVote db' v')
    (ha : db'.audit.rows = db.audit.rows ++ [e]) (he : ∀ k, e.actorVoter = some k → Verified db' k)
    (hp : db'.payments = db.payments) : Effect db db' :=
  ⟨fun _ _ h => approved_of_eq hn h, fun _ _ h => opened_of_eq hev h, hver, hvotes,
    entries_append ha he, hp⟩

/-- A row that is changed stays verified. -/
theorem verified_modify {db db' : Database} {k : Id} {f : Voter → Voter}
    {hf : ∀ v, key (f v) = key v}
    (hv : ∀ v, v.verifiedAt.isSome = true → (f v).verifiedAt.isSome = true)
    (hdb : db'.voters = db.voters.modify k f hf) {j : Id} (h : Verified db j) : Verified db' j := by
  obtain ⟨v, hget, hs⟩ := h
  by_cases hj : j = k
  · subst hj
    refine ⟨f v, ?_, hv v hs⟩
    rw [hdb, Table.get?_modify, if_pos rfl, hget, Option.map_some]
  · refine ⟨v, ?_, hs⟩
    rw [hdb, Table.get?_modify, if_neg hj, hget]

theorem verified_of_voters {db db' : Database} (h : db'.voters = db.voters) {k : Id}
    (hk : Verified db k) : Verified db' k := by
  unfold Verified at hk ⊢
  rw [h]
  exact hk

theorem verified_markVerified {db db' : Database} {voter : Voter} {now savedAt : Time}
    (hdb : db'.voters = markVerified db.voters voter now savedAt) {k : Id} (h : Verified db k) :
    Verified db' k := by
  unfold markVerified at hdb
  split_ifs at hdb
  · exact verified_modify (fun _ _ => rfl) hdb h
  · exact verified_of_voters hdb h

/-- The voter that a right code verifies. -/
theorem verified_self {db db' : Database} {voter : Voter} {now savedAt : Time}
    (hdb : db'.voters = markVerified db.voters voter now savedAt) (hv : voter ∈ db.voters.rows) :
    Verified db' voter.id := by
  have hget : db.voters.get? voter.id = some voter := Table.get?_key hv
  unfold markVerified at hdb
  split_ifs at hdb with hnone
  · refine ⟨{ voter with verifiedAt := some now, updatedAt := savedAt }, ?_, rfl⟩
    rw [hdb, Table.get?_modify, if_pos rfl, hget, Option.map_some]
  · exact ⟨voter, hdb ▸ hget, Option.isSome_iff_ne_none.mpr hnone⟩

/-- An entry of `log_voter_event` refers to a verified voter only. -/
theorem verified_of_forVoter {hashPhone : String → String} {voter : Option Voter} {p : String}
    {e : AuditLog} {db : Database} (h : ForVoter hashPhone voter p e)
    (hv : ∀ v, voter = some v → v ∈ db.voters.rows) :
    ∀ k, e.actorVoter = some k → Verified db k := by
  intro k hk
  rcases h with ⟨v, hvoter, hver, hactor, -⟩ | ⟨-, hnone, -⟩
  · obtain rfl := Option.some.inj (hactor.symm.trans hk)
    exact ⟨v, Table.get?_key (hv v hvoter), hver⟩
  · simp [hnone] at hk

/-- **A request of a code** leaves the voters, or adds one. -/
theorem effect_requestOtp {cfg : OtpSettings} {db db' : Database} {cache cache' : Cache Time}
    {now : Time} {phoneE164 code : String} {client : Client} {vk ck ak : Keys} {r : Requested}
    (h : requestOtp cfg db cache now phoneE164 (client.request .anonymous) code vk ck ak =
      some (db', cache', r)) : Effect db db' := by
  obtain ⟨db₁, voter, e, challenges, audit, hv, -, ha, -, hfor, rfl⟩ := requestOtp_entry h
  rcases getOrCreateVoter_cases hv with ⟨hfind, rfl⟩ | ⟨-, -, -, -, hk, voters, hrows, rfl⟩
  · refine effect_of_entry rfl rfl (fun _ h => h) (votes_kept rfl) ha
      (verified_of_forVoter hfor fun v hvoter => ?_) rfl
    obtain rfl := Option.some.inj hvoter
    exact (voterByPhone_some hfind).1
  · refine effect_of_entry rfl rfl (fun k hver => ?_) (votes_kept rfl) ha
      (verified_of_forVoter hfor fun v hvoter => ?_) rfl
    · obtain ⟨w, hw, hs⟩ := hver
      obtain ⟨hmem, hid⟩ := Table.get?_eq_some.mp hw
      refine ⟨w, Table.get?_eq_some.mpr ⟨?_, hid⟩, hs⟩
      show w ∈ voters.rows
      rw [hrows]
      exact List.mem_append_left _ hmem
    · obtain rfl := Option.some.inj hvoter
      show voter ∈ voters.rows
      rw [hrows]
      exact List.mem_append_right _ (List.mem_singleton_self voter)

/-- **A verification** leaves the voters, or verifies one. -/
theorem effect_verifyOtp {cfg : OtpSettings} {db db' : Database} {now : Time}
    {phoneE164 code : String} {client : Client} {ak : Keys} {o : Outcome}
    {r : Except Common.Exceptions.ApiError Voter}
    (h : verifyOtp cfg db now phoneE164 code (client.request .anonymous) ak = some (db', o, r)) :
    Effect db db' := by
  obtain ⟨e, challenges, audit, -, ha, ⟨voter, hv, -, hactor, -, rfl⟩ | ⟨-, hfor, rfl⟩⟩ :=
    verifyOtp_entry h
  · refine effect_of_entry rfl rfl (fun k hk => verified_markVerified rfl hk)
      (votes_kept rfl) ha (fun k hk => ?_) rfl
    obtain rfl := Option.some.inj (hactor.symm.trans hk)
    exact verified_self rfl (voterByPhone_some hv).1
  · refine effect_of_entry rfl rfl (fun _ h => h) (votes_kept rfl) ha
      (verified_of_forVoter hfor fun v hvoter => ?_) rfl
    exact (voterByPhone_some hvoter).1

theorem effect_setBlocked (db : Database) (voter : Id) (blocked : Bool) (now : Time) :
    Effect db { db with voters := setBlocked db.voters voter blocked now } := by
  refine ⟨fun _ _ h => approved_of_eq rfl h, fun _ _ h => opened_of_eq rfl h, fun _ h => ?_,
    votes_kept rfl, fun _ he => Or.inl he, rfl⟩
  have hdb : setBlocked db.voters voter blocked now = db.voters.modify voter
    (fun v => { v with isBlocked := blocked, updatedAt := now }) fun _ => rfl := rfl
  refine verified_modify ?_ hdb h
  exact fun _ hv => hv

/-- **A cast** of a verified voter: the vote it adds is legitimate. -/
theorem effect_castFreeVote {db db' : Database} {voter nominationId : Id} {request : Request}
    {checkAt now : Time} {vk ak : Keys} {r : Except Common.Exceptions.Raised Vote}
    (hver : Verified db voter)
    (h : castFreeVote db voter nominationId request checkAt now vk ak = some (db', r)) :
    Effect db db' := by
  rcases castFreeVote_entry h with rfl | ⟨e, votes, audit, -, ha, hactor, -, rfl, hvotes⟩
  · exact Effect.refl db'
  · refine effect_of_entry rfl rfl (fun _ h => h) (fun v' hv' => ?_) ha (fun k hk => ?_) rfl
    · rcases hvotes with rfl | ⟨c, hc, hopen, hrows⟩
      · exact Or.inl ⟨v', hv', rfl⟩
      · replace hv' : v' ∈ votes.rows := hv'
        rw [hrows] at hv'
        rcases List.mem_append.mp hv' with hold | hnew
        · exact Or.inl ⟨v', hold, rfl⟩
        · obtain rfl := List.mem_singleton.mp hnew
          obtain ⟨hj, hvotable⟩ := getNomination_eq_some.mp hc
          obtain ⟨hn, -, -, he⟩ := joined_eq_some.mp hj
          obtain ⟨hid, hlinked⟩ := linked_of_joined hj
          simp only [Candidate.votable, Bool.and_eq_true, decide_eq_true_eq] at hvotable
          refine Or.inr ⟨⟨c.nomination, ?_, hvotable.1.1⟩, ⟨c.event, ?_, ?_⟩, hver⟩
          · show db.nominations.get? c.nomination.id = some c.nomination
            rw [hid, hn]
          · show db.events.get? c.event.id = some c.event
            rw [← hlinked.event, he]
          · rw [(Event.votingIsOpen_iff.mp hopen).1]
            decide
    · obtain rfl := Option.some.inj (hactor.symm.trans hk)
      exact hver

/-- **A void** keeps what a vote was cast for. -/
theorem effect_voidVote {db db' : Database} {vote byUser : Id} {reason : String}
    {request : Option Request} {now : Time} {ak : Keys} {r : Except Common.Exceptions.Raised Vote}
    (h : voidVote db vote byUser reason request now ak = some (db', r)) : Effect db db' := by
  rcases voidVote_entry h with rfl | ⟨w, hw, e, votes, audit, -, ha, hactor, -, rfl, hrows⟩
  · exact Effect.refl db'
  · refine effect_of_entry rfl rfl (fun _ h => h) (fun v' hv' => ?_) ha (by simp [hactor]) rfl
    replace hv' : v' ∈ votes.rows := hv'
    rw [hrows] at hv'
    obtain ⟨v, hv, rfl⟩ := List.mem_map.mp hv'
    refine Or.inl ⟨v, hv, ?_⟩
    split_ifs with hid
    · obtain rfl := VoteTable.eq_of_id hv hw hid
      rfl
    · rfl

/-- **A purge** deletes voters that are not verified. -/
theorem effect_purged {db db' : Database} (h : Purged db db') : Effect db db' := by
  have hver : ∀ k, Verified db k → Verified db' k := by
    rintro k ⟨v, hv, hs⟩
    rcases h.voters k with heq | ⟨-, hnone, -, -⟩
    · exact ⟨v, heq.trans hv, hs⟩
    · simp [hnone v hv] at hs
  have hvotes : db'.votes = db.votes := by rw [h.frame]
  have haudit : db'.audit = db.audit := by rw [h.frame]
  refine ⟨fun _ _ ha => approved_of_eq (by rw [h.frame]) ha,
    fun _ _ ho => opened_of_eq (by rw [h.frame]) ho, hver, votes_kept hvotes, fun e he => ?_, by
      rw [h.frame]⟩
  rw [haudit] at he
  exact Or.inl he

/-- A public request and one of a staff user are made by no voter. -/
theorem principalOf_ne_voter (user : Option Id) : ∀ v, principalOf user ≠ .voter v := by
  intro v
  cases user with
  | none => simp [principalOf]
  | some u => simp [principalOf]

/-- **Every operation keeps to `Effect`.** -/
theorem effect_of_step {cfg : Config} {s s' : State} {op : Op} (h : step cfg s op = some s') :
    Effect s.db s'.db := by
  cases op with
  | submitNomination captcha a user client now nominee nk ak =>
    obtain ⟨⟨db, r⟩, hx, rfl⟩ := Option.map_eq_some_iff.mp h
    exact effect_createNomination (principalOf_ne_voter user) hx
  | reviewNomination a now ak =>
    obtain ⟨⟨db, r⟩, hx, rfl⟩ := Option.map_eq_some_iff.mp h
    exact effect_reviewNomination hx
  | changeStatus event new user client now ak =>
    obtain ⟨⟨db, r⟩, hx, rfl⟩ := Option.map_eq_some_iff.mp h
    exact effect_changeStatus (fun v => by simp [Client.request]) hx
  | createEvent a now k =>
    obtain ⟨⟨db, r⟩, hx, rfl⟩ := Option.map_eq_some_iff.mp h
    exact effect_createEvent hx
  | updateEvent slug full a now =>
    obtain rfl := Option.some.inj h
    exact effect_updateEvent cfg.clean s.db slug full a now
  | destroyEvent slug =>
    obtain rfl := Option.some.inj h
    exact effect_destroyEvent s.db slug
  | createCategory a now k =>
    obtain ⟨⟨db, r⟩, hx, rfl⟩ := Option.map_eq_some_iff.mp h
    exact effect_createCategory hx
  | updateCategory pk full a now =>
    obtain rfl := Option.some.inj h
    exact effect_updateCategory cfg.clean s.db pk full a now
  | destroyCategory pk =>
    obtain rfl := Option.some.inj h
    exact effect_destroyCategory s.db pk
  | createAward a now k =>
    obtain ⟨⟨db, r⟩, hx, rfl⟩ := Option.map_eq_some_iff.mp h
    exact effect_createAward hx
  | updateAward pk full a now =>
    obtain rfl := Option.some.inj h
    exact effect_updateAward cfg.clean s.db pk full a now
  | destroyAward pk =>
    obtain rfl := Option.some.inj h
    exact effect_destroyAward s.db pk
  | requestOtp phoneE164 client code now vk ck ak =>
    obtain ⟨⟨db, cache, r⟩, hx, rfl⟩ := Option.map_eq_some_iff.mp h
    exact effect_requestOtp hx
  | verifyOtp phoneE164 code client now ak =>
    obtain ⟨⟨db, o, r⟩, hx, rfl⟩ := Option.map_eq_some_iff.mp h
    exact effect_verifyOtp hx
  | setBlocked voter blocked now =>
    obtain rfl := Option.some.inj h
    exact effect_setBlocked s.db voter blocked now
  | castVote header nomination client authAt checkAt now vk ak =>
    simp only [step] at h
    split at h
    · next voter hauth =>
      obtain ⟨⟨db, r⟩, hx, rfl⟩ := Option.map_eq_some_iff.mp h
      obtain ⟨hget, -, hver⟩ := authenticate_eq_some hauth
      exact effect_castFreeVote ⟨voter, hget, hver⟩ hx
    · obtain rfl := Option.some.inj h
      exact Effect.refl s.db
  | voidVote vote user reason client now ak =>
    obtain ⟨⟨db, r⟩, hx, rfl⟩ := Option.map_eq_some_iff.mp h
    exact effect_voidVote hx
  | purge olderThanHours execute now =>
    obtain rfl := Option.some.inj h
    exact effect_purged (purged_handle s.db now olderThanHours execute)

/-! ### Every run -/

theorem LegitVote.of_immutable {db : Database} {v v' : Vote} (h : LegitVote db v)
    (hi : v'.immutable = v.immutable) : LegitVote db v' := by
  have hn : v'.nomination = v.nomination := congrArg Immutable.nomination hi
  have he : v'.event = v.event := congrArg Immutable.event hi
  have hv : v'.voter = v.voter := congrArg Immutable.voter hi
  exact ⟨hn ▸ h.nomination, he ▸ h.event, hv ▸ h.voter⟩

/-- Stored votes stay legitimate across an operation. -/
theorem Effect.legit {db db' : Database} (h : Effect db db')
    (hl : ∀ v ∈ db.votes.rows, LegitVote db v) :
    ∀ v' ∈ db'.votes.rows, LegitVote db' v' := by
  intro v' hv'
  rcases h.votes v' hv' with ⟨v, hv, hi⟩ | hnew
  · have hlegit := hl v hv
    have hkept : LegitVote db' v :=
      ⟨h.approved v hv hlegit.nomination, h.opened v hv hlegit.event, h.verified _ hlegit.voter⟩
    exact hkept.of_immutable hi
  · exact hnew

/-- Stored votes stay legitimate across a run. -/
theorem legit_run {cfg : Config} {s s' : State} {ops : List Op}
    (hl : ∀ v ∈ s.db.votes.rows, LegitVote s.db v) (hr : run (step cfg) s ops = some s') :
    ∀ v ∈ s'.db.votes.rows, LegitVote s'.db v := by
  have hstep : ∀ s op s', (∀ v ∈ s.db.votes.rows, LegitVote s.db v) → step cfg s op = some s' →
      ∀ v ∈ s'.db.votes.rows, LegitVote s'.db v := fun _ _ _ hl h => (effect_of_step h).legit hl
  exact run_inv (fun s => ∀ v ∈ s.db.votes.rows, LegitVote s.db v) hstep hl hr

/-- **Stored votes are legitimate** in every state that is reached from one without votes. -/
theorem legit_of_run {cfg : Config} {s s' : State} {ops : List Op} (h0 : s.db.votes.rows = [])
    (hr : run (step cfg) s ops = some s') : ∀ v ∈ s'.db.votes.rows, LegitVote s'.db v := by
  have hstart : ∀ v ∈ s.db.votes.rows, LegitVote s.db v := by simp [h0]
  exact legit_run hstart hr

/-- Kenyan numbers, and one voter token. -/
def demo : Config where
  otp := { hashCode := fun _ code => code, hashPhone := fun p => "hmac:" ++ p }
  phones := kenya
  clean _ s := s
  upper s := s
  decode _ token := if token = "ann" then some ⟨some "vote", .pk 50⟩ else none

/-- A vote is cast and voided, the award it is for is not deleted, and voting closes. -/
def voidedVote : List Op :=
  [.castVote "Bearer ann" 40 {} 140 150 150 ⟨60, 1⟩ ⟨70, 1⟩, .voidVote 60 9 "double" {} 160 ⟨71, 2⟩,
    .destroyAward 20, .changeStatus 1 .closed 9 {} 210 ⟨72, 3⟩]

theorem legit_of_run_voided : ∃ s, run (step demo) ⟨galaDb, .empty⟩ voidedVote = some s ∧
    s.db.votes.rows.length = 1 ∧ ∀ v ∈ s.db.votes.rows, LegitVote s.db v := by
  have hlen : (run (step demo) ⟨galaDb, .empty⟩ voidedVote).map (fun s => s.db.votes.rows.length) =
      some 1 := by decide
  obtain ⟨s, hs, hlen⟩ := Option.map_eq_some_iff.mp hlen
  exact ⟨s, hs, hlen, legit_of_run (by rfl) hs⟩

/-- The entries refer to verified voters only, and there are no payments. -/
structure Attributed (db : Database) : Prop where
  entries : ∀ e ∈ db.audit.rows, ∀ k, e.actorVoter = some k → Verified db k
  payments : db.payments.rows = []

theorem Effect.attributed {db db' : Database} (h : Effect db db') (ha : Attributed db) :
    Attributed db' := by
  refine ⟨fun e he k hk => ?_, h.payments ▸ ha.payments⟩
  rcases h.entries e he with hold | hnew
  · exact h.verified k (ha.entries e hold k hk)
  · exact hnew k hk

/-- A voter that is not verified has no vote, no payment and no entry. -/
theorem unreferenced {db : Database} (hl : ∀ v ∈ db.votes.rows, LegitVote db v)
    (ha : Attributed db) :
    ∀ v ∈ db.voters.rows, v.verifiedAt = none →
      hasVotesOrPayments db v.id = false ∧ isAudited db v.id = false := by
  intro v hv hnone
  have hnot : ¬ Verified db v.id := by
    rintro ⟨w, hw, hs⟩
    obtain rfl := Option.some.inj (hw.symm.trans (Table.get?_key hv))
    simp [hnone] at hs
  constructor
  · rw [Bool.eq_false_iff]
    intro hany
    simp only [hasVotesOrPayments, ha.payments, List.any_nil, Bool.or_false, List.any_eq_true,
      decide_eq_true_eq] at hany
    obtain ⟨w, hw, hid⟩ := hany
    exact hnot (hid ▸ (hl w hw).voter)
  · rw [Bool.eq_false_iff]
    intro hany
    simp only [isAudited, List.any_eq_true, decide_eq_true_eq] at hany
    obtain ⟨e, he, hid⟩ := hany
    exact hnot (ha.entries e he v.id hid)

/-- **Unverified voters stay reclaimable:** in every state that is reached from the empty database
the entries refer to verified voters only, and a purge deletes every unverified voter older than its
cutoff and skips none. -/
theorem reclaimable {cfg : Config} {cache : Cache Time} {s : State} {ops : List Op}
    (hr : run (step cfg) ⟨{}, cache⟩ ops = some s) :
    (∀ e ∈ s.db.audit.rows, ∀ k, e.actorVoter = some k → Verified s.db k) ∧
      ∀ now olderThanHours before, cutoff now olderThanHours = some before →
        ∃ db r, handle s.db now olderThanHours true = (db, some (.executed r)) ∧ r.skipped = 0 ∧
          ∀ v ∈ s.db.voters.rows, v.verifiedAt = none → (v.createdAt : ℤ) < before →
            db.voters.get? v.id = none := by
  have hlegit : ∀ v ∈ s.db.votes.rows, LegitVote s.db v :=
    legit_run (fun _ hv => absurd hv List.not_mem_nil) hr
  have hattributed : Attributed s.db := by
    have hstep : ∀ s op s', Attributed s.db → step cfg s op = some s' → Attributed s'.db :=
      fun _ _ _ ha h => (effect_of_step h).attributed ha
    have hempty : Attributed (⟨{}, cache⟩ : State).db := ⟨by simp, rfl⟩
    exact run_inv (fun s => Attributed s.db) hstep hempty hr
  refine ⟨hattributed.entries, fun now olderThanHours before hcut => ?_⟩
  exact handle_of_unreferenced hcut (unreferenced hlegit hattributed)

/-- A number asks for a code and fails to verify, twice, and is blocked. -/
def unverified : List Op :=
  [.requestOtp "+254712345678" {} "123456" 10 ⟨50, 1⟩ ⟨80, 1⟩ ⟨70, 1⟩,
    .verifyOtp "+254712345678" "000000" {} 20 ⟨71, 2⟩, .setBlocked 50 true 30,
    .requestOtp "+254712345678" {} "123456" 40 ⟨51, 2⟩ ⟨81, 2⟩ ⟨72, 3⟩]

theorem reclaimable_unverified : ∃ s, run (step demo) ⟨{}, .empty⟩ unverified = some s ∧
    s.db.voters.rows.length = 1 ∧
    (∀ e ∈ s.db.audit.rows, ∀ k, e.actorVoter = some k → Verified s.db k) ∧
    ∃ db r, handle s.db 100 0 true = (db, some (.executed r)) ∧ r.skipped = 0 ∧
      ∀ v ∈ s.db.voters.rows, v.verifiedAt = none → (v.createdAt : ℤ) < 100 →
        db.voters.get? v.id = none := by
  have hlen : (run (step demo) ⟨{}, .empty⟩ unverified).map (fun s => s.db.voters.rows.length) =
      some 1 := by decide
  obtain ⟨s, hs, hlen⟩ := Option.map_eq_some_iff.mp hlen
  obtain ⟨hentries, hpurge⟩ := reclaimable hs
  exact ⟨s, hs, hlen, hentries, hpurge 100 0 100 (by decide)⟩

end KwAwards.Platform
