import KwAwards.Platform

/-! # Whom the entries name

Every operation of the platform writes at most one entry (`Appends`), and `Writes` says which: its
action, the user it names, and for a vote the voter. An entry carries the address and the user agent
of the request that caused it, and its instant (`Stamped`). -/

namespace KwAwards.Audit.Attribution

open KwAwards.Lib.Tables KwAwards.Lib.Counters KwAwards.Common.Base KwAwards.Common.Exceptions
open KwAwards.Common.SmsBudget KwAwards.Audit.Log KwAwards.Events.Services KwAwards.Events.Views
open KwAwards.Nominations.Services KwAwards.Nominations.Submission KwAwards.Voting.Models
open KwAwards.Voting.Votes KwAwards.Voting.Services KwAwards.Voting.Otp
open KwAwards.Voting.Authentication KwAwards.Voting.Entries KwAwards.Voting.Purge KwAwards.Store
open KwAwards.Platform

/-- The log stays as it is, or an entry with `P` is added. -/
def Appends (P : AuditLog → Prop) (db db' : Database) : Prop :=
  db'.audit = db.audit ∨ ∃ e, db'.audit.rows = db.audit.rows ++ [e] ∧ P e

theorem Appends.of_eq {P : AuditLog → Prop} {db db' : Database} (h : db'.audit = db.audit) :
    Appends P db db' := Or.inl h

theorem Appends.mono {P Q : AuditLog → Prop} {db db' : Database} (h : Appends P db db')
    (hPQ : ∀ e, P e → Q e) : Appends Q db db' :=
  h.imp_right fun ⟨e, hrows, he⟩ => ⟨e, hrows, hPQ e he⟩

theorem Appends.of_write {P : AuditLog → Prop} {db db' : Database} {entry : Option AuditLog}
    (h : db.write entry = some db') (hP : ∀ e, entry = some e → P e) : Appends P db db' := by
  obtain ⟨e, audit, he, -, hrows, rfl⟩ := Database.write_eq_some h
  exact Or.inr ⟨e, hrows, hP e he⟩

/-! ### The voting services -/

/-- An entry for a number that a request of nobody asks about. -/
structure Unnamed (client : Client) (now : Time) (e : AuditLog) : Prop where
  actorUser : e.actorUser = none
  stamped : Stamped (some (client.request .anonymous)) now e

theorem unnamed_of_voterEvent {hashPhone : String → String} {k : Keys} {now : Time}
    {action : AuditAction}
    {voter : Option Voter} {p : String} {client : Client} {target : Option Target}
    {metadata : Metadata} {e : AuditLog}
    (h : voterEvent hashPhone k now action voter p (client.request .anonymous) target metadata =
      some e) :
    e.action = action ∧ Unnamed client now e :=
  ⟨action_of_logVoterEvent h, actorUser_of_logVoterEvent h rfl, stamped_of_logVoterEvent h⟩

theorem appends_requestOtp {cfg : OtpSettings} {db db' : Database} {cache cache' : Cache Time}
    {now : Time} {phoneE164 code : String} {client : Client} {vk ck ak : Keys} {r : Requested}
    (h : requestOtp cfg db cache now phoneE164 (client.request .anonymous) code vk ck ak =
      some (db', cache', r)) :
    Appends (fun e => e.action ∈ voterEventActions ∧ Unnamed client now e) db db' := by
  obtain ⟨⟨db₁, voter⟩, hv, h⟩ := Option.bind_eq_some_iff.mp h
  have haudit : db₁.audit = db.audit := by
    rcases getOrCreateVoter_cases hv with ⟨-, rfl⟩ | ⟨-, -, -, -, -, voters, -, rfl⟩
    · rfl
    · rfl
  have hevent :
      ∀ {d : Database} {action : AuditAction} {target : Option Target} {metadata : Metadata}
      {d' : Database}, d.audit = db.audit → action ∈ voterEventActions →
      d.write
        (voterEvent cfg.hashPhone ak now action (some voter) phoneE164 (client.request .anonymous)
        target metadata) = some d' →
      Appends (fun e => e.action ∈ voterEventActions ∧ Unnamed client now e) db d' := by
    intro d action target metadata d' hd haction hw
    have happends :
        Appends (fun e => e.action ∈ voterEventActions ∧ Unnamed client now e) d d' := by
      refine Appends.of_write hw fun e he => ?_
      obtain ⟨hact, hunnamed⟩ := unnamed_of_voterEvent he
      exact ⟨hact ▸ haction, hunnamed⟩
    unfold Appends at happends ⊢
    rw [← hd]
    exact happends
  simp only at h
  split_ifs at h with hb
  · obtain ⟨d, hw, hd⟩ := Option.map_eq_some_iff.mp h
    obtain ⟨rfl, -⟩ := Prod.mk.inj hd
    exact hevent haudit (by simp [voterEventActions]) hw
  · obtain ⟨⟨db₂, cache₂, r₂⟩, hres, hg⟩ := Option.bind_eq_some_iff.mp h
    rcases reserve_writes hres with ⟨rfl, rfl⟩ | ⟨rfl, count, hw⟩
    · obtain ⟨d, hi, hd⟩ := Option.map_eq_some_iff.mp hg
      obtain ⟨rfl, -⟩ := Prod.mk.inj hd
      obtain ⟨challenges, -, hw⟩ := Option.bind_eq_some_iff.mp hi
      exact hevent (d := { db₂ with challenges }) haudit (by simp [voterEventActions]) hw
    · obtain ⟨rfl, -⟩ := Prod.mk.inj (Option.some.inj hg)
      exact hevent haudit (by simp [voterEventActions]) hw

theorem appends_verifyOtp {cfg : OtpSettings} {db db' : Database} {now : Time}
    {phoneE164 code : String} {client : Client} {ak : Keys} {o : Outcome}
    {r : Except ApiError Voter}
    (h : verifyOtp cfg db now phoneE164 code (client.request .anonymous) ak = some (db', o, r)) :
    Appends (fun e => e.action ∈ [AuditAction.otpVerified, .otpFailed] ∧ Unnamed client now e) db
      db' := by
  have hfailed :
      ∀ {d : Database} {voter : Option Voter} {o o' : Outcome} {attempts : ℕ} {d' : Database},
      d.audit = db.audit → logFailed cfg d voter phoneE164 (client.request .anonymous) now ak o
        attempts =
        some (d', o') →
      Appends (fun e => e.action ∈ [AuditAction.otpVerified, .otpFailed] ∧ Unnamed client now e)
        db d' := by
    intro d voter o o' attempts d' hd hlog
    obtain ⟨d₁, hw, hd₁⟩ := Option.map_eq_some_iff.mp hlog
    obtain ⟨rfl, -⟩ := Prod.mk.inj hd₁
    obtain ⟨e, audit, he, -, hrows, rfl⟩ := Database.write_eq_some hw
    obtain ⟨hact, hunnamed⟩ := unnamed_of_voterEvent he
    exact Or.inr ⟨e, by rw [← hd]; exact hrows, by simp [hact], hunnamed⟩
  obtain ⟨⟨d, o'⟩, hc, hd⟩ := Option.map_eq_some_iff.mp h
  obtain ⟨rfl, -⟩ := Prod.mk.inj hd
  unfold check at hc
  split at hc
  · next v c _ _ =>
    unfold attempt at hc
    split_ifs at hc
    · exact hfailed rfl hc
    · obtain ⟨d₁, hw, hd₁⟩ := Option.map_eq_some_iff.mp hc
      obtain ⟨rfl, -⟩ := Prod.mk.inj hd₁
      obtain ⟨e, audit, he, -, hrows, rfl⟩ := Database.write_eq_some hw
      obtain ⟨-, -, hact, -, -, huser, -⟩ := log_eq_some he
      exact Or.inr ⟨e, hrows, by simp [hact], huser, stamped_of_log he⟩
    · exact hfailed (d := { db with challenges := countAttempt db.challenges c.id }) rfl hc
  · exact hfailed rfl hc

/-- The entry of a cast names its voter and no user. -/
structure OfVoter (client : Client) (now : Time) (voter : Id) (e : AuditLog) : Prop where
  action : e.action ∈ [AuditAction.voteCast, .voteDuplicate]
  actorUser : e.actorUser = none
  actorVoter : e.actorVoter = some voter
  stamped : Stamped (some (client.request (.voter voter))) now e

theorem appends_castFreeVote {db db' : Database} {voter nomination : Id} {client : Client}
    {checkAt now : Time} {vk ak : Keys} {r : Except Raised Vote}
    (h : castFreeVote db voter nomination (client.request (.voter voter)) checkAt now vk ak =
      some (db', r)) : Appends (OfVoter client now voter) db db' := by
  unfold castFreeVote at h
  split at h
  · obtain ⟨rfl, -⟩ := Prod.mk.inj (Option.some.inj h)
    exact .of_eq rfl
  · next c hc =>
    split_ifs at h
    · obtain ⟨⟨db₁, r₁⟩, hx, h⟩ := Option.bind_eq_some_iff.mp h
      rcases insertVote_cases hx with
        ⟨-, ⟨-, rfl, rfl⟩ | ⟨-, rfl, votes, audit, e, -, he, hrows, rfl⟩⟩
      · simp only [isUniqueViolation_iff.mpr, if_true] at h
        obtain ⟨db₂, hw, h⟩ := Option.map_eq_some_iff.mp h
        obtain ⟨rfl, -⟩ := Prod.mk.inj h
        refine .of_write hw fun e he => ?_
        obtain ⟨-, -, hact, -, -, huser, hvoter⟩ := log_eq_some he
        exact ⟨by simp [hact], huser, hvoter, stamped_of_log he⟩
      · obtain ⟨rfl, -⟩ := Prod.mk.inj (Option.some.inj h)
        obtain ⟨-, -, hact, -, -, huser, hvoter⟩ := log_eq_some he
        exact Or.inr ⟨e, hrows, by simp [hact], huser, hvoter, stamped_of_log he⟩
    · obtain ⟨rfl, -⟩ := Prod.mk.inj (Option.some.inj h)
      exact .of_eq rfl

/-! ### The staff services -/

/-- The entry of a user: an action on a target. -/
structure OfUser (action : AuditAction) (user : Id) (target : Target) (request : Option Request)
    (now : Time) (e : AuditLog) : Prop where
  action : e.action = action
  actorUser : e.actorUser = some user
  actorVoter : e.actorVoter = none
  target : e.target = some target
  stamped : Stamped request now e

theorem appends_voidVote {db db' : Database} {vote user : Id} {reason : String}
    {request : Option Request} {now : Time} {ak : Keys} {r : Except Raised Vote}
    (h : voidVote db vote user reason request now ak = some (db', r)) :
    Appends (OfUser .voteVoided user ⟨"voting.vote", vote⟩ request now) db db' := by
  obtain ⟨rfl, -⟩ | ⟨v, -, rfl, -, -, votes, audit, e, -, he, hrows, rfl⟩ := voidVote_cases h
  · exact .of_eq rfl
  · obtain ⟨-, -, hact, htarget, -, huser, hvoter⟩ := log_eq_some he
    refine Or.inr ⟨e, hrows, hact, ?_, ?_, htarget, stamped_of_log he⟩
    · simp [huser, actorUserOf]
    · simp [hvoter, actorVoterOf]

theorem appends_reviewNomination {db db' : Database} {a : ReviewArgs} {now : Time} {ak : Keys}
    {r : Except Raised Nominations.Models.Nomination}
    (h : reviewNomination db a now ak = some (db', r)) :
    Appends (OfUser (reviewAction a) a.reviewer (nominationTarget a.nomination) a.request now) db
      db' := by
  obtain ⟨rfl, -⟩ | ⟨locked, audit, e, hget, -, -, he, hrows, rfl⟩ := reviewNomination_cases h
  · exact .of_eq rfl
  · obtain ⟨-, -, hact, htarget, -, huser, hvoter⟩ := log_eq_some he
    have hid : locked.id = a.nomination := Table.key_of_get? hget
    rw [hid] at htarget
    refine Or.inr ⟨e, hrows, hact, ?_, ?_, htarget, stamped_of_log he⟩
    · simp [huser, actorUserOf]
    · simp [hvoter, actorVoterOf]

theorem appends_changeStatus {db db' : Database} {event : Id} {new : Events.Models.EventStatus}
    {client : Client} {user : Id} {now : Time} {ak : Keys} {r : Except Raised Events.Models.Event}
    (h : changeStatus db event new (some (client.request (.user user))) now ak = some (db', r)) :
    Appends
      (OfUser .eventStatusChanged user (eventTarget event) (some (client.request (.user user))) now)
      db db' := by
  obtain ⟨rfl, -⟩ | ⟨locked, audit, e, -, -, -, he, hrows, rfl⟩ := changeStatus_cases h
  · exact .of_eq rfl
  · obtain ⟨-, -, hact, htarget, -, huser, hvoter⟩ := log_eq_some he
    exact Or.inr ⟨e, hrows, hact, huser, hvoter, htarget, stamped_of_log he⟩

/-- The entry of a submission names the user who submits it, if any. -/
structure OfSubmitter (user : Option Id) (client : Client) (now : Time) (nomination : Id)
    (e : AuditLog) :
    Prop where
  action : e.action = .nominationSubmitted
  actorUser : e.actorUser = user
  actorVoter : e.actorVoter = none
  target : e.target = some (nominationTarget nomination)
  stamped : Stamped (some (client.request (principalOf user))) now e

theorem appends_createNomination {lib : Common.Phone.PhoneNumbers} {clean : Bool → String → String}
    {upper : String → String} {captcha : Bool} {db db' : Database} {a : SubmissionAttrs}
    {user : Option Id} {client : Client} {now : Time} {nominee : Id} {nk ak : Keys}
    {r : Except Raised Nominations.Models.Nomination}
    (h : createNomination lib clean upper captcha db a (client.request (principalOf user)) now
      nominee nk ak =
      some (db', r)) : Appends (OfSubmitter user client now nk.id) db db' := by
  obtain ⟨rfl, -⟩ | ⟨s, nominees, nominations, audit, e, -, -, -, he, hrows, -, rfl⟩ :=
    createNomination_cases h
  · exact .of_eq rfl
  · obtain ⟨-, -, hact, htarget, -, huser, hvoter⟩ := log_eq_some he
    refine Or.inr ⟨e, hrows, hact, ?_, ?_, htarget, stamped_of_log he⟩
    · rw [huser]
      cases user <;> rfl
    · rw [hvoter]
      cases user <;> rfl

/-! ### The catalogue -/

/-- Only events, categories and awards move, and nominations are deleted. -/
def CatalogueOnly (db db' : Database) : Prop :=
  ∃ events categories awards nominations, (∀ n ∈ nominations.rows, n ∈ db.nominations.rows) ∧
    db' = { db with events, categories, awards, nominations }

theorem CatalogueOnly.refl (db : Database) : CatalogueOnly db db :=
  ⟨_, _, _, _, fun _ hn => hn, rfl⟩

theorem catalogueOnly_saveEvent (db : Database) (row : Events.Models.Event) :
    CatalogueOnly db (saveEvent db row).1 := by
  obtain ⟨-, h⟩ | ⟨-, h⟩ := saveEvent_cases db row
  · rw [h]
    exact .refl db
  · rw [h]
    exact ⟨_, _, _, _, fun _ hn => hn, rfl⟩

theorem catalogueOnly_saveCategory (db : Database) (row : Events.Models.Category) :
    CatalogueOnly db (saveCategory db row).1 := by
  obtain h | h := saveCategory_cases db row
  · rw [h]
    exact .refl db
  · rw [h]
    exact ⟨_, _, _, _, fun _ hn => hn, rfl⟩

theorem catalogueOnly_saveAward (db : Database) (row : Events.Models.Award) :
    CatalogueOnly db (saveAward db row).1 := by
  obtain h | h := saveAward_cases db row
  · rw [h]
    exact .refl db
  · rw [h]
    exact ⟨_, _, _, _, fun _ hn => hn, rfl⟩

theorem catalogueOnly_performDestroy (db : Database) (t : Subtree) :
    CatalogueOnly db (performDestroy db t).1 := by
  unfold performDestroy
  split_ifs
  · exact .refl db
  · exact ⟨_, _, _, _, fun _ hn => List.mem_of_mem_filter hn, rfl⟩

/-! ### Every operation -/

/-- **The entry of an operation**, if it writes one. -/
def Writes (cfg : Config) (db : Database) (e : AuditLog) : Op → Prop
  | .submitNomination _ _ user client now _ nk _ => OfSubmitter user client now nk.id e
  | .reviewNomination a now _ =>
    OfUser (reviewAction a) a.reviewer (nominationTarget a.nomination) a.request now e
  | .changeStatus event _ user client now _ =>
    OfUser .eventStatusChanged user (eventTarget event) (some (client.request (.user user))) now e
  | .requestOtp _ client _ now _ _ _ => e.action ∈ voterEventActions ∧ Unnamed client now e
  | .verifyOtp _ _ client now _ =>
    e.action ∈ [AuditAction.otpVerified, .otpFailed] ∧ Unnamed client now e
  | .castVote header _ client authAt _ now _ _ =>
    ∃ voter, authenticate cfg.decode db authAt header = .ok (some voter) ∧
      OfVoter client now voter.id e
  | .voidVote vote user _ client now _ =>
    OfUser .voteVoided user ⟨"voting.vote", vote⟩ (some (client.request (.user user))) now e
  | .createEvent .. | .updateEvent .. | .destroyEvent .. | .createCategory .. | .updateCategory ..
  | .destroyCategory .. | .createAward .. | .updateAward .. | .destroyAward .. | .setBlocked ..
  | .purge .. => False

/-- The views of events, categories and awards. -/
def isCatalogue : Op → Bool
  | .createEvent .. | .updateEvent .. | .destroyEvent .. | .createCategory .. | .updateCategory ..
  | .destroyCategory .. | .createAward .. | .updateAward .. | .destroyAward .. => true
  | _ => false

theorem CatalogueOnly.appends {P : AuditLog → Prop} {db db' : Database} (h : CatalogueOnly db db') :
    Appends P db db' := by
  obtain ⟨_, _, _, _, -, rfl⟩ := h
  exact .of_eq rfl

section Catalogue

variable {cfg : Config} {s s' : State}

/-- **The operations on the catalogue** leave the votes, the voters and the log. -/
theorem catalogueOnly_of_step {op : Op} (h : step cfg s op = some s')
    (hop : isCatalogue op = true) : CatalogueOnly s.db s'.db := by
  cases op with
  | createEvent a now k =>
    obtain ⟨x, hx, rfl⟩ := Option.map_eq_some_iff.mp h
    show CatalogueOnly s.db x.1
    unfold createEvent at hx
    split at hx
    · obtain rfl := Option.some.inj hx
      exact .refl s.db
    · split_ifs at hx
      obtain rfl := Option.some.inj hx
      exact catalogueOnly_saveEvent s.db _
  | updateEvent slug full a now =>
    obtain rfl := Option.some.inj h
    show CatalogueOnly s.db (updateEvent cfg.clean s.db slug full a now).1
    unfold updateEvent
    split
    · exact .refl s.db
    · exact catalogueOnly_saveEvent s.db _
  | destroyEvent slug =>
    obtain rfl := Option.some.inj h
    show CatalogueOnly s.db (destroyEvent s.db slug).1
    unfold destroyEvent
    split
    · exact .refl s.db
    · exact catalogueOnly_performDestroy s.db _
  | createCategory a now k =>
    obtain ⟨x, hx, rfl⟩ := Option.map_eq_some_iff.mp h
    show CatalogueOnly s.db x.1
    unfold createCategory at hx
    split at hx
    · obtain rfl := Option.some.inj hx
      exact .refl s.db
    · split_ifs at hx
      obtain rfl := Option.some.inj hx
      exact catalogueOnly_saveCategory s.db _
  | updateCategory pk full a now =>
    obtain rfl := Option.some.inj h
    show CatalogueOnly s.db (updateCategory cfg.clean s.db pk full a now).1
    unfold updateCategory
    split
    · exact .refl s.db
    · split
      · exact .refl s.db
      · exact catalogueOnly_saveCategory s.db _
  | destroyCategory pk =>
    obtain rfl := Option.some.inj h
    show CatalogueOnly s.db (destroyCategory s.db pk).1
    unfold destroyCategory
    split
    · exact .refl s.db
    · exact catalogueOnly_performDestroy s.db _
  | createAward a now k =>
    obtain ⟨x, hx, rfl⟩ := Option.map_eq_some_iff.mp h
    show CatalogueOnly s.db x.1
    unfold createAward at hx
    split at hx
    · obtain rfl := Option.some.inj hx
      exact .refl s.db
    · split_ifs at hx
      obtain rfl := Option.some.inj hx
      exact catalogueOnly_saveAward s.db _
  | updateAward pk full a now =>
    obtain rfl := Option.some.inj h
    show CatalogueOnly s.db (updateAward cfg.clean s.db pk full a now).1
    unfold updateAward
    split
    · exact .refl s.db
    · split
      · exact .refl s.db
      · exact catalogueOnly_saveAward s.db _
  | destroyAward pk =>
    obtain rfl := Option.some.inj h
    show CatalogueOnly s.db (destroyAward s.db pk).1
    unfold destroyAward
    split
    · exact .refl s.db
    · exact catalogueOnly_performDestroy s.db _
  | _ => cases hop

/-- The operations on voters and their codes. -/
def movesVoters : Op → Bool
  | .requestOtp .. | .verifyOtp .. | .setBlocked .. | .purge .. => true
  | _ => false

/-- The voters and the challenges are as they were. -/
structure VotersKept (db db' : Database) : Prop where
  voters : db'.voters = db.voters
  challenges : db'.challenges = db.challenges

theorem VotersKept.refl (db : Database) : VotersKept db db := ⟨rfl, rfl⟩

theorem votersKept_of_audit {db db' : Database} (h : db' = { db with audit := db'.audit }) :
    VotersKept db db' :=
  ⟨by rw [h], by rw [h]⟩

/-- **The other operations** leave the voters and the challenges. -/
theorem votersKept_of_step {op : Op} (h : step cfg s op = some s') (hop : movesVoters op = false) :
    VotersKept s.db s'.db := by
  cases op with
  | submitNomination captcha a user client now nominee nk ak =>
    obtain ⟨⟨db, x⟩, hx, rfl⟩ := Option.map_eq_some_iff.mp h
    obtain ⟨rfl, -⟩ | ⟨_, _, _, _, _, -, -, -, -, -, -, rfl⟩ := createNomination_cases hx
    · exact .refl s.db
    · exact ⟨rfl, rfl⟩
  | reviewNomination a now ak =>
    obtain ⟨⟨db, x⟩, hx, rfl⟩ := Option.map_eq_some_iff.mp h
    obtain ⟨rfl, -⟩ | ⟨_, _, _, -, -, -, -, -, rfl⟩ := reviewNomination_cases hx
    · exact .refl s.db
    · exact ⟨rfl, rfl⟩
  | changeStatus event new user client now ak =>
    obtain ⟨⟨db, x⟩, hx, rfl⟩ := Option.map_eq_some_iff.mp h
    obtain ⟨rfl, -⟩ | ⟨_, _, _, -, -, -, -, -, rfl⟩ := changeStatus_cases hx
    · exact .refl s.db
    · exact ⟨rfl, rfl⟩
  | castVote header nomination client authAt checkAt now vk ak =>
    simp only [step] at h
    split at h
    · obtain ⟨⟨db, x⟩, hx, rfl⟩ := Option.map_eq_some_iff.mp h
      have hdb := (castFreeVote_cases hx).1
      exact ⟨by rw [hdb], by rw [hdb]⟩
    · obtain rfl := Option.some.inj h
      exact .refl s.db
  | voidVote vote user reason client now ak =>
    obtain ⟨⟨db, x⟩, hx, rfl⟩ := Option.map_eq_some_iff.mp h
    obtain ⟨rfl, -⟩ | ⟨_, -, -, -, -, _, _, _, -, -, -, rfl⟩ := voidVote_cases hx
    · exact .refl s.db
    · exact ⟨rfl, rfl⟩
  | requestOtp _ _ _ _ _ _ _ | verifyOtp _ _ _ _ _ | setBlocked _ _ _ | purge _ _ _ => cases hop
  | _ =>
    obtain ⟨_, _, _, _, -, hdb⟩ := catalogueOnly_of_step h rfl
    exact ⟨by rw [hdb], by rw [hdb]⟩

/-- **Every operation** writes its entry or none. -/
theorem appends_of_step {op : Op} (h : step cfg s op = some s') :
    Appends (fun e => Writes cfg s.db e op) s.db s'.db := by
  cases op with
  | submitNomination captcha a user client now nominee nk ak =>
    obtain ⟨⟨db, r⟩, hx, rfl⟩ := Option.map_eq_some_iff.mp h
    exact appends_createNomination hx
  | reviewNomination a now ak =>
    obtain ⟨⟨db, r⟩, hx, rfl⟩ := Option.map_eq_some_iff.mp h
    exact appends_reviewNomination hx
  | changeStatus event new user client now ak =>
    obtain ⟨⟨db, r⟩, hx, rfl⟩ := Option.map_eq_some_iff.mp h
    exact appends_changeStatus hx
  | requestOtp phoneE164 client code now vk ck ak =>
    obtain ⟨⟨db, cache, r⟩, hx, rfl⟩ := Option.map_eq_some_iff.mp h
    exact appends_requestOtp hx
  | verifyOtp phoneE164 code client now ak =>
    obtain ⟨⟨db, o, r⟩, hx, rfl⟩ := Option.map_eq_some_iff.mp h
    exact appends_verifyOtp hx
  | setBlocked voter blocked now =>
    obtain rfl := Option.some.inj h
    exact .of_eq rfl
  | castVote header nomination client authAt checkAt now vk ak =>
    simp only [step] at h
    split at h
    · next voter hauth =>
      obtain ⟨⟨db, r⟩, hx, rfl⟩ := Option.map_eq_some_iff.mp h
      exact (appends_castFreeVote hx).mono fun e he => ⟨voter, hauth, he⟩
    · obtain rfl := Option.some.inj h
      exact .of_eq rfl
  | voidVote vote user reason client now ak =>
    obtain ⟨⟨db, r⟩, hx, rfl⟩ := Option.map_eq_some_iff.mp h
    exact appends_voidVote hx
  | purge olderThanHours execute now =>
    obtain rfl := Option.some.inj h
    exact .of_eq (by rw [(purged_handle s.db now olderThanHours execute).frame])
  | _ => exact (catalogueOnly_of_step h rfl).appends

end Catalogue

end KwAwards.Audit.Attribution
