import KwAwards.Audit.Attribution
import KwAwards.Lib.ForeignKeys

/-! # References between the tables

Every reference of a row is to a stored row (`Integrity`): what the serializers and the services
look up before they write, and what a deletion collects or leaves, is all that the foreign keys ask
for. The model does not enforce them, so `integrity_of_step` says that no operation, executed at
once, can break one. -/

namespace KwAwards.References

open KwAwards.Lib.Tables KwAwards.Lib.ForeignKeys KwAwards.Lib.Run KwAwards.Lib.Counters
open KwAwards.Common.Base KwAwards.Common.Exceptions KwAwards.Audit.Log KwAwards.Audit.Attribution
open KwAwards.Events.Models KwAwards.Events.Serializers KwAwards.Events.Services
open KwAwards.Events.Views KwAwards.Nominations.Models KwAwards.Nominations.Services
open KwAwards.Nominations.Submission KwAwards.Voting.Models KwAwards.Voting.Votes
open KwAwards.Voting.Services KwAwards.Voting.Otp KwAwards.Voting.Authentication
open KwAwards.Voting.Entries KwAwards.Voting.Purge KwAwards.Store KwAwards.Platform

/-- **Every reference is to a stored row.** -/
structure Integrity (db : Database) : Prop where
  categoryEvent : Refers db.categories.rows (fun c => some c.event) db.events
  awardCategory : Refers db.awards.rows (fun w => some w.category) db.categories
  nominationNominee : Refers db.nominations.rows (fun n => some n.nominee) db.nominees
  nominationAward : Refers db.nominations.rows (fun n => some n.award) db.awards
  challengeVoter : Refers db.challenges.rows (fun c => some c.voter) db.voters
  voteEvent : Refers db.votes.rows (fun v => some v.event) db.events
  voteAward : Refers db.votes.rows (fun v => some v.award) db.awards
  voteNomination : Refers db.votes.rows (fun v => some v.nomination) db.nominations
  voteVoter : Refers db.votes.rows (fun v => some v.voter) db.voters
  paymentVoter : Refers db.payments.rows (fun p => some p.voter) db.voters
  paymentNomination : Refers db.payments.rows (fun p => some p.nomination) db.nominations
  auditActorVoter : Refers db.audit.rows AuditLog.actorVoter db.voters

/-- The entry that an operation adds names no voter. -/
theorem refers_appends {t t' : Table AuditLog} {voters : Table Voter} {e : AuditLog}
    (h : Refers t.rows AuditLog.actorVoter voters) (hrows : t'.rows = t.rows ++ [e])
    (he : e.actorVoter = none) : Refers t'.rows AuditLog.actorVoter voters := by
  rw [hrows]
  refine h.append fun k hk => ?_
  rw [he] at hk
  cases hk

/-! ### The catalogue -/

theorem related_eq_nil {name : String} {pk : Option Id} {found : Id → Bool} :
    related name pk found = [] ↔ ∀ k, pk = some k → found k = true := by
  unfold related
  cases pk with
  | none => simp
  | some k =>
    cases hk : found k with
    | true => simp [hk]
    | false => simp [hk]

theorem required_eq_nil {full : Bool} {name : String} {present : Bool} :
    required full name present = [] ↔ (full = true → present = true) := by
  unfold required
  cases full <;> cases present <;> simp

variable {clean : Bool → String → String} {db db' : Database}

theorem Integrity.putEvent (h : Integrity db) (row : Event) :
    Integrity { db with events := db.events.put row } :=
  { h with
    categoryEvent := h.categoryEvent.keeps (keeps_put db.events row)
    voteEvent := h.voteEvent.keeps (keeps_put db.events row) }

theorem Integrity.saveEvent (h : Integrity db) (row : Event) : Integrity (saveEvent db row).1 := by
  obtain ⟨-, hdb⟩ | ⟨-, hdb⟩ := saveEvent_cases db row
  · rw [hdb]
    exact h
  · rw [hdb]
    exact h.putEvent row

theorem Integrity.saveCategory (h : Integrity db) {row : Category}
    (hrow : (db.events.get? row.event).isSome = true) : Integrity (saveCategory db row).1 := by
  obtain hdb | hdb := saveCategory_cases db row
  · rw [hdb]
    exact h
  · rw [hdb]
    exact { h with
      categoryEvent := h.categoryEvent.put fun k hk => Option.some.inj hk ▸ hrow
      awardCategory := h.awardCategory.keeps (keeps_put db.categories row) }

theorem Integrity.saveAward (h : Integrity db) {row : Award}
    (hrow : (db.categories.get? row.category).isSome = true) : Integrity (saveAward db row).1 := by
  obtain hdb | hdb := saveAward_cases db row
  · rw [hdb]
    exact h
  · rw [hdb]
    exact { h with
      awardCategory := h.awardCategory.put fun k hk => Option.some.inj hk ▸ hrow
      nominationAward := h.nominationAward.keeps (keeps_put db.awards row)
      voteAward := h.voteAward.keeps (keeps_put db.awards row) }

/-- The event of a category that is accepted. -/
theorem acceptCategory_event {inst : Option Category} {full : Bool} {a a' : CategoryAttrs}
    (h : acceptCategory clean db inst full a = .ok a') :
    (full = true → a'.event.isSome = true) ∧ ∀ k, a'.event = some k →
    (db.events.get? k).isSome = true := by
  obtain ⟨herrors, h⟩ := raiseIf_ok.mp h
  obtain ⟨-, h⟩ := raiseIf_ok.mp h
  obtain ⟨-, h⟩ := raiseIf_ok.mp h
  obtain rfl := Except.ok.inj h
  simp only [List.append_eq_nil_iff] at herrors
  exact ⟨required_eq_nil.mp herrors.1.1.1, related_eq_nil.mp herrors.2⟩

/-- The category of an award that is accepted. -/
theorem acceptAward_category {inst : Option Award} {full : Bool} {a a' : AwardAttrs}
    (h : acceptAward clean db inst full a = .ok a') :
    (full = true → a'.category.isSome = true) ∧
      ∀ k, a'.category = some k → (db.categories.get? k).isSome = true := by
  obtain ⟨herrors, h⟩ := raiseIf_ok.mp h
  obtain ⟨-, h⟩ := raiseIf_ok.mp h
  obtain ⟨-, h⟩ := raiseIf_ok.mp h
  obtain rfl := Except.ok.inj h
  simp only [List.append_eq_nil_iff] at herrors
  exact ⟨required_eq_nil.mp herrors.1.1.1, related_eq_nil.mp herrors.2⟩

/-- A reference that a payload gives, or else the one of the instance. -/
theorem isSome_getD {β : Type} [Keyed β Id] {t : Table β} {sent : Option Id} {stored : Id}
    (hsent : ∀ k, sent = some k → (t.get? k).isSome = true)
    (hstored : (t.get? stored).isSome = true) :
    (t.get? (sent.getD stored)).isSome = true := by
  cases sent with
  | none => exact hstored
  | some k => exact hsent k rfl

/-- A reference that a payload must give. -/
theorem isSome_getD_of_isSome {β : Type} [Keyed β Id] {t : Table β} {sent : Option Id} {d : Id}
    (hsent : ∀ k, sent = some k → (t.get? k).isSome = true) (hgiven : sent.isSome = true) :
    (t.get? (sent.getD d)).isSome = true := by
  cases sent with
  | none => cases hgiven
  | some k => exact hsent k rfl

theorem Integrity.updateEvent (h : Integrity db) (slug : String) (full : Bool) (a : EventAttrs)
    (now : Time) :
    Integrity (updateEvent clean db slug full a now).1 := by
  unfold KwAwards.Events.Views.updateEvent
  split
  · exact h
  · exact h.saveEvent _

theorem Integrity.createEvent {a : EventAttrs} {now : Time} {k : Keys}
    {x : Database × Except Raised Event} (h : Integrity db)
    (hx : createEvent clean db a now k = some x) : Integrity x.1 := by
  unfold KwAwards.Events.Views.createEvent at hx
  split at hx
  · obtain rfl := Option.some.inj hx
    exact h
  · split_ifs at hx
    obtain rfl := Option.some.inj hx
    exact h.saveEvent _

theorem Integrity.updateCategory (h : Integrity db) (pk : Id) (full : Bool) (a : CategoryAttrs)
    (now : Time) :
    Integrity (updateCategory clean db pk full a now).1 := by
  unfold KwAwards.Events.Views.updateCategory
  split
  · exact h
  · next c hc =>
    split
    · exact h
    · next a' ha =>
      have hstored := h.categoryEvent c (Table.get?_eq_some.mp hc).1 c.event rfl
      exact h.saveCategory (isSome_getD (acceptCategory_event ha).2 hstored)

theorem Integrity.createCategory {a : CategoryAttrs} {now : Time} {k : Keys}
    {x : Database × Except Raised Category} (h : Integrity db)
    (hx : createCategory clean db a now k = some x) : Integrity x.1 := by
  unfold KwAwards.Events.Views.createCategory at hx
  split at hx
  · obtain rfl := Option.some.inj hx
    exact h
  · next a' ha =>
    split_ifs at hx
    obtain rfl := Option.some.inj hx
    obtain ⟨hgiven, hsent⟩ := acceptCategory_event ha
    exact h.saveCategory (isSome_getD_of_isSome hsent (hgiven rfl))

theorem Integrity.updateAward (h : Integrity db) (pk : Id) (full : Bool) (a : AwardAttrs)
    (now : Time) :
    Integrity (updateAward clean db pk full a now).1 := by
  unfold KwAwards.Events.Views.updateAward
  split
  · exact h
  · next w hw =>
    split
    · exact h
    · next a' ha =>
      have hstored := h.awardCategory w (Table.get?_eq_some.mp hw).1 w.category rfl
      exact h.saveAward (isSome_getD (acceptAward_category ha).2 hstored)

theorem Integrity.createAward {a : AwardAttrs} {now : Time} {k : Keys}
    {x : Database × Except Raised Award} (h : Integrity db)
    (hx : createAward clean db a now k = some x) : Integrity x.1 := by
  unfold KwAwards.Events.Views.createAward at hx
  split at hx
  · obtain rfl := Option.some.inj hx
    exact h
  · next a' ha =>
    split_ifs at hx
    obtain rfl := Option.some.inj hx
    obtain ⟨hgiven, hsent⟩ := acceptAward_category ha
    exact h.saveAward (isSome_getD_of_isSome hsent (hgiven rfl))

/-- The rows of a deletion, with the rows below them and none that is protected. -/
structure Collected (db : Database) (t : Subtree) : Prop where
  categories : ∀ c ∈ db.categories.rows, c.event ∈ t.events → c.id ∈ t.categories
  awards : ∀ w ∈ db.awards.rows, w.category ∈ t.categories → w.id ∈ t.awards
  nominations : ∀ n ∈ db.nominations.rows, n.award ∈ t.awards → n.id ∈ t.nominations
  votes : ∀ v ∈ db.votes.rows, v.event ∉ t.events ∧ v.award ∉ t.awards ∧
    v.nomination ∉ t.nominations
  payments : ∀ p ∈ db.payments.rows, p.nomination ∉ t.nominations

theorem collected_subtree {events categories awards : List Id}
    (h : isProtected db (subtree db events categories awards) = false) :
    Collected db (subtree db events categories awards) := by
  simp only [isProtected, Bool.or_eq_false_iff, List.any_eq_false, Bool.or_eq_true,
    decide_eq_true_eq, not_or] at h
  refine ⟨fun c hc hin => ?_, fun w hw hin => ?_, fun n hn hin => ?_, fun v hv => ?_, h.2⟩
  · exact List.mem_append_right _
      (List.mem_map.mpr ⟨c, List.mem_filter.mpr ⟨hc, decide_eq_true hin⟩, rfl⟩)
  · exact List.mem_append_right _
      (List.mem_map.mpr ⟨w, List.mem_filter.mpr ⟨hw, decide_eq_true hin⟩, rfl⟩)
  · exact List.mem_map.mpr ⟨n, List.mem_filter.mpr ⟨hn, decide_eq_true hin⟩, rfl⟩
  · obtain ⟨⟨hevent, haward⟩, hnomination⟩ := h.1 v hv
    exact ⟨hevent, haward, hnomination⟩

/-- A row that stays refers to a row that stays. -/
theorem keep_of_notMem {ids : List Id} {k x : Id} (h : k ∉ ids) (hx : some k = some x) :
    decide (x ∉ ids) = true := by
  obtain rfl := Option.some.inj hx
  exact decide_eq_true h

theorem Integrity.cascade {t : Subtree} (h : Integrity db) (ht : Collected db t) :
    Integrity (cascade db t) where
  categoryEvent := h.categoryEvent.filter (fun _ hr => List.mem_of_mem_filter hr)
    fun c hc e _ he => by
    obtain ⟨hmem, hkept⟩ := List.mem_filter.mp hc
    exact keep_of_notMem (fun hin => of_decide_eq_true hkept (ht.categories c hmem hin)) he
  awardCategory := h.awardCategory.filter (fun _ hr => List.mem_of_mem_filter hr)
    fun w hw c _ hc => by
    obtain ⟨hmem, hkept⟩ := List.mem_filter.mp hw
    exact keep_of_notMem (fun hin => of_decide_eq_true hkept (ht.awards w hmem hin)) hc
  nominationNominee := fun n hn => h.nominationNominee n (List.mem_of_mem_filter hn)
  nominationAward := h.nominationAward.filter (fun _ hr => List.mem_of_mem_filter hr)
    fun n hn w _ hw => by
    obtain ⟨hmem, hkept⟩ := List.mem_filter.mp hn
    exact keep_of_notMem (fun hin => of_decide_eq_true hkept (ht.nominations n hmem hin)) hw
  challengeVoter := h.challengeVoter
  voteEvent := h.voteEvent.filter (fun _ hr => hr) fun v hv _ _ he =>
    keep_of_notMem (ht.votes v hv).1 he
  voteAward := h.voteAward.filter (fun _ hr => hr) fun v hv _ _ hw =>
    keep_of_notMem (ht.votes v hv).2.1 hw
  voteNomination := h.voteNomination.filter (fun _ hr => hr)
    fun v hv _ _ hn => keep_of_notMem (ht.votes v hv).2.2 hn
  voteVoter := h.voteVoter
  paymentVoter := h.paymentVoter
  paymentNomination := h.paymentNomination.filter (fun _ hr => hr)
    fun p hp _ _ hn => keep_of_notMem (ht.payments p hp) hn
  auditActorVoter := h.auditActorVoter

/-- **A deletion** takes along what refers to a row that it deletes, and is refused where that is
protected. -/
theorem Integrity.performDestroy (h : Integrity db) (events categories awards : List Id) :
    Integrity (performDestroy db (subtree db events categories awards)).1 := by
  unfold KwAwards.Events.Views.performDestroy
  split_ifs with hprotected
  · exact h
  · exact h.cascade (collected_subtree (Bool.not_eq_true _ ▸ hprotected))

/-! ### Nominations -/

/-- The award of a submission that is accepted. -/
theorem acceptSubmission_award {lib : Common.Phone.PhoneNumbers} {upper : String → String}
    {now : Time} {a : SubmissionAttrs} {d : ValidatedData}
    (h : acceptSubmission lib clean upper db now a = .ok d) :
    (db.awards.get? d.award.id).isSome = true := by
  unfold acceptSubmission at h
  split at h
  · next award event photo phone hsub hphoto hphone =>
    obtain ⟨-, h⟩ := raiseIf_ok.mp h
    split_ifs at h
    obtain rfl := Except.ok.inj h
    obtain ⟨w, hw, hsub⟩ := Option.bind_eq_some_iff.mp hsub
    obtain ⟨c, -, hsub⟩ := Option.bind_eq_some_iff.mp hsub
    obtain ⟨e, -, hsub⟩ := Option.bind_eq_some_iff.mp hsub
    split_ifs at hsub
    obtain ⟨rfl, rfl⟩ := Prod.mk.inj (Option.some.inj hsub)
    exact isSome_key hw
  · cases h

theorem Integrity.createNomination {lib : Common.Phone.PhoneNumbers} {upper : String → String}
    {captcha : Bool} {a : SubmissionAttrs} {client : Client} {user : Option Id} {now : Time}
    {nominee : Id} {nk ak : Keys} {r : Except Raised Nomination} (h : Integrity db)
    (hx : createNomination lib clean upper captcha db a (client.request (principalOf user)) now
      nominee nk ak =
      some (db', r)) : Integrity db' := by
  obtain ⟨rfl, -⟩ | ⟨d, nominees, nominations, audit, e, hd, hnominee, hnomination, he, haudit,
    -, rfl⟩ :=
    createNomination_cases hx
  · exact h
  · have hrows := (Table.insert_eq_some.mp hnomination).2
    have hkeep := keeps_insert hnominee
    have hself : (nominees.get? nominee).isSome = true := isSome_of_insert hnominee
    have hnominees : Refers nominations.rows (fun n => some n.nominee) nominees := by
      rw [hrows]
      exact (h.nominationNominee.keeps hkeep).append fun k hk => Option.some.inj hk ▸ hself
    have hawards : Refers nominations.rows (fun n => some n.award) db.awards := by
      rw [hrows]
      exact h.nominationAward.append fun k hk => Option.some.inj hk ▸ acceptSubmission_award hd
    exact { h with
      nominationNominee := hnominees
      nominationAward := hawards
      voteNomination := h.voteNomination.keeps (keeps_insert hnomination)
      paymentNomination := h.paymentNomination.keeps (keeps_insert hnomination)
      auditActorVoter := refers_appends h.auditActorVoter haudit
        (actorVoter_of_staff (principalOf_ne_voter user) he) }

theorem Integrity.reviewNomination {a : ReviewArgs} {now : Time} {ak : Keys}
    {r : Except Raised Nomination} (h : Integrity db)
    (hx : reviewNomination db a now ak = some (db', r)) : Integrity db' := by
  obtain ⟨rfl, -⟩ | ⟨n, audit, e, hn, -, -, he, haudit, rfl⟩ := reviewNomination_cases hx
  · exact h
  · have hmem := (Table.get?_eq_some.mp hn).1
    exact { h with
      nominationNominee := h.nominationNominee.put (h.nominationNominee n hmem)
      nominationAward := h.nominationAward.put (h.nominationAward n hmem)
      voteNomination := h.voteNomination.keeps (keeps_put _ _)
      paymentNomination := h.paymentNomination.keeps (keeps_put _ _)
      auditActorVoter := refers_appends h.auditActorVoter haudit (log_eq_some he).2.2.2.2.2.2 }

theorem Integrity.changeStatus {event : Id} {new : EventStatus} {request : Request} {now : Time}
    {ak : Keys} {r : Except Raised Event} (h : Integrity db)
    (hr : ∀ v, request.principal ≠ .voter v)
    (hx : changeStatus db event new (some request) now ak = some (db', r)) : Integrity db' := by
  obtain ⟨rfl, -⟩ | ⟨locked, audit, e, -, -, -, he, haudit, rfl⟩ := changeStatus_cases hx
  · exact h
  · have hkeep : Keeps db.events (saveStatus db.events event new now) :=
      keeps_modify db.events event _ _
    exact { h with
      categoryEvent := h.categoryEvent.keeps hkeep
      voteEvent := h.voteEvent.keeps hkeep
      auditActorVoter := refers_appends h.auditActorVoter haudit (actorVoter_of_staff hr he) }

/-! ### Voters and votes -/

/-- The voter of an entry of `log_voter_event`. -/
theorem stored_of_forVoter {hashPhone : String → String} {voter : Option Voter} {p : String}
    {e : AuditLog} {voters : Table Voter} (h : ForVoter hashPhone voter p e)
    (hv : ∀ v, voter = some v → v ∈ voters.rows) :
    ∀ k, e.actorVoter = some k → (voters.get? k).isSome = true := by
  intro k hk
  obtain ⟨v, hvoter, -, hactor, -⟩ | ⟨-, hnone, -⟩ := h
  · obtain rfl := Option.some.inj (hactor.symm.trans hk)
    exact Option.isSome_iff_exists.mpr ⟨v, Table.get?_key (hv v hvoter)⟩
  · rw [hnone] at hk
    cases hk

/-- Other voters, challenges and entries, for voters that stay. -/
theorem Integrity.ofEntry {voters : Table Voter} {challenges : Table OTPChallenge}
    {audit : Table AuditLog} {e : AuditLog} (h : Integrity db) (hkeep : Keeps db.voters voters)
    (hchallenges : Refers challenges.rows (fun c => some c.voter) voters)
    (haudit : audit.rows = db.audit.rows ++ [e])
    (he : ∀ k, e.actorVoter = some k → (voters.get? k).isSome = true) :
    Integrity { db with voters, challenges, audit } :=
  { h with
    challengeVoter := hchallenges
    voteVoter := h.voteVoter.keeps hkeep
    paymentVoter := h.paymentVoter.keeps hkeep
    auditActorVoter := by
      show Refers audit.rows _ _
      rw [haudit]
      exact (h.auditActorVoter.keeps hkeep).append he }

theorem Integrity.requestOtp {cfg : OtpSettings} {cache cache' : Cache Time} {now : Time}
    {phoneE164 code : String} {client : Client} {vk ck ak : Keys} {r : Requested} (h : Integrity db)
    (hx : requestOtp cfg db cache now phoneE164 (client.request .anonymous) code vk ck ak =
      some (db', cache', r)) : Integrity db' := by
  obtain ⟨db₁, voter, e, challenges, audit, hvoter, -, haudit, -, hfor, rfl⟩ := requestOtp_entry hx
  obtain ⟨db₂, voter', hvoter', hcases⟩ := requestOtp_cases hx
  obtain ⟨rfl, rfl⟩ := Prod.mk.inj (Option.some.inj (hvoter.symm.trans hvoter'))
  -- the voter is stored, among those that were
  obtain ⟨hmem, hkeep, voters, rfl⟩ : voter ∈ db₁.voters.rows ∧ Keeps db.voters db₁.voters ∧
      ∃ voters, db₁ = { db with voters } := by
    obtain ⟨hfind, rfl⟩ | ⟨-, -, -, -, -, voters, hrows, rfl⟩ := getOrCreateVoter_cases hvoter
    · exact ⟨(voterByPhone_some hfind).1, fun _ hk => hk, _, rfl⟩
    · refine ⟨?_, keeps_of_append hrows, voters, rfl⟩
      show voter ∈ voters.rows
      rw [hrows]
      exact List.mem_append_right _ (List.mem_singleton_self voter)
  have hstored : (voters.get? voter.id).isSome = true :=
    Option.isSome_iff_exists.mpr ⟨voter, Table.get?_key hmem⟩
  refine h.ofEntry hkeep ?_ haudit (stored_of_forVoter hfor fun v hv => Option.some.inj hv ▸ hmem)
  have hold := h.challengeVoter.keeps hkeep
  obtain ⟨-, -, -, -, heq⟩ | ⟨-, -, -, -, heq⟩ | ⟨-, -, hissue⟩ := hcases
  · exact heq ▸ hold
  · exact heq ▸ hold
  · obtain ⟨-, -, -, hrows, -⟩ := issue_eq_some hissue
    replace hrows : challenges.rows = _ := hrows
    rw [hrows]
    refine (hold.mono fun c' hc' => ?_).append fun k hk => Option.some.inj hk ▸ hstored
    obtain ⟨c, hc, rfl⟩ := List.mem_map.mp hc'
    exact ⟨c, hc, congrArg some (voter_expire _ _ _ c)⟩

theorem keeps_markVerified (t : Table Voter) (voter : Voter) (now savedAt : Time) :
    Keeps t (markVerified t voter now savedAt) := by
  unfold markVerified
  split_ifs
  · exact keeps_modify t voter.id _ _
  · exact fun _ hk => hk

/-- A verification counts attempts and marks challenges. -/
theorem refers_verifyOtp {cfg : OtpSettings} {now : Time} {phoneE164 code : String}
    {request : Request} {ak : Keys} {o : Outcome} {r : Except ApiError Voter} (h : Integrity db)
    (hx : verifyOtp cfg db now phoneE164 code request ak = some (db', o, r)) :
    Refers db'.challenges.rows (fun c => some c.voter) db.voters := by
  obtain ⟨-, ⟨-, -, -, -, heq⟩ | ⟨v, c, -, -, -, -, hattempt⟩⟩ := verifyOtp_cases hx
  · exact heq ▸ h.challengeVoter
  · have hcounted :
        Refers (countAttempt db.challenges c.id).rows (fun c => some c.voter) db.voters :=
      h.challengeVoter.modify fun _ => rfl
    have hconsumed : Refers (consume (countAttempt db.challenges c.id) c.id now now).rows
        (fun c => some c.voter) db.voters := hcounted.modify fun _ => rfl
    obtain ⟨-, -, -, -, heq⟩ | ⟨-, -, -, -, -, heq⟩ | ⟨-, -, -, -, -, heq⟩ := attempt_cases hattempt
    · exact heq ▸ h.challengeVoter
    · exact heq ▸ hcounted
    · exact heq ▸ hconsumed

theorem Integrity.verifyOtp {cfg : OtpSettings} {now : Time} {phoneE164 code : String}
    {client : Client} {ak : Keys} {o : Outcome} {r : Except ApiError Voter} (h : Integrity db)
    (hx : verifyOtp cfg db now phoneE164 code (client.request .anonymous) ak = some (db', o, r)) :
    Integrity db' := by
  have hchallenges := refers_verifyOtp h hx
  obtain ⟨e, challenges, audit, -, haudit, ⟨voter, hvoter, -, hactor, -, rfl⟩ | ⟨-, hfor, rfl⟩⟩ :=
    verifyOtp_entry hx
  · have hkeep := keeps_markVerified db.voters voter now now
    have hstored : (db.voters.get? voter.id).isSome = true :=
      Option.isSome_iff_exists.mpr ⟨voter, Table.get?_key (voterByPhone_some hvoter).1⟩
    refine h.ofEntry hkeep (hchallenges.keeps hkeep) haudit fun k hk => hkeep k ?_
    exact Option.some.inj (hactor.symm.trans hk) ▸ hstored
  · exact h.ofEntry (fun _ hk => hk) hchallenges haudit
      (stored_of_forVoter hfor fun v hv => (voterByPhone_some hv).1)

theorem Integrity.setBlocked (h : Integrity db) (voter : Id) (blocked : Bool) (now : Time) :
    Integrity { db with voters := setBlocked db.voters voter blocked now } := by
  have hkeep : Keeps db.voters (Voting.Otp.setBlocked db.voters voter blocked now) :=
    keeps_modify db.voters voter _ _
  exact { h with
    challengeVoter := h.challengeVoter.keeps hkeep
    voteVoter := h.voteVoter.keeps hkeep
    paymentVoter := h.paymentVoter.keeps hkeep
    auditActorVoter := h.auditActorVoter.keeps hkeep }

/-- **A cast** is for a nomination with its award and its event, and of a stored voter. -/
theorem Integrity.castFreeVote {voter nominationId : Id} {request : Request} {checkAt now : Time}
    {vk ak : Keys} {r : Except Raised Vote} (h : Integrity db)
    (hvoter : (db.voters.get? voter).isSome = true)
    (hx : castFreeVote db voter nominationId request checkAt now vk ak = some (db', r)) :
    Integrity db' := by
  obtain rfl | ⟨e, votes, audit, -, haudit, hactor, -, rfl, hvotes⟩ := castFreeVote_entry hx
  · exact h
  have hentry : Refers audit.rows AuditLog.actorVoter db.voters := by
    rw [haudit]
    exact h.auditActorVoter.append fun k hk => Option.some.inj (hactor.symm.trans hk) ▸ hvoter
  obtain rfl | ⟨c, hc, -, hrows⟩ := hvotes
  · exact { h with auditActorVoter := hentry }
  · obtain ⟨hn, hw, -, he⟩ := joined_eq_some.mp (getNomination_eq_some.mp hc).1
    have hevent : Refers votes.rows (fun v => some v.event) db.events := by
      rw [hrows]
      exact h.voteEvent.append fun k hk => Option.some.inj hk ▸ isSome_key he
    have haward : Refers votes.rows (fun v => some v.award) db.awards := by
      rw [hrows]
      exact h.voteAward.append fun k hk => Option.some.inj hk ▸ isSome_key hw
    have hnomination : Refers votes.rows (fun v => some v.nomination) db.nominations := by
      rw [hrows]
      exact h.voteNomination.append fun k hk => Option.some.inj hk ▸ isSome_key hn
    have hcaster : Refers votes.rows (fun v => some v.voter) db.voters := by
      rw [hrows]
      exact h.voteVoter.append fun k hk => Option.some.inj hk ▸ hvoter
    exact { h with
      voteEvent := hevent
      voteAward := haward
      voteNomination := hnomination
      voteVoter := hcaster
      auditActorVoter := hentry }

/-- **A void** keeps what a vote refers to. -/
theorem Integrity.voidVote {vote byUser : Id} {reason : String} {request : Option Request}
    {now : Time} {ak : Keys} {r : Except Raised Vote} (h : Integrity db)
    (hx : voidVote db vote byUser reason request now ak = some (db', r)) : Integrity db' := by
  obtain rfl | ⟨w, hw, e, votes, audit, -, haudit, hactor, -, rfl, hrows⟩ := voidVote_entry hx
  · exact h
  -- the row that is voided is the one that was read
  have hsame : ∀ v' ∈ votes.rows, ∃ v ∈ db.votes.rows, v'.event = v.event ∧ v'.award = v.award ∧
      v'.nomination = v.nomination ∧ v'.voter = v.voter := by
    intro v' hv'
    rw [hrows] at hv'
    obtain ⟨v, hv, rfl⟩ := List.mem_map.mp hv'
    split_ifs with hid
    · exact ⟨w, hw, rfl, rfl, rfl, rfl⟩
    · exact ⟨v, hv, rfl, rfl, rfl, rfl⟩
  exact { h with
    voteEvent := h.voteEvent.mono fun v' hv' => by
      obtain ⟨v, hv, hcol, -⟩ := hsame v' hv'
      exact ⟨v, hv, congrArg some hcol⟩
    voteAward := h.voteAward.mono fun v' hv' => by
      obtain ⟨v, hv, -, hcol, -⟩ := hsame v' hv'
      exact ⟨v, hv, congrArg some hcol⟩
    voteNomination := h.voteNomination.mono fun v' hv' => by
      obtain ⟨v, hv, -, -, hcol, -⟩ := hsame v' hv'
      exact ⟨v, hv, congrArg some hcol⟩
    voteVoter := h.voteVoter.mono fun v' hv' => by
      obtain ⟨v, hv, -, -, -, hcol⟩ := hsame v' hv'
      exact ⟨v, hv, congrArg some hcol⟩
    auditActorVoter := refers_appends h.auditActorVoter haudit hactor }

/-- **A purge** deletes voters that no vote, no payment and no entry refers to, with their
challenges. -/
theorem Integrity.without {ids : List Id} (h : Integrity db)
    (hids : ∀ k ∈ ids, hasVotesOrPayments db k = false ∧ isAudited db k = false) :
    Integrity (without db ids) := by
  have hfree : ∀ v ∈ db.votes.rows, v.voter ∉ ids := fun v hv hin =>
    (hasVotesOrPayments_eq_false.mp (hids _ hin).1).1 v hv rfl
  have hunpaid : ∀ p ∈ db.payments.rows, p.voter ∉ ids := fun p hp hin =>
    (hasVotesOrPayments_eq_false.mp (hids _ hin).1).2 p hp rfl
  have hunnamed : ∀ e ∈ db.audit.rows, ∀ k, e.actorVoter = some k → k ∉ ids := by
    intro e he k hk hin
    have hnone := (hids k hin).2
    simp only [isAudited, List.any_eq_false, decide_eq_true_eq] at hnone
    exact hnone e he hk
  exact { h with
    challengeVoter := h.challengeVoter.filter (fun _ hr => List.mem_of_mem_filter hr)
      fun c hc v _ hv =>
      keep_of_notMem (of_decide_eq_true (List.mem_filter.mp hc).2) hv
    voteVoter := h.voteVoter.filter (fun _ hr => hr) fun x hx v _ hv =>
      keep_of_notMem (hfree x hx) hv
    paymentVoter := h.paymentVoter.filter (fun _ hr => hr) fun p hp v _ hv =>
      keep_of_notMem (hunpaid p hp) hv
    auditActorVoter := h.auditActorVoter.filter (fun _ hr => hr) fun e he v _ hv =>
      decide_eq_true (hunnamed e he _ hv) }

theorem Integrity.purge (h : Integrity db) (now : Time) (olderThanHours : ℤ) (execute : Bool) :
    Integrity (handle db now olderThanHours execute).1 := by
  rcases hcut : cutoff now olderThanHours with _ | before
  · rw [show handle db now olderThanHours execute = (db, none) by simp only [handle, hcut]]
    exact h
  · cases execute with
    | false => rw [handle_dryRun hcut]; exact h
    | true =>
      rw [handle_executed hcut]
      refine h.without fun k hk => ?_
      obtain ⟨hcandidate, hunaudited⟩ := List.mem_filter.mp hk
      obtain ⟨v, -, rfl, -, -, hfree⟩ := mem_candidates.mp hcandidate
      exact ⟨hfree, Bool.not_eq_true' _ ▸ hunaudited⟩

/-! ### Every operation -/

/-- **No operation breaks a reference.** -/
theorem integrity_of_step {cfg : Config} {s s' : State} {op : Op} (hs : Integrity s.db)
    (h : step cfg s op = some s') : Integrity s'.db := by
  cases op with
  | submitNomination captcha a user client now nominee nk ak =>
    obtain ⟨⟨db, r⟩, hx, rfl⟩ := Option.map_eq_some_iff.mp h
    exact hs.createNomination hx
  | reviewNomination a now ak =>
    obtain ⟨⟨db, r⟩, hx, rfl⟩ := Option.map_eq_some_iff.mp h
    exact hs.reviewNomination hx
  | changeStatus event new user client now ak =>
    obtain ⟨⟨db, r⟩, hx, rfl⟩ := Option.map_eq_some_iff.mp h
    exact hs.changeStatus (fun v hv => by cases hv) hx
  | createEvent a now k =>
    obtain ⟨⟨db, r⟩, hx, rfl⟩ := Option.map_eq_some_iff.mp h
    exact hs.createEvent hx
  | updateEvent slug full a now =>
    obtain rfl := Option.some.inj h
    exact hs.updateEvent slug full a now
  | destroyEvent slug =>
    obtain rfl := Option.some.inj h
    unfold destroyEvent
    split
    · exact hs
    · exact hs.performDestroy [_] [] []
  | createCategory a now k =>
    obtain ⟨⟨db, r⟩, hx, rfl⟩ := Option.map_eq_some_iff.mp h
    exact hs.createCategory hx
  | updateCategory pk full a now =>
    obtain rfl := Option.some.inj h
    exact hs.updateCategory pk full a now
  | destroyCategory pk =>
    obtain rfl := Option.some.inj h
    unfold destroyCategory
    split
    · exact hs
    · exact hs.performDestroy [] [_] []
  | createAward a now k =>
    obtain ⟨⟨db, r⟩, hx, rfl⟩ := Option.map_eq_some_iff.mp h
    exact hs.createAward hx
  | updateAward pk full a now =>
    obtain rfl := Option.some.inj h
    exact hs.updateAward pk full a now
  | destroyAward pk =>
    obtain rfl := Option.some.inj h
    unfold destroyAward
    split
    · exact hs
    · exact hs.performDestroy [] [] [_]
  | requestOtp phoneE164 client code now vk ck ak =>
    obtain ⟨⟨db, cache, r⟩, hx, rfl⟩ := Option.map_eq_some_iff.mp h
    exact hs.requestOtp hx
  | verifyOtp phoneE164 code client now ak =>
    obtain ⟨⟨db, o, r⟩, hx, rfl⟩ := Option.map_eq_some_iff.mp h
    exact hs.verifyOtp hx
  | setBlocked voter blocked now =>
    obtain rfl := Option.some.inj h
    exact hs.setBlocked voter blocked now
  | castVote header nomination client authAt checkAt now vk ak =>
    simp only [step] at h
    split at h
    · next voter hauth =>
      obtain ⟨⟨db, r⟩, hx, rfl⟩ := Option.map_eq_some_iff.mp h
      exact hs.castFreeVote (isSome_key (authenticate_eq_some hauth).1) hx
    · obtain rfl := Option.some.inj h
      exact hs
  | voidVote vote user reason client now ak =>
    obtain ⟨⟨db, r⟩, hx, rfl⟩ := Option.map_eq_some_iff.mp h
    exact hs.voidVote hx
  | purge olderThanHours execute now =>
    obtain rfl := Option.some.inj h
    exact hs.purge now olderThanHours execute

end KwAwards.References
