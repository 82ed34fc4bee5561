import KwAwards.Common.Phone
import KwAwards.Events.Serializers

/-! # Submitting a nomination

The public form. `SubmissionAttrs` is what the serializer fields have parsed; `acceptSubmission` is
`NominationSubmitSerializer` from its `validate_…` methods on, and `createNomination` the view: a
nominee, a pending nomination of it and an audit entry, or nothing. `upper` is the database's
`UPPER`, by which names are compared. -/

namespace KwAwards.Nominations.Submission

open KwAwards.Lib.Tables KwAwards.Common.Base KwAwards.Common.Exceptions KwAwards.Common.Phone
open KwAwards.Audit.Log KwAwards.Events.Models KwAwards.Events.Serializers
open KwAwards.Nominations.Models KwAwards.Store

/-- The parsed form; `photo` is what `process_image` gives, or the text of its error. A link that is
omitted is null. -/
structure SubmissionAttrs where
  award : Id
  name : String
  stageName : Option String := none
  bio : Option String := none
  photo : Except String String
  links : Links := {}
  contactPhone : Option String := none
  contactEmail : Option String := none

/-- The validated data. -/
structure ValidatedData where
  award : Award
  name : String
  stageName : String
  bio : String
  photo : String
  links : Links
  contactPhone : String
  contactEmail : String
  deriving DecidableEq, Repr

/-- The query of `validate_award`: an active award of an event that is not a draft. -/
def submittable (db : Database) (award : Id) : Option (Award × Event) := do
  let award ← db.awards.get? award
  let category ← db.categories.get? award.category
  let event ← db.events.get? category.event
  if award.isActive ∧ event.status ≠ .draft then some (award, event) else none

/-- `validate_contact_phone`. -/
def validateContactPhone (lib : PhoneNumbers) (value : String) : Except (List String) String :=
  if value = "" then .ok ""
  else match normalizePhone lib value with
    | .ok p => .ok p
    | .error e => .error [e.detail]

/-- A blank link is stored as null. -/
def dropBlank (l : Links) : Links :=
  { websiteUrl := l.websiteUrl.filter (· ≠ "")
    instagramUrl := l.instagramUrl.filter (· ≠ "")
    facebookUrl := l.facebookUrl.filter (· ≠ "")
    xUrl := l.xUrl.filter (· ≠ "")
    youtubeUrl := l.youtubeUrl.filter (· ≠ "")
    tiktokUrl := l.tiktokUrl.filter (· ≠ "") }

/-- A nominee of that name is pending or approved in the award. -/
def isDuplicate (upper : String → String) (db : Database) (award : Id) (name : String) : Bool :=
  db.nominations.rows.any fun n => n.award = award ∧ (n.status = .pending ∨ n.status = .approved) ∧
    (db.nominees.get? n.nominee).any fun m => upper m.name = upper name

section Form

variable (lib : PhoneNumbers) (clean : Bool → String → String) (upper : String → String)

/-- `NominationSubmitSerializer.validate`. -/
def validateSubmission (db : Database) (now : Time) (award : Award) (event : Event)
    (photo phone : String) (a : SubmissionAttrs) : Except ApiError ValidatedData :=
  raiseIf (plainText clean false false "name" (some a.name)) <|
    if ¬ event.nominationsAreOpen now then .error .nominationsClosed
    else if a.contactEmail.getD "" = "" ∧ phone = "" then
      .error (.validation [("contact_email", "Provide a contact email or phone number.")])
    else if isDuplicate upper db award.id (clean false a.name) then .error .duplicateNomination
    else .ok
      { award
        name := clean false a.name
        stageName := (a.stageName.map (clean false)).getD ""
        bio := clean true ((a.bio.map (clean true)).getD "")
        photo
        links := dropBlank a.links
        contactPhone := phone
        contactEmail := a.contactEmail.getD "" }

/-- **`NominationSubmitSerializer`**: the fields, then `validate`. -/
def acceptSubmission (db : Database) (now : Time)
    (a : SubmissionAttrs) : Except ApiError ValidatedData :=
  match submittable db a.award, a.photo, validateContactPhone lib (a.contactPhone.getD "") with
  | some (award, event), .ok photo, .ok phone =>
    validateSubmission clean upper db now award event photo phone a
  | award, photo, phone =>
    .error (.validation ((if award.isSome then [] else [("award", "Unknown award.")]) ++
      (match photo with
        | .error m => [("photo", m)]
        | .ok _ => []) ++
      match phone with
        | .error ms => ms.map fun m => ("contact_phone", m)
        | .ok _ => []))

/-- The row of the nominee. -/
def newNominee (s : ValidatedData) (now : Time) (k : Id) : Nominee where
  id := k
  name := s.name
  stageName := s.stageName
  bio := s.bio
  photo := s.photo
  links := s.links
  contactPhone := s.contactPhone
  contactEmail := s.contactEmail
  createdAt := now
  updatedAt := now

/-- The row of the nomination: pending. -/
def newNomination (s : ValidatedData) (nominee : Id) (request : Request) (now : Time) (k : Keys) :
    Nomination where
  id := k.id
  nominee := nominee
  award := s.award.id
  submittedByIp := request.clientIp
  seq := k.seq
  createdAt := now
  updatedAt := now

/-- The transaction of `create`; `none` when a key is taken. -/
def saveSubmission (db : Database) (s : ValidatedData) (request : Request) (now : Time)
    (nominee : Id) (nk ak : Keys) : Option (Database × Except Raised Nomination) :=
  if 120 < s.name.length ∨ 120 < s.stageName.length then some (db, .error (.db .stringTooLong))
  else
    (db.nominees.insert (newNominee s now nominee)).bind fun nominees =>
      (db.nominations.insert (newNomination s nominee request now nk)).bind fun nominations =>
        (({ db with nominees, nominations } : Database).write
          (log ak now .nominationSubmitted (some request) none none
            (some ⟨"nominations.nomination", nk.id⟩)
            [("award_id", .id s.award.id), ("nominee_id", .id nominee)])).map fun db =>
              (db, .ok (newNomination s nominee request now nk))

/-- **`NominationViewSet.create`**: `captcha` is what `verify_captcha` answers. -/
def createNomination (captcha : Bool) (db : Database) (a : SubmissionAttrs) (request : Request)
    (now : Time) (nominee : Id) (nk ak : Keys) : Option (Database × Except Raised Nomination) :=
  if ¬ captcha then some (db, .error (.api .captchaFailed))
  else match acceptSubmission lib clean upper db now a with
    | .error e => some (db, .error (.api e))
    | .ok s => saveSubmission db s request now nominee nk ak

variable {lib clean upper}

/-- What the transaction does: nothing, as a text does not fit, or a nominee, a pending nomination
and an entry. -/
theorem saveSubmission_cases {db db' : Database} {s : ValidatedData} {request : Request}
    {now : Time} {nominee : Id} {nk ak : Keys} {r : Except Raised Nomination}
    (h : saveSubmission db s request now nominee nk ak = some (db', r)) :
    ((120 < s.name.length ∨ 120 < s.stageName.length) ∧ db' = db ∧
      r = .error (.db .stringTooLong)) ∨
      (¬ (120 < s.name.length ∨ 120 < s.stageName.length) ∧ ∃ nominees nominations audit e,
        db.nominees.insert (newNominee s now nominee) = some nominees ∧
        db.nominations.insert (newNomination s nominee request now nk) = some nominations ∧
        log ak now .nominationSubmitted (some request) none none
          (some ⟨"nominations.nomination", nk.id⟩)
          [("award_id", .id s.award.id), ("nominee_id", .id nominee)] = some e ∧
        audit.rows = db.audit.rows ++ [e] ∧ r = .ok (newNomination s nominee request now nk) ∧
        db' = { db with nominees, nominations, audit }) := by
  unfold saveSubmission at h
  split_ifs at h with hlong
  · obtain ⟨rfl, rfl⟩ := Prod.mk.inj (Option.some.inj h)
    exact Or.inl ⟨hlong, rfl, rfl⟩
  · obtain ⟨nominees, hm, h⟩ := Option.bind_eq_some_iff.mp h
    obtain ⟨nominations, hn, h⟩ := Option.bind_eq_some_iff.mp h
    obtain ⟨db₁, hw, h⟩ := Option.map_eq_some_iff.mp h
    obtain ⟨rfl, rfl⟩ := Prod.mk.inj h
    obtain ⟨e, audit, he, -, ha, rfl⟩ := Database.write_eq_some hw
    exact Or.inr ⟨hlong, nominees, nominations, audit, e, hm, hn, he, ha, rfl, rfl⟩

/-- **What a submission does:** nothing and an error, or a nominee, a pending nomination and an
entry. -/
theorem createNomination_cases {captcha : Bool} {db db' : Database} {a : SubmissionAttrs}
    {request : Request} {now : Time} {nominee : Id} {nk ak : Keys} {r : Except Raised Nomination}
    (h : createNomination lib clean upper captcha db a request now nominee nk ak = some (db', r)) :
    (db' = db ∧ ∃ e, r = .error e) ∨
      ∃ s nominees nominations audit e, acceptSubmission lib clean upper db now a = .ok s ∧
        db.nominees.insert (newNominee s now nominee) = some nominees ∧
        db.nominations.insert (newNomination s nominee request now nk) = some nominations ∧
        log ak now .nominationSubmitted (some request) none none
          (some ⟨"nominations.nomination", nk.id⟩)
          [("award_id", .id s.award.id), ("nominee_id", .id nominee)] = some e ∧
        audit.rows = db.audit.rows ++ [e] ∧ r = .ok (newNomination s nominee request now nk) ∧
        db' = { db with nominees, nominations, audit } := by
  unfold createNomination at h
  split_ifs at h
  · split at h
    · obtain ⟨rfl, rfl⟩ := Prod.mk.inj (Option.some.inj h)
      exact Or.inl ⟨rfl, _, rfl⟩
    · next s hs =>
      obtain ⟨-, rfl, rfl⟩ | ⟨-, nominees, nominations, audit, e, h⟩ := saveSubmission_cases h
      · exact Or.inl ⟨rfl, _, rfl⟩
      · exact Or.inr ⟨s, nominees, nominations, audit, e, hs, h⟩
  · obtain ⟨rfl, rfl⟩ := Prod.mk.inj (Option.some.inj h)
    exact Or.inl ⟨rfl, _, rfl⟩

end Form

end KwAwards.Nominations.Submission
