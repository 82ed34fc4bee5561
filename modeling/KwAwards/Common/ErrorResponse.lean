import KwAwards.Common.ExceptionHandler
import KwAwards.Common.Phone

/-! # The documented error body

`ErrorResponse` documents the body of every error: a code, a detail, and fields that are null or
lists of messages by name. `raised` gives the exception for each thing of this API that can go wrong
with a request (`Cause`), and `conforms_iff` says which bodies are as documented: all but those of
the two filter methods for a phone number that is refused. -/

namespace KwAwards.Common.ErrorResponse

open KwAwards.Common.Exceptions KwAwards.Common.Phone KwAwards.Common.ExceptionHandler

/-! ### The documented shape -/

def IsText (v : Value) : Prop := ∃ s code, v = .text s code

/-- A list of messages. -/
def IsMessages (v : Value) : Prop := ∃ items, v = .list items ∧ ∀ x ∈ items, IsText x

/-- Null, or lists of messages by name. -/
def IsFields (v : Value) : Prop :=
  v = .null ∨ ∃ items, v = .dict items ∧ ∀ kv ∈ items, IsMessages kv.2

/-- **`ErrorResponse`**: the keys are `code`, `detail` and `fields`. -/
inductive Conforms : Value → Prop
  | mk (code : String) (of : Option String) (detail : String) (fields : Value)
    (h : IsFields fields) :
    Conforms (body (.text code of) detail fields)

/-! ### What can go wrong -/

/-- The serializers of request bodies, and the filters of query strings. -/
inductive Form
  | otpRequest
  | otpVerify
  | voteCast
  | void
  | reject
  | nominationSubmit
  | event
  | category
  | award
  | setStatus
  | tokenObtainPair
  | tokenRefresh
  | eventFilter
  | categoryFilter
  | awardFilter
  | nominationFilter
  | voteFilter
  | auditLogFilter
  deriving DecidableEq, Repr

/-- The names of the fields. -/
def Form.fieldNames : Form → List String
  | otpRequest => ["phone", "captcha_token"]
  | otpVerify => ["phone", "code"]
  | voteCast => ["nomination_id"]
  | void | reject => ["reason"]
  | nominationSubmit =>
    ["award", "name", "stage_name", "bio", "photo", "website_url", "instagram_url",
      "facebook_url", "x_url", "youtube_url", "tiktok_url", "contact_phone", "contact_email",
      "captcha_token"]
  | event =>
    ["id", "name", "slug", "year", "status", "nominations_open_at", "nominations_close_at",
      "voting_opens_at", "voting_closes_at", "results_published_at", "voting_is_open",
      "nominations_are_open", "categories", "created_at", "updated_at"]
  | category =>
    ["id", "event", "name", "slug", "description", "display_order", "awards", "created_at",
      "updated_at"]
  | award =>
    ["id", "category", "event", "name", "slug", "description", "display_order", "is_active",
      "created_at", "updated_at"]
  | setStatus => ["status"]
  | tokenObtainPair => ["email", "password"]
  | tokenRefresh => ["refresh", "access"]
  | eventFilter => ["year", "status"]
  | categoryFilter => ["event"]
  | awardFilter => ["event", "category", "is_active"]
  | nominationFilter => ["event", "category", "award", "status"]
  | voteFilter => ["event", "award", "nomination", "source", "voided", "phone"]
  | auditLogFilter =>
    ["actor_user", "actor_voter", "created_after", "created_before", "phone", "action",
      "target_type", "target_id"]

def nonFieldErrorsKey : String := "non_field_errors"

/-- What is wrong with a form: an `α` for each name. -/
structure Errors (form : Form) (α : Type) where
  errors : List (String × α)
  named : ∀ kv ∈ errors, kv.1 ∈ form.fieldNames ∨ kv.1 = nonFieldErrorsKey

/-- A message with its code. -/
abbrev Message := String × String

/-- **What can go wrong** with a request, in the code of this API and what it calls: an `ApiError`,
an exception of the framework or of the token library that has a text, a form with messages for its
fields, a `validate` method with a text for each of some fields, or a phone number to search for.
What the framework's own filters raise on a query string is none. -/
inductive Cause
  | apiError (c : ApiErrorClass) (detail code : Option String) (statusCode retryAfter : Option ℕ)
  | framework (c : ExceptionClass) (detail code : Option String)
  | token (c : ExceptionClass) (detail code : Option String)
  | invalidToken (messages : List (List (String × String)))
  | http404 (message : Option String)
  | permissionDenied (message : Option String)
  | invalidFields (form : Form) (e : Errors form (List Message))
  | invalidData (form : Form) (e : Errors form String)
  | filterPhone (value : String)

/-- `as_serializer_error` on the detail of a `ValidationError`. -/
def asSerializerError : Value → Value
  | .dict items => .dict <| items.map fun kv => (kv.1, match kv.2 with
    | .list l => .list l
    | .dict d => .dict d
    | v => .list [v])
  | .list l => .dict [(nonFieldErrorsKey, .list l)]
  | v => .dict [(nonFieldErrorsKey, .list [v])]

def messages (l : List Message) : Value := .list (l.map fun m => .text m.1 (some m.2))

/-- The exception of `AuditLogFilter.filter_phone` and of `VoteFilter.filter_phone`, which are not
called for an empty value. -/
def filterPhone (lib : PhoneNumbers) (value : String) : Option APIException :=
  if value = "" then none
  else match normalizePhone lib value with
    | .ok _ => none
    | .error e => some (validationError (some (.dict [("phone", .text e.detail)])))

/-- **The exception**, if one is raised. -/
def raised (lib : PhoneNumbers) : Cause → Option Exc
  | .apiError c detail code statusCode retryAfter =>
    some (.api (apiError c detail code statusCode retryAfter))
  | .framework c detail code => some (.api (c.raise (detail.map .text) code))
  | .token c detail code => some (.api (detailDict c (detail.map .text) code))
  | .invalidToken messages => some (.api (notValidForAnyType messages))
  | .http404 message => some (.http404 (message.map .text))
  | .permissionDenied message => some (.permissionDenied (message.map .text))
  | .invalidFields _ e =>
    some (.api (validationError (some (.dict (e.errors.map fun kv => (kv.1, messages kv.2))))))
  | .invalidData _ e =>
    let inner := validationError (some (.dict (e.errors.map fun kv => (kv.1, .text kv.2))))
    some (.api (validationError (some (asSerializerError inner.detail))))
  | .filterPhone value => (filterPhone lib value).map .api

/-! ### The bodies -/

theorem Conforms.fields {code : Value} {detail : String} {fields : Value}
    (h : Conforms (body code detail fields)) : IsFields fields := by
  generalize hb : body code detail fields = b at h
  cases h with
  | mk code' of detail' fields' h' =>
    simp only [body, Value.dict.injEq, List.cons.injEq, Prod.mk.injEq] at hb
    rw [hb.2.2.1.2]
    exact h'

theorem isMessages_errorDetails {code : String} {v : Value} (h : IsMessages v) :
    IsMessages (errorDetails code v) := by
  obtain ⟨items, rfl, hitems⟩ := h
  refine ⟨_, rfl, fun x hx => ?_⟩
  rw [errorDetailsList_eq] at hx
  obtain ⟨y, hy, rfl⟩ := List.mem_map.mp hx
  obtain ⟨s, c, rfl⟩ := hitems y hy
  exact ⟨s, _, rfl⟩

theorem lookup_eq_none_of_ne {items : List (String × Value)} {key : String}
    (h : ∀ kv ∈ items, kv.1 ≠ key) : items.lookup key = none := by
  rw [List.lookup_eq_none_iff]
  intro kv hkv
  simpa using (h kv hkv).symm

theorem apiErrorShape_of_no_detail {items : List (String × Value)}
    (h : ∀ kv ∈ items, kv.1 ≠ "detail") : apiErrorShape (.dict items) = none := by
  simp only [apiErrorShape, lookup_eq_none_of_ne h]

/-- **A validation error** without a key `detail`: its detail becomes the fields. -/
theorem errorBody_validationError (repr : Value → String) {items : List (String × Value)}
    (h : ∀ kv ∈ items, kv.1 ≠ "detail") : errorBody repr (validationError (some (.dict items))) =
      body (.text "invalid") "Validation failed."
        (.dict (items.map fun kv => (kv.1, errorDetails "invalid" kv.2))) := by
  have hdata : drfData (validationError (some (.dict items))) =
      .dict (items.map fun kv => (kv.1, errorDetails "invalid" kv.2)) := by
    rw [← errorDetailsDict_eq]
    rfl
  have hshape : apiErrorShape (.dict (items.map fun kv => (kv.1, errorDetails "invalid" kv.2))) =
      none := by
    refine apiErrorShape_of_no_detail fun kv hkv => ?_
    obtain ⟨kv', hkv', rfl⟩ := List.mem_map.mp hkv
    exact h kv' hkv'
  unfold errorBody
  rw [hdata, hshape]
  rfl

theorem conforms_validationError (repr : Value → String) {items : List (String × Value)}
    (hitems : ∀ kv ∈ items, IsMessages kv.2) (hkeys : ∀ kv ∈ items, kv.1 ≠ "detail") :
    Conforms (errorBody repr (validationError (some (.dict items)))) := by
  rw [errorBody_validationError repr hkeys]
  refine Conforms.mk _ _ _ _ (Or.inr ⟨_, rfl, fun kv hkv => ?_⟩)
  obtain ⟨kv', hkv', rfl⟩ := List.mem_map.mp hkv
  exact isMessages_errorDetails (hitems kv' hkv')

/-- **An exception with a text**. -/
theorem errorBody_of_text (repr : Value → String) {e : APIException} {s code : String}
    (h : e.detail = .text s (some code)) (hv : e.isValidationError = false) :
    errorBody repr e = body (.text code) s .null := by
  have hdata : drfData e = .dict [("detail", .text s (some code))] := by
    unfold drfData
    rw [h]
  have hshape : apiErrorShape (.dict [("detail", .text s (some code))]) = none := rfl
  unfold errorBody
  rw [hdata, hshape, hv, h]
  rfl

theorem conforms_raise (repr : Value → String) (c : ExceptionClass) (detail code : Option String) :
    Conforms (errorBody repr (c.raise (detail.map .text) code)) := by
  have htext : (c.raise (detail.map .text) code).detail =
      .text (detail.getD c.defaultDetail) (some (code.getD c.defaultCode)) := by
    cases detail <;> rfl
  rw [errorBody_of_text repr htext rfl]
  exact Conforms.mk _ _ _ _ (Or.inl rfl)

/-- **An exception whose detail is a mapping** with the keys of `ApiError`. -/
theorem errorBody_of_dict (repr : Value → String) {e : APIException} {s : String}
    {of : Option String} {code : Value}
    (h : e.detail = .dict [("detail", .text s of), ("code", code)]) :
    errorBody repr e = body code s .null := by
  have hdata : drfData e = .dict [("detail", .text s of), ("code", code)] := by
    unfold drfData
    rw [h]
  have hshape : apiErrorShape (.dict [("detail", .text s of), ("code", code)]) =
    some (.text s of, code) :=
    rfl
  unfold errorBody
  rw [hdata, hshape]
  rfl

theorem conforms_apiError (repr : Value → String) (c : ApiErrorClass) (detail code : Option String)
    (statusCode retryAfter : Option ℕ) :
    Conforms (errorBody repr (apiError c detail code statusCode retryAfter)) := by
  rw [errorBody_of_dict repr rfl]
  exact Conforms.mk _ _ _ _ (Or.inl rfl)

theorem conforms_detailDict (repr : Value → String) (c : ExceptionClass)
    (detail code : Option String) :
    Conforms (errorBody repr (detailDict c (detail.map .text) code)) := by
  have hdetail : (detailDict c (detail.map .text) code).detail =
      .dict [("detail", .text (detail.getD c.defaultDetail) (some c.defaultCode)),
        ("code", .text (code.getD c.defaultCode) (some c.defaultCode))] := by
    cases detail <;> cases code <;> rfl
  rw [errorBody_of_dict repr hdetail]
  exact Conforms.mk _ _ _ _ (Or.inl rfl)

/-- Three keys: the code is the one of the class. -/
theorem conforms_notValidForAnyType (repr : Value → String)
    (messages : List (List (String × String))) :
    Conforms (errorBody repr (notValidForAnyType messages)) :=
  Conforms.mk _ _ _ _ (Or.inl rfl)

theorem isMessages_messages (l : List Message) : IsMessages (messages l) := by
  refine ⟨_, rfl, fun x hx => ?_⟩
  obtain ⟨m, -, rfl⟩ := List.mem_map.mp hx
  exact ⟨_, _, rfl⟩

/-- No form has a field `detail`, which the handler would read as the text of the error. -/
theorem name_ne_detail {form : Form} {name : String}
    (h : name ∈ form.fieldNames ∨ name = nonFieldErrorsKey) : name ≠ "detail" := by
  rintro rfl
  rcases h with h | h
  · revert h
    cases form <;> decide
  · exact absurd h (by decide)

theorem conforms_invalidFields (repr : Value → String) {form : Form}
    (e : Errors form (List Message)) :
    Conforms (errorBody repr
      (validationError (some (.dict (e.errors.map fun kv => (kv.1, messages kv.2)))))) := by
  refine conforms_validationError repr (fun kv hkv => ?_) fun kv hkv => ?_
  · obtain ⟨kv', -, rfl⟩ := List.mem_map.mp hkv
    exact isMessages_messages kv'.2
  · obtain ⟨kv', hkv', rfl⟩ := List.mem_map.mp hkv
    exact name_ne_detail (e.named kv' hkv')

theorem asSerializerError_texts (items : List (String × String)) :
    asSerializerError
      (validationError (some (.dict (items.map fun kv => (kv.1, .text kv.2))))).detail =
      .dict (items.map fun kv => (kv.1, .list [.text kv.2 (some "invalid")])) := by
  have hdetail : (validationError (some (.dict (items.map fun kv => (kv.1, .text kv.2))))).detail =
      .dict (items.map fun kv => (kv.1, .text kv.2 (some "invalid"))) := by
    have h := errorDetailsDict_eq "invalid" (items.map fun kv => (kv.1, .text kv.2))
    rw [List.map_map] at h
    exact congrArg Value.dict h
  rw [hdetail]
  simp only [asSerializerError, List.map_map]
  rfl

theorem conforms_invalidData (repr : Value → String) {form : Form} (e : Errors form String) :
    Conforms (errorBody repr (validationError (some (asSerializerError
      (validationError (some (.dict (e.errors.map fun kv => (kv.1, .text kv.2))))).detail)))) := by
  rw [asSerializerError_texts]
  refine conforms_validationError repr (fun kv hkv => ?_) fun kv hkv => ?_
  · obtain ⟨kv', -, rfl⟩ := List.mem_map.mp hkv
    refine ⟨_, rfl, fun x hx => ?_⟩
    obtain rfl := List.mem_singleton.mp hx
    exact ⟨_, _, rfl⟩
  · obtain ⟨kv', hkv', rfl⟩ := List.mem_map.mp hkv
    exact name_ne_detail (e.named kv' hkv')

/-- **A refused number**: the fields have a text where a list of messages is documented. -/
theorem not_conforms_filterPhone (repr : Value → String) (message : String) :
    ¬ Conforms (errorBody repr (validationError (some (.dict [("phone", .text message)])))) := by
  intro h
  have hfields : IsFields (.dict [("phone", .text message (some "invalid"))]) := Conforms.fields h
  obtain h | ⟨items, hitems, hmessages⟩ := hfields
  · cases h
  · obtain rfl := Value.dict.inj hitems
    obtain ⟨l, hl, -⟩ := hmessages _ List.mem_cons_self
    cases hl

theorem filterPhone_eq_some {lib : PhoneNumbers} {value : String} {e : APIException} :
    filterPhone lib value = some e ↔ value ≠ "" ∧ ∃ message,
      normalizePhone lib value = .error message ∧
      e = validationError (some (.dict [("phone", .text message.detail)])) := by
  unfold filterPhone
  split_ifs with hempty
  · simp [hempty]
  · rcases normalizePhone lib value with message | p
    · simp [hempty, eq_comm]
    · simp [hempty]

theorem conforms_of_raised (lib : PhoneNumbers) (repr : Value → String) {cause : Cause} {exc : Exc}
    (hcause : ∀ value, cause ≠ .filterPhone value) (hexc : raised lib cause = some exc) :
    ∃ r, exceptionHandler repr exc = some r ∧ Conforms r.data := by
  have hbody : ∀ e : APIException, Conforms (errorBody repr e) →
      ∃ r, exceptionHandler repr (.api e) = some r ∧ Conforms r.data := fun e h => ⟨_, rfl, h⟩
  cases cause with
  | filterPhone value => exact absurd rfl (hcause value)
  | apiError c detail code statusCode retryAfter =>
    obtain rfl := Option.some.inj hexc
    exact hbody _ (conforms_apiError repr c detail code statusCode retryAfter)
  | framework c detail code =>
    obtain rfl := Option.some.inj hexc
    exact hbody _ (conforms_raise repr c detail code)
  | token c detail code =>
    obtain rfl := Option.some.inj hexc
    exact hbody _ (conforms_detailDict repr c detail code)
  | invalidToken messages =>
    obtain rfl := Option.some.inj hexc
    exact hbody _ (conforms_notValidForAnyType repr messages)
  | http404 message =>
    obtain rfl := Option.some.inj hexc
    exact ⟨_, rfl, conforms_raise repr notFoundClass message none⟩
  | permissionDenied message =>
    obtain rfl := Option.some.inj hexc
    exact ⟨_, rfl, conforms_raise repr permissionDeniedClass message none⟩
  | invalidFields form e =>
    obtain rfl := Option.some.inj hexc
    exact hbody _ (conforms_invalidFields repr e)
  | invalidData form e =>
    obtain rfl := Option.some.inj hexc
    exact hbody _ (conforms_invalidData repr e)

theorem conforms_filterPhone_iff (lib : PhoneNumbers) (repr : Value → String) (value : String) :
    (∀ exc, raised lib (.filterPhone value) = some exc →
      ∃ r, exceptionHandler repr exc = some r ∧ Conforms r.data) ↔
      value = "" ∨ ∃ p, normalizePhone lib value = .ok p := by
  constructor
  · intro h
    by_contra! hrefused
    obtain ⟨message, hmessage⟩ : ∃ message, normalizePhone lib value = .error message := by
      rcases hn : normalizePhone lib value with message | p
      · exact ⟨message, rfl⟩
      · exact absurd hn (hrefused.2 p)
    have hraised := filterPhone_eq_some.mpr ⟨hrefused.1, message, hmessage, rfl⟩
    obtain ⟨r, hr, hconforms⟩ := h _ (congrArg (Option.map Exc.api) hraised)
    obtain rfl := Option.some.inj hr
    exact not_conforms_filterPhone repr message.detail hconforms
  · intro h exc hexc
    obtain ⟨e, he, -⟩ := Option.map_eq_some_iff.mp hexc
    obtain ⟨hne, message, hmessage, -⟩ := filterPhone_eq_some.mp he
    rcases h with hv | ⟨p, hp⟩
    · exact absurd hv hne
    · rw [hmessage] at hp
      cases hp

/-- **The bodies are as documented**, of every exception but that of a filter method: it is raised
for a phone number that is not empty and that `normalize_phone` refuses. -/
theorem conforms_iff (lib : PhoneNumbers) (repr : Value → String) (cause : Cause) :
    (∀ exc, raised lib cause = some exc → ∃ r, exceptionHandler repr exc = some r ∧
      Conforms r.data) ↔
      ∀ value, cause = .filterPhone value → value = "" ∨ ∃ p, normalizePhone lib value = .ok p := by
  by_cases hcause : ∃ value, cause = .filterPhone value
  · obtain ⟨value, rfl⟩ := hcause
    rw [conforms_filterPhone_iff]
    exact ⟨fun h v hv => Cause.filterPhone.inj hv ▸ h, fun h => h value rfl⟩
  · rw [not_exists] at hcause
    exact iff_of_true (fun exc => conforms_of_raised lib repr hcause)
      fun value hvalue => absurd hvalue (hcause value)

/-- A library that parses no text, as it parses none without digits. -/
def noNumbers : PhoneNumbers where
  Number := Empty
  parse _ _ := none
  isValidNumber _ := false
  numberType _ := .unknown
  regionCodeForNumber _ := none
  formatE164 _ := ""

/-- A search for a text that is no number: `fields` holds a text. -/
theorem garbage_not_conforms : ∃ exc r, raised noNumbers (.filterPhone "garbage") = some exc ∧
    exceptionHandler (fun _ => "") exc = some r ∧ r.status = 400 ∧
      r.data = body (.text "invalid") "Validation failed."
        (.dict [("phone", .text "Enter a valid mobile phone number." (some "invalid"))]) ∧
      ¬ Conforms r.data :=
  ⟨_, _, rfl, rfl, rfl, rfl,
    not_conforms_filterPhone (fun _ => "") "Enter a valid mobile phone number."⟩

/-! ### The errors of the services -/

/-- The exception of an error; the texts of a validation error are those of a serializer. -/
def exceptionOf : ApiError → APIException
  | .notFound detail => notFoundClass.raise (some (.text detail))
  | .votingClosed => apiError .votingClosed
  | .nominationsClosed => apiError .nominationsClosed
  | .alreadyVoted => apiError .alreadyVoted
  | .conflict detail => apiError .conflict (some detail)
  | .alreadyVoided => apiError .alreadyVoided
  | .alreadyReviewed detail => apiError .alreadyReviewed (some detail)
  | .duplicateNomination => apiError .duplicateNomination
  | .invalidTransition detail => apiError .invalidTransition (some detail)
  | .windowRequired detail => apiError .windowRequired (some detail)
  | .captchaFailed => apiError .captchaFailed
  | .unsupportedPhoneNumber => apiError .unsupportedPhoneNumber
  | .smsBudgetExhausted retryAfter => apiError .smsBudgetExhausted none none none (some retryAfter)
  | .invalidOTP => apiError .invalidOTP
  | .validation fields =>
    validationError (some (.dict (fields.map fun kv => (kv.1, .list [.text kv.2]))))

theorem errorBody_apiError (repr : Value → String) {c : ApiErrorClass} {detail : String}
    (h : detail ≠ "") :
    errorBody repr (apiError c (some detail)) = body (.text c.attributes.defaultCode) detail
      .null := by
  have hdetail : orDefault (some detail) c.attributes.defaultDetail = detail := by
    simp [orDefault, Option.filter, h]
  rw [errorBody_of_dict repr rfl, hdetail]
  rfl

/-- The `fields` of an error. -/
def fieldsOf : ApiError → Value
  | .validation fields => .dict (fields.map fun kv => (kv.1, .list [.text kv.2 (some "invalid")]))
  | _ => .null

def retryAfterOf : ApiError → Option ℕ
  | .smsBudgetExhausted retryAfter => some retryAfter
  | _ => none

/-- **The response to an error** has its status, its code and its text. -/
theorem exceptionHandler_exceptionOf (repr : Value → String) {e : ApiError}
    (hdetail : e.detail ≠ "")
    (hkeys : ∀ fields, e = .validation fields → ∀ kv ∈ fields, kv.1 ≠ "detail") :
    exceptionHandler repr (.api (exceptionOf e)) = some
      { status := e.statusCode
        data := body (.text e.code) e.detail (fieldsOf e)
        retryAfter := retryAfterOf e } := by
  have hresponse : ∀ data, errorBody repr (exceptionOf e) = data →
      exceptionHandler repr (.api (exceptionOf e)) =
        some { status := e.statusCode, data, retryAfter := retryAfterOf e } := by
    rintro data rfl
    cases e <;> rfl
  refine hresponse _ ?_
  cases e with
  | conflict detail | alreadyReviewed detail | invalidTransition detail | windowRequired detail =>
    exact errorBody_apiError repr hdetail
  | validation fields =>
    have hnames : ∀ kv ∈ fields.map (fun kv => (kv.1, Value.list [.text kv.2])),
        kv.1 ≠ "detail" := by
      intro kv hkv
      obtain ⟨kv', hkv', rfl⟩ := List.mem_map.mp hkv
      exact hkeys fields rfl kv' hkv'
    refine (errorBody_validationError repr hnames).trans ?_
    rw [List.map_map]
    rfl
  | notFound | votingClosed | nominationsClosed | alreadyVoted | alreadyVoided | duplicateNomination
  | captchaFailed | unsupportedPhoneNumber | smsBudgetExhausted | invalidOTP => rfl

end KwAwards.Common.ErrorResponse
