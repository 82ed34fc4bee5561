import KwAwards.Common.Exceptions

/-! # The exception handler

The exceptions that a request can end with, as the framework builds them (`ExceptionClass.raise`,
`validationError`, `detailDict` for those of the token library) and as this API does (`apiError`),
and `exceptionHandler`, which turns one into the response. A body is a `Value`, as a detail is. -/

namespace KwAwards.Common.ExceptionHandler

open KwAwards.Common.Exceptions

/-- The data of an exception or of a body. A text with a code is an `ErrorDetail`. -/
inductive Value
  | null
  | text (s : String) (code : Option String := none)
  | list (items : List Value)
  | dict (items : List (String × Value))

/-! ### Exceptions of the framework -/

/-- An `APIException`: `wait` and `retryAfter` are the attributes that become a header. -/
structure APIException where
  statusCode : ℕ
  defaultCode : String
  detail : Value
  isValidationError : Bool := false
  wait : Option ℕ := none
  retryAfter : Option ℕ := none

mutual

/-- `_get_error_details`: every text becomes an `ErrorDetail`, with its own code or else `code`. -/
def errorDetails (code : String) : Value → Value
  | .null => .text "None" (some code)
  | .text s c => .text s (some (c.getD code))
  | .list items => .list (errorDetailsList code items)
  | .dict items => .dict (errorDetailsDict code items)

def errorDetailsList (code : String) : List Value → List Value
  | [] => []
  | v :: items => errorDetails code v :: errorDetailsList code items

def errorDetailsDict (code : String) : List (String × Value) → List (String × Value)
  | [] => []
  | (k, v) :: items => (k, errorDetails code v) :: errorDetailsDict code items

end

theorem errorDetailsList_eq (code : String) (items : List Value) :
    errorDetailsList code items = items.map (errorDetails code) := by
  induction items with
  | nil => rfl
  | cons v items ih => rw [errorDetailsList, ih, List.map_cons]

theorem errorDetailsDict_eq (code : String) (items : List (String × Value)) :
    errorDetailsDict code items = items.map fun kv => (kv.1, errorDetails code kv.2) := by
  induction items with
  | nil => rfl
  | cons kv items ih => rw [errorDetailsDict, ih, List.map_cons]

/-- The class of an exception. -/
structure ExceptionClass where
  statusCode : ℕ
  defaultDetail : String
  defaultCode : String

/-- `APIException.__init__`. -/
def ExceptionClass.raise (c : ExceptionClass) (detail : Option Value := none)
    (code : Option String := none) : APIException where
  statusCode := c.statusCode
  defaultCode := c.defaultCode
  detail := errorDetails (code.getD c.defaultCode) (detail.getD (.text c.defaultDetail))

def parseErrorClass : ExceptionClass := ⟨400, "Malformed request.", "parse_error"⟩
def authenticationFailedClass : ExceptionClass :=
  ⟨401, "Incorrect authentication credentials.", "authentication_failed"⟩
def notAuthenticatedClass : ExceptionClass :=
  ⟨401, "Authentication credentials were not provided.", "not_authenticated"⟩
def permissionDeniedClass : ExceptionClass :=
  ⟨403, "You do not have permission to perform this action.", "permission_denied"⟩
def notFoundClass : ExceptionClass := ⟨404, "Not found.", "not_found"⟩
def methodNotAllowedClass : ExceptionClass :=
  ⟨405, "Method \"\x7bmethod\x7d\" not allowed.", "method_not_allowed"⟩
def unsupportedMediaTypeClass : ExceptionClass :=
  ⟨415, "Unsupported media type \"\x7bmedia_type\x7d\" in request.", "unsupported_media_type"⟩
def throttledClass : ExceptionClass := ⟨429, "Request was throttled.", "throttled"⟩
def validationErrorClass : ExceptionClass := ⟨400, "Invalid input.", "invalid"⟩

/-- `ValidationError.__init__`: a detail that is no mapping and no list is wrapped in a list. -/
def validationError (detail : Option Value := none) (code : Option String := none) : APIException :=
  let detail := match detail.getD (.text validationErrorClass.defaultDetail) with
    | .dict items => .dict items
    | .list items => .list items
    | v => .list [v]
  { validationErrorClass.raise (some detail) code with isValidationError := true }

/-- `d[key] = value`. -/
def setItem (d : List (String × Value)) (key : String) (value : Value) : List (String × Value) :=
  if d.any fun kv => kv.1 = key then d.map fun kv => if kv.1 = key then (key, value) else kv
  else d ++ [(key, value)]

/-- `DetailDictMixin.__init__` of the token library: the detail is a mapping with a `detail` and a
`code`. -/
def detailDict (c : ExceptionClass) (detail : Option Value := none) (code : Option String := none) :
    APIException :=
  let base := [("detail", Value.text c.defaultDetail), ("code", Value.text c.defaultCode)]
  let updated := match detail with
    | some (.dict items) => items.foldl (fun d kv => setItem d kv.1 kv.2) base
    | some v => setItem base "detail" v
    | none => base
  let updated := match code with
    | some s => setItem updated "code" (.text s)
    | none => updated
  c.raise (some (.dict updated))

/-- The `InvalidToken` of the token library. -/
def invalidTokenClass : ExceptionClass := ⟨401, "Token is invalid or expired", "token_not_valid"⟩

/-- The `InvalidToken` for a token that no token class accepts, with the answer of each of them. -/
def notValidForAnyType (messages : List (List (String × String))) : APIException :=
  detailDict invalidTokenClass <| some <| .dict
    [("detail", .text "Given token not valid for any token type"),
      ("messages", .list (messages.map fun m => .dict (m.map fun kv => (kv.1, .text kv.2))))]

/-! ### Exceptions of this API -/

/-- The subclasses of `ApiError`. -/
inductive ApiErrorClass
  | votingClosed
  | nominationsClosed
  | alreadyVoted
  | conflict
  | alreadyVoided
  | alreadyReviewed
  | duplicateNomination
  | invalidTransition
  | windowRequired
  | captchaFailed
  | unsupportedPhoneNumber
  | smsBudgetExhausted
  | invalidOTP
  deriving DecidableEq, Repr

/-- The class attributes. -/
def ApiErrorClass.attributes : ApiErrorClass → ExceptionClass
  | votingClosed => ⟨403, "Voting is not open for this event.", "voting_closed"⟩
  | nominationsClosed => ⟨403, "Nominations are not open for this event.", "nominations_closed"⟩
  | alreadyVoted => ⟨409, "You have already voted in this award.", "already_voted"⟩
  | conflict => ⟨409, "The request conflicts with the current state.", "conflict"⟩
  | alreadyVoided => ⟨409, "This vote has already been voided.", "already_voided"⟩
  | alreadyReviewed => ⟨409, "This nomination has already been reviewed.", "already_reviewed"⟩
  | duplicateNomination =>
    ⟨409, "This nominee has already been nominated for this award.", "duplicate_nomination"⟩
  | invalidTransition =>
    ⟨409, "That status change is not allowed from the current status.", "invalid_transition"⟩
  | windowRequired => ⟨400, "Set the required date window first.", "window_required"⟩
  | captchaFailed => ⟨400, "CAPTCHA verification failed.", "captcha_failed"⟩
  | unsupportedPhoneNumber =>
    ⟨400, "Enter a valid Kenyan mobile phone number.", "unsupported_phone_number"⟩
  | smsBudgetExhausted => ⟨503, "SMS delivery is temporarily unavailable.", "sms_unavailable"⟩
  | invalidOTP => ⟨400, "Invalid or expired code.", "invalid_otp"⟩

/-- `value or default`. -/
def orDefault (value : Option String) (default : String) : String :=
  (value.filter (· ≠ "")).getD default

/-- **`ApiError.__init__`**; `retryAfter` is what `SmsBudgetExhausted` takes besides. -/
def apiError (c : ApiErrorClass) (detail code : Option String := none)
    (statusCode : Option ℕ := none) (retryAfter : Option ℕ := none) : APIException :=
  let code := orDefault code c.attributes.defaultCode
  { statusCode := statusCode.getD c.attributes.statusCode
    defaultCode := c.attributes.defaultCode
    detail := .dict
      [("detail", .text (orDefault detail c.attributes.defaultDetail) (some code)),
        ("code", .text code)]
    retryAfter }

/-! ### The codes -/

/-- `_api_error_subclasses()`. -/
def apiErrorSubclasses : List ApiErrorClass :=
  [.votingClosed, .nominationsClosed, .alreadyVoted, .conflict, .alreadyVoided, .alreadyReviewed,
    .duplicateNomination, .invalidTransition, .windowRequired, .captchaFailed,
    .unsupportedPhoneNumber, .smsBudgetExhausted, .invalidOTP]

/-- `_THIRD_PARTY_CODE_SOURCES`. -/
def thirdPartyCodeSources : List ExceptionClass :=
  [authenticationFailedClass, notAuthenticatedClass, permissionDeniedClass, notFoundClass,
    throttledClass, validationErrorClass, methodNotAllowedClass, parseErrorClass,
    unsupportedMediaTypeClass, invalidTokenClass]

/-- `_EXTRA_THIRD_PARTY_CODES`. -/
def extraThirdPartyCodes : List String := ["no_active_account"]

/-- **`all_error_codes`**. -/
def allErrorCodes : List String :=
  (apiErrorSubclasses.map (·.attributes.defaultCode) ++ thirdPartyCodeSources.map (·.defaultCode) ++
    extraThirdPartyCodes).dedup.mergeSort

theorem mem_allErrorCodes {code : String} : code ∈ allErrorCodes ↔
    code ∈ apiErrorSubclasses.map (·.attributes.defaultCode) ∨
      code ∈ thirdPartyCodeSources.map (·.defaultCode) ∨ code ∈ extraThirdPartyCodes := by
  rw [allErrorCodes, List.mem_mergeSort, List.mem_dedup, List.mem_append, List.mem_append, or_assoc]

/-! ### The handler -/

/-- What ends a request: `args` is the message of an `Http404` or of a `PermissionDenied` of the web
framework, and the handler does not know `other` exceptions. -/
inductive Exc
  | http404 (args : Option Value)
  | permissionDenied (args : Option Value)
  | api (e : APIException)
  | other

structure Response where
  status : ℕ
  data : Value
  retryAfter : Option ℕ := none

/-- `str(value)`; `repr` is the text of what is no string. -/
def str (repr : Value → String) : Value → String
  | .text s _ => s
  | v => repr v

/-- `exc.get_codes()`, when it is a string. -/
def getCodes : Value → Option String
  | .text _ code => code
  | _ => none

/-- The `detail` and the `code` of data with exactly these keys. -/
def apiErrorShape : Value → Option (Value × Value)
  | .dict items =>
    match items.lookup "detail", items.lookup "code" with
    | some detail, some code =>
      if items.all fun kv => kv.1 = "detail" || kv.1 = "code" then some (detail, code) else none
    | _, _ => none
  | _ => none

/-- The envelope. -/
def body (code : Value) (detail : String) (fields : Value) : Value :=
  .dict [("code", code), ("detail", .text detail), ("fields", fields)]

/-- The exception of the framework that stands for one of the web framework. -/
def converted : Exc → Option APIException
  | .http404 args => some (notFoundClass.raise args)
  | .permissionDenied args => some (permissionDeniedClass.raise args)
  | .api e => some e
  | .other => none

/-- The `data` of the framework's own handler. -/
def drfData (e : APIException) : Value :=
  match e.detail with
  | .list items => .list items
  | .dict items => .dict items
  | v => .dict [("detail", v)]

/-- `data.get("detail") if isinstance(data, dict) else data`. -/
def detailOf : Value → Value
  | .dict items => (items.lookup "detail").getD .null
  | v => v

/-- The body for an exception of the framework. -/
def errorBody (repr : Value → String) (e : APIException) : Value :=
  match apiErrorShape (drfData e) with
  | some (detail, code) => body code (str repr detail) .null
  | none =>
    if e.isValidationError then
      body (.text validationErrorClass.defaultCode) "Validation failed." (drfData e)
    else body (.text ((getCodes e.detail).getD e.defaultCode))
      (str repr (detailOf (drfData e))) .null

/-- **`exception_handler`**; `none` is an exception it leaves to the server. -/
def exceptionHandler (repr : Value → String) (exc : Exc) : Option Response :=
  (converted exc).map fun e =>
    { status := e.statusCode
      data := errorBody repr e
      retryAfter := e.retryAfter <|> e.wait }

end KwAwards.Common.ExceptionHandler
