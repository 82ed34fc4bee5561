import KwAwards.Common.Exceptions
import KwAwards.Common.Fields
import KwAwards.Common.Phone

/-! # The bodies of the OTP endpoints

`otpRequestSerializer` and `otpVerifySerializer` read the number with the same field, then the
request view normalises it strictly (`requestedPhone`) and the verify serializer does not. -/

namespace KwAwards.Voting.Serializers

open KwAwards.Common.Exceptions KwAwards.Common.Fields KwAwards.Common.Phone KwAwards.Common.Str

/-- The messages of a field. -/
def messagesOf {α : Type} (name : String) : Except (List String) α → List (String × String)
  | .ok _ => []
  | .error messages => messages.map fun m => (name, m)

/-- `Serializer.run_validation` on what is not a mapping. -/
def notAMapping (typeName : String) : ApiError :=
  .validation [("non_field_errors", if typeName = "NoneType" then "No data provided"
    else "Invalid data. Expected a dictionary, but got " ++ typeName ++ ".")]

/-- The field `phone` of both serializers. -/
def phoneField : CharField := { maxLength := some 32 }

def captchaTokenField : CharField :=
  { required := false, allowBlank := true, maxLength := some 2048 }

/-- A required field has a text. -/
def text (f : CharField) (v : Option Value) : Except (List String) String :=
  (f.run v).map fun s => s.getD ""

/-- **`OTPRequestSerializer`**: the phone and the CAPTCHA token. -/
def otpRequestSerializer : RequestData → Except ApiError (String × Option String)
  | .other typeName => .error (notAMapping typeName)
  | .mapping items =>
    match text phoneField (items.lookup "phone"),
      captchaTokenField.run (items.lookup "captcha_token") with
    | .ok phone, .ok token => .ok (phone, token)
    | phone, token =>
      .error (.validation (messagesOf "phone" phone ++ messagesOf "captcha_token" token))

/-- `^\d+$` on a trimmed text. -/
def allDigits (s : String) : Bool := s ≠ "" && s.toList.all isDigit

def codeField : CharField := { minLength := some 6, maxLength := some 6, pattern := some allDigits }

/-- `validate_code`, with the setting `OTP_LENGTH`. -/
def validateCode (otpLength : ℕ) (value : String) : Except (List String) String :=
  if value.length ≠ otpLength then .error ["Enter the " ++ toString otpLength ++ "-digit code."]
  else .ok value

section Lib

variable (lib : PhoneNumbers)

/-- `_PhoneMixin.validate_phone`. -/
def validatePhone (value : String) : Except (List String) String :=
  match normalizePhone lib value with
  | .ok p => .ok p
  | .error e => .error [e.detail]

/-- The field `phone` of `OTPVerifySerializer`. -/
def verifyPhone (v : Option Value) : Except (List String) String :=
  (text phoneField v).bind (validatePhone lib)

/-- **`OTPVerifySerializer`**: the phone and the code. -/
def otpVerifySerializer (otpLength : ℕ) : RequestData → Except ApiError (String × String)
  | .other typeName => .error (notAMapping typeName)
  | .mapping items =>
    match verifyPhone lib (items.lookup "phone"),
        (text codeField (items.lookup "code")).bind (validateCode otpLength) with
    | .ok phone, .ok code => .ok (phone, code)
    | phone, code => .error (.validation (messagesOf "phone" phone ++ messagesOf "code" code))

/-- **`OTPRequestView.post`** before it calls `request_otp`: the number it calls it for. -/
def requestedPhone (allowedRegions : List String) (verifyCaptcha : String → Option String → Bool)
    (clientIp : Option String) (data : RequestData) : Except ApiError String :=
  match otpRequestSerializer data with
  | .error e => .error e
  | .ok (value, token) =>
    match normalizePhoneStrict lib value allowedRegions with
    | .error _ => .error .unsupportedPhoneNumber
    | .ok phone =>
      if verifyCaptcha (token.getD "") clientIp then .ok phone else .error .captchaFailed

end Lib

theorem text_eq_ok {v : Option Value} {s : String} (h : text phoneField v = .ok s) :
    ∃ w, v = some w ∧ CharField.toInternalValue w = some s := by
  unfold text at h
  rcases hr : phoneField.run v with e | o
  · rw [hr] at h; cases h
  · rw [hr] at h
    obtain rfl : o.getD "" = s := Except.ok.inj h
    cases o with
    | some t => exact CharField.run_eq_some hr
    | none => exact absurd hr (CharField.run_ne_none rfl v)

variable {lib : PhoneNumbers} {allowedRegions : List String}
  {verifyCaptcha : String → Option String → Bool} {clientIp : Option String} {data : RequestData}
  {p : String}

/-- **What reaches `request_otp`**: a text or a number of the body that the field takes and the
strict normalisation accepts. -/
theorem requestedPhone_eq_ok
    (h : requestedPhone lib allowedRegions verifyCaptcha clientIp data = .ok p) :
    ∃ w value, data.get "phone" = some w ∧ CharField.toInternalValue w = some value ∧
      text phoneField (data.get "phone") = .ok value ∧
      normalizePhoneStrict lib value allowedRegions = .ok p := by
  unfold requestedPhone at h
  rcases hs : otpRequestSerializer data with e | ⟨value, token⟩
  · rw [hs] at h; simp at h
  · simp only [hs] at h
    rcases hn : normalizePhoneStrict lib value allowedRegions with e | phone
    · rw [hn] at h; simp at h
    · simp only [hn] at h
      split_ifs at h
      obtain rfl := Except.ok.inj h
      rcases data with items | typeName
      · simp only [otpRequestSerializer] at hs
        split at hs
        · next phone' token' hp ht =>
          cases hs
          obtain ⟨w, hw, hi⟩ := text_eq_ok hp
          exact ⟨w, value, hw, hi, hp, hn⟩
        · simp at hs
      · cases hs

end KwAwards.Voting.Serializers
