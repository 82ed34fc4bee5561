import KwAwards.Common.Base

/-! # API errors and database errors

`ApiError` lists the exceptions the modelled services raise, each with its HTTP status, its stable
`code` and its `detail` text. `DbError` lists what PostgreSQL answers to a refused statement;
`pgcode` is the SQLSTATE the driver reports. -/

namespace KwAwards.Common.Exceptions

/-- The exceptions of the services, with the text of those that take one. -/
inductive ApiError
  | notFound (detail : String)
  | votingClosed
  | nominationsClosed
  | alreadyVoted
  | conflict (detail : String)
  | alreadyVoided
  | alreadyReviewed (detail : String)
  | duplicateNomination
  | invalidTransition (detail : String)
  | windowRequired (detail : String)
  | captchaFailed
  | unsupportedPhoneNumber
  | smsBudgetExhausted (retryAfter : ℕ)
  | invalidOTP
  | validation (fields : List (String × String))
  deriving DecidableEq, Repr

namespace ApiError

def statusCode : ApiError → ℕ
  | notFound _ => 404
  | votingClosed | nominationsClosed => 403
  | alreadyVoted | conflict _ | alreadyVoided | alreadyReviewed _ | duplicateNomination
  | invalidTransition _ => 409
  | windowRequired _ | captchaFailed | unsupportedPhoneNumber | invalidOTP | validation _ => 400
  | smsBudgetExhausted _ => 503

def code : ApiError → String
  | notFound _ => "not_found"
  | votingClosed => "voting_closed"
  | nominationsClosed => "nominations_closed"
  | alreadyVoted => "already_voted"
  | conflict _ => "conflict"
  | alreadyVoided => "already_voided"
  | alreadyReviewed _ => "already_reviewed"
  | duplicateNomination => "duplicate_nomination"
  | invalidTransition _ => "invalid_transition"
  | windowRequired _ => "window_required"
  | captchaFailed => "captcha_failed"
  | unsupportedPhoneNumber => "unsupported_phone_number"
  | smsBudgetExhausted _ => "sms_unavailable"
  | invalidOTP => "invalid_otp"
  | validation _ => "invalid"

def detail : ApiError → String
  | notFound d | conflict d | alreadyReviewed d | invalidTransition d | windowRequired d => d
  | votingClosed => "Voting is not open for this event."
  | nominationsClosed => "Nominations are not open for this event."
  | alreadyVoted => "You have already voted in this award."
  | alreadyVoided => "This vote has already been voided."
  | duplicateNomination => "This nominee has already been nominated for this award."
  | captchaFailed => "CAPTCHA verification failed."
  | unsupportedPhoneNumber => "Enter a valid Kenyan mobile phone number."
  | smsBudgetExhausted _ => "SMS delivery is temporarily unavailable."
  | invalidOTP => "Invalid or expired code."
  | validation _ => "Validation failed."

end ApiError

/-- A statement refused by PostgreSQL. -/
inductive DbError
  | raiseException (message : String)
  | uniqueViolation
  | checkViolation (constraint : String)
  | stringTooLong
  deriving DecidableEq, Repr

/-- The SQLSTATE of an error. -/
def DbError.pgcode : DbError → String
  | .raiseException _ => "P0001"
  | .uniqueViolation => "23505"
  | .checkViolation _ => "23514"
  | .stringTooLong => "22001"

/-- How a call ends when it does not return; `doesNotExist` is the uncaught exception of a `get`. -/
inductive Raised
  | api (e : ApiError)
  | db (e : DbError)
  | doesNotExist
  deriving DecidableEq, Repr

end KwAwards.Common.Exceptions
