import KwAwards.Common.ErrorResponse
import KwAwards.Voting.Entries
import KwAwards.Voting.PhoneKeys

/-! # What the OTP request view answers

`dispatch` is a request to `OTPRequestView` from the throttles to the response: the three throttles,
the serializer, the strict normalisation and the CAPTCHA, `request_otp` with the delivery of the
SMS, and the exception handler.

`dispatch_answer` says that of the voters and the challenges the response depends on one thing only,
whether the number is blocked, and `sameResponse_iff` when it depends on that. -/

namespace KwAwards.Voting.RequestView

open KwAwards.Lib.Tables KwAwards.Lib.Counters KwAwards.Common.Base KwAwards.Common.Exceptions
open KwAwards.Common.Fields KwAwards.Common.Phone KwAwards.Common.Throttles
open KwAwards.Common.SmsBudget KwAwards.Audit.Log KwAwards.Voting.Models KwAwards.Voting.Serializers
open KwAwards.Voting.PhoneKeys KwAwards.Voting.Otp KwAwards.Voting.Entries KwAwards.Store

/-! ### Responses -/

/-- The body of a response: `{"detail": …}`, the error envelope, or the page of an uncaught
exception. -/
inductive Body
  | detail (text : String)
  | error (code detail : String) (fields : Option (List (String × String)))
  | serverError
  deriving DecidableEq, Repr

/-- A response; the only header that depends on what happened is `Retry-After`. -/
structure Response where
  status : ℕ
  body : Body
  retryAfter : Option ℤ := none
  deriving DecidableEq, Repr

/-- What is raised on the way; `unparsed` is the exception of a parser of the framework, by its
response. -/
inductive Failure
  | api (e : ApiError)
  | throttled (wait : ℤ)
  | unparsed (response : Response)
  | uncaught

/-- The text of the framework's `Throttled`. -/
def throttledDetail (wait : ℤ) : String :=
  "Request was throttled. Expected available in " ++ toString wait ++
    if wait = 1 then " second." else " seconds."

/-- **`exception_handler`**, and the server's page for what it does not handle. -/
def exceptionHandler : Failure → Response
  | .api (.validation fields) =>
    { status := 400, body := .error "invalid" "Validation failed." (some fields) }
  | .api (.smsBudgetExhausted retryAfter) =>
    { status := (ApiError.smsBudgetExhausted retryAfter).statusCode
      body := .error (ApiError.smsBudgetExhausted retryAfter).code
        (ApiError.smsBudgetExhausted retryAfter).detail none
      retryAfter := some retryAfter }
  | .api e => { status := e.statusCode, body := .error e.code e.detail none }
  | .throttled wait =>
    { status := 429, body := .error "throttled" (throttledDetail wait) none,
      retryAfter := some wait }
  | .unparsed response => response
  | .uncaught => { status := 500, body := .serverError }

/-- For an error of the services this is the handler of `ExceptionHandler`, with its body written
out. -/
theorem exceptionHandler_api (repr : Common.ExceptionHandler.Value → String) {e : ApiError}
    (hdetail : e.detail ≠ "")
    (hkeys : ∀ fields, e = .validation fields → ∀ kv ∈ fields, kv.1 ≠ "detail") :
    ∃ r fields, Common.ExceptionHandler.exceptionHandler repr
      (.api (Common.ErrorResponse.exceptionOf e)) =
        some r ∧
      exceptionHandler (.api e) =
        { status := r.status
          body := .error e.code e.detail fields
          retryAfter := r.retryAfter.map Int.ofNat } ∧
      r.data = Common.ExceptionHandler.body (.text e.code) e.detail
        (Common.ErrorResponse.fieldsOf e) := by
  have hview : ∃ fields, exceptionHandler (.api e) =
      { status := e.statusCode
        body := .error e.code e.detail fields
        retryAfter := (Common.ErrorResponse.retryAfterOf e).map Int.ofNat } := by
    cases e <;> exact ⟨_, rfl⟩
  obtain ⟨fields, hview⟩ := hview
  exact ⟨_, fields, Common.ErrorResponse.exceptionHandler_exceptionOf repr hdetail hkeys,
    hview, rfl⟩

/-- `OTP_REQUEST_RESPONSE`, accepted. -/
def otpRequestResponse : Response where
  status := 202
  body := .detail "If the number is valid, a verification code has been sent."

/-! ### The view -/

/-- The settings, and the libraries the code calls. -/
structure Config where
  otp : OtpSettings
  phones : PhoneNumbers
  allowedRegions : List String
  rates : String → Option String
  largestTimeout : ℕ
  sha256 : String → String

/-- The database and the shared cache, with the counters of the throttles and of the budget. -/
structure State where
  db : Database
  throttles : Cache ℚ
  budget : Cache Time

/-- A request: what the parsers make of its body, or the response in its place. -/
structure Incoming where
  data : Except Response RequestData
  client : Client

/-- How `send_sms` ends. -/
inductive Delivery
  | sent
  | smsError
  | raised
  deriving DecidableEq, Repr

/-- What happens around a request: the clocks of the throttles and of the service, the verdict on a
CAPTCHA token, and the delivery of an SMS. -/
structure Outside where
  clock : String → ℚ
  now : Time
  captcha : String → Option String → Bool
  sms : Delivery

/-- What a request draws: the code, and the keys of its new rows. -/
structure Draws where
  code : String
  voter : Keys
  challenge : Keys
  entry : Keys

section View

variable (cfg : Config) (o : Outside)

/-- The identifier of the phone throttles reads the body. -/
def identOf (req : Incoming) : Except Failure (Option String) :=
  match req.data with
  | .ok data => .ok (phoneIdent cfg.phones data)
  | .error response => .error (.unparsed response)

/-- `throttle_classes`: each scope with its identifier. -/
def throttleClasses (req : Incoming) : List (String × Except Failure (Option String)) :=
  [("otp_request_phone_short", identOf cfg req), ("otp_request_phone_day", identOf cfg req),
    ("otp_request_ip", .ok req.client.clientIp)]

/-- `check_throttles`: all of them count, and the waits of those that refuse are collected. -/
def checkThrottles :
    List (String × Except Failure (Option String)) → Cache ℚ → Except Failure (Cache ℚ × List ℤ)
  | [], cache => .ok (cache, [])
  | (scope, ident) :: rest, cache =>
    -- a throttle without a rate does not look at the body
    if (cfg.rates scope).getD "" = "" then checkThrottles rest cache
    else match ident with
      | .error f => .error f
      | .ok ident =>
        match allowRequest cfg.sha256 cfg.rates cfg.largestTimeout scope ident
          (o.clock scope) cache with
        | .error _ => .error .uncaught
        | .ok (cache, .allowed) => checkThrottles rest cache
        | .ok (cache, .refused wait) =>
          (checkThrottles rest cache).map fun (cache, waits) => (cache, wait :: waits)

/-- `OTPRequestView.post` before it calls `request_otp`. -/
def validPhone (req : Incoming) : Except Failure String :=
  match req.data with
  | .error response => .error (.unparsed response)
  | .ok data =>
    match requestedPhone cfg.phones cfg.allowedRegions o.captcha req.client.clientIp data with
    | .error e => .error (.api e)
    | .ok phone => .ok phone

/-- The end of `request_otp`: a blocked voter is sent nothing, and an `SmsError` is swallowed. -/
def sendSms : Requested → Except Failure Unit
  | .blocked => .ok ()
  | .refused e => .error (.api e)
  | .granted _ => if o.sms = .raised then .error .uncaught else .ok ()

/-- **`OTPRequestView.post`**. -/
def post (req : Incoming) (draws : Draws) (s : State) : Option (State × Except Failure Unit) :=
  match validPhone cfg o req with
  | .error f => some (s, .error f)
  | .ok phone =>
    (requestOtp cfg.otp s.db s.budget o.now phone (req.client.request .anonymous) draws.code
      draws.voter
      draws.challenge draws.entry).map fun (db, budget, r) => ({ s with db, budget }, sendSms o r)

/-- **A request to the view.** -/
def dispatch (req : Incoming) (draws : Draws) (s : State) : Option (State × Response) :=
  match checkThrottles cfg o (throttleClasses cfg req) s.throttles with
  | .error f => some (s, exceptionHandler f)
  | .ok (throttles, wait :: waits) =>
    some ({ s with throttles }, exceptionHandler (.throttled (waits.foldl max wait)))
  | .ok (throttles, []) =>
    (post cfg o req draws { s with throttles }).map fun (s, r) =>
      match r with
      | .error f => (s, exceptionHandler f)
      | .ok () => (s, otpRequestResponse)

end View

/-! ### What the response depends on -/

/-- The number belongs to a blocked voter. -/
def isBlocked (db : Database) (phoneE164 : String) : Bool :=
  (voterByPhone db.voters phoneE164).any Voter.isBlocked

/-- No SMS is left for today. -/
def Exhausted (cfg : Config) (now : Time) (budget : Cache Time) : Prop :=
  cfg.otp.smsDailyLimit ≠ 0 ∧ cfg.otp.smsDailyLimit < (budget.get now (budgetKey now)).getD 0 + 1

instance (cfg : Config) (now : Time) (budget : Cache Time) :
    Decidable (Exhausted cfg now budget) := by
  unfold Exhausted; infer_instance

/-- The response to a request for a number, by whether it is blocked. -/
def ending (cfg : Config) (o : Outside) (budget : Cache Time) (blocked : Bool) : Response :=
  if blocked then otpRequestResponse
  else if Exhausted cfg o.now budget then
    exceptionHandler (.api (.smsBudgetExhausted (secondsUntilNextNairobiDay o.now)))
  else if o.sms = .raised then exceptionHandler .uncaught
  else otpRequestResponse

/-- The response, by which numbers are blocked. -/
def answer (cfg : Config) (o : Outside) (req : Incoming) (throttles : Cache ℚ) (budget : Cache Time)
    (blocked : String → Bool) : Response :=
  match checkThrottles cfg o (throttleClasses cfg req) throttles with
  | .error f => exceptionHandler f
  | .ok (_, wait :: waits) => exceptionHandler (.throttled (waits.foldl max wait))
  | .ok (_, []) =>
    match validPhone cfg o req with
    | .error f => exceptionHandler f
    | .ok phone => ending cfg o budget (blocked phone)

variable {cfg : Config} {o : Outside} {req : Incoming} {draws : Draws} {s s' : State} {r : Response}

theorem isBlocked_getOrCreateVoter {db db₁ : Database} {phoneE164 : String} {vk : Keys} {now : Time}
    {voter : Voter} (h : getOrCreateVoter db phoneE164 vk now = some (db₁, voter)) :
    isBlocked db phoneE164 = voter.isBlocked := by
  unfold isBlocked
  rcases getOrCreateVoter_cases h with ⟨hv, -⟩ | ⟨hv, -, -, hb, -⟩
  · rw [hv]
    rfl
  · rw [hv, hb]
    rfl

/-- A reservation is refused when the budget is exhausted. -/
theorem reserve_result {hashPhone : String → String} {limit : ℕ} {db db' : Database}
    {budget budget' : Cache Time} {now : Time} {voter : Voter} {phoneE164 : String}
    {request : Request} {ak : Keys} {r : Except ApiError Unit}
    (h : reserve hashPhone limit db budget now voter phoneE164 request ak =
      some (db', budget', r)) :
    r = if limit ≠ 0 ∧ limit < (budget.get now (budgetKey now)).getD 0 + 1 then
      .error (.smsBudgetExhausted (secondsUntilNextNairobiDay now)) else .ok () := by
  by_cases h0 : limit = 0
  · unfold reserve at h
    rw [if_pos h0] at h
    obtain ⟨-, hr⟩ := Prod.mk.inj (Option.some.inj h)
    rw [if_neg (by simp [h0])]
    exact (Prod.mk.inj hr).2.symm
  · have hcount :=
      Cache.count_snd budget now (budgetKey now) (seconds (secondsUntilNextNairobiDay now))
    rcases hx : budget.count now (budgetKey now) (seconds (secondsUntilNextNairobiDay now)) with
      ⟨c, n⟩
    rw [hx] at hcount
    obtain rfl : n = (budget.get now (budgetKey now)).getD 0 + 1 := hcount
    rw [reserve_of_count h0 hx] at h
    split_ifs at h with hlt
    · obtain ⟨d, -, hd⟩ := Option.map_eq_some_iff.mp h
      rw [if_pos ⟨h0, hlt⟩]
      exact (Prod.mk.inj (Prod.mk.inj hd).2).2.symm
    · obtain ⟨-, hr⟩ := Prod.mk.inj (Option.some.inj h)
      rw [if_neg fun hx => hlt hx.2]
      exact (Prod.mk.inj hr).2.symm

/-- **How `request_otp` ends** depends on whether the number is blocked, and on the budget. -/
theorem sendSms_requestOtp {db db' : Database} {budget budget' : Cache Time}
    {phoneE164 code : String} {client : Client} {vk ck ak : Keys} {q : Requested}
    (h : requestOtp cfg.otp db budget o.now phoneE164 (client.request .anonymous) code vk ck ak =
      some (db', budget', q)) :
    (match sendSms o q with
      | .error f => exceptionHandler f
      | .ok () => otpRequestResponse) = ending cfg o budget (isBlocked db phoneE164) := by
  obtain ⟨⟨db₁, voter⟩, hv, h⟩ := Option.bind_eq_some_iff.mp h
  rw [isBlocked_getOrCreateVoter hv]
  simp only at h
  unfold ending
  split_ifs at h with hb
  · obtain ⟨d, -, hd⟩ := Option.map_eq_some_iff.mp h
    obtain ⟨-, hq⟩ := Prod.mk.inj hd
    obtain rfl := (Prod.mk.inj hq).2
    rw [if_pos hb]
    rfl
  · rw [if_neg hb]
    obtain ⟨⟨db₂, budget₂, r₂⟩, hres, hg⟩ := Option.bind_eq_some_iff.mp h
    have hr := reserve_result hres
    by_cases hx : Exhausted cfg o.now budget
    · obtain rfl : r₂ = .error (.smsBudgetExhausted (secondsUntilNextNairobiDay o.now)) :=
        hr.trans (if_pos hx)
      obtain ⟨-, hq⟩ := Prod.mk.inj (Option.some.inj hg)
      obtain rfl := (Prod.mk.inj hq).2
      rw [if_pos hx]
      rfl
    · obtain rfl : r₂ = .ok () := hr.trans (if_neg hx)
      obtain ⟨d, -, hd⟩ := Option.map_eq_some_iff.mp hg
      obtain ⟨-, hq⟩ := Prod.mk.inj hd
      obtain rfl := (Prod.mk.inj hq).2
      rw [if_neg hx, sendSms]
      by_cases hs : o.sms = .raised
      · rw [if_pos hs, if_pos hs]
      · rw [if_neg hs, if_neg hs]

/-- **What the view answers** depends on the blocked numbers, and on nothing else of the
database. -/
theorem dispatch_answer (h : dispatch cfg o req draws s = some (s', r)) :
    r = answer cfg o req s.throttles s.budget (isBlocked s.db) := by
  unfold dispatch at h
  unfold answer
  split at h
  · obtain ⟨-, rfl⟩ := Prod.mk.inj (Option.some.inj h)
    rfl
  · obtain ⟨-, rfl⟩ := Prod.mk.inj (Option.some.inj h)
    rfl
  · next throttles hok =>
    obtain ⟨⟨s₁, e⟩, hp, h⟩ := Option.map_eq_some_iff.mp h
    unfold post at hp
    split at hp
    · obtain ⟨rfl, rfl⟩ := Prod.mk.inj (Option.some.inj hp)
      obtain ⟨-, rfl⟩ := Prod.mk.inj h
      rfl
    · obtain ⟨⟨db, budget, q⟩, hq, he⟩ := Option.map_eq_some_iff.mp hp
      obtain ⟨rfl, rfl⟩ := Prod.mk.inj he
      have hend := sendSms_requestOtp hq
      rcases hs : sendSms o q with f | _
      · simp only [hs] at h hend
        exact (Prod.mk.inj h).2.symm.trans hend
      · simp only [hs] at h hend
        exact (Prod.mk.inj h).2.symm.trans hend

/-! ### Two runs -/

/-- Two states that differ in the voters and the challenges only. -/
def SameButStanding (s₁ s₂ : State) : Prop :=
  s₂ = { s₁ with db := { s₁.db with voters := s₂.db.voters, challenges := s₂.db.challenges } }

/-- The request passes the throttles and the checks of `post`, so `request_otp` is called for the
number. -/
def Reaches (cfg : Config) (o : Outside) (req : Incoming) (throttles : Cache ℚ)
    (phoneE164 : String) :
    Prop :=
  (∃ cache, checkThrottles cfg o (throttleClasses cfg req) throttles = .ok (cache, [])) ∧
    validPhone cfg o req = .ok phoneE164

/-- The endings of a blocked and of another number are the same while there are SMS left and
`send_sms` raises nothing but `SmsError`. -/
theorem ending_eq_iff {budget : Cache Time} {b₁ b₂ : Bool} :
    ending cfg o budget b₁ = ending cfg o budget b₂ ↔
      b₁ = b₂ ∨ (¬ Exhausted cfg o.now budget ∧ o.sms ≠ .raised) := by
  have hne : ending cfg o budget false = otpRequestResponse ↔
      ¬ Exhausted cfg o.now budget ∧ o.sms ≠ .raised := by
    unfold ending
    by_cases hx : Exhausted cfg o.now budget
    · simp [hx, exceptionHandler, otpRequestResponse]
    · by_cases hs : o.sms = .raised
      · simp [hx, hs, exceptionHandler, otpRequestResponse]
      · simp [hx, hs]
  have htrue : ending cfg o budget true = otpRequestResponse := by simp [ending]
  rcases b₁ with _ | _ <;> rcases b₂ with _ | _
  · simp
  · rw [htrue, hne]
    simp
  · rw [htrue, eq_comm, hne]
    simp
  · simp

/-- **When the endpoint does not reveal a number's standing:** two states that differ in the voters
and the challenges only give the same response exactly when the request does not reach `request_otp`
for a number that is blocked in one of them, or SMS are left and the delivery raises nothing but
`SmsError`. -/
theorem sameResponse_iff {s₁ s₂ s₁' s₂' : State} {draws₁ draws₂ : Draws} {r₁ r₂ : Response}
    (hs : SameButStanding s₁ s₂) (h₁ : dispatch cfg o req draws₁ s₁ = some (s₁', r₁))
    (h₂ : dispatch cfg o req draws₂ s₂ = some (s₂', r₂)) :
    r₁ = r₂ ↔ ∀ p, Reaches cfg o req s₁.throttles p → isBlocked s₁.db p = isBlocked s₂.db p ∨
      (¬ Exhausted cfg o.now s₁.budget ∧ o.sms ≠ .raised) := by
  have hthrottles : s₂.throttles = s₁.throttles := by rw [hs]
  have hbudget : s₂.budget = s₁.budget := by rw [hs]
  rw [dispatch_answer h₁, dispatch_answer h₂, hthrottles, hbudget]
  unfold answer Reaches
  split
  · next f hf => simp [hf]
  · next throttles wait waits hw => simp [hw]
  · next throttles hok =>
    split
    · next f hf => simp [hf]
    · next p hp =>
      rw [ending_eq_iff]
      constructor
      · rintro h q ⟨-, hq⟩
        obtain rfl := Except.ok.inj (hp.symm.trans hq)
        exact h
      · exact fun h => h p ⟨⟨throttles, hok⟩, hp⟩

/-! ### The last SMS of a day -/

/-- One SMS a day, and Kenyan mobile numbers. -/
def oneSms : Config where
  otp := { smsDailyLimit := 1, hashCode := fun _ code => code, hashPhone := fun p => "hmac:" ++ p }
  phones := kenya
  allowedRegions := ["KE"]
  rates _ := none
  largestTimeout := longestTimeout
  sha256 s := s

def evening : Outside where
  clock _ := 0
  now := 100
  captcha _ _ := true
  sms := .sent

def asked : Incoming := ⟨.ok (kenyanBody (.str "0712 345678")), {}⟩

def drawn : Draws := ⟨"123456", ⟨51, 2⟩, ⟨80, 1⟩, ⟨70, 1⟩⟩

/-- The SMS of the day has been sent, and the voters are the given ones. -/
def spent (voters : Table Voter) : State where
  db := { voters }
  throttles := .empty
  budget := Cache.empty.set 0 (budgetKey 100) 1 (seconds 75600)

def annBlocked : Table Voter :=
  ⟨[{ id := 50, phoneE164 := "+254712345678", isBlocked := true }], by decide⟩

theorem sameButStanding_spent (voters voters' : Table Voter) :
    SameButStanding (spent voters) (spent voters') := rfl

theorem status_annBlocked : (dispatch oneSms evening asked drawn (spent annBlocked)).map
    (fun x => x.2.status) = some 202 := by decide

theorem status_unknown : (dispatch oneSms evening asked drawn (spent .empty)).map
    (fun x => x.2.status) = some 503 := by decide

theorem sameResponse_iff_spent : ∃ s₁ r₁ s₂ r₂,
    dispatch oneSms evening asked drawn (spent annBlocked) = some (s₁, r₁) ∧
    dispatch oneSms evening asked drawn (spent .empty) = some (s₂, r₂) ∧
    (r₁ = r₂ ↔ ∀ p, Reaches oneSms evening asked .empty p →
      isBlocked (spent annBlocked).db p = isBlocked (spent .empty).db p ∨
        (¬ Exhausted oneSms 100 (spent annBlocked).budget ∧ evening.sms ≠ .raised)) := by
  obtain ⟨⟨s₁, r₁⟩, h₁, -⟩ := Option.map_eq_some_iff.mp status_annBlocked
  obtain ⟨⟨s₂, r₂⟩, h₂, -⟩ := Option.map_eq_some_iff.mp status_unknown
  exact ⟨s₁, r₁, s₂, r₂, h₁, h₂, sameResponse_iff (sameButStanding_spent _ _) h₁ h₂⟩

/-- With no SMS left, a blocked number is told that a code was sent, and an unknown one is not. -/
theorem not_always_sameResponse : ¬ ∀ (cfg : Config) (o : Outside) (req : Incoming)
    (draws₁ draws₂ : Draws) (s₁ s₂ s₁' s₂' : State) (r₁ r₂ : Response), SameButStanding s₁ s₂ →
    dispatch cfg o req draws₁ s₁ = some (s₁', r₁) → dispatch cfg o req draws₂ s₂ = some (s₂', r₂) →
    r₁ = r₂ := by
  intro h
  obtain ⟨⟨s₁, r₁⟩, hd₁, hr₁⟩ := Option.map_eq_some_iff.mp status_annBlocked
  obtain ⟨⟨s₂, r₂⟩, hd₂, hr₂⟩ := Option.map_eq_some_iff.mp status_unknown
  have hsame := sameButStanding_spent annBlocked .empty
  obtain rfl : r₁ = r₂ := h oneSms evening asked drawn drawn _ _ _ _ _ _ hsame hd₁ hd₂
  have hstatus : 202 = 503 := hr₁.symm.trans hr₂
  simp at hstatus

end KwAwards.Voting.RequestView
