import KwAwards.Common.ErrorResponse
import KwAwards.Voting.Authentication

/-! # Staff authentication

`StaffJWTAuthentication` and `PublicOrStaffAuthentication` over the authentication of the token
library, whose tokens are a parameter (`TokenLibrary`). `authenticate_eq_some` says who is
authenticated, and `codes_closed_iff` when every code of a failed authentication is one that
`all_error_codes` lists: the library gives some of its exceptions a code of their own, which the
handler passes on. -/

namespace KwAwards.Accounts.Authentication

open KwAwards.Lib.Tables KwAwards.Common.Base KwAwards.Common.ExceptionHandler
open KwAwards.Common.ErrorResponse KwAwards.Voting.Authentication

/-! ### The authenticators -/

/-- What is read of a row of `accounts_user`. -/
structure User where
  id : Id
  isActive : Bool := true
  isStaff : Bool := true
  deriving DecidableEq, Repr

instance : Keyed User Id := ⟨User.id⟩

/-- The `user_id` of a token: missing, no UUID, or one. -/
inductive UserId
  | missing
  | malformed
  | pk (id : Id)
  deriving DecidableEq, Repr

/-- Why a token class refuses a token; a `UnicodeError` is no `TokenError`. -/
inductive TokenFailure
  | tokenError (message : String)
  | unicodeError
  deriving DecidableEq, Repr

/-- What the constructors `AccessToken` and `VoterToken` make of a raw token at an instant. They
check the signature, the expiry and the token type. -/
structure TokenLibrary where
  accessToken : Time → String → Except TokenFailure UserId
  voterToken : Time → String → Option Claims

/-- `AUTH_HEADER_TYPES`. -/
def authHeaderTypes : List String := ["Bearer"]

def badAuthorizationHeader : APIException :=
  detailDict authenticationFailedClass
    (some (.text "Authorization header must contain two space-delimited values"))
    (some "bad_authorization_header")

def noUserIdentification : APIException :=
  detailDict invalidTokenClass (some (.text "Token contained no recognizable user identification"))

def userNotFound : APIException :=
  detailDict authenticationFailedClass (some (.text "User not found")) (some "user_not_found")

def userInactive : APIException :=
  detailDict authenticationFailedClass (some (.text "User is inactive")) (some "user_inactive")

def notStaff : APIException :=
  authenticationFailedClass.raise (some (.text "This account is not allowed to use the staff API."))

/-- `get_raw_token`. -/
def getRawToken (header : String) : Except Exc (Option String) :=
  match splitBytes header with
  | [] => .ok none
  | scheme :: rest =>
    if scheme ∉ authHeaderTypes then .ok none
    else match rest with
      | [token] => .ok (some token)
      | _ => .error (.api badAuthorizationHeader)

/-- `get_validated_token`; `AUTH_TOKEN_CLASSES` has the access tokens only. -/
def getValidatedToken (lib : TokenLibrary) (now : Time) (rawToken : String) : Except Exc UserId :=
  match lib.accessToken now rawToken with
  | .ok userId => .ok userId
  | .error (.tokenError message) => .error <| .api <| notValidForAnyType
    [[("token_class", "AccessToken"), ("token_type", "access"), ("message", message)]]
  | .error .unicodeError => .error .other

/-- `JWTAuthentication.get_user`. -/
def jwtGetUser (users : Table User) : UserId → Except Exc User
  | .missing => .error (.api noUserIdentification)
  | .malformed => .error .other
  | .pk id =>
    match users.get? id with
    | none => .error (.api userNotFound)
    | some user => if user.isActive then .ok user else .error (.api userInactive)

/-- **`StaffJWTAuthentication.get_user`**. -/
def getUser (users : Table User) (userId : UserId) : Except Exc User :=
  match jwtGetUser users userId with
  | .error exc => .error exc
  | .ok user => if user.isStaff then .ok user else .error (.api notStaff)

/-- `JWTAuthentication.authenticate` of **`StaffJWTAuthentication`**: `none` leaves the request
anonymous. -/
def staffAuthenticate (lib : TokenLibrary) (users : Table User) (now : Time)
    (header : Option String) :
    Except Exc (Option User) :=
  match header with
  | none => .ok none
  | some header =>
    match getRawToken header with
    | .error exc => .error exc
    | .ok none => .ok none
    | .ok (some rawToken) =>
      match getValidatedToken lib now rawToken with
      | .error exc => .error exc
      | .ok userId =>
        match getUser users userId with
        | .error exc => .error exc
        | .ok user => .ok (some user)

/-- `_is_valid_voter_token`. -/
def isValidVoterToken (lib : TokenLibrary) (now : Time) (rawToken : String) : Bool :=
  (lib.voterToken now rawToken).isSome

/-- **`PublicOrStaffAuthentication.authenticate`**. -/
def publicOrStaffAuthenticate (lib : TokenLibrary) (users : Table User) (now : Time)
    (header : Option String) : Except Exc (Option User) :=
  match header with
  | none => staffAuthenticate lib users now none
  | some header =>
    match getRawToken header with
    | .error exc => .error exc
    | .ok (some rawToken) =>
      if isValidVoterToken lib now rawToken then .ok none
      else staffAuthenticate lib users now (some header)
    | .ok none => staffAuthenticate lib users now (some header)

inductive Authenticator
  | staffJWT
  | publicOrStaff
  deriving DecidableEq, Repr

def Authenticator.authenticate : Authenticator → TokenLibrary → Table User → Time → Option String →
    Except Exc (Option User)
  | staffJWT => staffAuthenticate
  | publicOrStaff => publicOrStaffAuthenticate

/-- The tokens that an authenticator takes for anonymous. -/
def Authenticator.skips (lib : TokenLibrary) (now : Time) (rawToken : String) : Authenticator → Bool
  | staffJWT => false
  | publicOrStaff => isValidVoterToken lib now rawToken

/-! ### How an authentication ends -/

theorem getRawToken_eq_token {header token : String} :
    getRawToken header = .ok (some token) ↔ splitBytes header = ["Bearer", token] := by
  unfold getRawToken
  rcases splitBytes header with _ | ⟨scheme, rest⟩
  · simp
  · by_cases hs : scheme = "Bearer"
    · subst hs
      rcases rest with _ | ⟨t, _ | ⟨t', rest⟩⟩ <;> simp [authHeaderTypes]
    · simp [authHeaderTypes, hs]

theorem getRawToken_eq_error {header : String} {exc : Exc} : getRawToken header = .error exc ↔
    exc = .api badAuthorizationHeader ∧
      ∃ rest, splitBytes header = "Bearer" :: rest ∧ ∀ token, rest ≠ [token] := by
  unfold getRawToken
  rcases splitBytes header with _ | ⟨scheme, rest⟩
  · simp
  · by_cases hs : scheme = "Bearer"
    · subst hs
      rcases rest with _ | ⟨t, _ | ⟨t', rest⟩⟩ <;> simp [authHeaderTypes, eq_comm]
    · simp [authHeaderTypes, hs]

/-- **Whom `get_user` returns**: the stored account of the token, active and of the staff. -/
theorem getUser_eq_ok {users : Table User} {userId : UserId} {user : User} :
    getUser users userId = .ok user ↔ userId = .pk user.id ∧ users.get? user.id = some user ∧
      user.isActive = true ∧ user.isStaff = true := by
  constructor
  · intro h
    rcases userId with _ | _ | id
    · cases h
    · cases h
    · rcases huser : users.get? id with _ | u
      · simp only [getUser, jwtGetUser, huser] at h
        cases h
      · cases hactive : u.isActive with
        | false => simp [getUser, jwtGetUser, huser, hactive] at h
        | true =>
          cases hstaff : u.isStaff with
          | false => simp [getUser, jwtGetUser, huser, hactive, hstaff] at h
          | true =>
            simp [getUser, jwtGetUser, huser, hactive, hstaff] at h
            obtain rfl := h
            obtain rfl : u.id = id := Table.key_of_get? huser
            exact ⟨rfl, huser, hactive, hstaff⟩
  · rintro ⟨rfl, huser, hactive, hstaff⟩
    simp [getUser, jwtGetUser, huser, hactive, hstaff]

section Authenticate
variable {lib : TokenLibrary} {users : Table User} {now : Time} {a : Authenticator} {h : String}

theorem authenticate_of_error {exc : Exc} (hraw : getRawToken h = .error exc) :
    a.authenticate lib users now (some h) = .error exc := by
  cases a
    <;> simp only [Authenticator.authenticate, publicOrStaffAuthenticate, staffAuthenticate, hraw]

theorem authenticate_of_none (hraw : getRawToken h = .ok none) :
    a.authenticate lib users now (some h) = .ok none := by
  cases a
    <;> simp only [Authenticator.authenticate, publicOrStaffAuthenticate, staffAuthenticate, hraw]

theorem authenticate_of_skips {token : String} (hraw : getRawToken h = .ok (some token))
    (hskip : a.skips lib now token = true) : a.authenticate lib users now (some h) = .ok none := by
  cases a with
  | staffJWT => cases hskip
  | publicOrStaff =>
    have hvoter : isValidVoterToken lib now token = true := hskip
    simp only [Authenticator.authenticate, publicOrStaffAuthenticate, hraw, hvoter, if_pos]

theorem authenticate_of_not_skips {token : String} (hraw : getRawToken h = .ok (some token))
    (hskip : a.skips lib now token = false) :
    a.authenticate lib users now (some h) = staffAuthenticate lib users now (some h) := by
  cases a with
  | staffJWT => rfl
  | publicOrStaff =>
    have hvoter : isValidVoterToken lib now token = false := hskip
    simp only [Authenticator.authenticate, publicOrStaffAuthenticate, hraw, hvoter,
      Bool.false_eq_true, if_neg, not_false_eq_true]

variable (lib now a h) in
/-- The header has this token, which is not skipped. -/
structure Presents (token : String) : Prop where
  split : splitBytes h = ["Bearer", token]
  taken : a.skips lib now token = false

variable (lib users now a h) in
/-- **The ways an authentication can fail**. -/
inductive Failure : Exc → Prop
  | badHeader {rest} (hsplit : splitBytes h = "Bearer" :: rest) (hrest : ∀ token, rest ≠ [token]) :
    Failure (.api badAuthorizationHeader)
  | refused {token message} (ht : Presents lib now a h token)
    (htoken : lib.accessToken now token = .error (.tokenError message)) :
    Failure (.api (notValidForAnyType
      [[("token_class", "AccessToken"), ("token_type", "access"), ("message", message)]]))
  | undecodable {token} (ht : Presents lib now a h token)
    (htoken : lib.accessToken now token = .error .unicodeError) : Failure .other
  | noUserId {token} (ht : Presents lib now a h token)
    (htoken : lib.accessToken now token = .ok .missing) :
    Failure (.api noUserIdentification)
  | malformedId {token} (ht : Presents lib now a h token)
    (htoken : lib.accessToken now token = .ok .malformed) : Failure .other
  | notFound {token id} (ht : Presents lib now a h token)
    (htoken : lib.accessToken now token = .ok (.pk id)) (huser : users.get? id = none) :
    Failure (.api userNotFound)
  | inactive {token id user} (ht : Presents lib now a h token)
    (htoken : lib.accessToken now token = .ok (.pk id)) (huser : users.get? id = some user)
    (hactive : user.isActive = false) : Failure (.api userInactive)
  | notStaff {token id user} (ht : Presents lib now a h token)
    (htoken : lib.accessToken now token = .ok (.pk id)) (huser : users.get? id = some user)
    (hactive : user.isActive = true) (hstaff : user.isStaff = false) : Failure (.api notStaff)

/-- Past the header, for a token that is not skipped. -/
theorem authenticate_of_token {token : String} (ht : Presents lib now a h token) :
    a.authenticate lib users now (some h) = match getValidatedToken lib now token with
      | .error exc => .error exc
      | .ok userId => match getUser users userId with
        | .error exc => .error exc
        | .ok user => .ok (some user) := by
  have hraw := getRawToken_eq_token.mpr ht.split
  rw [authenticate_of_not_skips hraw ht.taken]
  simp only [staffAuthenticate, hraw]

/-- What the header decides. -/
theorem authenticate_cases : a.authenticate lib users now (some h) = .ok none ∨
    (∃ rest, splitBytes h = "Bearer" :: rest ∧ (∀ token, rest ≠ [token]) ∧
      a.authenticate lib users now (some h) = .error (.api badAuthorizationHeader)) ∨
    ∃ token, Presents lib now a h token := by
  rcases hraw : getRawToken h with exc | _ | token
  · obtain ⟨rfl, rest, hsplit, hrest⟩ := getRawToken_eq_error.mp hraw
    exact Or.inr (Or.inl ⟨rest, hsplit, hrest, authenticate_of_error hraw⟩)
  · exact Or.inl (authenticate_of_none hraw)
  · cases hskip : a.skips lib now token with
    | true => exact Or.inl (authenticate_of_skips hraw hskip)
    | false => exact Or.inr (Or.inr ⟨token, getRawToken_eq_token.mp hraw, hskip⟩)

theorem failure_of_getUser {token : String} {userId : UserId} {exc : Exc}
    (ht : Presents lib now a h token) (htoken : lib.accessToken now token = .ok userId)
    (hf : getUser users userId = .error exc) : Failure lib users now a h exc := by
  rcases userId with _ | _ | id
  · obtain rfl := Except.error.inj hf
    exact .noUserId ht htoken
  · obtain rfl := Except.error.inj hf
    exact .malformedId ht htoken
  · rcases huser : users.get? id with _ | user
    · simp only [getUser, jwtGetUser, huser] at hf
      obtain rfl := Except.error.inj hf
      exact .notFound ht htoken huser
    · cases hactive : user.isActive with
      | false =>
        simp [getUser, jwtGetUser, huser, hactive] at hf
        obtain rfl := hf
        exact .inactive ht htoken huser hactive
      | true =>
        cases hstaff : user.isStaff with
        | false =>
          simp [getUser, jwtGetUser, huser, hactive, hstaff] at hf
          obtain rfl := hf
          exact .notStaff ht htoken huser hactive hstaff
        | true => simp [getUser, jwtGetUser, huser, hactive, hstaff] at hf

/-- **An authentication fails** in these ways only. -/
theorem authenticate_eq_error {exc : Exc} :
    a.authenticate lib users now (some h) = .error exc ↔ Failure lib users now a h exc := by
  constructor
  · intro hf
    obtain hnone | ⟨rest, hsplit, hrest, hbad⟩ | ⟨token, ht⟩ := authenticate_cases
    · rw [hnone] at hf
      cases hf
    · obtain rfl := Except.error.inj (hbad.symm.trans hf)
      exact .badHeader hsplit hrest
    · rw [authenticate_of_token ht, getValidatedToken] at hf
      rcases htoken : lib.accessToken now token with (message | _) | userId
      · simp only [htoken] at hf
        obtain rfl := Except.error.inj hf
        exact .refused ht htoken
      · simp only [htoken] at hf
        obtain rfl := Except.error.inj hf
        exact .undecodable ht htoken
      · simp only [htoken] at hf
        rcases huser : getUser users userId with exc' | user
        · simp only [huser] at hf
          obtain rfl := Except.error.inj hf
          exact failure_of_getUser ht htoken huser
        · simp [huser] at hf
  · intro hf
    cases hf with
    | badHeader hsplit hrest =>
      exact authenticate_of_error (getRawToken_eq_error.mpr ⟨rfl, _, hsplit, hrest⟩)
    | refused ht htoken | undecodable ht htoken =>
      rw [authenticate_of_token ht, getValidatedToken, htoken]
    | noUserId ht htoken | malformedId ht htoken =>
      rw [authenticate_of_token ht, getValidatedToken, htoken]
      rfl
    | notFound ht htoken huser =>
      rw [authenticate_of_token ht, getValidatedToken, htoken]
      simp only [getUser, jwtGetUser, huser]
    | inactive ht htoken huser hactive =>
      rw [authenticate_of_token ht, getValidatedToken, htoken]
      simp [getUser, jwtGetUser, huser, hactive]
    | notStaff ht htoken huser hactive hstaff =>
      rw [authenticate_of_token ht, getValidatedToken, htoken]
      simp [getUser, jwtGetUser, huser, hactive, hstaff]

/-- **Who is authenticated**: the account that the access token names. -/
theorem authenticate_eq_some {user : User} :
    a.authenticate lib users now (some h) = .ok (some user) ↔
    ∃ token, Presents lib now a h token ∧ lib.accessToken now token = .ok (.pk user.id) ∧
      users.get? user.id = some user ∧ user.isActive = true ∧ user.isStaff = true := by
  constructor
  · intro hs
    obtain hnone | ⟨rest, -, -, hbad⟩ | ⟨token, ht⟩ := authenticate_cases
    · cases hnone.symm.trans hs
    · cases hbad.symm.trans hs
    · rw [authenticate_of_token ht, getValidatedToken] at hs
      rcases htoken : lib.accessToken now token with (message | _) | userId
      · simp [htoken] at hs
      · simp [htoken] at hs
      · simp only [htoken] at hs
        rcases huser : getUser users userId with exc | u
        · simp [huser] at hs
        · simp only [huser] at hs
          obtain rfl := Option.some.inj (Except.ok.inj hs)
          obtain ⟨rfl, hstored⟩ := getUser_eq_ok.mp huser
          exact ⟨token, ht, htoken, hstored⟩
  · rintro ⟨token, ht, htoken, hstored⟩
    rw [authenticate_of_token ht, getValidatedToken, htoken]
    simp only [getUser_eq_ok.mpr ⟨rfl, hstored⟩]

end Authenticate

/-! ### The codes -/

/-- The `code` of a body. -/
def codeOf : Value → Option String
  | .dict items => match items.lookup "code" with
    | some (.text s _) => some s
    | _ => none
  | _ => none

/-- The code that the handler puts in the body, if it makes one, is listed. -/
def Listed (exc : Exc) : Prop :=
  ∀ repr r, exceptionHandler repr exc = some r → ∃ code, codeOf r.data = some code ∧
    code ∈ allErrorCodes

/-- The code of a failed authentication is listed. -/
def ClosedCodes (result : Except Exc (Option User)) : Prop :=
  ∀ exc, result = .error exc → Listed exc

theorem listed_api_iff {e : APIException} {code : String}
    (hcode : ∀ repr, codeOf (errorBody repr e) = some code) :
    Listed (.api e) ↔ code ∈ allErrorCodes := by
  constructor
  · intro h
    obtain ⟨c, hc, hmem⟩ := h (fun _ => "") _ rfl
    obtain rfl := Option.some.inj (hc.symm.trans (hcode _))
    exact hmem
  · intro hmem repr r hr
    obtain rfl := Option.some.inj hr
    exact ⟨code, hcode repr, hmem⟩

theorem listed_other : Listed .other := fun _ _ hr => nomatch hr

theorem codeOf_detailDict (repr : Value → String) (c : ExceptionClass) (detail : String)
    (code : Option String) :
    codeOf (errorBody repr (detailDict c (some (.text detail)) code)) =
      some (code.getD c.defaultCode) := by
  cases code <;> rfl

theorem codeOf_notValidForAnyType (repr : Value → String)
    (messages : List (List (String × String))) :
    codeOf (errorBody repr (notValidForAnyType messages)) = some invalidTokenClass.defaultCode :=
  rfl

theorem tokenNotValid_mem : invalidTokenClass.defaultCode ∈ allErrorCodes :=
  mem_allErrorCodes.mpr (by decide)

theorem listed_notValidForAnyType (messages : List (List (String × String))) :
    Listed (.api (notValidForAnyType messages)) :=
  (listed_api_iff fun repr => codeOf_notValidForAnyType repr messages).mpr tokenNotValid_mem

theorem listed_noUserIdentification : Listed (.api noUserIdentification) :=
  (listed_api_iff fun repr => codeOf_detailDict repr _ _ _).mpr tokenNotValid_mem

theorem listed_notStaff : Listed (.api notStaff) :=
  (listed_api_iff fun repr => congrArg codeOf (errorBody_of_text repr rfl rfl)).mpr
    (mem_allErrorCodes.mpr (by decide))

/-- The codes that the library gives an exception and not its class. -/
def instanceCodes : List String := ["bad_authorization_header", "user_not_found", "user_inactive"]

theorem instanceCode_notMem {code : String} (h : code ∈ instanceCodes) : code ∉ allErrorCodes := by
  rw [mem_allErrorCodes]
  revert code
  decide

theorem not_listed_of_instanceCode (c : ExceptionClass) (detail : String) {code : String}
    (h : code ∈ instanceCodes) :
    ¬ Listed (.api (detailDict c (some (.text detail)) (some code))) := by
  rw [listed_api_iff fun repr => codeOf_detailDict repr c detail (some code)]
  exact instanceCode_notMem h

section Closed
variable {lib : TokenLibrary} {users : Table User} {now : Time} {a : Authenticator} {h : String}

theorem stored_of_closed (hclosed : ClosedCodes (a.authenticate lib users now (some h)))
    {token : String} (ht : Presents lib now a h token) {id : Id}
    (htoken : lib.accessToken now token = .ok (.pk id)) :
    ∃ user, users.get? id = some user ∧ user.isActive = true := by
  rcases huser : users.get? id with _ | user
  · have hf : Failure lib users now a h (.api userNotFound) := .notFound ht htoken huser
    exact absurd (hclosed _ (authenticate_eq_error.mpr hf))
      (not_listed_of_instanceCode _ _ (by decide))
  · cases hactive : user.isActive with
    | true => exact ⟨user, rfl, hactive⟩
    | false =>
      have hf : Failure lib users now a h (.api userInactive) := .inactive ht htoken huser hactive
      exact absurd (hclosed _ (authenticate_eq_error.mpr hf))
        (not_listed_of_instanceCode _ _ (by decide))

theorem listed_of_failure {exc : Exc} (hf : Failure lib users now a h exc)
    (hrest : ∀ rest, splitBytes h = "Bearer" :: rest → ∃ token, rest = [token])
    (hstored : ∀ token id, Presents lib now a h token → lib.accessToken now token = .ok (.pk id) →
      ∃ user, users.get? id = some user ∧ user.isActive = true) : Listed exc := by
  cases hf with
  | badHeader hsplit hne =>
    obtain ⟨token, rfl⟩ := hrest _ hsplit
    exact absurd rfl (hne token)
  | refused => exact listed_notValidForAnyType _
  | undecodable | malformedId => exact listed_other
  | noUserId => exact listed_noUserIdentification
  | notFound ht htoken huser =>
    obtain ⟨user, hu, -⟩ := hstored _ _ ht htoken
    exact absurd (huser.symm.trans hu) (by simp)
  | inactive ht htoken huser hactive =>
    obtain ⟨user, hu, hactive'⟩ := hstored _ _ ht htoken
    obtain rfl := Option.some.inj (huser.symm.trans hu)
    exact absurd hactive' (by simp [hactive])
  | notStaff => exact listed_notStaff

end Closed

/-- **The codes are listed** when a bearer header has two parts and its access token, unless it is
skipped, names no account or an active one; otherwise they are not. -/
theorem codes_closed_iff (lib : TokenLibrary) (users : Table User) (now : Time) (a : Authenticator)
    (header : Option String) : ClosedCodes (a.authenticate lib users now header) ↔
      ∀ h rest, header = some h → splitBytes h = "Bearer" :: rest → ∃ token, rest = [token] ∧
        ∀ id, lib.accessToken now token = .ok (.pk id) →
          a.skips lib now token = true ∨ ∃ user, users.get? id = some user ∧
            user.isActive = true := by
  constructor
  · rintro hclosed h rest rfl hsplit
    by_cases hrest : ∃ token, rest = [token]
    · obtain ⟨token, rfl⟩ := hrest
      refine ⟨token, rfl, fun id htoken => ?_⟩
      cases hskip : a.skips lib now token with
      | true => exact Or.inl rfl
      | false => exact Or.inr (stored_of_closed hclosed ⟨hsplit, hskip⟩ htoken)
    · rw [not_exists] at hrest
      have hf : Failure lib users now a h (.api badAuthorizationHeader) := .badHeader hsplit hrest
      exact absurd (hclosed _ (authenticate_eq_error.mpr hf))
        (not_listed_of_instanceCode _ _ (by decide))
  · intro hcond exc herr
    rcases header with _ | h
    · cases a <;> cases herr
    · refine listed_of_failure (authenticate_eq_error.mp herr) (fun rest hsplit => ?_)
        fun token id ht htoken => ?_
      · obtain ⟨token, hrest, -⟩ := hcond h rest rfl hsplit
        exact ⟨token, hrest⟩
      · obtain ⟨token', htoken', hid⟩ := hcond h _ rfl ht.split
        obtain rfl := (List.cons.inj htoken').1
        exact (hid id htoken).resolve_left (by simp [ht.taken])

/-- One access token, of the account 60, and no voter token. -/
def oneToken : TokenLibrary where
  accessToken _ rawToken :=
    if rawToken = "abc" then .ok (.pk 60) else .error (.tokenError "Token is invalid")
  voterToken _ _ := none

def deactivated : Table User := ⟨[{ id := 60, isActive := false }], by decide⟩

/-- A deactivated account with a token that is still valid, and a header without a token. -/
theorem deactivated_code_unlisted : ∃ exc r exc' r',
    Authenticator.publicOrStaff.authenticate oneToken deactivated 0 (some "Bearer abc") =
      .error exc ∧
      exceptionHandler (fun _ => "") exc = some r ∧ r.status = 401 ∧
      codeOf r.data = some "user_inactive" ∧ "user_inactive" ∉ allErrorCodes ∧
    Authenticator.staffJWT.authenticate oneToken deactivated 0 (some "Bearer") = .error exc' ∧
      exceptionHandler (fun _ => "") exc' = some r' ∧ r'.status = 401 ∧
      codeOf r'.data = some "bad_authorization_header" ∧
      "bad_authorization_header" ∉ allErrorCodes := by
  have hsplit : splitBytes "Bearer abc" = ["Bearer", "abc"] := by decide
  have hinactive : Failure oneToken deactivated 0 .publicOrStaff "Bearer abc" (.api userInactive) :=
    .inactive ⟨hsplit, rfl⟩ rfl rfl rfl
  have hnone : splitBytes "Bearer" = ["Bearer"] := by decide
  have hheader : Failure oneToken deactivated 0 .staffJWT "Bearer" (.api badAuthorizationHeader) :=
    .badHeader hnone (by simp)
  exact ⟨_, _, _, _, authenticate_eq_error.mpr hinactive, rfl, rfl, rfl,
    instanceCode_notMem (by decide),
    authenticate_eq_error.mpr hheader, rfl, rfl, rfl, instanceCode_notMem (by decide)⟩

end KwAwards.Accounts.Authentication
