import KwAwards.Accounts.Authentication
import KwAwards.Voting.Entries

/-! # Roles and permissions

Who a request is authenticated as (`RequestUser`), the roles of an account (`userHasRole`), and the
permission classes of the views, which are checked in order. A role that is refused to an account
leaves an entry in the audit log, and every other refusal leaves nothing
(`checkPermissions_cases`). -/

namespace KwAwards.Accounts.Permissions

open KwAwards.Lib.Tables KwAwards.Common.Base KwAwards.Common.ExceptionHandler KwAwards.Audit.Log
open KwAwards.Accounts.Authentication KwAwards.Voting.Models KwAwards.Voting.Authentication
open KwAwards.Voting.Entries KwAwards.Store

/-! ### Accounts -/

/-- A row of `accounts_user`, with the names of its groups. -/
structure Account extends User where
  email : String := ""
  fullName : String := ""
  isSuperuser : Bool := false
  groups : List String := []
  lastLogin : Option Time := none
  deriving DecidableEq, Repr

instance : Keyed Account Id := ⟨fun a => a.id⟩

/-- The columns that the authenticators read. -/
def usersOf (accounts : Table Account) : Table User where
  rows := accounts.rows.map Account.toUser
  nodup := by
    rw [List.map_map]
    exact accounts.nodup

theorem get?_usersOf (accounts : Table Account) (k : Id) :
    (usersOf accounts).get? k = (accounts.get? k).map Account.toUser := by
  unfold Table.get? usersOf
  rw [List.find?_map]
  rfl

/-! ### Who makes a request -/

/-- `request.user`. -/
inductive RequestUser
  | anonymous
  | staff (account : Account)
  | voter (voter : Voter)
  deriving DecidableEq, Repr

namespace RequestUser

def isAuthenticated : RequestUser → Bool
  | anonymous => false
  | staff _ | voter _ => true

def isActive : RequestUser → Bool
  | anonymous => false
  | staff account => account.isActive
  | voter v => !v.isBlocked

/-- `getattr(user, "is_staff", False)`. -/
def isStaff : RequestUser → Bool
  | staff account => account.isStaff
  | anonymous | voter _ => false

def isSuperuser : RequestUser → Bool
  | staff account => account.isSuperuser
  | anonymous | voter _ => false

def groups : RequestUser → List String
  | staff account => account.groups
  | anonymous | voter _ => []

/-- What the services read of it. -/
def principal : RequestUser → Principal
  | anonymous => .anonymous
  | staff account => .user account.id
  | voter v => .voter v.id

end RequestUser

def moderator : String := "Moderator"
def eventAdmin : String := "EventAdmin"

/-- **`user_has_role`**. -/
def userHasRole (user : RequestUser) (role : String) : Bool :=
  if !(user.isAuthenticated && user.isActive && user.isStaff) then false
  else if user.isSuperuser then true
  else user.groups.contains role

/-- An account has a role. -/
structure Account.Has (a : Account) (role : String) : Prop where
  active : a.isActive = true
  staff : a.isStaff = true
  granted : a.isSuperuser = true ∨ role ∈ a.groups

theorem Account.has_iff {a : Account} {role : String} : a.Has role ↔
    a.isActive = true ∧ a.isStaff = true ∧ (a.isSuperuser = true ∨ role ∈ a.groups) :=
  ⟨fun h => ⟨h.active, h.staff, h.granted⟩, fun ⟨hactive, hstaff, hgranted⟩ =>
    ⟨hactive, hstaff, hgranted⟩⟩

instance (a : Account) (role : String) : Decidable (a.Has role) :=
  decidable_of_iff _ Account.has_iff.symm

/-- **Only accounts have roles**, and superusers have each of them. -/
theorem userHasRole_iff {user : RequestUser} {role : String} :
    userHasRole user role = true ↔ ∃ account, user = .staff account ∧ account.Has role := by
  constructor
  · intro h
    unfold userHasRole at h
    split_ifs at h with hstaff hsuper
    · rcases user with _ | account | v
      · cases hsuper
      · simp [RequestUser.isActive, RequestUser.isStaff, RequestUser.isAuthenticated] at hstaff
        exact ⟨account, rfl, hstaff.1, hstaff.2, Or.inl hsuper⟩
      · cases hsuper
    · rcases user with _ | account | v
      · cases h
      · simp [RequestUser.isActive, RequestUser.isStaff, RequestUser.isAuthenticated] at hstaff
        exact ⟨account, rfl, hstaff.1, hstaff.2, Or.inr (List.contains_iff_mem.mp h)⟩
      · cases h
  · rintro ⟨account, rfl, ha⟩
    unfold userHasRole
    rw [if_neg]
    · split_ifs with hsuper
      · rfl
      · exact List.contains_iff_mem.mpr (ha.granted.resolve_left hsuper)
    · simp [RequestUser.isActive, RequestUser.isStaff, RequestUser.isAuthenticated, ha.active,
        ha.staff]

/-! ### Authenticating -/

/-- The authentication classes of a view: none, the default, or those of the votes. -/
inductive Authentication
  | nobody
  | publicOrStaff
  | voterOrStaff
  deriving DecidableEq, Repr

section Authenticate

variable (lib : TokenLibrary) (accounts : Table Account) (db : Database) (now : Time)
  (header : Option String)

/-- An authenticator of the staff, and the instance it returns. -/
def authenticateStaff (a : Authenticator) : Except Exc RequestUser :=
  match a.authenticate lib (usersOf accounts) now header with
  | .error exc => .error exc
  | .ok none => .ok .anonymous
  | .ok (some user) =>
    match accounts.get? user.id with
    | some account => .ok (.staff account)
    | none => .ok .anonymous

/-- **`VoterOrStaffAuthentication.authenticate`**: a token that is no voter's is left to the
staff. -/
def voterOrStaffAuthenticate : Except Exc RequestUser :=
  match header with
  | none => .ok .anonymous
  | some h =>
    if h = "" then .ok .anonymous
    else match authenticate lib.voterToken db now h with
      | .ok (some voter) => .ok (.voter voter)
      | .ok none => .ok .anonymous
      | .error _ => authenticateStaff lib accounts now header .staffJWT

/-- `perform_authentication`. -/
def Authentication.perform : Authentication → Except Exc RequestUser
  | .nobody => .ok .anonymous
  | .publicOrStaff => authenticateStaff lib accounts now header .publicOrStaff
  | .voterOrStaff => voterOrStaffAuthenticate lib accounts db now header

end Authenticate

section Genuine

variable {lib : TokenLibrary} {accounts : Table Account} {db : Database} {now : Time}
  {header : Option String}

/-- The account of a request is the stored one that its access token names, active and of the
staff. -/
structure SignedIn (lib : TokenLibrary) (accounts : Table Account) (now : Time)
    (header : Option String) (account : Account) : Prop where
  token : ∃ h t, header = some h ∧ splitBytes h = ["Bearer", t] ∧
    lib.accessToken now t = .ok (.pk account.id)
  stored : accounts.get? account.id = some account
  active : account.isActive = true
  staff : account.isStaff = true

theorem authenticateStaff_eq_staff {a : Authenticator} {account : Account}
    (h : authenticateStaff lib accounts now header a = .ok (.staff account)) :
    SignedIn lib accounts now header account := by
  unfold authenticateStaff at h
  split at h
  · cases h
  · cases h
  · next user hauth =>
    split at h
    · next stored hget =>
      obtain rfl := RequestUser.staff.inj (Except.ok.inj h)
      rcases header with _ | hd
      · cases a <;> cases hauth
      · obtain ⟨token, ht, htoken, huser, hactive, hstaff⟩ := authenticate_eq_some.mp hauth
        have hid : stored.id = user.id := Table.key_of_get? hget
        rw [get?_usersOf, hget] at huser
        obtain rfl := Option.some.inj huser
        exact ⟨⟨hd, token, rfl, ht.split, htoken⟩, hget, hactive, hstaff⟩
    · cases h

theorem authenticateStaff_ne_voter {a : Authenticator} {v : Voter} :
    authenticateStaff lib accounts now header a ≠ .ok (.voter v) := by
  intro h
  unfold authenticateStaff at h
  split at h
  · cases h
  · cases h
  · split at h
    · cases h
    · cases h

/-- **An account is signed in** by its access token. -/
theorem perform_eq_staff {a : Authentication} {account : Account}
    (h : a.perform lib accounts db now header = .ok (.staff account)) :
    SignedIn lib accounts now header account := by
  cases a with
  | nobody => cases h
  | publicOrStaff => exact authenticateStaff_eq_staff h
  | voterOrStaff =>
    replace h : voterOrStaffAuthenticate lib accounts db now header = .ok (.staff account) := h
    unfold voterOrStaffAuthenticate at h
    split at h
    · cases h
    · split_ifs at h
      · cases h
      · split at h
        · cases h
        · cases h
        · exact authenticateStaff_eq_staff h

/-- **A voter is authenticated** on the view of the votes only: stored, verified and not blocked. -/
theorem perform_eq_voter {a : Authentication} {v : Voter}
    (h : a.perform lib accounts db now header = .ok (.voter v)) :
    a = .voterOrStaff ∧
    (∃ hd, header = some hd ∧ authenticate lib.voterToken db now hd = .ok (some v)) ∧
      db.voters.get? v.id = some v ∧ v.isBlocked = false ∧ v.verifiedAt.isSome = true := by
  cases a with
  | nobody => cases h
  | publicOrStaff => exact absurd h authenticateStaff_ne_voter
  | voterOrStaff =>
    replace h : voterOrStaffAuthenticate lib accounts db now header = .ok (.voter v) := h
    unfold voterOrStaffAuthenticate at h
    split at h
    · cases h
    · next hd =>
      split_ifs at h
      · cases h
      · split at h
        · next voter hauth =>
          obtain rfl := RequestUser.voter.inj (Except.ok.inj h)
          exact ⟨rfl, ⟨hd, rfl, hauth⟩, authenticate_eq_some hauth⟩
        · cases h
        · exact absurd h authenticateStaff_ne_voter

end Genuine

/-! ### Permission classes -/

/-- What the checks read of a request, and its `Authorization` header. -/
structure HttpRequest where
  path : String := ""
  authorization : Option String := none
  requestedWith : Option String := none
  client : Client := {}
  deriving DecidableEq, Repr

def safeMethods : List String := ["GET", "HEAD", "OPTIONS"]

/-- A permission class. -/
inductive Permission
  | allowAny
  | isAuthenticated
  | role (name : String)
  | roleOrReadOnly (name : String)
  | isVoter
  | hasAjaxHeader
  deriving DecidableEq, Repr

def isModerator : Permission := .role moderator
def isEventAdmin : Permission := .role eventAdmin
def isEventAdminOrReadOnly : Permission := .roleOrReadOnly eventAdmin

/-- The `message` of a class. -/
def Permission.message : Permission → Option String
  | allowAny | isAuthenticated => none
  | role _ | roleOrReadOnly _ => some "You do not have permission to perform this action."
  | isVoter => some "A verified voter token is required."
  | hasAjaxHeader => some "This endpoint requires the X-Requested-With: XMLHttpRequest header."

def deniedMetadata (path method role : String) : Metadata :=
  [("path", .str path), ("method", .str method), ("required_role", .str role)]

section Check

variable (r : HttpRequest) (method : String) (user : RequestUser) (now : Time) (ak : Keys)

/-- **`RolePermission.has_permission`**. -/
def roleHasPermission (role : String) (db : Database) : Option (Database × Bool) :=
  let allowed := userHasRole user role
  match allowed, user with
  | false, .staff _ =>
    (db.write (log ak now .permissionDenied (some (r.client.request user.principal)) none none none
      (deniedMetadata r.path method role))).map (·, allowed)
  | _, _ => some (db, allowed)

/-- `has_permission`. -/
def Permission.hasPermission (db : Database) : Permission → Option (Database × Bool)
  | .allowAny => some (db, true)
  | .isAuthenticated => some (db, user.isAuthenticated)
  | .role name => roleHasPermission r method user now ak name db
  | .roleOrReadOnly name =>
    if method ∈ safeMethods then some (db, true) else roleHasPermission r method user now ak name db
  | .isVoter => some (db, match user with
    | .voter _ => true
    | _ => false)
  | .hasAjaxHeader => some (db, r.requestedWith = some "XMLHttpRequest")

/-- `APIView.permission_denied`: without an authentication that succeeded, where one is possible,
the request is not authenticated. -/
def permissionDenied (a : Authentication) (message : Option String) : APIException :=
  if a ≠ .nobody ∧ user = .anonymous then notAuthenticatedClass.raise
  else permissionDeniedClass.raise (message.map fun m => .text m)

/-- **`check_permissions`**: the first class that refuses ends the request. -/
def checkPermissions (a : Authentication) : List Permission → Database →
    Option (Database × Except APIException Unit)
  | [], db => some (db, .ok ())
  | p :: ps, db =>
    (p.hasPermission r method user now ak db).bind fun (db, allowed) =>
      if allowed then checkPermissions a ps db
      else some (db, .error (permissionDenied user a p.message))

end Check

/-- Whether a class lets a request through. -/
def Permission.allows (r : HttpRequest) (method : String) (user : RequestUser) : Permission → Bool
  | .allowAny => true
  | .isAuthenticated => user.isAuthenticated
  | .role name => userHasRole user name
  | .roleOrReadOnly name => method ∈ safeMethods || userHasRole user name
  | .isVoter => match user with
    | .voter _ => true
    | _ => false
  | .hasAjaxHeader => r.requestedWith = some "XMLHttpRequest"

/-- The role that a class asks of a request. -/
def Permission.requiredRole (method : String) : Permission → Option String
  | .role name => some name
  | .roleOrReadOnly name => if method ∈ safeMethods then none else some name
  | _ => none

section Cases

variable {r : HttpRequest} {method : String} {user : RequestUser} {now : Time} {ak : Keys}

/-- The entry of a role that is refused to an account. -/
structure DeniedEntry (r : HttpRequest) (method : String) (account : Account) (role : String)
    (now : Time) (ak : Keys) (e : AuditLog) : Prop where
  lacks : account.Has role → False
  written : log ak now .permissionDenied (some (r.client.request (.user account.id))) none none none
    (deniedMetadata r.path method role) = some e

theorem roleHasPermission_cases {role : String} {db db' : Database} {allowed : Bool}
    (h : roleHasPermission r method user now ak role db = some (db', allowed)) :
    allowed = userHasRole user role ∧
    ((db' = db ∧ (allowed = true ∨ ∀ account, user ≠ .staff account)) ∨
      ∃ account e audit, user = .staff account ∧ allowed = false ∧
        DeniedEntry r method account role now ak e ∧ db.audit.get? e.id = none ∧
        audit.rows = db.audit.rows ++ [e] ∧ db' = { db with audit }) := by
  unfold roleHasPermission at h
  cases hrole : userHasRole user role with
  | true =>
    obtain ⟨rfl, rfl⟩ : db = db' ∧ true = allowed := by simpa [hrole] using h
    exact ⟨rfl, Or.inl ⟨rfl, Or.inl rfl⟩⟩
  | false =>
    rcases user with _ | account | v
    · obtain ⟨rfl, rfl⟩ : db = db' ∧ false = allowed := by simpa [hrole] using h
      exact ⟨rfl, Or.inl ⟨rfl, Or.inr fun account => by simp⟩⟩
    · simp only [hrole] at h
      obtain ⟨db₁, hw, h⟩ := Option.map_eq_some_iff.mp h
      obtain ⟨rfl, rfl⟩ := Prod.mk.inj h
      obtain ⟨e, audit, he, hk, ha, rfl⟩ := Database.write_eq_some hw
      refine ⟨rfl, Or.inr ⟨account, e, audit, rfl, rfl, ⟨fun hhas => ?_, he⟩, hk, ha, rfl⟩⟩
      rw [userHasRole_iff.mpr ⟨account, rfl, hhas⟩] at hrole
      cases hrole
    · obtain ⟨rfl, rfl⟩ : db = db' ∧ false = allowed := by simpa [hrole] using h
      exact ⟨rfl, Or.inl ⟨rfl, Or.inr fun account => by simp⟩⟩

/-- **A class** lets a request through or not, and writes only where an account lacks its role. -/
theorem hasPermission_cases {p : Permission} {db db' : Database} {allowed : Bool}
    (h : p.hasPermission r method user now ak db = some (db', allowed)) :
    allowed = p.allows r method user ∧
      ((db' = db ∧
        (allowed = true ∨ p.requiredRole method = none ∨ ∀ account, user ≠ .staff account)) ∨
        ∃ role account e audit, p.requiredRole method = some role ∧ user = .staff account ∧
          allowed = false ∧ DeniedEntry r method account role now ak e ∧ db.audit.get? e.id = none ∧
          audit.rows = db.audit.rows ++ [e] ∧ db' = { db with audit }) := by
  cases p with
  | allowAny | isAuthenticated | isVoter | hasAjaxHeader =>
    obtain ⟨rfl, rfl⟩ := Prod.mk.inj (Option.some.inj h)
    exact ⟨rfl, Or.inl ⟨rfl, Or.inr (Or.inl rfl)⟩⟩
  | role role =>
    obtain ⟨hallowed, ⟨rfl, hor⟩ | ⟨account, e, audit, hrest⟩⟩ := roleHasPermission_cases h
    · exact ⟨hallowed, Or.inl ⟨rfl, hor.imp_right Or.inr⟩⟩
    · exact ⟨hallowed, Or.inr ⟨role, account, e, audit, rfl, hrest⟩⟩
  | roleOrReadOnly role =>
    unfold Permission.hasPermission at h
    split_ifs at h with hsafe
    · obtain ⟨rfl, rfl⟩ := Prod.mk.inj (Option.some.inj h)
      exact ⟨by simp [Permission.allows, hsafe], Or.inl ⟨rfl, Or.inl rfl⟩⟩
    · have hrole : (Permission.roleOrReadOnly role).requiredRole method = some role := if_neg hsafe
      have hallows :
          (Permission.roleOrReadOnly role).allows r method user = userHasRole user role := by
        simp [Permission.allows, hsafe]
      obtain ⟨hallowed, ⟨rfl, hor⟩ | ⟨account, e, audit, hrest⟩⟩ := roleHasPermission_cases h
      · exact ⟨hallowed.trans hallows.symm, Or.inl ⟨rfl, hor.imp_right Or.inr⟩⟩
      · exact ⟨hallowed.trans hallows.symm, Or.inr ⟨role, account, e, audit, hrole, hrest⟩⟩

/-- The first class that refuses a request. -/
def firstDenial (r : HttpRequest) (method : String) (user : RequestUser) (ps : List Permission) :
    Option Permission :=
  ps.find? fun p => !p.allows r method user

/-- **A check** lets a request through and writes nothing, or ends it with the first class that
refuses it; then an entry is written when that class asks for a role and the request is an
account's. -/
theorem checkPermissions_cases {a : Authentication} {ps : List Permission} {db db' : Database}
    {res : Except APIException Unit}
    (h : checkPermissions r method user now ak a ps db = some (db', res)) :
    (firstDenial r method user ps = none ∧ db' = db ∧ res = .ok ()) ∨
      ∃ p, firstDenial r method user ps = some p ∧
        res = .error (permissionDenied user a p.message) ∧
        ((db' = db ∧ (p.requiredRole method = none ∨ ∀ account, user ≠ .staff account)) ∨
          ∃ role account e audit, p.requiredRole method = some role ∧ user = .staff account ∧
            DeniedEntry r method account role now ak e ∧ db.audit.get? e.id = none ∧
            audit.rows = db.audit.rows ++ [e] ∧ db' = { db with audit }) := by
  induction ps generalizing db with
  | nil =>
    obtain ⟨rfl, rfl⟩ := Prod.mk.inj (Option.some.inj h)
    exact Or.inl ⟨rfl, rfl, rfl⟩
  | cons p ps ih =>
    obtain ⟨⟨db₁, allowed⟩, hone, hnext⟩ := Option.bind_eq_some_iff.mp h
    obtain ⟨hallowed, hcases⟩ := hasPermission_cases hone
    unfold firstDenial at ih ⊢
    rw [List.find?_cons, ← hallowed]
    cases allowed with
    | true =>
      obtain ⟨rfl, -⟩ | ⟨_, _, _, _, -, -, hfalse, -⟩ := hcases
      · exact ih hnext
      · cases hfalse
    | false =>
      obtain ⟨rfl, rfl⟩ := Prod.mk.inj (Option.some.inj hnext)
      refine Or.inr ⟨p, rfl, rfl, ?_⟩
      obtain ⟨rfl, hor⟩ | ⟨role, account, e, audit, hrole, huser, -, hrest⟩ := hcases
      · exact Or.inl ⟨rfl, hor.resolve_left (by simp)⟩
      · exact Or.inr ⟨role, account, e, audit, hrole, huser, hrest⟩

theorem firstDenial_eq_none {ps : List Permission} (h : firstDenial r method user ps = none) :
    ∀ p ∈ ps, p.allows r method user = true := by
  intro p hp
  have hnot := List.find?_eq_none.mp h p hp
  simpa using hnot

theorem hasPermission_of_allows {p : Permission} (db : Database)
    (h : p.allows r method user = true) :
    p.hasPermission r method user now ak db = some (db, true) := by
  have hrole : ∀ role, userHasRole user role = true →
      roleHasPermission r method user now ak role db = some (db, true) := by
    intro role hhas
    unfold roleHasPermission
    simp only [hhas]
  cases p with
  | allowAny => rfl
  | isAuthenticated | isVoter | hasAjaxHeader => exact congrArg (fun b => some (db, b)) h
  | role role => exact hrole role h
  | roleOrReadOnly role =>
    unfold Permission.hasPermission
    split_ifs with hsafe
    · rfl
    · exact hrole role (by simpa [Permission.allows, hsafe] using h)

/-- A request that no class refuses passes the check, whatever the keys. -/
theorem checkPermissions_of_none {a : Authentication} {ps : List Permission} (db : Database)
    (h : firstDenial r method user ps = none) :
    checkPermissions r method user now ak a ps db = some (db, .ok ()) := by
  induction ps with
  | nil => rfl
  | cons p ps ih =>
    have hall := firstDenial_eq_none h
    unfold checkPermissions
    rw [hasPermission_of_allows db (hall p List.mem_cons_self), Option.bind_some]
    refine ih (List.find?_eq_none.mpr fun q hq => ?_)
    simpa using hall q (List.mem_cons_of_mem p hq)

end Cases

end KwAwards.Accounts.Permissions
