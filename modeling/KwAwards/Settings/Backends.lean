import KwAwards.Common.Str

/-! # The production settings and the backends they run

`problems` is the list that `settings.prod` raises when it is not empty: string tests on the
settings. At run time the same settings are resolved by `cachesFromUrl`, `getSmsBackend` and
`getCaptchaBackend`. The tests know the short names, and the resolution also takes dotted paths; the
tests know one bad scheme of a cache URL, and the resolution takes every scheme it does not know for
the per-process cache. `noDevBackend_iff` says which settings pass the tests and yet run a backend
meant for development.

Django's `import_string` is a parameter: it gives the class that a dotted path names, by whatever
module the path goes. -/

namespace KwAwards.Settings.Backends

open KwAwards.Common.Str

/-- The settings the checks and the resolution read; a missing one has its default. -/
structure Env where
  cacheUrl : String := "locmem://"
  smsBackend : String := "auto"
  captchaBackend : String := "auto"
  africastalkingUsername : String := ""
  africastalkingApiKey : String := ""
  turnstileSecretKey : String := ""
  deriving DecidableEq, Repr

/-- `AFRICASTALKING_USERNAME and AFRICASTALKING_API_KEY`. -/
def Env.hasCredentials (env : Env) : Bool :=
  decide (env.africastalkingUsername ≠ "") && decide (env.africastalkingApiKey ≠ "")

/-! ### The checks of `settings.prod` -/

/-- The `_sms` of the checks: what `auto` stands for. -/
def smsName (env : Env) : String :=
  if env.smsBackend = "auto" then (if env.hasCredentials then "africastalking" else "console")
  else env.smsBackend

/-- The `_captcha` of the checks. -/
def captchaName (env : Env) : String :=
  if env.captchaBackend = "auto" then (if env.turnstileSecretKey ≠ "" then "turnstile" else "dummy")
  else env.captchaBackend

/-- **`_problems`**. -/
def problems (env : Env) : List String :=
  (if startsWith env.cacheUrl "locmem" || decide (env.cacheUrl = "") then
    ["CACHE_URL must be a shared cache (redis:// or db://) so throttles work"] else []) ++
  (if smsName env ∈ ["console", "locmem", "e2e"] then
    ["SMS backend is dev/e2e-only; set AFRICASTALKING_USERNAME and AFRICASTALKING_API_KEY"]
      else []) ++
  (if smsName env = "africastalking" ∧ ¬ env.hasCredentials then
    ["AFRICASTALKING_USERNAME and AFRICASTALKING_API_KEY are required"] else []) ++
  (if captchaName env = "dummy" then
    ["CAPTCHA backend is dev-only; set TURNSTILE_SECRET_KEY"] else []) ++
  (if captchaName env = "turnstile" ∧ env.turnstileSecretKey = "" then
    ["TURNSTILE_SECRET_KEY is required"] else [])

/-! ### The resolution at run time -/

/-- The caches that `_caches_from_url` builds, with their locations. -/
inductive CacheBackend
  | redis (location : String)
  | database (table : String)
  | locMem
  deriving DecidableEq, Repr

/-- **`_caches_from_url`**. -/
def cachesFromUrl (url : String) : CacheBackend :=
  if startsWith url "redis://" || startsWith url "rediss://" then .redis url
  else if startsWith url "db://" then
    .database (if removePrefix url "db://" = "" then "cache_table" else removePrefix url "db://")
  else .locMem

/-- The classes a name can resolve to; `other` is a class that is not one of `common`, with its
path. -/
inductive BackendClass
  | consoleSms | locMemSms | e2eDatabaseSms | africasTalkingSms
  | dummyCaptcha | turnstileCaptcha
  | other (path : String)
  deriving DecidableEq, Repr

/-- The dotted path of the module that defines a class. -/
def BackendClass.path : BackendClass → String
  | consoleSms => "common.sms.ConsoleSmsBackend"
  | locMemSms => "common.sms.LocMemSmsBackend"
  | e2eDatabaseSms => "common.sms.E2EDatabaseSmsBackend"
  | africasTalkingSms => "common.sms.AfricasTalkingSmsBackend"
  | dummyCaptcha => "common.captcha.DummyCaptchaBackend"
  | turnstileCaptcha => "common.captcha.TurnstileCaptchaBackend"
  | other path => path

/-- The classes of `common.sms` and `common.captcha`. -/
def commonClasses : List BackendClass :=
  [.consoleSms, .locMemSms, .e2eDatabaseSms, .africasTalkingSms, .dummyCaptcha, .turnstileCaptcha]

/-- `import_string` in the modules that define the classes of `common`; `none` is the
`ImportError`. -/
def importCommon (path : String) : Option BackendClass :=
  commonClasses.find? fun c => c.path = path

variable (importString : String → Option BackendClass)

/-- **`get_sms_backend`**. -/
def getSmsBackend (env : Env) : Option BackendClass :=
  let name := if env.smsBackend = "auto" then
      (if env.hasCredentials then "africastalking" else "console")
    else env.smsBackend
  if name = "console" then some .consoleSms
  else if name = "locmem" then some .locMemSms
  else if name = "e2e" then some .e2eDatabaseSms
  else if name = "africastalking" then some .africasTalkingSms
  else importString name

/-- **`get_captcha_backend`**. -/
def getCaptchaBackend (env : Env) : Option BackendClass :=
  let name := if env.captchaBackend = "auto" then
      (if env.turnstileSecretKey ≠ "" then "turnstile" else "dummy")
    else env.captchaBackend
  if name = "dummy" then some .dummyCaptcha
  else if name = "turnstile" then some .turnstileCaptcha
  else importString name

/-! ### Backends meant for development -/

/-- The SMS classes that must not run in production. -/
def devSmsClasses : List BackendClass := [.consoleSms, .locMemSms, .e2eDatabaseSms]

/-- **No backend meant for development runs**: the cache is shared, the SMS backend is none of the
development ones, and the CAPTCHA backend is not the dummy. -/
structure NoDevBackend (env : Env) : Prop where
  cache : cachesFromUrl env.cacheUrl ≠ .locMem
  sms : ∀ c, getSmsBackend importString env = some c → c ∉ devSmsClasses
  captcha : getCaptchaBackend importString env ≠ some .dummyCaptcha

/-- The schemes of the shared caches. -/
def SharedCacheUrl (url : String) : Prop :=
  startsWith url "redis://" ∨ startsWith url "rediss://" ∨ startsWith url "db://"

instance (url : String) : Decidable (SharedCacheUrl url) := by
  unfold SharedCacheUrl; infer_instance

/-! ### What the names resolve to -/

variable {importString}

theorem cachesFromUrl_eq_locMem {url : String} :
    cachesFromUrl url = .locMem ↔ ¬ SharedCacheUrl url := by
  unfold cachesFromUrl SharedCacheUrl
  cases h1 : startsWith url "redis://" <;> cases h2 : startsWith url "rediss://" <;>
    cases h3 : startsWith url "db://" <;> simp

/-- What the checks leave of the settings. -/
theorem problems_eq_nil {env : Env} (h : problems env = []) :
    smsName env ∉ ["console", "locmem", "e2e"] ∧ captchaName env ≠ "dummy" := by
  unfold problems at h
  simp only [List.append_eq_nil_iff, ite_eq_right_iff, List.cons_ne_nil, imp_false] at h
  exact ⟨h.1.1.1.2, h.1.2⟩

/-- Past the checks a name that is not the provider's is the setting itself. -/
theorem smsName_cases {env : Env} (h : smsName env ∉ ["console", "locmem", "e2e"]) :
    (smsName env = "africastalking" ∧
      (env.smsBackend = "auto" ∨ env.smsBackend = "africastalking")) ∨
      (smsName env ≠ "africastalking" ∧ smsName env = env.smsBackend) := by
  unfold smsName at h ⊢
  split_ifs at h ⊢ with hauto hcred
  · exact Or.inl ⟨rfl, Or.inl hauto⟩
  · simp at h
  · by_cases ha : env.smsBackend = "africastalking"
    · exact Or.inl ⟨ha, Or.inr ha⟩
    · exact Or.inr ⟨ha, rfl⟩

theorem captchaName_cases {env : Env} (h : captchaName env ≠ "dummy") :
    (captchaName env = "turnstile" ∧
        (env.captchaBackend = "auto" ∨ env.captchaBackend = "turnstile")) ∨
      (captchaName env ≠ "turnstile" ∧ captchaName env = env.captchaBackend) := by
  unfold captchaName at h ⊢
  split_ifs at h ⊢ with hauto hsecret
  · exact Or.inl ⟨rfl, Or.inl hauto⟩
  · simp at h
  · by_cases ha : env.captchaBackend = "turnstile"
    · exact Or.inl ⟨ha, Or.inr ha⟩
    · exact Or.inr ⟨ha, rfl⟩

theorem smsName_ne_auto {env : Env} : smsName env ≠ "auto" := by
  unfold smsName
  split_ifs with hauto
  · decide
  · decide
  · exact hauto

theorem captchaName_ne_auto {env : Env} : captchaName env ≠ "auto" := by
  unfold captchaName
  split_ifs with hauto
  · decide
  · decide
  · exact hauto

/-- **Past the checks** the SMS backend is the provider's or what the setting imports. -/
theorem getSmsBackend_eq {env : Env} (h : smsName env ∉ ["console", "locmem", "e2e"]) :
    getSmsBackend importString env = if smsName env = "africastalking" then some .africasTalkingSms
      else importString (smsName env) := by
  have hname : (if env.smsBackend = "auto" then
      (if env.hasCredentials then "africastalking" else "console") else env.smsBackend) =
      smsName env := rfl
  simp only [List.mem_cons, List.not_mem_nil, or_false, not_or] at h
  unfold getSmsBackend
  simp only [hname, if_neg h.1, if_neg h.2.1, if_neg h.2.2]

theorem getCaptchaBackend_eq {env : Env} (h : captchaName env ≠ "dummy") :
    getCaptchaBackend importString env = if captchaName env = "turnstile" then
      some .turnstileCaptcha
      else importString (captchaName env) := by
  have hname : (if env.captchaBackend = "auto" then
      (if env.turnstileSecretKey ≠ "" then "turnstile" else "dummy") else env.captchaBackend) =
      captchaName env := rfl
  unfold getCaptchaBackend
  simp only [hname, if_neg h]

variable (importString)

/-- The SMS setting is a name of the provider's, or what it imports is no development class. -/
def SmsAllowed (env : Env) : Prop :=
  env.smsBackend ∈ ["auto", "africastalking"] ∨
    ∀ c ∈ devSmsClasses, importString env.smsBackend ≠ some c

/-- The CAPTCHA setting is a name of the provider's, or what it imports is not the dummy. -/
def CaptchaAllowed (env : Env) : Prop :=
  env.captchaBackend ∈ ["auto", "turnstile"] ∨
    importString env.captchaBackend ≠ some .dummyCaptcha

instance (env : Env) : Decidable (SmsAllowed importString env) := by
  unfold SmsAllowed; infer_instance

instance (env : Env) : Decidable (CaptchaAllowed importString env) := by
  unfold CaptchaAllowed; infer_instance

variable {importString}

theorem sms_iff {env : Env} (h : smsName env ∉ ["console", "locmem", "e2e"]) :
    (∀ c, getSmsBackend importString env = some c → c ∉ devSmsClasses) ↔
      SmsAllowed importString env := by
  rw [getSmsBackend_eq h, SmsAllowed]
  rcases smsName_cases h with ⟨hname, hset⟩ | ⟨hname, hset⟩
  · rw [if_pos hname]
    refine iff_of_true (fun c hc => ?_) (Or.inl ?_)
    · rw [← Option.some.inj hc]
      decide
    · rcases hset with hset | hset <;> rw [hset] <;> decide
  · have hshort : env.smsBackend ∉ ["auto", "africastalking"] := by
      rw [← hset]
      simp only [List.mem_cons, List.not_mem_nil, or_false, not_or]
      exact ⟨smsName_ne_auto, hname⟩
    rw [if_neg hname, hset, or_iff_right hshort]
    exact ⟨fun hno c hc hi => hno c hi hc, fun hno c hi hc => hno c hc hi⟩

theorem captcha_iff {env : Env} (h : captchaName env ≠ "dummy") :
    getCaptchaBackend importString env ≠ some .dummyCaptcha ↔ CaptchaAllowed importString env := by
  rw [getCaptchaBackend_eq h, CaptchaAllowed]
  rcases captchaName_cases h with ⟨hname, hset⟩ | ⟨hname, hset⟩
  · rw [if_pos hname]
    refine iff_of_true (by simp) (Or.inl ?_)
    rcases hset with hset | hset <;> rw [hset] <;> decide
  · have hshort : env.captchaBackend ∉ ["auto", "turnstile"] := by
      rw [← hset]
      simp only [List.mem_cons, List.not_mem_nil, or_false, not_or]
      exact ⟨captchaName_ne_auto, hname⟩
    rw [if_neg hname, hset, or_iff_right hshort]

/-- **Which settings run no backend meant for development**, of those that pass the checks: a cache
URL with the scheme of a shared cache, and names that import no development class. -/
theorem noDevBackend_iff {env : Env} (h : problems env = []) : NoDevBackend importString env ↔
    SharedCacheUrl env.cacheUrl ∧ SmsAllowed importString env ∧
      CaptchaAllowed importString env := by
  obtain ⟨hsms, hcaptcha⟩ := problems_eq_nil h
  rw [← sms_iff hsms, ← captcha_iff hcaptcha,
    ← not_not (a := SharedCacheUrl env.cacheUrl), ← cachesFromUrl_eq_locMem]
  exact ⟨fun h => ⟨h.1, h.2, h.3⟩, fun h => ⟨h.1, h.2.1, h.2.2⟩⟩

/-- The settings of a deployment, with the provider's class by its dotted path. -/
def dottedProvider : Env where
  cacheUrl := "redis://localhost:6379/1"
  smsBackend := "common.sms.AfricasTalkingSmsBackend"
  turnstileSecretKey := "secret"

/-- The same with the console backend. -/
def dottedConsole : Env where
  cacheUrl := "redis://localhost:6379/1"
  smsBackend := "common.sms.ConsoleSmsBackend"
  turnstileSecretKey := "secret"

theorem noDevBackend_iff_dotted :
    NoDevBackend importCommon dottedProvider ∧ ¬ NoDevBackend importCommon dottedConsole :=
  ⟨(noDevBackend_iff (by decide)).mpr (by decide),
    fun h => absurd ((noDevBackend_iff (by decide)).mp h) (by decide)⟩

/-- `dottedConsole` passes the checks and prints codes to the console. -/
theorem not_always_noDevBackend :
    ¬ ∀ env : Env, problems env = [] → NoDevBackend importCommon env := by
  intro h
  exact absurd ((h dottedConsole (by decide)).sms .consoleSms (by decide)) (by decide)

end KwAwards.Settings.Backends
