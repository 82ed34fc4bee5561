import KwAwards.Common.Str

/-! # Phone numbers

`normalizePhone` and `normalizePhoneStrict` over the `phonenumbers` library, which is a parameter
(`PhoneNumbers`): of it only what `Documented` states is used, that the E.164 form of a valid number
starts with a plus sign. The two differ in the types and regions they let through, so on what the
strict one accepts they agree (`normalizePhone_of_strict`). -/

namespace KwAwards.Common.Phone

open KwAwards.Common.Str

/-- `phonenumbers.PhoneNumberType`. -/
inductive PhoneNumberType
  | fixedLine | mobile | fixedLineOrMobile | tollFree | premiumRate | sharedCost | voip
  | personalNumber | pager | uan | voicemail | unknown
  deriving DecidableEq, Repr

/-- The functions of `phonenumbers`; `parse` takes the text and the default region, and `none` is
its `NumberParseException`. -/
structure PhoneNumbers where
  Number : Type
  parse : String → String → Option Number
  isValidNumber : Number → Bool
  numberType : Number → PhoneNumberType
  regionCodeForNumber : Number → Option String
  formatE164 : Number → String

/-- The E.164 form of a valid number is a plus sign and digits. -/
def PhoneNumbers.Documented (lib : PhoneNumbers) : Prop :=
  ∀ n, lib.isValidNumber n = true → ∃ digits, lib.formatE164 n = String.ofList ('+' :: digits)

/-- The `ValueError` of this module, with its text. -/
structure InvalidPhoneNumber where
  detail : String
  deriving DecidableEq, Repr

def invalidPhoneNumber : InvalidPhoneNumber := ⟨"Enter a valid mobile phone number."⟩

def defaultRegion : String := "KE"

def maxRawLength : ℕ := 32

/-- `_ALLOWED_TYPES`. -/
def allowedTypes : List PhoneNumberType := [.mobile, .fixedLineOrMobile]

variable (lib : PhoneNumbers)

/-- **`_parse`**. -/
def parse (raw region : String) : Except InvalidPhoneNumber lib.Number :=
  if strip raw = "" ∨ maxRawLength < raw.length then .error invalidPhoneNumber
  else match lib.parse (strip raw) region with
    | none => .error invalidPhoneNumber
    | some number => if lib.isValidNumber number then .ok number else .error invalidPhoneNumber

/-- **`normalize_phone`**. -/
def normalizePhone (raw : String) (region : String := defaultRegion) :
    Except InvalidPhoneNumber String :=
  match parse lib raw region with
  | .error e => .error e
  | .ok number =>
    if lib.numberType number ∈ allowedTypes then .ok (lib.formatE164 number)
    else .error invalidPhoneNumber

/-- **`normalize_phone_strict`**. -/
def normalizePhoneStrict (raw : String) (allowedRegions : List String)
    (region : String := defaultRegion) : Except InvalidPhoneNumber String :=
  match parse lib raw region with
  | .error e => .error e
  | .ok number =>
    if lib.numberType number ≠ .mobile then .error invalidPhoneNumber
    else match lib.regionCodeForNumber number with
      | none => .error invalidPhoneNumber
      | some code =>
        if code ∈ allowedRegions then .ok (lib.formatE164 number) else .error invalidPhoneNumber

variable {lib} {raw region p : String}

theorem parse_eq_ok {number : lib.Number} : parse lib raw region = .ok number ↔
    strip raw ≠ "" ∧ raw.length ≤ maxRawLength ∧ lib.parse (strip raw) region = some number ∧
      lib.isValidNumber number = true := by
  unfold parse
  by_cases h : strip raw = "" ∨ maxRawLength < raw.length
  · rw [if_pos h]
    constructor
    · intro h'; cases h'
    · rintro ⟨hne, hle, -⟩
      rcases h with h | h
      · exact absurd h hne
      · omega
  · rw [if_neg h]
    rw [not_or, not_lt] at h
    rcases lib.parse (strip raw) region with _ | n
    · simp
    · by_cases hv : lib.isValidNumber n = true
      · simp only [if_pos hv, Except.ok.injEq, Option.some.injEq]
        exact ⟨fun e => ⟨h.1, h.2, e, e ▸ hv⟩, fun e => e.2.2.1⟩
      · simp only [if_neg hv, Option.some.injEq]
        exact ⟨fun e => by (cases e), fun e => absurd (e.2.2.1 ▸ e.2.2.2) hv⟩

/-- Numbers are read trimmed, so trimming a text that is not too long changes nothing. -/
theorem parse_strip (h : raw.length ≤ maxRawLength) (region : String) :
    parse lib (strip raw) region = parse lib raw region := by
  have hlen := length_strip_le raw
  unfold parse
  rw [strip_strip]
  have hlong : maxRawLength < (strip raw).length ↔ maxRawLength < raw.length := by omega
  simp only [hlong]

theorem normalizePhone_strip (h : raw.length ≤ maxRawLength) (region : String) :
    normalizePhone lib (strip raw) region = normalizePhone lib raw region := by
  unfold normalizePhone
  rw [parse_strip h]

theorem normalizePhoneStrict_eq_ok {allowedRegions : List String}
    (h : normalizePhoneStrict lib raw allowedRegions region = .ok p) :
    ∃ number, parse lib raw region = .ok number ∧ lib.numberType number = .mobile ∧
      lib.formatE164 number = p := by
  unfold normalizePhoneStrict at h
  rcases hp : parse lib raw region with e | number
  · rw [hp] at h; simp at h
  · simp only [hp] at h
    by_cases ht : lib.numberType number = .mobile
    · refine ⟨number, rfl, ht, ?_⟩
      rw [if_neg (not_not.mpr ht)] at h
      split at h
      · simp at h
      · split_ifs at h
        exact Except.ok.inj h
    · rw [if_pos ht] at h; simp at h

/-- **What the strict normalisation accepts**, the other one accepts with the same result. -/
theorem normalizePhone_of_strict {allowedRegions : List String}
    (h : normalizePhoneStrict lib raw allowedRegions region = .ok p) :
    normalizePhone lib raw region = .ok p := by
  obtain ⟨number, hp, ht, rfl⟩ := normalizePhoneStrict_eq_ok h
  have hmem : lib.numberType number ∈ allowedTypes := by rw [ht]; decide
  unfold normalizePhone
  rw [hp]
  exact if_pos hmem

theorem plus_of_strict (hlib : lib.Documented) {allowedRegions : List String}
    (h : normalizePhoneStrict lib raw allowedRegions region = .ok p) :
    ∃ digits, p = String.ofList ('+' :: digits) := by
  obtain ⟨number, hp, -, rfl⟩ := normalizePhoneStrict_eq_ok h
  exact hlib number (parse_eq_ok.mp hp).2.2.2

theorem strip_ne_of_strict {allowedRegions : List String}
    (h : normalizePhoneStrict lib raw allowedRegions region = .ok p) : strip raw ≠ "" := by
  obtain ⟨number, hp, -⟩ := normalizePhoneStrict_eq_ok h
  exact (parse_eq_ok.mp hp).1

theorem strip_ne_of_normalize (h : normalizePhone lib raw region = .ok p) : strip raw ≠ "" := by
  unfold normalizePhone at h
  split at h
  · cases h
  · next number hp => exact (parse_eq_ok.mp hp).1

/-- Texts that are too long are refused, padded or not. -/
theorem normalizePhone_of_long (h : maxRawLength < raw.length) (region : String) :
    normalizePhone lib raw region = .error invalidPhoneNumber := by
  unfold normalizePhone parse
  rw [if_pos (Or.inr h)]

end KwAwards.Common.Phone
