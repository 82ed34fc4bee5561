import KwAwards.Common.Throttles
import KwAwards.Voting.Serializers

/-! # Who shares a phone counter

A request that reaches `request_otp` for a number `p` should be counted under `p` by the phone
throttles, and a later verification with the same value should be about `p` too (`SharesCounter`).
The throttle looks at the raw value and the view at a trimmed text, so that fails for JSON numbers,
which the throttle does not count at all (`not_counted_of_not_str`), and for texts longer than 32
characters before they are trimmed: `sharesCounter_iff`. -/

namespace KwAwards.Voting.PhoneKeys

open KwAwards.Lib.Counters KwAwards.Common.Base KwAwards.Common.Str KwAwards.Common.Fields
open KwAwards.Common.Phone KwAwards.Common.Throttles KwAwards.Voting.Serializers

/-- The throttles count the body under `p`, and verifying with its value is about `p`. -/
structure SharesCounter (lib : PhoneNumbers) (data : RequestData) (p : String) : Prop where
  ident : phoneIdent lib data = some p
  verify : verifyPhone lib (data.get "phone") = .ok p
  /-- Every throttle treats the body as it treats the number itself. -/
  counter : ∀ (sha256 : String → String) (rates : String → Option String) (largest : ℕ)
    (scope : String) (now : ℚ) (cache : Cache ℚ),
    allowRequest sha256 rates largest scope (phoneIdent lib data) now cache =
      allowRequest sha256 rates largest scope (some p) now cache

/-- The value of `phone` is a text of at most 32 characters, counted before it is trimmed. -/
def ShortText (data : RequestData) : Prop :=
  ∃ raw, data.get "phone" = some (.str raw) ∧ raw.length ≤ maxRawLength

section Request

variable {lib : PhoneNumbers} {allowedRegions : List String}
  {verifyCaptcha : String → Option String → Bool} {clientIp : Option String} {data : RequestData}
  {p : String}

/-- Verification reads the number as the request did. -/
theorem verifyPhone_of_requested
    (h : requestedPhone lib allowedRegions verifyCaptcha clientIp data = .ok p) :
    verifyPhone lib (data.get "phone") = .ok p := by
  obtain ⟨w, value, -, -, ht, hn⟩ := requestedPhone_eq_ok h
  have hv : validatePhone lib value = .ok p := by
    unfold validatePhone
    rw [normalizePhone_of_strict hn]
  unfold verifyPhone
  rw [ht]
  exact hv

/-- For a text the identifier is that of the raw text. -/
theorem phoneIdent_of_str {raw : String} (hd : data.get "phone" = some (.str raw))
    (hne : strip raw ≠ "") : phoneIdent lib data = match normalizePhone lib raw with
      | .ok p => some p
      | .error _ => some ("raw:" ++ slice 40 (strip raw)) := by
  unfold phoneIdent
  rw [hd]
  exact if_neg hne

/-- **A text of at most 32 characters** is counted under its number. -/
theorem phoneIdent_of_shortText
    (h : requestedPhone lib allowedRegions verifyCaptcha clientIp data = .ok p)
    (hs : ShortText data) : phoneIdent lib data = some p := by
  obtain ⟨w, value, hw, hi, -, hn⟩ := requestedPhone_eq_ok h
  obtain ⟨raw, hraw, hlen⟩ := hs
  obtain rfl : Value.str raw = w := Option.some.inj (hraw.symm.trans hw)
  obtain rfl : strip raw = value := Option.some.inj hi
  have hnorm : normalizePhone lib raw = .ok p := by
    rw [← normalizePhone_strip hlen]
    exact normalizePhone_of_strict hn
  have hne : strip raw ≠ "" := strip_strip raw ▸ strip_ne_of_strict hn
  rw [phoneIdent_of_str hraw hne, hnorm]

/-- A value that is not a text has no identifier, so no phone throttle counts it. -/
theorem not_counted_of_not_str (hd : ∀ raw, data.get "phone" ≠ some (.str raw))
    (sha256 : String → String) (rates : String → Option String) (largest : ℕ) (scope : String)
    (now : ℚ) (cache : Cache ℚ) :
    allowRequest sha256 rates largest scope (phoneIdent lib data) now cache =
      .ok (cache, .allowed) := by
  have hid : phoneIdent lib data = none := by
    unfold phoneIdent
    split
    · next raw hraw => exact absurd hraw (hd raw)
    · rfl
  rw [hid, allowRequest_none]

/-- A text that is longer is counted under itself. -/
theorem phoneIdent_of_long {raw : String} (hd : data.get "phone" = some (.str raw))
    (hne : strip raw ≠ "") (hlen : maxRawLength < raw.length) :
    phoneIdent lib data = some ("raw:" ++ slice 40 (strip raw)) := by
  rw [phoneIdent_of_str hd hne, normalizePhone_of_long hlen]

theorem raw_ne_plus (s : String) (digits : List Char) :
    "raw:" ++ s ≠ String.ofList ('+' :: digits) := by
  intro h
  have := congrArg String.toList h
  simp at this

/-- **Which bodies share the counter of the voter they reach:** those whose `phone` is a text of at
most 32 characters. -/
theorem sharesCounter_iff (hlib : lib.Documented)
    (h : requestedPhone lib allowedRegions verifyCaptcha clientIp data = .ok p) :
    SharesCounter lib data p ↔ ShortText data := by
  constructor
  · intro hs
    obtain ⟨w, value, hw, hi, -, hn⟩ := requestedPhone_eq_ok h
    obtain ⟨digits, rfl⟩ := plus_of_strict hlib hn
    have hident := hs.ident
    obtain ⟨raw, rfl⟩ : ∃ raw, w = .str raw := by
      unfold phoneIdent at hident
      rw [hw] at hident
      rcases w with _ | _ | _ | _ | raw | _ | _ | _
      case str => exact ⟨raw, rfl⟩
      all_goals simp at hident
    obtain rfl : strip raw = value := Option.some.inj hi
    have hne : strip raw ≠ "" := strip_strip raw ▸ strip_ne_of_strict hn
    refine ⟨raw, hw, not_lt.mp fun hlong => ?_⟩
    rw [phoneIdent_of_long hw hne hlong] at hident
    exact raw_ne_plus _ _ (Option.some.inj hident)
  · intro hs
    have hident := phoneIdent_of_shortText h hs
    exact ⟨hident, verifyPhone_of_requested h, fun _ _ _ _ _ _ => by rw [hident]⟩

end Request

/-! ### Kenyan mobile numbers -/

/-- Nine digits of a mobile number, written with a leading zero or without. -/
def kenya : PhoneNumbers where
  Number := List Char
  parse s region :=
    match s.toList.filter isDigit with
    | '0' :: cs => if region = "KE" then some cs else none
    | cs => if region = "KE" then some cs else none
  isValidNumber cs := cs.length = 9 && cs.head? = some '7'
  numberType _ := .mobile
  regionCodeForNumber _ := some "KE"
  formatE164 cs := String.ofList ('+' :: '2' :: '5' :: '4' :: cs)

theorem kenya_documented : kenya.Documented := fun cs _ => ⟨'2' :: '5' :: '4' :: cs, rfl⟩

def kenyanBody (v : Value) : RequestData := .mapping [("phone", v), ("captcha_token", .str "t")]

theorem sharesCounter_iff_kenyan :
    SharesCounter kenya (kenyanBody (.str " 0712 345678")) "+254712345678" ↔
      ShortText (kenyanBody (.str " 0712 345678")) :=
  @sharesCounter_iff kenya ["KE"] (fun _ _ => true) none _ _ kenya_documented (by decide)

/-- The same number as a JSON number is not counted. -/
theorem not_always_sharesCounter : ¬ ∀ (lib : PhoneNumbers) (allowedRegions : List String)
    (verifyCaptcha : String → Option String → Bool) (clientIp : Option String) (data : RequestData)
    (p : String), lib.Documented →
    requestedPhone lib allowedRegions verifyCaptcha clientIp data = .ok p →
    SharesCounter lib data p := by
  intro h
  have hident := (h kenya ["KE"] (fun _ _ => true) none (kenyanBody (.int 712345678))
    "+254712345678" kenya_documented (by decide)).ident
  exact absurd hident (by decide)

end KwAwards.Voting.PhoneKeys
