import KwAwards.Common.Fields
import KwAwards.Common.Phone
import KwAwards.Lib.Counters

/-! # Throttles

`allowRequest` counts a request under a key made of the scope, the identifier and the
window the clock is in; requests share a counter when they have the same identifier. A request
without an identifier is not counted. `phoneIdent` is the identifier for a body. -/

namespace KwAwards.Common.Throttles

open KwAwards.Lib.Counters KwAwards.Common.Base KwAwards.Common.Str KwAwards.Common.Phone
open KwAwards.Common.Fields

/-- What a configured rate can make Python raise; `timeoutError` is the error of a cache for a
timeout that it does not take. -/
inductive ConfigError
  | valueError
  | zeroDivisionError
  | overflowError
  | timeoutError
  deriving DecidableEq, Repr

def unitSeconds : Char → Option ℕ
  | 's' => some 1
  | 'm' => some 60
  | 'h' => some 3600
  | 'd' => some 86400
  | _ => none

/-- `int` reads no more digits than these. -/
def maxStrDigits : ℕ := 4300

/-- `2 ^ 1024 - 2 ^ 970`: from here on an `int` is too large for a `float`. -/
def floatRange : ℕ := (2 ^ 54 - 1) * (2 ^ 97) ^ 10

/-- **`parse_rate`**: `"3/15m"` is `(3, 900)`. -/
def parseRate (rate : String) : Except ConfigError (ℕ × ℕ) :=
  let cs := rate.toList.dropWhile isSpace
  let count := cs.takeWhile isDigit
  match (cs.dropWhile isDigit).dropWhile isSpace with
  | '/' :: cs =>
    let cs := cs.dropWhile isSpace
    let multiplier := cs.takeWhile isDigit
    match (cs.dropWhile isDigit).dropWhile isSpace with
    | unit :: cs =>
      match unitSeconds unit with
      | some seconds =>
        if count = [] ∨ cs.dropWhile isSpace ≠ [] then .error .valueError
        else if maxStrDigits < count.length ∨
          maxStrDigits < multiplier.length then .error .valueError
        else .ok (intOfDigits count,
          (if multiplier = [] then 1 else intOfDigits multiplier) * seconds)
      | none => .error .valueError
    | [] => .error .valueError
  | _ => .error .valueError

example : parseRate " 2 / 2m " = .ok (2, 120) := by decide

/-- The outcome of `allow_request`; a refusal sets `_wait`. -/
inductive Verdict
  | allowed
  | refused (wait : ℤ)
  deriving DecidableEq, Repr

/-- The key of the counter of an identifier; `sha256` is the hex digest. -/
def counterKey (sha256 : String → String) (scope ident : String) (bucket : ℤ) : String :=
  "throttle:" ++ scope ++ ":" ++ slice 32 (sha256 ident) ++ ":" ++ toString bucket

/-- **`WindowThrottle.allow_request`**: `rates` is `APP_THROTTLE_RATES`, `largest` the largest
timeout that the cache takes, in seconds, and `ident` what `get_ident` returns. -/
def allowRequest (sha256 : String → String) (rates : String → Option String) (largest : ℕ)
    (scope : String) (ident : Option String) (now : ℚ) (cache : Cache ℚ) :
    Except ConfigError (Cache ℚ × Verdict) :=
  let rate := (rates scope).getD ""
  let ident := ident.getD ""
  if rate = "" then .ok (cache, .allowed)
  else if ident = "" then .ok (cache, .allowed)
  else match parseRate rate with
    | .error e => .error e
    | .ok (limit, window) =>
      -- `now // window`
      if window = 0 then .error .zeroDivisionError
      else if floatRange ≤ window then .error .overflowError
      -- `cache.add`
      else if largest < window then .error .timeoutError
      else
        let bucket := ⌊now / window⌋
        let (cache, count) := cache.count now (counterKey sha256 scope ident bucket) window
        if limit < count then .ok (cache, .refused (max 1 ⌈(bucket + 1) * window - now⌉))
        else .ok (cache, .allowed)

/-- Some eight thousand years: after a longer timeout an instant has no date. -/
def longestTimeout : ℕ := 251000000000

/-- **`PhoneThrottle.get_ident`**. -/
def phoneIdent (lib : PhoneNumbers) (data : RequestData) : Option String :=
  match data.get "phone" with
  | some (.str raw) =>
    if strip raw = "" then none
    else match normalizePhone lib raw with
      | .ok p => some p
      | .error _ => some ("raw:" ++ slice 40 (strip raw))
  | _ => none

/-- A request without an identifier is let through and not counted. -/
theorem allowRequest_none (sha256 : String → String) (rates : String → Option String) (largest : ℕ)
    (scope : String) (now : ℚ) (cache : Cache ℚ) :
    allowRequest sha256 rates largest scope none now cache = .ok (cache, .allowed) := by
  unfold allowRequest
  by_cases h : (rates scope).getD "" = ""
  · rw [if_pos h]
  · rw [if_neg h]; exact if_pos rfl

/-- The instant a bucket ends. -/
theorem lt_bucketEnd {window : ℕ} {bucket : ℤ} {now : ℚ} (hw : window ≠ 0) :
    now < (bucket + 1) * (window : ℚ) ↔ ⌊now / window⌋ ≤ bucket := by
  have hpos : (0 : ℚ) < window := by exact_mod_cast Nat.pos_of_ne_zero hw
  rw [← Int.lt_add_one_iff, Int.floor_lt, div_lt_iff₀ hpos]
  push_cast
  rfl

end KwAwards.Common.Throttles
