import KwAwards.Common.Base
import KwAwards.Common.Str

/-! # Request bodies and text fields

What a parser leaves in `request.data` (`RequestData`), and `CharField.run`, the field of the
framework that turns one value of it into a trimmed text or into messages. -/

namespace KwAwards.Common.Fields

open KwAwards.Common.Str

/-- A value of a parsed body. A `float` carries its `str`; nothing reads into the containers. -/
inductive Value
  | null
  | bool (b : Bool)
  | int (i : ℤ)
  | float (str : String)
  | str (s : String)
  | list
  | dict
  | file
  deriving DecidableEq, Repr

/-- `request.data`: a mapping, or a value of another type, which has no `get`. -/
inductive RequestData
  | mapping (items : List (String × Value))
  | other (typeName : String)
  deriving DecidableEq, Repr

/-- `data.get(name)`, where there is a `get`. -/
def RequestData.get : RequestData → String → Option Value
  | .mapping items, name => items.lookup name
  | .other _, _ => none

/-- A `serializers.CharField`, or a `RegexField` when it has a pattern. -/
structure CharField where
  required : Bool := true
  allowBlank : Bool := false
  maxLength : Option ℕ := none
  minLength : Option ℕ := none
  pattern : Option (String → Bool) := none

namespace CharField

def invalidMessage (f : CharField) : String :=
  if f.pattern.isSome then "This value does not match the required pattern."
  else "Not a valid string."

/-- `to_internal_value`; `none` is a value that is no text. -/
def toInternalValue : Value → Option String
  | .int i => some (strip (toString i))
  | .float s => some (strip s)
  | .str s => some (strip s)
  | _ => none

/-- `run_validators`. -/
def runValidators (f : CharField) (s : String) : List String :=
  (match f.maxLength with
    | some n => if n < s.length then
        ["Ensure this field has no more than " ++ toString n ++ " characters."] else []
    | none => []) ++
  (match f.minLength with
    | some n => if s.length < n then
        ["Ensure this field has at least " ++ toString n ++ " characters."] else []
    | none => []) ++
  (if s.toList.contains (Char.ofNat 0) then ["Null characters are not allowed."] else []) ++
  (match f.pattern with
    | some p => if p s then [] else [f.invalidMessage]
    | none => [])

/-- **`run_validation`**: the text, `none` for a field that may be omitted and is, or messages. -/
def run (f : CharField) : Option Value → Except (List String) (Option String)
  | none => if f.required then .error ["This field is required."] else .ok none
  | some .null => .error ["This field may not be null."]
  | some v =>
    match toInternalValue v with
    | none => .error [f.invalidMessage]
    | some s =>
      -- blank texts are caught before any validator runs
      if s = "" then
        if f.allowBlank then .ok (some "") else .error ["This field may not be blank."]
      else match f.runValidators s with
        | [] => .ok (some s)
        | messages => .error messages

theorem run_eq_some {f : CharField} {v : Option Value} {s : String} (h : f.run v = .ok (some s)) :
    ∃ w, v = some w ∧ toInternalValue w = some s := by
  unfold run at h
  split at h
  · split_ifs at h
    simp at h
  · simp at h
  · next w _ =>
    refine ⟨w, rfl, ?_⟩
    split at h
    · simp at h
    · next t ht =>
      split_ifs at h with hs ha
      · cases h; rw [ht, hs]
      · split at h
        · cases h; exact ht
        · simp at h

/-- A text that passes is no longer than the field allows. -/
theorem length_le_of_run {f : CharField} {v : Option Value} {s : String} {n : ℕ}
    (h : f.run v = .ok (some s)) (hn : f.maxLength = some n) : s.length ≤ n := by
  obtain ⟨w, rfl, hw⟩ := run_eq_some h
  have hnull : w ≠ .null := by rintro rfl; cases hw
  have hmessages : s = "" ∨ f.runValidators s = [] := by
    simp only [run, hw] at h
    split_ifs at h with he
    · exact Or.inl he
    · split at h
      · next hm => exact Or.inr hm
      · cases h
  rcases hmessages with rfl | hm
  · exact Nat.zero_le n
  · by_contra hlt
    simp [runValidators, hn, Nat.lt_of_not_le hlt] at hm

/-- A required field has a text. -/
theorem run_ne_none {f : CharField} (hf : f.required = true) (v : Option Value) :
    f.run v ≠ .ok none := by
  unfold run
  split
  · rw [if_pos hf]; intro h; simp at h
  · intro h; simp at h
  · split
    · intro h; simp at h
    · split_ifs
      · intro h; simp at h
      · intro h; simp at h
      · split <;> (intro h; cases h)

end CharField

end KwAwards.Common.Fields
