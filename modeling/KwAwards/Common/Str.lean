import Mathlib.Tactic
import Mathlib.Data.List.DropRight

/-! # Strings as Python has them

`str.strip` and the digits that `\d` matches, on the code points of a string. -/

namespace KwAwards.Common.Str

/-- `str.isspace` of one character, which is also what `\s` matches. -/
def isSpace (c : Char) : Bool :=
  let n := c.toNat
  (9 ≤ n && n ≤ 13) || (28 ≤ n && n ≤ 32) || n = 0x85 || n = 0xa0 || n = 0x1680 ||
    (0x2000 ≤ n && n ≤ 0x200a) || n = 0x2028 || n = 0x2029 || n = 0x202f || n = 0x205f || n = 0x3000

/-- The zeros of the decimal digits (category `Nd`), each followed by the nine other digits. -/
def decimalZeros : List ℕ :=
  [0x30, 0x660, 0x6f0, 0x7c0, 0x966, 0x9e6, 0xa66, 0xae6, 0xb66, 0xbe6, 0xc66, 0xce6, 0xd66, 0xde6,
    0xe50, 0xed0, 0xf20, 0x1040, 0x1090, 0x17e0, 0x1810, 0x1946, 0x19d0, 0x1a80, 0x1a90, 0x1b50,
    0x1bb0, 0x1c40, 0x1c50, 0xa620, 0xa8d0, 0xa900, 0xa9d0, 0xa9f0, 0xaa50, 0xabf0, 0xff10, 0x104a0,
    0x10d30, 0x11066, 0x110f0, 0x11136, 0x111d0, 0x112f0, 0x11450, 0x114d0, 0x11650, 0x116c0,
    0x11730, 0x118e0, 0x11950, 0x11c50, 0x11d50, 0x11da0, 0x11f50, 0x16a60, 0x16ac0, 0x16b50,
    0x1d7ce, 0x1d7d8, 0x1d7e2, 0x1d7ec, 0x1d7f6, 0x1e140, 0x1e2f0, 0x1e4f0, 0x1e950, 0x1fbf0]

/-- The value of a decimal digit. -/
def digitValue (c : Char) : Option ℕ :=
  (decimalZeros.find? fun z => z ≤ c.toNat && c.toNat < z + 10).map (c.toNat - ·)

/-- Whether `\d` matches a character. -/
def isDigit (c : Char) : Bool := (digitValue c).isSome

/-- `int(s)` of a string of digits. -/
def intOfDigits (cs : List Char) : ℕ :=
  cs.foldl (fun n c => 10 * n + (digitValue c).getD 0) 0

/-- `s.strip()` on characters. -/
def stripChars (cs : List Char) : List Char := (cs.dropWhile isSpace).rdropWhile isSpace

/-- `s.strip()`. -/
def strip (s : String) : String := String.ofList (stripChars s.toList)

theorem stripChars_stripChars (cs : List Char) : stripChars (stripChars cs) = stripChars cs := by
  have hpre : stripChars cs <+: cs.dropWhile isSpace := List.rdropWhile_prefix isSpace _
  have hdrop : (stripChars cs).dropWhile isSpace = stripChars cs := by
    rcases hs : stripChars cs with _ | ⟨c, t⟩
    · rfl
    · -- a nonempty prefix of the dropped list has its head
      obtain ⟨u, hu⟩ := hs ▸ hpre
      have hc : isSpace c = false := by
        have := List.head?_dropWhile_not isSpace cs
        rw [← hu] at this
        simpa using this
      rw [List.dropWhile_cons_of_neg (by simp [hc])]
  have hr : stripChars (stripChars cs) = ((stripChars cs).dropWhile isSpace).rdropWhile isSpace :=
    rfl
  rw [hr, hdrop]
  exact List.rdropWhile_idempotent isSpace _

@[simp] theorem strip_strip (s : String) : strip (strip s) = strip s := by
  rw [strip, strip, String.toList_ofList, stripChars_stripChars]

theorem length_strip_le (s : String) : (strip s).length ≤ s.length := by
  have hr : (stripChars s.toList).length ≤ (s.toList.dropWhile isSpace).length :=
    (List.rdropWhile_prefix isSpace _).length_le
  have hd : (s.toList.dropWhile isSpace).length ≤ s.toList.length :=
    (List.dropWhile_sublist isSpace).length_le
  rw [strip, String.length_ofList, ← String.length_toList]
  omega

/-- `s.startswith(p)`. -/
def startsWith (s p : String) : Bool := p.toList.isPrefixOf s.toList

/-- `s.removeprefix(p)`. -/
def removePrefix (s p : String) : String :=
  if startsWith s p then String.ofList (s.toList.drop p.toList.length) else s

end KwAwards.Common.Str
