import Mathlib.Tactic
import KwAwards.Lib.Tables

/-! # Shared building blocks

Identifiers, instants, the request a view passes on, and Python's string slicing. An instant is a
number of microseconds since the epoch, the resolution of the stored timestamps. -/

namespace KwAwards.Common.Base

/-- A UUID primary key. -/
abbrev Id := ℕ

/-- An instant, in microseconds since the epoch. -/
abbrev Time := ℕ

/-- A duration given in seconds. -/
def seconds (n : ℕ) : Time := n * 1000000

/-- What a new row gets from outside the code: its `uuid4` and its `nextval` sequence number. -/
structure Keys where
  id : Id
  seq : ℕ
  deriving DecidableEq, Repr

/-- Who a request is authenticated as. -/
inductive Principal
  | anonymous
  | user (id : Id)
  | voter (id : Id)
  deriving DecidableEq, Repr

/-- What the services read of a request: `get_client_ip(request)`, the `User-Agent` header (empty
when absent) and the principal. -/
structure Request where
  clientIp : Option String
  userAgent : String
  principal : Principal
  deriving DecidableEq, Repr

/-- `s[:n]`. -/
def slice (n : ℕ) (s : String) : String := String.ofList (s.toList.take n)

theorem length_slice_le (n : ℕ) (s : String) : (slice n s).length ≤ n := by
  rw [slice, String.length_ofList, List.length_take]
  exact min_le_left _ _

/-- `s.lower()` on ASCII letters. -/
def lower (s : String) : String := String.ofList (s.toList.map Char.toLower)

end KwAwards.Common.Base
