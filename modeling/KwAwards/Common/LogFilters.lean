import KwAwards.Lib.Printf
import KwAwards.Common.Str

/-! # Phone numbers in log records

`mask_phones_in` (`maskPhonesIn`) replaces what its regular expression matches; the scan goes from
left to right and looks at the character before. `PhoneMaskFilter` (`filter`) masks the template and
the string arguments of a record, each on its own, and `getMessage` prints the record as logging
does.

What is left of a number after masking (`mask_number`): a plus sign and nine to fifteen digits only
where a word character or a full stop follows. So in a printed message every number that comes whole
out of one string of the record is followed so in that string (`filter_number`). -/

namespace KwAwards.Common.LogFilters

open KwAwards.Lib.Printf KwAwards.Common.Str

/-- What the interpreter supplies: `\w`, `isprintable`, the types of directives that print a number
or a character, and the texts of a dictionary. -/
structure Object where
  str : List Char
  repr : List Char
  ascii : List Char
  int : Option ℤ := none

/-- A message or an argument. -/
inductive Value
  | str (s : List Char)
  | obj (o : Object)

structure Interpreter where
  isWord : Char → Bool
  isPrintable : Char → Bool
  field : Directive → Char → Value → Option (List Char)
  dict : List (Value × Value) → Object

/-- Digits are word characters; the plus sign is none. -/
structure Interpreter.Documented (lib : Interpreter) : Prop where
  digit : ∀ c, isDigit c = true → lib.isWord c = true
  plus : lib.isWord '+' = false

/-! ### Masking -/

section Mask

variable (lib : Interpreter)

/-- `[\w.]`. -/
def isEdge (c : Char) : Bool := lib.isWord c || c = '.'

/-- `_mask_match`. -/
def maskMatch (text : List Char) : List Char :=
  if text.length ≤ 7 then List.replicate text.length '*'
  else text.take 5 ++ List.replicate (text.length - 7) '*' ++ text.drop (text.length - 2)

/-- How long the match of `_PHONE_RE` is that begins here, after the character `before`. A run of
digits matches whole or not at all, as none of its parts is followed by what may follow. -/
def phoneAt (before : Option Char) (text : List Char) : Option ℕ :=
  let plus := if text.head? = some '+' then 1 else 0
  let digits := ((text.drop plus).takeWhile isDigit).length
  if before.any (isEdge lib) then none
  else if 9 ≤ digits ∧ digits ≤ 15 ∧ ¬ (text.drop (plus + digits)).head?.any (isEdge lib) then
    some (plus + digits)
  else none

/-- The rest of a text, after the character `before`; `pending` is what is left of a replacement. -/
def maskFrom : Option Char → List Char → List Char → List Char
  | _, _, [] => []
  | _, p :: pending, c :: text => p :: maskFrom (some c) pending text
  | before, [], c :: text =>
    match phoneAt lib before (c :: text) with
    | none => c :: maskFrom (some c) [] text
    | some n =>
      match maskMatch ((c :: text).take n) with
      | [] => maskFrom (some c) [] text
      | p :: pending => p :: maskFrom (some c) pending text

/-- **`mask_phones_in`.** -/
def maskPhonesIn (text : List Char) : List Char := maskFrom lib none [] text

end Mask

/-- `'+'` and nine to fifteen digits. -/
structure IsE164 (number : List Char) : Prop where
  plus : number.head? = some '+'
  digits : ∀ c ∈ number.tail, isDigit c = true
  length : 9 ≤ number.tail.length ∧ number.tail.length ≤ 15

section Mask

variable {lib : Interpreter}

theorem length_maskMatch (text : List Char) : (maskMatch text).length = text.length := by
  unfold maskMatch
  split_ifs
  · exact List.length_replicate
  · simp only [List.length_append, List.length_take, List.length_replicate, List.length_drop]
    omega

theorem take_length_takeWhile (p : Char → Bool) (text : List Char) :
    text.take (text.takeWhile p).length = text.takeWhile p :=
  (List.prefix_iff_eq_take.mp (List.takeWhile_prefix p)).symm

theorem not_mem_digits {c : Char} {ds : List Char} (hc : isDigit c = false)
    (hds : ∀ d ∈ ds, isDigit d = true) : c ∉ ds := by
  intro hm
  rw [hds c hm] at hc
  cases hc

/-- A match is a run of nine digits or more, after a plus sign perhaps. -/
theorem phoneAt_eq_some {before : Option Char} {text : List Char} {n : ℕ}
    (h : phoneAt lib before text = some n) :
    9 ≤ n ∧ n ≤ text.length ∧ ∀ c ∈ (text.take n).tail, isDigit c = true := by
  unfold phoneAt at h
  simp only at h
  split_ifs at h with _ hplus hn hn
  · -- the plus sign, then the run
    obtain ⟨text, rfl⟩ := List.head?_eq_some_iff.mp hplus
    obtain rfl := Option.some.inj h
    rw [List.drop_succ_cons, List.drop_zero] at hn ⊢
    have hle := (List.takeWhile_prefix isDigit (l := text)).length_le
    refine ⟨by omega, by rw [List.length_cons]; omega, fun c hc => ?_⟩
    rw [Nat.add_comm, List.take_succ_cons, List.tail_cons, take_length_takeWhile] at hc
    exact List.mem_takeWhile_imp hc
  · obtain rfl := Option.some.inj h
    rw [List.drop_zero, Nat.zero_add] at hn ⊢
    have hle := (List.takeWhile_prefix isDigit (l := text)).length_le
    refine ⟨hn.1, hle, fun c hc => ?_⟩
    rw [take_length_takeWhile] at hc
    exact List.mem_takeWhile_imp (List.mem_of_mem_tail hc)

/-- A match is masked at its sixth character. -/
theorem getElem_maskMatch {text : List Char} (h : 9 ≤ text.length) :
    (maskMatch text)[5]? = some '*' := by
  rw [maskMatch, if_neg (by omega), List.append_assoc, List.getElem?_append_right (by simp)]
  simp only [List.length_take]
  rw [List.getElem?_append_left (by simp; omega), List.getElem?_replicate, if_pos (by omega)]

theorem plus_not_mem_maskMatch {text : List Char} (h : 9 ≤ text.length)
    (hd : ∀ c ∈ text.tail, isDigit c = true) : '+' ∉ (maskMatch text).tail := by
  intro hm
  rcases text with _ | ⟨c, text⟩
  · simp at h
  rw [List.length_cons] at h
  rw [List.tail_cons] at hd
  have hplus : '+' ∉ text := not_mem_digits (by decide) hd
  rw [maskMatch, if_neg (by rw [List.length_cons]; omega), List.take_succ_cons, List.cons_append,
    List.cons_append, List.tail_cons, List.length_cons,
    show text.length + 1 - 2 = (text.length - 2) + 1 by omega, List.drop_succ_cons] at hm
  simp only [List.mem_append, List.mem_replicate] at hm
  rcases hm with (hm | ⟨-, hm⟩) | hm
  · exact hplus (List.mem_of_mem_take hm)
  · cases hm
  · exact hplus (List.mem_of_mem_drop hm)

/-! The scan, after any prefix of the text. -/

theorem maskFrom_cons_pending (before : Option Char) (p c : Char) (pending text : List Char) :
    maskFrom lib before (p :: pending) (c :: text) = p :: maskFrom lib (some c) pending text := rfl

theorem maskFrom_of_none {before : Option Char} {c : Char} {text : List Char}
    (h : phoneAt lib before (c :: text) = none) :
    maskFrom lib before [] (c :: text) = c :: maskFrom lib (some c) [] text := by
  simp only [maskFrom, h]

/-- A match is replaced. -/
theorem maskFrom_of_some {before : Option Char} {c : Char} {text : List Char} {n : ℕ}
    (h : phoneAt lib before (c :: text) = some n) : ∃ p pending,
    maskMatch ((c :: text).take n) = p :: pending ∧
      maskFrom lib before [] (c :: text) = p :: maskFrom lib (some c) pending text := by
  obtain ⟨hn, hle, -⟩ := phoneAt_eq_some h
  have hlen := length_maskMatch ((c :: text).take n)
  rcases hm : maskMatch ((c :: text).take n) with _ | ⟨p, pending⟩
  · rw [hm, List.length_take] at hlen
    simp only [List.length_nil] at hlen
    omega
  · exact ⟨p, pending, rfl, by simp only [maskFrom, h, hm]⟩

variable (lib) in
/-- **A step of the scan** puts one character, and leaves no plus sign pending. -/
theorem maskFrom_cons (before : Option Char) {pending : List Char} (c : Char) (text : List Char)
    (hp : '+' ∉ pending) : ∃ p pending',
    maskFrom lib before pending (c :: text) = p :: maskFrom lib (some c) pending' text ∧
      '+' ∉ pending' := by
  rcases pending with _ | ⟨p, pending⟩
  · rcases h : phoneAt lib before (c :: text) with _ | n
    · exact ⟨c, [], maskFrom_of_none h, by simp⟩
    · obtain ⟨p, pending, hm, he⟩ := maskFrom_of_some h
      obtain ⟨hn, hle, hd⟩ := phoneAt_eq_some h
      have := plus_not_mem_maskMatch (by rw [List.length_take]; omega) hd
      rw [hm, List.tail_cons] at this
      exact ⟨p, pending, he, this⟩
  · exact ⟨p, pending, rfl, fun h => hp (List.mem_cons_of_mem _ h)⟩

variable (lib) in
/-- **The scan of a prefix.** -/
theorem maskFrom_append (before : Option Char) {pending : List Char} (text rest : List Char)
    (hp : '+' ∉ pending) : ∃ masked before' pending',
    maskFrom lib before pending (text ++ rest) = masked ++ maskFrom lib before' pending' rest ∧
      masked.length = text.length ∧ '+' ∉ pending' := by
  induction text generalizing before pending with
  | nil => exact ⟨[], before, pending, rfl, rfl, hp⟩
  | cons c text ih =>
    obtain ⟨p, pending₁, he, hp₁⟩ := maskFrom_cons lib before c (text ++ rest) hp
    obtain ⟨masked, before', pending', hm, hlen, hp'⟩ := ih (some c) hp₁
    refine ⟨p :: masked, before', pending', ?_, by simp [hlen], hp'⟩
    rw [List.cons_append, he, hm, List.cons_append]

variable (lib) in
theorem length_maskPhonesIn (text : List Char) : (maskPhonesIn lib text).length = text.length := by
  obtain ⟨masked, before, pending, h, hlen, -⟩ :=
    maskFrom_append lib none text [] List.not_mem_nil
  rw [List.append_nil] at h
  rw [maskPhonesIn, h]
  simpa [maskFrom] using hlen

variable (lib) in
/-- What is pending is put before anything else. -/
theorem maskFrom_pending (before : Option Char) (pending text : List Char)
    (h : pending.length ≤ text.length) :
    ∃ rest, maskFrom lib before pending text = pending ++ rest := by
  induction pending generalizing before text with
  | nil => exact ⟨_, rfl⟩
  | cons p pending ih =>
    rcases text with _ | ⟨c, text⟩
    · simp at h
    · obtain ⟨rest, hr⟩ := ih (some c) text (by simpa using h)
      exact ⟨rest, by rw [maskFrom_cons_pending, hr, List.cons_append]⟩

/-- Where a match begins, no ten digits are left. -/
theorem getElem_maskFrom_of_some {before : Option Char} {text : List Char} {n : ℕ}
    (h : phoneAt lib before text = some n) : (maskFrom lib before [] text)[5]? = some '*' := by
  obtain ⟨hn, hle, -⟩ := phoneAt_eq_some h
  rcases text with _ | ⟨c, text⟩
  · simp only [List.length_nil] at hle; omega
  obtain ⟨p, pending, hm, he⟩ := maskFrom_of_some h
  have hlen := length_maskMatch ((c :: text).take n)
  rw [hm, List.length_take, List.length_cons] at hlen
  rw [List.length_cons] at hle
  obtain ⟨rest, hr⟩ := maskFrom_pending lib (some c) pending text (by omega)
  have hstar : (maskMatch ((c :: text).take n))[5]? = some '*' :=
    getElem_maskMatch (by rw [List.length_take, List.length_cons]; omega)
  rw [he, hr, ← List.cons_append, ← hm,
    List.getElem?_append_left (by rw [length_maskMatch, List.length_take, List.length_cons]; omega)]
  exact hstar

/-- What stands behind a place of a masked text is the scan of what stands there in the text. -/
theorem maskPhonesIn_eq_append {text left right : List Char}
    (he : maskPhonesIn lib text = left ++ right) : ∃ front rest before pending,
    text = front ++ rest ∧ front.length = left.length ∧ maskFrom lib before pending rest = right ∧
      '+' ∉ pending := by
  have hle : left.length ≤ text.length := by
    rw [← length_maskPhonesIn lib text, he, List.length_append]
    omega
  have hfront : (text.take left.length).length = left.length := by
    rw [List.length_take, Nat.min_eq_left hle]
  obtain ⟨masked, before, pending, hm, hlm, hp⟩ := maskFrom_append lib none
    (text.take left.length) (text.drop left.length) List.not_mem_nil
  rw [List.take_append_drop, ← maskPhonesIn, he] at hm
  obtain ⟨-, hm⟩ := List.append_inj hm (hfront.symm.trans hlm.symm)
  exact ⟨_, _, before, pending, (List.take_append_drop ..).symm, hfront, hm.symm, hp⟩

/-- A star is none of the digits. -/
theorem getElem_digits_ne {ds : List Char} (hds : ∀ c ∈ ds, isDigit c = true) (right : List Char)
    {i : ℕ} (hi : i < ds.length) : (ds ++ right)[i]? ≠ some '*' := by
  intro hs
  rw [List.getElem?_append_left hi] at hs
  exact not_mem_digits (by decide) hds (List.mem_of_getElem? hs)

/-- A plus sign with its digits is put where it stands: no match begins at it, and none behind
it. -/
theorem maskFrom_plus {before : Option Char} {pending rest ds right : List Char}
    (hp : '+' ∉ pending) (he : maskFrom lib before pending rest = '+' :: (ds ++ right))
    (hds : ∀ c ∈ ds, isDigit c = true) (hlen : 9 ≤ ds.length) : ∃ text,
    rest = '+' :: text ∧ phoneAt lib (some '+') text = none ∧
      maskFrom lib (some '+') [] text = ds ++ right := by
  rcases rest with _ | ⟨x, text⟩
  · simp [maskFrom] at he
  -- it is not pending
  rcases pending with _ | ⟨p, pending⟩
  swap
  · rw [maskFrom_cons_pending] at he
    exact absurd (List.cons.inj he).1 fun hpe => hp (hpe ▸ List.mem_cons_self ..)
  rcases hx : phoneAt lib before (x :: text) with _ | n
  swap
  · have hstar := getElem_maskFrom_of_some hx
    rw [he, List.getElem?_cons_succ] at hstar
    exact absurd hstar (getElem_digits_ne hds right (by omega))
  rw [maskFrom_of_none hx] at he
  obtain ⟨rfl, he⟩ := List.cons.inj he
  rcases hn : phoneAt lib (some '+') text with _ | n
  swap
  · have hstar := getElem_maskFrom_of_some hn
    rw [he] at hstar
    exact absurd hstar (getElem_digits_ne hds right (by omega))
  exact ⟨text, rfl, hn, he⟩

section Documented

variable (h : lib.Documented)
include h

/-- Within a run of digits no match begins. -/
theorem maskFrom_digits {d : Char} (hd : isDigit d = true) {ds text rest : List Char}
    (hds : ∀ c ∈ ds, isDigit c = true) (he : maskFrom lib (some d) [] text = ds ++ rest) :
    ∃ d' text', text = ds ++ text' ∧ isDigit d' = true ∧
      maskFrom lib (some d') [] text' = rest := by
  induction ds generalizing d text with
  | nil => exact ⟨d, text, rfl, hd, he⟩
  | cons c ds ih =>
    rcases text with _ | ⟨x, text⟩
    · simp [maskFrom] at he
    · have hnone : phoneAt lib (some d) (x :: text) = none := by
        simp [phoneAt, isEdge, h.digit d hd]
      rw [maskFrom_of_none hnone, List.cons_append] at he
      obtain ⟨rfl, htail⟩ := List.cons.inj he
      obtain ⟨d', text', rfl, hd', hr⟩ := ih (hds x (List.mem_cons_self ..))
        (fun c hc => hds c (List.mem_cons_of_mem _ hc)) htail
      exact ⟨d', text', rfl, hd', hr⟩

/-- After a plus sign a run of nine to fifteen digits is a match unless an edge follows. -/
theorem phoneAt_digits {ds text : List Char} (hds : ∀ c ∈ ds, isDigit c = true)
    (hlen : 9 ≤ ds.length ∧ ds.length ≤ 15) (hn : phoneAt lib (some '+') (ds ++ text) = none) :
    ∃ c text', text = c :: text' ∧ isEdge lib c = true := by
  have hplus : isEdge lib '+' = false := by simp [isEdge, h.plus]
  have hhead : (ds ++ text).head? ≠ some '+' := by
    rcases ds with _ | ⟨d, ds⟩
    · simp only [List.length_nil] at hlen; omega
    · intro he
      obtain rfl : d = '+' := by simpa using he
      exact not_mem_digits (by decide) hds (List.mem_cons_self ..)
  by_contra hno
  have hedge : ∀ c, text.head? = some c → isEdge lib c = false := by
    intro c hc
    obtain ⟨text', rfl⟩ := List.head?_eq_some_iff.mp hc
    by_contra hce
    exact hno ⟨c, text', rfl, by simpa using hce⟩
  -- the run ends where the digits end, as a digit would be an edge
  have hrest : text.takeWhile isDigit = [] := by
    rcases text with _ | ⟨c, text⟩
    · rfl
    · refine List.takeWhile_cons_of_neg fun hd => ?_
      have := hedge c rfl
      simp [isEdge, h.digit c hd] at this
  have hrun : (ds ++ text).takeWhile isDigit = ds := by
    rw [List.takeWhile_append_of_pos hds, hrest, List.append_nil]
  have hfollow : text.head?.any (isEdge lib) = false := by
    rcases hc : text.head? with _ | c
    · rfl
    · exact hedge c hc
  have hsome : phoneAt lib (some '+') (ds ++ text) = some ds.length := by
    unfold phoneAt
    simp only [if_neg hhead, List.drop_zero, hrun, Nat.zero_add, List.drop_left, Option.any_some,
      hplus, Bool.false_eq_true, if_false]
    rw [if_pos ⟨hlen.1, hlen.2, by simp [hfollow]⟩]
  rw [hsome] at hn
  cases hn

/-- **What is left of a number**: an edge follows it in the text. -/
theorem mask_number {text left ds right : List Char}
    (he : maskPhonesIn lib text = left ++ '+' :: (ds ++ right)) (hds : ∀ c ∈ ds, isDigit c = true)
    (hlen : 9 ≤ ds.length ∧ ds.length ≤ 15) : ∃ before c after,
    text = before ++ '+' :: (ds ++ c :: after) ∧ before.length = left.length ∧
    isEdge lib c = true := by
  obtain ⟨front, rest, before, pending, rfl, hfront, hm, hp⟩ := maskPhonesIn_eq_append he
  obtain ⟨text, rfl, hn, hm⟩ := maskFrom_plus hp hm hds hlen.1
  rcases ds with _ | ⟨d, ds⟩
  · simp only [List.length_nil] at hlen; omega
  rcases text with _ | ⟨y, text⟩
  · simp [maskFrom] at hm
  rw [maskFrom_of_none hn, List.cons_append] at hm
  obtain ⟨rfl, hrun⟩ := List.cons.inj hm
  obtain ⟨-, text', rfl, -, -⟩ := maskFrom_digits h (hds y (List.mem_cons_self ..))
    (fun c hc => hds c (List.mem_cons_of_mem _ hc)) hrun
  obtain ⟨c, after, rfl, hc⟩ := phoneAt_digits h hds hlen hn
  exact ⟨front, c, after, rfl, hfront, hc⟩

end Documented

end Mask

/-! ### Records -/

/-- `record.args`: a tuple, empty when there are none, or a dictionary. -/
inductive LogArgs
  | positional (args : List Value)
  | dict (items : List (Value × Value))

/-- A log record. -/
structure LogRecord where
  msg : Value
  args : LogArgs

/-- `str(value)`. -/
def Value.text : Value → List Char
  | .str s => s
  | .obj o => o.str

/-- The characters of a string; an object is none. -/
def Value.string : Value → List Char
  | .str s => s
  | .obj _ => []

section Records

variable (lib : Interpreter)

/-- `PhoneMaskFilter._mask`. -/
def mask : Value → Value
  | .str s => .str (maskPhonesIn lib s)
  | .obj o => .obj o

/-- **`PhoneMaskFilter.filter`.** -/
def filter (r : LogRecord) : LogRecord where
  msg := .str (maskPhonesIn lib r.msg.text)
  args := match r.args with
    | .positional args => .positional (args.map (mask lib))
    | .dict items => .dict (items.map fun item => (item.1, mask lib item.2))

/-- Hexadecimal digits, so many at least. -/
def hex (width n : ℕ) : List Char :=
  let digits := Nat.toDigits 16 n
  List.replicate (width - digits.length) '0' ++ digits

/-- A character as `repr` writes it, with its place when it is copied. -/
def escape (quote : Char) (isPrintable : Char → Bool) (c : Char)
    (place : ℕ) : List (Char × Option ℕ) :=
  let code (cs : List Char) : List (Char × Option ℕ) := cs.map (·, none)
  if c = quote ∨ c = '\\' then [('\\', none), (c, some place)]
  else if c = '\t' then code ['\\', 't']
  else if c = '\n' then code ['\\', 'n']
  else if c = '\r' then code ['\\', 'r']
  else if c.toNat < 0x20 ∨ c.toNat = 0x7f then code ('\\' :: 'x' :: hex 2 c.toNat)
  else if c.toNat < 0x7f ∨ isPrintable c then [(c, some place)]
  else if c.toNat < 0x100 then code ('\\' :: 'x' :: hex 2 c.toNat)
  else if c.toNat < 0x10000 then code ('\\' :: 'u' :: hex 4 c.toNat)
  else code ('\\' :: 'U' :: hex 8 c.toNat)

/-- `repr` of a string, or `ascii` when nothing beyond ASCII is printable. -/
def reprString (isPrintable : Char → Bool) (s : List Char) : List (Char × Option ℕ) :=
  let quote := if '\'' ∈ s ∧ '"' ∉ s then '"' else '\''
  (quote, none) :: s.zipIdx.flatMap (fun x => escape quote isPrintable x.1 x.2) ++ [(quote, none)]

/-- What the directives print of a value. -/
def conversion : Conversion Value where
  text
    | 's', .str s => some (s.zipIdx.map fun x => (x.1, some x.2))
    | 's', .obj o => some (o.str.map (·, none))
    | 'r', .str s => some (reprString lib.isPrintable s)
    | 'r', .obj o => some (o.repr.map (·, none))
    | 'a', .str s => some (reprString (fun _ => false) s)
    | 'a', .obj o => some (o.ascii.map (·, none))
    | _, _ => none
  field := lib.field
  int
    | .str _ => none
    | .obj o => o.int

/-- An item that a directive can name. -/
def named (item : Value × Value) : Option (List Char × Value) :=
  match item.1 with
  | .str key => some (key, item.2)
  | .obj _ => none

/-- The arguments of a template: a dictionary is read by its string keys, or printed whole. -/
def LogArgs.toArgs : LogArgs → Args Value
  | .positional args => .positional args
  | .dict items => .mapping (items.filterMap named) (.obj (lib.dict items))

/-- Whether `record.args` is false. -/
def LogArgs.isEmpty : LogArgs → Bool
  | .positional args => args.isEmpty
  | .dict items => items.isEmpty

/-- **`LogRecord.getMessage`**; `none` when the arguments do not fit the template. -/
def getMessage (r : LogRecord) : Option (List Marked) :=
  if r.args.isEmpty then some (r.msg.text.zipIdx.map fun x => (x.1, some (.template, x.2)))
  else format (conversion lib) (r.args.toArgs lib) r.msg.text

/-- The strings of a record: its template, its string arguments and those of its dictionary. -/
def LogRecord.string (r : LogRecord) (source : Source) : Option (List Char) :=
  texts Value.string (r.args.toArgs lib) r.msg.text source

/-- The characters of a printed record. -/
def printed (r : LogRecord) : Option (List Char) := (getMessage lib r).map (List.map Prod.fst)

/-- **A stretch of a message comes whole from one string**, from a place of it on. -/
def ComesFrom (stretch : List Marked) (source : Source) (place : ℕ) : Prop :=
  stretch.map Prod.snd = (List.range' place stretch.length).map fun i => some (source, i)

variable {lib}

/-! What is printed of a string is marked with its places. -/

theorem mem_escape {quote c x : Char} {isPrintable : Char → Bool} {place p : ℕ}
    (h : (x, some p) ∈ escape quote isPrintable c place) : x = c ∧ p = place := by
  unfold escape at h
  simp only at h
  split_ifs at h <;> simp_all

theorem mem_reprString {isPrintable : Char → Bool} {s : List Char} {x : Char} {p : ℕ}
    (h : (x, some p) ∈ reprString isPrintable s) : s[p]? = some x := by
  simp only [reprString, List.cons_append, List.mem_cons, List.mem_append, List.mem_flatMap,
    Prod.mk.injEq, reduceCtorEq, and_false, List.not_mem_nil, or_false, false_or] at h
  obtain ⟨⟨c, place⟩, hc, hx⟩ := h
  obtain ⟨rfl, rfl⟩ := mem_escape hx
  exact List.mem_zipIdx_iff_getElem?.mp hc

theorem conversion_marks : (conversion lib).Marks Value.string := by
  intro c v text h x place hx
  simp only [conversion] at h
  split at h
  · next s =>
    obtain rfl := Option.some.inj h
    obtain ⟨⟨y, p⟩, hy, he⟩ := List.mem_map.mp hx
    obtain ⟨rfl, rfl⟩ : y = x ∧ p = place := by simpa using he
    exact List.mem_zipIdx_iff_getElem?.mp hy
  · obtain rfl := Option.some.inj h
    simp at hx
  · next s =>
    obtain rfl := Option.some.inj h
    exact mem_reprString hx
  · obtain rfl := Option.some.inj h
    simp at hx
  · next s =>
    obtain rfl := Option.some.inj h
    exact mem_reprString hx
  · obtain rfl := Option.some.inj h
    simp at hx
  · cases h

/-- Masking a value masks its characters. -/
theorem string_mask (v : Value) : (mask lib v).string = maskPhonesIn lib v.string := by
  cases v <;> rfl

theorem lookup_named (items : List (Value × Value)) (key : List Char) :
    ((items.map fun item => (item.1, mask lib item.2)).filterMap named).lookup key =
      ((items.filterMap named).lookup key).map (mask lib) := by
  induction items with
  | nil => rfl
  | cons item items ih =>
    obtain ⟨k | k, v⟩ := item
    · simp only [List.map_cons, List.filterMap_cons, named, List.lookup_cons]
      split
      · rfl
      · exact ih
    · simp only [List.map_cons, List.filterMap_cons, named]
      exact ih

/-- **The strings of a filtered record** are those of the record, masked. -/
theorem string_filter {r : LogRecord} {source : Source} {s : List Char}
    (h : (filter lib r).string lib source = some s) :
    ∃ t, r.string lib source = some t ∧ s = maskPhonesIn lib t := by
  obtain ⟨msg, args⟩ := r
  cases source with
  | template => exact ⟨msg.text, rfl, (Option.some.inj h).symm⟩
  | argument n =>
    cases args with
    | positional as =>
      have h : ((as.map (mask lib))[n]?).map Value.string = some s := h
      rw [List.getElem?_map] at h
      obtain ⟨w, hw, rfl⟩ := Option.map_eq_some_iff.mp h
      obtain ⟨v, hv, rfl⟩ := Option.map_eq_some_iff.mp hw
      exact ⟨v.string, congrArg (Option.map Value.string) hv, string_mask v⟩
    | dict items => cases h
  | value key =>
    cases args with
    | positional as => cases h
    | dict items =>
      have h : (((items.map fun item => (item.1, mask lib item.2)).filterMap named).lookup key).map
          Value.string = some s := h
      rw [lookup_named] at h
      obtain ⟨w, hw, rfl⟩ := Option.map_eq_some_iff.mp h
      obtain ⟨v, hv, rfl⟩ := Option.map_eq_some_iff.mp hw
      exact ⟨v.string, congrArg (Option.map Value.string) hv, string_mask v⟩

/-- A printed record is marked rightly. -/
theorem getMessage_sound {r : LogRecord} {out : List Marked} (h : getMessage lib r = some out) :
    Sound (r.string lib) out := by
  unfold getMessage at h
  split_ifs at h
  · obtain rfl := Option.some.inj h
    intro c source place hc
    obtain ⟨⟨y, p⟩, hy, he⟩ := List.mem_map.mp hc
    cases he
    exact ⟨r.msg.text, rfl, List.mem_zipIdx_iff_getElem?.mp hy⟩
  · exact format_sound conversion_marks h

/-- A stretch that comes whole from a string stands in it at its place. -/
theorem ComesFrom.drop {f : Source → Option (List Char)} {left stretch right : List Marked}
    {source : Source} {place : ℕ} (hs : Sound f (left ++ stretch ++ right))
    (hc : ComesFrom stretch source place) (hne : stretch ≠ []) :
    ∃ t, f source = some t ∧ stretch.map Prod.fst <+: t.drop place := by
  have hat : ∀ i (hi : i < stretch.length), ∃ t, f source = some t ∧
      t[place + i]? = some (stretch[i]).1 := by
    intro i hi
    have hmark : (stretch[i]).2 = some (source, place + i) := by
      have := congrArg (fun l => l[i]?) hc
      simpa [hi] using this
    refine hs _ source (place + i) ?_
    rw [← hmark]
    simp [List.getElem_mem hi]
  obtain ⟨t, ht, -⟩ := hat 0 (List.length_pos_iff.mpr hne)
  refine ⟨t, ht, List.prefix_iff_getElem?.mpr fun i hi => ?_⟩
  rw [List.length_map] at hi
  obtain ⟨t', ht', hx⟩ := hat i hi
  obtain rfl := Option.some.inj (ht.symm.trans ht')
  rw [List.getElem?_drop, hx, List.getElem_map]

end Records

/-- **A number that comes whole from one string of a filtered record** is followed in that string,
as it was logged, by a word character or a full stop. -/
theorem filter_number (lib : Interpreter) (h : lib.Documented) (r : LogRecord) (out : List Marked)
    (hout : getMessage lib (filter lib r) = some out) (left number right : List Marked)
    (he : out = left ++ number ++ right) (hnumber : IsE164 (number.map Prod.fst)) (source : Source)
    (place : ℕ) (hwhole : ComesFrom number source place) :
    ∃ before c after, r.string lib source = some (before ++ number.map Prod.fst ++ c :: after) ∧
      before.length = place ∧ isEdge lib c = true := by
  obtain ⟨hplus, hdigits, hlength⟩ := hnumber
  have hne : number ≠ [] := by rintro rfl; simp at hplus
  obtain ⟨s, hs, rest, hrest⟩ := hwhole.drop (he ▸ getMessage_sound hout) hne
  obtain ⟨t, ht, rfl⟩ := string_filter hs
  obtain ⟨ds, hds⟩ := List.head?_eq_some_iff.mp hplus
  rw [hds] at hdigits hlength hrest ⊢
  have hmask : maskPhonesIn lib t = (maskPhonesIn lib t).take place ++ '+' :: (ds ++ rest) := by
    rw [← List.cons_append, hrest, List.take_append_drop]
  obtain ⟨before, c, after, rfl, hlen, hc⟩ := mask_number h hmask hdigits hlength
  refine ⟨before, c, after, by rw [ht]; simp, ?_, hc⟩
  have hplace := congrArg List.length hrest
  simp only [List.length_append, List.length_cons, List.length_drop] at hplace
  rw [hlen, List.length_take]
  omega

/-! The number of a voter. -/

/-- An interpreter whose words are of digits and ASCII letters, and that prints a whole number. -/
def asciiWords : Interpreter where
  isWord c := isDigit c || c.isAlpha || c = '_'
  isPrintable _ := false
  field _ c v :=
    match c, v with
    | 'd', .obj o => o.int.map fun _ => o.str
    | _, _ => none
  dict _ := ⟨[], [], [], none⟩

theorem asciiWords_documented : asciiWords.Documented where
  digit c hc := by simp [asciiWords, hc]
  plus := by decide

def voter : List Char := "+254712345678".toList

theorem isE164_voter : IsE164 voter := ⟨by decide, List.all_eq_true.mp (by decide), by decide⟩

/-- A full stop follows it in an argument. -/
theorem filter_number_argument :
    ∃ before c after, LogRecord.string asciiWords
        ⟨.str "Sent to %s".toList, .positional [.str (voter ++ ['.'])]⟩ (.argument 0) =
          some (before ++ voter ++ c :: after) ∧ before.length = 0 ∧ isEdge asciiWords c = true :=
  filter_number asciiWords asciiWords_documented
    ⟨.str "Sent to %s".toList, .positional [.str (voter ++ ['.'])]⟩
    ("Sent to ".toList.zipIdx.map (fun x => (x.1, some (.template, x.2))) ++
      voter.zipIdx.map (fun x => (x.1, some (.argument 0, x.2))) ++ [('.', some (.argument 0, 13))])
    (by decide) _ _ _ rfl isE164_voter (.argument 0) 0 (by unfold ComesFrom; decide)

/-- A record that is printed so before it is filtered and after. -/
def Survives (r : LogRecord) (text : List Char) : Prop :=
  printed asciiWords r = some text ∧ printed asciiWords (filter asciiWords r) = some text

/-- **It survives** before the full stop of a sentence, as an object and put together from
pieces. -/
theorem voter_survives : asciiWords.Documented ∧ IsE164 voter ∧
    Survives ⟨.str ("Sent to ".toList ++ voter ++ ['.']), .positional []⟩
      ("Sent to ".toList ++ voter ++ ['.']) ∧
    Survives ⟨.str "Sent to %s".toList, .positional [.obj ⟨voter, voter, voter, none⟩]⟩
      ("Sent to ".toList ++ voter) ∧
    Survives ⟨.str "Sent to +2547%s".toList, .positional [.str "12345678".toList]⟩
      ("Sent to ".toList ++ voter) :=
  ⟨asciiWords_documented, isE164_voter, ⟨by decide, by decide⟩, ⟨by decide, by decide⟩,
    ⟨by decide, by decide⟩⟩

end KwAwards.Common.LogFilters
