import Mathlib.Tactic

/-! # Percent formatting

A template is read character by character (`step`); a directive may name a key, takes its width and
its precision from digits or from an argument, and prints one argument, which may be a mapping. Of
every character printed it is known where it was copied from, if it was copied (`Marked`).

`format_sound` is the invariant of the reading: a marked character is the one at its place. -/

namespace KwAwards.Lib.Printf

/-- Where a character is copied from: the template, an argument or the value of a key. -/
inductive Source
  | template
  | argument (n : ℕ)
  | value (key : List Char)
  deriving DecidableEq

/-- A character printed, and its place in the text it is copied from. -/
abbrev Marked := Char × Option (Source × ℕ)

/-- What stands between the percent sign and the type of a directive. -/
structure Directive where
  left : Bool := false
  plus : Bool := false
  space : Bool := false
  alternate : Bool := false
  zero : Bool := false
  width : Option ℕ := none
  precision : Option ℕ := none

/-- What the directives print of a value: `text` for `s`, `r` and `a`, each character with its place
in the text of the value when it is copied from there, and `field` for the other types, padded.
`int` is what a star takes. -/
structure Conversion (ν : Type*) where
  text : Char → ν → Option (List (Char × Option ℕ))
  field : Directive → Char → ν → Option (List Char)
  int : ν → Option ℤ

inductive Args (ν : Type*)
  | positional (args : List ν)
  | mapping (items : List (List Char × ν)) (whole : ν)

/-- The arguments there still are; a mapping is one argument, and so is the value of a key. -/
inductive Supply
  | positional (taken : ℕ)
  | whole
  | value (key : List Char)
  | spent

/-- Where the reading of a template stands. -/
inductive Phase
  | literal
  | percent
  | key (depth : ℕ) (read : List Char)
  | flags (d : Directive)
  | width (d : Directive)
  | widthTaken (d : Directive)
  | point (d : Directive)
  | precision (d : Directive)
  | precisionTaken (d : Directive)
  | length (d : Directive)

structure State where
  phase : Phase
  supply : Supply

/-- The bounds of a width and of a precision. -/
def maxWidth : ℕ := 2 ^ 63 - 1
def maxPrecision : ℕ := 2 ^ 31 - 1

def digit? (c : Char) : Option ℕ := if '0' ≤ c ∧ c ≤ '9' then some (c.toNat - '0'.toNat) else none

variable {ν : Type*} (conv : Conversion ν) (args : Args ν)

/-- The next argument, and where its text is copied from. -/
def take (args : Args ν) : Supply → Option (ν × Option Source × Supply)
  | .positional n =>
    match args with
    | .positional as => as[n]?.map (·, some (.argument n), .positional (n + 1))
    | .mapping _ _ => none
  | .whole =>
    match args with
    | .positional _ => none
    | .mapping _ whole => some (whole, none, .spent)
  | .value key =>
    match args with
    | .positional _ => none
    | .mapping items _ => (items.lookup key).map (·, some (.value key), .spent)
  | .spent => none

/-- The characters of a value, marked. -/
def mark (source : Option Source) (text : List (Char × Option ℕ)) : List Marked :=
  text.map fun x => (x.1, source.bind fun s => x.2.map (s, ·))

/-- Cut to the precision. -/
def cut (d : Directive) (text : List Marked) : List Marked :=
  text.take (d.precision.getD text.length)

/-- Padded to the width. -/
def pad (d : Directive) (text : List Marked) : List Marked :=
  let fill := List.replicate (d.width.getD 0 - text.length) (' ', none)
  if d.left then text ++ fill else fill ++ text

/-- The type of a directive. -/
def print (d : Directive) (supply : Supply) (c : Char) : Option (State × List Marked) :=
  if c = '%' then some (⟨.literal, supply⟩, [('%', none)])
  else (take args supply).bind fun (v, source, supply) =>
    match conv.text c v with
    | some text => some (⟨.literal, supply⟩, pad d (cut d (mark source text)))
    | none => (conv.field d c v).map fun field => (⟨.literal, supply⟩, field.map (·, none))

/-- After the precision: a length, which means nothing, or the type. -/
def afterPrecision (d : Directive) (supply : Supply) (c : Char) : Option (State × List Marked) :=
  if c = 'h' ∨ c = 'l' ∨ c = 'L' then some (⟨.length d, supply⟩, []) else print conv args d supply c

/-- After the width: a precision, or what follows one. -/
def afterWidth (d : Directive) (supply : Supply) (c : Char) : Option (State × List Marked) :=
  if c = '.' then some (⟨.point { d with precision := some 0 }, supply⟩, [])
  else afterPrecision conv args d supply c

/-- The width, or what follows one. A negative one pads on the right. -/
def afterFlags (d : Directive) (supply : Supply) (c : Char) : Option (State × List Marked) :=
  if c = '*' then
    (take args supply).bind fun (v, _, supply) => (conv.int v).bind fun n =>
      if n.natAbs ≤ maxWidth then
        some (⟨.widthTaken { d with width := some n.natAbs, left := d.left || n < 0 }, supply⟩, [])
      else none
  else match digit? c with
    | some n => some (⟨.width { d with width := some n }, supply⟩, [])
    | none => afterWidth conv args d supply c

/-- The flags, or what follows them. -/
def afterKey (d : Directive) (supply : Supply) (c : Char) : Option (State × List Marked) :=
  match c with
  | '-' => some (⟨.flags { d with left := true }, supply⟩, [])
  | '+' => some (⟨.flags { d with plus := true }, supply⟩, [])
  | ' ' => some (⟨.flags { d with space := true }, supply⟩, [])
  | '#' => some (⟨.flags { d with alternate := true }, supply⟩, [])
  | '0' => some (⟨.flags { d with zero := true }, supply⟩, [])
  | c => afterFlags conv args d supply c

/-- How many parentheses of a key are open. -/
def depthAfter (depth : ℕ) (c : Char) : ℕ :=
  if c = ')' then depth - 1 else if c = '(' then depth + 1 else depth

/-- **One character of the template**, at a place of it; `none` is an error. -/
def step (s : State) (place : ℕ) (c : Char) : Option (State × List Marked) :=
  match s.phase with
  | .literal =>
    if c = '%' then some (⟨.percent, s.supply⟩, [])
    else some (s, [(c, some (.template, place))])
  | .percent =>
    if c = '(' then
      match args with
      | .positional _ => none
      | .mapping _ _ => some (⟨.key 1 [], s.supply⟩, [])
    else afterKey conv args {} s.supply c
  | .key depth read =>
    if c = ')' ∧ depth = 1 then
      match args with
      | .positional _ => none
      | .mapping items _ =>
        if (items.lookup read).isSome then some (⟨.flags {}, .value read⟩, []) else none
    else some (⟨.key (depthAfter depth c) (read ++ [c]), s.supply⟩, [])
  | .flags d => afterKey conv args d s.supply c
  | .width d =>
    match digit? c with
    | some n =>
      let width := d.width.getD 0 * 10 + n
      if width ≤ maxWidth then some (⟨.width { d with width := some width }, s.supply⟩, [])
      else none
    | none => afterWidth conv args d s.supply c
  | .widthTaken d => afterWidth conv args d s.supply c
  | .point d =>
    if c = '*' then
      (take args s.supply).bind fun (v, _, supply) => (conv.int v).bind fun n =>
        if -(maxPrecision : ℤ) - 1 ≤ n ∧ n ≤ maxPrecision then
          some (⟨.precisionTaken { d with precision := some n.toNat }, supply⟩, [])
        else none
    else match digit? c with
      | some n => some (⟨.precision { d with precision := some n }, s.supply⟩, [])
      | none => afterPrecision conv args d s.supply c
  | .precision d =>
    match digit? c with
    | some n =>
      let precision := d.precision.getD 0 * 10 + n
      if precision ≤ maxPrecision then
        some (⟨.precision { d with precision := some precision }, s.supply⟩, [])
      else none
    | none => afterPrecision conv args d s.supply c
  | .precisionTaken d => afterPrecision conv args d s.supply c
  | .length d => print conv args d s.supply c

/-- The rest of a template, from a place of it on. -/
def run : State → ℕ → List Char → Option (State × List Marked)
  | s, _, [] => some (s, [])
  | s, place, c :: cs =>
    (step conv args s place c).bind fun (s, out) =>
      (run s (place + 1) cs).map fun (s, rest) => (s, out ++ rest)

/-- All the arguments that must be taken are. -/
def Supply.done (args : Args ν) : Supply → Bool
  | .positional n =>
    match args with
    | .positional as => as.length ≤ n
    | .mapping _ _ => true
  | _ => true

def start (args : Args ν) : State where
  phase := .literal
  supply := match args with
    | .positional _ => .positional 0
    | .mapping _ _ => .whole

/-- **A template formatted**; `none` when the template or an argument is wrong. -/
def format (template : List Char) : Option (List Marked) :=
  (run conv args (start args) 0 template).bind fun (s, out) =>
    match s.phase with
    | .literal => if s.supply.done args then some out else none
    | _ => none

/-! ### What a step prints -/

section Steps

variable {conv args} {d : Directive} {supply : Supply} {c : Char} {s' : State} {out : List Marked}

/-- A directive prints nothing before its type. -/
def Prints (conv : Conversion ν) (args : Args ν) (c : Char) (s' : State)
    (out : List Marked) : Prop :=
  out = [] ∨ ∃ d supply, print conv args d supply c = some (s', out)

theorem Prints.nothing {s : State} (h : some (s, ([] : List Marked)) = some (s', out)) :
    Prints conv args c s' out :=
  Or.inl (Prod.mk.inj (Option.some.inj h)).2.symm

theorem afterPrecision_prints (h : afterPrecision conv args d supply c = some (s', out)) :
    Prints conv args c s' out := by
  unfold afterPrecision at h
  split_ifs at h
  · exact .nothing h
  · exact Or.inr ⟨d, supply, h⟩

theorem afterWidth_prints (h : afterWidth conv args d supply c = some (s', out)) :
    Prints conv args c s' out := by
  unfold afterWidth at h
  split_ifs at h
  · exact .nothing h
  · exact afterPrecision_prints h

theorem afterFlags_prints (h : afterFlags conv args d supply c = some (s', out)) :
    Prints conv args c s' out := by
  unfold afterFlags at h
  split_ifs at h
  · obtain ⟨⟨v, _, supply⟩, -, h⟩ := Option.bind_eq_some_iff.mp h
    obtain ⟨n, -, h⟩ := Option.bind_eq_some_iff.mp h
    split_ifs at h
    exact .nothing h
  · split at h
    · exact .nothing h
    · exact afterWidth_prints h

theorem afterKey_prints (h : afterKey conv args d supply c = some (s', out)) :
    Prints conv args c s' out := by
  unfold afterKey at h
  split at h
  · exact .nothing h
  · exact .nothing h
  · exact .nothing h
  · exact .nothing h
  · exact .nothing h
  · exact afterFlags_prints h

/-- **A step** prints nothing, its character or an argument. -/
theorem step_prints {s : State} {place : ℕ} (h : step conv args s place c = some (s', out)) :
    out = [(c, some (.template, place))] ∨ Prints conv args c s' out := by
  obtain ⟨phase, supply⟩ := s
  cases phase with
  | literal =>
    simp only [step] at h
    split_ifs at h
    · exact Or.inr (.nothing h)
    · exact Or.inl (Prod.mk.inj (Option.some.inj h)).2.symm
  | percent =>
    simp only [step] at h
    split_ifs at h
    · cases args with
      | positional _ => cases h
      | mapping _ _ => exact Or.inr (.nothing h)
    · exact Or.inr (afterKey_prints h)
  | key depth read =>
    simp only [step] at h
    split_ifs at h
    · cases args with
      | positional _ => cases h
      | mapping items _ =>
        simp only at h
        split_ifs at h
        exact Or.inr (.nothing h)
    · exact Or.inr (.nothing h)
  | flags d => exact Or.inr (afterKey_prints h)
  | width d =>
    simp only [step] at h
    split at h
    · split_ifs at h
      exact Or.inr (.nothing h)
    · exact Or.inr (afterWidth_prints h)
  | widthTaken d => exact Or.inr (afterWidth_prints h)
  | point d =>
    simp only [step] at h
    split_ifs at h
    · obtain ⟨⟨v, _, supply⟩, -, h⟩ := Option.bind_eq_some_iff.mp h
      obtain ⟨n, -, h⟩ := Option.bind_eq_some_iff.mp h
      split_ifs at h
      exact Or.inr (.nothing h)
    · split at h
      · exact Or.inr (.nothing h)
      · exact Or.inr (afterPrecision_prints h)
  | precision d =>
    simp only [step] at h
    split at h
    · split_ifs at h
      exact Or.inr (.nothing h)
    · exact Or.inr (afterPrecision_prints h)
  | precisionTaken d => exact Or.inr (afterPrecision_prints h)
  | length d => exact Or.inr (Or.inr ⟨_, _, h⟩)

end Steps

/-! ### Marks are right -/

/-- **Every marked character is the one at its place.** -/
def Sound (texts : Source → Option (List Char)) (out : List Marked) : Prop :=
  ∀ c source place, (c, some (source, place)) ∈ out → ∃ t, texts source = some t ∧
    t[place]? = some c

/-- The conversions mark rightly what they print of a value. -/
def Conversion.Marks (conv : Conversion ν) (textOf : ν → List Char) : Prop :=
  ∀ c v text, conv.text c v = some text → ∀ x place, (x, some place) ∈ text →
    (textOf v)[place]? = some x

/-- The text of a source. -/
def texts (textOf : ν → List Char) (args : Args ν) (template : List Char) :
    Source → Option (List Char)
  | .template => some template
  | .argument n =>
    match args with
    | .positional as => as[n]?.map textOf
    | .mapping _ _ => none
  | .value key =>
    match args with
    | .positional _ => none
    | .mapping items _ => (items.lookup key).map textOf

section Sound

variable {conv args} {textOf : ν → List Char} {template : List Char}

theorem sound_append {f : Source → Option (List Char)} {out rest : List Marked} (h : Sound f out)
    (hr : Sound f rest) : Sound f (out ++ rest) := by
  intro c source place hm
  rcases List.mem_append.mp hm with hm | hm
  · exact h c source place hm
  · exact hr c source place hm

/-- What is taken is the value of its source. -/
theorem take_texts {supply supply' : Supply} {v : ν} {source : Source}
    (h : take args supply = some (v, some source, supply')) :
    texts textOf args template source = some (textOf v) := by
  unfold take at h
  split at h
  · split at h
    · next as =>
      obtain ⟨w, hw, he⟩ := Option.map_eq_some_iff.mp h
      cases he
      simp only [texts, hw, Option.map_some]
    · cases h
  · split at h
    · cases h
    · cases h
  · split at h
    · cases h
    · next items _ =>
      obtain ⟨w, hw, he⟩ := Option.map_eq_some_iff.mp h
      cases he
      simp only [texts, hw, Option.map_some]
  · cases h

/-- What is padded has no mark. -/
theorem mem_of_mem_pad {d : Directive} {text : List Marked} {x : Char} {p : Source × ℕ}
    (h : (x, some p) ∈ pad d text) : (x, some p) ∈ text := by
  unfold pad at h
  split_ifs at h
  · simpa [List.mem_replicate] using h
  · simpa [List.mem_replicate] using h

theorem sound_print (hm : conv.Marks textOf) {d : Directive} {supply : Supply} {c : Char}
    {s' : State} {out : List Marked} (h : print conv args d supply c = some (s', out)) :
    Sound (texts textOf args template) out := by
  unfold print at h
  split_ifs at h
  · obtain ⟨-, rfl⟩ := Prod.mk.inj (Option.some.inj h)
    intro x source place hx
    simp at hx
  · obtain ⟨⟨v, source, supply'⟩, htake, h⟩ := Option.bind_eq_some_iff.mp h
    dsimp only at h
    split at h
    · next text htext =>
      obtain ⟨-, rfl⟩ := Prod.mk.inj (Option.some.inj h)
      intro x source' place hx
      obtain ⟨⟨y, p⟩, hy, he⟩ :=
        List.mem_map.mp ((List.take_sublist _ _).subset (mem_of_mem_pad hx))
      obtain ⟨hyx, he⟩ := Prod.mk.inj he
      obtain ⟨source, rfl, he⟩ := Option.bind_eq_some_iff.mp he
      obtain ⟨q, hq, he⟩ := Option.map_eq_some_iff.mp he
      cases he
      exact ⟨textOf v, take_texts htake, hm c v text htext x place (by rw [← hyx, ← hq]; exact hy)⟩
    · obtain ⟨field, -, he⟩ := Option.map_eq_some_iff.mp h
      obtain ⟨-, rfl⟩ := Prod.mk.inj he
      intro x source' place hx
      simp at hx

/-- **A formatted template is marked rightly.** -/
theorem format_sound (hm : conv.Marks textOf) {out : List Marked}
    (h : format conv args template = some out) : Sound (texts textOf args template) out := by
  -- the rest of the template is read from its place on
  have hrun : ∀ cs s place s' out, template.drop place = cs →
      run conv args s place cs = some (s', out) → Sound (texts textOf args template) out := by
    intro cs
    induction cs with
    | nil =>
      intro s place s' out _ hr
      obtain ⟨-, rfl⟩ := Prod.mk.inj (Option.some.inj hr)
      exact fun _ _ _ hx => absurd hx (by simp)
    | cons c cs ih =>
      intro s place s' out hd hr
      obtain ⟨⟨s₁, out₁⟩, hstep, hr⟩ := Option.bind_eq_some_iff.mp hr
      obtain ⟨⟨s₂, rest⟩, hrest, he⟩ := Option.map_eq_some_iff.mp hr
      obtain ⟨-, rfl⟩ := Prod.mk.inj he
      have hc : template[place]? = some c := by
        rw [← List.head?_drop, hd]; rfl
      have hdrop : template.drop (place + 1) = cs := by
        rw [← List.drop_drop, hd]; rfl
      refine sound_append ?_ (ih s₁ (place + 1) s₂ rest hdrop hrest)
      rcases step_prints hstep with rfl | rfl | ⟨d, supply, hp⟩
      · intro x source p hx
        cases List.mem_singleton.mp hx
        exact ⟨template, rfl, hc⟩
      · exact fun _ _ _ hx => absurd hx (by simp)
      · exact sound_print hm hp
  obtain ⟨⟨s, out'⟩, hr, h⟩ := Option.bind_eq_some_iff.mp h
  dsimp only at h
  split at h
  · split_ifs at h
    obtain rfl := Option.some.inj h
    exact hrun template _ 0 s out' rfl hr
  · cases h

end Sound

end KwAwards.Lib.Printf
