import KwAwards.Lib.Marks
import KwAwards.Lib.Respell
import KwAwards.Common.Str

/-! # Plain text

`clean_text` (`cleanText`), on the code points of a text. Unicode normalisation and the tag stripper
are given functions (`TextLibrary`); `Documented` is what the code relies on. What becomes of each
code point of a text in NFC, before the white space is tidied, are its marks (`marked`): control
characters and tags are dropped.

The last steps, those of the white space (`fold`), are idempotent (`fold_fold`) and keep the words
of a text (`tokens_fold`); so the text that comes out is in NFC when the text they are given is.
That text (`stripped`) need not be: where a control character or a tag is dropped, what stood around
it may compose. And a carriage return stays in a multiline text, unless a line begins or ends there.
`Settled` says of a text that neither happens. -/

namespace KwAwards.Common.Text

open KwAwards.Lib.Words KwAwards.Lib.Marks KwAwards.Common.Str

/-- `unicodedata.normalize("NFC", ·)`, and `strip_tags` by what becomes of each code point. -/
structure TextLibrary where
  nfc : List Char → List Char
  tagMarks : List Char → List (Mark Char)

/-- `strip_tags`. -/
def TextLibrary.stripTags (lib : TextLibrary) (text : List Char) : List Char :=
  left (lib.tagMarks text)

/-- `_CONTROL_CHARS`. -/
def isControl (c : Char) : Bool :=
  let n := c.toNat
  n ≤ 0x08 || n = 0x0b || n = 0x0c || (0x0e ≤ n && n ≤ 0x1f) || (0x7f ≤ n && n ≤ 0x9f)

/-- A character of `_INLINE_WS`. -/
def isInline (c : Char) : Bool := c = ' ' || c = '\t'

/-- `_INLINE_WS.sub(" ", text)`. -/
def oneSpace (cs : List Char) : List Char := squeeze isInline ' ' 1 0 cs

/-- `re.sub(r"\n{3,}", "\n\n", text)`. -/
def twoNewlines (cs : List Char) : List Char := squeeze (· = '\n') '\n' 2 0 cs

/-- `text.replace("\r\n", "\n")`. -/
def replaceCrLf : List Char → List Char
  | '\r' :: '\n' :: cs => '\n' :: replaceCrLf cs
  | c :: cs => c :: replaceCrLf cs
  | [] => []

/-- `text.replace("\n", " ").replace("\r", " ")`. -/
def replaceBreaks (cs : List Char) : List Char :=
  cs.map fun c => if c = '\n' ∨ c = '\r' then ' ' else c

def cleanLine (line : List Char) : List Char := stripChars (oneSpace line)

/-- The white space tidied. -/
def fold : Bool → List Char → List Char
  | true, text =>
    let lines := ((replaceCrLf text).splitOn '\n').map cleanLine
    stripChars (twoNewlines (['\n'].intercalate lines))
  | false, text => stripChars (oneSpace (replaceBreaks text))

section Clean

variable (lib : TextLibrary)

/-- In NFC, without control characters and then without tags. -/
def stripped (text : List Char) : List Char :=
  lib.stripTags ((lib.nfc text).filter fun c => !isControl c)

/-- **What becomes of the code points** of a text in NFC: the control characters are dropped, and
those of tags. -/
def marked (text : List Char) : List (Mark Char) :=
  weave isControl (lib.tagMarks ((lib.nfc text).filter fun c => !isControl c)) (lib.nfc text)

/-- **`clean_text`** of a text, on its code points. -/
def cleanChars (multiline : Bool) (text : List Char) : List Char :=
  fold multiline (stripped lib text)

/-- **`clean_text`.** -/
def cleanText (multiline : Bool) : Option String → String
  | none => ""
  | some value => String.ofList (cleanChars lib multiline value.toList)

end Clean

/-- What words are separated by. -/
def isBlank (c : Char) : Bool := isInline c || c = '\n' || c = '\r'

/-- The words of a text, each without the white space around it. -/
def tokens (text : List Char) : List (List Char) := words isBlank isSpace text

/-- **What the code relies on**: NFC is a normal form, of every part of a normal text too, that
leaves ASCII alone and composes nothing across white space. `strip_tags` keeps or drops each code
point, and adds the semicolons that close references; it finds no tag in what it returns, nor where
the words of that text are spaced otherwise. -/
structure TextLibrary.Documented (lib : TextLibrary) : Prop where
  nfc_nfc : ∀ s, lib.nfc (lib.nfc s) = lib.nfc s
  nfc_part : ∀ s t, s <:+: t → lib.nfc t = t → lib.nfc s = s
  nfc_ascii : ∀ s, (∀ c ∈ s, c.toNat < 128) → lib.nfc s = s
  nfc_space : ∀ c, isSpace c = true → lib.nfc [c] = [c] → ∀ s t, lib.nfc s = s → lib.nfc t = t →
    lib.nfc (s ++ c :: t) = s ++ c :: t
  source_tagMarks : ∀ s, source (lib.tagMarks s) = s
  added : ∀ s c, Mark.add c ∈ lib.tagMarks s → c = ';' ∧ '&' ∈ s
  stripTags_stripTags : ∀ s, lib.stripTags (lib.stripTags s) = lib.stripTags s
  stripTags_respaced : ∀ s t, tokens s = tokens t → stripChars t = t → lib.stripTags s = s →
    lib.stripTags t = t

/-- **What the code relies on when it cleans a text again**: NFC rewrites a text between its white
space, and makes of other code points neither white space nor control characters; and `strip_tags`
finds no tag in the NFC of a text in which it finds none. -/
structure TextLibrary.DocumentedAgain (lib : TextLibrary) : Prop extends lib.Documented where
  nfc_eq_nil : ∀ s, lib.nfc s = [] → s = []
  nfc_join : ∀ c, isSpace c = true → lib.nfc [c] = [c] → ∀ s t,
    lib.nfc (s ++ c :: t) = lib.nfc s ++ c :: lib.nfc t
  nfc_run : ∀ s, (∀ c ∈ s, isSpace c = false) → ∀ c ∈ lib.nfc s, isSpace c = false
  nfc_control : ∀ s, (∀ c ∈ s, isControl c = false) → ∀ c ∈ lib.nfc s, isControl c = false
  stripTags_nfc : ∀ s, lib.stripTags s = s → lib.stripTags (lib.nfc s) = lib.nfc s

/-! ### Lines -/

theorem isSpace_of_isInline {c : Char} (h : isInline c = true) : isSpace c = true := by
  simp only [isInline, Bool.or_eq_true, decide_eq_true_eq] at h
  rcases h with rfl | rfl <;> rfl

theorem isSpace_of_isBlank {c : Char} (h : isBlank c = true) : isSpace c = true := by
  simp only [isBlank, Bool.or_eq_true, decide_eq_true_eq] at h
  rcases h with (h | rfl) | rfl
  · exact isSpace_of_isInline h
  · rfl
  · rfl

theorem stripChars_oneSpace (cs : List Char) :
    stripChars (oneSpace cs) = oneSpace (stripChars cs) :=
  trim_squeeze (fun _ => isSpace_of_isInline) rfl 0 cs

theorem oneSpace_stripChars {cs : List Char} (h : oneSpace cs = cs) :
    oneSpace (stripChars cs) = stripChars cs :=
  squeeze_eq_part (trim_part isSpace cs) h

theorem oneSpace_oneSpace (cs : List Char) : oneSpace (oneSpace cs) = oneSpace cs :=
  squeeze_squeeze rfl 0 cs

theorem oneSpace_cleanLine (line : List Char) : oneSpace (cleanLine line) = cleanLine line :=
  oneSpace_stripChars (oneSpace_oneSpace line)

theorem stripChars_cleanLine (line : List Char) : stripChars (cleanLine line) = cleanLine line :=
  trim_trim isSpace _

theorem cleanLine_cleanLine (line : List Char) : cleanLine (cleanLine line) = cleanLine line := by
  conv_lhs => rw [cleanLine, oneSpace_cleanLine, stripChars_cleanLine]

/-- A carriage return at the end of a line is stripped with the line. -/
theorem cleanLine_concat (line : List Char) : cleanLine (line ++ ['\r']) = cleanLine line := by
  rw [cleanLine, oneSpace, squeeze_concat rfl]
  exact trim_concat rfl _

/-- The lines of a text, cleaned. -/
def cleanLines (text : List Char) : List (List Char) := (text.splitOn '\n').map cleanLine

/-- **Replacing CRLF changes no cleaned line.** -/
theorem cleanLines_replaceCrLf (text : List Char) :
    cleanLines (replaceCrLf text) = cleanLines text := by
  -- line by line, a carriage return at the end is gone
  have h : List.Forall₂ (fun l l' => l = l' ∨ l = l' ++ ['\r']) (text.splitOn '\n')
      ((replaceCrLf text).splitOn '\n') := by
    fun_induction replaceCrLf text with
    | case1 cs ih =>
      simpa [List.splitOn_cons_eq_if_modifyHead] using ih
    | case2 c cs hne ih =>
      rw [List.splitOn_cons_eq_if_modifyHead, List.splitOn_cons_eq_if_modifyHead]
      split_ifs
      · exact List.Forall₂.cons (Or.inl rfl) ih
      · revert ih
        generalize cs.splitOn '\n' = ls
        generalize (replaceCrLf cs).splitOn '\n' = ls'
        intro ih
        rcases ih with _ | ⟨hl, hls⟩
        · exact List.Forall₂.nil
        · exact List.Forall₂.cons (hl.imp (congrArg (c :: ·)) (congrArg (c :: ·))) hls
    | case3 => exact List.Forall₂.cons (Or.inl rfl) List.Forall₂.nil
  unfold cleanLines
  generalize text.splitOn '\n' = ls at h
  generalize (replaceCrLf text).splitOn '\n' = ls' at h
  induction h with
  | nil => rfl
  | cons hl _ ih =>
    rw [List.map_cons, List.map_cons, ih]
    rcases hl with rfl | rfl
    · rfl
    · rw [cleanLine_concat]

theorem stripChars_of_mem_cleanLines {text l : List Char} (h : l ∈ cleanLines text) :
    stripChars l = l := by
  obtain ⟨line, -, rfl⟩ := List.mem_map.mp h
  exact stripChars_cleanLine line

theorem newline_not_mem_cleanLine {text line : List Char} (h : line ∈ text.splitOn '\n') :
    '\n' ∉ cleanLine line := by
  intro hm
  have hm : '\n' ∈ oneSpace line := (trim_part isSpace _).subset hm
  rcases mem_squeeze hm with ⟨hm, -⟩ | ⟨hc, -⟩
  · exact not_mem_of_mem_splitOn h hm
  · cases hc

/-- **A multiline text tidied** is its cleaned lines, joined, without the blank ones at the ends and
with one of those between two others. -/
theorem fold_true (text : List Char) : fold true text =
    ['\n'].intercalate (squeeze List.isEmpty [] 1 0 (trim List.isEmpty (cleanLines text))) := by
  have hnl : ∀ l ∈ trim List.isEmpty (cleanLines text), ∀ c ∈ l, decide (c = '\n') = false := by
    intro l hl c hc
    obtain ⟨line, hline, rfl⟩ := List.mem_map.mp ((trim_part _ _).subset hl)
    exact decide_eq_false fun h => newline_not_mem_cleanLine hline (h ▸ hc)
  calc fold true text
      = stripChars (twoNewlines (['\n'].intercalate (cleanLines (replaceCrLf text)))) := rfl
    _ = twoNewlines (stripChars (['\n'].intercalate (cleanLines text))) := by
        rw [cleanLines_replaceCrLf]
        exact trim_squeeze (fun c h => by rw [of_decide_eq_true h]; rfl) rfl 0 _
    _ = twoNewlines (['\n'].intercalate (trim List.isEmpty (cleanLines text))) :=
        congrArg twoNewlines (trim_intercalate rfl fun _ => stripChars_of_mem_cleanLines)
    _ = _ := squeeze_intercalate rfl hnl (trim_trim _ _)

/-- The lines of a tidied text. -/
theorem mem_tidied_lines {text l : List Char}
    (h : l ∈ squeeze List.isEmpty [] 1 0 (trim List.isEmpty (cleanLines text))) :
    l ∈ cleanLines text ∨ l = [] := by
  rcases mem_squeeze h with ⟨h, -⟩ | ⟨h, -⟩
  · exact Or.inl ((trim_part _ _).subset h)
  · exact Or.inr h

/-! ### Tidying the white space -/

/-- What a tidied text consists of. -/
theorem mem_fold {multiline : Bool} {text : List Char} {c : Char} (h : c ∈ fold multiline text) :
    (c ∈ text ∧ isInline c = false ∧ c ≠ '\n' ∧ (multiline = false → c ≠ '\r')) ∨ c = ' ' ∨
      (multiline = true ∧ c = '\n') := by
  cases multiline with
  | false =>
    have h : c ∈ oneSpace (replaceBreaks text) := (trim_part isSpace _).subset h
    rcases mem_squeeze h with ⟨h, hi⟩ | ⟨rfl, -⟩
    · obtain ⟨d, hd, rfl⟩ := List.mem_map.mp h
      split_ifs at hi ⊢ with hb
      · cases hi
      · rw [not_or] at hb
        exact Or.inl ⟨hd, hi, hb.1, fun _ => hb.2⟩
    · exact Or.inr (Or.inl rfl)
  | true =>
    rw [fold_true] at h
    rcases mem_intercalate h with rfl | ⟨l, hl, hc⟩
    · exact Or.inr (Or.inr ⟨rfl, rfl⟩)
    · rcases mem_tidied_lines hl with hl | rfl
      · obtain ⟨line, hline, rfl⟩ := List.mem_map.mp hl
        have hn : c ≠ '\n' := fun he => newline_not_mem_cleanLine hline (he ▸ hc)
        have hc : c ∈ oneSpace line := (trim_part isSpace _).subset hc
        rcases mem_squeeze hc with ⟨hc, hi⟩ | ⟨rfl, -⟩
        · refine Or.inl ⟨?_, hi, hn, by simp⟩
          have hjoin : ['\n'].intercalate (text.splitOn '\n') = text :=
            List.intercalate_splitOn '\n'
          exact hjoin ▸ mem_intercalate_of_mem hline hc
        · exact Or.inr (Or.inl rfl)
      · simp at hc

/-- A carriage return is left in a multiline text when one stands within a line. -/
theorem return_mem_fold {text : List Char} :
    '\r' ∈ fold true text ↔ ∃ line ∈ text.splitOn '\n', '\r' ∈ stripChars line := by
  rw [fold_true]
  constructor
  · intro h
    rcases mem_intercalate h with h | ⟨l, hl, hc⟩
    · cases h
    · rcases mem_tidied_lines hl with hl | rfl
      · obtain ⟨line, hline, rfl⟩ := List.mem_map.mp hl
        refine ⟨line, hline, ?_⟩
        rw [cleanLine, stripChars_oneSpace] at hc
        rcases mem_squeeze hc with ⟨hc, -⟩ | ⟨hc, -⟩
        · exact hc
        · cases hc
      · simp at hc
  · rintro ⟨line, hline, hc⟩
    have hc : '\r' ∈ cleanLine line := by
      rw [cleanLine, stripChars_oneSpace]
      exact mem_squeeze_of_neg hc rfl
    -- the line is not empty, so it stays
    have hne : (cleanLine line).isEmpty = false :=
      List.isEmpty_eq_false_iff.mpr (List.ne_nil_of_mem hc)
    exact mem_intercalate_of_mem
      (mem_squeeze_of_neg (mem_trim_of_neg (List.mem_map_of_mem hline) hne) hne) hc

theorem stripChars_fold (multiline : Bool) (text : List Char) :
    stripChars (fold multiline text) = fold multiline text := by
  cases multiline <;> exact trim_trim isSpace _

theorem oneSpace_fold (multiline : Bool) (text : List Char) :
    oneSpace (fold multiline text) = fold multiline text := by
  cases multiline with
  | false => exact oneSpace_stripChars (oneSpace_oneSpace _)
  | true =>
    rw [fold_true]
    refine squeeze_intercalate_of_neg rfl fun l hl => ?_
    rcases mem_tidied_lines hl with hl | rfl
    · obtain ⟨line, -, rfl⟩ := List.mem_map.mp hl
      exact oneSpace_cleanLine line
    · rfl

theorem twoNewlines_fold (text : List Char) : twoNewlines (fold true text) = fold true text :=
  squeeze_eq_part (trim_part isSpace _) (squeeze_squeeze rfl 0 _)

/-- **Tidying is idempotent.** -/
theorem fold_fold (multiline : Bool) (text : List Char) :
    fold multiline (fold multiline text) = fold multiline text := by
  cases multiline with
  | false =>
    -- there is no line break to replace, and nothing to squeeze or to strip
    have hb : replaceBreaks (fold false text) = fold false text := by
      refine (List.map_congr_left fun c hc => ?_).trans (List.map_id _)
      rcases mem_fold hc with ⟨-, -, hn, hr⟩ | rfl | ⟨h, -⟩
      · rw [if_neg (by simp [hn, hr]), id]
      · rfl
      · cases h
    conv_lhs => rw [fold, hb, oneSpace_fold, stripChars_fold]
  | true =>
    conv_lhs => rw [fold_true]
    rw [fold_true text]
    generalize hls : squeeze List.isEmpty [] 1 0 (trim List.isEmpty (cleanLines text)) = ls
    rcases eq_or_ne ls [] with rfl | hne
    · rfl
    have hmem : ∀ l ∈ ls, l ∈ cleanLines text ∨ l = [] := fun l hl => mem_tidied_lines (hls ▸ hl)
    have hnl : ∀ l ∈ ls, '\n' ∉ l := by
      intro l hl
      rcases hmem l hl with h | rfl
      · obtain ⟨line, hline, rfl⟩ := List.mem_map.mp h
        exact newline_not_mem_cleanLine hline
      · simp
    have hclean : ls.map cleanLine = ls := by
      refine List.map_congr_left (fun l hl => ?_) |>.trans (List.map_id ls)
      rcases hmem l hl with h | rfl
      · obtain ⟨line, -, rfl⟩ := List.mem_map.mp h
        exact cleanLine_cleanLine line
      · rfl
    rw [cleanLines, List.splitOn_intercalate '\n' hnl hne, hclean, ← hls,
      trim_squeeze (fun _ h => h) rfl, trim_trim, squeeze_squeeze rfl]

/-! ### Words -/

theorem tokens_stripChars (text : List Char) : tokens (stripChars text) = tokens text :=
  words_trim text

theorem tokens_oneSpace (text : List Char) : tokens (oneSpace text) = tokens text :=
  words_squeeze (fun c h => by simp [isBlank, h]) rfl (by omega) text

theorem tokens_replaceBreaks (text : List Char) : tokens (replaceBreaks text) = tokens text := by
  refine words_map (fun c => ?_) (fun c hc => ?_) text
  · split_ifs with h
    · rcases h with rfl | rfl <;> rfl
    · rfl
  · refine if_neg fun h => ?_
    rcases h with rfl | rfl <;> cases hc

/-- **Tidying keeps the words.** -/
theorem tokens_fold (multiline : Bool) (text : List Char) :
    tokens (fold multiline text) = tokens text := by
  cases multiline with
  | false => rw [fold, tokens_stripChars, tokens_oneSpace, tokens_replaceBreaks]
  | true =>
    calc tokens (fold true text)
        = tokens (twoNewlines (['\n'].intercalate (cleanLines text))) := by
          rw [← cleanLines_replaceCrLf]; exact tokens_stripChars _
      _ = tokens (['\n'].intercalate (cleanLines text)) :=
          words_squeeze (fun c h => by rw [of_decide_eq_true h]; rfl) rfl (by omega) _
      _ = (cleanLines text).flatMap tokens := words_intercalate rfl _
      _ = (text.splitOn '\n').flatMap tokens := by
          rw [cleanLines, List.flatMap_map]
          congr 1
          funext line
          rw [cleanLine, tokens_stripChars, tokens_oneSpace]
      _ = tokens text := by
          have hsplit := words_intercalate (s := '\n') (b := isBlank) (q := isSpace) rfl
            (text.splitOn '\n')
          rw [List.intercalate_splitOn] at hsplit
          exact hsplit.symm

section Documented

variable {lib : TextLibrary} (h : lib.Documented)
include h

/-- The marks are those of the text in NFC. -/
theorem source_marked (text : List Char) : source (marked lib text) = lib.nfc text :=
  source_weave (h.source_tagMarks _)

/-- A code point without the tags was there, or is a semicolon. -/
theorem mem_stripTags {s : List Char} {c : Char} (hc : c ∈ lib.stripTags s) :
    c ∈ s ∨ (c = ';' ∧ '&' ∈ s) := by
  refine (mem_left hc).imp (fun hs => ?_) (h.added s c)
  rwa [h.source_tagMarks] at hs

theorem nfc_singleton {c : Char} (hc : c.toNat < 128) : lib.nfc [c] = [c] :=
  h.nfc_ascii [c] fun d hd => by rw [List.mem_singleton.mp hd]; exact hc

/-- A text whose white space is in NFC is in NFC when its words are. -/
theorem nfc_iff_tokens {text : List Char}
    (hs : ∀ c ∈ text, isSpace c = true → lib.nfc [c] = [c]) :
    lib.nfc text = text ↔ ∀ w ∈ tokens text, lib.nfc w = w := by
  refine (forall_words_iff (P := fun s => lib.nfc s = s) text (fun c hc hb s t => ?_) h.nfc_part
    (h.nfc_ascii [] (by simp))).symm
  have hspace : isSpace c = true := hb.elim isSpace_of_isBlank id
  exact h.nfc_space c hspace (hs c hc hspace) s t

/-- **Tidying neither makes nor breaks the normal form.** -/
theorem nfc_fold_iff {text : List Char} (hs : ∀ c ∈ text, isSpace c = true → lib.nfc [c] = [c])
    (multiline : Bool) :
    lib.nfc (fold multiline text) = fold multiline text ↔ lib.nfc text = text := by
  rw [nfc_iff_tokens h hs, nfc_iff_tokens h, tokens_fold]
  intro c hc hspace
  rcases mem_fold hc with ⟨hc, -⟩ | rfl | ⟨-, rfl⟩
  · exact hs c hc hspace
  · exact nfc_singleton h (by decide)
  · exact nfc_singleton h (by decide)

/-- What is left of a text once it is normalised, without control characters and tags. -/
theorem mem_stripped {text : List Char} {c : Char} (hc : c ∈ stripped lib text) :
    (c ∈ lib.nfc text ∧ isControl c = false) ∨ c = ';' := by
  refine (mem_stripTags h hc).imp (fun hc => ?_) And.left
  simpa using List.mem_filter.mp hc

theorem not_isControl_of_mem_stripped {text : List Char} {c : Char} (hc : c ∈ stripped lib text) :
    isControl c = false := by
  rcases mem_stripped h hc with ⟨-, hc⟩ | rfl
  · exact hc
  · rfl

theorem nfc_space_stripped {text : List Char} {c : Char} (hc : c ∈ stripped lib text)
    (hspace : isSpace c = true) : lib.nfc [c] = [c] := by
  rcases mem_stripped h hc with ⟨hc, -⟩ | rfl
  · -- a part of a text in NFC
    obtain ⟨s, t, he⟩ := List.append_of_mem hc
    exact h.nfc_part [c] (lib.nfc text) ⟨s, t, by simp [he]⟩ (h.nfc_nfc text)
  · cases hspace

theorem not_isControl_of_mem_cleanChars {multiline : Bool} {text : List Char} {c : Char}
    (hc : c ∈ cleanChars lib multiline text) : isControl c = false := by
  rcases mem_fold hc with ⟨hc, -⟩ | rfl | ⟨-, rfl⟩
  · exact not_isControl_of_mem_stripped h hc
  · rfl
  · rfl

/-- No tag is found in a cleaned text. -/
theorem stripTags_cleanChars (multiline : Bool) (text : List Char) :
    lib.stripTags (cleanChars lib multiline text) = cleanChars lib multiline text :=
  h.stripTags_respaced (stripped lib text) _ (tokens_fold ..).symm (stripChars_fold ..)
    (h.stripTags_stripTags _)

/-- Cleaning a cleaned text changes nothing when it is in NFC. -/
theorem cleanChars_cleanChars {multiline : Bool} {text : List Char}
    (hnfc : lib.nfc (cleanChars lib multiline text) = cleanChars lib multiline text) :
    cleanChars lib multiline (cleanChars lib multiline text) = cleanChars lib multiline text := by
  have hcontrol : (cleanChars lib multiline text).filter (fun c => !isControl c) =
      cleanChars lib multiline text := by
    refine List.filter_eq_self.mpr fun c hc => ?_
    rw [not_isControl_of_mem_cleanChars h hc]
    rfl
  have hstripped :
      stripped lib (cleanChars lib multiline text) = cleanChars lib multiline text := by
    rw [stripped, hnfc, hcontrol]
    exact stripTags_cleanChars h multiline text
  conv_lhs => rw [cleanChars, hstripped, cleanChars, fold_fold]
  rfl

end Documented

/-! ### Cleaning again -/

section Again

variable {lib : TextLibrary} (h : lib.DocumentedAgain)
include h

/-- **NFC rewrites a text between its white space.** -/
theorem respells_nfc : Respells isSpace (fun c => lib.nfc [c] = [c]) lib.nfc where
  eq_nil s := ⟨h.nfc_eq_nil s, fun hs => by rw [hs]; exact h.nfc_ascii [] (by simp)⟩
  join s c t hc hn := h.nfc_join c hc hn s t
  run s hs := h.nfc_run s hs

variable {text : List Char} (hs : ∀ c ∈ text, isSpace c = true → lib.nfc [c] = [c])
include hs

theorem nfc_cleanLine : cleanLine (lib.nfc text) = lib.nfc (cleanLine text) := by
  have hspace : lib.nfc [' '] = [' '] := nfc_singleton h.toDocumented (by decide)
  have hsqueeze : oneSpace (lib.nfc text) = lib.nfc (oneSpace text) :=
    squeeze_respell (respells_nfc h) (fun _ => isSpace_of_isInline) rfl hspace (by omega) hs
  rw [cleanLine, cleanLine, hsqueeze]
  refine trim_respell (respells_nfc h) fun c hc hc' => ?_
  rcases mem_squeeze hc with ⟨hc, -⟩ | ⟨rfl, -⟩
  · exact hs c hc hc'
  · exact hspace

/-- **Tidying a multiline text, in NFC or before**, comes to the same. -/
theorem nfc_fold : lib.nfc (fold true text) = fold true (lib.nfc text) := by
  have hnewline : lib.nfc ['\n'] = ['\n'] := nfc_singleton h.toDocumented (by decide)
  have hlines : cleanLines (lib.nfc text) = (cleanLines text).map lib.nfc := by
    rw [cleanLines, splitOn_respell (respells_nfc h) rfl hnewline hs, cleanLines, List.map_map,
      List.map_map]
    refine List.map_congr_left fun line hline => ?_
    exact nfc_cleanLine h fun c hc => hs c ((infix_of_mem_splitOn hline).subset hc)
  rw [fold_true, fold_true, hlines, trim_map_respell (respells_nfc h),
    squeeze_map_respell (respells_nfc h), intercalate_respell (respells_nfc h) rfl hnewline]

omit hs in
/-- **A multiline text cleaned again** is the NFC of what was left of it, tidied. -/
theorem cleanChars_again (text : List Char) :
    cleanChars lib true (cleanChars lib true text) = fold true (lib.nfc (stripped lib text)) := by
  have hcontrol : (lib.nfc (cleanChars lib true text)).filter (fun c => !isControl c) =
      lib.nfc (cleanChars lib true text) := by
    refine List.filter_eq_self.mpr fun c hc => ?_
    rw [h.nfc_control _ (fun d hd => not_isControl_of_mem_cleanChars h.toDocumented hd) c hc]
    rfl
  have hstripped :
      stripped lib (cleanChars lib true text) = lib.nfc (cleanChars lib true text) := by
    rw [stripped, hcontrol, h.stripTags_nfc _ (stripTags_cleanChars h.toDocumented true text)]
  have hspaces : ∀ c ∈ stripped lib text, isSpace c = true → lib.nfc [c] = [c] := fun c =>
    nfc_space_stripped h.toDocumented
  conv_lhs => rw [cleanChars, hstripped, cleanChars, nfc_fold h hspaces, fold_fold]

end Again

/-! ### The normal form -/

/-- A C0 or C1 control character, or DEL. -/
def isC0C1 (c : Char) : Bool := c.toNat ≤ 0x1f || (0x7f ≤ c.toNat && c.toNat ≤ 0x9f)

/-- Of the control characters that are kept, three are C0 ones. -/
theorem eq_of_isC0C1 {c : Char} (hc : isC0C1 c = true) (hk : isControl c = false) :
    c = '\t' ∨ c = '\n' ∨ c = '\r' := by
  have hn : c.toNat = 9 ∨ c.toNat = 10 ∨ c.toNat = 13 := by
    simp only [isC0C1, Bool.or_eq_true, Bool.and_eq_true, decide_eq_true_eq] at hc
    simp only [isControl, Bool.or_eq_false_iff, Bool.and_eq_false_iff,
      decide_eq_false_iff_not] at hk
    omega
  rw [← Char.ofNat_toNat c]
  rcases hn with h | h | h <;> simp [h]

/-- **The normal form.** -/
structure NormalForm (lib : TextLibrary) (multiline : Bool) (text : List Char) : Prop where
  nfc : lib.nfc text = text
  controls : ∀ c ∈ text, isC0C1 c = true → multiline = true ∧ c = '\n'
  leading : ∀ c, text.head? = some c → isSpace c = false
  trailing : ∀ c, text.getLast? = some c → isSpace c = false
  spaces : ¬ [' ', ' '] <:+: text
  newlines : multiline = true → ¬ ['\n', '\n', '\n'] <:+: text

/-- What is left of a stretch of the text, code points that have come to stand side by side. -/
def Leaves (lib : TextLibrary) (text part : List Char) : Prop :=
  ∃ ms, ms <:+: marked lib text ∧ left ms = part

/-- **A text that settles**: where something is dropped or added, it leaves no code points side by
side that NFC changes, and, when it is a multiline one, no carriage return in a line between two
code points that are not white space. -/
structure Settled (lib : TextLibrary) (multiline : Bool) (text : List Char) : Prop where
  composed : ∀ ms, ms <:+: marked lib text → Altered ms →
    ¬ Least (fun s => lib.nfc s = s) (left ms)
  returns : multiline = true → ∀ a xs ys b, isSpace a = false → isSpace b = false →
    '\n' ∉ xs → '\n' ∉ ys → ¬ Leaves lib text (a :: (xs ++ '\r' :: (ys ++ [b])))

theorem left_marked (lib : TextLibrary) (text : List Char) :
    left (marked lib text) = stripped lib text := left_weave _ _ _

theorem leaves_iff {lib : TextLibrary} {text part : List Char} :
    Leaves lib text part ↔ part <:+: stripped lib text := by
  rw [← left_marked]
  exact infix_left_iff.symm

/-- A carriage return stands within a line when it does so between two code points of the line. -/
theorem return_mem_line_iff {text : List Char} :
    (∃ line ∈ text.splitOn '\n', '\r' ∈ stripChars line) ↔
      ∃ a xs ys b, isSpace a = false ∧ isSpace b = false ∧ '\n' ∉ xs ∧ '\n' ∉ ys ∧
        a :: (xs ++ '\r' :: (ys ++ [b])) <:+: text := by
  have hnewline : ∀ c, isSpace c = false → '\n' ≠ c := by
    rintro c hc rfl
    cases hc
  constructor
  · rintro ⟨line, hline, hr⟩
    obtain ⟨a, xs, ys, b, ha, hb, hpart⟩ := (mem_trim_iff (q := isSpace) rfl).mp hr
    have hnot := not_mem_of_mem_splitOn hline
    have hnot' : '\n' ∉ a :: (xs ++ '\r' :: (ys ++ [b])) := fun hm => hnot (hpart.subset hm)
    simp only [List.mem_cons, List.mem_append, not_or] at hnot'
    exact ⟨a, xs, ys, b, ha, hb, hnot'.2.1, hnot'.2.2.2.1,
      hpart.trans (infix_of_mem_splitOn hline)⟩
  · rintro ⟨a, xs, ys, b, ha, hb, hxs, hys, hpart⟩
    have hnot : '\n' ∉ a :: (xs ++ '\r' :: (ys ++ [b])) := by
      simp [hxs, hys, hnewline a ha, hnewline b hb]
    obtain ⟨line, hline, hpart⟩ := exists_mem_splitOn_of_infix hnot hpart
    exact ⟨line, hline, (mem_trim_iff (q := isSpace) rfl).mpr ⟨a, xs, ys, b, ha, hb, hpart⟩⟩

/-- **What settles comes out** in NFC, and without a carriage return within a line. -/
theorem settled_iff {lib : TextLibrary} (h : lib.Documented) {multiline : Bool} {text : List Char} :
    Settled lib multiline text ↔ lib.nfc (stripped lib text) = stripped lib text ∧
      (multiline = true → ∀ line ∈ (stripped lib text).splitOn '\n', '\r' ∉ stripChars line) := by
  have hnfc : lib.nfc (stripped lib text) = stripped lib text ↔
      ∀ ms, ms <:+: marked lib text → Altered ms → ¬ Least (fun s => lib.nfc s = s) (left ms) := by
    rw [← left_marked, iff_forall_least h.nfc_part]
    constructor
    · exact fun hnone ms hms _ hleast => hnone _ hleast (infix_left_iff.mpr ⟨ms, hms, rfl⟩)
    · intro hnone part hleast hpart
      obtain ⟨ms, hms, rfl⟩ := infix_left_iff.mp hpart
      refine hnone ms hms ?_ hleast
      -- a stretch of the normalised text is in NFC
      by_contra hkept
      have hnormal := h.nfc_part _ _ (source_stretch hms)
      rw [source_marked h, ← left_eq_source hkept] at hnormal
      exact hleast.not (hnormal (h.nfc_nfc text))
  have hreturns : (∀ line ∈ (stripped lib text).splitOn '\n', '\r' ∉ stripChars line) ↔
      ∀ a xs ys b, isSpace a = false → isSpace b = false → '\n' ∉ xs → '\n' ∉ ys →
        ¬ Leaves lib text (a :: (xs ++ '\r' :: (ys ++ [b]))) := by
    simp only [leaves_iff]
    constructor
    · intro hline a xs ys b ha hb hxs hys hpart
      obtain ⟨line, hl, hr⟩ := return_mem_line_iff.mpr ⟨a, xs, ys, b, ha, hb, hxs, hys, hpart⟩
      exact hline line hl hr
    · intro hnone line hl hr
      obtain ⟨a, xs, ys, b, ha, hb, hxs, hys, hpart⟩ := return_mem_line_iff.mp ⟨line, hl, hr⟩
      exact hnone a xs ys b ha hb hxs hys hpart
  rw [hnfc, hreturns]
  exact ⟨fun hs => ⟨hs.composed, hs.returns⟩, fun hs => ⟨hs.1, hs.2⟩⟩

/-- Of the control characters a text keeps the newlines, when it is a multiline one without a
carriage return in a line. -/
theorem controls_cleanChars {lib : TextLibrary} (h : lib.Documented) {multiline : Bool}
    {text : List Char}
    (hr : multiline = true → ∀ line ∈ (stripped lib text).splitOn '\n', '\r' ∉ stripChars line)
    {c : Char} (hc : c ∈ cleanChars lib multiline text) (hcontrol : isC0C1 c = true) :
    multiline = true ∧ c = '\n' := by
  rcases mem_fold hc with ⟨hm, hi, hn, hcr⟩ | rfl | ⟨hm, rfl⟩
  · have hk := not_isControl_of_mem_stripped h hm
    rcases eq_of_isC0C1 hcontrol hk with rfl | rfl | rfl
    · cases hi
    · exact absurd rfl hn
    · -- a carriage return, so the text is a multiline one with it in a line
      cases multiline with
      | false => exact absurd rfl (hcr rfl)
      | true =>
        obtain ⟨line, hline, hmem⟩ := return_mem_fold.mp hc
        exact absurd hmem (hr rfl line hline)
  · cases hcontrol
  · exact ⟨hm, rfl⟩

theorem normalForm_cleanChars {lib : TextLibrary} (h : lib.Documented) {multiline : Bool}
    {text : List Char}
    (hnfc : lib.nfc (cleanChars lib multiline text) = cleanChars lib multiline text)
    (hr : multiline = true → ∀ line ∈ (stripped lib text).splitOn '\n', '\r' ∉ stripChars line) :
    NormalForm lib multiline (cleanChars lib multiline text) where
  nfc := hnfc
  controls _ hc hcontrol := controls_cleanChars h hr hc hcontrol
  leading c hc := by
    obtain ⟨t, he⟩ := List.head?_eq_some_iff.mp hc
    exact head_trim ((stripChars_fold multiline _).trans he)
  trailing c hc := by
    obtain ⟨t, he⟩ := List.getLast?_eq_some_iff.mp hc
    exact last_trim ((stripChars_fold multiline _).trans he)
  spaces := not_replicate_infix (n := 1) (c := ' ') rfl (oneSpace_fold multiline _)
  newlines hm := by
    subst hm
    exact not_replicate_infix (n := 2) (c := '\n') rfl (twoNewlines_fold _)

/-- **When a cleaned text is in normal form and cleaning it again changes nothing.** -/
theorem cleanText_normal_iff (lib : TextLibrary) (h : lib.Documented) (multiline : Bool)
    (value : String) :
    (NormalForm lib multiline (cleanText lib multiline (some value)).toList ∧
      cleanText lib multiline (some (cleanText lib multiline (some value))) =
        cleanText lib multiline (some value)) ↔
    Settled lib multiline value.toList := by
  generalize ht : value.toList = text
  simp only [cleanText, ht, String.toList_ofList, String.ofList_inj]
  have hnfc := nfc_fold_iff h (fun c => @nfc_space_stripped lib h text c) multiline
  rw [settled_iff h]
  constructor
  · rintro ⟨hn, -⟩
    refine ⟨hnfc.mp hn.nfc, ?_⟩
    rintro rfl line hline hr
    -- a carriage return would be a control character of the cleaned text
    obtain ⟨-, he⟩ := hn.controls '\r' (return_mem_fold.mpr ⟨line, hline, hr⟩) rfl
    cases he
  · rintro ⟨hs, hr⟩
    exact ⟨normalForm_cleanChars h (hnfc.mpr hs) hr, cleanChars_cleanChars h (hnfc.mpr hs)⟩

/-! What a letter e and a combining acute accent come to. -/

/-- An e with an acute accent after it, composed. -/
def composeE : List Char → List Char
  | 'e' :: '\u0301' :: cs => '\u00e9' :: composeE cs
  | c :: cs => c :: composeE cs
  | [] => []

/-- Normalisation as far as that pair goes, and texts without tags. -/
def acute : TextLibrary := ⟨composeE, List.map .keep⟩

theorem length_composeE_le (cs : List Char) : (composeE cs).length ≤ cs.length := by
  fun_induction composeE cs with
  | case1 cs ih => simp only [List.length_cons]; omega
  | case2 c cs _ ih => simp only [List.length_cons]; omega
  | case3 => exact le_rfl

theorem composeE_append_cons {c : Char} (hc : c ≠ '\u0301') (s t : List Char) :
    composeE (s ++ c :: t) = composeE s ++ composeE (c :: t) := by
  fun_induction composeE s with
  | case1 cs ih => simp [composeE, ih]
  | case2 d cs hne ih =>
    rw [List.cons_append, composeE, ih, List.cons_append]
    rintro u rfl hu
    rcases cs with _ | ⟨x, cs⟩
    · exact hc (List.cons.inj hu).1
    · exact hne cs rfl (by rw [(List.cons.inj hu).1])
  | case3 => rfl

/-- The composed texts are those without the pair. -/
theorem composeE_eq_self_iff {cs : List Char} :
    composeE cs = cs ↔ ¬ ['e', '\u0301'] <:+: cs := by
  constructor
  · rintro h ⟨s, t, rfl⟩
    have hlen := congrArg List.length h
    rw [List.append_assoc, List.cons_append, composeE_append_cons (by decide)] at hlen
    have := length_composeE_le s
    have := length_composeE_le t
    simp only [List.cons_append, List.nil_append, composeE, List.length_append,
      List.length_cons] at hlen
    omega
  · intro h
    fun_induction composeE cs with
    | case1 cs ih => exact absurd ⟨[], cs, rfl⟩ h
    | case2 c cs _ ih => rw [ih fun hi => h (hi.trans (List.suffix_cons c cs).isInfix)]
    | case3 => rfl

/-- An accent that a composed text begins with is not new. -/
theorem of_composeE_eq_cons {cs t : List Char} (h : composeE cs = '\u0301' :: t) :
    ∃ u, cs = '\u0301' :: u := by
  fun_cases composeE cs with
  | case1 cs => rw [composeE] at h; simp at h
  | case2 c cs hne =>
    rw [composeE.eq_2 c cs hne] at h
    exact ⟨cs, by rw [(List.cons.inj h).1]⟩
  | case3 => simp [composeE] at h

theorem acute_documented : acute.Documented where
  nfc_nfc s := by
    show composeE (composeE s) = composeE s
    fun_induction composeE s with
    | case1 cs ih => rw [composeE, ih]; simp
    | case2 c cs hne ih =>
      rw [composeE, ih]
      rintro u rfl hu
      obtain ⟨v, rfl⟩ := of_composeE_eq_cons hu
      exact hne v rfl rfl
    | case3 => rfl
  nfc_part s t hst ht :=
    composeE_eq_self_iff.mpr fun h => composeE_eq_self_iff.mp ht (h.trans hst)
  nfc_ascii s hs := composeE_eq_self_iff.mpr fun h => by
    have := hs '\u0301' (h.subset (by simp))
    simp at this
  nfc_space c hc _ s t hs ht := by
    have hne : ∀ d : Char, isSpace d = false → c ≠ d := fun d hd he => by simp [← he, hc] at hd
    show composeE (s ++ c :: t) = s ++ c :: t
    rw [composeE_append_cons (hne _ rfl), composeE.eq_2 c t fun _ h _ => hne 'e' rfl h,
      show composeE s = s from hs, show composeE t = t from ht]
  source_tagMarks := source_map_keep
  added s c hc := by
    obtain ⟨d, -, hd⟩ := List.mem_map.mp hc
    cases hd
  stripTags_stripTags s := by simp [TextLibrary.stripTags, acute]
  stripTags_respaced _ t _ _ _ := left_map_keep t

/-- **Two texts cleaned**: paragraphs, which come out in normal form, … -/
theorem cleanText_normal_iff_paragraphs :
    NormalForm acute true (cleanText acute true (some " e\u0301  a\r\n\n\n b ")).toList ∧
      cleanText acute true (some (cleanText acute true (some " e\u0301  a\r\n\n\n b "))) =
        cleanText acute true (some " e\u0301  a\r\n\n\n b ") :=
  (cleanText_normal_iff acute acute_documented true " e\u0301  a\r\n\n\n b ").mpr
    ((settled_iff acute_documented).mpr (by decide))

/-- … and two that do not: a letter parted from its accent, and a carriage return within a line. -/
theorem parted_accent : acute.Documented ∧
    ¬ NormalForm acute false (cleanText acute false (some "e\u0007\u0301")).toList ∧
    cleanText acute false (some (cleanText acute false (some "e\u0007\u0301"))) ≠
      cleanText acute false (some "e\u0007\u0301") ∧
    ¬ NormalForm acute true (cleanText acute true (some "a\rb")).toList := by
  refine ⟨acute_documented, fun h => ?_, by decide, fun h => ?_⟩
  · have := h.nfc
    revert this
    decide
  · have := h.controls '\r' (by decide) rfl
    revert this
    decide

end KwAwards.Common.Text
