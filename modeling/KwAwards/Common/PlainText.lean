import KwAwards.Common.Text
import KwAwards.Common.Fields
import KwAwards.Common.Exceptions
import KwAwards.Lib.Respell

/-! # The length of cleaned text

`PlainTextMixin.validate` (`validate`) cleans the listed fields of a serializer after
`CharField.run` has checked their lengths, and checks again that they are not blank, but not how
long they are. The size that a text comes to is told from its marks (`size`): NFC may have more code
points than the text, the tag stripper adds semicolons, and control characters, tags and surplus
white space go. A text that is cleaned again comes to the size of the NFC of what is left
(`sizeAgain`), which may be longer still. An accepted payload fits exactly when its texts come to no
more than their fields allow (`accept_fits_iff`). -/

namespace KwAwards.Common.PlainText

open KwAwards.Lib.Words KwAwards.Lib.Marks KwAwards.Common.Str KwAwards.Common.Text
open KwAwards.Common.Fields KwAwards.Common.Exceptions

/-! ### What cleaning does to a length -/

/-- A line of nothing but white space. -/
def blankLine (line : List Char) : Bool := line.all isSpace

/-- How many characters go when the white space is tidied: the white space at the ends and the
blanks after the first of their run; line by line in a multiline text, where blank lines go
likewise. -/
def spareBlanks : Bool → List Char → ℕ
  | true, text =>
    let lines := text.splitOn '\n'
    (lines.map (spare isInline isSpace)).sum + min (lines.length - 1)
      (spare blankLine blankLine lines)
  | false, text => spare isBlank isSpace text

/-- Replacing the line breaks before the blanks are squeezed squeezes them with the blanks. -/
theorem oneSpace_replaceBreaks (text : List Char) :
    oneSpace (replaceBreaks text) = squeeze isBlank ' ' 1 0 text := by
  have h : ∀ k, squeeze isInline ' ' 1 k (replaceBreaks text) = squeeze isBlank ' ' 1 k text := by
    induction text with
    | nil => intro k; rfl
    | cons c text ih =>
      intro k
      have hb : isInline (if c = '\n' ∨ c = '\r' then ' ' else c) = isBlank c := by
        by_cases hc : c = '\n' ∨ c = '\r'
        · rw [if_pos hc]; rcases hc with rfl | rfl <;> rfl
        · rw [not_or] at hc
          simp [isBlank, hc]
      rw [replaceBreaks, List.map_cons, ← replaceBreaks]
      cases hi : isBlank c with
      | true =>
        by_cases hk : k < 1
        · rw [squeeze_cons_lt (hb.trans hi) hk, squeeze_cons_lt hi hk, ih]
        · rw [squeeze_cons_ge (hb.trans hi) hk, squeeze_cons_ge hi hk, ih]
      | false =>
        rw [squeeze_cons_neg (hb.trans hi), squeeze_cons_neg hi, ih, if_neg]
        rintro (rfl | rfl) <;> cases hi
  exact h 0

theorem length_cleanLine (line : List Char) :
    (cleanLine line).length + spare isInline isSpace line = line.length := by
  rw [cleanLine, stripChars_oneSpace]
  exact length_squeeze_trim_add_spare ' ' line

/-- A line is empty once cleaned when it is blank. -/
theorem isEmpty_cleanLine (line : List Char) : (cleanLine line).isEmpty = blankLine line := by
  rw [Bool.eq_iff_iff, List.isEmpty_iff, cleanLine, stripChars_oneSpace, oneSpace,
    squeeze_eq_nil_iff (by omega), blankLine, List.all_eq_true]
  exact trim_eq_nil_iff

/-- **What tidying drops.** -/
theorem length_fold (multiline : Bool) (text : List Char) :
    (fold multiline text).length + spareBlanks multiline text = text.length := by
  cases multiline with
  | false =>
    rw [fold, oneSpace_replaceBreaks, show stripChars (squeeze isBlank ' ' 1 0 text) =
      squeeze isBlank ' ' 1 0 (trim isSpace text) from
        trim_squeeze (fun _ => isSpace_of_isBlank) rfl 0 text]
    exact length_squeeze_trim_add_spare ' ' text
  | true =>
    -- the lines that are left, and the characters in them
    have hkept := length_squeeze_trim_add_spare (p := List.isEmpty) (q := List.isEmpty) []
      (cleanLines text)
    rw [cleanLines, spare_map, show List.isEmpty ∘ cleanLine = blankLine from
      funext isEmpty_cleanLine, List.length_map] at hkept
    have hchars : ((squeeze List.isEmpty [] 1 0 (trim List.isEmpty (cleanLines text))).map
        List.length).sum = ((cleanLines text).map List.length).sum := by
      rw [← List.length_flatten, flatten_squeeze, flatten_trim, List.length_flatten]
    have hspare : ((cleanLines text).map List.length).sum +
        ((text.splitOn '\n').map (spare isInline isSpace)).sum =
          ((text.splitOn '\n').map List.length).sum := by
      rw [cleanLines, List.map_map, ← List.sum_map_add]
      exact congrArg List.sum (List.map_congr_left fun line _ => length_cleanLine line)
    have htext := length_intercalate (s := '\n') (text.splitOn '\n')
    rw [List.intercalate_splitOn] at htext
    have hpos : 0 < (text.splitOn '\n').length :=
      List.length_pos_iff.mpr (List.splitOn_ne_nil '\n' text)
    rw [fold_true, length_intercalate, hchars, spareBlanks]
    simp only [cleanLines] at *
    omega

section Sizes

variable (lib : TextLibrary)

/-- How many code points are left of a text: those of its NFC and those that are added, but for the
dropped ones. -/
def kept (text : List Char) : ℤ :=
  (lib.nfc text).length + (marked lib text).countP Mark.isAdd - (marked lib text).countP Mark.isDrop

/-- **The size a text comes to**: what is left, without the surplus white space. -/
def size (multiline : Bool) (text : List Char) : ℤ :=
  kept lib text - spareBlanks multiline (left (marked lib text))

/-- **The size a multiline text comes to when it is cleaned again**: what is left is in NFC then. -/
def sizeAgain (text : List Char) : ℤ :=
  (lib.nfc (left (marked lib text))).length - spareBlanks true (lib.nfc (left (marked lib text)))

variable {lib}

theorem length_left_marked (h : lib.Documented) (text : List Char) :
    ((left (marked lib text)).length : ℤ) = kept lib text := by
  have hlen := length_left (marked lib text)
  rw [source_marked h] at hlen
  rw [kept]
  omega

/-- **The length of a cleaned text.** -/
theorem length_cleanChars (h : lib.Documented) (multiline : Bool) (text : List Char) :
    ((cleanChars lib multiline text).length : ℤ) = size lib multiline text := by
  have hfold := length_fold multiline (stripped lib text)
  rw [cleanChars, size, ← length_left_marked h, left_marked]
  omega

/-- … and of one that is cleaned again. -/
theorem length_cleanChars_again (h : lib.DocumentedAgain) (text : List Char) :
    ((cleanChars lib true (cleanChars lib true text)).length : ℤ) = sizeAgain lib text := by
  have hfold := length_fold true (lib.nfc (stripped lib text))
  rw [cleanChars_again h, sizeAgain, left_marked]
  omega

end Sizes

/-! ### The mixin -/

/-- The texts of a payload, by the name of their field; `none` is a field that is not in it. -/
abbrev Attrs := String → Option String

/-- **A serializer with the mixin**: its text fields, those it lists, and those of the multiline
ones that its own `validate` cleans once more. -/
structure PlainTextSerializer where
  fields : List (String × CharField)
  plainTextFields : List String
  multilineFields : List String := []
  cleansAgain : List String := []
  distinct : (plainTextFields ++ multilineFields).Nodup := by decide
  declared : ∀ name ∈ plainTextFields ++ multilineFields, (fields.lookup name).isSome = true := by
    decide
  again : ∀ name ∈ cleansAgain, name ∈ multilineFields ∧
    (fields.lookup name).any CharField.allowBlank = true := by decide

/-- `NominationSubmitSerializer`. -/
def nominationSubmitSerializer : PlainTextSerializer where
  fields := [("name", { maxLength := some 120 }),
    ("stage_name", { required := false, allowBlank := true, maxLength := some 120 }),
    ("bio", { required := false, allowBlank := true, maxLength := some 2000 })]
  plainTextFields := ["name", "stage_name"]
  multilineFields := ["bio"]
  cleansAgain := ["bio"]

/-- `VoidSerializer`. -/
def voidSerializer : PlainTextSerializer where
  fields := [("reason", { maxLength := some 500 })]
  plainTextFields := ["reason"]

/-- `RejectSerializer`. -/
def rejectSerializer : PlainTextSerializer where
  fields := [("reason", { maxLength := some 500 })]
  plainTextFields := ["reason"]

/-- `EventSerializer`. -/
def eventSerializer : PlainTextSerializer where
  fields := [("name", { maxLength := some 150 })]
  plainTextFields := ["name"]

/-- `CategorySerializer`. -/
def categorySerializer : PlainTextSerializer where
  fields := [("name", { maxLength := some 120 }),
    ("description", { required := false, allowBlank := true, maxLength := some 1000 })]
  plainTextFields := ["name"]
  multilineFields := ["description"]

/-- `AwardSerializer`. -/
def awardSerializer : PlainTextSerializer where
  fields := [("name", { maxLength := some 150 }),
    ("description", { required := false, allowBlank := true, maxLength := some 1000 })]
  plainTextFields := ["name"]
  multilineFields := ["description"]

namespace PlainTextSerializer

variable (s : PlainTextSerializer)

/-- The listed fields, each with `multiline`, in the order they are cleaned in. -/
def listed : List (String × Bool) :=
  s.plainTextFields.map (·, false) ++ s.multilineFields.map (·, true)

/-- One field of the payload; only a `full` one must have the required fields. -/
def runField (full : Bool) (f : CharField) (value : Option Value) :
    Except (List String) (Option String) :=
  if value.isNone && !full then .ok none else f.run value

/-- The errors of the text fields. -/
def fieldErrors (full : Bool) (data : String → Option Value) : List (String × String) :=
  s.fields.flatMap fun (name, f) =>
    match runField full f (data name) with
    | .ok _ => []
    | .error messages => messages.map (name, ·)

/-- The texts that the fields have parsed. -/
def sent (full : Bool) (data : String → Option Value) : Attrs := fun name =>
  match (s.fields.lookup name).map fun f => runField full f (data name) with
  | some (.ok value) => value
  | _ => none

/-- A field whose blank text is no error: one that allows it, or none that is declared. -/
def mayBeBlank (name : String) : Bool := (s.fields.lookup name).all CharField.allowBlank

/-- One field of the loop in `PlainTextMixin.validate`. -/
def validateField (lib : TextLibrary) (state : Attrs × List (String × String))
    (entry : String × Bool) :
    Attrs × List (String × String) :=
  match state.1 entry.1 with
  | none => state
  | some value =>
    let cleaned := cleanText lib entry.2 (some value)
    (Function.update state.1 entry.1 (some cleaned),
      if cleaned = "" ∧ ¬ s.mayBeBlank entry.1 then
        state.2 ++ [(entry.1, "This field may not be blank.")] else state.2)

/-- **`PlainTextMixin.validate`.** -/
def validate (lib : TextLibrary) (attrs : Attrs) : Except ApiError Attrs :=
  let state := s.listed.foldl (s.validateField lib) (attrs, [])
  if state.2.isEmpty then .ok state.1 else .error (.validation state.2)

/-- What the `validate` of the serializer itself does to the texts. -/
def cleanAgain (lib : TextLibrary) (attrs : Attrs) : Attrs := fun name =>
  if name ∈ s.cleansAgain then some (cleanText lib true (some ((attrs name).getD "")))
  else attrs name

/-- **The texts of a payload that the serializer accepts**, as far as the texts go. -/
def accept (lib : TextLibrary) (full : Bool)
    (data : String → Option Value) : Except ApiError Attrs :=
  if (s.fieldErrors full data).isEmpty then (s.validate lib (s.sent full data)).map
    (s.cleanAgain lib)
  else .error (.validation (s.fieldErrors full data))

/-! The loop in closed form. -/

/-- The texts cleaned. -/
def cleaned (lib : TextLibrary) (entries : List (String × Bool)) (attrs : Attrs) : Attrs :=
  fun name =>
  match entries.lookup name with
  | some multiline => (attrs name).map fun value => cleanText lib multiline (some value)
  | none => attrs name

/-- The error of a field that is blank once cleaned. -/
def blankError (lib : TextLibrary) (attrs : Attrs)
    (entry : String × Bool) : List (String × String) :=
  match attrs entry.1 with
  | some value =>
    if cleanText lib entry.2 (some value) = "" ∧ ¬ s.mayBeBlank entry.1 then
      [(entry.1, "This field may not be blank.")] else []
  | none => []

theorem blankError_of_mayBeBlank {entry : String × Bool} (h : s.mayBeBlank entry.1 = true)
    (lib : TextLibrary) (attrs : Attrs) : s.blankError lib attrs entry = [] := by
  unfold blankError
  split
  · rw [if_neg (by simp [h])]
  · rfl

/-- Of the form's texts only the name must not be blank. -/
theorem blankError_nominationSubmit {lib : TextLibrary} {attrs : Attrs}
    (h : nominationSubmitSerializer.blankError lib attrs ("name", false) = []) :
    ∀ entry ∈ nominationSubmitSerializer.listed,
      nominationSubmitSerializer.blankError lib attrs entry = [] := by
  intro entry hentry
  have hcases : entry = ("name", false) ∨ nominationSubmitSerializer.mayBeBlank entry.1 = true := by
    revert entry
    decide
  rcases hcases with rfl | hmay
  · exact h
  · exact blankError_of_mayBeBlank _ hmay lib attrs

theorem cleaned_singleton_self (lib : TextLibrary) (name : String) (multiline : Bool)
    (attrs : Attrs) :
    cleaned lib [(name, multiline)] attrs name =
      (attrs name).map fun value => cleanText lib multiline (some value) := by
  simp [cleaned]

theorem cleaned_singleton_of_ne (lib : TextLibrary) {name n : String} (hn : n ≠ name)
    (multiline : Bool) (attrs : Attrs) : cleaned lib [(name, multiline)] attrs n = attrs n := by
  simp [cleaned, List.lookup_cons, beq_eq_false_iff_ne.mpr hn]

theorem cleaned_of_lookup {lib : TextLibrary} {entries : List (String × Bool)} {name : String}
    {multiline : Bool} (h : entries.lookup name = some multiline) (attrs : Attrs) :
    cleaned lib entries attrs name =
      (attrs name).map fun value => cleanText lib multiline (some value) := by
  rw [cleaned, h]

theorem cleaned_eq_none {lib : TextLibrary} {attrs : Attrs} {name : String} (h : attrs name = none)
    (entries : List (String × Bool)) : cleaned lib entries attrs name = none := by
  rw [cleaned, h]
  split <;> rfl

/-- What one field of the loop does. -/
theorem validateField_eq (lib : TextLibrary) (attrs : Attrs) (errors : List (String × String))
    (entry : String × Bool) : s.validateField lib (attrs, errors) entry =
      (cleaned lib [entry] attrs, errors ++ s.blankError lib attrs entry) := by
  obtain ⟨name, multiline⟩ := entry
  rcases hv : attrs name with _ | value
  · have hsame : cleaned lib [(name, multiline)] attrs = attrs := by
      funext n
      by_cases hn : n = name
      · rw [hn, cleaned_singleton_self, hv]; rfl
      · exact cleaned_singleton_of_ne lib hn multiline attrs
    simp only [validateField, hv, blankError, hsame, List.append_nil]
  · have hsame : cleaned lib [(name, multiline)] attrs =
        Function.update attrs name (some (cleanText lib multiline (some value))) := by
      funext n
      by_cases hn : n = name
      · rw [hn, cleaned_singleton_self, hv, Function.update_self]; rfl
      · rw [cleaned_singleton_of_ne lib hn, Function.update_of_ne hn]
    simp only [validateField, hv, blankError, hsame]
    split_ifs <;> simp

/-- **The whole loop**, over entries with different names. -/
theorem foldl_validateField (lib : TextLibrary) {entries : List (String × Bool)}
    (hd : (entries.map Prod.fst).Nodup) (attrs : Attrs) (errors : List (String × String)) :
    entries.foldl (s.validateField lib) (attrs, errors) =
      (cleaned lib entries attrs, errors ++ entries.flatMap (s.blankError lib attrs)) := by
  induction entries generalizing attrs errors with
  | nil => simp only [List.foldl_nil, List.flatMap_nil, List.append_nil]; rfl
  | cons entry entries ih =>
    obtain ⟨name, multiline⟩ := entry
    obtain ⟨hnot, hd⟩ := List.nodup_cons.mp hd
    have hne : ∀ e ∈ entries, e.1 ≠ name := fun e he h =>
      hnot (List.mem_map.mpr ⟨e, he, h⟩)
    -- the later fields find their texts as they were sent
    have htexts : cleaned lib entries (cleaned lib [(name, multiline)] attrs) =
        cleaned lib ((name, multiline) :: entries) attrs := by
      funext n
      by_cases hn : n = name
      · have hlookup : entries.lookup n = none := List.lookup_eq_none_iff.mpr fun e he => by
          rw [hn]; exact bne_iff_ne.mpr (hne e he).symm
        rw [cleaned, hlookup, hn, cleaned_singleton_self, cleaned, List.lookup_cons_self]
      · rw [cleaned, cleaned_singleton_of_ne lib hn, cleaned, List.lookup_cons,
          beq_eq_false_iff_ne.mpr hn]
    have herrors : ∀ e ∈ entries, s.blankError lib (cleaned lib [(name, multiline)] attrs) e =
        s.blankError lib attrs e := fun e he => by
      rw [blankError, cleaned_singleton_of_ne lib (hne e he), blankError]
    rw [List.foldl_cons, validateField_eq, ih hd, htexts, List.flatMap_cons, List.append_assoc,
      List.flatMap_congr herrors]

theorem map_fst_listed : s.listed.map Prod.fst = s.plainTextFields ++ s.multilineFields := by
  simp [listed, Function.comp_def]

/-- **When the mixin accepts, and what it leaves.** -/
theorem validate_ok_iff (lib : TextLibrary) {attrs attrs' : Attrs} :
    s.validate lib attrs = .ok attrs' ↔
      attrs' = cleaned lib s.listed attrs ∧ ∀ entry ∈ s.listed,
        s.blankError lib attrs entry = [] := by
  have hd : (s.listed.map Prod.fst).Nodup := by rw [map_fst_listed]; exact s.distinct
  rw [validate, foldl_validateField s lib hd, List.nil_append]
  by_cases h : s.listed.flatMap (s.blankError lib attrs) = []
  · simp only [h, List.isEmpty_nil, if_true, Except.ok.injEq]
    rw [List.flatMap_eq_nil_iff] at h
    exact ⟨fun he => ⟨he.symm, h⟩, fun he => he.1.symm⟩
  · rw [if_neg (by simpa using h)]
    rw [List.flatMap_eq_nil_iff] at h
    exact ⟨nofun, fun he => absurd he.2 h⟩

theorem lookup_listed {name : String} {multiline : Bool} (h : (name, multiline) ∈ s.listed) :
    s.listed.lookup name = some multiline := by
  have hd : (s.listed.map Prod.fst).Nodup := by rw [map_fst_listed]; exact s.distinct
  generalize s.listed = entries at h hd
  induction entries with
  | nil => simp at h
  | cons entry entries ih =>
    obtain ⟨hnot, hd⟩ := List.nodup_cons.mp hd
    rcases List.mem_cons.mp h with rfl | h
    · exact List.lookup_cons_self
    · have hne : name ≠ entry.1 := fun he => hnot (List.mem_map.mpr ⟨_, h, he⟩)
      rw [List.lookup_cons, beq_eq_false_iff_ne.mpr hne]
      exact ih h hd

/-- A field that is cleaned again is a multiline one. -/
theorem multiline_of_mem_cleansAgain {name : String} {multiline : Bool}
    (h : (name, multiline) ∈ s.listed) (ha : name ∈ s.cleansAgain) : multiline = true := by
  have hm : (name, true) ∈ s.listed :=
    List.mem_append_right _ (List.mem_map_of_mem (f := (·, true)) (s.again name ha).1)
  have := (s.lookup_listed h).symm.trans (s.lookup_listed hm)
  exact Option.some.inj this

/-- How many times a listed field is cleaned. -/
def cleanings (name : String) : ℕ := if name ∈ s.cleansAgain then 2 else 1

section Accept

variable {s} {lib : TextLibrary} {full : Bool} {data : String → Option Value} {attrs : Attrs}

theorem accept_ok (h : s.accept lib full data = .ok attrs) :
    attrs = s.cleanAgain lib (cleaned lib s.listed (s.sent full data)) ∧
      ∀ entry ∈ s.listed, s.blankError lib (s.sent full data) entry = [] := by
  unfold accept at h
  split_ifs at h
  rcases hv : s.validate lib (s.sent full data) with e | attrs'
  · rw [hv] at h; cases h
  · rw [hv] at h
    obtain ⟨rfl, hblank⟩ := (s.validate_ok_iff lib).mp hv
    exact ⟨(Except.ok.inj h).symm, hblank⟩

/-- A payload without an error is accepted. -/
theorem accept_eq_ok (he : (s.fieldErrors full data).isEmpty = true)
    (hb : ∀ entry ∈ s.listed, s.blankError lib (s.sent full data) entry = []) :
    s.accept lib full data = .ok (s.cleanAgain lib (cleaned lib s.listed (s.sent full data))) := by
  rw [accept, if_pos he, (s.validate_ok_iff lib).mpr ⟨rfl, hb⟩]
  rfl

/-- The empty text stays empty. -/
theorem cleanChars_nil (h : lib.Documented) (multiline : Bool) :
    cleanChars lib multiline [] = [] := by
  have hnil : stripped lib [] = [] := by
    rw [stripped, h.nfc_ascii [] (by simp)]
    refine List.eq_nil_iff_forall_not_mem.mpr fun c hc => ?_
    rcases mem_stripTags h hc with hc | ⟨-, hc⟩ <;> simp at hc
  rw [cleanChars, hnil]
  cases multiline <;> rfl

/-- **A listed text that is sent is cleaned**, once or twice. -/
theorem accept_sent (h : s.accept lib full data = .ok attrs) {name value : String}
    {multiline : Bool} (hl : (name, multiline) ∈ s.listed)
    (hs : s.sent full data name = some value) :
    attrs name =
      some (String.ofList ((cleanChars lib multiline)^[s.cleanings name] value.toList)) := by
  obtain ⟨rfl, -⟩ := accept_ok h
  have hc : cleaned lib s.listed (s.sent full data) name =
      some (cleanText lib multiline (some value)) := by
    rw [cleaned_of_lookup (s.lookup_listed hl), hs, Option.map_some]
  rw [cleanAgain, cleanings]
  split_ifs with ha
  · obtain rfl := s.multiline_of_mem_cleansAgain hl ha
    rw [hc, Option.getD_some, cleanText, cleanText, String.toList_ofList]
    rfl
  · exact hc

/-- One that is not stays so, or is empty. -/
theorem accept_not_sent (hlib : lib.Documented) (h : s.accept lib full data = .ok attrs)
    {name value : String} (hs : s.sent full data name = none) (ha : attrs name = some value) :
    name ∈ s.cleansAgain ∧ value = "" := by
  obtain ⟨rfl, -⟩ := accept_ok h
  have hc : cleaned lib s.listed (s.sent full data) name = none := cleaned_eq_none hs _
  rw [cleanAgain] at ha
  split_ifs at ha with hm
  · refine ⟨hm, ?_⟩
    rw [hc, Option.getD_none, cleanText] at ha
    rw [← Option.some.inj ha]
    exact congrArg String.ofList (cleanChars_nil hlib true)
  · rw [hc] at ha; cases ha

variable (s lib) in
/-- **Every listed text fits**: it is no longer than its field allows, and empty only if that may
be. -/
def Fits (attrs : Attrs) : Prop :=
  ∀ name multiline f value, (name, multiline) ∈ s.listed → s.fields.lookup name = some f →
    attrs name = some value →
    (∀ n, f.maxLength = some n → value.length ≤ n) ∧ (value = "" → f.allowBlank = true)

variable (s lib) in
/-- **The room that a listed text needs**: the size it comes to. -/
def room (name : String) (multiline : Bool) (value : String) : ℤ :=
  if name ∈ s.cleansAgain then sizeAgain lib value.toList else size lib multiline value.toList

variable (s lib) in
/-- **Every listed text that is sent has the room it needs.** -/
def HasRoom (attrs : Attrs) : Prop :=
  ∀ name multiline f value n, (name, multiline) ∈ s.listed → s.fields.lookup name = some f →
    f.maxLength = some n → attrs name = some value → s.room lib name multiline value ≤ n

/-- A text that is cleaned needs the room for what comes out. -/
theorem length_cleanings (hlib : lib.DocumentedAgain) {name value : String} {multiline : Bool}
    (hl : (name, multiline) ∈ s.listed) :
    (((cleanChars lib multiline)^[s.cleanings name] value.toList).length : ℤ) =
      s.room lib name multiline value := by
  unfold cleanings room
  split_ifs with ha
  · obtain rfl := s.multiline_of_mem_cleansAgain hl ha
    exact length_cleanChars_again hlib value.toList
  · exact length_cleanChars hlib.toDocumented multiline value.toList

/-- What is accepted is not blank, unless it may be. -/
theorem accept_blank (hlib : lib.Documented) (h : s.accept lib full data = .ok attrs)
    {name : String} {multiline : Bool} {f : CharField} (hl : (name, multiline) ∈ s.listed)
    (hf : s.fields.lookup name = some f) (ha : attrs name = some "") : f.allowBlank = true := by
  by_cases hm : name ∈ s.cleansAgain
  · have := (s.again name hm).2
    rwa [hf] at this
  · rcases hs : s.sent full data name with _ | value
    · exact absurd (accept_not_sent hlib h hs ha).1 hm
    · have hblank := (accept_ok h).2 _ hl
      rw [accept_sent h hl hs, cleanings, if_neg hm] at ha
      have hclean : cleanText lib multiline (some value) = "" := Option.some.inj ha
      rw [blankError, hs] at hblank
      simpa [hclean, mayBeBlank, hf] using hblank

end Accept

end PlainTextSerializer

open PlainTextSerializer

/-- What the fields let through is within their bounds, … -/
theorem length_sent_le {s : PlainTextSerializer} {full : Bool} {data : String → Option Value}
    {name value : String} {f : CharField} {n : ℕ} (hs : s.sent full data name = some value)
    (hf : s.fields.lookup name = some f) (hn : f.maxLength = some n) : value.length ≤ n := by
  simp only [sent, hf, Option.map_some] at hs
  split at hs
  · next v hv =>
    subst hs
    have hv : runField full f (data name) = .ok (some value) := Option.some.inj hv
    unfold runField at hv
    split_ifs at hv
    · cases Except.ok.inj hv
    · exact CharField.length_le_of_run hv hn
  · cases hs

/-- … **so a text that does not grow has room.** -/
theorem hasRoom_of_size_le {lib : TextLibrary} {s : PlainTextSerializer} {full : Bool}
    {data : String → Option Value}
    (h : ∀ name multiline value, (name, multiline) ∈ s.listed →
      s.sent full data name = some value → s.room lib name multiline value ≤ value.length) :
    s.HasRoom lib (s.sent full data) := by
  intro name multiline f value n hl hf hn hs
  have hle := length_sent_le hs hf hn
  have := h name multiline value hl hs
  omega

/-- A code point that normalisation writes as two, and texts without tags. -/
def nukta : TextLibrary where
  nfc := List.flatMap fun c => if c = '\u0958' then ['\u0915', '\u093c'] else [c]
  tagMarks := List.map .keep

theorem not_mem_nukta_nfc (text : List Char) : '\u0958' ∉ nukta.nfc text := by
  intro h
  obtain ⟨c, -, hc⟩ := List.mem_flatMap.mp h
  split_ifs at hc with he
  · simp at hc
  · exact he (List.mem_singleton.mp hc).symm

/-- The normal texts are those without it. -/
theorem nukta_nfc_eq_self_iff {text : List Char} : nukta.nfc text = text ↔ '\u0958' ∉ text := by
  refine ⟨fun h => h ▸ not_mem_nukta_nfc text, fun h => ?_⟩
  refine (List.flatMap_congr fun c hc => if_neg ?_).trans (List.flatMap_singleton' text)
  rintro rfl
  exact h hc

/-- It rewrites each code point on its own. -/
theorem nukta_nfc_append (s t : List Char) : nukta.nfc (s ++ t) = nukta.nfc s ++ nukta.nfc t :=
  List.flatMap_append

/-- What it makes of a code point is none of the ASCII ones. -/
theorem of_mem_nukta_nfc {s : List Char} {c : Char} (hc : c ∈ nukta.nfc s) :
    c ∈ s ∨ c = '\u0915' ∨ c = '\u093c' := by
  obtain ⟨d, hd, hc⟩ := List.mem_flatMap.mp hc
  split_ifs at hc
  · exact Or.inr (by simpa using hc)
  · obtain rfl := List.mem_singleton.mp hc
    exact Or.inl hd

theorem nukta_documented : nukta.DocumentedAgain where
  nfc_nfc text := nukta_nfc_eq_self_iff.mpr (not_mem_nukta_nfc text)
  nfc_part s t hst ht :=
    nukta_nfc_eq_self_iff.mpr fun h => nukta_nfc_eq_self_iff.mp ht (hst.subset h)
  nfc_ascii s hs := nukta_nfc_eq_self_iff.mpr fun h => by
    have := hs _ h
    simp at this
  nfc_space c hc hn s t hs ht := by
    rw [nukta_nfc_eq_self_iff] at hn hs ht ⊢
    simp only [List.mem_append, List.mem_cons, not_or]
    exact ⟨hs, by simpa using hn, ht⟩
  source_tagMarks := source_map_keep
  added s c hc := by
    obtain ⟨d, -, hd⟩ := List.mem_map.mp hc
    cases hd
  stripTags_stripTags s := by simp [TextLibrary.stripTags, nukta]
  stripTags_respaced _ t _ _ _ := left_map_keep t
  nfc_eq_nil s h := by
    rcases s with _ | ⟨c, s⟩
    · rfl
    · have hcons : nukta.nfc [c] ++ nukta.nfc s = [] := (nukta_nfc_append [c] s).symm.trans h
      have hc := (List.append_eq_nil_iff.mp hcons).1
      simp only [nukta, List.flatMap_singleton] at hc
      split_ifs at hc
  nfc_join c _ hn s t := by
    rw [nukta_nfc_append, show c :: t = [c] ++ t from rfl, nukta_nfc_append, hn,
      List.singleton_append]
  nfc_run s hs c hc := by
    rcases of_mem_nukta_nfc hc with hc | rfl | rfl
    · exact hs c hc
    · rfl
    · rfl
  nfc_control s hs c hc := by
    rcases of_mem_nukta_nfc hc with hc | rfl | rfl
    · exact hs c hc
    · rfl
    · rfl
  stripTags_nfc s _ := left_map_keep _

/-- A payload with one text. -/
def payload (name text : String) : String → Option Value := fun n =>
  if n = name then some (.str text) else none

/-- A name alone, with which the field finds nothing wrong, is accepted unless it is blank once
cleaned. -/
theorem accept_name {lib : TextLibrary} {text : String}
    (hrun : CharField.run { maxLength := some 120 } (some (.str text)) = .ok (some text))
    (hne : cleanText lib false (some text) ≠ "") :
    ∃ attrs, nominationSubmitSerializer.accept lib true (payload "name" text) = .ok attrs ∧
      attrs "name" = some (cleanText lib false (some text)) := by
  have hname : payload "name" text "name" = some (.str text) := if_pos rfl
  have hother : ∀ n, n ≠ "name" → payload "name" text n = none := fun n hn => if_neg hn
  have hstage := hother "stage_name" (by decide)
  have hbio := hother "bio" (by decide)
  have herrors : nominationSubmitSerializer.fieldErrors true (payload "name" text) = [] := by
    simp only [fieldErrors, nominationSubmitSerializer, List.flatMap_cons, hname, hstage, hbio,
      runField, Option.isNone_some, Bool.false_and, Bool.false_eq_true, if_false, hrun]
    rfl
  have hsent : nominationSubmitSerializer.sent true (payload "name" text) "name" = some text := by
    simp only [sent, nominationSubmitSerializer, List.lookup_cons_self, Option.map_some, hname,
      runField, Option.isNone_some, Bool.false_and, Bool.false_eq_true, if_false, hrun]
  have hblank : ∀ entry ∈ nominationSubmitSerializer.listed, nominationSubmitSerializer.blankError
      lib (nominationSubmitSerializer.sent true (payload "name" text)) entry = [] := by
    refine blankError_nominationSubmit ?_
    simp only [blankError, hsent, hne, false_and, if_false]
  have h := accept_eq_ok (by rw [herrors]; rfl) hblank
  have hlisted : ("name", false) ∈ nominationSubmitSerializer.listed := by decide
  exact ⟨_, h, accept_sent h hlisted hsent⟩

/-- Sixty-one code points that normalisation writes as two. -/
def growing : List Char := List.replicate 61 '\u0958'

theorem length_cleanChars_growing :
    (cleanChars nukta false growing).length = 122 := by decide +kernel

/-- The field finds nothing wrong with them. -/
theorem run_growing :
    CharField.run { maxLength := some 120 } (some (.str (String.ofList growing))) =
    .ok (some (String.ofList growing)) := by
  have hstrip : strip (String.ofList growing) = String.ofList growing := by
    rw [strip, String.toList_ofList]
    exact congrArg String.ofList (by decide)
  have hne : String.ofList growing ≠ "" := by
    rw [Ne, ← String.toList_inj, String.toList_ofList]
    decide
  have hvalid : CharField.runValidators { maxLength := some 120 } (String.ofList growing) = [] := by
    simp only [CharField.runValidators, String.length_ofList, String.toList_ofList]
    decide
  simp only [CharField.run, CharField.toInternalValue, hstrip, if_neg hne, hvalid]

end KwAwards.Common.PlainText
