import KwAwards.Common.PlainText
import KwAwards.Nominations.Submission

/-! # Cleaned text in its columns

The serializers of the events and of the public form, with `clean_text` for their `clean`, leave the
texts that the mixin leaves. So a submission that the form accepts is refused by the database, for a
text that does not fit, exactly when the name or the stage name comes to more than its column
takes. -/

namespace KwAwards.Nominations.TextColumns

open KwAwards.Common.Base KwAwards.Common.Text KwAwards.Common.PlainText
open KwAwards.Common.PlainText.PlainTextSerializer KwAwards.Common.Exceptions KwAwards.Common.Phone
open KwAwards.Events.Models KwAwards.Events.Serializers KwAwards.Nominations.Submission
open KwAwards.Store

variable (lib : TextLibrary)

/-- `clean_text` of a text. -/
def clean (multiline : Bool) (value : String) : String := cleanText lib multiline (some value)

/-- A text under its name. -/
def text (name : String) (value : Option String) : Attrs :=
  fun n => if n = name then value else none

/-- A name and a longer text. -/
def texts (name other : String) (value otherValue : Option String) : Attrs := fun n =>
  if n = name then value else if n = other then otherValue else none

/-- The texts of the public form. -/
def formTexts (a : SubmissionAttrs) : Attrs := fun n =>
  if n = "name" then some a.name else texts "stage_name" "bio" a.stageName a.bio n

variable {lib}

/-- The check of one field is the one of the loop. -/
theorem plainText_eq_blankError (s : PlainTextSerializer) (attrs : Attrs) (name : String)
    (multiline : Bool) :
    plainText (clean lib) multiline (s.mayBeBlank name) name (attrs name) =
      s.blankError lib attrs (name, multiline) := by
  unfold plainText blankError
  rcases attrs name with _ | value
  · rfl
  · simp only [clean, Bool.not_eq_true]

/-- The mixin on a name alone. -/
theorem validate_text {s : PlainTextSerializer} (hs : s.listed = [("name", false)])
    {name : Option String}
    (h : plainText (clean lib) false (s.mayBeBlank "name") "name" name = []) :
    s.validate lib (text "name" name) = .ok (text "name" (name.map (clean lib false))) := by
  refine (s.validate_ok_iff lib).mpr ⟨?_, fun entry he => ?_⟩
  · funext n
    by_cases hn : n = "name"
    · subst hn
      rw [hs, cleaned_of_lookup (List.lookup_cons_self ..)]
      rfl
    · rw [cleaned_eq_none (if_neg hn), text, if_neg hn]
  · obtain rfl : entry = ("name", false) := by simpa [hs] using he
    exact (plainText_eq_blankError s (text "name" name) "name" false).symm.trans h

/-- The mixin on a name and a multiline description. -/
theorem validate_texts {s : PlainTextSerializer}
    (hs : s.listed = [("name", false), ("description", true)]) {name description : Option String}
    (hn : plainText (clean lib) false (s.mayBeBlank "name") "name" name = [])
    (hd : plainText (clean lib) true (s.mayBeBlank "description") "description" description = []) :
    s.validate lib (texts "name" "description" name description) =
      .ok (texts "name" "description" (name.map (clean lib false))
        (description.map (clean lib true))) := by
  refine (s.validate_ok_iff lib).mpr ⟨?_, fun entry he => ?_⟩
  · funext n
    by_cases h : n = "name"
    · subst h
      rw [hs, cleaned_of_lookup (List.lookup_cons_self ..)]
      rfl
    · by_cases h' : n = "description"
      · subst h'
        rw [hs, cleaned_of_lookup (show _ = some true from rfl)]
        rfl
      · have hnone : ∀ v w, texts "name" "description" v w n = none := fun v w => by
          rw [texts, if_neg h, if_neg h']
        rw [cleaned_eq_none (hnone _ _), hnone]
  · rw [hs] at he
    rcases List.mem_cons.mp he with rfl | he
    · exact (plainText_eq_blankError s (texts _ _ name description) "name" false).symm.trans hn
    · obtain rfl := List.mem_singleton.mp he
      exact (plainText_eq_blankError s (texts _ _ name description) "description" true).symm.trans
        hd

/-- **An accepted event** has the texts that the mixin leaves. -/
theorem acceptEvent_texts {db : Database} {inst : Option Event} {full : Bool} {a a' : EventAttrs}
    (h : acceptEvent (clean lib) db inst full a = .ok a') :
    eventSerializer.validate lib (text "name" a.name) = .ok (text "name" a'.name) := by
  obtain ⟨-, h⟩ := raiseIf_ok.mp h
  obtain ⟨hblank, h⟩ := raiseIf_ok.mp h
  obtain ⟨-, h⟩ := raiseIf_ok.mp h
  obtain rfl := Except.ok.inj h
  exact validate_text rfl hblank

theorem acceptCategory_texts {db : Database} {inst : Option Category} {full : Bool}
    {a a' : CategoryAttrs} (h : acceptCategory (clean lib) db inst full a = .ok a') :
    categorySerializer.validate lib (texts "name" "description" a.name a.description) =
      .ok (texts "name" "description" a'.name a'.description) := by
  obtain ⟨-, h⟩ := raiseIf_ok.mp h
  obtain ⟨-, h⟩ := raiseIf_ok.mp h
  obtain ⟨hblank, h⟩ := raiseIf_ok.mp h
  obtain rfl := Except.ok.inj h
  obtain ⟨hn, hd⟩ := List.append_eq_nil_iff.mp hblank
  exact validate_texts rfl hn hd

theorem acceptAward_texts {db : Database} {inst : Option Award} {full : Bool} {a a' : AwardAttrs}
    (h : acceptAward (clean lib) db inst full a = .ok a') :
    awardSerializer.validate lib (texts "name" "description" a.name a.description) =
      .ok (texts "name" "description" a'.name a'.description) := by
  obtain ⟨-, h⟩ := raiseIf_ok.mp h
  obtain ⟨-, h⟩ := raiseIf_ok.mp h
  obtain ⟨hblank, h⟩ := raiseIf_ok.mp h
  obtain rfl := Except.ok.inj h
  obtain ⟨hn, hd⟩ := List.append_eq_nil_iff.mp hblank
  exact validate_texts rfl hn hd

/-! ### The public form -/

section Form

variable {phones : PhoneNumbers} {upper : String → String} {db : Database} {now : Time}
  {a : SubmissionAttrs} {d : ValidatedData}

/-- What the form leaves of its texts. -/
theorem acceptSubmission_eq (h : acceptSubmission phones (clean lib) upper db now a = .ok d) :
    plainText (clean lib) false false "name" (some a.name) = [] ∧ d.name = clean lib false a.name ∧
      d.stageName = (a.stageName.map (clean lib false)).getD "" ∧
      d.bio = clean lib true ((a.bio.map (clean lib true)).getD "") := by
  unfold acceptSubmission at h
  split at h
  · obtain ⟨hblank, h⟩ := raiseIf_ok.mp h
    split_ifs at h
    obtain rfl := Except.ok.inj h
    exact ⟨hblank, rfl, rfl, rfl⟩
  · cases h

/-- **An accepted submission** has the texts that the mixin leaves, the biography cleaned again. -/
theorem acceptSubmission_texts (h : acceptSubmission phones (clean lib) upper db now a = .ok d) :
    ∃ attrs, nominationSubmitSerializer.validate lib (formTexts a) = .ok attrs ∧
      nominationSubmitSerializer.cleanAgain lib attrs "name" = some d.name ∧
      (nominationSubmitSerializer.cleanAgain lib attrs "stage_name").getD "" = d.stageName ∧
      nominationSubmitSerializer.cleanAgain lib attrs "bio" = some d.bio := by
  obtain ⟨hblank, hname, hstage, hbio⟩ := acceptSubmission_eq h
  refine ⟨_, (nominationSubmitSerializer.validate_ok_iff lib).mpr ⟨rfl, ?_⟩, ?_, ?_, ?_⟩
  · exact blankError_nominationSubmit
      ((plainText_eq_blankError nominationSubmitSerializer (formTexts a) "name" false).symm.trans
        hblank)
  · rw [hname]; rfl
  · rw [hstage]; rfl
  · rw [hbio]; rfl

theorem length_clean (hlib : lib.Documented) (multiline : Bool) (value : String) :
    ((clean lib multiline value).length : ℤ) = size lib multiline value.toList := by
  rw [clean, cleanText, String.length_ofList]
  exact length_cleanChars hlib multiline value.toList

/-- **When the database refuses an accepted submission for a length**: when its name or its stage
name comes to more than its column takes. -/
theorem saveSubmission_tooLong_iff (hlib : lib.Documented)
    (h : acceptSubmission phones (clean lib) upper db now a = .ok d)
    (request : Request) (nominee : Id) (nk ak : Keys) :
    saveSubmission db d request now nominee nk ak = some (db, .error (.db .stringTooLong)) ↔
      120 < size lib false a.name.toList ∨
        ∃ value, a.stageName = some value ∧ 120 < size lib false value.toList := by
  obtain ⟨-, hname, hstage, -⟩ := acceptSubmission_eq h
  have hlong : (120 < d.name.length ∨ 120 < d.stageName.length) ↔
      120 < size lib false a.name.toList ∨
        ∃ value, a.stageName = some value ∧ 120 < size lib false value.toList := by
    simp only [← length_clean hlib]
    rw [hname, hstage]
    rcases a.stageName with _ | value
    · simp
    · simp
  rw [← hlong]
  constructor
  · intro hs
    obtain ⟨hl, -⟩ | ⟨-, _, _, _, _, -, -, -, -, hr, -⟩ := saveSubmission_cases hs
    · exact hl
    · cases hr
  · intro hl
    rw [saveSubmission, if_pos hl]

end Form

end KwAwards.Nominations.TextColumns
