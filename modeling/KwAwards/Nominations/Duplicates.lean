import KwAwards.Lib.Run
import KwAwards.Nominations.Services
import KwAwards.Nominations.Submission
import KwAwards.Voting.PhoneKeys

/-! # Two live nominations of one name

Any number of submissions and reviews run interleaved. A submission is two steps: the serializer
checks the form, and with it that the name is not taken in the award (`validate`), and the
transaction of `create` inserts the nominee and the nomination (`create`). Reviews are single steps,
as their commits are.

`noDuplicates_iff` says what keeps the names of an award's live nominations distinct: that no name
is taken between the check of it and the insert (`StillFree`). A name that is taken at the check is
refused (`ChecksName`). -/

namespace KwAwards.Nominations.Duplicates

open KwAwards.Lib.Tables KwAwards.Lib.Run KwAwards.Common.Base KwAwards.Common.Exceptions
open KwAwards.Common.Phone KwAwards.Events.Models KwAwards.Events.Serializers
open KwAwards.Nominations.Models KwAwards.Nominations.Services KwAwards.Nominations.Submission
open KwAwards.Store
open KwAwards.Voting.PhoneKeys (kenya)

/-- Where a submission stands. -/
inductive Phase
  | idle
  | validated (data : ValidatedData) (request : Request)
  | done (r : Except Raised Nomination)

/-- The committed database, the clock and the submissions. -/
structure State where
  db : Database
  now : Time
  calls : ℕ → Phase := fun _ => .idle

def State.setCall (s : State) (i : ℕ) (p : Phase) : State :=
  { s with calls := Function.update s.calls i p }

/-- What can happen. -/
inductive Label
  | tick (d : ℕ)
  | validate (i : ℕ) (captcha : Bool) (a : SubmissionAttrs) (request : Request)
  | create (i : ℕ) (nominee : Id) (nk ak : Keys)
  | review (a : ReviewArgs) (ak : Keys)

section Form

variable (lib : PhoneNumbers) (clean : Bool → String → String) (upper : String → String)

def step (s : State) : Label → Option State
  | .tick d => some { s with now := s.now + d }
  | .validate i captcha a request =>
    match s.calls i with
    | .idle =>
      if ¬ captcha then some (s.setCall i (.done (.error (.api .captchaFailed))))
      else match acceptSubmission lib clean upper s.db s.now a with
        | .error e => some (s.setCall i (.done (.error (.api e))))
        | .ok data => some (s.setCall i (.validated data request))
    | _ => none
  | .create i nominee nk ak =>
    match s.calls i with
    | .validated data request =>
      (saveSubmission s.db data request s.now nominee nk ak).map fun (db, r) =>
        { s with db }.setCall i (.done r)
    | _ => none
  | .review a ak => (reviewNomination s.db a s.now ak).map fun (db, _) => { s with db }

/-! ### The names of an award -/

/-- Every nomination has its nominee. -/
def HasNominees (db : Database) : Prop :=
  ∀ n ∈ db.nominations.rows, (db.nominees.get? n.nominee).isSome

/-- Pending or approved. -/
def Live (n : Nomination) : Prop := n.status = .pending ∨ n.status = .approved

instance (n : Nomination) : Decidable (Live n) := inferInstanceAs (Decidable (_ ∨ _))

/-- The name of a live nomination of the award, as names are compared. -/
def liveName (nominees : Table Nominee) (award : Id) (n : Nomination) : Option String :=
  if n.award = award ∧ Live n then (nominees.get? n.nominee).map fun m => upper m.name else none

/-- The names of the live nominations of an award. -/
def liveNames (db : Database) (award : Id) : List String :=
  db.nominations.rows.filterMap (liveName upper db.nominees award)

/-- **No award has two live nominations of one name**, ignoring case. -/
def NoDuplicates (db : Database) : Prop := ∀ award, (liveNames upper db award).Nodup

/-- The name of the submission is not taken in its award. -/
def NameFree (db : Database) (data : ValidatedData) : Prop :=
  upper data.name ∉ liveNames upper db data.award.id

/-- **The condition:** the name that a submission inserts is still free. -/
def StillFree (s : State) (l : Label) (_ : State) : Prop :=
  ∀ i nominee nk ak data request, l = .create i nominee nk ak →
    s.calls i = .validated data request →
    data.name.length ≤ 120 → data.stageName.length ≤ 120 → NameFree upper s.db data

theorem stillFree_iff {s s' : State} {l : Label} : StillFree upper s l s' ↔
    (match l with
      | .create i _ _ _ =>
        match s.calls i with
        | .validated data _ =>
          data.name.length ≤ 120 → data.stageName.length ≤ 120 → NameFree upper s.db data
        | _ => True
      | _ => True) := by
  unfold StillFree
  constructor
  · intro h
    split
    · next i nominee nk ak =>
      split
      · next data request hi => exact h i nominee nk ak data request rfl hi
      · trivial
    · trivial
  · rintro h i nominee nk ak data request rfl hi
    simp only [hi] at h
    exact h

instance (db : Database) (data : ValidatedData) : Decidable (NameFree upper db data) :=
  inferInstanceAs (Decidable (_ ∉ _))

instance (s : State) (l : Label) (s' : State) : Decidable (StillFree upper s l s') :=
  @decidable_of_iff _ _ (stillFree_iff upper).symm (by
    split
    · split <;> infer_instance
    · infer_instance)

/-- No award has duplicates after the step. -/
def StaysDistinct (_ : State) (_ : Label) (s' : State) : Prop := NoDuplicates upper s'.db

/-- The form is in order, whatever nominations there are. -/
def Acceptable (db : Database) (now : Time) (a : SubmissionAttrs) (data : ValidatedData) : Prop :=
  acceptSubmission lib clean upper { db with nominations := .empty } now a = .ok data

/-- **What the check says:** the name of a form that is accepted is free, and a form in order is
accepted when its name is free and refused as a duplicate when it is taken. -/
def ChecksName (s : State) (l : Label) (s' : State) : Prop :=
  ∀ i a request, l = .validate i true a request →
    (∀ data, s'.calls i = .validated data request → NameFree upper s.db data) ∧
      ∀ data, Acceptable lib clean upper s.db s.now a data →
        (NameFree upper s.db data → s'.calls i = .validated data request) ∧
          (¬ NameFree upper s.db data →
            s'.calls i = .done (.error (.api .duplicateNomination)) ∧ s'.db = s.db)

end Form

variable {lib : PhoneNumbers} {clean : Bool → String → String} {upper : String → String}

theorem liveName_eq_some {nominees : Table Nominee} {award : Id} {n : Nomination} {name : String} :
    liveName upper nominees award n = some name ↔ n.award = award ∧ Live n ∧
      ∃ m, nominees.get? n.nominee = some m ∧ upper m.name = name := by
  unfold liveName
  split_ifs with h
  · rw [Option.map_eq_some_iff]
    constructor
    · intro hm
      exact ⟨h.1, h.2, hm⟩
    · intro hm
      exact hm.2.2
  · exact iff_of_false (by simp) fun hm => h ⟨hm.1, hm.2.1⟩

/-- The query of `validate` finds the names that are taken. -/
theorem isDuplicate_iff {db : Database} {award : Id} {name : String} :
    isDuplicate upper db award name = true ↔ upper name ∈ liveNames upper db award := by
  unfold isDuplicate liveNames
  rw [List.any_eq_true, List.mem_filterMap]
  refine exists_congr fun n => and_congr_right fun _ => ?_
  rw [liveName_eq_some, decide_eq_true_iff, Option.any_eq_true]
  simp only [decide_eq_true_iff]
  rfl

/-! ### One step -/

/-- A new nomination takes its name. -/
theorem liveNames_insert {db : Database} {data : ValidatedData} {request : Request} {now : Time}
    {nominee : Id} {nk : Keys} {nominees : Table Nominee} {nominations : Table Nomination}
    (hfk : HasNominees db)
    (hm : db.nominees.insert (newNominee data now nominee) = some nominees)
    (hn : db.nominations.insert (newNomination data nominee request now nk) = some nominations)
    (award : Id) :
    nominations.rows.filterMap (liveName upper nominees award) = liveNames upper db award ++
      if data.award.id = award then [upper data.name] else [] := by
  have hget : ∀ k, nominees.get? k =
      if k = nominee then some (newNominee data now nominee) else db.nominees.get? k :=
    Table.get?_of_insert hm
  have hfresh : db.nominees.get? nominee = none := (Table.insert_eq_some.mp hm).1
  have hold : ∀ n ∈ db.nominations.rows,
      liveName upper nominees award n = liveName upper db.nominees award n := by
    intro n hn
    have hne : n.nominee ≠ nominee := fun he => by
      have hsome := hfk n hn
      rw [he, hfresh] at hsome
      simp at hsome
    unfold liveName
    rw [hget, if_neg hne]
  have hnew : liveName upper nominees award (newNomination data nominee request now nk) =
      if data.award.id = award then some (upper data.name) else none := by
    have hrow : nominees.get? nominee = some (newNominee data now nominee) := by
      rw [hget, if_pos rfl]
    unfold liveName
    rw [show (newNomination data nominee request now nk).nominee = nominee from rfl, hrow]
    simp [newNomination, newNominee, Live]
  rw [(Table.insert_eq_some.mp hn).2, List.filterMap_append, List.filterMap_congr hold,
    List.filterMap_cons, List.filterMap_nil, hnew]
  split_ifs <;> rfl

/-- **An insert keeps the names distinct exactly when its name is free.** -/
theorem noDuplicates_insert_iff {db : Database} {data : ValidatedData} {request : Request}
    {now : Time} {nominee : Id} {nk : Keys} {nominees : Table Nominee}
    {nominations : Table Nomination} {audit : Table Audit.Log.AuditLog} (hfk : HasNominees db)
    (hd : NoDuplicates upper db)
    (hm : db.nominees.insert (newNominee data now nominee) = some nominees)
    (hn : db.nominations.insert (newNomination data nominee request now nk) = some nominations) :
    NoDuplicates upper { db with nominees, nominations, audit } ↔ NameFree upper db data := by
  have hnames : ∀ award, liveNames upper { db with nominees, nominations, audit } award =
      liveNames upper db award ++ if data.award.id = award then [upper data.name] else [] :=
    liveNames_insert hfk hm hn
  unfold NoDuplicates NameFree
  constructor
  · intro h
    have hnodup := h data.award.id
    rw [hnames, if_pos rfl, List.nodup_append] at hnodup
    exact fun hmem => hnodup.2.2 _ hmem _ (List.mem_singleton_self _) rfl
  · intro hfree award
    rw [hnames]
    split_ifs with ha
    · subst ha
      rw [List.nodup_append]
      refine ⟨hd _, List.nodup_singleton _, fun x hx y hy he => ?_⟩
      rw [he, List.mem_singleton.mp hy] at hx
      exact hfree hx
    · rw [List.append_nil]
      exact hd award

/-- **A review gives no nomination a name** that it did not have. -/
theorem liveNames_review {db db' : Database} {a : ReviewArgs} {now : Time} {ak : Keys}
    {r : Except Raised Nomination} (h : reviewNomination db a now ak = some (db', r)) (award : Id) :
    List.Sublist (liveNames upper db' award) (liveNames upper db award) := by
  obtain ⟨rfl, -⟩ | ⟨locked, audit, e, hl, hp, -, -, -, rfl⟩ := reviewNomination_cases h
  · exact List.Sublist.refl _
  · have hid : locked.id = a.nomination := Table.key_of_get? hl
    have hthere : db.nominations.get? (key (reviewed locked a now)) = some locked := by
      rw [key_nomination, show (reviewed locked a now).id = locked.id from rfl, hid, hl]
    refine Table.filterMap_put_sublist hthere ?_
    have hlive : Live locked := Or.inl hp
    unfold liveName
    cases ha : a.approve with
    | true =>
      have hsame : Live (reviewed locked a now) := Or.inr (by simp [reviewed, ha])
      refine Or.inl ?_
      simp only [hlive, hsame, and_true]
      rfl
    | false =>
      have hgone : ¬ Live (reviewed locked a now) := by simp [Live, reviewed, ha]
      exact Or.inr (if_neg fun h => hgone h.2)

theorem hasNominees_review {db db' : Database} {a : ReviewArgs} {now : Time} {ak : Keys}
    {r : Except Raised Nomination} (hf : HasNominees db)
    (h : reviewNomination db a now ak = some (db', r)) : HasNominees db' := by
  obtain ⟨rfl, -⟩ | ⟨locked, audit, e, hl, -, -, -, -, rfl⟩ := reviewNomination_cases h
  · exact hf
  · intro n hn
    obtain rfl | ⟨hn, -⟩ := Table.mem_put.mp hn
    · exact hf locked (Table.get?_eq_some.mp hl).1
    · exact hf n hn

theorem hasNominees_insert {db : Database} {data : ValidatedData} {request : Request} {now : Time}
    {nominee : Id} {nk : Keys} {nominees : Table Nominee} {nominations : Table Nomination}
    {audit : Table Audit.Log.AuditLog} (hf : HasNominees db)
    (hm : db.nominees.insert (newNominee data now nominee) = some nominees)
    (hn : db.nominations.insert (newNomination data nominee request now nk) = some nominations) :
    HasNominees { db with nominees, nominations, audit } := by
  intro n hmem
  replace hmem : n ∈ nominations.rows := hmem
  show (nominees.get? n.nominee).isSome
  rw [Table.get?_of_insert hm, key_nominee]
  split_ifs with hk
  · rfl
  · rw [(Table.insert_eq_some.mp hn).2] at hmem
    rcases List.mem_append.mp hmem with hold | hnew
    · exact hf n hold
    · obtain rfl := List.mem_singleton.mp hnew
      exact absurd rfl hk

/-- A form in order meets the check of its name, and nothing else. -/
theorem acceptSubmission_of_acceptable {db : Database} {now : Time} {a : SubmissionAttrs}
    {data : ValidatedData} (h : Acceptable lib clean upper db now a data) :
    acceptSubmission lib clean upper db now a =
      if isDuplicate upper db data.award.id data.name then .error .duplicateNomination
      else .ok data := by
  unfold Acceptable at h
  unfold acceptSubmission at h ⊢
  rw [show submittable { db with nominations := .empty } a.award = submittable db a.award
    from rfl] at h
  split at h
  · next award event photo phone hsub hphoto hphone =>
    obtain ⟨hplain, h⟩ := raiseIf_ok.mp h
    have hnone : isDuplicate upper { db with nominations := .empty } award.id (clean false a.name) =
        false := rfl
    simp only [hnone, Bool.false_eq_true, if_false] at h
    split_ifs at h with hopen hcontact
    obtain rfl := Except.ok.inj h
    simp only [validateSubmission, raiseIf, hplain, List.isEmpty_nil, if_true, hopen, hcontact,
      if_false, not_true_eq_false]
  · simp at h

/-- A check writes nothing. -/
theorem db_validate {s s' : State} {i : ℕ} {captcha : Bool} {a : SubmissionAttrs}
    {request : Request} (h : step lib clean upper s (.validate i captcha a request) = some s') :
    s'.db = s.db := by
  simp only [step] at h
  split at h
  · split_ifs at h
    · split at h <;> (obtain rfl := Option.some.inj h; rfl)
    · obtain rfl := Option.some.inj h; rfl
  · simp at h

theorem stillFree_create {s s' : State} {i : ℕ} {nominee : Id} {nk ak : Keys} {data : ValidatedData}
    {request : Request} (hi : s.calls i = .validated data request) :
    StillFree upper s (.create i nominee nk ak) s' ↔
      (¬ (120 < data.name.length ∨ 120 < data.stageName.length) → NameFree upper s.db data) := by
  constructor
  · intro hfree hfits
    rw [not_or, not_lt, not_lt] at hfits
    exact hfree i nominee nk ak data request rfl hi hfits.1 hfits.2
  · intro hfree j nominee' nk' ak' data' request' hl hj hname hstage
    obtain ⟨rfl, -⟩ := Label.create.inj hl
    obtain ⟨rfl, -⟩ := Phase.validated.inj (hi.symm.trans hj)
    exact hfree (by rw [not_or, not_lt, not_lt]; exact ⟨hname, hstage⟩)

/-- **One step** keeps the names distinct exactly when the name that it inserts is free. -/
theorem staysDistinct_iff {s s' : State} {l : Label} (hf : HasNominees s.db)
    (hd : NoDuplicates upper s.db) (h : step lib clean upper s l = some s') :
    HasNominees s'.db ∧ (StaysDistinct upper s l s' ↔ StillFree upper s l s') := by
  cases l with
  | tick d =>
    obtain rfl := Option.some.inj h
    exact ⟨hf, iff_of_true hd (by simp [StillFree])⟩
  | validate i captcha a request =>
    have hdb := db_validate h
    refine ⟨hdb ▸ hf, iff_of_true ?_ (by simp [StillFree])⟩
    unfold StaysDistinct
    rw [hdb]
    exact hd
  | review a ak =>
    obtain ⟨⟨db, r⟩, hx, rfl⟩ := Option.map_eq_some_iff.mp h
    exact ⟨hasNominees_review hf hx, iff_of_true
      (fun award => (liveNames_review hx award).nodup (hd award)) (by simp [StillFree])⟩
  | create i nominee nk ak =>
    simp only [step] at h
    split at h
    · next data request hi =>
      obtain ⟨⟨db, r⟩, hx, rfl⟩ := Option.map_eq_some_iff.mp h
      rw [stillFree_create hi]
      obtain ⟨hlong, rfl, -⟩ | ⟨hfits, nominees, nominations, audit, e, hm, hn, -, -, -, rfl⟩ :=
        saveSubmission_cases hx
      · exact ⟨hf, iff_of_true hd fun h => absurd hlong h⟩
      · refine ⟨hasNominees_insert hf hm hn, ?_⟩
        rw [← noDuplicates_insert_iff hf hd hm hn]
        exact ⟨fun h _ => h, fun h => h hfits⟩
    · simp at h

theorem nameFree_iff {db : Database} {data : ValidatedData} :
    NameFree upper db data ↔ isDuplicate upper db data.award.id data.name = false := by
  unfold NameFree
  rw [← isDuplicate_iff, Bool.not_eq_true]

theorem nameFree_of_accepted {db : Database} {now : Time} {a : SubmissionAttrs}
    {data : ValidatedData} (h : acceptSubmission lib clean upper db now a = .ok data) :
    NameFree upper db data := by
  unfold acceptSubmission at h
  split at h
  · obtain ⟨-, h⟩ := raiseIf_ok.mp h
    split_ifs at h with hopen hcontact hdup
    obtain rfl := Except.ok.inj h
    exact nameFree_iff.mpr (Bool.not_eq_true _ ▸ hdup)
  · simp at h

theorem checksName_step {s s' : State} {l : Label} (h : step lib clean upper s l = some s') :
    ChecksName lib clean upper s l s' := by
  rintro i a request rfl
  simp only [step] at h
  split at h
  · rw [if_neg (by simp)] at h
    refine ⟨fun data hdata => ?_, fun data hok => ?_⟩
    · split at h
      · obtain rfl := Option.some.inj h
        simp [State.setCall] at hdata
      · next data' haccept =>
        obtain rfl := Option.some.inj h
        obtain ⟨rfl, -⟩ : data' = data ∧ request = request := by simpa [State.setCall] using hdata
        exact nameFree_of_accepted haccept
    · rw [acceptSubmission_of_acceptable hok] at h
      cases hdup : isDuplicate upper s.db data.award.id data.name with
      | false =>
        rw [hdup] at h
        obtain rfl := Option.some.inj h
        exact ⟨fun _ => Function.update_self .., fun hn => absurd (nameFree_iff.mpr hdup) hn⟩
      | true =>
        rw [hdup] at h
        obtain rfl := Option.some.inj h
        refine ⟨fun hn => ?_, fun _ => ⟨Function.update_self .., rfl⟩⟩
        rw [nameFree_iff.mp hn] at hdup
        simp at hdup
  · simp at h

/-- **A submission that nothing interrupts** is the view's `create`. -/
theorem create_eq_createNomination {s m s' : State} {i : ℕ} {a : SubmissionAttrs}
    {request : Request} {nominee : Id} {nk ak : Keys}
    (hv : step lib clean upper s (.validate i true a request) = some m)
    (hc : step lib clean upper m (.create i nominee nk ak) = some s') : ∃ r,
      createNomination lib clean upper true s.db a request s.now nominee nk ak = some (s'.db, r) ∧
      s'.calls i = .done r := by
  simp only [step] at hv
  split at hv
  · rw [if_neg (by simp)] at hv
    split at hv
    · obtain rfl := Option.some.inj hv
      simp [step, State.setCall] at hc
    · next data hdata =>
      obtain rfl := Option.some.inj hv
      simp only [step, State.setCall, Function.update_self] at hc
      obtain ⟨⟨db, r⟩, hx, rfl⟩ := Option.map_eq_some_iff.mp hc
      refine ⟨r, ?_, Function.update_self ..⟩
      unfold createNomination
      rw [if_neg (by simp), hdata]
      exact hx
  · simp at hv

/-! ### Runs -/

/-- **When an award gets two live nominations of one name:** from a state without duplicates, there
are none in every state of a run exactly when no submission inserts a name that was taken since it
was checked. In every run the check accepts only names that are free, and refuses a form in order as
a duplicate exactly when its name is taken. -/
theorem noDuplicates_iff {s : State} {l : List Label} (hf : HasNominees s.db)
    (hd : NoDuplicates upper s.db) :
    (Along (step lib clean upper) (StaysDistinct upper) s l ↔
      Along (step lib clean upper) (StillFree upper) s l) ∧
      Along (step lib clean upper) (ChecksName lib clean upper) s l := by
  have hchecks : ∀ m label m', True → step lib clean upper m label = some m' →
      ChecksName lib clean upper m label m' := fun _ _ _ _ hk => checksName_step hk
  refine ⟨?_, along_of_run (fun _ => True) (fun _ _ _ _ _ => trivial) hchecks trivial⟩
  exact along_congr (fun m : State => HasNominees m.db ∧ NoDuplicates upper m.db)
    (fun m _ _ hm hp hk => ⟨(staysDistinct_iff hm.1 hm.2 hk).1, hp⟩)
    (fun m _ _ hm hk => (staysDistinct_iff hm.1 hm.2 hk).2) ⟨hf, hd⟩

/-- An event that takes nominations in `[10, 20)`. -/
def taking : Event where
  id := 3
  name := "Finals"
  slug := "finals"
  year := 2026
  status := .nominationsOpen
  nominationsOpenAt := some 10
  nominationsCloseAt := some 20

/-- The event with one award. -/
def takingDb : Database where
  events := ⟨[taking], by decide⟩
  categories := ⟨[{ id := 12, event := 3, name := "Dance", slug := "dance" }], by decide⟩
  awards := ⟨[{ id := 21, category := 12, name := "Duo", slug := "duo" }], by decide⟩

/-- `UPPER` on ASCII letters. -/
def asciiUpper (s : String) : String := String.ofList (s.toList.map Char.toUpper)

def amani (name : String) : SubmissionAttrs where
  award := 21
  name := name
  photo := .ok "amani.jpg"
  contactEmail := some "amani@example.com"

def visitor : Request := ⟨some "10.0.0.1", "", .anonymous⟩

/-- A second submission of the name comes after the first, and then one of another name. -/
def oneAfterAnother : List Label :=
  [.validate 0 true (amani "Amani") visitor, .create 0 30 ⟨40, 1⟩ ⟨70, 1⟩,
    .validate 1 true (amani "amani") visitor, .validate 2 true (amani "Baraka") visitor,
    .create 2 31 ⟨41, 2⟩ ⟨71, 2⟩]

/-- Both are checked before either is inserted. -/
def overlapping : List Label :=
  [.validate 0 true (amani "Amani") visitor, .validate 1 true (amani "amani") visitor,
    .create 0 30 ⟨40, 1⟩ ⟨70, 1⟩, .create 1 31 ⟨41, 2⟩ ⟨71, 2⟩]

theorem noDuplicates_takingDb (upper : String → String) : NoDuplicates upper takingDb :=
  fun _ => List.nodup_nil

theorem noDuplicates_iff_taking :
    (run (step kenya (fun _ s => s) asciiUpper) ⟨takingDb, 15, fun _ => .idle⟩ oneAfterAnother).map
        (fun s => liveNames asciiUpper s.db 21) = some ["AMANI", "BARAKA"] ∧
      Along (step kenya (fun _ s => s) asciiUpper) (StillFree asciiUpper)
        ⟨takingDb, 15, fun _ => .idle⟩ oneAfterAnother ∧
      Along (step kenya (fun _ s => s) asciiUpper) (StaysDistinct asciiUpper)
        ⟨takingDb, 15, fun _ => .idle⟩ oneAfterAnother ∧
      Along (step kenya (fun _ s => s) asciiUpper) (ChecksName kenya (fun _ s => s) asciiUpper)
        ⟨takingDb, 15, fun _ => .idle⟩ oneAfterAnother := by
  have hfree : Along (step kenya (fun _ s => s) asciiUpper) (StillFree asciiUpper)
      ⟨takingDb, 15, fun _ => .idle⟩ oneAfterAnother := by decide +kernel
  have hnominees : HasNominees takingDb := fun _ hn => absurd hn List.not_mem_nil
  exact ⟨by decide +kernel, hfree,
    (noDuplicates_iff hnominees (noDuplicates_takingDb asciiUpper)).1.mpr hfree,
    (noDuplicates_iff hnominees (noDuplicates_takingDb asciiUpper)).2⟩

/-- Two overlapping submissions of one name are both inserted. -/
theorem duplicates_overlapping : ∃ s', run (step kenya (fun _ s => s) asciiUpper)
    ⟨takingDb, 15, fun _ => .idle⟩ overlapping = some s' ∧
      liveNames asciiUpper s'.db 21 = ["AMANI", "AMANI"] ∧ ¬ NoDuplicates asciiUpper s'.db := by
  have hr :
      (run (step kenya (fun _ s => s) asciiUpper) ⟨takingDb, 15, fun _ => .idle⟩ overlapping).map
      (fun s => liveNames asciiUpper s.db 21) = some ["AMANI", "AMANI"] := by rfl
  obtain ⟨s', hs', hnames⟩ := Option.map_eq_some_iff.mp hr
  refine ⟨s', hs', hnames, fun h => ?_⟩
  have hnodup := h 21
  rw [hnames] at hnodup
  exact absurd hnodup (by decide)

end KwAwards.Nominations.Duplicates
