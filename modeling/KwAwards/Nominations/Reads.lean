import KwAwards.Events.Reads

/-! # Reading nominations and nominees

`publicNominations` is the one public view of nominations: approved, of an active award, in an event
that is not a draft. `NominationViewSet` lists and retrieves them (moderators, who see all, are not
modelled here), `AwardNominationsView` lists those of one award, and `NomineeViewSet` shows a
nominee with theirs.

`PublicNomination` is what is public of a row. `SameNomination` and `SameNominee` relate the rows of
two databases of which that is the same, and nothing that the views declare or serialise tells such
rows apart. -/

namespace KwAwards.Nominations.Reads

open KwAwards.Lib.Tables KwAwards.Lib.ListViews KwAwards.Common.Base KwAwards.Common.Exceptions
open KwAwards.Events.Models KwAwards.Events.Reads KwAwards.Nominations.Models KwAwards.Store

open List (Forall₂)

/-! ### The rows -/

/-- A nomination with the rows its `select_related` joins. -/
structure NominationRow where
  nomination : Nomination
  nominee : Nominee
  award : AwardRow
  deriving DecidableEq, Repr

def joinNomination (db : Database) (nomination : Nomination) : Option NominationRow :=
  (db.nominees.get? nomination.nominee).bind fun nominee =>
    ((db.awards.get? nomination.award).bind (joinAward db)).map fun award =>
      ⟨nomination, nominee, award⟩

def nominationRows (db : Database) : List NominationRow :=
  db.nominations.rows.filterMap (joinNomination db)

/-- Approved, of an active award, in an event that is not a draft. -/
def NominationRow.isPublic (r : NominationRow) : Bool :=
  decide (r.nomination.status = .approved) && r.award.award.isActive &&
    decide (r.award.event.status ≠ .draft)

/-- **`public_nominations`**; they come in the order `nominee__name`, `id`. -/
def publicNominations (db : Database) : List NominationRow :=
  (nominationRows db).filter NominationRow.isPublic

def nominationOrdering : List (Term NominationRow Column) :=
  [⟨fun r => .text r.nominee.name, false⟩, ⟨fun r => .id r.nomination.id, false⟩]

/-- The query of `AwardNominationsView` for its award. -/
def activeAward (db : Database) (award : Id) : Option AwardRow :=
  (awardRows db).find? fun r =>
    decide (r.award.id = award) && r.award.isActive && decide (r.event.status ≠ .draft)

/-- `NomineeViewSet.get_queryset`: the nominees of public nominations, each once. -/
def nomineeQueryset (db : Database) : List Nominee :=
  ((publicNominations db).map NominationRow.nominee).dedup

/-! ### Filters, search and order -/

/-- The cleaned parameters of `NominationFilter`. -/
structure NominationFilter where
  event : Option String := none
  category : Option Id := none
  award : Option Id := none
  status : Option NominationStatus := none

def NominationFilter.passes (f : NominationFilter) (r : NominationRow) : Bool :=
  f.event.all (fun slug => r.award.event.slug = slug) &&
    f.category.all (fun c => r.award.award.category = c) && f.award.all
      (fun a => r.nomination.award = a) &&
    f.status.all fun s => r.nomination.status = s

section Views

variable {Q : Type}

/-- `NominationViewSet`. -/
def nominationView (parse : Q → Except ApiError NominationFilter) :
    View Q NominationRow Column ApiError where
  filterset q := (parse q).map NominationFilter.passes
  searchFields := some fun r => [r.nominee.name, r.nominee.stageName]
  orderingFields :=
    [("created_at", [⟨fun r => .time r.nomination.createdAt, false⟩]),
      ("nominee__name", [⟨fun r => .text r.nominee.name, false⟩])]
  ordering := nominationOrdering

/-- `AwardNominationsView`: no filter set, and the fields of `PublicNominationSerializer`. -/
def awardNominationsView : View Q NominationRow Column ApiError where
  filterset _ := .ok fun _ => true
  searchFields := some fun r => [r.nominee.name, r.nominee.stageName]
  orderingFields :=
    [("id", [⟨fun r => .id r.nomination.id, false⟩]),
      ("award", awardOrdering.map (·.on fun r => r.award.award)),
      ("nominee", [⟨fun r => .text r.nominee.name, false⟩])]
  ordering := nominationOrdering

/-- `NomineeViewSet`: no filter set, no search, and the fields of `NomineeProfileSerializer`. -/
def nomineeView : View Q Nominee Column ApiError where
  filterset _ := .ok fun _ => true
  orderingFields :=
    [("id", [⟨fun m => .id m.id, false⟩]), ("name", [⟨fun m => .text m.name, false⟩]),
      ("stage_name", [⟨fun m => .text m.stageName, false⟩]),
      ("bio", [⟨fun m => .text m.bio, false⟩]),
      ("photo", [⟨fun m => .text m.photo, false⟩]),
      ("website_url", [⟨fun m => .text m.links.websiteUrl, false⟩]),
      ("instagram_url", [⟨fun m => .text m.links.instagramUrl, false⟩]),
      ("facebook_url", [⟨fun m => .text m.links.facebookUrl, false⟩]),
      ("x_url", [⟨fun m => .text m.links.xUrl, false⟩]),
      ("youtube_url", [⟨fun m => .text m.links.youtubeUrl, false⟩]),
      ("tiktok_url", [⟨fun m => .text m.links.tiktokUrl, false⟩])]
  ordering := [⟨fun m => .text m.name, false⟩]

end Views

/-! ### Serializers -/

/-- `AwardRefSerializer`. -/
structure AwardRefData where
  id : Id
  name : String
  slug : String
  categoryId : Id
  categoryName : String
  categorySlug : String
  event : String
  deriving DecidableEq, Repr

def awardRef (r : AwardRow) : AwardRefData :=
  ⟨r.award.id, r.award.name, r.award.slug, r.award.category, r.category.name, r.category.slug,
    r.event.slug⟩

/-- `PublicNomineeSerializer`: the `PUBLIC_NOMINEE_FIELDS`. -/
structure PublicNomineeData where
  id : Id
  name : String
  stageName : String
  bio : String
  photo : Option String
  links : Links
  deriving DecidableEq, Repr

/-- `url` is the absolute address of a stored file. -/
def publicNominee (url : String → String) (m : Nominee) : PublicNomineeData where
  id := m.id
  name := m.name
  stageName := m.stageName
  bio := m.bio
  photo := if m.photo = "" then none else some (url m.photo)
  links := m.links

/-- `PublicNominationSerializer`. -/
structure NominationData where
  id : Id
  award : AwardRefData
  nominee : PublicNomineeData
  deriving DecidableEq, Repr

def nominationData (url : String → String) (r : NominationRow) : NominationData :=
  ⟨r.nomination.id, awardRef r.award, publicNominee url r.nominee⟩

/-- `NomineeProfileSerializer`; a nomination is shown by its key and its award. -/
structure NomineeProfileData where
  nominee : PublicNomineeData
  nominations : List (Id × AwardRefData)
  deriving DecidableEq, Repr

/-- The prefetched `visible_nominations`. -/
def visibleNominations (cmp : Column → Column → Ordering) (db : Database) (nominee : Id) :
    List NominationRow :=
  orderBy cmp nominationOrdering
    ((publicNominations db).filter fun r => r.nomination.nominee = nominee)

def nomineeProfile (cmp : Column → Column → Ordering) (url : String → String) (db : Database)
    (m : Nominee) : NomineeProfileData where
  nominee := publicNominee url m
  nominations := (visibleNominations cmp db m.id).map fun r => (r.nomination.id, awardRef r.award)

/-! ### What is public of a row -/

/-- The public columns of a nominee. -/
structure PublicNominee where
  id : Id
  name : String
  stageName : String
  bio : String
  photo : String
  links : Links
  deriving DecidableEq, Repr

def PublicNominee.of (m : Nominee) : PublicNominee :=
  ⟨m.id, m.name, m.stageName, m.bio, m.photo, m.links⟩

/-- What is public of a public nomination. -/
structure PublicNomination where
  id : Id
  status : NominationStatus
  createdAt : Time
  nominee : PublicNominee
  award : AwardRow
  deriving DecidableEq, Repr

def PublicNomination.of (r : NominationRow) : PublicNomination :=
  ⟨r.nomination.id, r.nomination.status, r.nomination.createdAt, .of r.nominee, r.award⟩

/-- A row of the database, as joined. -/
def NominationRow.Stored (db : Database) (r : NominationRow) : Prop :=
  r.nomination ∈ db.nominations.rows ∧ joinNomination db r.nomination = some r

theorem mem_nominationRows {db : Database} {r : NominationRow} :
    r ∈ nominationRows db ↔ r.Stored db := by
  unfold nominationRows NominationRow.Stored
  rw [List.mem_filterMap]
  constructor
  · rintro ⟨n, hn, h⟩
    obtain ⟨m, -, hm⟩ := Option.bind_eq_some_iff.mp h
    obtain ⟨a, -, rfl⟩ := Option.map_eq_some_iff.mp hm
    exact ⟨hn, h⟩
  · rintro ⟨hn, h⟩
    exact ⟨r.nomination, hn, h⟩

/-- What a joined nomination is made of. -/
theorem joinNomination_eq_some {db : Database} {n : Nomination} {r : NominationRow} :
    joinNomination db n = some r ↔ r.nomination = n ∧ db.nominees.get? n.nominee = some r.nominee ∧
      (db.awards.get? n.award).bind (joinAward db) = some r.award := by
  unfold joinNomination
  rw [Option.bind_eq_some_iff]
  constructor
  · rintro ⟨m, hm, h⟩
    obtain ⟨a, ha, rfl⟩ := Option.map_eq_some_iff.mp h
    exact ⟨rfl, hm, ha⟩
  · rintro ⟨rfl, hm, ha⟩
    exact ⟨r.nominee, hm, by rw [ha]; rfl⟩

theorem NominationRow.Stored.nominee {db : Database} {r : NominationRow} (h : r.Stored db) :
    db.nominees.get? r.nominee.id = some r.nominee ∧ r.nomination.nominee = r.nominee.id := by
  obtain ⟨-, hm, -⟩ := joinNomination_eq_some.mp h.2
  have hkey : r.nominee.id = r.nomination.nominee := Table.key_of_get? hm
  exact ⟨hkey ▸ hm, hkey.symm⟩

theorem NominationRow.Stored.award_id {db : Database} {r : NominationRow} (h : r.Stored db) :
    r.nomination.award = r.award.award.id := by
  obtain ⟨-, -, ha⟩ := joinNomination_eq_some.mp h.2
  obtain ⟨w, hw, hj⟩ := Option.bind_eq_some_iff.mp ha
  obtain ⟨c, -, hj⟩ := Option.bind_eq_some_iff.mp hj
  obtain ⟨e, -, hj⟩ := Option.map_eq_some_iff.mp hj
  rw [← hj]
  exact (Table.key_of_get? hw).symm

/-- Two joined rows of two databases that are the same in public. -/
structure SameNomination (db db' : Database) (r r' : NominationRow) : Prop where
  stored : r.Stored db
  stored' : r'.Stored db'
  same : PublicNomination.of r = PublicNomination.of r'

/-- Two nominees of two databases that are the same in public. -/
structure SameNominee (db db' : Database) (m m' : Nominee) : Prop where
  stored : db.nominees.get? m.id = some m
  stored' : db'.nominees.get? m'.id = some m'
  same : PublicNominee.of m = PublicNominee.of m'

variable {db db' : Database}

theorem SameNominee.id {m m' : Nominee} (h : SameNominee db db' m m') : m.id = m'.id :=
  congrArg PublicNominee.id h.same

theorem SameNominee.name {m m' : Nominee} (h : SameNominee db db' m m') : m.name = m'.name :=
  congrArg PublicNominee.name h.same

theorem SameNominee.stageName {m m' : Nominee} (h : SameNominee db db' m m') :
    m.stageName = m'.stageName :=
  congrArg PublicNominee.stageName h.same

theorem biUnique_sameNominee : Relator.BiUnique (SameNominee db db') := by
  constructor
  · intro m n m' h h'
    have hid : m.id = n.id := h.id.trans h'.id.symm
    exact Option.some.inj (h.stored.symm.trans (hid ▸ h'.stored))
  · intro m m' n' h h'
    have hid : m'.id = n'.id := h.id.symm.trans h'.id
    exact Option.some.inj (h.stored'.symm.trans (hid ▸ h'.stored'))

namespace SameNomination

variable {r r' : NominationRow} (h : SameNomination db db' r r')

include h

theorem id : r.nomination.id = r'.nomination.id := congrArg PublicNomination.id h.same

theorem status : r.nomination.status = r'.nomination.status :=
  congrArg PublicNomination.status h.same

theorem createdAt : r.nomination.createdAt = r'.nomination.createdAt :=
  congrArg PublicNomination.createdAt h.same

theorem award : r.award = r'.award := congrArg PublicNomination.award h.same

theorem nominee : SameNominee db db' r.nominee r'.nominee :=
  ⟨h.stored.nominee.1, h.stored'.nominee.1, congrArg PublicNomination.nominee h.same⟩

theorem nominee_id : r.nomination.nominee = r'.nomination.nominee := by
  rw [h.stored.nominee.2, h.stored'.nominee.2, h.nominee.id]

theorem award_id : r.nomination.award = r'.nomination.award := by
  rw [h.stored.award_id, h.stored'.award_id, h.award]

end SameNomination

/-- **Databases with the same public nominations** have rows that are the same in public. -/
theorem forall₂_sameNomination
    (h : (publicNominations db).map PublicNomination.of = (publicNominations db').map
      PublicNomination.of) :
    Forall₂ (SameNomination db db') (publicNominations db) (publicNominations db') := by
  have hstored : ∀ {d : Database}, ∀ r ∈ publicNominations d, r.Stored d :=
    fun r hr => mem_nominationRows.mp (List.mem_filter.mp hr).1
  obtain ⟨hlen, hsame⟩ := List.forall₂_iff_get.mp (forall₂_of_map_eq h)
  refine List.forall₂_iff_get.mpr ⟨hlen, fun i hi hi' => ?_⟩
  exact ⟨hstored _ (List.get_mem _ _), hstored _ (List.get_mem _ _), hsame i hi hi'⟩

theorem forall₂_sameNominee {l l' : List NominationRow} (h : Forall₂ (SameNomination db db') l l') :
    Forall₂ (SameNominee db db') (l.map NominationRow.nominee) (l'.map NominationRow.nominee) :=
  List.rel_map (fun _ _ h => SameNomination.nominee h) h

/-! ### What the views do not tell apart -/

theorem respects_passes (f : NominationFilter) : Respects (SameNomination db db') f.passes := by
  intro r r' h
  unfold NominationFilter.passes
  rw [h.award, h.award_id, h.status]

/-- The texts that are searched. -/
theorem respects_names :
    Respects (SameNomination db db') fun r => [r.nominee.name, r.nominee.stageName] := by
  intro r r' h
  show [r.nominee.name, r.nominee.stageName] = [r'.nominee.name, r'.nominee.stageName]
  rw [h.nominee.name, h.nominee.stageName]

theorem respects_nominationOrdering :
    ∀ t ∈ nominationOrdering, Respects (SameNomination db db') t.column := by
  simp only [nominationOrdering, List.forall_mem_cons, List.not_mem_nil, false_implies,
    implies_true, and_true]
  exact ⟨fun _ _ h => congrArg (fun s : String => Column.text s) h.nominee.name,
    fun _ _ h => congrArg Column.id h.id⟩

theorem respects_nominationView {Q : Type} (parse : Q → Except ApiError NominationFilter) :
    (nominationView parse).Respects (SameNomination db db') where
  filterset _ _ h := respects_of_map respects_passes h
  search f h := by
    obtain rfl := Option.some.inj h
    exact respects_names
  orderingFields := by
    simp only [nominationView, List.forall_mem_cons, List.not_mem_nil, false_implies, implies_true,
      and_true]
    exact ⟨fun _ _ h => congrArg (fun t : Time => Column.time t) h.createdAt,
      fun _ _ h => congrArg (fun s : String => Column.text s) h.nominee.name⟩
  ordering := respects_nominationOrdering

theorem respects_awardNominationsView {Q : Type} :
    (awardNominationsView (Q := Q)).Respects (SameNomination db db') where
  filterset _ p h := by
    obtain rfl := Except.ok.inj h
    exact fun _ _ _ => rfl
  search f h := by
    obtain rfl := Option.some.inj h
    exact respects_names
  orderingFields := by
    simp only [awardNominationsView, List.forall_mem_cons, List.not_mem_nil, false_implies,
      implies_true, and_true, List.forall_mem_map]
    refine ⟨fun _ _ h => congrArg Column.id h.id, fun t _ r r' h => ?_,
      fun _ _ h => congrArg (fun s : String => Column.text s) h.nominee.name⟩
    exact congrArg (fun a : AwardRow => t.column a.award) h.award
  ordering := respects_nominationOrdering

theorem respects_nomineeView {Q : Type} : (nomineeView (Q := Q)).Respects (SameNominee db db') where
  filterset _ p h := by
    obtain rfl := Except.ok.inj h
    exact fun _ _ _ => rfl
  search _ h := by simp [nomineeView] at h
  orderingFields x hx t ht m m' h := by
    have hsame := h.same
    simp only [PublicNominee.of, PublicNominee.mk.injEq] at hsame
    obtain ⟨hid, hname, hstage, hbio, hphoto, hlinks⟩ := hsame
    simp only [nomineeView, List.mem_cons, List.not_mem_nil, or_false] at hx
    rcases hx with rfl | rfl | rfl | rfl | rfl | rfl | rfl | rfl | rfl | rfl | rfl
    all_goals
      obtain rfl := List.mem_singleton.mp ht
      simp only [hid, hname, hstage, hbio, hphoto, hlinks]
  ordering t ht m m' h := by
    obtain rfl := List.mem_singleton.mp ht
    exact congrArg (fun s : String => Column.text s) h.name

/-! ### What the serializers do not tell apart -/

theorem SameNominee.publicNominee (url : String → String) {m m' : Nominee}
    (h : SameNominee db db' m m') :
    publicNominee url m = publicNominee url m' := by
  have hsame := h.same
  simp only [PublicNominee.of, PublicNominee.mk.injEq] at hsame
  obtain ⟨hid, hname, hstage, hbio, hphoto, hlinks⟩ := hsame
  simp only [Reads.publicNominee, hid, hname, hstage, hbio, hphoto, hlinks]

theorem SameNomination.nominationData (url : String → String) {r r' : NominationRow}
    (h : SameNomination db db' r r') : nominationData url r = nominationData url r' := by
  unfold Reads.nominationData
  rw [h.id, h.award, h.nominee.publicNominee url]

/-- The public nominations that a condition takes, in an order. -/
theorem forall₂_visibleNominations (cmp : Column → Column → Ordering)
    (h : Forall₂ (SameNomination db db') (publicNominations db) (publicNominations db'))
    (nominee : Id) :
    Forall₂ (SameNomination db db') (visibleNominations cmp db nominee)
      (visibleNominations cmp db' nominee) := by
  refine forall₂_orderBy respects_nominationOrdering (forall₂_filter (fun r r' hr => ?_) h)
  show decide (r.nomination.nominee = nominee) = decide (r'.nomination.nominee = nominee)
  rw [hr.nominee_id]

/-- **What a nominee shows** is read off the public nominations. -/
theorem nomineeProfile_congr (cmp : Column → Column → Ordering) (url : String → String)
    (h : Forall₂ (SameNomination db db') (publicNominations db) (publicNominations db'))
    {m m' : Nominee} (hm : SameNominee db db' m m') :
    nomineeProfile cmp url db m = nomineeProfile cmp url db' m' := by
  have hvisible := forall₂_visibleNominations cmp h m.id
  rw [hm.id] at hvisible
  unfold nomineeProfile
  rw [hm.publicNominee url, hm.id]
  congr 1
  refine map_eq_of_forall₂ (fun r r' hr => ?_) hvisible
  rw [hr.id, hr.award]

end KwAwards.Nominations.Reads
