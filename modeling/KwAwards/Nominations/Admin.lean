import KwAwards.Nominations.Services

/-! # Reviewing nominations in bulk

`review` is the admin's action `NominationAdmin._review` on the selected nominations of the
changelist. Its queryset is a predicate, the active filter and the selection, that is evaluated when
the action loops over the pending nominations and once more, after the loop, when it counts
(`Queryset.rows`). By then the loop has changed the column that the filter may be about.

The loop moves every pending nomination of the selection (`reviewAll_ok`), and the counts that are
reported are true when the filter still matches these nominations afterwards
(`review_counts_iff`). -/

namespace KwAwards.Nominations.Admin

open KwAwards.Lib.Tables KwAwards.Common.Base KwAwards.Common.Exceptions KwAwards.Nominations.Models
open KwAwards.Nominations.Services KwAwards.Store

/-- The queryset of an action: the filter of the changelist, which may read the rows that a
nomination refers to, as they stand, and the selection. -/
structure Queryset where
  filter : Nomination → Bool
  selected : Id → Bool

/-- The queryset, evaluated. -/
def Queryset.rows (q : Queryset) (db : Database) : List Nomination :=
  db.nominations.rows.filter fun n => q.filter n && q.selected n.id

/-- `queryset.filter(status=NominationStatus.PENDING)`, evaluated. -/
def Queryset.pending (q : Queryset) (db : Database) : List Nomination :=
  (q.rows db).filter fun n => n.status = .pending

/-- The request of an action: what is posted and by whom, and for the review of each nomination its
instant and the keys of its entry. -/
structure Action where
  approve : Bool
  reason : Option String := none
  reviewer : Id
  request : Request
  clock : Id → Time
  keys : Id → Keys

/-- The level of a message. -/
inductive Level
  | success
  | warning
  | error
  deriving DecidableEq, Repr

/-- A message to the user. -/
structure Message where
  text : String
  level : Level
  deriving DecidableEq, Repr

/-- What the action counts and says. -/
structure Report where
  done : ℕ
  skipped : ℤ
  messages : List Message
  deriving DecidableEq, Repr

/-- How the action ends: without a reason, with an exception that it does not catch, or with a
report. -/
inductive Outcome
  | refused (m : Message)
  | raised (e : Raised)
  | reported (r : Report)
  deriving DecidableEq, Repr

/-- `str(nomination)`. -/
def nominationStr (db : Database) (n : Nomination) : String :=
  let nominee := (db.nominees.get? n.nominee).elim "" fun m =>
    if m.stageName = "" then m.name else m.stageName
  let award := (db.awards.get? n.award).elim "" fun w => w.name
  nominee ++ " -> " ++ award ++ " [" ++ n.status.value ++ "]"

section Clean

variable (clean : Bool → String → String)

/-- `clean_text(request.POST.get("reason", ""))`. -/
def Action.cleaned (a : Action) : String := clean false (a.reason.getD "")

/-- The arguments of the review of a nomination. -/
def Action.args (a : Action) (nomination : Id) : ReviewArgs where
  nomination := nomination
  approve := a.approve
  reviewer := a.reviewer
  reason := a.cleaned clean
  request := some a.request

/-- The row of a nomination after its review. -/
def Action.decided (a : Action) (n : Nomination) : Nomination :=
  reviewed n (a.args clean n.id) (a.clock n.id)

/-- **The loop** over the pending nominations: how many were done, and the messages about the
others. -/
def reviewAll (a : Action) : List Nomination → Database → ℕ → List Message →
    Option (Database × Except Raised (ℕ × List Message))
  | [], db, done, messages => some (db, .ok (done, messages))
  | n :: ns, db, done, messages =>
    (reviewNomination db (a.args clean n.id) (a.clock n.id) (a.keys n.id)).bind fun (db', r) =>
      match r with
      | .ok _ => reviewAll a ns db' (done + 1) messages
      | .error (.api e) =>
        reviewAll a ns db' done (messages ++ [⟨nominationStr db n ++ ": " ++ e.detail, .error⟩])
      | .error e => some (db', .error e)

/-- The last message. -/
def summary (approve : Bool) (done : ℕ) (skipped : ℤ) : Message where
  text := (if approve then "Approved " else "Rejected ") ++ toString done ++ " nomination(s)." ++
    if skipped = 0 then "" else " Skipped " ++ toString skipped ++ " that were not pending."
  level := if done = 0 then .warning else .success

/-- **`NominationAdmin._review`**. -/
def review (a : Action) (q : Queryset) (db : Database) : Option (Database × Outcome) :=
  if ¬ a.approve ∧ a.cleaned clean = "" then
    some (db, .refused ⟨"Enter a reason to reject nominations.", .error⟩)
  else
    (reviewAll clean a (q.pending db) db 0 []).map fun (db', r) =>
      match r with
      | .error e => (db', .raised e)
      | .ok (done, messages) =>
        let skipped : ℤ := (q.rows db').length - done
        (db', .reported ⟨done, skipped, messages ++ [summary a.approve done skipped]⟩)

variable {clean} {a : Action} {q : Queryset} {db db' : Database}

/-! ### The loop -/

theorem id_decided (n : Nomination) : (a.decided clean n).id = n.id := rfl

/-- The review of a pending nomination saves it, unless it ends with an exception. -/
theorem reviewNomination_pending {n : Nomination} {r : Except Raised Nomination}
    (hn : db.nominations.get? n.id = some n) (hp : n.status = .pending)
    (h : reviewNomination db (a.args clean n.id) (a.clock n.id) (a.keys n.id) = some (db', r)) :
    (∃ e, r = .error (.db e)) ∨
      (r = .ok (a.decided clean n) ∧ db'.nominations = db.nominations.put (a.decided clean n)) := by
  have hid : (a.args clean n.id).nomination = n.id := rfl
  unfold reviewNomination at h
  simp only [hid, hn, hp, not_true, if_false] at h
  split at h
  · obtain ⟨rfl, rfl⟩ := Prod.mk.inj (Option.some.inj h)
    exact Or.inl ⟨_, rfl⟩
  · obtain ⟨db₁, hw, h⟩ := Option.map_eq_some_iff.mp h
    obtain ⟨rfl, rfl⟩ := Prod.mk.inj h
    obtain ⟨_, _, -, -, -, rfl⟩ := Database.write_eq_some hw
    exact Or.inr ⟨rfl, rfl⟩

/-- The rows after the reviews of some nominations. -/
def decideRows (clean : Bool → String → String) (a : Action) (ids : List Id)
    (rows : List Nomination) :
    List Nomination :=
  rows.map fun n => if n.id ∈ ids then a.decided clean n else n

theorem decideRows_cons {n : Nomination} {ids : List Id} (hn : db.nominations.get? n.id = some n)
    (hids : n.id ∉ ids) : decideRows clean a (n.id :: ids) db.nominations.rows =
      decideRows clean a ids (db.nominations.put (a.decided clean n)).rows := by
  have hkey : db.nominations.get? (key (a.decided clean n)) = some n := hn
  unfold decideRows
  rw [Table.rows_put_of_get? hkey, List.map_map]
  refine List.map_congr_left fun m hm => ?_
  by_cases hmn : m.id = n.id
  · obtain rfl : m = n := Table.eq_of_key hm (Table.get?_eq_some.mp hn).1 hmn
    simp [id_decided, hids]
  · have hne : m.id ≠ (a.decided clean n).id := hmn
    simp [hmn, hne]

/-- **The loop moves every nomination** that it goes over, and none of them fails. -/
theorem reviewAll_ok {ns : List Nomination} {done done' : ℕ} {messages messages' : List Message}
    (hnodup : (ns.map Nomination.id).Nodup) (hns : ∀ n ∈ ns, db.nominations.get? n.id = some n)
    (hpending : ∀ n ∈ ns, n.status = .pending)
    (h : reviewAll clean a ns db done messages = some (db', .ok (done', messages'))) :
    done' = done + ns.length ∧ messages' = messages ∧
      db'.nominations.rows = decideRows clean a (ns.map Nomination.id) db.nominations.rows := by
  induction ns generalizing db done with
  | nil =>
    obtain ⟨rfl, hr⟩ := Prod.mk.inj (Option.some.inj h)
    obtain ⟨rfl, rfl⟩ := Prod.mk.inj (Except.ok.inj hr)
    exact ⟨rfl, rfl, by simp [decideRows]⟩
  | cons n ns ih =>
    obtain ⟨hn, hns⟩ := List.forall_mem_cons.mp hns
    obtain ⟨hp, hpending⟩ := List.forall_mem_cons.mp hpending
    rw [List.map_cons, List.nodup_cons] at hnodup
    obtain ⟨⟨db₁, r⟩, hone, h⟩ := Option.bind_eq_some_iff.mp h
    obtain ⟨e, rfl⟩ | ⟨rfl, hrows⟩ := reviewNomination_pending hn hp hone
    · simp at h
    · have hkept : ∀ m ∈ ns, db₁.nominations.get? m.id = some m := by
        intro m hm
        rw [hrows, Table.get?_put, if_neg, hns m hm]
        exact fun he => hnodup.1 (List.mem_map.mpr ⟨m, hm, he⟩)
      obtain ⟨hdone, hmessages, hdb⟩ := ih hnodup.2 hkept hpending h
      refine ⟨by rw [hdone, List.length_cons]; omega, hmessages, ?_⟩
      rw [hdb, hrows, List.map_cons, decideRows_cons hn hnodup.1]

/-! ### The counts -/

/-- The nomination was pending and the action has moved it. -/
def Moved (clean : Bool → String → String) (a : Action) (db' : Database) (n : Nomination) : Prop :=
  n.status = .pending ∧ db'.nominations.get? n.id = some (a.decided clean n)

instance (clean : Bool → String → String) (a : Action) (db' : Database) (n : Nomination) :
    Decidable (Moved clean a db' n) := inferInstanceAs (Decidable (_ ∧ _))

/-- **True counts:** of the nominations selected at the start, those that the action has moved are
done and the others, which were not pending or failed, are skipped. -/
structure TrueCounts (clean : Bool → String → String) (a : Action) (q : Queryset)
    (db db' : Database) (r : Report) : Prop where
  done : r.done = ((q.rows db).filter fun n => Moved clean a db' n).length
  skipped : r.skipped = ((q.rows db).filter fun n => ¬ Moved clean a db' n).length

theorem TrueCounts.skipped_nonneg {r : Report} (h : TrueCounts clean a q db db' r) :
    0 ≤ r.skipped := by
  rw [h.skipped]
  exact Int.natCast_nonneg _

theorem mem_pending {n : Nomination} : n ∈ q.pending db ↔
    n ∈ db.nominations.rows ∧ q.filter n = true ∧ q.selected n.id = true ∧ n.status = .pending := by
  simp only [Queryset.pending, Queryset.rows, List.mem_filter, Bool.and_eq_true, decide_eq_true_eq,
    and_assoc]

theorem nodup_pending : ((q.pending db).map Nomination.id).Nodup :=
  db.nominations.nodup.sublist ((List.filter_sublist.trans List.filter_sublist).map _)

theorem mem_ids_pending {n : Nomination} (hn : n ∈ db.nominations.rows) :
    n.id ∈ (q.pending db).map Nomination.id ↔ n ∈ q.pending db := by
  constructor
  · intro h
    obtain ⟨m, hm, hid⟩ := List.mem_map.mp h
    obtain rfl : m = n := Table.eq_of_key (mem_pending.mp hm).1 hn hid
    exact hm
  · exact List.mem_map_of_mem

/-- What a report comes from: the loop over the pending nominations, and the count after it. -/
theorem review_reported {r : Report} (h : review clean a q db = some (db', .reported r)) :
    r.done = (q.pending db).length ∧ r.skipped = (q.rows db').length - (q.pending db).length ∧
      db'.nominations.rows =
        decideRows clean a ((q.pending db).map Nomination.id) db.nominations.rows := by
  unfold review at h
  split_ifs at h with hreason
  · simp at h
  · obtain ⟨⟨db₁, x⟩, hloop, h⟩ := Option.map_eq_some_iff.mp h
    rcases x with e | ⟨done, messages⟩
    · simp at h
    · obtain ⟨rfl, hr⟩ := Prod.mk.inj h
      obtain rfl := Outcome.reported.inj hr
      obtain ⟨hdone, -, hrows⟩ := reviewAll_ok nodup_pending
        (fun n hn => Table.get?_key (mem_pending.mp hn).1)
          (fun n hn => (mem_pending.mp hn).2.2.2) hloop
      rw [Nat.zero_add] at hdone
      exact ⟨hdone, by rw [hdone], hrows⟩

/-- Of the selected nominations the pending ones have moved. -/
theorem moved_iff (hrows : db'.nominations.rows =
      decideRows clean a ((q.pending db).map Nomination.id) db.nominations.rows) {n : Nomination}
    (hn : n ∈ q.rows db) : Moved clean a db' n ↔ n.status = .pending := by
  refine ⟨fun h => h.1, fun hp => ⟨hp, ?_⟩⟩
  have hpending : n ∈ q.pending db := List.mem_filter.mpr ⟨hn, decide_eq_true hp⟩
  have hmem : n ∈ db.nominations.rows := (mem_pending.mp hpending).1
  refine Table.get?_eq_some.mpr ⟨?_, id_decided n⟩
  rw [hrows]
  exact List.mem_map.mpr ⟨n, hmem, if_pos ((mem_ids_pending hmem).mpr hpending)⟩

theorem countP_add {α : Type*} {p p' r : α → Bool} {l : List α}
    (h : ∀ x ∈ l, (p x).toNat + (p' x).toNat = (r x).toNat) :
    l.countP p + l.countP p' = l.countP r := by
  have hone : ∀ (p : α → Bool) (x : α) (l : List α),
      (x :: l).countP p = l.countP p + (p x).toNat := by
    intro p x l
    rw [List.countP_cons]
    cases p x <;> rfl
  induction l with
  | nil => rfl
  | cons x l ih =>
    obtain ⟨hx, hl⟩ := List.forall_mem_cons.mp h
    rw [hone, hone, hone, ← ih hl]
    omega

/-- **The second evaluation** finds what the first one did, without the moved nominations that the
filter no longer matches. -/
theorem length_rows_decided (hrows : db'.nominations.rows =
      decideRows clean a ((q.pending db).map Nomination.id) db.nominations.rows) :
    (q.rows db').length + (q.pending db).countP (fun n => !q.filter (a.decided clean n)) =
      (q.rows db).length := by
  unfold Queryset.pending Queryset.rows
  rw [hrows, ← List.countP_eq_length_filter, ← List.countP_eq_length_filter, decideRows,
    List.countP_map, List.countP_filter, List.countP_filter]
  refine countP_add fun n hn => ?_
  have hid : (a.decided clean n).id = n.id := id_decided n
  have hmem := mem_ids_pending (q := q) hn
  rw [mem_pending] at hmem
  simp only [Function.comp_apply]
  by_cases hp : q.filter n = true ∧ q.selected n.id = true ∧ n.status = .pending
  · rw [if_pos (hmem.mpr ⟨hn, hp⟩), hid]
    cases hd : q.filter (a.decided clean n) <;> simp [hp]
  · rw [if_neg fun h => hp (hmem.mp h).2]
    by_cases hq : q.filter n = true ∧ q.selected n.id = true
    · have hnot : n.status ≠ .pending := fun hs => hp ⟨hq.1, hq.2, hs⟩
      simp [hq, hnot]
    · have hnone : (q.filter n && q.selected n.id) = false := by simpa using hq
      simp [hnone]

/-- **The counts of a bulk review are true** exactly when the filter of the changelist still matches
each selected pending nomination after its review. -/
theorem review_counts_iff {r : Report} (h : review clean a q db = some (db', .reported r)) :
    TrueCounts clean a q db db' r ↔
      ∀ n ∈ q.rows db, n.status = .pending → q.filter (a.decided clean n) = true := by
  obtain ⟨hdone, hskipped, hrows⟩ := review_reported h
  have hmoved : (q.rows db).filter (fun n => Moved clean a db' n) = q.pending db :=
    List.filter_congr fun n hn => decide_eq_decide.mpr (moved_iff hrows hn)
  have hsplit := List.length_eq_length_filter_add (l := q.rows db) fun n =>
    decide (Moved clean a db' n)
  have hlength := length_rows_decided hrows
  have hothers : ((q.rows db).filter fun n => ¬ Moved clean a db' n).length =
      ((q.rows db).filter fun n => !decide (Moved clean a db' n)).length := by
    simp only [decide_not]
  rw [hmoved] at hsplit
  have hdropped : (q.pending db).countP (fun n => !q.filter (a.decided clean n)) = 0 ↔
      ∀ n ∈ q.rows db, n.status = .pending → q.filter (a.decided clean n) = true := by
    rw [List.countP_eq_zero]
    simp [Queryset.pending]
  rw [← hdropped]
  constructor
  · intro hr
    have hs := hr.skipped
    rw [hskipped, hothers] at hs
    omega
  · intro hzero
    refine ⟨by rw [hdone, hmoved], ?_⟩
    rw [hskipped, hothers]
    omega

end Clean

/-- A pending and an approved nomination. -/
def queueDb : Database where
  nominees := galaDb.nominees
  nominations := ⟨[{ id := 40, nominee := 30, award := 20 },
    { id := 41, nominee := 31, award := 20, status := .approved, reviewedAt := some 1 }], by decide⟩

def approval : Action where
  approve := true
  reviewer := 1
  request := ⟨none, "", .user 1⟩
  clock _ := 5
  keys _ := ⟨80, 1⟩

/-- Everything on an unfiltered changelist. -/
def everything : Queryset where
  filter _ := true
  selected _ := true

/-- The nominations that wait, all of them selected. -/
def waiting : Queryset where
  filter n := n.status = .pending
  selected _ := true

theorem review_counts_iff_everything : ∃ db' r,
    review (fun _ s => s) approval everything queueDb = some (db', .reported r) ∧ r.done = 1 ∧
    r.skipped = 1 ∧
      (TrueCounts (fun _ s => s) approval everything queueDb db' r ↔
        ∀ n ∈ everything.rows queueDb, n.status = .pending →
          everything.filter (approval.decided (fun _ s => s) n) = true) :=
  ⟨_, _, rfl, rfl, rfl, review_counts_iff rfl⟩

/-- Approved from the list of those that wait, one nomination is done and minus one is skipped. -/
theorem waiting_skipped :
    ∃ db' r, review (fun _ s => s) approval waiting queueDb = some (db', .reported r) ∧
    r.done = 1 ∧ r.skipped = -1 ∧ ¬ TrueCounts (fun _ s => s) approval waiting queueDb db' r :=
  ⟨_, _, rfl, rfl, rfl, fun hr => absurd (show (0 : ℤ) ≤ -1 from hr.skipped_nonneg) (by decide)⟩

end KwAwards.Nominations.Admin
