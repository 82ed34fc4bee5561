import KwAwards.Lib.Counters
import KwAwards.Store

/-! # The daily SMS budget

`reserve` counts one SMS under the Nairobi calendar day of the clock and refuses the one that breaks
the limit, with an audit entry. Nairobi is three hours ahead of UTC the whole year. -/

namespace KwAwards.Common.SmsBudget

open KwAwards.Lib.Tables KwAwards.Lib.Counters KwAwards.Common.Base KwAwards.Common.Exceptions
open KwAwards.Audit.Log KwAwards.Voting.Models KwAwards.Store

/-- `log_voter_event` for the voter instance at hand, if there is one. -/
def voterEvent (hashPhone : String → String) (k : Keys) (now : Time) (action : AuditAction)
    (voter : Option Voter) (phoneE164 : String) (request : Request) (target : Option Target)
    (metadata : Metadata) : Option AuditLog :=
  logVoterEvent hashPhone k now action (voter.map Voter.id)
    (voter.any fun v => v.verifiedAt.isSome) phoneE164 (some request) target metadata

/-- One more entry, of the kind `action`. -/
def Logged (db db' : Database) (action : AuditAction) : Prop :=
  ∃ e, db'.audit.rows = db.audit.rows ++ [e] ∧ e.action = action

/-- What writing a voter event does. -/
theorem write_voterEvent {hashPhone : String → String} {k : Keys} {now : Time}
    {action : AuditAction} {voter : Option Voter} {phoneE164 : String} {request : Request}
    {target : Option Target} {metadata : Metadata} {db db' : Database}
    (h : db.write (voterEvent hashPhone k now action voter phoneE164 request target metadata) =
      some db') : Logged db db' action ∧ ∃ audit, db' = { db with audit } := by
  obtain ⟨e, audit, he, -, ha, rfl⟩ := Database.write_eq_some h
  exact ⟨⟨e, ha, action_of_logVoterEvent he⟩, audit, rfl⟩

/-- An event without sensitive metadata can be written. -/
theorem voterEvent_isSome (hashPhone : String → String) {ak : Keys} {now : Time}
    {action : AuditAction} {voter : Option Voter} {phoneE164 : String} {request : Request}
    {target : Option Target} {metadata : Metadata}
    (hm : ∀ kv ∈ metadata, forbiddenMetadataKeys.contains (lower kv.1) = false) :
    ∃ e, voterEvent hashPhone ak now action voter phoneE164 request target metadata = some e ∧
      e.id = ak.id := by
  have hmasked : forbiddenMetadataKeys.contains (lower "phone_masked") = false := by decide
  have hhash : forbiddenMetadataKeys.contains (lower "phone_hash") = false := by decide
  have hm₁ : ∀ kv ∈ metadata ++ [("phone_masked", MetaValue.str (maskPhone phoneE164))],
      forbiddenMetadataKeys.contains (lower kv.1) = false := by
    intro kv hkv
    rcases List.mem_append.mp hkv with h | h
    · exact hm kv h
    · rw [List.mem_singleton.mp h]; exact hmasked
  unfold voterEvent logVoterEvent
  split_ifs
  · exact log_of_clean _ _ _ _ _ _ _ hm₁
  · refine log_of_clean _ _ _ _ _ _ _ fun kv hkv => ?_
    rcases List.mem_append.mp hkv with h | h
    · exact hm₁ kv h
    · rw [List.mem_singleton.mp h]; exact hhash

theorem exists_write_voterEvent (hashPhone : String → String) (db : Database) (now : Time)
    (action : AuditAction) (voter : Option Voter) (phoneE164 : String) (request : Request)
    (target : Option Target) {metadata : Metadata}
    (hm : ∀ kv ∈ metadata, forbiddenMetadataKeys.contains (lower kv.1) = false) :
    ∃ ak db',
      db.write (voterEvent hashPhone ak now action voter phoneE164 request target metadata) =
      some db' := by
  obtain ⟨id, hid⟩ := exists_fresh db.audit
  have hsome :
      ∃ e, voterEvent hashPhone ⟨id, 0⟩ now action voter phoneE164 request target metadata =
      some e ∧ e.id = id := voterEvent_isSome hashPhone hm
  obtain ⟨e, he, hk⟩ := hsome
  have hfresh : db.audit.get? e.id = none := by rw [hk]; exact hid
  obtain ⟨db', hw⟩ := Database.write_of_fresh hfresh
  exact ⟨⟨id, 0⟩, db', he ▸ hw⟩

/-- The clock in Nairobi. -/
def nairobi (now : Time) : Time := now + seconds 10800

/-- The Nairobi calendar day, counted from the epoch; it stands for the date in the key. -/
def nairobiDay (now : Time) : ℕ := nairobi now / seconds 86400

/-- **`_seconds_until_next_nairobi_day`**. -/
def secondsUntilNextNairobiDay (now : Time) : ℕ :=
  max 1 (((nairobiDay now + 1) * seconds 86400 - nairobi now + 999999) / 1000000)

def budgetKey (now : Time) : String := "sms_budget:" ++ toString (nairobiDay now)

/-- **`reserve`**: `limit` is `SMS_DAILY_LIMIT`, and zero turns the budget off. -/
def reserve (hashPhone : String → String) (limit : ℕ) (db : Database) (cache : Cache Time)
    (now : Time) (voter : Voter) (phoneE164 : String) (request : Request) (ak : Keys) :
    Option (Database × Cache Time × Except ApiError Unit) :=
  if limit = 0 then some (db, cache, .ok ())
  else
    let ttl := secondsUntilNextNairobiDay now
    let (cache, count) := cache.count now (budgetKey now) (seconds ttl)
    if limit < count then
      (db.write (voterEvent hashPhone ak now .smsBudgetExhausted (some voter) phoneE164 request none
        [("count", .num count), ("limit", .num limit)])).map fun db =>
          (db, cache, .error (.smsBudgetExhausted ttl))
    else some (db, cache, .ok ())

/-- A reservation by its count. -/
theorem reserve_of_count {hashPhone : String → String} {limit : ℕ} {db : Database}
    {cache cache' : Cache Time} {now : Time} {voter : Voter} {phoneE164 : String}
    {request : Request} {ak : Keys} {n : ℕ} (h0 : limit ≠ 0)
    (hn : cache.count now (budgetKey now) (seconds (secondsUntilNextNairobiDay now)) =
      (cache', n)) :
    reserve hashPhone limit db cache now voter phoneE164 request ak =
      if limit < n then
        (db.write
          (voterEvent hashPhone ak now .smsBudgetExhausted (some voter) phoneE164 request none
          [("count", .num n), ("limit", .num limit)])).map fun db =>
            (db, cache', .error (.smsBudgetExhausted (secondsUntilNextNairobiDay now)))
      else some (db, cache', .ok ()) := by
  unfold reserve
  rw [if_neg h0]
  simp only [hn]

/-- **A reservation** touches the cache, and writes an entry when it is refused. -/
theorem reserve_writes {hashPhone : String → String} {limit : ℕ} {db db' : Database}
    {cache cache' : Cache Time} {now : Time} {voter : Voter} {phoneE164 : String}
    {request : Request} {ak : Keys} {r : Except ApiError Unit}
    (h : reserve hashPhone limit db cache now voter phoneE164 request ak = some (db', cache', r)) :
    (r = .ok () ∧ db' = db) ∨
      (r = .error (.smsBudgetExhausted (secondsUntilNextNairobiDay now)) ∧ ∃ count : ℕ,
        db.write
          (voterEvent hashPhone ak now .smsBudgetExhausted (some voter) phoneE164 request none
          [("count", .num count), ("limit", .num limit)]) = some db') := by
  unfold reserve at h
  split_ifs at h with h0
  · obtain ⟨rfl, hr⟩ := Prod.mk.inj (Option.some.inj h)
    exact Or.inl ⟨(Prod.mk.inj hr).2.symm, rfl⟩
  · simp only at h
    split_ifs at h with hc
    · obtain ⟨d, hw, hd⟩ := Option.map_eq_some_iff.mp h
      obtain ⟨rfl, hr⟩ := Prod.mk.inj hd
      exact Or.inr ⟨(Prod.mk.inj hr).2.symm, _, hw⟩
    · obtain ⟨rfl, hr⟩ := Prod.mk.inj (Option.some.inj h)
      exact Or.inl ⟨(Prod.mk.inj hr).2.symm, rfl⟩

theorem reserve_cases {hashPhone : String → String} {limit : ℕ} {db db' : Database}
    {cache cache' : Cache Time} {now : Time} {voter : Voter} {phoneE164 : String}
    {request : Request} {ak : Keys} {r : Except ApiError Unit}
    (h : reserve hashPhone limit db cache now voter phoneE164 request ak = some (db', cache', r)) :
    (r = .ok () ∧ db' = db) ∨
      (r = .error (.smsBudgetExhausted (secondsUntilNextNairobiDay now)) ∧
        Logged db db' .smsBudgetExhausted ∧ ∃ audit, db' = { db with audit }) := by
  rcases reserve_writes h with hok | ⟨hr, count, hw⟩
  · exact Or.inl hok
  · exact Or.inr ⟨hr, write_voterEvent hw⟩

end KwAwards.Common.SmsBudget
