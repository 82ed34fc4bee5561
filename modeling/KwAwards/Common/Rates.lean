import KwAwards.Common.Throttles

/-! # The rates a throttle works with

`Spelling` is a rate as an operator writes it, part by part: `parse_rate` accepts the spellings and
nothing else, and reads the limit and the window off their parts (`parseRate_eq_ok_iff`).

An accepted rate can still end every request of its scope: with the multiplier zero the window is
zero, with a multiplier of some three hundred digits it is no `float`, and the cache may not take it
for a timeout. `neverCrashes_iff` says that these are the only ways. -/

namespace KwAwards.Common.Rates

open KwAwards.Lib.Counters KwAwards.Common.Str KwAwards.Common.Throttles

/-- White space. -/
abbrev Blanks := {cs : List Char // ∀ c ∈ cs, isSpace c = true}

/-- Digits that `int` reads. -/
abbrev Digits := {cs : List Char // (∀ c ∈ cs, isDigit c = true) ∧ cs.length ≤ maxStrDigits}

/-- **A rate as it is written**: a count, a slash, a multiplier that may be left out, and a unit. -/
structure Spelling where
  lead : Blanks
  count : Digits
  counted : count.1 ≠ []
  afterCount : Blanks
  afterSlash : Blanks
  multiplier : Digits
  afterMultiplier : Blanks
  unit : Char
  seconds : ℕ
  unit_seconds : unitSeconds unit = some seconds
  trail : Blanks

namespace Spelling

variable (s : Spelling)

def text : String := String.ofList (s.lead.1 ++ (s.count.1 ++ (s.afterCount.1 ++
  '/' :: (s.afterSlash.1 ++ (s.multiplier.1 ++ (s.afterMultiplier.1 ++ s.unit :: s.trail.1))))))

def limit : ℕ := intOfDigits s.count.1

/-- The window in seconds; without a multiplier it is one unit. -/
def window : ℕ := (if s.multiplier.1 = [] then 1 else intOfDigits s.multiplier.1) * s.seconds

/-- **A rate to work with:** the multiplier, where there is one, has a digit other than zero, and
the window is a `float` and no larger than the largest timeout of the cache. -/
def Workable (largest : ℕ) : Prop :=
  (s.multiplier.1 = [] ∨ ∃ c ∈ s.multiplier.1, digitValue c ≠ some 0) ∧ s.window < floatRange ∧
    s.window ≤ largest

end Spelling

/-- **No crash:** if the rate is accepted its window is positive, and a scope with this rate answers
every request; `largest` is the largest timeout that the cache takes. -/
def NeverCrashes (largest : ℕ) (rate : String) : Prop :=
  ∀ limit window, parseRate rate = .ok (limit, window) → 0 < window ∧
    ∀ (sha256 : String → String) (rates : String →
      Option String) (scope : String) (ident : Option String)
      (now : ℚ) (cache : Cache ℚ), rates scope = some rate →
        ∃ cache' v, allowRequest sha256 rates largest scope ident now cache = .ok (cache', v)

/-! ### Digits and blanks -/

/-- No digit is white space. -/
theorem isSpace_of_isDigit {c : Char} (h : isDigit c = true) : isSpace c = false := by
  have hzeros : ∀ z ∈ decimalZeros, ∀ k ∈ List.range 10, isSpace (Char.ofNat (z + k)) = false := by
    decide
  unfold isDigit digitValue at h
  rw [Option.isSome_map, List.find?_isSome] at h
  obtain ⟨z, hz, hc⟩ := h
  simp only [Bool.and_eq_true, decide_eq_true_eq] at hc
  have hk := hzeros z hz (c.toNat - z) (List.mem_range.mpr (by omega))
  rwa [Nat.add_sub_cancel' hc.1, Char.ofNat_toNat] at hk

theorem not_isDigit_of_isSpace {c : Char} (h : isSpace c = true) : isDigit c = false := by
  by_contra hd
  rw [isSpace_of_isDigit (by simpa using hd)] at h
  exact Bool.false_ne_true h

/-- The characters that end a run of digits, or of blanks. -/
theorem unit_ends {c : Char} {n : ℕ} (h : unitSeconds c = some n) :
    isSpace c = false ∧ isDigit c = false ∧ 0 < n := by
  unfold unitSeconds at h
  split at h
  all_goals first
    | (obtain rfl := Option.some.inj h; decide)
    | simp at h

theorem intOfDigits_eq_foldl (cs : List Char) (n : ℕ) :
    cs.foldl (fun n c => 10 * n + (digitValue c).getD 0) n = 0 ↔
      n = 0 ∧ ∀ c ∈ cs, (digitValue c).getD 0 = 0 := by
  induction cs generalizing n with
  | nil => simp
  | cons c cs ih =>
    rw [List.foldl_cons, ih, List.forall_mem_cons, ← and_assoc]
    refine and_congr_left fun _ => ?_
    omega

/-- A number is zero when all its digits are. -/
theorem intOfDigits_eq_zero {cs : List Char} (h : ∀ c ∈ cs, isDigit c = true) :
    intOfDigits cs = 0 ↔ ∀ c ∈ cs, digitValue c = some 0 := by
  unfold intOfDigits
  rw [intOfDigits_eq_foldl, and_iff_right rfl]
  refine forall₂_congr fun c hc => ?_
  obtain ⟨v, hv⟩ := Option.isSome_iff_exists.mp (h c hc)
  rw [hv, Option.getD_some, Option.some.injEq]

/-- A run of `p` before something else. -/
theorem span_append {p : Char → Bool} {run rest : List Char} (hrun : ∀ c ∈ run, p c = true)
    (hrest : ∀ c ∈ rest.head?, p c = false) :
    (run ++ rest).takeWhile p = run ∧ (run ++ rest).dropWhile p = rest := by
  have hstop : rest.takeWhile p = [] ∧ rest.dropWhile p = rest := by
    cases rest with
    | nil => exact ⟨rfl, rfl⟩
    | cons c rest =>
      have hc : ¬ p c = true := by simp [hrest c rfl]
      exact ⟨List.takeWhile_cons_of_neg hc, List.dropWhile_cons_of_neg hc⟩
  rw [List.takeWhile_append_of_pos hrun, List.dropWhile_append_of_pos hrun, hstop.1, hstop.2]
  exact ⟨List.append_nil _, rfl⟩

/-- **Blanks, digits, blanks** before another character. -/
theorem scan_append (lead digits blanks rest : List Char) {c : Char}
    (hlead : ∀ x ∈ lead, isSpace x = true) (hdigits : ∀ x ∈ digits, isDigit x = true)
    (hblanks : ∀ x ∈ blanks, isSpace x = true) (hspace : isSpace c = false)
    (hdigit : isDigit c = false) :
    ((lead ++ (digits ++ (blanks ++ c :: rest))).dropWhile isSpace).takeWhile isDigit = digits ∧
      (((lead ++ (digits ++ (blanks ++ c :: rest))).dropWhile isSpace).dropWhile isDigit).dropWhile
        isSpace =
        c :: rest := by
  have hend : (blanks ++ c :: rest).dropWhile isSpace = c :: rest :=
    (span_append hblanks (by simpa using hspace)).2
  cases digits with
  | nil =>
    have hskip : (lead ++ ([] ++ (blanks ++ c :: rest))).dropWhile isSpace = c :: rest := by
      rw [List.nil_append, List.dropWhile_append_of_pos hlead, hend]
    have hnone : (c :: rest).takeWhile isDigit = [] ∧ (c :: rest).dropWhile isDigit = c :: rest :=
      @span_append isDigit [] (c :: rest) (by simp) (by simpa using hdigit)
    rw [hskip, hnone.1, hnone.2]
    exact ⟨rfl, (@span_append isSpace [] (c :: rest) (by simp) (by simpa using hspace)).2⟩
  | cons d digits =>
    have hd : isSpace d = false := isSpace_of_isDigit (hdigits d List.mem_cons_self)
    have hskip : (lead ++ (d :: digits ++ (blanks ++ c :: rest))).dropWhile isSpace =
        d :: digits ++ (blanks ++ c :: rest) := (span_append hlead (by simpa using hd)).2
    have hstop : ∀ x ∈ (blanks ++ c :: rest).head?, isDigit x = false := by
      cases blanks with
      | nil => simpa using hdigit
      | cons b blanks => simpa using not_isDigit_of_isSpace (hblanks b List.mem_cons_self)
    obtain ⟨htake, hdrop⟩ := span_append hdigits hstop
    rw [hskip, htake, hdrop, hend]
    exact ⟨rfl, rfl⟩

/-! ### What `parse_rate` accepts -/

theorem parseRate_text (s : Spelling) : parseRate s.text = .ok (s.limit, s.window) := by
  obtain ⟨hspace, hdigit, -⟩ := unit_ends s.unit_seconds
  obtain ⟨hcount, hslash⟩ := scan_append s.lead.1 s.count.1 s.afterCount.1 (s.afterSlash.1 ++
    (s.multiplier.1 ++ (s.afterMultiplier.1 ++ s.unit :: s.trail.1))) s.lead.2 s.count.2.1
      s.afterCount.2
    (c := '/') (by decide) (by decide)
  obtain ⟨hmultiplier, hunit⟩ :=
    scan_append s.afterSlash.1 s.multiplier.1 s.afterMultiplier.1 s.trail.1
    s.afterSlash.2 s.multiplier.2.1 s.afterMultiplier.2 hspace hdigit
  have htrail : s.trail.1.dropWhile isSpace = [] := List.dropWhile_eq_nil_iff.mpr s.trail.2
  unfold parseRate Spelling.text
  simp only [String.toList_ofList, hcount, hslash, hmultiplier, hunit, s.unit_seconds, htrail]
  rw [if_neg (by simp [s.counted]), if_neg (by simp [s.count.2.2, s.multiplier.2.2])]
  rfl

theorem mem_takeWhile (p : Char → Bool) (cs : List Char) : ∀ c ∈ cs.takeWhile p, p c = true :=
  fun _ => List.mem_takeWhile_imp

theorem exists_spelling {rate : String} {limit window : ℕ}
    (h : parseRate rate = .ok (limit, window)) :
    ∃ s : Spelling, s.text = rate ∧ s.limit = limit ∧ s.window = window := by
  unfold parseRate at h
  generalize hcs : rate.toList.dropWhile isSpace = cs at h
  simp only at h
  split at h
  · next cs₁ hslash =>
    generalize hcs₂ : cs₁.dropWhile isSpace = cs₂ at h
    split at h
    · next unit cs₃ hunit =>
      split at h
      · next seconds hseconds =>
        have hshape : ¬ (cs.takeWhile isDigit = [] ∨ cs₃.dropWhile isSpace ≠ []) :=
          fun hbad => by rw [if_pos hbad] at h; simp at h
        rw [if_neg hshape] at h
        have hlong : ¬ (maxStrDigits < (cs.takeWhile isDigit).length ∨
            maxStrDigits < (cs₂.takeWhile isDigit).length) :=
          fun hbad => by rw [if_pos hbad] at h; simp at h
        rw [if_neg hlong] at h
        rw [not_or, not_not] at hshape
        rw [not_or, not_lt, not_lt] at hlong
        obtain ⟨rfl, rfl⟩ := Prod.mk.inj (Except.ok.inj h)
        have hjoin : rate.toList.takeWhile isSpace ++ (cs.takeWhile isDigit ++
            ((cs.dropWhile isDigit).takeWhile isSpace ++ '/' :: (cs₁.takeWhile isSpace ++
              (cs₂.takeWhile isDigit ++
                ((cs₂.dropWhile isDigit).takeWhile isSpace ++ unit :: cs₃))))) =
                rate.toList := by
          rw [← hunit, List.takeWhile_append_dropWhile, List.takeWhile_append_dropWhile, ← hcs₂,
            List.takeWhile_append_dropWhile, ← hslash, List.takeWhile_append_dropWhile,
            List.takeWhile_append_dropWhile, ← hcs, List.takeWhile_append_dropWhile]
        exact ⟨{
          lead := ⟨_, mem_takeWhile isSpace rate.toList⟩
          count := ⟨_, mem_takeWhile isDigit cs, hlong.1⟩
          counted := hshape.1
          afterCount := ⟨_, mem_takeWhile isSpace (cs.dropWhile isDigit)⟩
          afterSlash := ⟨_, mem_takeWhile isSpace cs₁⟩
          multiplier := ⟨_, mem_takeWhile isDigit cs₂, hlong.2⟩
          afterMultiplier := ⟨_, mem_takeWhile isSpace (cs₂.dropWhile isDigit)⟩
          unit, seconds, unit_seconds := hseconds
          trail := ⟨cs₃, List.dropWhile_eq_nil_iff.mp hshape.2⟩ },
          String.toList_inj.mp ((String.toList_ofList ..).trans hjoin), rfl, rfl⟩
      · simp at h
    · simp at h
  · simp at h

/-- **`parse_rate` accepts the spellings** and reads their parts. -/
theorem parseRate_eq_ok_iff {rate : String} {limit window : ℕ} :
    parseRate rate = .ok (limit, window) ↔
    ∃ s : Spelling, s.text = rate ∧ s.limit = limit ∧ s.window = window := by
  constructor
  · exact exists_spelling
  · rintro ⟨s, rfl, rfl, rfl⟩
    exact parseRate_text s

/-! ### What an accepted rate does -/

theorem window_pos_iff {s : Spelling} :
    0 < s.window ↔ s.multiplier.1 = [] ∨ ∃ c ∈ s.multiplier.1, digitValue c ≠ some 0 := by
  have hseconds : 0 < s.seconds := (unit_ends s.unit_seconds).2.2
  unfold Spelling.window
  rw [Nat.mul_pos_iff_of_pos_right hseconds]
  split_ifs with h
  · simp [h]
  · rw [Nat.pos_iff_ne_zero, ne_eq, intOfDigits_eq_zero s.multiplier.2.1]
    simp [h]

/-- A request is answered when the window is a positive `float` and the cache takes it. -/
theorem allowRequest_ok {rate : String} {limit window largest : ℕ}
    (hrate : parseRate rate = .ok (limit, window)) (hpos : 0 < window)
    (hfloat : window < floatRange) (hlargest : window ≤ largest) (sha256 : String → String)
    {rates : String → Option String} {scope : String} (hscope : rates scope = some rate)
    (ident : Option String) (now : ℚ) (cache : Cache ℚ) :
    ∃ cache' v, allowRequest sha256 rates largest scope ident now cache = .ok (cache', v) := by
  unfold allowRequest
  simp only [hscope, Option.getD_some, hrate, if_neg hpos.ne', if_neg (not_le.mpr hfloat),
    if_neg (not_lt.mpr hlargest)]
  split_ifs
  · exact ⟨_, _, rfl⟩
  · exact ⟨_, _, rfl⟩
  · exact ⟨_, _, rfl⟩
  · exact ⟨_, _, rfl⟩

/-- A request that is answered has a window that is a `float` and that the cache takes. -/
theorem window_of_allowRequest {rate : String} {limit window largest : ℕ}
    (hrate : parseRate rate = .ok (limit, window)) (hpos : 0 < window) {now : ℚ} {cache : Cache ℚ}
    {r : Cache ℚ × Verdict}
    (h : allowRequest id (fun _ => some rate) largest "" (some "ident") now cache = .ok r) :
    window < floatRange ∧ window ≤ largest := by
  have hne : rate ≠ "" := by
    rintro rfl
    have hempty : parseRate "" = .error .valueError := by decide
    rw [hempty] at hrate
    simp at hrate
  have hident : "ident" ≠ "" := by decide
  unfold allowRequest at h
  simp only [Option.getD_some, if_neg hne, if_neg hident, hrate, if_neg hpos.ne'] at h
  split_ifs at h with hfloat hlargest
  · exact ⟨lt_of_not_ge hfloat, le_of_not_gt hlargest⟩
  · exact ⟨lt_of_not_ge hfloat, le_of_not_gt hlargest⟩

/-- **An accepted rate never crashes a request** exactly when its multiplier is not zero and its
window is a `float` and a timeout that the cache takes. -/
theorem neverCrashes_iff (largest : ℕ) (rate : String) :
    NeverCrashes largest rate ↔ ∀ s : Spelling, s.text = rate → s.Workable largest := by
  constructor
  · rintro h s rfl
    have hrate := parseRate_text s
    obtain ⟨hpos, hanswers⟩ := h _ _ hrate
    obtain ⟨cache', v, hok⟩ := hanswers id (fun _ => some s.text) "" (some "ident") 0 .empty rfl
    exact ⟨window_pos_iff.mp hpos, window_of_allowRequest hrate hpos hok⟩
  · intro h limit window hrate
    obtain ⟨s, hs, rfl, rfl⟩ := exists_spelling hrate
    obtain ⟨hmultiplier, hfloat, hlargest⟩ := h s hs
    have hpos := window_pos_iff.mpr hmultiplier
    exact ⟨hpos, fun sha256 rates scope ident now cache hscope =>
      allowRequest_ok hrate hpos hfloat hlargest sha256 hscope ident now cache⟩

/-- A rate with the multiplier zero is accepted, and its window divides by zero. -/
theorem zeroMinutes_crashes : parseRate "3/0m" = .ok (3, 0) ∧
    allowRequest id (fun _ => some "3/0m") longestTimeout "vote_ip" (some "10.0.0.1") 0 .empty =
        .error .zeroDivisionError ∧ ¬ NeverCrashes longestTimeout "3/0m" := by
  have hrate : parseRate "3/0m" = .ok (3, 0) := by decide
  refine ⟨hrate, ?_, fun h => absurd (h 3 0 hrate).1 (lt_irrefl 0)⟩
  simp [allowRequest, hrate]

/-- So is a window of some three hundred thousand years. -/
example : parseRate "3/100000000d" = .ok (3, 8640000000000) ∧
    allowRequest id (fun _ => some "3/100000000d") longestTimeout "vote_ip" (some "10.0.0.1") 0
      .empty = .error .timeoutError := by
  have hrate : parseRate "3/100000000d" = .ok (3, 8640000000000) := by decide
  refine ⟨hrate, ?_⟩
  simp [allowRequest, hrate, floatRange, longestTimeout]

end KwAwards.Common.Rates
