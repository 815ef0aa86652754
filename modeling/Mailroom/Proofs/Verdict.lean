import Mailroom.Proofs.Message.Sight

/-!
# When a rule is for a message

A rule is for a message if there is no reason to skip it, all its tests are passed, and one of them
asks for more than the folder.

* `Sight.applies_iff` says so.
* `Sight.skips_iff_of_keywords` says what the reasons come to when the keywords can be read.
* `Sight.verdict_eq_alreadyLabeled` and `Sight.verdict_eq_alreadyCleared` say when a rule is
  skipped for its labels.
* `Sight.not_applies_of_unreadable` says that otherwise no rule is for the message, and
  `Sight.keywords_of_applies` what the keywords are like of a message that a rule is for.
-/

namespace Mailroom

namespace Sight

variable {v : Sight} {r : Rule}

theorem firstFailure_eq_none {ts : List Test} :
    v.firstFailure r ts = none ↔ ∀ t ∈ ts, v.passes r t = .ok true := by
  induction ts with
  | nil => simp [firstFailure]
  | cons t ts ih =>
    rw [firstFailure, List.forall_mem_cons, ← ih]
    split
    · rename_i hpassed
      simp [hpassed]
    · rename_i hnot
      simp only [reduceCtorEq, false_iff, not_and]
      exact fun hpassed => absurd hpassed hnot

theorem firstSkip_eq_ok_none {ks : List Skip} :
    v.firstSkip r ks = .ok none ↔ ∀ k ∈ ks, v.skips r k = .ok false := by
  induction ks with
  | nil => simp [firstSkip]
  | cons k ks ih =>
    rw [firstSkip, List.forall_mem_cons, ← ih]
    cases hskip : v.skips r k with
    | error e => simp [bind, Except.bind]
    | ok b => cases b <;> simp [bind, Except.bind, pure, Except.pure]

/-- A rule is for a message if there is no reason to skip it and all its tests, not only that of
the folder, are passed. -/
theorem applies_iff : (v.verdict r).applies = true ↔ (∀ k, v.skips r k = .ok false) ∧
    (∀ t ∈ r.tests, v.passes r t = .ok true) ∧ ∃ t ∈ r.tests, t ≠ .folder := by
  have hall : ∀ k, k ∈ Skip.all := by
    intro k
    cases k <;> decide
  have hskips : (∀ k, v.skips r k = .ok false) ↔ v.firstSkip r Skip.all = .ok none :=
    ⟨fun h => firstSkip_eq_ok_none.2 fun k _ => h k, fun h k => firstSkip_eq_ok_none.1 h k (hall k)⟩
  rw [hskips, ← firstFailure_eq_none, verdict]
  cases v.firstSkip r Skip.all with
  | error e => simp [Verdict.applies]
  | ok reason? =>
    cases reason? with
    | some reason => simp [Verdict.applies]
    | none =>
      cases v.firstFailure r r.tests with
      | some t => simp [Verdict.applies]
      | none =>
        have hany : r.tests.any (· != .folder) = true ↔ ∃ t ∈ r.tests, t ≠ .folder := by simp
        rw [← hany]
        cases r.tests.any (· != .folder) <;> simp [Verdict.applies]

/-- The reasons to skip a rule, when the keywords can be read. -/
theorem skips_iff_of_keywords {k : Keywords} (hk : v.keywords = .ok k) :
    (∀ s, v.skips r s = .ok false) ↔
      (r.label ≠ [] → ∃ l ∈ r.label, k.contains l = false) ∧
      (r.clear ≠ [] → ∃ l ∈ r.clear, k.contains l = true) ∧
      r.moveTo ≠ some v.entry.folder.name ∧ k.contains Label.starred.labelForm = false := by
  have hlabel : v.skips r .alreadyLabeled = .ok false ↔
      (r.label ≠ [] → ∃ l ∈ r.label, k.contains l = false) := by
    by_cases hnil : r.label = []
    · simp [skips, hnil]
    · simp [skips, hnil, hasAll, hk, bind, Except.bind, pure, Except.pure]
  have hclear : v.skips r .alreadyCleared = .ok false ↔
      (r.clear ≠ [] → ∃ l ∈ r.clear, k.contains l = true) := by
    by_cases hnil : r.clear = []
    · simp [skips, hnil]
    · simp [skips, hnil, hasNone, hk, bind, Except.bind, pure, Except.pure]
  have hfolder : v.skips r .alreadyInFolder = .ok false ↔
      r.moveTo ≠ some v.entry.folder.name := by
    simp [skips]
  have hstarred : v.skips r .starred = .ok false ↔
      k.contains Label.starred.labelForm = false := by
    simp [skips, hasAll, hk, bind, Except.bind, pure, Except.pure]
  rw [← hlabel, ← hclear, ← hfolder, ← hstarred]
  constructor
  · exact fun h => ⟨h _, h _, h _, h _⟩
  · rintro ⟨hlabeled, hcleared, hinFolder, hstar⟩ s
    cases s with
    | alreadyLabeled => exact hlabeled
    | alreadyCleared => exact hcleared
    | alreadyInFolder => exact hinFolder
    | starred => exact hstar

/-- The reason that a rule is skipped for is one of those that were looked for. -/
theorem skips_of_firstSkip {ks : List Skip} {k : Skip} (h : v.firstSkip r ks = .ok (some k)) :
    v.skips r k = .ok true := by
  induction ks with
  | nil => simp [firstSkip] at h
  | cons k' ks ih =>
    rw [firstSkip] at h
    cases hskip : v.skips r k' with
    | error e => simp [hskip, bind, Except.bind] at h
    | ok there =>
      cases there with
      | false =>
        rw [hskip] at h
        exact ih h
      | true =>
        obtain rfl : k' = k := by simpa [hskip, bind, Except.bind, pure, Except.pure] using h
        exact hskip

theorem verdict_eq_skip {k : Skip} :
    v.verdict r = .skip k ↔ v.firstSkip r Skip.all = .ok (some k) := by
  unfold verdict
  cases v.firstSkip r Skip.all with
  | error e => simp
  | ok reason? =>
    cases reason? with
    | some reason => simp
    | none =>
      cases v.firstFailure r r.tests with
      | some t => simp
      | none =>
        dsimp only
        split <;> simp

/-- A rule is skipped for its labels if the message has all of them. -/
theorem verdict_eq_alreadyLabeled (hlabel : r.label ≠ []) :
    v.verdict r = .skip .alreadyLabeled ↔
      ∃ k, v.keywords = .ok k ∧ ∀ l ∈ r.label, k.contains l = true := by
  have hskips : v.skips r .alreadyLabeled = .ok true ↔
      ∃ k, v.keywords = .ok k ∧ ∀ l ∈ r.label, k.contains l = true := by
    cases hk : v.keywords with
    | error e => simp [skips, hlabel, hasAll, hk, bind, Except.bind]
    | ok k => simp [skips, hlabel, hasAll, hk, bind, Except.bind, pure, Except.pure]
  rw [verdict_eq_skip, ← hskips]
  constructor
  · exact skips_of_firstSkip
  · intro h
    simp [Skip.all, firstSkip, h, bind, Except.bind, pure, Except.pure]

/-- A rule that adds no labels is skipped for those that it removes if the message has none. -/
theorem verdict_eq_alreadyCleared (hlabel : r.label = []) (hclear : r.clear ≠ []) :
    v.verdict r = .skip .alreadyCleared ↔ v.hasNone r.clear = .ok true := by
  have hskips : v.skips r .alreadyCleared = v.hasNone r.clear := by simp [skips, hclear]
  rw [verdict_eq_skip, ← hskips]
  constructor
  · exact skips_of_firstSkip
  · intro h
    have hlabeled : v.skips r .alreadyLabeled = .ok false := by simp [skips, hlabel]
    simp [Skip.all, firstSkip, hlabeled, h, bind, Except.bind, pure, Except.pure]

/-- No rule is for a message whose keywords cannot be read: whether the message is starred is
asked before the tests are made. -/
theorem not_applies_of_unreadable {e : Error} (h : v.keywords = .error e) (r : Rule) :
    (v.verdict r).applies = false := by
  rw [← Bool.not_eq_true, applies_iff]
  rintro ⟨hskips, -⟩
  have hstarred := hskips .starred
  simp [skips, hasAll, h, bind, Except.bind] at hstarred

/-- The keywords of a message that a rule is for can be read, and there is something to do for its
labels and its folder. -/
theorem keywords_of_applies (h : (v.verdict r).applies = true) : ∃ k, v.keywords = .ok k ∧
    (r.label ≠ [] → ∃ l ∈ r.label, k.contains l = false) ∧
    (r.clear ≠ [] → ∃ l ∈ r.clear, k.contains l = true) ∧
    r.moveTo ≠ some v.entry.folder.name := by
  cases hk : v.keywords with
  | error e =>
    rw [not_applies_of_unreadable hk] at h
    exact absurd h (by simp)
  | ok k =>
    obtain ⟨hlabel, hclear, hmove, -⟩ := (skips_iff_of_keywords hk).1 (applies_iff.1 h).1
    exact ⟨k, rfl, hlabel, hclear, hmove⟩

end Sight

end Mailroom
