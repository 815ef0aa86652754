import Mailroom.Proofs.Rule.Assembly

/-!
# The scope of a rule

The criteria of a rule are brought into a form in which a test that asks for nothing is absent.  A
folder may slip through: one that is written with blanks only is not empty at first, and is empty
when its blanks are gone.  Its rule then stands among those for every folder.

* `Criteria.IsNormal` is the form, `Criteria.normalized_eq_self_iff` says that it stays as it is, and
  `Criteria.isNormal_normalized_iff` that all but such criteria are brought into it.
* `forall_mem_walk_iff` is for the rules of one folder, `forall_mem_finishedFrom_iff` for those that
  are read.
* `Rulebook.scopes_iff` is the result.
-/

namespace Mailroom

/-! ## Normal criteria -/

namespace Criteria

/-- Whether the folder is written with blanks only, and with one of them at least. -/
def HasBlankFolder (c : Criteria) : Prop :=
  ∃ t ∈ c.folder, t ≠ [] ∧ ∀ x ∈ t, isBlank x = true

theorem hasBlankFolder_iff {c : Criteria} :
    c.HasBlankFolder ↔ c.folder.any (fun t => !t.isEmpty && t.all isBlank) = true := by
  cases hfolder : c.folder <;> simp [HasBlankFolder, hfolder]

instance (c : Criteria) : Decidable c.HasBlankFolder := decidable_of_iff _ hasBlankFolder_iff.symm

/-- Whether every test that there is asks for something, and for a folder by its canonical name. -/
structure IsNormal (c : Criteria) : Prop where
  /-- A folder is not empty. -/
  folder : c.folder ≠ some []
  /-- A folder is in folder form. -/
  folderForm : ∀ t, c.folder = some t → IsFolderForm t
  /-- A number of days is not zero. -/
  days : c.days ≠ some 0
  /-- A text is not empty. -/
  operand : ∀ t, c.operand t ≠ some []

end Criteria

theorem nonEmpty_ne_some_nil (t? : Option Text) : nonEmpty t? ≠ some [] :=
  fun h => (nonEmpty_eq_some h).2 rfl

theorem nonEmpty_eq_self_iff {t? : Option Text} : nonEmpty t? = t? ↔ t? ≠ some [] := by
  refine ⟨fun h => h ▸ nonEmpty_ne_some_nil t?, fun h => ?_⟩
  cases t? with
  | none => rfl
  | some t => simpa [nonEmpty] using h

theorem filter_ne_zero_eq_self_iff {n? : Option Int} :
    n?.filter (· != 0) = n? ↔ n? ≠ some 0 := by
  cases n? with
  | none => simp
  | some n => simp [Option.filter_some]

/-- A folder is left alone if it is one in folder form, or if there is none. -/
theorem map_canonicalFolder_eq_self_iff {t? : Option Text} :
    (nonEmpty t?).map canonicalFolder = t? ↔
      t? ≠ some [] ∧ ∀ t, t? = some t → IsFolderForm t := by
  cases t? with
  | none => simp [nonEmpty]
  | some t =>
    cases t with
    | nil => simp [nonEmpty]
    | cons x t =>
      simp only [nonEmpty, Option.filter_some, List.isEmpty_cons, Bool.not_false, if_true,
        Option.map_some, Option.some.injEq]
      refine ⟨fun h => ⟨by simp, ?_⟩, fun h => canonicalFolder_eq_self (h.2 _ rfl)⟩
      rintro _ rfl
      exact h ▸ isFolderForm_canonicalFolder (x :: t)

namespace Criteria

variable {c : Criteria}

theorem normalized_eq_self_iff : c.normalized = c ↔ c.IsNormal := by
  have hparts : c.normalized = c ↔ (nonEmpty c.folder).map canonicalFolder = c.folder ∧
      c.days.filter (· != 0) = c.days ∧ ∀ t, nonEmpty (c.operand t) = c.operand t := by
    cases c
    simp only [normalized, Criteria.mk.injEq, funext_iff]
  rw [hparts, map_canonicalFolder_eq_self_iff, filter_ne_zero_eq_self_iff]
  simp only [nonEmpty_eq_self_iff]
  exact ⟨fun h => ⟨h.1.1, h.1.2, h.2.1, h.2.2⟩,
    fun h => ⟨⟨h.folder, h.folderForm⟩, h.days, h.operand⟩⟩

theorem days_normalized (c : Criteria) : c.normalized.days ≠ some 0 := by
  intro h
  simpa using (Option.filter_eq_some_iff.1 h).2

theorem operand_normalized (c : Criteria) (t : TextTest) : c.normalized.operand t ≠ some [] :=
  nonEmpty_ne_some_nil (c.operand t)

/-- The folder of normalized criteria is empty where it was written with blanks only. -/
theorem folder_normalized_iff : c.normalized.folder = some [] ↔ c.HasBlankFolder := by
  rw [normalized, Option.map_eq_some_iff, HasBlankFolder]
  constructor
  · rintro ⟨t, ht, hnil⟩
    obtain ⟨hfolder, hne⟩ := nonEmpty_eq_some ht
    exact ⟨t, hfolder, hne, canonicalFolder_eq_nil_iff.1 hnil⟩
  · rintro ⟨t, ht, hne, hblank⟩
    refine ⟨t, ?_, canonicalFolder_eq_nil_iff.2 hblank⟩
    rw [nonEmpty_eq_self_iff.2 (fun hnil => hne (Option.some.inj (ht.symm.trans hnil)))]
    exact ht

theorem isNormal_normalized_iff : c.normalized.IsNormal ↔ ¬ c.HasBlankFolder := by
  rw [← folder_normalized_iff]
  refine ⟨fun h => h.folder, fun h => ⟨h, fun t ht => ?_, c.days_normalized, c.operand_normalized⟩⟩
  obtain ⟨s, -, rfl⟩ := Option.map_eq_some_iff.1 ht
  exact isFolderForm_canonicalFolder s

end Criteria

/-! ## The rules of a folder -/

/-- What rules give to a folder is for it or for every one, if none of them has an empty folder; and
a rule of an empty folder is given to every folder as it is. -/
theorem forall_mem_walk_iff {folder : Text} (hfolder : folder ≠ []) (now : Time)
    (rules : List Rule) : (∀ r ∈ walk now folder rules,
        r.criteria.folder = none ∨ r.criteria.folder = some folder) ↔
      ∀ r ∈ rules, r.criteria.folder ≠ some [] := by
  simp only [walk, List.forall_mem_flatMap]
  refine forall₂_congr fun r _ => ⟨fun hall hnil => ?_, fun hnil x hx => ?_⟩
  · have hself : r.stamped now ∈ r.share now folder := by
      simp [Rule.share, Rule.isFor, Rule.isUniversal, hnil]
    rcases hall _ hself with hnone | hsame
    · rw [Rule.stamped_criteria, hnil] at hnone
      simp at hnone
    · rw [Rule.stamped_criteria, hnil] at hsame
      exact hfolder (Option.some.inj hsame).symm
  · rw [Rule.share, List.mem_append] at hx
    rcases hx with hx | hx
    · split at hx
      · rename_i hfor
        rw [List.mem_singleton.1 hx, Rule.stamped_criteria]
        simpa [Rule.isFor, Rule.isUniversal, hnil] using hfor
      · exact absurd hx List.not_mem_nil
    · split at hx
      · rw [List.mem_singleton.1 hx]
        exact .inr rfl
      · exact absurd hx List.not_mem_nil

/-- Rules that are read have no empty folder if and only if none of those that do something is
written with a blank one. -/
theorem forall_mem_finishedFrom_iff (order : Nat) (raws : List RawRule) :
    (∀ r ∈ finishedFrom order raws, r.criteria.folder ≠ some []) ↔
      ∀ raw ∈ raws, raw.acts = true → ¬ raw.criteria.HasBlankFolder := by
  induction raws generalizing order with
  | nil => simp [finishedFrom]
  | cons raw raws ih =>
    rw [finishedFrom_cons, List.forall_mem_append, ih, List.forall_mem_cons]
    refine and_congr_left' ?_
    rw [← Criteria.folder_normalized_iff]
    cases raw.acts with
    | false => simp
    | true => simp [RawRule.finished]

/-! ## The result -/

/-- Criteria are normalized once and for all, and no test asks for nothing, unless a folder is
written with blanks only: it is empty then.  The rules that a rulebook gives for a folder are for
that folder or have none, unless a rule that does something is written with such a folder: it is
given for every folder. -/
theorem Rulebook.scopes_iff (c : Criteria) :
    ((c.normalized.normalized = c.normalized ↔ ¬ c.HasBlankFolder) ∧
      (c.normalized.folder = some [] ↔ c.HasBlankFolder) ∧
      (∀ t, c.normalized.operand t ≠ some []) ∧ c.normalized.days ≠ some 0) ∧
    ∀ {main localText environment : Text} {byEnvironment : List (Text × List RawRule)}
      {localRules : List RawRule} {rules : List Rule},
      Rule.decodeMain main = .ok byEnvironment → Rule.decodeLocal localText = .ok localRules →
      compileSources main localText environment = .ok rules →
      ∀ (now : Time) (folder : Text), folder ≠ [] →
        ((∀ r ∈ (ofRules rules now).rulesFor folder,
            r.criteria.folder = none ∨ r.criteria.folder = some folder) ↔
          ∀ raw ∈ activeRules byEnvironment localRules environment,
            raw.acts = true → ¬ raw.criteria.HasBlankFolder) := by
  refine ⟨⟨?_, Criteria.folder_normalized_iff, c.operand_normalized, c.days_normalized⟩,
    fun hmain hlocal hrules now folder hfolder => ?_⟩
  · rw [Criteria.normalized_eq_self_iff, Criteria.isNormal_normalized_iff]
  · obtain ⟨hcompiled, hincreasing⟩ := compileSources_numbers hrules
    rw [(reads_as_walk hcompiled hincreasing now hfolder).1]
    rw [compileSources_eq hmain hlocal] at hrules
    rw [forall_mem_walk_iff hfolder, eq_of_compileFrom_ok hrules, forall_mem_finishedFrom_iff]

/-! ### A blank folder -/

/-- Main rules: one for the inbox everywhere, and one for a folder of a blank at work. -/
def strayRules : Text :=
  "'*':\n- folder: INBOX\n  label: news\nwork:\n- folder: ' '\n  label: kept\n"

theorem eq_ok_of_toBool {ε α : Type} {x : Except ε α} (h : x.toBool = true) (a : α) :
    x = .ok (x.toOption.getD a) := by
  cases x with
  | error e => exact nomatch h
  | ok b => rfl

/-- At home each rule that is given for the inbox is for it or has no folder; at work one of them has
an empty folder. -/
theorem strayRules_scopes : ∃ byEnvironment localRules,
    Rule.decodeMain strayRules = .ok byEnvironment ∧ Rule.decodeLocal deskRules = .ok localRules ∧
      (∃ rules, compileSources strayRules deskRules "home" = .ok rules ∧ ("INBOX" : Text) ≠ [] ∧
        ∀ r ∈ (Rulebook.ofRules rules 0).rulesFor "INBOX",
          r.criteria.folder = none ∨ r.criteria.folder = some ("INBOX" : Text)) ∧
      ∃ rules, compileSources strayRules deskRules "work" = .ok rules ∧
        ¬ ∀ r ∈ (Rulebook.ofRules rules 0).rulesFor "INBOX",
          r.criteria.folder = none ∨ r.criteria.folder = some ("INBOX" : Text) := by
  have hmain := eq_ok_of_toBool (x := Rule.decodeMain strayRules) (by decide +kernel) []
  have hlocal := eq_ok_of_toBool (x := Rule.decodeLocal deskRules) (by decide +kernel) []
  have hhome := eq_ok_of_toBool (x := compileSources strayRules deskRules "home")
    (by decide +kernel) []
  have hwork := eq_ok_of_toBool (x := compileSources strayRules deskRules "work")
    (by decide +kernel) []
  have hinbox : ("INBOX" : Text) ≠ [] := by decide
  refine ⟨_, _, hmain, hlocal, ⟨_, hhome, hinbox, ?_⟩, _, hwork, ?_⟩
  · exact ((Rulebook.scopes_iff .none).2 hmain hlocal hhome 0 "INBOX" hinbox).2 (by decide +kernel)
  · rw [(Rulebook.scopes_iff .none).2 hmain hlocal hwork 0 "INBOX" hinbox]
    decide +kernel

end Mailroom
