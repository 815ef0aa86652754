import Mailroom.Rulebook

/-!
# Where the rules of a folder come from

A rulebook holds nothing but the rules it was made of, stamped with a time, and their companions.

* `Rulebook.isUsed_of_mem_rulesFor` and `Rulebook.isUsed_of_mem_folderRules` say so of the rules
  that a pass asks for.
* `IsUsed.keeps_actions` compares such a rule with the one that it comes from.
* `Rulebook.rulesFor_singleton` gives the rules for a folder where there is only one.
-/

namespace Mailroom

/-! ## Dictionaries -/

/-- An entry of a changed dictionary was there before, or its value is a changed one. -/
theorem mem_updateSorted {α : Type} {key : Text} {f : Option α → α} {l : List (Text × α)}
    {e : Text × α} (h : e ∈ updateSorted key f l) :
    e ∈ l ∨ e.2 = f none ∨ ∃ e' ∈ l, e.2 = f (some e'.2) := by
  induction l with
  | nil =>
    simp only [updateSorted, List.mem_singleton] at h
    simp [h]
  | cons x l ih =>
    simp only [updateSorted] at h
    split at h
    · rcases List.mem_cons.1 h with rfl | h
      · exact Or.inr (Or.inl rfl)
      · exact Or.inl h
    · split at h
      · rcases List.mem_cons.1 h with rfl | h
        · exact Or.inr (Or.inr ⟨x, by simp, rfl⟩)
        · exact Or.inl (List.mem_cons_of_mem x h)
      · rcases List.mem_cons.1 h with rfl | h
        · exact Or.inl (by simp)
        · rcases ih h with h | h | ⟨e', he', h⟩
          · exact Or.inl (List.mem_cons_of_mem x h)
          · exact Or.inr (Or.inl h)
          · exact Or.inr (Or.inr ⟨e', List.mem_cons_of_mem x he', h⟩)

theorem mem_of_lookup_eq_some {α : Type} {l : List (Text × α)} {key : Text} {a : α}
    (h : l.lookup key = some a) : ∃ e ∈ l, e.2 = a := by
  obtain ⟨before, after, rfl, -⟩ := List.lookup_eq_some_iff.1 h
  exact ⟨(key, a), by simp, rfl⟩

/-! ## Rules in use -/

/-- Whether a rule is one of some rules at a time, or the companion of one. -/
def IsUsed (rules : List Rule) (now : Time) (r : Rule) : Prop :=
  ∃ source ∈ rules, r = source.stamped now ∨ (source.stamped now).companion? = some r

section Stamped

variable (r : Rule) (now : Time)

@[simp] theorem Rule.stamped_criteria : (r.stamped now).criteria = r.criteria := by
  unfold Rule.stamped
  split <;> rfl

@[simp] theorem Rule.stamped_clear : (r.stamped now).clear = r.clear := by
  unfold Rule.stamped
  split <;> rfl

@[simp] theorem Rule.stamped_label : (r.stamped now).label = r.label := by
  unfold Rule.stamped
  split <;> rfl

@[simp] theorem Rule.stamped_moveTo : (r.stamped now).moveTo = r.moveTo := by
  unfold Rule.stamped
  split <;> rfl

@[simp] theorem Rule.stamped_forward : (r.stamped now).forward = r.forward := by
  unfold Rule.stamped
  split <;> rfl

@[simp] theorem Rule.stamped_order : (r.stamped now).order = r.order := by
  unfold Rule.stamped
  split <;> rfl

end Stamped

/-- A rule that has a companion moves messages from one folder to another one. -/
theorem exists_of_companion? {r c : Rule} (h : r.companion? = some c) : ∃ source target,
    r.criteria.folder = some source ∧ r.moveTo = some target ∧ source ≠ target ∧
      c = { r with
        criteria := { r.criteria with folder := some target }
        clear := [Label.inbox.labelForm]
        label := []
        moveTo := none
        forward := [] } := by
  unfold Rule.companion? at h
  split at h
  · rename_i source target hs ht
    split at h
    · simp at h
    · rename_i hne
      exact ⟨source, target, hs, ht, hne, (Option.some.inj h).symm⟩
  · simp at h

/-- Every rule that moves messages from one folder to another one has one. -/
theorem exists_companion? {r : Rule} {source target : Text}
    (hsource : r.criteria.folder = some source) (htarget : r.moveTo = some target)
    (hne : source ≠ target) : ∃ c, r.companion? = some c := by
  simp [Rule.companion?, hsource, htarget, hne]

theorem companion?_eq_some {r c : Rule} (h : r.companion? = some c) :
    r.moveTo.isSome ∧ c.clear = [Label.inbox.labelForm] ∧ c.label = [] ∧ c.moveTo = none ∧
      c.forward = [] := by
  obtain ⟨source, target, -, ht, -, rfl⟩ := exists_of_companion? h
  exact ⟨by simp [ht], rfl, rfl, rfl, rfl⟩

/-- A rule in use does no more than the rule that it comes from, but that a companion takes away
the label of the inbox. -/
theorem IsUsed.keeps_actions {rules : List Rule} {now : Time} {r : Rule}
    (h : IsUsed rules now r) : ∃ source ∈ rules,
      (∀ l ∈ r.label, l ∈ source.label) ∧ (∀ m ∈ r.forward, m ∈ source.forward) ∧
        (∀ g, r.moveTo = some g → source.moveTo = some g) := by
  obtain ⟨source, hsource, rfl | hc⟩ := h
  · exact ⟨source, hsource, by simp, by simp, by simp⟩
  · obtain ⟨-, -, hlabel, hmove, hforward⟩ := companion?_eq_some hc
    exact ⟨source, hsource, by simp [hlabel], by simp [hforward], by simp [hmove]⟩

/-- Where no rule moves messages, a rule in use is one of the rules, stamped. -/
theorem IsUsed.stamped {rules : List Rule} {now : Time} {r : Rule} (h : IsUsed rules now r)
    (hmoves : ∀ source ∈ rules, source.moveTo = none) :
    ∃ source ∈ rules, r = source.stamped now := by
  obtain ⟨source, hsource, rfl | hc⟩ := h
  · exact ⟨source, hsource, rfl⟩
  · have hsome := (companion?_eq_some hc).1
    rw [Rule.stamped_moveTo, hmoves source hsource] at hsome
    simp at hsome

namespace Rulebook

/-- Whether a rule stands on some page. -/
def Holds (b : Rulebook) (r : Rule) : Prop := ∃ e ∈ b.pages.entries, r ∈ e.2

theorem holds_of_mem_page {b : Rulebook} {name : Text} {r : Rule} (h : r ∈ b.page name) :
    b.Holds r := by
  unfold page at h
  cases hfind : b.pages.find? name with
  | none => simp [hfind] at h
  | some rs =>
    rw [hfind] at h
    obtain ⟨e, he, rfl⟩ := mem_of_lookup_eq_some hfind
    exact ⟨e, he, h⟩

theorem holds_enter {b : Rulebook} {page : Text} {new r : Rule} (h : (b.enter page new).Holds r) :
    r = new ∨ b.Holds r := by
  obtain ⟨e, he, hr⟩ := h
  rcases mem_updateSorted he with he | he | ⟨e', he', heq⟩
  · exact Or.inr ⟨e, he, hr⟩
  · rw [he] at hr
    exact Or.inl (by simpa using hr)
  · rw [heq] at hr
    rcases List.mem_append.1 hr with hr | hr
    · exact Or.inr ⟨e', he', hr⟩
    · exact Or.inl (List.mem_singleton.1 hr)

theorem holds_add {now : Time} {b : Rulebook} {new r : Rule} (h : (add now b new).Holds r) :
    r = new.stamped now ∨ (new.stamped now).companion? = some r ∨ b.Holds r := by
  simp only [add] at h
  rcases holds_enter h with rfl | h
  · exact Or.inl rfl
  · split at h
    · rename_i c hc
      rcases holds_enter h with rfl | h
      · exact Or.inr (Or.inl hc)
      · exact Or.inr (Or.inr h)
    · exact Or.inr (Or.inr h)

theorem isUsed_of_holds {rules : List Rule} {now : Time} {r : Rule}
    (h : (ofRules rules now).Holds r) : IsUsed rules now r := by
  -- along the rules that are added, to any rulebook
  suffices hall : ∀ b : Rulebook, (rules.foldl (add now) b).Holds r →
      b.Holds r ∨ IsUsed rules now r by
    rcases hall empty h with ⟨e, he, -⟩ | h
    · simp [empty, Dictionary.empty] at he
    · exact h
  clear h
  induction rules with
  | nil => exact fun b h => Or.inl h
  | cons new rules ih =>
    intro b h
    rcases ih (add now b new) h with h | ⟨source, hsource, h⟩
    · rcases holds_add h with h | h | h
      · exact Or.inr ⟨new, by simp, Or.inl h⟩
      · exact Or.inr ⟨new, by simp, Or.inr h⟩
      · exact Or.inl h
    · exact Or.inr ⟨source, List.mem_cons_of_mem new hsource, h⟩

section Used

variable {rules : List Rule} {now : Time} {folder : Text} {r : Rule}

theorem isUsed_of_mem_folderRules (h : r ∈ (ofRules rules now).folderRules folder) :
    IsUsed rules now r := by
  unfold folderRules at h
  split at h
  · simp at h
  · exact isUsed_of_holds (holds_of_mem_page h)

theorem mem_rulesFor_of_mem_folderRules (h : r ∈ (ofRules rules now).folderRules folder) :
    r ∈ (ofRules rules now).rulesFor folder := by
  unfold rulesFor
  rw [List.mem_mergeSort, List.mem_append]
  exact Or.inr h

theorem isUsed_of_mem_rulesFor (h : r ∈ (ofRules rules now).rulesFor folder) :
    IsUsed rules now r := by
  unfold rulesFor at h
  rw [List.mem_mergeSort, List.mem_append] at h
  rcases h with h | h
  · exact isUsed_of_holds (holds_of_mem_page h)
  · exact isUsed_of_mem_folderRules h

end Used

/-! ## A single rule -/

/-- A rulebook of one rule that moves nothing has this rule for a folder, or none. -/
theorem rulesFor_singleton {r : Rule} (hmove : r.moveTo = none) (now : Time) (folder : Text) :
    (ofRules [r] now).rulesFor folder = [] ∨
      (ofRules [r] now).rulesFor folder = [r.stamped now] := by
  have hcompanion : (r.stamped now).companion? = none := by
    cases hc : (r.stamped now).companion? with
    | none => rfl
    | some c =>
      have hsome := (companion?_eq_some hc).1
      rw [Rule.stamped_moveTo, hmove] at hsome
      simp at hsome
  have hpage : ∀ name, (ofRules [r] now).page name =
      if name = r.criteria.folder.getD [] then [r.stamped now] else [] := by
    intro name
    simp only [ofRules, List.foldl_cons, List.foldl_nil, add, hcompanion, Rule.stamped_criteria,
      page, enter, empty, Dictionary.find?, Dictionary.update, Dictionary.empty, updateSorted,
      List.lookup_cons, List.lookup_nil]
    by_cases h : name = r.criteria.folder.getD []
    · simp [h]
    · have hne : (name == r.criteria.folder.getD []) = false := by simpa using h
      simp [h, hne]
  rw [rulesFor, folderRules, hpage []]
  cases folder with
  | nil => split <;> simp
  | cons c folder =>
    rw [hpage (c :: folder)]
    by_cases h : [] = r.criteria.folder.getD []
    · simp [← h]
    · by_cases h' : c :: folder = r.criteria.folder.getD []
      · simp [← h']
      · simp [h, h']

end Rulebook

end Mailroom
