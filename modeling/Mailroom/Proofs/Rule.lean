import Mailroom.Proofs.Maildir.Slot
import Mailroom.Proofs.Rule.Naming

/-!
# Compiled rules

What is known of a rule that was brought into the form that is worked with.

* `compile_eq_some` says what a written rule comes to.
* `Rule.IsCompiled.isStep_moveTo` says that the folder that it moves to is one step away from the
  maildir, and `Rule.IsCompiled.isName_moveTo` when it is a folder in the maildir.
* `Rule.IsCompiled.label_ne_nil` and `Rule.IsCompiled.email_ne_nil` say that it adds no empty
  label and passes messages on to no empty address.
-/

namespace Mailroom

theorem nonEmpty_eq_some {t? : Option Text} {t : Text} (h : nonEmpty t? = some t) :
    t? = some t ∧ t ≠ [] := by
  unfold nonEmpty at h
  obtain ⟨hsome, hne⟩ := Option.filter_eq_some_iff.1 h
  exact ⟨hsome, by simpa using hne⟩

theorem email_ne_nil_of_isComplete {m : Mailbox} (h : m.isComplete = true) : m.email ≠ [] := by
  intro hnil
  simp [Mailbox.isComplete, hnil, Text.cut] at h

theorem isComplete_of_readDestinations {t : Text} {ms : List Mailbox}
    (h : readDestinations t = .ok ms) : ∀ m ∈ ms, m.isComplete = true := by
  unfold readDestinations at h
  dsimp only at h
  split at h
  · exact absurd h (by simp)
  · split at h
    · exact absurd h (by simp)
    · rename_i hall
      rw [← Except.ok.inj h]
      simp only [Bool.or_eq_true, not_or, Bool.not_eq_true, Bool.not_eq_false'] at hall
      exact List.all_eq_true.1 hall.2

theorem isComplete_of_readAllDestinations {ts : List Text} {ms : List Mailbox}
    (h : readAllDestinations ts = .ok ms) : ∀ m ∈ ms, m.isComplete = true := by
  induction ts generalizing ms with
  | nil =>
    rw [← Except.ok.inj h]
    simp
  | cons t ts ih =>
    simp only [readAllDestinations] at h
    split at h
    · exact ih h
    · cases hfirst : readDestinations (Text.trim t) with
      | error e => simp [hfirst, bind, Except.bind] at h
      | ok first =>
        cases hrest : readAllDestinations ts with
        | error e => simp [hfirst, hrest, bind, Except.bind] at h
        | ok rest =>
          simp only [hfirst, hrest, bind, Except.bind, pure, Except.pure, Except.ok.injEq] at h
          rw [← h]
          intro m hm
          rcases List.mem_append.1 hm with hm | hm
          · exact isComplete_of_readDestinations hfirst m hm
          · exact ih hrest m hm

/-- What a written rule that has an action comes to. -/
theorem compile_eq_some {raw : RawRule} {n : Nat} {r : Rule} (h : raw.compile n = .ok (some r)) :
    r.hasAction = true ∧ ∃ forward, readAllDestinations raw.forward = .ok forward ∧
      r = { criteria := raw.criteria.normalized
            okayDate := none
            clear := raw.clear.filterMap canonicalLabel?
            label := raw.label.filterMap canonicalLabel?
            moveTo := nonEmpty (raw.moveTo.map canonicalFolder)
            forward := forward
            order := n } := by
  unfold RawRule.compile at h
  cases hforward : readAllDestinations raw.forward with
  | error e => simp [hforward, bind, Except.bind] at h
  | ok forward =>
    simp only [hforward, bind, Except.bind, pure, Except.pure, Except.ok.injEq] at h
    split at h
    · rename_i haction
      rw [← Option.some.inj h]
      exact ⟨haction, forward, rfl, rfl⟩
    · simp at h

namespace Rule

/-- Whether a rule comes from one that can be written. -/
def IsCompiled (r : Rule) : Prop :=
  ∃ (raw : RawRule) (order : Nat), raw.compile order = .ok (some r)

namespace IsCompiled

variable {r : Rule}

theorem actions (h : r.IsCompiled) : ∃ raw : RawRule,
    readAllDestinations raw.forward = .ok r.forward ∧
      r.label = raw.label.filterMap canonicalLabel? ∧
      r.clear = raw.clear.filterMap canonicalLabel? ∧
      r.moveTo = nonEmpty (raw.moveTo.map canonicalFolder) := by
  obtain ⟨raw, order, h⟩ := h
  obtain ⟨-, forward, hforward, rfl⟩ := compile_eq_some h
  exact ⟨raw, hforward, rfl, rfl, rfl⟩

/-- No rule is stamped with a time when it is compiled. -/
theorem okayDate (h : r.IsCompiled) : r.okayDate = none := by
  obtain ⟨raw, order, h⟩ := h
  obtain ⟨-, forward, -, rfl⟩ := compile_eq_some h
  rfl

/-- The folder that a rule moves to is one step away from the maildir. -/
theorem isStep_moveTo (h : r.IsCompiled) {g : Text} (hg : r.moveTo = some g) : IsStep g := by
  obtain ⟨raw, -, -, -, hmove⟩ := h.actions
  rw [hg] at hmove
  obtain ⟨hsome, hne⟩ := nonEmpty_eq_some hmove.symm
  obtain ⟨t, -, rfl⟩ := Option.map_eq_some_iff.1 hsome
  exact ⟨hne, (isFolderForm_canonicalFolder t).slashFree⟩

/-- A rule moves messages to folders of the maildir only, if `.` and `..` are left aside. -/
theorem isName_moveTo (h : r.IsCompiled) {g : Text} (hg : r.moveTo = some g) (hdot : g ≠ ".")
    (hdots : g ≠ "..") : IsName g :=
  ⟨(h.isStep_moveTo hg).1, hdot, hdots, (h.isStep_moveTo hg).2⟩

/-- No rule passes messages on to an empty address. -/
theorem email_ne_nil (h : r.IsCompiled) {m : Mailbox} (hm : m ∈ r.forward) : m.email ≠ [] := by
  obtain ⟨raw, hforward, -, -, -⟩ := h.actions
  exact email_ne_nil_of_isComplete (isComplete_of_readAllDestinations hforward m hm)

/-- Every rule does something. -/
theorem hasAction (h : r.IsCompiled) : r.hasAction = true := by
  obtain ⟨raw, order, h⟩ := h
  exact (compile_eq_some h).1

theorem label_ne_nil (h : r.IsCompiled) {l : Text} (hl : l ∈ r.label) : l ≠ [] := by
  obtain ⟨raw, -, hlabel, -, -⟩ := h.actions
  rw [hlabel] at hl
  obtain ⟨t, -, ht⟩ := List.mem_filterMap.1 hl
  exact (isLabelForm_of_canonicalLabel? ht).nonEmpty

end IsCompiled

end Rule

end Mailroom
