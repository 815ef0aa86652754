import Mailroom.Proofs.Rule.Age

/-!
# Which rules throw messages away

A rule names the folder of thrown away messages by a label, or by the folder that it moves
messages to, and both are brought into a canonical form of their own.  The two forms do not agree
on what is a name of this folder: `gmail/Trash` is one for a folder and none for a label.

* `canonicalFolder_eq_trash` and `canonicalLabel?_eq_trash` list the names.
* `needsOkayDate_of_compile` says which rules ask for the age of a message.  A rule whose label is
  the one name that only folders know is not among them.
-/

namespace Mailroom

/-! ## Names of the folder -/

/-- A text that is the name of the folder once its slashes are dots has a dot or a slash in its
middle. -/
theorem replace_eq_trash {t : Text} (h : Text.replace '/' '.' t = "gmail.Trash") :
    t = "gmail.Trash" ∨ t = "gmail/Trash" := by
  have hparts : Text.replace '/' '.' t = ("gmail" : Text) ++ '.' :: ("Trash" : Text) := h
  obtain ⟨front, rest, rfl, hfront, hrest⟩ := List.map_eq_append_iff.1 hparts
  obtain ⟨middle, back, rfl, hmiddle, hback⟩ := List.map_eq_cons_iff.1 hrest
  -- the parts beside the dot hold no dot, so that no slash was replaced in them
  have hfront : Text.replace '/' '.' front = "gmail" := hfront
  have hback : Text.replace '/' '.' back = "Trash" := hback
  rw [replace_eq_self (by rw [hfront]; decide)] at hfront
  rw [replace_eq_self (by rw [hback]; decide)] at hback
  subst hfront hback
  split at hmiddle
  · rename_i hslash
    subst hslash
    exact .inr rfl
  · subst hmiddle
    exact .inl rfl

theorem eq_trash_of_folderForm : ∀ l ∈ Label.system,
    Text.replace '/' '.' l.folderForm = "gmail.Trash" → l = .trash := by decide

theorem eq_trash_of_labelForm : ∀ l ∈ Label.system, l.labelForm = "\\Trash" → l = .trash := by
  decide

/-- Three names bring a message into the folder of thrown away messages. -/
theorem canonicalFolder_eq_trash {t : Text} : canonicalFolder t = "gmail.Trash" ↔
    Text.trim t = "\\Trash" ∨ Text.trim t = "gmail.Trash" ∨ Text.trim t = "gmail/Trash" := by
  unfold canonicalFolder
  constructor
  · intro h
    rcases resolveFolder_split (Text.trim t) with ⟨l, hl, hname, hfolder⟩ | ⟨-, hself⟩
    · rw [hfolder] at h
      rw [eq_trash_of_folderForm l hl h] at hname
      exact .inl hname
    · rw [hself] at h
      exact .inr (replace_eq_trash h)
  · rintro (h | h | h) <;> rw [h] <;> decide

theorem resolveLabel_eq_trash {t : Text} :
    resolveLabel t = "\\Trash" ↔ t = "\\Trash" ∨ t = "gmail.Trash" := by
  constructor
  · intro h
    rcases resolveLabel_split t with ⟨l, hl, hname, hlabel⟩ | ⟨-, hself⟩
    · rw [hlabel] at h
      rw [eq_trash_of_labelForm l hl h] at hname
      exact .inr hname
    · exact .inl (hself.symm.trans h)
  · rintro (h | h) <;> rw [h] <;> decide

/-- Two names make a label that of thrown away messages. -/
theorem canonicalLabel?_eq_trash {t : Text} : canonicalLabel? t = some ("\\Trash" : Text) ↔
    Text.trim t = "\\Trash" ∨ Text.trim t = "gmail.Trash" := by
  rw [← resolveLabel_eq_trash]
  unfold canonicalLabel?
  split
  · rename_i hnil
    rw [hnil]
    decide
  · split
    · rename_i rest hresolved
      rw [hresolved, Option.some.injEq]
    · rename_i hplain
      -- a label without a backslash in front does not get one from a dot
      constructor
      · intro h
        have hreplaced : Text.replace '.' '/' (resolveLabel (Text.trim t)) = '\\' :: "Trash" :=
          Option.some.inj h
        obtain ⟨first, rest, hresolved, hfirst, -⟩ := List.map_eq_cons_iff.1 hreplaced
        split at hfirst
        · exact absurd hfirst (by decide)
        · exact absurd (hfirst ▸ hresolved) (hplain rest)
      · exact fun h => absurd h (hplain _)

/-! ## Rules that throw messages away -/

theorem nonEmpty_canonicalFolder_eq_trash {t? : Option Text} :
    nonEmpty (t?.map canonicalFolder) = some ("gmail.Trash" : Text) ↔
      ∃ t, t? = some t ∧ canonicalFolder t = "gmail.Trash" := by
  constructor
  · intro h
    exact Option.map_eq_some_iff.1 (nonEmpty_eq_some h).1
  · rintro ⟨t, rfl, ht⟩
    rw [Option.map_some, ht]
    rfl

/-- A compiled rule asks for the age of a message if the written one gives a number of days, if it
moves messages to the folder of thrown away messages, by whatever name, or if it gives them the
label of thrown away messages, by a name other than `gmail/Trash`. -/
theorem needsOkayDate_of_compile {raw : RawRule} {n : Nat} {r : Rule}
    (h : raw.compile n = .ok (some r)) :
    (∀ t, canonicalFolder t = "gmail.Trash" ↔
      Text.trim t = "\\Trash" ∨ Text.trim t = "gmail.Trash" ∨ Text.trim t = "gmail/Trash") ∧
    (r.needsOkayDate = true ↔
      (∃ days, raw.criteria.days = some days ∧ days ≠ 0) ∨
        (∃ t ∈ raw.label, canonicalFolder t = "gmail.Trash" ∧ Text.trim t ≠ "gmail/Trash") ∨
        ∃ t, raw.moveTo = some t ∧ canonicalFolder t = "gmail.Trash") := by
  refine ⟨fun t => canonicalFolder_eq_trash, ?_⟩
  obtain ⟨-, forward, -, rfl⟩ := compile_eq_some h
  have hdays : ((raw.criteria.normalized.days.filter (· != 0)).isSome = true) ↔
      ∃ days, raw.criteria.days = some days ∧ days ≠ 0 := by
    rw [Criteria.normalized]
    cases raw.criteria.days with
    | none => simp
    | some days => by_cases hzero : days = 0 <;> simp [hzero]
  have hlabel : ("\\Trash" : Text) ∈ raw.label.filterMap canonicalLabel? ↔
      ∃ t ∈ raw.label, canonicalFolder t = "gmail.Trash" ∧ Text.trim t ≠ "gmail/Trash" := by
    rw [List.mem_filterMap]
    refine exists_congr fun t => and_congr_right fun _ => ?_
    rw [canonicalLabel?_eq_trash, canonicalFolder_eq_trash]
    constructor
    · rintro (ht | ht) <;> rw [ht] <;> decide
    · rintro ⟨ht | ht | ht, hne⟩
      · exact .inl ht
      · exact .inr ht
      · exact absurd ht hne
  rw [← hdays, ← hlabel, ← nonEmpty_canonicalFolder_eq_trash, Rule.needsOkayDate,
    Bool.or_eq_true, Bool.or_eq_true, List.contains_iff_mem, beq_iff_eq, or_assoc]
  exact Iff.rfl

/-- A rule, as it is written, whose label and folder are called the same. -/
def doublyDiscarding : RawRule where
  criteria := { Criteria.none with operand := fun t => if t = .subject then some "s" else none }
  clear := []
  label := ["gmail/Trash"]
  moveTo := some " gmail/Trash "
  forward := []

theorem doublyDiscarding_needsOkayDate : ∃ r, doublyDiscarding.compile 0 = .ok (some r) ∧
    r.label = ([("gmail/Trash" : Text)] : List Text) ∧ r.moveTo = some ("gmail.Trash" : Text) ∧
    r.needsOkayDate = true := by
  have hcompile : doublyDiscarding.compile 0 = .ok (some _) := rfl
  exact ⟨_, hcompile, rfl, rfl, (needsOkayDate_of_compile hcompile).2.2
    (.inr (.inr ⟨" gmail/Trash ", rfl, by decide⟩))⟩

/-- By its label alone, such a rule does not ask for the age of a message. -/
example : ({ doublyDiscarding with moveTo := none }.compile 0).toOption.join.map
    Rule.needsOkayDate = some false := rfl

end Mailroom
