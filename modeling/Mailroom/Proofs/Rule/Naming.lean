import Mailroom.Proofs.Keywords
import Mailroom.Proofs.Text.Trim
import Mailroom.Rule

/-!
# Canonical names

The folders and labels of a rule are brought into one form each, which stays as it is when it is
brought into that form again.  A label and the text it was made of name the same folder.

* `IsFolderForm` and `IsLabelForm` say what the two forms are, by themselves.
* `canonicalFolder_eq_self` and `canonicalLabel?_eq_self` leave them alone.
* `isFolderForm_canonicalFolder` and `isLabelForm_of_canonicalLabel?` say that every text is brought
  into them; `canonicalLabel?_split` has the four ways in which a label is made.
* `canonicalNames_stay` is the result.
-/

namespace Mailroom

/-! ## Exchanged characters -/

theorem not_mem_replace {a b : Char} (h : b ≠ a) (t : Text) : a ∉ Text.replace a b t := by
  rw [Text.replace, List.mem_map]
  rintro ⟨c, -, hc⟩
  split at hc
  · exact absurd hc h
  · exact absurd hc ‹_›

theorem replace_of_not_mem {a : Char} {t : Text} (h : a ∉ t) (b : Char) :
    Text.replace a b t = t := by
  have hsame : Text.replace a b t = t.map id := by
    refine List.map_congr_left fun c hc => if_neg ?_
    rintro rfl
    exact h hc
  rw [hsame, List.map_id]

/-- Where the new character does not occur, none was put. -/
theorem replace_eq_self {a b : Char} {t : Text} (h : b ∉ Text.replace a b t) :
    Text.replace a b t = t :=
  replace_of_not_mem (fun hmem => h (List.mem_map.2 ⟨a, hmem, if_pos rfl⟩)) b

/-- To put one character for another and then a third for both is to put the third for the other. -/
theorem replace_replace (a b : Char) (t : Text) :
    Text.replace b a (Text.replace a b t) = Text.replace b a t := by
  rw [Text.replace, Text.replace, Text.replace, List.map_map]
  refine List.map_congr_left fun c _ => ?_
  by_cases hca : c = a
  · by_cases hab : a = b <;> simp [hca, hab]
  · simp [hca]

theorem isTrimmed_replace {b : Char} {t : Text} (h : t.IsTrimmed) (hb : isBlank b = false)
    (a : Char) : (Text.replace a b t).IsTrimmed := by
  -- what stands at an end stood there before, or was put there
  have hkeeps : ∀ o : Option Char, (∀ c ∈ o, isBlank c = false) →
      ∀ c ∈ o.map (fun c => if c = a then b else c), isBlank c = false := by
    intro o ho c hc
    obtain ⟨d, hd, rfl⟩ := Option.map_eq_some_iff.1 hc
    split
    · exact hb
    · exact ho d hd
  refine ⟨?_, ?_⟩
  · rw [Text.replace, List.head?_map]
    exact hkeeps _ h.first
  · rw [Text.replace, List.getLast?_map]
    exact hkeeps _ h.last

/-! ## Folders -/

/-- Whether a text is a folder in its canonical form. -/
structure IsFolderForm (t : Text) : Prop where
  /-- It has no blank at either end. -/
  trimmed : t.IsTrimmed
  /-- It has no slash. -/
  slashFree : '/' ∉ t
  /-- It is no label of the mail system. -/
  notSystem : ∀ l ∈ Label.system, t ≠ l.labelForm

theorem resolveFolder_ne_labelForm (t : Text) : ∀ l ∈ Label.system, resolveFolder t ≠ l.labelForm := by
  have hforms : ∀ l ∈ Label.system, ∀ l' ∈ Label.system, l.folderForm ≠ l'.labelForm := by decide
  rcases resolveFolder_split t with ⟨l, hl, -, heq⟩ | ⟨hnot, heq⟩
  · rw [heq]
    exact hforms l hl
  · rw [heq]
    exact hnot

/-- Labels of the mail system begin with a backslash, so that no other text is one. -/
theorem resolveFolder_of_head? {t : Text} (h : t.head? ≠ some '\\') : resolveFolder t = t := by
  have hlabels : ∀ l ∈ Label.system, l.labelForm.head? = some '\\' := by decide
  rcases resolveFolder_split t with ⟨l, hl, rfl, -⟩ | ⟨-, heq⟩
  · exact absurd (hlabels l hl) h
  · exact heq

theorem isTrimmed_resolveFolder {t : Text} (h : t.IsTrimmed) : (resolveFolder t).IsTrimmed :=
  holds_resolveFolder h (by decide)

/-- Every text is brought into the form of a folder. -/
theorem isFolderForm_canonicalFolder (t : Text) : IsFolderForm (canonicalFolder t) where
  trimmed := isTrimmed_replace (isTrimmed_resolveFolder (Text.isTrimmed_trim t)) (by decide) _
  slashFree := not_mem_replace (by decide) _
  notSystem := by
    have hdot : ∀ l ∈ Label.system, '.' ∉ l.labelForm := by decide
    intro l hl heq
    -- no label has a dot, so that no slash was replaced
    have hfree : '.' ∉ canonicalFolder t := by
      rw [heq]
      exact hdot l hl
    have hself : canonicalFolder t = resolveFolder (Text.trim t) := replace_eq_self hfree
    exact resolveFolder_ne_labelForm _ l hl (hself ▸ heq)

theorem canonicalFolder_eq_self {t : Text} (h : IsFolderForm t) : canonicalFolder t = t := by
  rw [canonicalFolder, Text.trim_eq_self h.trimmed]
  rcases resolveFolder_split t with ⟨l, hl, heq, -⟩ | ⟨-, heq⟩
  · exact absurd heq (h.notSystem l hl)
  · rw [heq, replace_of_not_mem h.slashFree]

theorem canonicalFolder_trim (t : Text) : canonicalFolder (Text.trim t) = canonicalFolder t := by
  rw [canonicalFolder, Text.trim_trim, canonicalFolder]

theorem canonicalFolder_eq_nil_iff {t : Text} :
    canonicalFolder t = [] ↔ ∀ c ∈ t, isBlank c = true := by
  have hresolve : resolveFolder (Text.trim t) = [] ↔ Text.trim t = [] := by
    have hforms : ∀ l ∈ Label.system, l.labelForm ≠ [] ∧ l.folderForm ≠ [] := by decide
    rcases resolveFolder_split (Text.trim t) with ⟨l, hl, hname, heq⟩ | ⟨-, heq⟩
    · rw [heq]
      simp [hname, hforms l hl]
    · rw [heq]
  rw [← Text.trim_eq_nil_iff, ← hresolve, canonicalFolder, Text.replace, List.map_eq_nil_iff]

/-! ## Labels -/

/-- Whether a text is a label in its canonical form. -/
structure IsLabelForm (t : Text) : Prop where
  /-- It is not empty. -/
  nonEmpty : t ≠ []
  /-- It has no blank at either end. -/
  trimmed : t.IsTrimmed
  /-- It has a dot only if it begins with a backslash. -/
  dotFree : '.' ∈ t → t.head? = some '\\'
  /-- It is no folder of the mail system. -/
  notSystem : ∀ l ∈ Label.system, t ≠ l.folderForm

/-- A name is that of a folder of the mail system, or stays as it is. -/
theorem resolveLabel_split (t : Text) :
    (∃ l ∈ Label.system, t = l.folderForm ∧ resolveLabel t = l.labelForm) ∨
      (∀ l ∈ Label.system, t ≠ l.folderForm) ∧ resolveLabel t = t := by
  unfold resolveLabel Label.ofFolderForm
  cases h : Label.system.find? (fun l => l.folderForm == t) with
  | none =>
    refine .inr ⟨fun l hl heq => ?_, rfl⟩
    exact List.find?_eq_none.1 h l hl (beq_iff_eq.2 heq.symm)
  | some l =>
    have hname := List.find?_some h
    rw [beq_iff_eq] at hname
    exact .inl ⟨l, List.mem_of_find?_eq_some h, hname.symm, rfl⟩

/-- What a label is made of: nothing of a blank text, the label of a folder of the mail system, a
text with a backslash in front as it is, and any other text with slashes for its dots. -/
theorem canonicalLabel?_split (t : Text) :
    (Text.trim t = [] ∧ canonicalLabel? t = none) ∨
      (∃ l ∈ Label.system, Text.trim t = l.folderForm ∧ canonicalLabel? t = some l.labelForm) ∨
      (Text.trim t ≠ [] ∧ ∀ l ∈ Label.system, Text.trim t ≠ l.folderForm) ∧
        (((Text.trim t).head? = some '\\' ∧ canonicalLabel? t = some (Text.trim t)) ∨
          (Text.trim t).head? ≠ some '\\' ∧
            canonicalLabel? t = some (Text.replace '.' '/' (Text.trim t))) := by
  have hbackslash : ∀ l ∈ Label.system, ∃ rest, l.labelForm = '\\' :: rest := by
    intro l hl
    have hhead : ∀ l ∈ Label.system, l.labelForm.head? = some '\\' := by decide
    exact ⟨_, (List.head?_eq_some_iff.1 (hhead l hl)).choose_spec⟩
  unfold canonicalLabel?
  cases Text.trim t with
  | nil => exact .inl ⟨rfl, rfl⟩
  | cons c name =>
    dsimp only
    rcases resolveLabel_split (c :: name) with ⟨l, hl, heq, hlabel⟩ | ⟨hnot, hself⟩
    · obtain ⟨rest, hrest⟩ := hbackslash l hl
      refine .inr (.inl ⟨l, hl, heq, ?_⟩)
      rw [hlabel, hrest]
      rfl
    · refine .inr (.inr ⟨⟨List.cons_ne_nil c name, hnot⟩, ?_⟩)
      rw [hself]
      split
      · rename_i rest hcons
        rw [hcons]
        exact .inl ⟨rfl, rfl⟩
      · rename_i hplain
        refine .inr ⟨fun hhead => ?_, rfl⟩
        obtain rfl : c = '\\' := by simpa using hhead
        exact hplain name rfl

theorem canonicalLabel?_eq_none_iff {t : Text} :
    canonicalLabel? t = none ↔ ∀ c ∈ t, isBlank c = true := by
  rw [← Text.trim_eq_nil_iff]
  rcases canonicalLabel?_split t with ⟨hnil, h⟩ | ⟨l, hl, hname, h⟩ | ⟨⟨hne, -⟩, ⟨-, h⟩ | ⟨-, h⟩⟩
  · simp [hnil, h]
  · have hform : ∀ l ∈ Label.system, l.folderForm ≠ [] := by decide
    simp [h, hname, hform l hl]
  · simp [h, hne]
  · simp [h, hne]

section Made

variable {s t : Text}

/-- Every text that makes a label is brought into the form of one. -/
theorem isLabelForm_of_canonicalLabel? (h : canonicalLabel? s = some t) : IsLabelForm t := by
  have hforms : ∀ l ∈ Label.system, l.labelForm ≠ [] ∧ l.labelForm.IsTrimmed ∧
      '.' ∉ l.labelForm ∧ ∀ l' ∈ Label.system, l.labelForm ≠ l'.folderForm := by decide
  have htrimmed := Text.isTrimmed_trim s
  rcases canonicalLabel?_split s with
    ⟨-, hmade⟩ | ⟨l, hl, -, hmade⟩ | ⟨⟨hne, hnot⟩, ⟨hhead, hmade⟩ | ⟨hhead, hmade⟩⟩
  · exact nomatch hmade.symm.trans h
  · obtain rfl := Option.some.inj (hmade.symm.trans h)
    obtain ⟨hne, htrim, hdot, hnot⟩ := hforms l hl
    exact ⟨hne, htrim, fun hmem => absurd hmem hdot, hnot⟩
  · obtain rfl := Option.some.inj (hmade.symm.trans h)
    exact ⟨hne, htrimmed, fun _ => hhead, hnot⟩
  · obtain rfl := Option.some.inj (hmade.symm.trans h)
    have hdot : '.' ∉ Text.replace '.' '/' (Text.trim s) := not_mem_replace (by decide) _
    refine ⟨by simpa [Text.replace] using hne, isTrimmed_replace htrimmed (by decide) _,
      fun hmem => absurd hmem hdot, fun l hl heq => ?_⟩
    -- no folder of the mail system has a slash, so that no dot was replaced
    have hslash : ∀ l ∈ Label.system, '/' ∉ l.folderForm := by decide
    exact hnot l hl (replace_eq_self (heq ▸ hslash l hl) ▸ heq)

theorem canonicalLabel?_eq_self (h : IsLabelForm t) : canonicalLabel? t = some t := by
  have htrim := Text.trim_eq_self h.trimmed
  rcases canonicalLabel?_split t with
    ⟨hnil, -⟩ | ⟨l, hl, hname, -⟩ | ⟨-, ⟨-, hmade⟩ | ⟨hhead, hmade⟩⟩
  · exact absurd (htrim.symm.trans hnil) h.nonEmpty
  · exact absurd (htrim.symm.trans hname) (h.notSystem l hl)
  · rw [hmade, htrim]
  · rw [htrim] at hhead
    rw [hmade, htrim, replace_of_not_mem fun hdot => hhead (h.dotFree hdot)]

/-- A label names the folder that is named by the text it was made of. -/
theorem canonicalFolder_of_canonicalLabel? (h : canonicalLabel? s = some t) :
    canonicalFolder t = canonicalFolder s := by
  rw [← canonicalFolder_trim s]
  rcases canonicalLabel?_split s with
    ⟨-, hmade⟩ | ⟨l, hl, hname, hmade⟩ | ⟨⟨hne, -⟩, ⟨-, hmade⟩ | ⟨hhead, hmade⟩⟩
  · exact nomatch hmade.symm.trans h
  · have hforms : ∀ l ∈ Label.system,
        canonicalFolder l.labelForm = canonicalFolder l.folderForm := by decide
    obtain rfl := Option.some.inj (hmade.symm.trans h)
    rw [hname]
    exact hforms l hl
  · obtain rfl := Option.some.inj (hmade.symm.trans h)
    rfl
  · -- neither the text nor the label begins with a backslash, so that neither is a system label
    have hhead' : t.head? ≠ some '\\' := by
      obtain rfl := Option.some.inj (hmade.symm.trans h)
      rw [Text.replace, List.head?_map]
      intro hmap
      obtain ⟨c, hc, heq⟩ := Option.map_eq_some_iff.1 hmap
      split at heq
      · exact absurd heq (by decide)
      · exact hhead (heq ▸ hc)
    have htrimmed := (isLabelForm_of_canonicalLabel? h).trimmed
    rw [canonicalFolder, canonicalFolder, Text.trim_eq_self htrimmed, Text.trim_trim,
      resolveFolder_of_head? hhead', resolveFolder_of_head? hhead]
    obtain rfl := Option.some.inj (hmade.symm.trans h)
    exact replace_replace '.' '/' _

end Made

/-! ## Both -/

/-- The forms of folders and labels stay as they are.  A folder in its form has no blank at either
end and no slash, and is no label of the mail system.  There is no label of a blank text only; every
other label in its form has no blank at either end, and no dot unless it begins with a backslash, is
no folder of the mail system, and names the folder that is named by the text. -/
theorem canonicalNames_stay (s : Text) :
    (canonicalFolder (canonicalFolder s) = canonicalFolder s ∧
      (canonicalFolder s).IsTrimmed ∧ '/' ∉ canonicalFolder s ∧
      ∀ l ∈ Label.system, canonicalFolder s ≠ l.labelForm) ∧
    (canonicalLabel? s = none ↔ ∀ c ∈ s, isBlank c = true) ∧
    ∀ t, canonicalLabel? s = some t →
      canonicalLabel? t = some t ∧ t.IsTrimmed ∧ ('.' ∈ t → t.head? = some '\\') ∧
        (∀ l ∈ Label.system, t ≠ l.folderForm) ∧ canonicalFolder t = canonicalFolder s := by
  have hfolder := isFolderForm_canonicalFolder s
  refine ⟨⟨canonicalFolder_eq_self hfolder, hfolder.trimmed, hfolder.slashFree,
    hfolder.notSystem⟩, canonicalLabel?_eq_none_iff, fun t ht => ?_⟩
  have hlabel := isLabelForm_of_canonicalLabel? ht
  exact ⟨canonicalLabel?_eq_self hlabel, hlabel.trimmed, hlabel.dotFree, hlabel.notSystem,
    canonicalFolder_of_canonicalLabel? ht⟩

/-- A folder of the mail system between blanks makes the label of that folder. -/
theorem sentMail_stays : canonicalLabel? " gmail.Sent_Mail\n" = some ("\\Sent" : Text) ∧
    canonicalLabel? "\\Sent" = some ("\\Sent" : Text) ∧ Text.IsTrimmed "\\Sent" ∧
    ('.' ∈ ("\\Sent" : Text) → ("\\Sent" : Text).head? = some '\\') ∧
    (∀ l ∈ Label.system, ("\\Sent" : Text) ≠ l.folderForm) ∧
    canonicalFolder "\\Sent" = canonicalFolder " gmail.Sent_Mail\n" := by
  have hmade : canonicalLabel? " gmail.Sent_Mail\n" = some ("\\Sent" : Text) := by decide
  exact ⟨hmade, (canonicalNames_stay " gmail.Sent_Mail\n").2.2 _ hmade⟩

end Mailroom
