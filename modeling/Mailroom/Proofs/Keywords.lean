import Mathlib.Data.List.Perm.Basic
import Mailroom.Keywords
import Mailroom.Proofs.Text.Pieces

/-!
# Keyword sets

What adding and removing keywords does to the members of a set, when it tells of a change, and
what the written form of a set reads as.

* `Keywords.mem_insertAll` and `Keywords.mem_eraseAll` give the members.
* `Keywords.insertAll_changed` and `Keywords.eraseAll_changed` say when a change is told.
* `Keywords.parse_render` reads a set of clean names back.
-/

namespace Mailroom

/-! ## Folder form -/

/-- A name is that of a label of the mail system, or stays as it is. -/
theorem resolveFolder_split (t : Text) :
    (∃ l ∈ Label.system, t = l.labelForm ∧ resolveFolder t = l.folderForm) ∨
      (∀ l ∈ Label.system, t ≠ l.labelForm) ∧ resolveFolder t = t := by
  unfold resolveFolder Label.ofLabelForm
  cases h : Label.system.find? (fun l => l.labelForm == t) with
  | none =>
    refine Or.inr ⟨fun l hl heq => ?_, rfl⟩
    exact List.find?_eq_none.1 h l hl (beq_iff_eq.2 heq.symm)
  | some l =>
    have hname := List.find?_some h
    rw [beq_iff_eq] at hname
    exact Or.inl ⟨l, List.mem_of_find?_eq_some h, hname.symm, rfl⟩

theorem resolveFolder_cases (t : Text) :
    (∃ l ∈ Label.system, resolveFolder t = l.folderForm) ∨ resolveFolder t = t := by
  rcases resolveFolder_split t with ⟨l, hl, -, h⟩ | ⟨-, h⟩
  · exact Or.inl ⟨l, hl, h⟩
  · exact Or.inr h

theorem resolveFolder_labelForm : ∀ l ∈ Label.system, resolveFolder l.labelForm = l.folderForm := by
  decide

/-- The folder form is its own folder form. -/
theorem resolveFolder_resolveFolder (t : Text) : resolveFolder (resolveFolder t) =
    resolveFolder t := by
  rcases resolveFolder_cases t with ⟨l, hl, h⟩ | h
  · rw [h]
    simp only [Label.system, List.mem_cons, List.not_mem_nil, or_false] at hl
    rcases hl with rfl | rfl | rfl | rfl | rfl | rfl <;> decide
  · rw [h, h]

/-- What holds of a text and of the folders of the mail system holds of the folder form. -/
theorem holds_resolveFolder {P : Text → Prop} {t : Text} (h : P t)
    (hsystem : ∀ l ∈ Label.system, P l.folderForm) : P (resolveFolder t) := by
  rcases resolveFolder_cases t with ⟨l, hl, heq⟩ | heq
  · rw [heq]
    exact hsystem l hl
  · rw [heq]
    exact h

/-! ## Sets of texts -/

/-- Two increasing lists with the same members are one list. -/
theorem eq_of_increasing {l k : List Text} (hl : l.Pairwise (· < ·)) (hk : k.Pairwise (· < ·))
    (h : ∀ z, z ∈ l ↔ z ∈ k) : l = k := by
  have hperm : l.Perm k :=
    (List.perm_ext_iff_of_nodup (nodup_of_increasing hl) (nodup_of_increasing hk)).2 h
  exact hperm.eq_of_pairwise
    (fun a b _ _ hab hba => absurd (List.lt_trans hab hba) (List.lt_irrefl a)) hl hk

namespace TextSet

theorem mem_insertAll {s : TextSet} {l : List Text} {z : Text} :
    z ∈ (s.insertAll l).toList ↔ z ∈ s.toList ∨ z ∈ l := by
  induction l generalizing s with
  | nil => simp [insertAll]
  | cons x l ih =>
    have hcons : s.insertAll (x :: l) = (s.insert x).insertAll l := rfl
    rw [hcons, ih, mem_insert, List.mem_cons]
    constructor
    · rintro ((h | h) | h)
      · exact Or.inr (Or.inl h)
      · exact Or.inl h
      · exact Or.inr (Or.inr h)
    · rintro (h | h | h)
      · exact Or.inl (Or.inr h)
      · exact Or.inl (Or.inl h)
      · exact Or.inr h

theorem mem_ofList {l : List Text} {z : Text} : z ∈ (ofList l).toList ↔ z ∈ l := by
  have h := mem_insertAll (s := empty) (l := l) (z := z)
  simpa [insertAll, ofList, empty] using h

theorem ext_of_mem {s t : TextSet} (h : ∀ z, z ∈ s.toList ↔ z ∈ t.toList) : s = t := by
  obtain ⟨l, hl⟩ := s
  obtain ⟨k, hk⟩ := t
  obtain rfl : l = k := eq_of_increasing hl hk h
  rfl

end TextSet

namespace Keywords

/-! ## Members -/

theorem contains_iff {k : Keywords} {n : Text} :
    k.contains n = true ↔ resolveFolder n ∈ k.toList := by
  simp [contains, TextSet.contains_iff, toList]

theorem ext_of_mem {k k' : Keywords} (h : ∀ n, n ∈ k.toList ↔ n ∈ k'.toList) : k = k' := by
  obtain ⟨s⟩ := k
  obtain ⟨s'⟩ := k'
  exact congrArg Keywords.mk (TextSet.ext_of_mem h)

theorem mem_insert {k : Keywords} {n z : Text} :
    z ∈ (k.insert n).toList ↔ z = resolveFolder n ∨ z ∈ k.toList := TextSet.mem_insert

theorem mem_erase {k : Keywords} {n z : Text} :
    z ∈ (k.erase n).toList ↔ z ∈ k.toList ∧ z ≠ resolveFolder n := TextSet.mem_erase

theorem mem_ofList {l : List Text} {z : Text} :
    z ∈ (ofList l).toList ↔ ∃ n ∈ l, z = resolveFolder n := by
  have h := TextSet.mem_ofList (l := l.map resolveFolder) (z := z)
  simp only [List.mem_map] at h
  refine h.trans ⟨?_, ?_⟩
  · rintro ⟨n, hn, rfl⟩
    exact ⟨n, hn, rfl⟩
  · rintro ⟨n, hn, rfl⟩
    exact ⟨n, hn, rfl⟩

section All

variable {k : Keywords} {names : List Text} {z : Text}

/-- Adding one after the other, from a set and with what was told so far. -/
theorem insertAll_from (names : List Text) (k : Keywords) (told : Bool) :
    let r := names.foldl (fun r n => (r.1.insert n, r.2 || !r.1.contains n)) (k, told)
    (∀ z, z ∈ r.1.toList ↔ z ∈ k.toList ∨ ∃ n ∈ names, z = resolveFolder n) ∧
      (r.2 = true ↔ told = true ∨ ∃ n ∈ names, k.contains n = false) := by
  induction names generalizing k told with
  | nil => simp
  | cons n names ih =>
    obtain ⟨hmem, htold⟩ := ih (k.insert n) (told || !k.contains n)
    refine ⟨fun z => ?_, ?_⟩
    · rw [List.foldl_cons, hmem, mem_insert]
      simp only [List.mem_cons, exists_eq_or_imp]
      constructor
      · rintro ((h | h) | h)
        · exact Or.inr (Or.inl h)
        · exact Or.inl h
        · exact Or.inr (Or.inr h)
      · rintro (h | h | h)
        · exact Or.inl (Or.inr h)
        · exact Or.inl (Or.inl h)
        · exact Or.inr h
    · rw [List.foldl_cons, htold]
      simp only [Bool.or_eq_true, Bool.not_eq_true', List.mem_cons, exists_eq_or_imp]
      constructor
      · rintro ((h | h) | ⟨x, hx, hnot⟩)
        · exact Or.inl h
        · exact Or.inr (Or.inl h)
        · refine Or.inr (Or.inr ⟨x, hx, ?_⟩)
          rw [← Bool.not_eq_true, contains_iff] at hnot ⊢
          exact fun hin => hnot (mem_insert.2 (Or.inr hin))
      · rintro (h | h | ⟨x, hx, hnot⟩)
        · exact Or.inl (Or.inl h)
        · exact Or.inl (Or.inr h)
        · by_cases hn : k.contains n = false
          · exact Or.inl (Or.inr hn)
          · refine Or.inr ⟨x, hx, ?_⟩
            rw [Bool.not_eq_false, contains_iff] at hn
            rw [← Bool.not_eq_true, contains_iff] at hnot ⊢
            intro hin
            rcases mem_insert.1 hin with heq | hin
            · exact hnot (heq ▸ hn)
            · exact hnot hin

theorem mem_insertAll : z ∈ (k.insertAll names).1.toList ↔
    z ∈ k.toList ∨ ∃ n ∈ names, z = resolveFolder n := (insertAll_from names k false).1 z

/-- A change is told when one of the keywords was missing. -/
theorem insertAll_changed :
    (k.insertAll names).2 = true ↔ ∃ n ∈ names, k.contains n = false := by
  refine (insertAll_from names k false).2.trans ?_
  simp

/-- Without a change told, the set is the same. -/
theorem insertAll_eq_self (k : Keywords) (names : List Text) (h : (k.insertAll names).2 = false) :
    (k.insertAll names).1 = k := by
  have hall : ∀ n ∈ names, k.contains n = true := by
    intro n hn
    rw [← Bool.not_eq_false]
    intro hmissing
    rw [insertAll_changed.2 ⟨n, hn, hmissing⟩] at h
    exact absurd h (by simp)
  refine ext_of_mem fun z => ?_
  rw [mem_insertAll, or_iff_left_iff_imp]
  rintro ⟨n, hn, rfl⟩
  exact contains_iff.1 (hall n hn)

/-- Removing one after the other, from a set and with what was told so far. -/
theorem eraseAll_from (names : List Text) (k : Keywords) (told : Bool) :
    let r := names.foldl (fun r n => (r.1.erase n, r.2 || r.1.contains n)) (k, told)
    (∀ z, z ∈ r.1.toList ↔ z ∈ k.toList ∧ ∀ n ∈ names, z ≠ resolveFolder n) ∧
      (r.2 = true ↔ told = true ∨ ∃ n ∈ names, k.contains n = true) := by
  induction names generalizing k told with
  | nil => simp
  | cons n names ih =>
    obtain ⟨hmem, htold⟩ := ih (k.erase n) (told || k.contains n)
    refine ⟨fun z => ?_, ?_⟩
    · rw [List.foldl_cons, hmem, mem_erase]
      simp only [List.mem_cons, forall_eq_or_imp]
      exact and_assoc
    · rw [List.foldl_cons, htold]
      simp only [Bool.or_eq_true, List.mem_cons, exists_eq_or_imp]
      constructor
      · rintro ((h | h) | ⟨x, hx, hin⟩)
        · exact Or.inl h
        · exact Or.inr (Or.inl h)
        · refine Or.inr (Or.inr ⟨x, hx, ?_⟩)
          rw [contains_iff] at hin ⊢
          exact (mem_erase.1 hin).1
      · rintro (h | h | ⟨x, hx, hin⟩)
        · exact Or.inl (Or.inl h)
        · exact Or.inl (Or.inr h)
        · by_cases hn : k.contains n = true
          · exact Or.inl (Or.inr hn)
          · refine Or.inr ⟨x, hx, ?_⟩
            rw [contains_iff] at hin hn ⊢
            exact mem_erase.2 ⟨hin, fun heq => hn (heq ▸ hin)⟩

theorem mem_eraseAll : z ∈ (k.eraseAll names).1.toList ↔
    z ∈ k.toList ∧ ∀ n ∈ names, z ≠ resolveFolder n := (eraseAll_from names k false).1 z

/-- A change is told when one of the keywords was present. -/
theorem eraseAll_changed :
    (k.eraseAll names).2 = true ↔ ∃ n ∈ names, k.contains n = true := by
  refine (eraseAll_from names k false).2.trans ?_
  simp

/-- Without a change told, the set is the same. -/
theorem eraseAll_eq_self (k : Keywords) (names : List Text) (h : (k.eraseAll names).2 = false) :
    (k.eraseAll names).1 = k := by
  refine ext_of_mem fun z => ?_
  rw [mem_eraseAll, and_iff_left_iff_imp]
  rintro hz n hn rfl
  rw [eraseAll_changed.2 ⟨n, hn, contains_iff.2 hz⟩] at h
  exact absurd h (by simp)

end All

/-! ## Reading and writing -/

theorem mem_parse {raw z : Text} :
    z ∈ (parse raw).toList ↔ ∃ w ∈ keywordTokens raw, z = resolveFolder w := mem_ofList

/-- A name in folder form that is one token reads back as itself. -/
theorem parse_render {k : Keywords} (hform : ∀ n ∈ k.toList, resolveFolder n = n)
    (hword : ∀ n ∈ k.toList, Text.IsWord isTokenBreak n) : parse k.render = k := by
  refine ext_of_mem fun z => ?_
  have hwords : keywordTokens k.render = k.toList := by
    have hglue : (", " : Text) = [',', ' '] := rfl
    rw [keywordTokens, render, hglue, Text.words_join (by decide) (by decide),
      Text.flatMap_words_of_isWord hword]
  rw [mem_parse, hwords]
  constructor
  · rintro ⟨w, hw, rfl⟩
    rw [hform w hw]
    exact hw
  · intro hz
    exact ⟨z, hz, (hform z hz).symm⟩

end Keywords

end Mailroom
