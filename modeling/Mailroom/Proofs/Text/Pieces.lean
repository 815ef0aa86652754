import Mailroom.Text.Blank

/-!
# Cutting and joining

Cutting a text at separators undoes joining, as long as what was joined holds no separator.

* `Text.pieces_append` and `Text.words_append` cut on both sides of a separator.
* `Text.words_join` gets words back from a list that they were joined to.
* `Text.cut_eq_some` says what the two sides of a cut are.
* `Text.trim_append_blank` trims a blank away.
-/

namespace Mailroom
namespace Text

variable {sep : Char → Bool}

/-! ## Pieces -/

theorem pieces_ne_nil (sep : Char → Bool) (t : Text) : pieces sep t ≠ [] := by
  induction t with
  | nil => simp [pieces]
  | cons c cs ih =>
    simp only [pieces]
    split
    · simp
    · split
      · simp
      · simp

theorem pieces_cons_of_not {c : Char} (hc : sep c = false) {cs p : Text} {ps : List Text}
    (h : pieces sep cs = p :: ps) : pieces sep (c :: cs) = (c :: p) :: ps := by
  simp [pieces, hc, h]

theorem pieces_of_none {t : Text} (h : ∀ c ∈ t, sep c = false) : pieces sep t = [t] := by
  induction t with
  | nil => rfl
  | cons c cs ih =>
    exact pieces_cons_of_not (h c (by simp)) (ih (fun x hx => h x (by simp [hx])))

theorem pieces_append {c : Char} (hc : sep c = true) (t u : Text) :
    pieces sep (t ++ c :: u) = pieces sep t ++ pieces sep u := by
  induction t with
  | nil => simp [pieces, hc]
  | cons x t ih =>
    cases hx : sep x with
    | true =>
      simp only [List.cons_append, pieces, hx, if_true, ih]
    | false =>
      cases ht : pieces sep t with
      | nil => exact absurd ht (pieces_ne_nil sep t)
      | cons p ps =>
        rw [ht, List.cons_append] at ih
        rw [List.cons_append, pieces_cons_of_not hx ih, pieces_cons_of_not hx ht,
          List.cons_append]

/-- No piece holds a separator, and a piece holds nothing that the text does not hold. -/
theorem mem_pieces {t p : Text} (h : p ∈ pieces sep t) {c : Char} (hc : c ∈ p) :
    sep c = false ∧ c ∈ t := by
  induction t generalizing p with
  | nil =>
    simp only [pieces, List.mem_singleton] at h
    simp [h] at hc
  | cons x t ih =>
    cases hx : sep x with
    | true =>
      simp only [pieces, hx, if_true, List.mem_cons] at h
      rcases h with rfl | h
      · simp at hc
      · obtain ⟨h₁, h₂⟩ := ih h hc
        exact ⟨h₁, List.mem_cons_of_mem x h₂⟩
    | false =>
      cases ht : pieces sep t with
      | nil => exact absurd ht (pieces_ne_nil sep t)
      | cons q qs =>
        rw [pieces_cons_of_not hx ht, List.mem_cons] at h
        rcases h with rfl | h
        · rcases List.mem_cons.1 hc with rfl | hc
          · exact ⟨hx, by simp⟩
          · obtain ⟨h₁, h₂⟩ := ih (p := q) (by simp [ht]) hc
            exact ⟨h₁, List.mem_cons_of_mem x h₂⟩
        · obtain ⟨h₁, h₂⟩ := ih (p := p) (by simp [ht, h]) hc
          exact ⟨h₁, List.mem_cons_of_mem x h₂⟩

/-! ## Words -/

@[simp] theorem words_nil (sep : Char → Bool) : words sep [] = [] := rfl

/-- Whether a text is a word: not empty and without separators. -/
def IsWord (sep : Char → Bool) (t : Text) : Prop := t ≠ [] ∧ ∀ c ∈ t, sep c = false

-- the characters of the text are gone through, not all characters there are
instance (sep : Char → Bool) (t : Text) : Decidable (IsWord sep t) :=
  @instDecidableAnd _ _ inferInstance (List.decidableBAll _ t)

theorem words_append {c : Char} (hc : sep c = true) (t u : Text) :
    words sep (t ++ c :: u) = words sep t ++ words sep u := by
  rw [words, pieces_append hc, List.filter_append]
  rfl

theorem words_cons_of_sep {c : Char} (hc : sep c = true) (t : Text) :
    words sep (c :: t) = words sep t := words_append hc [] t

theorem words_of_isWord {t : Text} (h : IsWord sep t) : words sep t = [t] := by
  rw [words, pieces_of_none h.2]
  simp [h.1]

theorem isWord_of_mem_words {t w : Text} (h : w ∈ words sep t) :
    IsWord sep w ∧ ∀ c ∈ w, c ∈ t := by
  simp only [words, List.mem_filter, Bool.not_eq_true', List.isEmpty_eq_false_iff] at h
  exact ⟨⟨h.2, fun c hc => (mem_pieces h.1 hc).1⟩, fun c hc => (mem_pieces h.1 hc).2⟩

theorem join_cons (glue t : Text) {ts : List Text} (h : ts ≠ []) :
    join glue (t :: ts) = t ++ glue ++ join glue ts := by
  cases ts with
  | nil => exact absurd rfl h
  | cons u us => simp [join, List.intercalate]

@[simp] theorem join_nil (glue : Text) : join glue [] = [] := rfl

@[simp] theorem join_singleton (glue t : Text) : join glue [t] = t := by
  simp [join, List.intercalate]

theorem mem_join {glue : Text} {ts : List Text} {c : Char} (h : c ∈ join glue ts) :
    c ∈ glue ∨ ∃ t ∈ ts, c ∈ t := by
  induction ts with
  | nil => simp at h
  | cons t ts ih =>
    by_cases hts : ts = []
    · subst hts
      exact Or.inr ⟨t, by simp, by simpa using h⟩
    · rw [join_cons glue t hts, List.mem_append, List.mem_append] at h
      rcases h with (h | h) | h
      · exact Or.inr ⟨t, by simp, h⟩
      · exact Or.inl h
      · rcases ih h with h | ⟨u, hu, hc⟩
        · exact Or.inl h
        · exact Or.inr ⟨u, by simp [hu], hc⟩

/-- The words of texts that are joined by separators are those of each text. -/
theorem words_join {a b : Char} (ha : sep a = true) (hb : sep b = true) (ts : List Text) :
    words sep (join [a, b] ts) = ts.flatMap (words sep) := by
  induction ts with
  | nil => rfl
  | cons t ts ih =>
    by_cases hts : ts = []
    · subst hts
      simp
    · rw [join_cons _ t hts, List.append_assoc, List.cons_append, words_append ha,
        List.singleton_append, words_cons_of_sep hb, ih, List.flatMap_cons]

theorem flatMap_words_of_isWord {ts : List Text} (h : ∀ t ∈ ts, IsWord sep t) :
    ts.flatMap (words sep) = ts := by
  induction ts with
  | nil => rfl
  | cons t ts ih =>
    rw [List.flatMap_cons, words_of_isWord (h t (by simp)),
      ih (fun u hu => h u (by simp [hu]))]
    rfl

/-! ## Cutting once -/

theorem cut_eq_some {c : Char} {t a b : Text} (h : cut c t = some (a, b)) :
    t = a ++ c :: b ∧ c ∉ a := by
  induction t generalizing a with
  | nil => simp [cut] at h
  | cons x t ih =>
    simp only [cut] at h
    split at h
    · rename_i hx
      simp only [Option.some.injEq, Prod.mk.injEq] at h
      obtain ⟨rfl, rfl⟩ := h
      simp [hx]
    · rename_i hx
      obtain ⟨⟨a', b'⟩, hp, heq⟩ := Option.map_eq_some_iff.1 h
      simp only [Prod.mk.injEq] at heq
      obtain ⟨rfl, rfl⟩ := heq
      obtain ⟨rfl, ha⟩ := ih hp
      refine ⟨rfl, ?_⟩
      simp [ha, Ne.symm hx]

/-! ## Trimming -/

/-- A blank at the end does not survive trimming. -/
theorem trim_append_blank (t : Text) {c : Char} (hc : isBlank c = true) :
    trim (t ++ [c]) = trim t := by
  have hright : ∀ u : Text, trimRight (u ++ [c]) = trimRight u := by
    intro u
    simp [trimRight, dropEndWhile, hc]
  rw [trim, trim, trimLeft, trimLeft, List.dropWhile_append]
  split
  · rename_i h
    rw [List.isEmpty_iff.1 h]
    simp [hc]
  · exact hright _

theorem trim_cons_blank (t : Text) {c : Char} (hc : isBlank c = true) : trim (c :: t) = trim t := by
  rw [trim, trim, trimLeft, trimLeft, List.dropWhile_cons_of_pos hc]

theorem length_trim_le (t : Text) : (trim t).length ≤ t.length := by
  have hleft := (List.dropWhile_suffix isBlank (l := t)).length_le
  have hright := (List.dropWhile_suffix isBlank (l := (trimLeft t).reverse)).length_le
  rw [List.length_reverse] at hright
  rw [trim, trimRight, dropEndWhile, List.length_reverse]
  exact Nat.le_trans hright hleft

end Text
end Mailroom
