import Mailroom.Keywords
import Mailroom.Proofs.Header.ReadBack
import Mailroom.Proofs.Text.Lower

/-!
# Lists of words in a field

Keywords and addresses stand in a field as words with a comma and a blank between them.  Such a
list reads back, and its words are those that were written.

* `readsBack_join` is for lists of tokens, which are words in which nothing looks like an encoded
  word.
* `IsToken.lower` says that tokens in small letters are such.
-/

namespace Mailroom

/-! ## Lists that read back -/

/-- Whether a text can be read back from a list: a word in which nothing looks like an encoded
word. -/
def IsToken (t : Text) : Prop := Text.IsWord isTokenBreak t ∧ ¬ HasOpening t

instance (t : Text) : Decidable (IsToken t) := inferInstanceAs (Decidable (_ ∧ _))

theorem isSign_of_isTokenBreak {c : Char} (h : isTokenBreak c = true) : IsSign c := by
  simp only [isTokenBreak, Bool.or_eq_true, beq_iff_eq] at h
  rcases h with rfl | h
  · exact Or.inl (by decide)
  · exact Or.inr h

theorem not_isBlank_of_isWord {w : Text} (h : Text.IsWord isTokenBreak w) {c : Char}
    (hc : c ∈ w) : isBlank c = false := by
  have hbreak := h.2 c hc
  rw [isTokenBreak, Bool.or_eq_false_iff] at hbreak
  exact hbreak.2

theorem IsToken.lineFeed {t : Text} (h : IsToken t) : '\n' ∉ t := fun hmem =>
  absurd (not_isBlank_of_isWord h.1 hmem) (by decide)

theorem head?_join {t : Text} {ts : List Text} (ht : t ≠ []) :
    (Text.join ", " (t :: ts)).head? = t.head? := by
  cases t with
  | nil => exact absurd rfl ht
  | cons c t =>
    by_cases hts : ts = []
    · rw [hts, Text.join_singleton]
    · rw [Text.join_cons _ _ hts]
      rfl

theorem getLast?_join {ts : List Text} (hts : ts ≠ []) (hne : ∀ t ∈ ts, t ≠ []) :
    ∃ t ∈ ts, (Text.join ", " ts).getLast? = t.getLast? := by
  induction ts with
  | nil => exact absurd rfl hts
  | cons t ts ih =>
    by_cases hrest : ts = []
    · exact ⟨t, by simp, by rw [hrest, Text.join_singleton]⟩
    · obtain ⟨u, hu, hlast⟩ := ih hrest fun u hu => hne u (by simp [hu])
      refine ⟨u, by simp [hu], ?_⟩
      rw [Text.join_cons _ t hrest, List.getLast?_append, hlast]
      cases hl : u.getLast? with
      | none => exact absurd (List.getLast?_eq_none_iff.1 hl) (hne u (by simp [hu]))
      | some c => rfl

/-- A list of tokens reads as it is. -/
theorem readsBack_join {ts : List Text} (h : ∀ t ∈ ts, IsToken t) :
    ReadsBack (Text.join ", " ts) where
  lineFeed := by
    intro hmem
    rcases Text.mem_join hmem with hglue | ⟨t, ht, hc⟩
    · exact absurd hglue (by decide)
    · exact (h t ht).lineFeed hc
  opening := not_hasOpening_join fun t ht => (h t ht).2
  first := by
    intro c hc
    cases ts with
    | nil => simp at hc
    | cons t ts =>
      rw [head?_join (h t (by simp)).1.1] at hc
      exact not_isBlank_of_isWord (h t (by simp)).1 (List.mem_of_head? hc)
  last := by
    intro c hc
    by_cases hts : ts = []
    · rw [hts] at hc
      simp at hc
    · obtain ⟨t, ht, hlast⟩ := getLast?_join hts fun t ht => (h t ht).1.1
      rw [hlast] at hc
      exact not_isBlank_of_isWord (h t ht).1 (List.mem_of_getLast? hc)

/-- The words of a written list are the words that it was made of. -/
theorem words_join_of_isWord {ts : List Text} (h : ∀ t ∈ ts, Text.IsWord isTokenBreak t) :
    Text.words isTokenBreak (Text.join ", " ts) = ts := by
  have hglue : (", " : Text) = [',', ' '] := rfl
  rw [hglue, Text.words_join (by decide) (by decide), Text.flatMap_words_of_isWord h]

/-! ## Parts of a text -/

theorem infix_of_mem_pieces {sep : Char → Bool} {t p : Text} (h : p ∈ Text.pieces sep t) :
    p <:+: t := by
  -- the first piece stands at the beginning of the text
  suffices hall : (∀ q ∈ Text.pieces sep t, q <:+: t) ∧
      ∀ q qs, Text.pieces sep t = q :: qs → q <+: t from hall.1 p h
  clear h
  induction t with
  | nil =>
    refine ⟨fun q hq => ?_, fun q qs hq => ?_⟩
    · obtain rfl := List.mem_singleton.1 hq
      exact List.nil_infix
    · obtain rfl := (List.cons.inj hq).1
      exact List.nil_prefix
  | cons c t ih =>
    obtain ⟨hmem, hfirst⟩ := ih
    by_cases hc : sep c = true
    · have hpieces : Text.pieces sep (c :: t) = [] :: Text.pieces sep t := by
        rw [Text.pieces, if_pos hc]
      rw [hpieces]
      refine ⟨fun q hq => ?_, fun q qs hq => ?_⟩
      · rcases List.mem_cons.1 hq with rfl | hq
        · exact List.nil_infix
        · exact (hmem q hq).trans (List.suffix_cons c t).isInfix
      · rw [← (List.cons.inj hq).1]
        exact List.nil_prefix
    · cases ht : Text.pieces sep t with
      | nil => exact absurd ht (Text.pieces_ne_nil sep t)
      | cons r rs =>
        have hpieces := Text.pieces_cons_of_not (by simpa using hc) ht
        have hr : (c :: r) <+: c :: t := (List.cons_prefix_cons).2 ⟨rfl, hfirst r rs ht⟩
        rw [hpieces]
        refine ⟨fun q hq => ?_, fun q qs hq => ?_⟩
        · rcases List.mem_cons.1 hq with rfl | hq
          · exact hr.isInfix
          · exact (hmem q (by simp [ht, hq])).trans (List.suffix_cons c t).isInfix
        · rw [← (List.cons.inj hq).1]
          exact hr

theorem not_hasOpening_of_mem_words {sep : Char → Bool} {t w : Text} (ht : ¬ HasOpening t)
    (h : w ∈ Text.words sep t) : ¬ HasOpening w :=
  fun hw => ht (hw.mono (infix_of_mem_pieces (List.mem_filter.1 h).1))

/-! ## Words in small letters -/

theorem smallForms_ne_nil {c : Char} {small : Text} (h : small ∈ Text.smallForms c) :
    small ≠ [] := by
  rintro rfl
  simp only [Text.smallForms] at h
  split at h
  · simp at h
  · split at h <;> simp at h

theorem lower_ne_nil {t : Text} (h : t ≠ []) : Text.lower t ≠ [] := by
  cases t with
  | nil => exact absurd rfl h
  | cons c t =>
    obtain ⟨small, hsmall, heq⟩ := Text.lowerAfter_cons [] c t
    intro hnil
    have hall : small ++ Text.lowerAfter [c] t = [] := heq.symm.trans hnil
    exact smallForms_ne_nil hsmall (List.append_eq_nil_iff.1 hall).1

theorem isWord_lower {w : Text} (h : Text.IsWord isTokenBreak w) :
    Text.IsWord isTokenBreak (Text.lower w) := by
  refine ⟨lower_ne_nil h.1, fun c hc => ?_⟩
  rw [← Bool.not_eq_true]
  intro hbreak
  have hmem := Text.sign_of_mem_lower hc (isSign_of_isTokenBreak hbreak)
  rw [h.2 c hmem] at hbreak
  exact absurd hbreak (by simp)

/-- A sign that small letters begin with was there before. -/
theorem eq_cons_of_lowerAfter {before t u : Text} {c : Char}
    (h : Text.lowerAfter before t = c :: u) (hc : IsSign c) : ∃ t', t = c :: t' := by
  cases t with
  | nil => simp [Text.lowerAfter] at h
  | cons x t =>
    obtain ⟨small, hsmall, heq⟩ := Text.lowerAfter_cons before x t
    cases small with
    | nil => exact absurd rfl (smallForms_ne_nil hsmall)
    | cons y small =>
      have hy : y = c := (List.cons.inj (heq.symm.trans h)).1
      refine ⟨t, ?_⟩
      rw [Text.eq_of_sign_mem_smallForms hsmall (x := c) (by simp [hy]) hc]

theorem not_hasOpening_lower {t : Text} (h : ¬ HasOpening t) : ¬ HasOpening (Text.lower t) := by
  suffices hall : ∀ before, HasOpening (Text.lowerAfter before t) → HasOpening t from
    fun hopening => h (hall [] hopening)
  clear h
  induction t with
  | nil => exact fun _ h => h
  | cons x t ih =>
    intro before h
    obtain ⟨small, hsmall, heq⟩ := Text.lowerAfter_cons before x t
    rw [heq] at h
    -- an equals sign before a question mark was an equals sign before
    have hstep : ∀ y : Char, y ∈ small → HasOpening (y :: Text.lowerAfter (x :: before) t) →
        HasOpening (x :: t) := by
      intro y hy hopening
      rcases hasOpening_cons.1 hopening with ⟨rfl, u, hu⟩ | hopening
      · obtain rfl := Text.eq_of_sign_mem_smallForms hsmall hy (Or.inl (by decide))
        obtain ⟨t', rfl⟩ := eq_cons_of_lowerAfter hu (Or.inl (by decide))
        exact hasOpening_cons.2 (Or.inl ⟨rfl, t', rfl⟩)
      · exact hasOpening_cons.2 (Or.inr (ih _ hopening))
    simp only [Text.smallForms] at hsmall
    split at hsmall
    · simp only [List.mem_cons, List.not_mem_nil, or_false] at hsmall
      rcases hsmall with rfl | rfl
      · exact hstep _ (by simp) h
      · exact hstep _ (by simp) h
    · split at hsmall
      · obtain rfl := List.mem_singleton.1 hsmall
        rcases hasOpening_cons.1 h with ⟨hi, -⟩ | h
        · exact absurd hi (by decide)
        · exact hstep _ (by simp) h
      · obtain rfl := List.mem_singleton.1 hsmall
        exact hstep _ (by simp) h

theorem IsToken.lower {t : Text} (h : IsToken t) : IsToken (Text.lower t) :=
  ⟨isWord_lower h.1, not_hasOpening_lower h.2⟩

/-- The words of a text in which nothing looks like an encoded word are tokens. -/
theorem isToken_of_mem_words {t w : Text} (ht : ¬ HasOpening t)
    (h : w ∈ Text.words isTokenBreak t) : IsToken w :=
  ⟨(Text.isWord_of_mem_words h).1, not_hasOpening_of_mem_words ht h⟩

end Mailroom
