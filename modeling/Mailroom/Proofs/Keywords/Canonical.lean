import Mathlib.Data.Set.Image
import Mailroom.Proofs.Keywords

/-!
# One written form for each set of keywords

The keyword field is read by its tokens, which are the runs of characters between commas and
blanks, and written in one way.  What is written reads back, so that two fields are written alike
if and only if they have the same tokens, however these are parted, ordered, repeated or spelled.

* `Text.StandsIn` says what a token is, and `Text.mem_words_iff` that all of them are found.
* `Keywords.parse_render_parse` reads back what is written for the keywords of a field, and
  `Keywords.parse_eq_iff` says which fields have the same keywords.
* `Keywords.written_in_one_way` is the result.
-/

namespace Mailroom

/-! ## Tokens -/

namespace Text

variable {sep : Char → Bool} {w t : Text}

/-- Whether a word stands in a text: it is a run of neighbours there, and what comes before and
after it, if anything does, is a separator. -/
def StandsIn (sep : Char → Bool) (w t : Text) : Prop :=
  IsWord sep w ∧ ∃ before after, t = before ++ w ++ after ∧
    (∀ c ∈ before.getLast?, sep c = true) ∧ ∀ c ∈ after.head?, sep c = true

theorem mem_words_of_standsIn (h : StandsIn sep w t) : w ∈ words sep t := by
  obtain ⟨hword, before, after, rfl, hbefore, hafter⟩ := h
  -- first what comes after the word, then what comes before it
  have hopen : w ∈ words sep (w ++ after) := by
    cases after with
    | nil =>
      rw [List.append_nil, words_of_isWord hword]
      exact List.mem_singleton_self w
    | cons c after =>
      rw [words_append (hafter c rfl), words_of_isWord hword]
      exact List.mem_append_left _ (List.mem_singleton_self w)
  rcases List.eq_nil_or_concat before with rfl | ⟨front, c, rfl⟩
  · exact hopen
  · have hc : sep c = true := hbefore c (by simp)
    rw [List.concat_eq_append, List.append_assoc, List.append_assoc, List.singleton_append,
      words_append hc]
    exact List.mem_append_right _ hopen

theorem StandsIn.append_left (h : StandsIn sep w t) {c : Char} (hc : sep c = true) (u : Text) :
    StandsIn sep w (u ++ c :: t) := by
  obtain ⟨hword, before, after, rfl, hbefore, hafter⟩ := h
  refine ⟨hword, u ++ c :: before, after, by simp, fun x hx => ?_, hafter⟩
  obtain rfl : before.getLast?.getD c = x := by
    simpa [List.getLast?_append, List.getLast?_cons] using hx
  cases hlast : before.getLast? with
  | none => exact hc
  | some y => exact hbefore y hlast

/-- A text has no separator, or there is a first one. -/
theorem free_or_split (sep : Char → Bool) (t : Text) : (∀ c ∈ t, sep c = false) ∨
    ∃ front c rest, t = front ++ c :: rest ∧ (∀ x ∈ front, sep x = false) ∧ sep c = true := by
  induction t with
  | nil => exact .inl (by simp)
  | cons x t ih =>
    by_cases hx : sep x = true
    · exact .inr ⟨[], x, t, rfl, by simp, hx⟩
    · rw [Bool.not_eq_true] at hx
      rcases ih with h | ⟨front, c, rest, rfl, hfront, hc⟩
      · exact .inl (by simpa [hx] using h)
      · exact .inr ⟨x :: front, c, rest, rfl, by simpa [hx] using hfront, hc⟩

/-- A text without separators has no word but itself. -/
theorem eq_of_mem_words_of_free (hfree : ∀ c ∈ t, sep c = false) (h : w ∈ words sep t) : w = t := by
  rw [words, pieces_of_none hfree] at h
  exact List.mem_singleton.1 (List.mem_filter.1 h).1

theorem standsIn_of_mem_words (h : w ∈ words sep t) : StandsIn sep w t := by
  have hword := (isWord_of_mem_words h).1
  -- along the separators: a word stands before the first one, or in what comes after it
  induction hn : t.length using Nat.strong_induction_on generalizing t with
  | _ n ih =>
    rcases free_or_split sep t with hfree | ⟨front, c, rest, rfl, hfree, hc⟩
    · obtain rfl := eq_of_mem_words_of_free hfree h
      exact ⟨hword, [], [], by simp, by simp, by simp⟩
    · rw [words_append hc, List.mem_append] at h
      rcases h with h | h
      · obtain rfl := eq_of_mem_words_of_free hfree h
        exact ⟨hword, [], c :: rest, by simp, by simp, by simpa using hc⟩
      · have hlt : rest.length < n := by
          rw [← hn, List.length_append, List.length_cons]
          omega
        exact (ih rest.length hlt h rfl).append_left hc front

/-- The words of a text are the runs of characters that stand between separators. -/
theorem mem_words_iff : w ∈ words sep t ↔ StandsIn sep w t :=
  ⟨standsIn_of_mem_words, mem_words_of_standsIn⟩

end Text

/-! ## Keywords that were read -/

/-- The folder form of a token is one token: no name of a folder of the mail system falls apart. -/
theorem isWord_resolveFolder {t : Text} (h : Text.IsWord isTokenBreak t) :
    Text.IsWord isTokenBreak (resolveFolder t) :=
  holds_resolveFolder h (by decide)

namespace Keywords

/-- The keywords of a field are tokens in folder form. -/
theorem isWord_of_mem_parse {raw n : Text} (h : n ∈ (parse raw).toList) :
    resolveFolder n = n ∧ Text.IsWord isTokenBreak n := by
  obtain ⟨w, hw, rfl⟩ := mem_parse.1 h
  exact ⟨resolveFolder_resolveFolder w, isWord_resolveFolder (Text.isWord_of_mem_words hw).1⟩

theorem parse_render_parse (raw : Text) : parse (parse raw).render = parse raw :=
  parse_render (fun _ hn => (isWord_of_mem_parse hn).1) fun _ hn => (isWord_of_mem_parse hn).2

/-- What is written for keywords that were read tells which they are. -/
theorem render_parse_inj {raw raw' : Text} :
    (parse raw).render = (parse raw').render ↔ parse raw = parse raw' := by
  refine ⟨fun h => ?_, fun h => by rw [h]⟩
  rw [← parse_render_parse raw, h, parse_render_parse]

/-- Two fields have the same keywords if they have the same tokens in folder form. -/
theorem parse_eq_iff {raw raw' : Text} : parse raw = parse raw' ↔
    resolveFolder '' {w | w ∈ keywordTokens raw} = resolveFolder '' {w | w ∈ keywordTokens raw'} := by
  have himage : ∀ raw z, z ∈ (parse raw).toList ↔ z ∈ resolveFolder '' {w | w ∈ keywordTokens raw} := by
    intro raw z
    rw [mem_parse]
    exact exists_congr fun w => and_congr_right fun _ => eq_comm
  constructor
  · intro h
    ext z
    rw [← himage, ← himage, h]
  · intro h
    refine ext_of_mem fun z => ?_
    rw [himage, himage, h]

/-- The keywords of a field are a set that is written in one way.  What is written for them reads
back as the same set and is written again as it is, and they stand in strictly increasing order.
Two fields are written alike if and only if they have the same tokens in folder form, where the
tokens are the runs of characters that stand between commas and blanks. -/
theorem written_in_one_way (raw : Text) :
    parse (parse raw).render = parse raw ∧
      (parse raw).toList.Pairwise (· < ·) ∧
      (parse (parse raw).render).render = (parse raw).render ∧
      (∀ w, w ∈ keywordTokens raw ↔ Text.StandsIn isTokenBreak w raw) ∧
      ∀ raw', (parse raw).render = (parse raw').render ↔
        resolveFolder '' {w | w ∈ keywordTokens raw} =
          resolveFolder '' {w | w ∈ keywordTokens raw'} := by
  refine ⟨parse_render_parse raw, (parse raw).names.increasing, ?_, fun w => Text.mem_words_iff,
    fun raw' => render_parse_inj.trans parse_eq_iff⟩
  rw [parse_render_parse]

/-- Blanks, order, repetitions and the two spellings of a system label do not count. -/
example : (parse "b,a  \\Trash ,\tb").render = (parse "gmail.Trash\n a b").render := by decide

end Keywords

end Mailroom
