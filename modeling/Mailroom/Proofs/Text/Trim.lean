import Mathlib.Data.List.TakeWhile
import Mailroom.Text.Blank

/-!
# Trimming

A text is trimmed if it has no blank at either end.  Trimming makes it so, and leaves it alone from
then on.

* `Text.isTrimmed_trim` and `Text.trim_eq_self` say so, and `Text.trim_trim` follows.
* `Text.trim_eq_nil_iff` says which texts nothing is left of.
-/

namespace Mailroom
namespace Text

/-- Whether a text has no blank at either end. -/
structure IsTrimmed (t : Text) : Prop where
  /-- It begins with no blank. -/
  first : ∀ c ∈ t.head?, isBlank c = false
  /-- It ends with no blank. -/
  last : ∀ c ∈ t.getLast?, isBlank c = false

/-! ## The end -/

theorem trimRight_prefix (t : Text) : trimRight t <+: t := by
  rw [← List.reverse_suffix, trimRight, dropEndWhile, List.reverse_reverse]
  exact List.dropWhile_suffix isBlank

/-- What is left ends in no blank. -/
theorem getLast?_trimRight (t : Text) : (trimRight t).getLast?.any isBlank = false := by
  rw [trimRight, dropEndWhile, List.getLast?_reverse]
  have hlast := List.head?_dropWhile_not isBlank t.reverse
  cases hhead : (t.reverse.dropWhile isBlank).head? with
  | none => rfl
  | some c => simpa [hhead] using hlast

/-- A text that does not end in a blank has none to be dropped at its end. -/
theorem trimRight_eq_self {t : Text} (h : t.getLast?.any isBlank = false) : trimRight t = t := by
  rw [trimRight, dropEndWhile, List.reverse_eq_iff]
  rw [← List.head?_reverse] at h
  cases hlast : t.reverse with
  | nil => rfl
  | cons c u =>
    have hc : isBlank c = false := by
      rw [hlast] at h
      exact h
    exact List.dropWhile_cons_of_neg (by simp [hc])

/-! ## Both ends -/

/-- The end of a text, where it has one, checked without running over every character there is. -/
theorem any_isBlank_eq_false {o : Option Char} :
    o.any isBlank = false ↔ ∀ c ∈ o, isBlank c = false := by
  cases o with
  | none => simp
  | some c => simp

theorem isTrimmed_iff {t : Text} :
    IsTrimmed t ↔ t.head?.any isBlank = false ∧ t.getLast?.any isBlank = false :=
  ⟨fun h => ⟨any_isBlank_eq_false.2 h.first, any_isBlank_eq_false.2 h.last⟩,
    fun h => ⟨any_isBlank_eq_false.1 h.1, any_isBlank_eq_false.1 h.2⟩⟩

instance (t : Text) : Decidable (IsTrimmed t) := decidable_of_iff _ isTrimmed_iff.symm

theorem isTrimmed_trim (t : Text) : IsTrimmed (trim t) := by
  refine isTrimmed_iff.2 ⟨?_, getLast?_trimRight _⟩
  -- what is cut off at the end leaves the beginning, if anything is left
  obtain ⟨u, hu⟩ := trimRight_prefix (trimLeft t)
  have hhead := List.head?_dropWhile_not isBlank t
  cases hleft : trim t with
  | nil => rfl
  | cons c v =>
    rw [trim] at hleft
    rw [hleft] at hu
    rw [trimLeft] at hu
    rw [← hu] at hhead
    simpa using hhead

theorem trim_eq_self {t : Text} (h : IsTrimmed t) : trim t = t := by
  have hleft : trimLeft t = t := by
    cases t with
    | nil => rfl
    | cons c t => exact List.dropWhile_cons_of_neg (by simp [h.first c rfl])
  rw [trim, hleft, trimRight_eq_self (any_isBlank_eq_false.2 h.last)]

@[simp] theorem trim_trim (t : Text) : trim (trim t) = trim t := trim_eq_self (isTrimmed_trim t)

theorem trim_eq_nil_iff {t : Text} : trim t = [] ↔ ∀ c ∈ t, isBlank c = true := by
  have hleft : trimLeft t = [] ↔ ∀ c ∈ t, isBlank c = true := List.dropWhile_eq_nil_iff
  rw [← hleft, trim]
  refine ⟨fun h => ?_, fun h => by rw [h]; rfl⟩
  -- if all that was left were blank, it would have been dropped from the front already
  have hall : ∀ c ∈ trimLeft t, isBlank c = true := by
    intro c hc
    rw [trimRight, dropEndWhile, List.reverse_eq_nil_iff, List.dropWhile_eq_nil_iff] at h
    exact h c (List.mem_reverse.2 hc)
  have hhead := List.head?_dropWhile_not isBlank t
  cases hfirst : trimLeft t with
  | nil => rfl
  | cons c u =>
    rw [hfirst] at hall
    rw [trimLeft] at hfirst
    simp [hfirst, hall c List.mem_cons_self] at hhead

end Text
end Mailroom
