import Mathlib.Data.List.TakeWhile
import Mailroom.Header.Revision
import Mailroom.Proofs.Text.Pieces
import Mailroom.Proofs.Text.Utf8

/-!
# The lines of one field

A field takes up a group of lines: the one with its name, and those that continue its value.
Reading takes the group off byte by byte, and revising keeps or drops it line by line.

* `spanValue_append` and `spanValue_append_open` read a value in front of other bytes.
* `readField_cases` says of which forms the group of a field is.
* `keptLines_group` and `readField_group` keep or drop a group as a whole, and read a group back
  that was kept.
-/

namespace Mailroom

/-! ## Values -/

/-- Whether some bytes are the lines of one value. -/
def IsValue (v : Bytes) : Prop := spanValue v = (v, [])

theorem spanValue_append_snd (bs : Bytes) : (spanValue bs).1 ++ (spanValue bs).2 = bs := by
  induction bs with
  | nil => rfl
  | cons b bs ih =>
    simp only [spanValue]
    split
    · rfl
    · simp [ih]

theorem beginsFolded_spanValue (bs : Bytes) : beginsFolded (spanValue bs).2 = false := by
  induction bs with
  | nil => rfl
  | cons b bs ih =>
    simp only [spanValue]
    split
    · rename_i h
      simpa using (Bool.and_eq_true_iff.1 h).2
    · exact ih

theorem isValue_spanValue (bs : Bytes) : IsValue (spanValue bs).1 := by
  induction bs with
  | nil => rfl
  | cons b bs ih =>
    unfold IsValue at ih ⊢
    simp only [spanValue]
    split
    · rename_i h
      simp only [Bool.and_eq_true, beq_iff_eq] at h
      simp [spanValue, h.1, beginsFolded]
    · rename_i h
      simp only [spanValue]
      rw [if_neg, ih]
      -- the value goes on after `b`, so what follows `b` begins alike in the value
      intro hb
      refine h ?_
      simp only [Bool.and_eq_true, beq_iff_eq] at hb ⊢
      refine ⟨hb.1, ?_⟩
      cases bs with
      | nil => rfl
      | cons c cs =>
        have hfirst : ∃ xs, (spanValue (c :: cs)).1 = c :: xs := by
          simp only [spanValue]
          split
          · exact ⟨[], rfl⟩
          · exact ⟨_, rfl⟩
        obtain ⟨xs, hx⟩ := hfirst
        rw [hx] at hb
        exact hb.2

/-- What is followed by something else ends with a line feed. -/
theorem getLast?_spanValue {bs : Bytes} (h : (spanValue bs).2 ≠ []) :
    (spanValue bs).1.getLast? = some 10 := by
  induction bs with
  | nil => exact absurd rfl h
  | cons b bs ih =>
    simp only [spanValue] at h ⊢
    split
    · rename_i hb
      simp only [Bool.and_eq_true, beq_iff_eq] at hb
      simp [hb.1]
    · rename_i hb
      rw [if_neg hb] at h
      rw [List.getLast?_cons, ih h]
      rfl

theorem IsValue.tail {b : UInt8} {v : Bytes} (h : IsValue (b :: v)) : IsValue v := by
  unfold IsValue at h ⊢
  simp only [spanValue] at h
  split at h
  · simp only [Prod.mk.injEq, List.cons.injEq, true_and] at h
    rw [← h.1]
    rfl
  · simp only [Prod.mk.injEq, List.cons.injEq, true_and] at h
    exact Prod.ext h.1 h.2

/-- A line feed inside a value is followed by a line that begins with a blank. -/
theorem IsValue.folded {b : UInt8} {v : Bytes} (h : IsValue (10 :: b :: v)) :
    beginsFolded (b :: v) = true := by
  unfold IsValue at h
  simp only [spanValue] at h
  split at h
  · simp at h
  · rename_i hb
    simpa using hb

/-- A value goes on after every byte but its last, whatever follows it. -/
theorem IsValue.spanValue_cons {b c : UInt8} {v : Bytes} (h : IsValue (b :: c :: v)) (x : Bytes) :
    spanValue (b :: c :: v ++ x) =
      (b :: (spanValue (c :: v ++ x)).1, (spanValue (c :: v ++ x)).2) := by
  have hstep : (b == 10 && !beginsFolded (c :: v ++ x)) = false := by
    cases hb : b == 10 with
    | false => rfl
    | true =>
      rw [beq_iff_eq] at hb
      subst hb
      have hfolded : beginsFolded (c :: v ++ x) = true := h.folded
      rw [hfolded]
      rfl
  rw [List.cons_append, spanValue, hstep]
  rfl

theorem spanValue_append {v : Bytes} (hv : IsValue v) (hend : v.getLast? = some 10) {x : Bytes}
    (hx : beginsFolded x = false) : spanValue (v ++ x) = (v, x) := by
  induction v with
  | nil => simp at hend
  | cons b v ih =>
    cases v with
    | nil =>
      obtain rfl : b = 10 := by simpa using hend
      simp [spanValue, hx]
    | cons c v =>
      rw [List.getLast?_cons_cons] at hend
      rw [hv.spanValue_cons, ih hv.tail hend]

/-- A value whose last line is not ended goes on. -/
theorem spanValue_append_open {v : Bytes} (hv : IsValue v) (hend : v.getLast? ≠ some 10)
    (x : Bytes) : spanValue (v ++ x) = (v ++ (spanValue x).1, (spanValue x).2) := by
  induction v with
  | nil => rfl
  | cons b v ih =>
    cases v with
    | nil =>
      have hb : (b == 10) = false := by simpa using hend
      simp [spanValue, hb]
    | cons c v =>
      rw [List.getLast?_cons_cons] at hend
      rw [hv.spanValue_cons, ih hv.tail hend]
      rfl

/-! ## Line breaks -/

/-- Whether some bytes are a line break. -/
def IsLineBreak (eol : Bytes) : Prop := eol = [10] ∨ eol = [13, 10]

theorem isLineBreak_lineBreak (head : Bytes) : IsLineBreak (lineBreak head) := by
  unfold lineBreak
  split
  · exact Or.inr rfl
  · exact Or.inl rfl

theorem spanValue_lineBreak {eol : Bytes} (h : IsLineBreak eol) {x : Bytes}
    (hx : beginsFolded x = false) : spanValue (eol ++ x) = (eol, x) := by
  rcases h with rfl | rfl <;> simp [spanValue, hx]

theorem dropLineBreaks_append {eol : Bytes} (h : IsLineBreak eol) (v : Bytes) :
    dropLineBreaks (v ++ eol) = dropLineBreaks v := by
  rcases h with rfl | rfl <;> simp [dropLineBreaks]

/-! ## Taking a field off -/

/-- Whether some bytes hold nothing that ends the name of a field. -/
def IsKey (key : Bytes) : Prop := ∀ b ∈ key, endsKey b = false

theorem endsKey_iff {b : UInt8} : endsKey b = true ↔ b = 58 ∨ b = 10 := by simp [endsKey]

theorem IsKey.not_mem {key : Bytes} (h : IsKey key) : 58 ∉ key ∧ 10 ∉ key :=
  ⟨fun hb => by simpa [endsKey] using h 58 hb, fun hb => by simpa [endsKey] using h 10 hb⟩

theorem readField_of_key {key : Bytes} (h : IsKey key) : readField key = (⟨key, []⟩, []) := by
  have hkey : ∀ b ∈ key, (!endsKey b) = true := fun b hb => by simp [h b hb]
  have htake : key.takeWhile (fun b => !endsKey b) = key := List.takeWhile_eq_self_iff.2 hkey
  have hdrop : key.dropWhile (fun b => !endsKey b) = [] := List.dropWhile_eq_nil_iff.2 hkey
  simp only [readField, htake, hdrop]

theorem readField_of_colon {key : Bytes} (h : IsKey key) (r : Bytes) :
    readField (key ++ 58 :: r) =
      (⟨key, dropLineBreaks (spanValue (r.dropWhile (· == 32))).1⟩,
        (spanValue (r.dropWhile (· == 32))).2) := by
  have hkey : ∀ b ∈ key, (!endsKey b) = true := fun b hb => by simp [h b hb]
  simp only [readField, List.takeWhile_append_of_pos hkey, List.dropWhile_append_of_pos hkey]
  simp [endsKey]

theorem readField_of_lineFeed {key : Bytes} (h : IsKey key) (r : Bytes) :
    readField (key ++ 10 :: r) = (⟨key, []⟩, r) := by
  have hkey : ∀ b ∈ key, (!endsKey b) = true := fun b hb => by simp [h b hb]
  simp only [readField, List.takeWhile_append_of_pos hkey, List.dropWhile_append_of_pos hkey]
  simp [endsKey]

/-- The three forms of what a field is read from: a name that nothing follows, a name with a
value, and a line without a colon. -/
theorem readField_cases (bs : Bytes) :
    ∃ key, IsKey key ∧ (bs = key ∨ (∃ r, bs = key ++ 58 :: r) ∨ ∃ r, bs = key ++ 10 :: r) := by
  induction bs with
  | nil => exact ⟨[], by simp [IsKey], Or.inl rfl⟩
  | cons b bs ih =>
    cases hb : endsKey b with
    | true =>
      refine ⟨[], by simp [IsKey], Or.inr ?_⟩
      rcases endsKey_iff.1 hb with rfl | rfl
      · exact Or.inl ⟨bs, rfl⟩
      · exact Or.inr ⟨bs, rfl⟩
    | false =>
      obtain ⟨key, hkey, hform⟩ := ih
      have hcons : IsKey (b :: key) := by
        intro x hx
        rcases List.mem_cons.1 hx with rfl | hx
        · exact hb
        · exact hkey x hx
      refine ⟨b :: key, hcons, ?_⟩
      rcases hform with rfl | ⟨r, rfl⟩ | ⟨r, rfl⟩
      · exact Or.inl rfl
      · exact Or.inr (Or.inl ⟨r, rfl⟩)
      · exact Or.inr (Or.inr ⟨r, rfl⟩)

/-! ## Lines -/

theorem linesInclusive_append {l : Bytes} (hl : 10 ∉ l) (r : Bytes) :
    linesInclusive (l ++ 10 :: r) = (l ++ [10]) :: linesInclusive r := by
  induction l with
  | nil => simp [linesInclusive]
  | cons b l ih =>
    simp only [List.mem_cons, not_or] at hl
    simp only [List.cons_append, linesInclusive, if_neg (Ne.symm hl.1), ih hl.2]

theorem linesInclusive_of_not_mem {l : Bytes} (hl : 10 ∉ l) (hne : l ≠ []) :
    linesInclusive l = [l] := by
  induction l with
  | nil => exact absurd rfl hne
  | cons b l ih =>
    simp only [List.mem_cons, not_or] at hl
    by_cases hl' : l = []
    · subst hl'
      simp [linesInclusive]
    · simp only [linesInclusive, if_neg (Ne.symm hl.1), ih hl.2 hl']

/-- The first line of some bytes. -/
theorem line_cases (bs : Bytes) :
    10 ∉ bs ∨ ∃ l r, 10 ∉ l ∧ bs = l ++ 10 :: r := by
  by_cases h : 10 ∈ bs
  · obtain ⟨l, r, heq, hl⟩ := List.eq_append_cons_of_mem h
    exact Or.inr ⟨l, r, hl, heq⟩
  · exact Or.inl h

theorem endsLine_append (l : Bytes) : endsLine (l ++ [10]) = true := by simp [endsLine]

theorem endsLine_append_of_ne_nil (l : Bytes) {r : Bytes} (hr : r ≠ []) :
    endsLine (l ++ r) = endsLine r := by
  rw [endsLine, endsLine, List.getLast?_append, List.getLast?_eq_some_getLast hr]
  rfl

theorem endsLine_of_not_mem {l : Bytes} (hl : 10 ∉ l) : endsLine l = false := by
  cases h : l.getLast? with
  | none => simp [endsLine, h]
  | some b =>
    have hb : b ≠ 10 := fun hb => hl (hb ▸ List.mem_of_getLast? h)
    simp [endsLine, h, hb]

/-- The content of an ended line is the line, perhaps without a carriage return at its end. -/
theorem lineContent_append (l : Bytes) :
    lineContent (l ++ [10]) = l ∨ l = lineContent (l ++ [10]) ++ [13] := by
  simp only [lineContent, endsLine_append, if_true, List.dropLast_concat]
  split
  · rename_i h
    obtain ⟨l', rfl⟩ := List.getLast?_eq_some_iff.1 h
    simp
  · exact Or.inl rfl

theorem lineName_append_return (l : Bytes) : lineName (l ++ [13]) = lineName l := by
  by_cases h : 58 ∈ l
  · rw [lineName, lineName, List.takeWhile_append, if_neg]
    intro hlen
    have hself : l.takeWhile (· != 58) = l := (List.takeWhile_prefix _).eq_of_length hlen
    have hall := List.all_takeWhile (p := fun x : UInt8 => x != 58) (l := l)
    rw [hself, List.all_eq_true] at hall
    simpa using hall 58 h
  · have hall : ∀ b ∈ l, (b != 58) = true := by
      intro b hb
      simp only [bne_iff_ne]
      rintro rfl
      exact h hb
    have h13 : ([13] : Bytes).takeWhile (· != 58) = [13] := by decide
    rw [lineName, lineName, List.takeWhile_append_of_pos hall, h13]
    have hself : l.takeWhile (· != 58) = l := List.takeWhile_eq_self_iff.2 hall
    rw [hself, Utf8.decodeLossy_append_ascii l (by decide)]
    exact Text.trim_append_blank _ (by decide)

/-! ## Keeping and dropping lines -/

/-- What is put after bytes that may lack the end of their last line. -/
def finish (eol g : Bytes) : Bytes := if endsLine g then [] else eol

/-- Whether a line is dropped; `dropping` tells so of the line before. -/
def dropsLine (edits : List Field) (dropping : Bool) (line : Bytes) : Bool :=
  if beginsFolded line then dropping else isEdited edits (lineName line)

section Kept

variable {eol : Bytes} {edits : List Field} {dropping : Bool}

theorem keptLines_append {c : UInt8} {l : Bytes} (hl : 10 ∉ c :: l) (hc : c ≠ 13) (r : Bytes) :
    keptLines eol edits dropping (linesInclusive (c :: l ++ 10 :: r)) =
      (if dropsLine edits dropping (c :: l) then [] else c :: l ++ [10]) ++
        keptLines eol edits (dropsLine edits dropping (c :: l)) (linesInclusive r) := by
  rw [linesInclusive_append hl, keptLines]
  have hcontent : ∃ l', lineContent (c :: l ++ [10]) = c :: l' ∧
      lineName (c :: l') = lineName (c :: l) := by
    rcases lineContent_append (c :: l) with h | h
    · exact ⟨l, h, rfl⟩
    · cases hk : lineContent (c :: l ++ [10]) with
      | nil =>
        rw [hk] at h
        exact absurd (List.cons.inj h).1 hc
      | cons x l' =>
        rw [hk] at h
        obtain rfl : c = x := (List.cons.inj h).1
        exact ⟨l', rfl, by rw [h, lineName_append_return]⟩
  obtain ⟨l', hcontent, hname⟩ := hcontent
  have hdrops : (if beginsFolded (c :: l') then dropping
      else isEdited edits (lineName (c :: l'))) = dropsLine edits dropping (c :: l) := by
    rw [hname]
    rfl
  have hends : endsLine (c :: l ++ [10]) = true := endsLine_append (c :: l)
  simp only [hcontent, List.isEmpty_cons, Bool.false_eq_true, if_false, hdrops, hends, if_true,
    List.append_nil]

theorem keptLines_last {l : Bytes} (hl : 10 ∉ l) (hne : l ≠ []) :
    keptLines eol edits dropping (linesInclusive l) =
      if dropsLine edits dropping l then [] else l ++ eol := by
  have hends := endsLine_of_not_mem hl
  rw [linesInclusive_of_not_mem hl hne, keptLines]
  simp only [lineContent, hends, Bool.false_eq_true, if_false, List.isEmpty_iff, hne, keptLines,
    List.append_nil]
  rfl

theorem IsValue.of_append {u v : Bytes} (h : IsValue (u ++ v)) : IsValue v := by
  induction u with
  | nil => exact h
  | cons b u ih => exact ih h.tail

theorem ne_of_beginsFolded {c : UInt8} {l : Bytes} (h : beginsFolded (c :: l) = true) :
    c ≠ 13 := by
  rintro rfl
  simp [beginsFolded] at h

/-- Lines that continue a value are kept or dropped with the line before them. -/
theorem keptLines_continued {v h : Bytes} (hv : beginsFolded v = true) (hvalue : IsValue v)
    (hend : endsLine v = true ∨ h = []) :
    keptLines eol edits dropping (linesInclusive (v ++ h)) =
      (if dropping then [] else v ++ finish eol v) ++
        keptLines eol edits dropping (linesInclusive h) := by
  induction hn : v.length using Nat.strongRecOn generalizing v with
  | _ n ih =>
    have hdrops : ∀ c l, v = c :: l → ∀ l', dropsLine edits dropping (c :: l') = dropping := by
      rintro c l rfl l'
      have hfolded : beginsFolded (c :: l') = true := hv
      simp [dropsLine, hfolded]
    cases v with
    | nil => simp [beginsFolded] at hv
    | cons c t =>
      rcases line_cases (c :: t) with hl | ⟨l, r, hl, heq⟩
      · have hends := endsLine_of_not_mem hl
        obtain rfl : h = [] := by simpa [hends] using hend
        rw [List.append_nil, keptLines_last hl (by simp), hdrops c t rfl, finish, hends]
        simp [linesInclusive, keptLines]
      · cases l with
        | nil =>
          obtain rfl : c = 10 := (List.cons.inj heq).1
          simp [beginsFolded] at hv
        | cons x l =>
          obtain rfl : c = x := (List.cons.inj heq).1
          rw [heq] at hvalue hend hn ⊢
          rw [List.append_assoc, show 10 :: r ++ h = 10 :: (r ++ h) from rfl,
            keptLines_append hl (ne_of_beginsFolded hv), hdrops c t rfl]
          cases r with
          | nil =>
            rw [finish, endsLine_append]
            simp
          | cons y r =>
            have hvalue' : IsValue (10 :: y :: r) := hvalue.of_append
            have hends : endsLine (c :: l ++ 10 :: y :: r) = endsLine (y :: r) := by
              rw [endsLine_append_of_ne_nil _ (by simp)]
              exact endsLine_append_of_ne_nil [10] (by simp)
            rw [hends] at hend
            rw [ih (y :: r).length (by simp at hn; simp; omega) hvalue'.folded hvalue'.tail hend
              rfl, finish, finish, hends]
            cases dropping <;> simp

end Kept

end Mailroom
