import Mailroom.Proofs.Header.Names
import Mailroom.Proofs.Header.Rewriting

/-!
# Reading a revised header block

A header block that was revised reads back as what was kept of it, followed by the new fields, and
the body stays what it was.  A new field whose name holds a colon is found by what stands before
it, and one whose name begins with a blank is none at all.

* `Field.IsLine` says that a field is written on a line that is read as a field, and `Field.asRead`
  is what is read there.
* `readFields_revise_lines` is the result for a whole message, and `readFields_revise` for names
  without colons and blanks, which are read as they are.
-/

namespace Mailroom

/-! ## Fields on one line -/

/-- A field that can be written on one line; its name may be empty. -/
structure Field.IsOneLine (e : Field) : Prop where
  /-- The name holds no colon and no blank. -/
  name : ∀ c ∈ e.name, c ≠ ':' ∧ isBlank c = false
  /-- The value holds no line feed. -/
  value : '\n' ∉ e.value

/-- A field with a name that can be written on one line. -/
structure Field.IsPlain (e : Field) : Prop where
  /-- The field has a name. -/
  name_ne : e.name ≠ []
  /-- The name holds no colon and no blank. -/
  name : ∀ c ∈ e.name, c ≠ ':' ∧ isBlank c = false
  /-- The value holds no line feed. -/
  value : '\n' ∉ e.value

theorem Field.IsPlain.isOneLine {e : Field} (h : e.IsPlain) : e.IsOneLine := ⟨h.name, h.value⟩

/-- A field that is written on a line which continues no other one and does not end the header
block. -/
structure Field.IsLine (e : Field) : Prop where
  /-- The name begins neither with a blank or a tab nor with a carriage return. -/
  first : ∀ c ∈ e.name.head?, c ≠ ' ' ∧ c ≠ '\t' ∧ c ≠ '\r'
  /-- The name holds no line feed. -/
  name : '\n' ∉ e.name
  /-- Neither does the value. -/
  value : '\n' ∉ e.value

theorem Field.isLine_iff {e : Field} : e.IsLine ↔
    e.name.head?.all (fun c => c != ' ' && c != '\t' && c != '\r') = true ∧
      '\n' ∉ e.name ∧ '\n' ∉ e.value := by
  have hfirst : e.name.head?.all (fun c => c != ' ' && c != '\t' && c != '\r') = true ↔
      ∀ c ∈ e.name.head?, c ≠ ' ' ∧ c ≠ '\t' ∧ c ≠ '\r' := by
    simp [Option.all_eq_true, and_assoc]
  rw [hfirst]
  exact ⟨fun h => ⟨h.first, h.name, h.value⟩, fun h => ⟨h.1, h.2.1, h.2.2⟩⟩

-- the first character is looked at, not all characters there are
instance (e : Field) : Decidable e.IsLine := decidable_of_iff _ Field.isLine_iff.symm

theorem Field.IsOneLine.isLine {e : Field} (h : e.IsOneLine) : e.IsLine := by
  refine ⟨fun c hc => ?_, fun hmem => ?_, h.value⟩
  · have hblank := (h.name c (List.mem_of_head? hc)).2
    refine ⟨?_, ?_, ?_⟩ <;>
      · rintro rfl
        exact absurd hblank (by decide)
  · exact absurd (h.name _ hmem).2 (by decide)

/-- How a written field reads. -/
def Field.written (e : Field) : RawField :=
  ⟨Utf8.encode e.name, dropLineBreaks ((Utf8.encode e.value).dropWhile (· == 32))⟩

/-- The name that a field is found by when it was written: the first colon ends it. -/
def Field.foundName (e : Field) : Text := e.name.takeWhile (· != ':')

/-- What stands behind the first colon of the line that a field is written on. -/
def Field.rest (e : Field) : Bytes :=
  match e.name.dropWhile (· != ':') with
  | [] => 32 :: Utf8.encode e.value
  | _ :: t => Utf8.encode t ++ 58 :: 32 :: Utf8.encode e.value

/-- How the line of a field reads, whatever its name is like. -/
def Field.asRead (e : Field) : RawField :=
  ⟨Utf8.encode e.foundName, dropLineBreaks (e.rest.dropWhile (· == 32))⟩

namespace Field

variable {e : Field}

theorem writtenField_eq (eol : Bytes) (e : Field) :
    writtenField eol e = Utf8.encode e.foundName ++ 58 :: (e.rest ++ eol) := by
  have hname : e.name = e.foundName ++ e.name.dropWhile (· != ':') :=
    List.takeWhile_append_dropWhile.symm
  rw [writtenField, rest]
  cases hdrop : e.name.dropWhile (· != ':') with
  | nil =>
    rw [hdrop, List.append_nil] at hname
    rw [← hname]
    simp
  | cons c t =>
    have hcolon : c = ':' := by
      have hnot := List.head?_dropWhile_not (· != ':') e.name
      rw [hdrop] at hnot
      simpa using hnot
    rw [hdrop, hcolon] at hname
    rw [hname, Utf8.encode_append, Utf8.encode_cons]
    have hencode : String.utf8EncodeChar ':' = [58] := by decide
    simp [hencode]

theorem foundName_of_not_mem (h : ':' ∉ e.name) : e.foundName = e.name := by
  refine List.takeWhile_eq_self_iff.2 fun c hc => ?_
  rw [bne_iff_ne]
  rintro rfl
  exact h hc

theorem asRead_of_not_mem (h : ':' ∉ e.name) : e.asRead = e.written := by
  have hdrop : e.name.dropWhile (· != ':') = [] := by
    refine List.dropWhile_eq_nil_iff.2 fun c hc => ?_
    rw [bne_iff_ne]
    rintro rfl
    exact h hc
  rw [asRead, written, foundName_of_not_mem h, rest, hdrop]
  rfl

theorem IsOneLine.asRead (h : e.IsOneLine) : e.asRead = e.written :=
  asRead_of_not_mem fun hmem => (h.name _ hmem).1 rfl

end Field

theorem not_mem_encode {t : Text} {b : UInt8} (hb : b.toNat < 0x80)
    (h : Char.ofNat b.toNat ∉ t) : b ∉ Utf8.encode t :=
  fun hmem => h (Utf8.mem_encode_of_ascii hb hmem)

theorem isValue_of_not_mem {v : Bytes} (h : 10 ∉ v) : IsValue v := by
  induction v with
  | nil => rfl
  | cons b v ih =>
    simp only [List.mem_cons, not_or] at h
    have hb : (b == 10) = false := by simpa using Ne.symm h.1
    have := ih h.2
    unfold IsValue at this ⊢
    simp [spanValue, hb, this]

/-! ## The new fields -/

namespace Field.IsLine

variable {e : Field} (he : e.IsLine)

include he

theorem isKey_foundName : IsKey (Utf8.encode e.foundName) := by
  intro b hb
  cases hends : endsKey b with
  | false => rfl
  | true =>
    rcases endsKey_iff.1 hends with rfl | rfl
    · refine absurd hb (not_mem_encode (by decide) fun hmem => ?_)
      exact absurd (List.mem_takeWhile_imp hmem) (by decide)
    · refine absurd hb (not_mem_encode (by decide) fun hmem => ?_)
      exact he.name ((List.takeWhile_prefix _).subset hmem)

theorem lineFeed_not_mem_rest : 10 ∉ e.rest := by
  have hvalue : 10 ∉ Utf8.encode e.value := not_mem_encode (by decide) he.value
  rw [Field.rest]
  cases hdrop : e.name.dropWhile (· != ':') with
  | nil => simpa using hvalue
  | cons c t =>
    have ht : 10 ∉ Utf8.encode t := by
      refine not_mem_encode (by decide) fun hmem => ?_
      refine he.name ((List.dropWhile_suffix (· != ':')).subset ?_)
      rw [hdrop]
      exact List.mem_cons_of_mem _ hmem
    simp [ht, hvalue]

/-- A written field begins with a byte of its name, or with the colon. -/
theorem head (t : Bytes) : ∃ c l, Utf8.encode e.foundName ++ 58 :: t = c :: l ∧
    c ≠ 10 ∧ c ≠ 13 ∧ c ≠ 32 ∧ c ≠ 9 := by
  cases hname : e.foundName with
  | nil => exact ⟨58, t, rfl, by decide, by decide, by decide, by decide⟩
  | cons c n =>
    have hhead : e.name.head? = some c := by
      have hsplit : e.name = e.foundName ++ e.name.dropWhile (· != ':') :=
        List.takeWhile_append_dropWhile.symm
      rw [hsplit, hname]
      rfl
    have hc := he.first c hhead
    have hfeed : c ≠ '\n' := by
      rintro rfl
      exact he.name (List.mem_of_head? hhead)
    cases hbytes : String.utf8EncodeChar c with
    | nil => exact absurd hbytes String.utf8EncodeChar_ne_nil
    | cons b bs =>
      -- a byte of ASCII stands for the character itself
      have key : ∀ x : UInt8, x.toNat < 0x80 → c ≠ Char.ofNat x.toNat → b ≠ x := by
        rintro x hx hne rfl
        have hmem : b ∈ Utf8.encode [c] := by simp [Utf8.encode, hbytes]
        exact hne (List.mem_singleton.1 (Utf8.mem_encode_of_ascii hx hmem)).symm
      refine ⟨b, bs ++ Utf8.encode n ++ 58 :: t, ?_, key 10 (by decide) hfeed,
        key 13 (by decide) hc.2.2, key 32 (by decide) hc.1, key 9 (by decide) hc.2.1⟩
      rw [Utf8.encode_cons, hbytes]
      simp

theorem readField_writtenField {eol x : Bytes} (heol : IsLineBreak eol)
    (hx : beginsFolded x = false) : readField (writtenField eol e ++ x) = (e.asRead, x) := by
  have hkey := he.isKey_foundName
  have hsplit : e.rest = e.rest.takeWhile (· == 32) ++ e.rest.dropWhile (· == 32) :=
    List.takeWhile_append_dropWhile.symm
  have hv10 : 10 ∉ e.rest.dropWhile (· == 32) :=
    fun h => he.lineFeed_not_mem_rest ((List.dropWhile_suffix _).subset h)
  -- the line lacks its end, which is added to it
  have hfinish : finish eol (Utf8.encode e.foundName ++ 58 :: (e.rest.takeWhile (· == 32) ++
      e.rest.dropWhile (· == 32))) = eol := by
    rw [finish, endsLine_colon hkey (blank_of_mem_takeWhile _), endsLine_of_not_mem hv10]
    rfl
  have hread := readField_colon_append hkey (blank_of_mem_takeWhile e.rest)
    (isValue_of_not_mem hv10) (head?_dropWhile_blank e.rest) heol hx
  rw [hfinish, ← hsplit] at hread
  rw [Field.writtenField_eq, Field.asRead, ← hread]
  simp

end Field.IsLine

/-- New fields, the end of the header block and a body read as such. -/
theorem readFields_written {edits : List Field} (hedits : ∀ e ∈ edits, e.IsLine) {eol : Bytes}
    (heol : IsLineBreak eol) (body : Bytes) :
    readFields (edits.flatMap (writtenField eol) ++ (eol ++ body)) =
        .ok (edits.map Field.asRead, body) ∧
      beginsFolded (edits.flatMap (writtenField eol) ++ (eol ++ body)) = false := by
  induction edits with
  | nil =>
    rcases heol with rfl | rfl
    · exact ⟨readFields_lineFeed body, rfl⟩
    · exact ⟨readFields_return (10 :: body), rfl⟩
  | cons e edits ih =>
    obtain ⟨hread, hfolded⟩ := ih fun e he => hedits e (by simp [he])
    have he := hedits e (by simp)
    obtain ⟨c, l', hl', h10, h13, h32, h9⟩ := he.head
      (e.rest ++ (eol ++ (edits.flatMap (writtenField eol) ++ (eol ++ body))))
    replace hl' : writtenField eol e ++ (edits.flatMap (writtenField eol) ++ (eol ++ body)) =
        c :: l' := by
      rw [← hl', Field.writtenField_eq]
      simp
    rw [List.flatMap_cons, List.append_assoc]
    refine ⟨?_, ?_⟩
    · rw [hl', readFields_cons h10 h13 h32, ← hl', he.readField_writtenField heol hfolded, hread]
      rfl
    · rw [hl']
      simp [beginsFolded, h32, h9]

/-! ## The whole message -/

section Revise

variable {raw body : Bytes} {fields : List RawField} {edits : List Field}

/-- A message that was revised reads as its kept fields and the lines of the new ones, and its body
is the same. -/
theorem readFields_revise_lines (h : readFields raw = .ok (fields, body))
    (hedits : ∀ e ∈ edits, e.IsLine) :
    ∃ kept, Settles (lineBreak (raw.take (raw.length - body.length))) raw body
        (keptFields edits false fields) kept ∧
      readFields (revise raw (raw.length - body.length) edits) =
        .ok (kept ++ (edits.filter (fun e => !e.value.isEmpty)).map Field.asRead, body) := by
  have hplain : ∀ e ∈ edits.filter (fun e => !e.value.isEmpty), e.IsLine :=
    fun e he => hedits e (List.mem_filter.1 he).1
  obtain ⟨head, -, hraw, -, -, -⟩ :=
    readFields_keptLines edits (isLineBreak_lineBreak []) (readFields_lineFeed []) rfl false h
  have htake : raw.take (raw.length - body.length) = head := by
    rw [hraw]
    simp
  have hdrop : raw.drop (raw.length - body.length) = body := by
    rw [hraw]
    simp
  have heol := isLineBreak_lineBreak head
  obtain ⟨hread, hfolded⟩ := readFields_written hplain heol body
  obtain ⟨head', kept, hraw', hkept, hall, -⟩ :=
    readFields_keptLines edits heol hread hfolded false h
  obtain rfl : head = head' := List.append_cancel_right (hraw.symm.trans hraw')
  refine ⟨kept, htake.symm ▸ hkept, ?_⟩
  rw [revise]
  simp only [htake, hdrop]
  rw [List.append_assoc, List.append_assoc]
  exact hall

/-- Names without colons and blanks are read as they are. -/
theorem readFields_revise (h : readFields raw = .ok (fields, body))
    (hedits : ∀ e ∈ edits, e.IsOneLine) :
    ∃ kept, Settles (lineBreak (raw.take (raw.length - body.length))) raw body
        (keptFields edits false fields) kept ∧
      readFields (revise raw (raw.length - body.length) edits) =
        .ok (kept ++ (edits.filter (fun e => !e.value.isEmpty)).map Field.written, body) := by
  obtain ⟨kept, hkept, hrevised⟩ := readFields_revise_lines h fun e he => (hedits e he).isLine
  have hsame : (edits.filter (fun e => !e.value.isEmpty)).map Field.asRead =
      (edits.filter (fun e => !e.value.isEmpty)).map Field.written :=
    List.map_congr_left fun e he => (hedits e (List.mem_filter.1 he).1).asRead
  exact ⟨kept, hkept, hsame ▸ hrevised⟩

end Revise

end Mailroom
