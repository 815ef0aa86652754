import Mailroom.Proofs.Header.Written

/-!
# The fields that a name owns

Two readings of a header block meet when it is revised: the one that found its fields, byte by
byte, and the one that drops the lines of the fields that get new values, line by line.  They part
the block into the same groups of lines.  They need not give a group the same name: for the one
reading blanks around a name belong to it, and a line that begins with a tab is a field, if the
line before has no colon.

* `Parted` says which lines each field is read from, and `exists_parted` finds them.
* `keptLines_parts` drops and keeps these lines group by group.
* `isEdited_lineName` compares the names for fields without blanks around their names.
* `revise_parts` is the result.
-/

namespace Mailroom

/-! ## The lines of each field -/

/-- A field and the lines that it is read from. -/
structure FieldLines where
  /-- The field. -/
  field : RawField
  /-- The lines. -/
  bytes : Bytes
  deriving DecidableEq, Repr

/-- Whether a message consists of these fields, the end of its header block, and a body. -/
structure Parted (raw : Bytes) (parts : List FieldLines) (stop body : Bytes) : Prop where
  /-- The lines of the fields, the end of the header block and the body are the whole message. -/
  whole : raw = parts.flatMap FieldLines.bytes ++ stop ++ body
  /-- Each field is read from its lines, and from all of them. -/
  read : ∀ p ∈ parts, readField p.bytes = (p.field, [])
  /-- Nothing but an empty line ends the header block. -/
  stop : IsStop stop body

/-- The fields that are kept, with their lines; `dropping` tells whether the field before is
dropped. -/
def keptParts (edits : List Field) (dropping : Bool) : List FieldLines → List FieldLines
  | [] => []
  | p :: ps =>
    (if dropsField edits dropping p.field then [] else [p]) ++
      keptParts edits (dropsField edits dropping p.field) ps

/-- The lines of a field as they are kept; the last one of all may lack its end. -/
def FieldLines.kept (eol : Bytes) (p : FieldLines) : Bytes := p.bytes ++ finish eol p.bytes

theorem map_field_keptParts (edits : List Field) (dropping : Bool) (parts : List FieldLines) :
    (keptParts edits dropping parts).map FieldLines.field =
      keptFields edits dropping (parts.map FieldLines.field) := by
  induction parts generalizing dropping with
  | nil => rfl
  | cons p ps ih =>
    rw [keptParts, List.map_append, ih, List.map_cons, keptFields]
    split <;> rfl

/-- A group of lines reads as its field when nothing follows, too. -/
theorem readField_of_group {f : RawField} {g rest : Bytes} (hread : readField (g ++ rest) = (f, rest))
    (h : Group f g rest) : readField g = (f, []) := by
  by_cases hends : endsLine g = true
  · obtain ⟨f', hf', hsame⟩ := h.read [10] [] (Or.inl rfl) (Or.inl rfl)
    rw [finish, hends, if_pos rfl, List.append_nil, List.append_nil] at hf'
    rcases hsame with rfl | ⟨heol, -⟩
    · exact hf'
    · exact absurd heol (by decide)
  · obtain rfl : rest = [] := h.ended.resolve_left hends
    rwa [List.append_nil] at hread

/-- Every header block that can be read is parted into the lines of its fields, and these lines are
kept or dropped with their field. -/
theorem exists_parted {raw body : Bytes} {fields : List RawField}
    (h : readFields raw = .ok (fields, body)) :
    ∃ parts stop, Parted raw parts stop body ∧ parts.map FieldLines.field = fields ∧
      ∀ eol edits dropping,
        keptLines eol edits dropping (linesInclusive (parts.flatMap FieldLines.bytes ++ stop)) =
          (keptParts edits dropping parts).flatMap (FieldLines.kept eol) := by
  refine readFields_induct (motive := fun raw fields => ∃ parts stop,
    Parted raw parts stop body ∧ parts.map FieldLines.field = fields ∧ ∀ eol edits dropping,
      keptLines eol edits dropping (linesInclusive (parts.flatMap FieldLines.bytes ++ stop)) =
        (keptParts edits dropping parts).flatMap (FieldLines.kept eol)) ?_ ?_ h
  · intro stop hstop
    refine ⟨[], stop, ⟨by simp, by simp, hstop⟩, rfl, fun eol edits dropping => ?_⟩
    rcases hstop with ⟨rfl, -⟩ | rfl | rfl <;> rfl
  · intro f g rest fields hread hgroup _ ⟨parts, stop, hparted, hfields, hkept⟩
    refine ⟨⟨f, g⟩ :: parts, stop, ⟨?_, ?_, hparted.stop⟩, ?_, fun eol edits dropping => ?_⟩
    · rw [hparted.whole]
      simp
    · intro p hp
      rcases List.mem_cons.1 hp with rfl | hp
      · exact readField_of_group hread hgroup
      · exact hparted.read p hp
    · rw [List.map_cons, hfields]
    · have hend : endsLine g = true ∨ parts.flatMap FieldLines.bytes ++ stop = [] := by
        rcases hgroup.ended with hends | rfl
        · exact Or.inl hends
        · exact Or.inr (List.append_eq_nil_iff.1 hparted.whole.symm).1
      rw [List.flatMap_cons, List.append_assoc, hgroup.kept eol edits dropping _ hend, hkept,
        keptParts, List.flatMap_append]
      cases dropsField edits dropping f <;> simp [FieldLines.kept]

/-! ## Names in the two readings -/

/-- Whether the name of a field has no blanks around it. -/
def RawField.IsTrim (f : RawField) : Prop :=
  Text.trim (Utf8.decodeLossy f.key) = Utf8.decodeLossy f.key

instance (f : RawField) : Decidable f.IsTrim := inferInstanceAs (Decidable (_ = _))

theorem isEdited_iff {edits : List Field} {name : Text} :
    isEdited edits name = true ↔ ∃ e ∈ edits, Text.sameName name e.name = true := by
  simp only [isEdited, List.any_eq_true, sameName_iff, eq_comm (a := Text.asciiLower name)]

/-- A name without blanks around it begins a field of its own. -/
theorem RawField.IsTrim.beginsFolded {f : RawField} (h : f.IsTrim) : beginsFolded f.key = false := by
  rw [← Bool.not_eq_true]
  intro hfolded
  cases hkey : f.key with
  | nil => simp [hkey, Mailroom.beginsFolded] at hfolded
  | cons b key =>
    have hb : b = 32 ∨ b = 9 := by simpa [hkey, Mailroom.beginsFolded] using hfolded
    have hascii : b.toNat < 0x80 := by rcases hb with rfl | rfl <;> decide
    have hblank : isBlank (Char.ofNat b.toNat) = true := by rcases hb with rfl | rfl <;> decide
    rw [IsTrim, hkey, Utf8.decodeLossy_cons_ascii hascii, Text.trim_cons_blank _ hblank] at h
    have hlength := congrArg List.length h
    have hle := Text.length_trim_le (Utf8.decodeLossy key)
    simp only [List.length_cons] at hlength
    omega

section Owned

variable {edits : List Field} {f : RawField}

/-- A field whose name is edited is dropped. -/
theorem dropsField_of_isEdited (hkey : IsKey f.key) (hnames : ∀ e ∈ edits, IsTrimmedName e.name)
    (h : isEdited edits f.decode.name = true) (dropping : Bool) :
    dropsField edits dropping f = true := by
  obtain ⟨e, he, hsame⟩ := isEdited_iff.1 h
  obtain ⟨hname, hfolded⟩ := lineName_of_sameName hkey.not_mem.1 (hnames e he) hsame
  rw [dropsField, hfolded, hname]
  exact h

/-- Of the fields without blanks around their names, no others are dropped. -/
theorem dropsField_of_isTrim (hkey : IsKey f.key) (hnames : ∀ e ∈ edits, IsTrimmedName e.name)
    (htrim : f.IsTrim) (dropping : Bool) :
    dropsField edits dropping f = isEdited edits f.decode.name := by
  rw [Bool.eq_iff_iff]
  refine ⟨fun h => ?_, fun h => dropsField_of_isEdited hkey hnames h dropping⟩
  rw [dropsField, htrim.beginsFolded] at h
  obtain ⟨e, he, hsame⟩ := isEdited_iff.1 h
  have hself : f.key.takeWhile (· != 58) = f.key := by
    refine List.takeWhile_eq_self_iff.2 fun b hb => ?_
    simp only [bne_iff_ne]
    rintro rfl
    exact hkey.not_mem.1 hb
  have hname : lineName f.key = Utf8.decodeLossy f.key := by rw [lineName, hself, htrim]
  -- a name that is one of ASCII is read alike by both
  rw [hname] at hsame
  have hascii := Utf8.ascii_of_decodeLossy ((hnames e he).of_sameName hsame).ascii
  rw [Utf8.decodeLossy_of_ascii hascii] at hsame
  exact isEdited_iff.2 ⟨e, he, hsame⟩

end Owned

/-! ## Revising -/

section Revise

variable {edits : List Field} {parts : List FieldLines}

theorem not_isEdited_of_mem_keptParts (hkeys : ∀ p ∈ parts, IsKey p.field.key)
    (hnames : ∀ e ∈ edits, IsTrimmedName e.name) (dropping : Bool) :
    ∀ p ∈ keptParts edits dropping parts, isEdited edits p.field.decode.name = false := by
  induction parts generalizing dropping with
  | nil => simp [keptParts]
  | cons p ps ih =>
    intro q hq
    rw [keptParts, List.mem_append] at hq
    rcases hq with hq | hq
    · split at hq
      · simp at hq
      · rename_i hdrops
        obtain rfl := List.mem_singleton.1 hq
        rw [← Bool.not_eq_true]
        exact fun h => hdrops (dropsField_of_isEdited (hkeys _ (by simp)) hnames h dropping)
    · exact ih (fun p hp => hkeys p (by simp [hp])) _ q hq

theorem keptParts_of_isTrim (hkeys : ∀ p ∈ parts, IsKey p.field.key)
    (hnames : ∀ e ∈ edits, IsTrimmedName e.name) (htrim : ∀ p ∈ parts, p.field.IsTrim)
    (dropping : Bool) :
    keptParts edits dropping parts =
      parts.filter (fun p => !isEdited edits p.field.decode.name) := by
  induction parts generalizing dropping with
  | nil => rfl
  | cons p ps ih =>
    rw [keptParts, ih (fun p hp => hkeys p (by simp [hp])) (fun p hp => htrim p (by simp [hp])),
      dropsField_of_isTrim (hkeys p (by simp)) hnames (htrim p (by simp))]
    cases h : isEdited edits p.field.decode.name <;> simp [h]

/-- Where the body of a message begins. -/
theorem Parted.cut {raw stop body : Bytes} (h : Parted raw parts stop body) :
    raw.take (raw.length - body.length) = parts.flatMap FieldLines.bytes ++ stop ∧
      raw.drop (raw.length - body.length) = body := by
  have hlength : raw.length - body.length = (parts.flatMap FieldLines.bytes ++ stop).length := by
    rw [h.whole, List.length_append, Nat.add_sub_cancel]
  rw [hlength, h.whole]
  exact ⟨List.take_left, List.drop_left⟩

/-- Revising keeps the lines of the other fields, in order and byte by byte, and puts the new
fields after them; the message then reads as these fields.  Every field of a name that is edited
is dropped.  If no field has blanks around its name, no other field is. -/
theorem revise_parts {raw body : Bytes} {fields : List RawField}
    (h : readFields raw = .ok (fields, body)) (hedits : ∀ e ∈ edits, e.IsOneLine)
    (hascii : ∀ e ∈ edits, ∀ c ∈ e.name, c.toNat < 0x80) :
    ∃ parts stop, Parted raw parts stop body ∧ parts.map FieldLines.field = fields ∧
      (let eol := lineBreak (raw.take (raw.length - body.length))
       let new := edits.filter (fun e => !e.value.isEmpty)
       let revised := revise raw (raw.length - body.length) edits
       revised = (keptParts edits false parts).flatMap (FieldLines.kept eol) ++
          new.flatMap (writtenField eol) ++ eol ++ body ∧
        ∃ kept, Settles eol raw body ((keptParts edits false parts).map FieldLines.field) kept ∧
          readFields revised = .ok (kept ++ new.map Field.written, body)) ∧
      (∀ p ∈ keptParts edits false parts, isEdited edits p.field.decode.name = false) ∧
      ((∀ f ∈ fields, f.IsTrim) → keptParts edits false parts =
        parts.filter (fun p => !isEdited edits p.field.decode.name)) := by
  obtain ⟨parts, stop, hparted, rfl, hkept⟩ := exists_parted h
  have hkeys : ∀ p ∈ parts, IsKey p.field.key := fun p hp =>
    isKey_of_readFields h _ (List.mem_map_of_mem hp)
  have hnames : ∀ e ∈ edits, IsTrimmedName e.name := fun e he =>
    isTrimmedName_of_not_blank fun c hc => ⟨hascii e he c hc, ((hedits e he).name c hc).2⟩
  refine ⟨parts, stop, hparted, rfl, ⟨?_, ?_⟩,
    not_isEdited_of_mem_keptParts hkeys hnames false, fun htrim => ?_⟩
  · obtain ⟨hhead, hbody⟩ := hparted.cut
    simp only [revise, hhead, hbody, hkept]
  · rw [map_field_keptParts]
    exact readFields_revise h hedits
  · exact keptParts_of_isTrim hkeys hnames (fun p hp => htrim _ (List.mem_map_of_mem hp)) false

end Revise

/-! ### A blank before the colon -/

/-- A message with a blank between a name and its colon. -/
def strayLetter : Bytes := Utf8.encode "X-Note : keep\nSubject: s\n\nbody\n"

/-- What is read of it. -/
def strayFields : List RawField :=
  [⟨Utf8.encode "X-Note ", Utf8.encode "keep"⟩, ⟨Utf8.encode "Subject", Utf8.encode "s"⟩]

/-- The field is dropped for a name that is not its own: without the proviso more is lost than the
fields that were asked for. -/
theorem stray_revise_parts : ∃ parts stop, Parted strayLetter parts stop (Utf8.encode "body\n") ∧
    parts.map FieldLines.field = strayFields ∧
    (∀ p ∈ parts, isEdited [⟨"X-Note", "v"⟩] p.field.decode.name = false) ∧
    (keptParts [⟨"X-Note", "v"⟩] false parts).map FieldLines.field = strayFields.drop 1 ∧
    revise strayLetter 26 [⟨"X-Note", "v"⟩] =
      Utf8.encode "Subject: s\nX-Note: v\n\nbody\n" := by
  have hread : readFields strayLetter = .ok (strayFields, Utf8.encode "body\n") := by
    decide +kernel
  have hrevised : revise strayLetter 26 [⟨"X-Note", "v"⟩] =
      Utf8.encode "Subject: s\nX-Note: v\n\nbody\n" := by decide +kernel
  have hnone : ∀ f ∈ strayFields, isEdited [⟨"X-Note", "v"⟩] f.decode.name = false := by
    decide +kernel
  have hkept : keptFields [⟨"X-Note", "v"⟩] false strayFields = strayFields.drop 1 := by
    decide +kernel
  have hname : IsPlainName "X-Note" := by decide
  have hplain : ∀ e ∈ ([⟨"X-Note", "v"⟩] : List Field), e.IsOneLine := by
    intro e he
    obtain rfl := List.mem_singleton.1 he
    exact ⟨fun c hc => (hname.2 c hc).2, by decide⟩
  have hascii : ∀ e ∈ ([⟨"X-Note", "v"⟩] : List Field), ∀ c ∈ e.name, c.toNat < 0x80 := by
    intro e he c hc
    obtain rfl := List.mem_singleton.1 he
    exact (hname.2 c hc).1
  obtain ⟨parts, stop, hparted, hfields, -, -, -⟩ := revise_parts hread hplain hascii
  refine ⟨parts, stop, hparted, hfields, fun p hp => ?_, ?_, hrevised⟩
  · exact hnone p.field (hfields ▸ List.mem_map_of_mem hp)
  · rw [map_field_keptParts, hfields, hkept]

end Mailroom
