import Mailroom.Proofs.Header.ReadBack
import Mailroom.Proofs.Maildir.Listing
import Mailroom.Proofs.Message.Plain

/-!
# Fields through the file

A message that gets new values for some of its fields and is saved has, in its file as well as in
what is remembered of it, the last value of every such field, all other fields as they were, and
its body.  There is one exception: a header block that is all of the file, is written with line
breaks of two bytes and stops within a line that holds no colon.  The name of this line may get the
first byte of the line break that is put after it, so that the field of this name, which is empty,
is not found any more.

* `withFields` is a whole list of new values, the last one of every name counting.
* `Message.save_roundTrips` compares the fields before and after saving.
-/

namespace Mailroom

/-! ## Many new values -/

/-- The new values of fields with some more. -/
def withFields (edits sets : List Field) : List Field :=
  sets.foldl (fun edits e => withField edits e.name e.value) edits

/-- The last of some new values counts, and one of before only where there is none. -/
theorem find?_withFields (edits sets : List Field) (name : Text) :
    (withFields edits sets).find? (fun e => Text.sameName e.name name) =
      (sets.reverse.find? (fun e => Text.sameName e.name name)).or
        (edits.find? (fun e => Text.sameName e.name name)) := by
  induction sets generalizing edits with
  | nil => rfl
  | cons e sets ih =>
    have hstep : (withField edits e.name e.value).find? (fun e => Text.sameName e.name name) =
        ([e].find? (fun e => Text.sameName e.name name)).or
          (edits.find? (fun e => Text.sameName e.name name)) := by
      cases hsame : Text.sameName e.name name with
      | true =>
        have hself := find?_withField_self edits e.name e.value
        simp only [sameName_congr hsame] at hself
        rw [hself]
        simp [hsame]
      | false =>
        rw [find?_withField_of_ne edits e.value hsame]
        simp [hsame]
    rw [List.reverse_cons, List.find?_append, Option.or_assoc, ← hstep]
    exact ih (withField edits e.name e.value)

theorem mem_withFields {edits sets : List Field} {e : Field} (h : e ∈ withFields edits sets) :
    e ∈ edits ∨ e ∈ sets := by
  induction sets generalizing edits with
  | nil => exact Or.inl h
  | cons x sets ih =>
    rcases ih h with h | h
    · rcases mem_withField h with h | rfl
      · exact Or.inl h
      · exact Or.inr (by simp)
    · exact Or.inr (by simp [h])

theorem pairwise_withFields {edits : List Field} (sets : List Field)
    (h : edits.Pairwise (fun a b => Text.sameName a.name b.name = false)) :
    (withFields edits sets).Pairwise (fun a b => Text.sameName a.name b.name = false) := by
  induction sets generalizing edits with
  | nil => exact h
  | cons e sets ih => exact ih (pairwise_withField e.name e.value h)

/-- A field that can be asked for and whose new value reads back. -/
structure Field.RoundTrips (e : Field) : Prop where
  /-- The name is of ASCII, without a colon and without blanks. -/
  name : ∀ c ∈ e.name, c.toNat < 0x80 ∧ c ≠ ':' ∧ isBlank c = false
  /-- The value reads as it is. -/
  value : ReadsBack e.value

theorem Field.RoundTrips.isOneLine {e : Field} (h : e.RoundTrips) : e.IsOneLine :=
  ⟨fun c hc => (h.name c hc).2, h.value.lineFeed⟩

/-- The values that a name is to have, if it gets a new one: the last one, or none if that one is
empty. -/
def finalValues (sets : List Field) (name : Text) : Option (List Text) :=
  (sets.reverse.find? (fun e => Text.sameName e.name name)).map
    (fun e => if e.value.isEmpty then [] else [e.value])

/-- A header block that is written anew gives to every name its final values, and those of before
to the others. -/
theorem valuesOf_finalValues {raw body : Bytes} {fields : List RawField} {sets : List Field}
    (hread : readFields raw = .ok (fields, body)) (hsets : ∀ e ∈ sets, e.RoundTrips) :
    ∃ fields', readFields (revise raw (raw.length - body.length) (withFields [] sets)) =
        .ok (fields', body) ∧
      ∀ name, IsTrimmedName name → match finalValues sets name with
        | some vs => valuesOf fields' name = vs
        | none => KeepsValues (lineBreak (raw.take (raw.length - body.length))) raw body name
            (valuesOf fields name) (valuesOf fields' name) := by
  have hmem : ∀ e ∈ withFields [] sets, e.RoundTrips := fun e he =>
    hsets e ((mem_withFields he).resolve_left (by simp))
  obtain ⟨fields', hrevised, hvalues⟩ := valuesOf_revise hread (fun e he => (hmem e he).isOneLine)
    (fun e he c hc => ((hmem e he).name c hc).1) (pairwise_withFields sets List.Pairwise.nil)
  refine ⟨fields', hrevised, fun name hname => ?_⟩
  have hfind := find?_withFields [] sets name
  rw [List.find?_nil, Option.or_none] at hfind
  have hnew := hvalues name hname fun e he _ => (hmem e he).value
  rw [hfind] at hnew
  unfold finalValues
  cases hlast : sets.reverse.find? (fun e => Text.sameName e.name name) with
  | some e =>
    rw [hlast] at hnew
    exact hnew
  | none =>
    rw [hlast] at hnew
    exact hnew

namespace Message

/-- Gives some fields new values, one after the other. -/
def setFields (m : Message) (sets : List Field) : Message :=
  sets.foldl (fun m e => m.setField e.name e.value) m

theorem setFields_eq (m : Message) (sets : List Field) :
    m.setFields sets = { m with edits := withFields m.edits sets } := by
  induction sets generalizing m with
  | nil => rfl
  | cons e sets ih => exact ih (m.setField e.name e.value)

variable {root place : Path} {s : Slot} {f : File} {d d' : Disk} {m m' : Message}

theorem At.setFields (h : At root place s f d (m.sight d)) (sets : List Field) :
    At root place s f d ((m.setFields sets).sight d) := by
  rw [setFields_eq]
  exact ⟨h.sound, h.resolve, h.entry, h.file, h.content, h.header⟩

/-- Where nothing is to be written, the values of a name are those in the file. -/
theorem At.fieldValues (h : At root place s f d (m.sight d)) (hedits : m.edits = [])
    {fields : List RawField} {body : Bytes} (hread : readFields f.content = .ok (fields, body))
    (name : Text) : (fieldValues name d m).1 = .ok (valuesOf fields name) := by
  have hheader : readHeader f.content =
      .ok ⟨fields.map RawField.decode, f.content.length - body.length⟩ := by
    simp only [readHeader, Header.read, hread]
  have hnone : (m.sight d).edits = [] := hedits
  rw [(reads_fieldValues name d m).1]
  simp only [Sight.values, seenValues, hnone, List.find?_nil, h.header, hheader]
  rfl

/-- A message that was saved, and the same message taken up again: nothing is to be written of
either, and both are seen as the file is. -/
theorem At.same_or_fresh (h : At root place s f d (m.sight d)) (hedits : m.edits = []) {x : Message}
    (hx : x = m ∨ x = ofEntry (s.entry root)) :
    At root place s f d (x.sight d) ∧ x.edits = [] := by
  rcases hx with rfl | rfl
  · exact ⟨h, hedits⟩
  · rw [sight_ofEntry h.sound h.resolve h.file]
    exact ⟨At.ofFile h.sound h.resolve h.file, rfl⟩

/-- After new values were saved, the file and the message have the last one of every name, the
values of before for all other names, and the body of before; only the empty value of a line that
hangs may be lost. -/
theorem save_roundTrips (h : At root place s f d (m.sight d)) (hedits : m.edits = [])
    {fields : List RawField} {body : Bytes} (hread : readFields f.content = .ok (fields, body))
    {sets : List Field} (hsets : ∀ e ∈ sets, e.RoundTrips) {changed : Bool}
    (hsave : save ⟨d, m.setFields sets⟩ = (.ok changed, ⟨d', m'⟩)) :
    ∃ f' fields', d'.file (root ++ s.names) = .ok f' ∧
      readFields f'.content = .ok (fields', body) ∧
      ∀ x, x = m' ∨ x = ofEntry (s.entry root) → (raw d' x).1 = .ok f'.content ∧
        ∀ name, IsTrimmedName name → ∃ vs vs', (fieldValues name d m).1 = .ok vs ∧
          (fieldValues name d' x).1 = .ok vs' ∧
          match finalValues sets name with
          | some new => vs' = new
          | none => KeepsValues (lineBreak (f.content.take (f.content.length - body.length)))
              f.content body name vs vs' := by
  -- it is enough to compare the fields of the two files
  suffices hfile : ∃ f' fields', At root place s f' d' (m'.sight d') ∧ m'.edits = [] ∧
      readFields f'.content = .ok (fields', body) ∧
      ∀ name, IsTrimmedName name → match finalValues sets name with
        | some new => valuesOf fields' name = new
        | none => KeepsValues (lineBreak (f.content.take (f.content.length - body.length)))
            f.content body name (valuesOf fields name) (valuesOf fields' name) by
    obtain ⟨f', fields', hat, hedits', hread', hvalues⟩ := hfile
    refine ⟨f', fields', ?_, hread', fun x hx => ?_⟩
    · exact (Disk.file_below hat.sound hat.resolve s.isName_of_mem_names).2 hat.file
    obtain ⟨hatx, heditsx⟩ := hat.same_or_fresh hedits' hx
    refine ⟨(reads_raw d' x).1.trans hatx.content, fun name hname => ?_⟩
    exact ⟨_, _, h.fieldValues hedits hread name, hatx.fieldValues heditsx hread' name,
      hvalues name hname⟩
  have hat := h.setFields sets
  have hwith : (m.setFields sets).edits = withFields [] sets := by
    rw [setFields_eq, hedits]
  rcases save_cases hat with ⟨hnone, heq⟩ | ⟨-, e, x, heq, -⟩ |
    ⟨-, header, d₁, m₁, id, hheader, heq, -, -, hat₁, hedits₁, -⟩
  · -- nothing was to be written
    obtain ⟨rfl, rfl⟩ := Desk.mk.inj (Prod.mk.inj (heq.symm.trans hsave)).2
    refine ⟨f, fields, hat, hnone, hread, fun name _ => ?_⟩
    have hfind := find?_withFields [] sets name
    rw [← hwith, hnone, List.find?_nil, Option.or_none] at hfind
    rw [finalValues, ← hfind]
    exact Or.inl rfl
  · exact absurd (Prod.mk.inj (heq.symm.trans hsave)).1 (by simp)
  · obtain ⟨rfl, rfl⟩ := Desk.mk.inj (Prod.mk.inj (heq.symm.trans hsave)).2
    have hoffset : header.bodyOffset = f.content.length - body.length := by
      simp only [readHeader, Header.read, hread, Except.ok.injEq] at hheader
      rw [← hheader]
    rw [hwith, hoffset] at hat₁
    obtain ⟨fields', hrevised, hvalues⟩ := valuesOf_finalValues hread hsets
    exact ⟨_, fields', hat₁, hedits₁, hrevised, hvalues⟩

end Message

/-! ### A message that gets a note -/

/-- A note, another subject, and a note in place of the first one. -/
def noteFields : List Field := [⟨"X-Note", "a"⟩, ⟨"Subject", "t"⟩, ⟨"x-note", "b"⟩]

theorem note_save_roundTrips : ∃ d' m' f',
    Message.save ⟨sampleDisk, (Message.ofEntry (sampleSlot.entry [])).setFields noteFields⟩ =
        (.ok true, ⟨d', m'⟩) ∧
      d'.file sampleSlot.names = .ok f' ∧
      (Message.raw d' m').1 = .ok f'.content ∧
      (Message.fieldValues "X-Note" d' m').1 = .ok ["b"] ∧
      (Message.fieldValues "X-Note" d' (.ofEntry (sampleSlot.entry []))).1 = .ok ["b"] := by
  have hroundTrips : ∀ e ∈ noteFields, e.RoundTrips := by
    have hfields : ∀ e ∈ noteFields, IsPlainName e.name ∧ ReadsBack e.value := by decide
    exact fun e he => ⟨(hfields e he).1.2, (hfields e he).2⟩
  have hfresh : (Message.ofEntry (sampleSlot.entry [])).sight sampleDisk =
      .ofFile (sampleSlot.entry []) sampleLetter :=
    Message.sight_ofEntry (f := ⟨0, sampleLetter, 0⟩) sound_sampleDisk rfl rfl
  have hat : Message.At [] [] sampleSlot ⟨0, sampleLetter, 0⟩ sampleDisk
      ((Message.ofEntry (sampleSlot.entry [])).sight sampleDisk) := by
    rw [hfresh]
    exact Message.At.ofFile sound_sampleDisk rfl rfl
  have hparses : (readFields sampleLetter).toBool = true := by decide +kernel
  have hsaves : (Message.save
      ⟨sampleDisk, (Message.ofEntry (sampleSlot.entry [])).setFields noteFields⟩).1.toOption =
        some true := by decide +kernel
  cases hread : readFields sampleLetter with
  | error e => simp [hread, Except.toBool] at hparses
  | ok r =>
    cases hsave : Message.save
        ⟨sampleDisk, (Message.ofEntry (sampleSlot.entry [])).setFields noteFields⟩ with
    | mk result desk =>
      rw [hsave] at hsaves
      cases result with
      | error e => exact absurd hsaves (by simp [Except.toOption])
      | ok changed =>
        obtain rfl : changed = true := Option.some.inj hsaves
        obtain ⟨f', fields', hfile, -, hall⟩ :=
          Message.save_roundTrips hat rfl hread hroundTrips hsave
        have hname : IsPlainName "X-Note" := by decide
        have hfinal : finalValues noteFields "X-Note" = some [("b" : Text)] := by decide
        obtain ⟨hraw, hsame⟩ := hall _ (Or.inl rfl)
        obtain ⟨_, vs, -, hvs, hnew⟩ := hsame "X-Note" hname.isTrimmedName
        obtain ⟨_, ws, -, hws, hnew'⟩ := (hall _ (Or.inr rfl)).2 "X-Note" hname.isTrimmedName
        rw [hfinal] at hnew hnew'
        exact ⟨desk.disk, desk.message, f', rfl, hfile, hraw, hvs.trans (congrArg _ hnew),
          hws.trans (congrArg _ hnew')⟩

end Mailroom
