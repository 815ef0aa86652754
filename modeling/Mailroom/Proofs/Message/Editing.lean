import Mailroom.Proofs.Header.Names
import Mailroom.Proofs.Message.Placing

/-!
# Editing a message

What changes in the sight of a message when it is edited, and what saving it does.

* `Message.sight_setField` gives a field a new value.
* `Message.changeKeywords_run` changes the keywords.
* `Message.At` says that a message is at a slot, and that what is seen of it is so.
* `Message.save_cases` lists what saving can come to there.
-/

namespace Mailroom

/-! ## New values -/

/-- The new values of fields with one more. -/
def withField (edits : List Field) (name value : Text) : List Field :=
  edits.filter (fun e => !Text.sameName e.name name) ++ [⟨name, value⟩]

theorem find?_withField_self (edits : List Field) (name value : Text) :
    (withField edits name value).find? (fun e => Text.sameName e.name name) =
      some ⟨name, value⟩ := by
  rw [withField, List.find?_append, List.find?_eq_none.2, Option.none_or]
  · simp [sameName_self]
  · intro e he
    simpa using (List.mem_filter.1 he).2

theorem find?_withField_of_ne (edits : List Field) {name other : Text} (value : Text)
    (h : Text.sameName name other = false) :
    (withField edits name value).find? (fun e => Text.sameName e.name other) =
      edits.find? (fun e => Text.sameName e.name other) := by
  -- a field that was filtered out has the one name, hence not the other
  have hfilter : ∀ e : Field, Text.sameName e.name other = true →
      (!Text.sameName e.name name) = true := by
    intro e he
    cases hn : Text.sameName e.name name with
    | false => rfl
    | true =>
      simp only [Text.sameName, beq_iff_eq] at he hn
      simp only [Text.sameName, beq_eq_false_iff_ne] at h
      exact absurd (hn.symm.trans he) h
  induction edits with
  | nil => simp [withField, h]
  | cons e edits ih =>
    simp only [withField] at ih ⊢
    cases he : Text.sameName e.name other with
    | true =>
      rw [List.filter_cons_of_pos (p := fun e : Field => !Text.sameName e.name name)
        (hfilter e he)]
      simp [he]
    | false =>
      rw [List.find?_cons_of_neg (by simp [he]), ← ih]
      by_cases hn : (!Text.sameName e.name name) = true
      · rw [List.filter_cons_of_pos (p := fun e : Field => !Text.sameName e.name name) hn,
          List.cons_append, List.find?_cons_of_neg (by simp [he])]
      · rw [List.filter_cons_of_neg (p := fun e : Field => !Text.sameName e.name name) hn]

/-- A sight after a change of the keywords; the change tells whether there was one. -/
def Sight.withKeywords (s : Sight) (change : Keywords × Bool) : Sight :=
  { s with
    keywords := .ok change.1
    edits := if change.2 then withField s.edits Keywords.fieldName change.1.render else s.edits }

/-- A sight after a field got a new value. -/
def Sight.withField (s : Sight) (name value : Text) : Sight :=
  { s with edits := Mailroom.withField s.edits name value }

namespace Message

variable {d : Disk} {m : Message}

theorem sight_setField {name : Text} (value : Text)
    (hname : Text.sameName name Keywords.fieldName = false) :
    (m.setField name value).sight d = (m.sight d).withField name value := by
  have hseen : ∀ header, seenKeywords (Mailroom.withField m.edits name value) header =
      seenKeywords m.edits header := by
    intro header
    simp only [seenKeywords, seenValues, find?_withField_of_ne m.edits value hname]
  simp only [sight, setField, Sight.withField]
  rw [show m.edits.filter (fun e => !Text.sameName e.name name) ++ [⟨name, value⟩] =
    Mailroom.withField m.edits name value from rfl]
  simp only [hseen]

/-- Changing keywords that can be read changes what is seen of them; if the change was one, the
field is to get the value that is written for them. -/
theorem changeKeywords_run (change : Keywords → Keywords × Bool) {k : Keywords}
    (hk : (m.sight d).keywords = .ok k) :
    ∃ m', changeKeywords change d m = (.ok (change k).2, m') ∧
      m'.sight d = (m.sight d).withKeywords (change k) := by
  obtain ⟨hvalue, hsight⟩ := reads_keywords d m
  rw [hk] at hvalue
  cases hrun : keywords d m with
  | mk result m₁ =>
    rw [hrun] at hvalue hsight
    simp only at hvalue hsight
    subst hvalue
    cases hchange : change k with
    | mk k' changed =>
      cases changed with
      | false =>
        refine ⟨{ m₁ with keywordSet := some k' }, ?_, ?_⟩
        · refine (run_bind_ok hrun).trans ?_
          simp only [hchange]
          rfl
        · rw [← hsight]
          rfl
      | true =>
        refine ⟨stageKeywords { m₁ with keywordSet := some k' }, ?_, ?_⟩
        · refine (run_bind_ok hrun).trans ?_
          simp only [hchange]
          rfl
        · rw [← hsight]
          rfl

theorem changeKeywords_error (change : Keywords → Keywords × Bool) {e : Error}
    (hk : (m.sight d).keywords = .error e) :
    ∃ m', changeKeywords change d m = (.error e, m') ∧ m'.sight d = m.sight d := by
  obtain ⟨hvalue, hsight⟩ := reads_keywords d m
  rw [hk] at hvalue
  cases hrun : keywords d m with
  | mk result m₁ =>
    rw [hrun] at hvalue hsight
    simp only at hvalue hsight
    subst hvalue
    exact ⟨m₁, run_bind_error hrun, hsight⟩

/-! ## Messages at a slot -/

variable {root place : Path} {s : Slot} {f : File}

/-- A message at a slot, of which nothing is remembered that is not so. -/
structure At (root place : Path) (s : Slot) (f : File) (d : Disk) (v : Sight) : Prop where
  /-- The disk is sound. -/
  sound : d.Sound
  /-- The maildir is there. -/
  resolve : d.resolve root = .ok place
  /-- The message is the one at the slot. -/
  entry : v.entry = s.entry root
  /-- The file is at the slot. -/
  file : d.item? (place ++ s.names) = some (.file f)
  /-- The content is that of the file. -/
  content : v.content = .ok f.content
  /-- The header block is that of the file. -/
  header : v.header = readHeader f.content

/-- Keywords that were not written leave the message where it is. -/
theorem At.withKeywords {v : Sight} (h : At root place s f d v) (change : Keywords × Bool) :
    At root place s f d (v.withKeywords change) :=
  ⟨h.sound, h.resolve, h.entry, h.file, h.content, h.header⟩

/-- So do new values. -/
theorem At.withField {v : Sight} (h : At root place s f d v) (name value : Text) :
    At root place s f d (v.withField name value) :=
  ⟨h.sound, h.resolve, h.entry, h.file, h.content, h.header⟩

theorem At.stands {v : Sight} (h : At root place s f d v) :
    v.entry.Stands (place ++ [s.folder]) f d := h.entry ▸ s.stands_entry h.sound h.resolve h.file

/-- What saving can come to for a message at a slot. -/
theorem save_cases (h : At root place s f d (m.sight d)) :
    (m.edits = [] ∧ save ⟨d, m⟩ = (.ok false, ⟨d, m⟩)) ∨
    (m.edits ≠ [] ∧ ∃ e m', save ⟨d, m⟩ = (.error e, ⟨d, m'⟩) ∧ m'.sight d = m.sight d ∧
      ((∃ e', readHeader f.content = .error e') ∨ ¬ s.HasRoom place d)) ∨
    (m.edits ≠ [] ∧ ∃ header d' m' id, readHeader f.content = .ok header ∧
      save ⟨d, m⟩ = (.ok true, ⟨d', m'⟩) ∧
      d.Elsewhere [place ++ s.names, place ++ s.temporary] d' ∧
      d'.item? (place ++ s.names) =
        some (.file ⟨id, revise f.content header.bodyOffset m.edits, d.clock⟩) ∧
      At root place s ⟨id, revise f.content header.bodyOffset m.edits, d.clock⟩ d'
        (m'.sight d') ∧
      m'.edits = [] ∧
      ((m'.sight d').keywords = (m.sight d).keywords ∨ (m'.sight d').keywords =
        seenKeywords [] (readHeader (revise f.content header.bodyOffset m.edits))) ∧
      s.HasRoom place d) := by
  have hentry : m.entry = s.entry root := h.entry
  have hstate : m.entry.state = s.state := by rw [hentry, Slot.state_entry]
  have hname : m.entry.name = s.name := by rw [hentry, Slot.name_entry]
  rcases save_of_stands h.sound h.stands with hnone | ⟨e, m', hsave, hsight, hedits, hwhy⟩ |
    ⟨bytes, header, d', m', id, hcontent, hheader, hsave, helse, hentry', hstands, hedits',
      hcontent', hheader', hkeywords, hroom, hedits⟩
  · exact Or.inl hnone
  · refine Or.inr (Or.inl ⟨hedits, e, m', hsave, hsight, ?_⟩)
    rw [h.content, h.header, hname, Slot.hasRoomAt_iff] at hwhy
    exact (hwhy.resolve_left (by simp)).imp_left fun hread => ⟨e, hread⟩
  · obtain rfl : f.content = bytes := Except.ok.inj (h.content.symm.trans hcontent)
    have hplace : place ++ [s.folder] ++ [m.entry.state.name, m.entry.name] = place ++ s.names := by
      simp [hstate, hname, Slot.names]
    have hbeside : place ++ [s.folder] ++ [temporaryName, m.entry.name] = place ++ s.temporary := by
      simp [hname, Slot.temporary]
    have hfile := hstands.file
    rw [hentry'] at hfile
    rw [hplace, hbeside] at helse
    rw [hname, Slot.hasRoomAt_iff] at hroom
    have hfile' : d'.item? (place ++ s.names) =
        some (.file ⟨id, revise f.content header.bodyOffset m.edits, d.clock⟩) := hplace ▸ hfile
    refine Or.inr (Or.inr ⟨hedits, header, d', m', id, h.header.symm.trans hheader, hsave, helse,
      hfile', ⟨helse.sound, helse.resolve h.resolve, ?_, hfile', hcontent', hheader'⟩, hedits',
      hkeywords, hroom⟩)
    exact hentry'.trans (by rw [hentry, Slot.known_entry])

/-! ## Taking up and moving -/

theorem read_entry (hd : d.Sound) (hroot : d.resolve root = .ok place)
    (hf : d.item? (place ++ s.names) = some (.file f)) :
    (s.entry root).read d = .ok f.content := (s.stands_entry hd hroot hf).read hd

/-- A message that was just taken up is seen as it is in its file. -/
theorem sight_ofEntry (hd : d.Sound) (hroot : d.resolve root = .ok place)
    (hf : d.item? (place ++ s.names) = some (.file f)) :
    (ofEntry (s.entry root)).sight d = .ofFile (s.entry root) f.content :=
  sight_ofEntry_of_stands hd (s.stands_entry hd hroot hf)

theorem At.ofFile (hd : d.Sound) (hroot : d.resolve root = .ok place)
    (hf : d.item? (place ++ s.names) = some (.file f)) :
    At root place s f d (.ofFile (s.entry root) f.content) :=
  ⟨hd, hroot, rfl, hf, rfl, rfl⟩

/-- Nothing can be read of a message whose file is not there. -/
theorem keywords_ofEntry_of_not_taken (hd : d.Sound) (hroot : d.resolve root = .ok place)
    (hs : ∀ f, d.item? (place ++ s.names) ≠ some (.file f)) :
    ∃ e, ((ofEntry (s.entry root)).sight d).keywords = .error e := by
  have hread : ∃ e, (s.entry root).read d = .error e := by
    cases hfile : d.file (root ++ s.names) with
    | ok f => exact absurd ((Disk.file_below hd hroot s.isName_of_mem_names).1 hfile) (hs f)
    | error e => exact ⟨.file e, by rw [Entry.read, Slot.path_entry, Disk.read, hfile]; rfl⟩
  obtain ⟨e, he⟩ := hread
  refine ⟨e, ?_⟩
  simp only [ofEntry, sight, he]
  rfl

/-- A message that was moved is seen as before, but for its place. -/
theorem sight_moved {t : Slot} {d' : Disk} (h : At root place s f d (m.sight d)) (hd' : d'.Sound)
    (hroot : d'.resolve root = .ok place) (hf : d'.item? (place ++ t.names) = some (.file f)) :
    { m with entry := t.entry root }.sight d' = { m.sight d with entry := t.entry root } := by
  have hcontent := h.content
  have hread := read_entry hd' hroot hf
  simp only [sight] at hcontent
  cases hm : m.content with
  | some b => simp only [sight, hm]
  | none =>
    simp only [hm] at hcontent
    simp only [sight, hm, hread, hcontent]

theorem At.moved {t : Slot} {d' : Disk} {v : Sight} (h : At root place s f d v) (hd' : d'.Sound)
    (hroot : d'.resolve root = .ok place) (hf : d'.item? (place ++ t.names) = some (.file f)) :
    At root place t f d' { v with entry := t.entry root } :=
  ⟨hd', hroot, rfl, hf, h.content, h.header⟩

end Message

end Mailroom
