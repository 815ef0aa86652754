import Mailroom.Proofs.Maildir.Moving
import Mailroom.Proofs.Message.Standing

/-!
# All or nothing

A message is written anew beside its file and takes its place by one renaming.  Reading the file,
making the new one and renaming it can each fail, whatever the disk looks like: the folder or the
file may be gone, and there may be a folder where a file is to be.

* `Sight.rewritten` is what saving a message writes.
* `Message.putContent_of_not_hasRoom` says that without room no more is lost than what was left over
  from an earlier attempt.
* `Message.Unsaved` and `Message.Saved` say what is left when saving failed, and what is there when
  it succeeded; `Message.save_outcome` is the result.
-/

namespace Mailroom

/-- The content that a message gets when it is saved: the one that it has, with the new values. -/
def Sight.rewritten (s : Sight) : Except Error Bytes := do
  return revise (← s.content) (← s.header).bodyOffset s.edits

/-- Two disks that differ at most in the place where a folder has messages that are being written,
and that have the same folders. -/
structure Folder.Spared (g : Folder) (d d' : Disk) : Prop where
  /-- The disk is still sound. -/
  sound : d'.Sound
  /-- At every place outside there is what there was. -/
  same : ∀ q, (∀ r, d.resolve g.path = .ok r → ¬ (r ++ [temporaryName]) <+: q) →
    d'.item? q = d.item? q
  /-- No folder came or went. -/
  folders : ∀ q, d'.item? q = some .folder ↔ d.item? q = some .folder

namespace Folder.Spared

variable {g : Folder} {d d' : Disk} {r : Path} {name : Text}

theorem refl (hd : d.Sound) : g.Spared d d := ⟨hd, fun _ _ => rfl, fun _ => Iff.rfl⟩

theorem of_elsewhere (hr : d.resolve g.path = .ok r)
    (h : d.Elsewhere [r ++ [temporaryName] ++ [name]] d') : g.Spared d d' := by
  refine ⟨h.sound, fun q hq => h.same q ?_, h.folders⟩
  rw [List.mem_singleton]
  rintro rfl
  exact hq r hr (List.prefix_append _ _)

end Folder.Spared

/-! ## Where there is room -/

namespace Entry

variable {d : Disk} {r : Path} {e : Entry}

/-- A path at which a file can be made leads to a proper name in the folder for messages that are
being written. -/
theorem exists_place_of_create (hd : d.Sound) (hstep : IsStep e.name) {made : FileId × Disk}
    (h : d.create e.temporary = .ok made) :
    ∃ r, IsName e.name ∧ d.resolve e.folder.path = .ok r ∧ d.HasRoomAt r e.name ∧
      d.resolve e.temporary = .ok (r ++ [temporaryName] ++ [e.name]) := by
  obtain ⟨q, hq, hfree⟩ : ∃ q, d.resolve e.temporary = .ok q ∧ d.item? q ≠ some .folder := by
    refine Classical.byContradiction fun hnone => ?_
    obtain ⟨fault, hfault⟩ := Disk.create_eq_error (d := d) (a := e.temporary) fun q hq =>
      Classical.byContradiction fun hne => hnone ⟨q, hq, hne⟩
    rw [hfault] at h
    exact absurd h (by simp)
  have hjoin : e.temporary = (e.folder.path ++ [temporaryName]) ++ [e.name] :=
    Path.join_of_isStep _ hstep
  have hparent := hq
  rw [hjoin] at hparent
  obtain ⟨p, rfl, hfolder, hname⟩ := Disk.exists_parent hd hstep hparent hfree
  obtain ⟨p', hp', -, hlast⟩ := Disk.resolve_concat hname hparent
  obtain rfl := (List.append_inj' hlast rfl).1
  obtain ⟨r, hr, -, rfl⟩ := Disk.resolve_concat isName_temporaryName hp'
  exact ⟨r, hname, hr, ⟨hfolder, by simpa using hfree⟩, hq⟩

/-- A path that a file can be renamed to leads to its place in the folder. -/
theorem hasRoom_of_rename (hname : IsName e.name) (hr : d.resolve e.folder.path = .ok r)
    (hroom : d.HasRoomAt r e.name) {a p : Path} {f : File} {d₁ d₂ : Disk}
    (hsame : ∀ q, d₁.item? q = some .folder ↔ d.item? q = some .folder)
    (ha : d₁.resolve a = .ok p) (hp : d₁.item? p = some (.file f))
    (h : d₁.rename a e.path = .ok d₂) : e.HasRoom r d := by
  obtain ⟨q, hq, hfree, -⟩ := Disk.rename_eq_ok ha hp h
  rw [path, pathIn_of_isName hname] at hq
  obtain ⟨r', hr', hstate, rfl⟩ := Disk.resolve_pair e.state.isName_name hname hq
  have hr'' := Disk.walk_of_same_folders (fun q => (hsame q).2) hr
  obtain rfl := Except.ok.inj (hr'.symm.trans hr'')
  exact ⟨hname, hr, hroom, (hsame _).1 hstate, fun hfolder => hfree ((hsame _).2 hfolder)⟩

end Entry

namespace Message

variable {d d' : Disk} {m : Message} {r : Path}

/-! ## Writing anew -/

/-- Without room writing fails, and no more is lost than what was in the place of the new file. -/
theorem putContent_of_not_hasRoom (hd : d.Sound) (hstep : IsStep m.entry.name)
    (hno : ∀ r, ¬ m.entry.HasRoom r d) (bytes : Bytes) :
    ∃ e d' entry, putContent bytes ⟨d, m⟩ = (.error e, ⟨d', { m with entry := entry }⟩) ∧
      (entry = m.entry ∨ entry = { m.entry with known := none }) ∧
      m.entry.folder.Spared d d' := by
  cases hcreate : d.create m.entry.temporary with
  | error e =>
    refine ⟨.file e, d, m.entry, ?_, Or.inl rfl, .refl hd⟩
    rw [Entry.temporary] at hcreate
    simp only [putContent, Entry.replace, hcreate, ofDisk, bind, Except.bind]
  | ok made =>
    obtain ⟨r, hname, hr, hroom, htemporary⟩ := Entry.exists_place_of_create hd hstep hcreate
    have hfree : d.item? (r ++ [temporaryName] ++ [m.entry.name]) ≠ some .folder := by
      simpa using hroom.2
    obtain ⟨id, d₁, hmade, hd₁, hnew⟩ :=
      Disk.create_eq_ok hd htemporary hroom.1 hname hfree
    obtain rfl : made = (id, d₁) := Except.ok.inj (hcreate.symm.trans hmade)
    -- the file that is left to be taken away
    have hd₁₂ := hd₁.trans (Disk.elsewhere_write_new hd₁.sound hnew bytes)
    have hfilled : (d₁.write id 0 bytes).item? (r ++ [temporaryName] ++ [m.entry.name]) =
        some (.file ⟨id, bytes, d₁.clock⟩) := by
      rw [Disk.item?_write_new hd₁.sound hnew, if_pos rfl]
    have hplace := hd₁₂.resolve htemporary
    cases hrename : (d₁.write id 0 bytes).rename m.entry.temporary m.entry.path with
    | ok d₂ =>
      exact absurd (Entry.hasRoom_of_rename hname hr hroom hd₁₂.folders hplace hfilled hrename)
        (hno r)
    | error e =>
      have hremove : (d₁.write id 0 bytes).removeFile m.entry.temporary =
          .ok ((d₁.write id 0 bytes).drop (r ++ [temporaryName] ++ [m.entry.name])) := by
        simp only [Disk.removeFile, hplace, bind, Except.bind, hfilled]
      have hspared := hd₁₂.trans (Disk.elsewhere_drop hd₁₂.sound hfilled)
      refine ⟨.file e, _, _, ?_, Or.inr rfl, .of_elsewhere hr hspared⟩
      rw [Entry.temporary] at hcreate hrename hremove
      simp only [putContent, Entry.replace, hcreate, ofDisk, bind, Except.bind, pure,
        Except.pure, Replacement.write, Replacement.commit, hrename, Replacement.discard,
        hremove, Except.toOption, Option.getD_some]

/-! ## What saving comes to -/

/-- What is left when saving a message failed. -/
structure Unsaved (e : Error) (before after : Desk) : Prop where
  /-- The disk is as before, but for what was in the place of the new file. -/
  disk : before.message.entry.folder.Spared before.disk after.disk
  /-- The message is the one that it was; what was known of its file may be asked for anew. -/
  entry : after.message.entry = before.message.entry ∨
    after.message.entry = { before.message.entry with known := none }
  /-- All new values are still to be written. -/
  edits : after.message.edits = before.message.edits
  /-- Fields have the values that they had. -/
  values : ∀ name, (fieldValues name after.disk after.message).1 =
    (fieldValues name before.disk before.message).1
  /-- The keywords are those of before. -/
  keywords : (Message.keywords after.disk after.message).1 =
    (Message.keywords before.disk before.message).1
  /-- So is the content. -/
  raw : (Message.raw after.disk after.message).1 = (Message.raw before.disk before.message).1
  /-- There was nothing to be written, or no room for it. -/
  reason : (before.message.sight before.disk).rewritten = .error e ∨
    ∃ bytes, (before.message.sight before.disk).rewritten = .ok bytes ∧
      ∀ r, ¬ before.message.entry.HasRoom r before.disk

/-- What is there when some bytes were written for a message. -/
structure Saved (bytes : Bytes) (before after : Desk) : Prop where
  /-- The disk is still sound. -/
  sound : after.disk.Sound
  /-- The message is the one that it was. -/
  entry : after.message.entry = { before.message.entry with known := none }
  /-- Its file has the bytes. -/
  written : after.disk.read after.message.entry.path = .ok bytes
  /-- Nothing is left of the writing. -/
  gone : after.disk.exists? before.message.entry.temporary = false
  /-- At every other place there is what there was. -/
  same : ∀ q, before.disk.resolve before.message.entry.path ≠ .ok q →
    before.disk.resolve before.message.entry.temporary ≠ .ok q →
    after.disk.item? q = before.disk.item? q
  /-- Nothing is left to be written. -/
  clean : after.message.isDirty = false

/-- A message that remembers its content is seen alike on all disks. -/
theorem sight_of_content {b : Bytes} (h : m.content = some b) (d d' : Disk) (e : Entry) :
    { m with entry := e }.sight d' = { m.sight d with entry := e } := by
  simp only [sight, h]

theorem rewritten_with_entry (s : Sight) (e : Entry) :
    { s with entry := e }.rewritten = s.rewritten := rfl

/-- A header block that cannot be read for want of the content is missing for the same reason. -/
theorem rewritten_of_error {e : Error}
    (h : (m.sight d).content = .error e ∨ (m.sight d).header = .error e) :
    (m.sight d).rewritten = .error e := by
  rcases h with h | h
  · simp [Sight.rewritten, h, bind, Except.bind]
  · cases hcontent : (m.sight d).content with
    | ok b => simp [Sight.rewritten, hcontent, h, bind, Except.bind]
    | error e' =>
      cases hm : m.header with
      | some header => simp [sight, hm] at h
      | none =>
        have hheader : (m.sight d).header = (m.sight d).content.bind readHeader := by
          simp [sight, hm]
        rw [hheader, hcontent] at h
        obtain rfl : e' = e := by simpa [Except.bind] using h
        simp [Sight.rewritten, hcontent, bind, Except.bind]

section Edits

variable (hedits : m.edits ≠ [])

include hedits

/-- A message whose content cannot be told is not saved, for the same reason. -/
theorem save_of_unreadable {e : Error} (h : (m.sight d).rewritten = .error e) :
    ∃ m', save ⟨d, m⟩ = (.error e, ⟨d, m'⟩) ∧ m'.sight d = m.sight d ∧
      ∀ b, (m.sight d).content = .ok b → m'.content = some b := by
  rcases save_of_edits (d := d) hedits with ⟨e', m', hsave, hsight, hwhy, hcontent⟩ |
    ⟨bytes, header, m', hcontent, hheader, -⟩
  · obtain rfl : e = e' := Except.error.inj (h.symm.trans (rewritten_of_error hwhy))
    exact ⟨m', hsave, hsight, hcontent⟩
  · simp [Sight.rewritten, hcontent, hheader, bind, Except.bind, pure, Except.pure] at h

/-- Where there is room, what was to be written is written. -/
theorem save_of_hasRoom (hd : d.Sound) {bytes : Bytes} (hbytes : (m.sight d).rewritten = .ok bytes)
    (h : m.entry.HasRoom r d) :
    ∃ after, save ⟨d, m⟩ = (.ok true, after) ∧ Saved bytes ⟨d, m⟩ after := by
  obtain ⟨content, hcontent, hrest⟩ := exists_of_bind_ok hbytes
  obtain ⟨header, hheader, hrevise⟩ := exists_of_bind_ok hrest
  obtain rfl : revise content header.bodyOffset m.edits = bytes := Except.ok.inj hrevise
  rcases save_of_edits (d := d) hedits with ⟨e, m', -, -, hwhy, -⟩ |
    ⟨content', header', m', hcontent', hheader', hsight, hsave, -⟩
  · rw [hcontent, hheader] at hwhy
    simp at hwhy
  obtain rfl : content = content' := Except.ok.inj (hcontent.symm.trans hcontent')
  obtain rfl : header = header' := Except.ok.inj (hheader.symm.trans hheader')
  have hentry : m'.entry = m.entry := congrArg Sight.entry hsight
  obtain ⟨d', id, hput, helse, hfile, hgone⟩ :=
    putContent_of_hasRoom hd (hentry ▸ h) (revise content header.bodyOffset m.edits)
  rw [hentry] at hput helse hfile hgone
  have hpath := helse.resolve (h.resolve_path hd)
  have htemporary := helse.resolve (h.resolve_temporary hd)
  refine ⟨_, hsave.trans (writeRevised_run hput), helse.sound, rfl, ?_, ?_, ?_, rfl⟩
  · show d'.read m.entry.path = _
    rw [Disk.read, Disk.file_eq_ok.2 ⟨_, hpath, hfile⟩]
    rfl
  · rw [Bool.eq_false_iff, Ne, Disk.exists?_of_resolve htemporary, hgone]
    simp
  · intro q hq hq'
    refine helse.same q ?_
    simp only [List.mem_cons, List.not_mem_nil, or_false, not_or]
    exact ⟨fun heq => hq (heq ▸ h.resolve_path hd), fun heq => hq' (heq ▸ h.resolve_temporary hd)⟩

/-- Where there is no room, nothing is lost. -/
theorem save_of_not_hasRoom (hd : d.Sound) (hstep : IsStep m.entry.name) {bytes : Bytes}
    (hbytes : (m.sight d).rewritten = .ok bytes) (hno : ∀ r, ¬ m.entry.HasRoom r d) :
    ∃ e after, save ⟨d, m⟩ = (.error e, after) ∧ m.entry.folder.Spared d after.disk ∧
      (after.message.entry = m.entry ∨ after.message.entry = { m.entry with known := none }) ∧
      after.message.sight after.disk = { m.sight d with entry := after.message.entry } ∧
      ∀ b, (m.sight d).content = .ok b → after.message.content = some b := by
  rcases save_of_edits (d := d) hedits with ⟨e, m', -, -, hwhy, -⟩ |
    ⟨content, header, m', hcontent, hheader, hsight, hsave, hread⟩
  · exact absurd (hbytes.symm.trans (rewritten_of_error hwhy)) (by simp)
  have hentry : m'.entry = m.entry := congrArg Sight.entry hsight
  obtain ⟨e, d', entry, hput, hknown, hspared⟩ := putContent_of_not_hasRoom (m := m') hd
    (hentry ▸ hstep) (fun r => hentry ▸ hno r) (revise content header.bodyOffset m.edits)
  rw [hentry] at hknown hspared
  refine ⟨e, _, hsave.trans (run_bind_error hput), hspared, hknown, ?_, ?_⟩
  · rw [← hsight]
    exact sight_of_content hread d d' entry
  · exact fun b hb => hread.trans (congrArg some (Except.ok.inj (hcontent.symm.trans hb)))

end Edits

/-- A message that is seen as before, and remembers its content, was left as it was. -/
theorem Unsaved.of_sight {e : Error} {after : Desk} (hspared : m.entry.folder.Spared d after.disk)
    (hentry : after.message.entry = m.entry ∨
      after.message.entry = { m.entry with known := none })
    (hsight : after.message.sight after.disk = { m.sight d with entry := after.message.entry })
    (hreason : (m.sight d).rewritten = .error e ∨
      ∃ bytes, (m.sight d).rewritten = .ok bytes ∧ ∀ r, ¬ m.entry.HasRoom r d) :
    Unsaved e ⟨d, m⟩ after where
  disk := hspared
  entry := hentry
  edits := congrArg Sight.edits hsight
  values name := by
    rw [(reads_fieldValues name _ _).1, (reads_fieldValues name _ _).1, hsight]
    rfl
  keywords := by rw [(reads_keywords _ _).1, (reads_keywords _ _).1, hsight]
  raw := by rw [(reads_raw _ _).1, (reads_raw _ _).1, hsight]
  reason := hreason

/-- A message that was left as it was gets, when it can be written, what it was to get. -/
theorem save_again {after : Desk} (hedits : m.edits ≠ [])
    (hsight : after.message.sight after.disk = { m.sight d with entry := after.message.entry })
    {content : Bytes} (hcontent : after.message.content = some content) {repaired : Disk}
    (hd : repaired.Sound) (hroom : after.message.entry.HasRoom r repaired) :
    match (m.sight d).rewritten with
    | .ok bytes => ∃ desk, save ⟨repaired, after.message⟩ = (.ok true, desk) ∧
        Saved bytes ⟨repaired, after.message⟩ desk
    | .error e => ∃ desk, save ⟨repaired, after.message⟩ = (.error e, desk) := by
  have hsight' : after.message.sight repaired =
      { m.sight d with entry := after.message.entry } := by
    rw [← hsight]
    exact sight_of_content hcontent after.disk repaired after.message.entry
  have hedits' : after.message.edits ≠ [] := by
    have hsame : after.message.edits = m.edits := congrArg Sight.edits hsight'
    rwa [hsame]
  have hsame : (after.message.sight repaired).rewritten = (m.sight d).rewritten := by
    rw [hsight', rewritten_with_entry]
  cases hbytes : (m.sight d).rewritten with
  | ok bytes => exact save_of_hasRoom hedits' hd (hsame.trans hbytes) hroom
  | error e =>
    obtain ⟨m', hsave, -⟩ := save_of_unreadable hedits' (hsame.trans hbytes)
    exact ⟨_, hsave⟩

/-- Saving a message without new values does nothing.  With new values it fails, and then nothing
but what was in the place of the new file is lost, the message is as it was, and if its file could
be read, saving it again where there is room writes what was to be written; or it succeeds, and
then its file has the new content, and nothing else has changed. -/
theorem save_outcome (hd : d.Sound) (hstep : IsStep m.entry.name) :
    (m.edits = [] ∧ save ⟨d, m⟩ = (.ok false, ⟨d, m⟩)) ∨
    (m.edits ≠ [] ∧ ∃ e after, save ⟨d, m⟩ = (.error e, after) ∧ Unsaved e ⟨d, m⟩ after ∧
      ∀ content, (raw d m).1 = .ok content → ∀ repaired : Disk, repaired.Sound →
        ∀ r, after.message.entry.HasRoom r repaired →
          match (m.sight d).rewritten with
          | .ok bytes => ∃ desk, save ⟨repaired, after.message⟩ = (.ok true, desk) ∧
              Saved bytes ⟨repaired, after.message⟩ desk
          | .error e => ∃ desk, save ⟨repaired, after.message⟩ = (.error e, desk)) ∨
    (m.edits ≠ [] ∧ ∃ bytes after, save ⟨d, m⟩ = (.ok true, after) ∧
      (m.sight d).rewritten = .ok bytes ∧ Saved bytes ⟨d, m⟩ after) := by
  by_cases hedits : m.edits = []
  · exact Or.inl ⟨hedits, save_of_no_edits hedits⟩
  refine Or.inr ?_
  cases hbytes : (m.sight d).rewritten with
  | error e =>
    obtain ⟨m', hsave, hsight, hread⟩ := save_of_unreadable hedits hbytes
    have hentry : m'.entry = m.entry := congrArg Sight.entry hsight
    have hsight' : m'.sight d = { m.sight d with entry := m'.entry } := by
      rw [hentry]
      exact hsight
    refine Or.inl ⟨hedits, e, _, hsave,
      .of_sight (.refl hd) (Or.inl hentry) hsight' (Or.inl hbytes), ?_⟩
    intro content hcontent repaired hd' r hroom
    rw [← hbytes]
    rw [(reads_raw d m).1] at hcontent
    exact save_again hedits hsight' (hread content hcontent) hd' hroom
  | ok bytes =>
    by_cases hroom : ∃ r, m.entry.HasRoom r d
    · obtain ⟨r, hroom⟩ := hroom
      obtain ⟨after, hsave, hsaved⟩ := save_of_hasRoom hedits hd hbytes hroom
      exact Or.inr ⟨hedits, bytes, after, hsave, rfl, hsaved⟩
    · have hno : ∀ r, ¬ m.entry.HasRoom r d := fun r h => hroom ⟨r, h⟩
      obtain ⟨e, after, hsave, hspared, hentry, hsight, hread⟩ :=
        save_of_not_hasRoom hedits hd hstep hbytes hno
      refine Or.inl ⟨hedits, e, after, hsave,
        .of_sight hspared hentry hsight (Or.inr ⟨bytes, hbytes, hno⟩), ?_⟩
      intro content hcontent repaired hd' r hroom'
      rw [← hbytes]
      rw [(reads_raw d m).1] at hcontent
      exact save_again hedits hsight (hread content hcontent) hd' hroom'

end Message

/-! ### A note that could not be written at first -/

/-- A message that is to get a note. -/
def notedMessage : Message := (Message.ofEntry (sampleSlot.entry [])).setField "X-Note" "a"

/-- The folder of the message without a place for messages that are being written. -/
def bareDisk : Disk := (Disk.empty 0).plant [] (.folder
  [("INBOX", .folder [("new", .folder []), ("cur", .folder [("1.a:2,S", .file sampleLetter none)])])])

theorem sound_bareDisk : bareDisk.Sound := Disk.sound_plant 0 (by decide)

theorem note_save_outcome : ∃ e after desk,
    Message.save ⟨bareDisk, notedMessage⟩ = (.error e, after) ∧
      Message.Unsaved e ⟨bareDisk, notedMessage⟩ after ∧
      Message.save ⟨sampleDisk, after.message⟩ = (.ok true, desk) ∧
      desk.disk.read sampleSlot.names = .ok (Utf8.encode "Subject: s\nX-Note: a\n\nbody\n") := by
  have hfails : (Message.save ⟨bareDisk, notedMessage⟩).1.toOption = none := by decide +kernel
  have hrewritten : (notedMessage.sight bareDisk).rewritten =
      .ok (Utf8.encode "Subject: s\nX-Note: a\n\nbody\n") := by decide +kernel
  have hraw : (Message.raw bareDisk notedMessage).1 = .ok sampleLetter := by decide +kernel
  have hstep : IsStep notedMessage.entry.name := ⟨by decide, by decide⟩
  rcases Message.save_outcome (m := notedMessage) sound_bareDisk hstep with ⟨hnone, -⟩ |
    ⟨-, e, after, hsave, hunsaved, hagain⟩ | ⟨-, bytes, after, hsave, -⟩
  · exact absurd hnone (by decide)
  · have hentry : after.message.entry = sampleSlot.entry [] := by
      rcases hunsaved.entry with h | h
      · exact h
      · exact h
    have hroom : after.message.entry.HasRoom ["INBOX"] sampleDisk := by
      rw [hentry]
      exact ⟨by decide, rfl, ⟨rfl, by decide⟩, rfl, by decide⟩
    have hlater := hagain sampleLetter hraw sampleDisk sound_sampleDisk _ hroom
    rw [hrewritten] at hlater
    obtain ⟨desk, hsave', hsaved⟩ := hlater
    have hwritten := hsaved.written
    rw [hsaved.entry, hentry, Slot.known_entry, Slot.path_entry] at hwritten
    exact ⟨e, after, desk, hsave, hunsaved, hsave', hwritten⟩
  · rw [hsave] at hfails
    exact absurd hfails (by simp [Except.toOption])

end Mailroom
