import Mailroom.Proofs.Disk.Changes
import Mailroom.Proofs.Maildir.Slot
import Mailroom.Proofs.Message.Sight

/-!
# Where a message stands

A message whose folder is written in any way, with `.`, `..` or many names, has its file at one
place.  What becomes of it there when it is written anew or moved is told by what is a folder
around it.

* `Entry.Stands` says at which place the folder of a message is, and that its file is in there.
* `Entry.HasRoom` says that a message can be written anew; `Message.putContent_of_hasRoom` and
  `Message.putContent_of_no_roomAt` do so, or cannot.
* `Message.save_of_edits` says what saving reads, and `Message.save_of_stands` lists what it can
  come to; where it succeeds, what can be seen of the message then is what would be read of its
  file.
* `Message.moveTo_same`, `Message.moveTo_nowhere`, `Message.moveTo_blocked` and
  `Message.moveTo_of_free` are all that moving it can come to, as `Message.moveTo_of_stands` lists;
  `Message.moveTo_of_ok` is for moving it with success, and `Message.moveTo_stands` for moving it in
  any case.
-/

namespace Mailroom

/-- Whether the file of a message is in the folder at a place. -/
structure Entry.Stands (r : Path) (f : File) (d : Disk) (e : Entry) : Prop where
  /-- The file has a proper name. -/
  name : IsName e.name
  /-- The folder is at the place. -/
  folder : d.resolve e.folder.path = .ok r
  /-- The file is there. -/
  file : d.item? (r ++ [e.state.name, e.name]) = some (.file f)

/-- Whether there is room to write a file of a name anew, beside the messages of the folder at a
place. -/
def Disk.HasRoomAt (d : Disk) (r : Path) (name : Text) : Prop :=
  d.item? (r ++ [temporaryName]) = some .folder ∧
    d.item? (r ++ [temporaryName, name]) ≠ some .folder

/-- Where a message is written anew. -/
def Entry.temporary (e : Entry) : Path := Path.join (e.folder.path ++ [temporaryName]) e.name

/-- Whether a message can be written anew in the folder at a place. -/
structure Entry.HasRoom (r : Path) (d : Disk) (e : Entry) : Prop where
  /-- The file has a proper name. -/
  name : IsName e.name
  /-- The folder is at the place. -/
  folder : d.resolve e.folder.path = .ok r
  /-- There is a place for messages that are being written, and no folder of the name in it. -/
  temporary : d.HasRoomAt r e.name
  /-- There is a place for messages of the state. -/
  state : d.item? (r ++ [e.state.name]) = some .folder
  /-- No folder has the name there. -/
  free : d.item? (r ++ [e.state.name, e.name]) ≠ some .folder

/-- The place for messages of a state leads on from the one of the folder. -/
theorem Folder.isFolder_statePath {d : Disk} (hd : d.Sound) (g : Folder) (state : ReadState) :
    d.isFolder (g.statePath state) = true ↔
      ∃ r, d.resolve g.path = .ok r ∧ d.item? (r ++ [state.name]) = some .folder := by
  have hstate : ∀ n ∈ [state.name], IsName n := by
    intro n hn
    rw [List.mem_singleton.1 hn]
    exact state.isName_name
  cases hg : d.resolve g.path with
  | ok r => simp [Folder.statePath, Disk.isFolder_below hd hg hstate]
  | error e =>
    have hstat : d.stat (g.statePath state) = .error e := by
      simp [Disk.stat, Folder.statePath, Disk.resolve_append, hg, Except.bind, bind]
    simp [Disk.isFolder, hstat]

namespace Entry

variable {r : Path} {f : File} {d : Disk} {e : Entry}

/-- Where a message with a proper name would be in a folder. -/
theorem pathIn_of_isName (hname : IsName e.name) (g : Folder) :
    e.pathIn g = g.path ++ [e.state.name, e.name] := by
  rw [pathIn, Path.join_of_isName _ hname, Folder.statePath]
  simp

/-- Where it would be written anew. -/
theorem temporary_of_isName (hname : IsName e.name) :
    e.temporary = e.folder.path ++ [temporaryName, e.name] := by
  rw [temporary, Path.join_of_isName _ hname]
  simp

namespace HasRoom

variable (h : e.HasRoom r d)

include h

theorem resolve_name (hd : d.Sound) {part : Text} (hpart : IsName part)
    (hthere : d.item? (r ++ [part]) = some .folder) :
    d.resolve (e.folder.path ++ [part, e.name]) = .ok (r ++ [part] ++ [e.name]) := by
  have hnames : ∀ n ∈ [part], IsName n := by simpa using hpart
  rw [Disk.resolve_below h.folder]
  exact Disk.walk_of_folder hd hnames h.name hthere

theorem resolve_temporary (hd : d.Sound) :
    d.resolve e.temporary = .ok (r ++ [temporaryName, e.name]) := by
  rw [temporary_of_isName h.name,
    h.resolve_name hd isName_temporaryName h.temporary.1]
  simp

theorem resolve_path (hd : d.Sound) :
    d.resolve e.path = .ok (r ++ [e.state.name, e.name]) := by
  rw [path, pathIn_of_isName h.name, h.resolve_name hd e.state.isName_name h.state]
  simp

end HasRoom

/-- A message with a file stands somewhere. -/
theorem exists_stands (hname : IsName e.name) (h : d.file e.path = .ok f) :
    ∃ r, e.Stands r f d := by
  obtain ⟨q, hq, hitem⟩ := Disk.file_eq_ok.1 h
  have hsplit : e.path = (e.folder.path ++ [e.state.name]) ++ [e.name] := by
    rw [path, pathIn_of_isName hname]
    simp
  rw [hsplit] at hq
  obtain ⟨q', hq', -, rfl⟩ := Disk.resolve_concat hname hq
  obtain ⟨r, hr, -, rfl⟩ := Disk.resolve_concat e.state.isName_name hq'
  exact ⟨r, hname, hr, by simpa using hitem⟩

theorem exists_stands_of_read {content : Bytes} (hname : IsName e.name)
    (h : d.read e.path = .ok content) : ∃ r f, e.Stands r f d ∧ f.content = content := by
  rw [Disk.read] at h
  cases hfile : d.file e.path with
  | error fault => simp [hfile, Except.map] at h
  | ok f =>
    rw [hfile] at h
    obtain ⟨r, hstands⟩ := exists_stands hname hfile
    exact ⟨r, f, hstands, Except.ok.inj h⟩

namespace Stands

variable (h : e.Stands r f d)

include h

theorem isName_of_mem : ∀ n ∈ [e.state.name, e.name], IsName n :=
  isName_of_mem_pair e.state.isName_name h.name

theorem stat_path (hd : d.Sound) : d.stat e.path = .ok (.file f) := by
  have hbelow := Disk.stat_below hd h.folder h.isName_of_mem
  rw [h.file, ← pathIn_of_isName h.name] at hbelow
  cases hstat : d.stat e.path with
  | error e' =>
    rw [path] at hstat
    simp [hstat, Except.toOption] at hbelow
  | ok i =>
    rw [path] at hstat
    rw [hstat] at hbelow
    exact congrArg Except.ok (Option.some.inj hbelow)

theorem resolve_path (hd : d.Sound) : d.resolve e.path = .ok (r ++ [e.state.name, e.name]) := by
  rw [path, pathIn_of_isName h.name, Disk.resolve_below h.folder]
  exact Disk.walk_of_item? hd h.isName_of_mem (by rw [h.file]; rfl)

theorem file_path (hd : d.Sound) : d.file e.path = .ok f :=
  Disk.file_eq_ok.2 ⟨_, h.resolve_path hd, h.file⟩

theorem read (hd : d.Sound) : e.read d = .ok f.content := by
  rw [Entry.read, Disk.read, h.file_path hd]
  rfl

/-- The path at which the message is written anew leads to its place where it leads anywhere. -/
theorem resolve_temporary {q : Path} (hq : d.resolve e.temporary = .ok q) :
    d.item? (r ++ [temporaryName]) = some .folder ∧ q = r ++ [temporaryName, e.name] := by
  rw [temporary_of_isName h.name, Disk.resolve_below h.folder] at hq
  have hnames := isName_of_mem_pair isName_temporaryName h.name
  refine ⟨?_, Disk.eq_append_of_walk hnames hq⟩
  have htemporary : ∀ n ∈ [temporaryName], IsName n := fun n hn =>
    hnames n (by simp [List.mem_singleton.1 hn])
  exact Disk.folder_of_walk htemporary hq

/-- With room beside it there is room for it. -/
theorem hasRoom (hd : d.Sound) (hroom : d.HasRoomAt r e.name) : e.HasRoom r d where
  name := h.name
  folder := h.folder
  temporary := hroom
  state := hd.parent _ e.name (by simpa using congrArg Option.isSome h.file)
  free := by
    rw [h.file]
    simp

end Stands

end Entry

namespace Message

variable {r r' : Path} {f : File} {d : Disk} {m : Message} {dest : Folder}

/-- What can be seen of a message depends on the disk by what is read of its file. -/
theorem sight_congr {d' : Disk} (h : m.entry.read d' = m.entry.read d) :
    m.sight d' = m.sight d := by
  simp only [sight, h]

/-- A message that is seen with another entry is seen as before, if the same is read by both. -/
theorem sight_with_entry {d' : Disk} {e : Entry} (h : e.read d' = m.entry.read d) :
    { m with entry := e }.sight d' = { m.sight d with entry := e } := by
  simp only [sight, h]

/-- A message that was just taken up is seen as it is in its file. -/
theorem sight_ofEntry_of_stands {e : Entry} (hd : d.Sound) (h : e.Stands r f d) :
    (ofEntry e).sight d = .ofFile e f.content := by
  simp only [ofEntry, sight, h.read hd, Sight.ofFile]
  rfl

/-! ## Writing anew -/

/-- Writing anew succeeds where there is room, and leaves nothing where the new file was made. -/
theorem putContent_of_hasRoom (hd : d.Sound) (h : m.entry.HasRoom r d) (bytes : Bytes) :
    ∃ d' id, putContent bytes ⟨d, m⟩ =
        (.ok (), ⟨d', { m with entry := { m.entry with known := none } }⟩) ∧
      d.Elsewhere [r ++ [m.entry.state.name, m.entry.name], r ++ [temporaryName, m.entry.name]]
        d' ∧
      d'.item? (r ++ [m.entry.state.name, m.entry.name]) =
        some (.file ⟨id, bytes, d.clock⟩) ∧
      d'.item? (r ++ [temporaryName, m.entry.name]) = none := by
  have hsplit : ∀ part, r ++ [part, m.entry.name] = r ++ [part] ++ [m.entry.name] := by simp
  have hne : r ++ [m.entry.state.name, m.entry.name] ≠ r ++ [temporaryName, m.entry.name] :=
    fun heq => m.entry.state.name_ne_temporaryName (pair_eq_of_append heq).1
  have htemporary := h.resolve_temporary hd
  have htarget := h.resolve_path hd
  have hfree := h.temporary.2
  have hopen := h.free
  rw [hsplit] at htemporary htarget hfree hopen
  rw [hsplit, hsplit] at hne ⊢
  -- the new file
  obtain ⟨id, d₁, hcreate, hd₁, hnew⟩ :=
    Disk.create_eq_ok hd htemporary h.temporary.1 h.name hfree
  -- what is written into it
  have hwrite := Disk.item?_write_new hd₁.sound hnew bytes
  have hd₁₂ := hd₁.trans (Disk.elsewhere_write_new hd₁.sound hnew bytes)
  have hfilled : (d₁.write id 0 bytes).item? (r ++ [temporaryName] ++ [m.entry.name]) =
      some (.file ⟨id, bytes, d₁.clock⟩) := by
    rw [hwrite, if_pos rfl]
  -- the place that it takes
  have hopen' := fun hfolder => hopen ((hd₁₂.folders _).1 hfolder)
  have hrename := Disk.rename_file (hd₁₂.resolve htemporary) (hd₁₂.resolve htarget) hfilled hopen'
  have hd₃ := Disk.elsewhere_renamed hd₁₂.sound hfilled ((hd₁₂.folders _).2 h.state) h.name hopen'
  rw [Entry.temporary] at hcreate hrename
  refine ⟨_, id, ?_, (hd₁₂.mono (by simp)).trans (hd₃.mono (by simp)), ?_, ?_⟩
  · simp only [putContent, Entry.replace, hcreate, ofDisk, bind, Except.bind, pure, Except.pure,
      Replacement.write, Replacement.commit, hrename]
  · rw [Disk.item?_renamed (by simp) (by simp), if_pos rfl, hd₁.clock]
  · rw [Disk.item?_renamed (by simp) (by simp), if_neg hne.symm, if_pos rfl]

theorem putContent_of_no_roomAt (h : m.entry.Stands r f d)
    (hroom : ¬ d.HasRoomAt r m.entry.name) (bytes : Bytes) :
    ∃ e, putContent bytes ⟨d, m⟩ = (.error (.file e), ⟨d, m⟩) := by
  obtain ⟨e, he⟩ := Disk.create_eq_error (d := d) (a := m.entry.temporary) (by
    intro q hq
    obtain ⟨hfolder, rfl⟩ := h.resolve_temporary hq
    exact Classical.byContradiction fun hne => hroom ⟨hfolder, hne⟩)
  refine ⟨e, ?_⟩
  rw [Entry.temporary] at he
  simp only [putContent, Entry.replace, he, ofDisk, bind, Except.bind]

/-! ## Saving -/

theorem toEditing_run {α : Type} (r : Reading α) (d : Disk) (m : Message) :
    r.toEditing ⟨d, m⟩ = ((r d m).1, ⟨d, (r d m).2⟩) := rfl

theorem save_of_no_edits (hedits : m.edits = []) : save ⟨d, m⟩ = (.ok false, ⟨d, m⟩) := by
  obtain ⟨entry, content, header, keywordSet, edits⟩ := m
  subst hedits
  rfl

/-- What is left of saving when the content and the header block were read: the content is
written with the new values, and nothing is to be written then. -/
def writeRevised (bytes : Bytes) (header : Header) (edits : List Field) : Editing Bool :=
  putContent (revise bytes header.bodyOffset edits) >>= fun _ => do
    modifyThe Desk fun desk => { desk with message := { desk.message with
      edits := [], header := none, content := some (revise bytes header.bodyOffset edits) } }
    return true

/-- Saving reads the content and the header block, which may fail, and writes the new values.  The
content that was read is remembered. -/
theorem save_of_edits (hedits : m.edits ≠ []) :
    (∃ e m', save ⟨d, m⟩ = (.error e, ⟨d, m'⟩) ∧ m'.sight d = m.sight d ∧
      ((m.sight d).content = .error e ∨ (m.sight d).header = .error e) ∧
      ∀ bytes, (m.sight d).content = .ok bytes → m'.content = some bytes) ∨
    ∃ bytes header m', (m.sight d).content = .ok bytes ∧ (m.sight d).header = .ok header ∧
      m'.sight d = m.sight d ∧ save ⟨d, m⟩ = writeRevised bytes header m.edits ⟨d, m'⟩ ∧
      m'.content = some bytes := by
  have hsave : save ⟨d, m⟩ = (raw.toEditing >>= fun bytes => parsed.toEditing >>= fun header =>
      writeRevised bytes header m.edits) ⟨d, m⟩ := by
    obtain ⟨entry, content, header, keywordSet, edits⟩ := m
    cases edits with
    | nil => exact absurd rfl hedits
    | cons e edits => rfl
  rw [hsave]
  obtain ⟨hcontent, hsight₁⟩ := reads_raw d m
  cases hraw : raw d m with
  | mk content m₁ =>
    rw [hraw] at hcontent hsight₁
    have hrun₁ : raw.toEditing ⟨d, m⟩ = (content, ⟨d, m₁⟩) := by rw [toEditing_run, hraw]
    cases content with
    | error e =>
      refine Or.inl ⟨e, m₁, run_bind_error hrun₁, hsight₁, Or.inl hcontent.symm, ?_⟩
      exact fun bytes hbytes => absurd (hcontent.trans hbytes) (by simp)
    | ok bytes =>
      rw [run_bind_ok hrun₁]
      obtain ⟨hheader, hsight₂⟩ := reads_parsed d m₁
      have hread : (parsed d m₁).2.content = some bytes :=
        content_of_parsed (content_of_raw hraw) d
      cases hparsed : parsed d m₁ with
      | mk header m₂ =>
        rw [hparsed] at hread
        rw [hparsed, hsight₁] at hheader hsight₂
        have hrun₂ : parsed.toEditing ⟨d, m₁⟩ = (header, ⟨d, m₂⟩) := by
          rw [toEditing_run, hparsed]
        cases header with
        | error e =>
          refine Or.inl ⟨e, m₂, run_bind_error hrun₂, hsight₂, Or.inr hheader.symm, ?_⟩
          intro bytes' hbytes'
          rw [hread, Except.ok.inj (hcontent.trans hbytes')]
        | ok header =>
          exact Or.inr ⟨bytes, header, m₂, hcontent.symm, hheader.symm, hsight₂,
            run_bind_ok hrun₂, hread⟩

theorem writeRevised_run {bytes : Bytes} {header : Header} {edits : List Field} {m' : Message}
    {d' : Disk} (h : putContent (revise bytes header.bodyOffset edits) ⟨d, m⟩ =
      (.ok (), ⟨d', m'⟩)) :
    writeRevised bytes header edits ⟨d, m⟩ = (.ok true, ⟨d', { m' with
      edits := [], header := none, content := some (revise bytes header.bodyOffset edits) }⟩) :=
  run_bind_ok h

/-- Saving has nothing to write, or fails without a trace, for want of the content or of room, or
there is room and the file is written anew where the message stands. -/
theorem save_of_stands (hd : d.Sound) (h : m.entry.Stands r f d) :
    (m.edits = [] ∧ save ⟨d, m⟩ = (.ok false, ⟨d, m⟩)) ∨
    (∃ e m', save ⟨d, m⟩ = (.error e, ⟨d, m'⟩) ∧ m'.sight d = m.sight d ∧ m.edits ≠ [] ∧
      ((m.sight d).content = .error e ∨ (m.sight d).header = .error e ∨
        ¬ d.HasRoomAt r m.entry.name)) ∨
    ∃ bytes header d' m' id, (m.sight d).content = .ok bytes ∧
      (m.sight d).header = .ok header ∧ save ⟨d, m⟩ = (.ok true, ⟨d', m'⟩) ∧
      d.Elsewhere [r ++ [m.entry.state.name, m.entry.name], r ++ [temporaryName, m.entry.name]]
        d' ∧
      m'.entry = { m.entry with known := none } ∧
      m'.entry.Stands r ⟨id, revise bytes header.bodyOffset m.edits, d.clock⟩ d' ∧
      m'.edits = [] ∧ (m'.sight d').content = .ok (revise bytes header.bodyOffset m.edits) ∧
      (m'.sight d').header = readHeader (revise bytes header.bodyOffset m.edits) ∧
      ((m'.sight d').keywords = (m.sight d).keywords ∨ (m'.sight d').keywords =
        seenKeywords [] (readHeader (revise bytes header.bodyOffset m.edits))) ∧
      d.HasRoomAt r m.entry.name ∧ m.edits ≠ [] := by
  by_cases hedits : m.edits = []
  · exact .inl ⟨hedits, save_of_no_edits hedits⟩
  refine .inr ?_
  rcases save_of_edits (d := d) hedits with ⟨e, m', hsave, hsight, hwhy, -⟩ |
    ⟨bytes, header, m₂, hcontent, hheader, hsight, hsave, -⟩
  · exact .inl ⟨e, m', hsave, hsight, hedits, hwhy.imp_right .inl⟩
  have hentry : m₂.entry = m.entry := congrArg Sight.entry hsight
  have hstands : m₂.entry.Stands r f d := hentry ▸ h
  by_cases hroom : d.HasRoomAt r m₂.entry.name
  · obtain ⟨d', id, hput, helse, hfile, -⟩ := putContent_of_hasRoom hd (hstands.hasRoom hd hroom)
      (revise bytes header.bodyOffset m.edits)
    refine .inr ⟨bytes, header, d', _, id, hcontent, hheader,
      hsave.trans (writeRevised_run hput), hentry ▸ helse,
      congrArg (fun e : Entry => { e with known := none }) hentry, ?_, rfl, rfl, rfl, ?_,
      hentry ▸ hroom, hedits⟩
    · exact ⟨hstands.name, helse.resolve hstands.folder, hfile⟩
    · -- keywords that are remembered stay so
      cases hk : m₂.keywordSet with
      | none =>
        refine .inr ?_
        simp [sight, Except.bind]
      | some k =>
        refine .inl ?_
        rw [← hsight]
        simp [sight, hk]
  · obtain ⟨e, hput⟩ := putContent_of_no_roomAt hstands hroom
      (revise bytes header.bodyOffset m.edits)
    exact .inl ⟨.file e, m₂, hsave.trans (run_bind_error hput), hsight, hedits,
      .inr (.inr (hentry ▸ hroom))⟩

/-! ## Moving -/

/-- Moving that fails changes nothing. -/
theorem moveTo_of_error {desk desk' : Desk} {e : Error}
    (h : moveTo dest desk = (.error e, desk')) : desk' = desk := by
  unfold moveTo at h
  split at h
  · exact (Prod.mk.inj h).2.symm
  · exact absurd (Prod.mk.inj h).1 (by simp)

theorem moveTo_same (h : dest = m.entry.folder) : moveTo dest ⟨d, m⟩ = (.ok (), ⟨d, m⟩) := by
  simp only [moveTo, Entry.moveTo, if_pos h]

/-- There has to be a place for messages of the state. -/
theorem moveTo_nowhere (hd : d.Sound) (hdest : dest ≠ m.entry.folder)
    (hno : ∀ r', d.resolve dest.path = .ok r' →
      d.item? (r' ++ [m.entry.state.name]) ≠ some .folder) :
    moveTo dest ⟨d, m⟩ =
      (.error (.config ("destination folder " ++ dest.name ++ " does not exist")), ⟨d, m⟩) := by
  have hisFolder : d.isFolder (dest.statePath m.entry.state) = false := by
    rw [Bool.eq_false_iff]
    intro hyes
    obtain ⟨r', hr', hfolder⟩ := (dest.isFolder_statePath hd _).1 hyes
    exact hno r' hr' hfolder
  simp [moveTo, Entry.moveTo, hdest, hisFolder]

section There

variable (hd : d.Sound) (h : m.entry.Stands r f d) (hdest : dest ≠ m.entry.folder)
  (hr' : d.resolve dest.path = .ok r') (hthere : d.item? (r' ++ [m.entry.state.name]) = some .folder)

include hd h hdest hr' hthere

/-- Where there is such a place, moving a message is renaming its file. -/
theorem moveTo_there : d.resolve (m.entry.pathIn dest) =
      .ok (r' ++ [m.entry.state.name, m.entry.name]) ∧
    moveTo dest ⟨d, m⟩ = match d.rename m.entry.path (m.entry.pathIn dest) with
      | .ok d' => (.ok (), ⟨d', { m with entry :=
          { m.entry with folder := dest, known := none } }⟩)
      | .error e => (.error (.file e), ⟨d, m⟩) := by
  constructor
  · have hstate : ∀ n ∈ [m.entry.state.name], IsName n := by
      intro n hn
      rw [List.mem_singleton.1 hn]
      exact m.entry.state.isName_name
    rw [Entry.pathIn_of_isName h.name, Disk.resolve_below hr']
    have hwalk : d.walk r' ([m.entry.state.name] ++ [m.entry.name]) = _ :=
      Disk.walk_of_folder hd hstate h.name hthere
    simpa using hwalk
  · have hisFolder := (dest.isFolder_statePath hd m.entry.state).2 ⟨r', hr', hthere⟩
    simp only [moveTo, Entry.moveTo, if_neg hdest, hisFolder, if_true]
    cases d.rename m.entry.path (m.entry.pathIn dest) <;> rfl

/-- A message takes the place of no folder. -/
theorem moveTo_blocked
    (hblocked : d.item? (r' ++ [m.entry.state.name, m.entry.name]) = some .folder) :
    moveTo dest ⟨d, m⟩ = (.error (.file .isAFolder), ⟨d, m⟩) := by
  obtain ⟨htarget, hrun⟩ := moveTo_there hd h hdest hr' hthere
  have hrename : d.rename m.entry.path (m.entry.pathIn dest) = .error .isAFolder := by
    simp [Disk.rename, h.resolve_path hd, htarget, h.file, hblocked, bind, Except.bind]
  rw [hrun, hrename]

/-- Otherwise its file goes there, and the message stands there. -/
theorem moveTo_of_free
    (hfree : d.item? (r' ++ [m.entry.state.name, m.entry.name]) ≠ some .folder) :
    let entry := { m.entry with folder := dest, known := none }
    let d' := d.renamed (r ++ [m.entry.state.name, m.entry.name])
      (r' ++ [m.entry.state.name, m.entry.name]) f
    moveTo dest ⟨d, m⟩ = (.ok (), ⟨d', { m with entry := entry }⟩) ∧
      d.Elsewhere [r ++ [m.entry.state.name, m.entry.name],
        r' ++ [m.entry.state.name, m.entry.name]] d' ∧ entry.Stands r' f d' := by
  intro entry d'
  obtain ⟨htarget, hrun⟩ := moveTo_there hd h hdest hr' hthere
  have hrename := Disk.rename_file (h.resolve_path hd) htarget h.file hfree
  have helse : d.Elsewhere [r ++ [m.entry.state.name, m.entry.name],
      r' ++ [m.entry.state.name, m.entry.name]] d' :=
    Disk.elsewhere_renamed_pair hd h.file hthere h.name hfree
  refine ⟨?_, helse, h.name, helse.resolve hr', ?_⟩
  · rw [hrun, hrename]
  · show d'.item? (r' ++ [m.entry.state.name, m.entry.name]) = _
    rw [Disk.item?_renamed (by simp) (by simp), if_pos rfl]

end There

/-- Moving a message leaves everything as it is, as it is in that folder or it fails, or there is a
place for it in the other folder and its file goes there. -/
theorem moveTo_of_stands (hd : d.Sound) (h : m.entry.Stands r f d) (dest : Folder) :
    (∃ result, moveTo dest ⟨d, m⟩ = (result, ⟨d, m⟩) ∧
      (dest = m.entry.folder ∨ ∃ e, result = .error e)) ∨
    (dest ≠ m.entry.folder ∧ ∃ r', d.resolve dest.path = .ok r' ∧
      d.item? (r' ++ [m.entry.state.name]) = some .folder ∧
      let entry := { m.entry with folder := dest, known := none }
      let d' := d.renamed (r ++ [m.entry.state.name, m.entry.name])
        (r' ++ [m.entry.state.name, m.entry.name]) f
      moveTo dest ⟨d, m⟩ = (.ok (), ⟨d', { m with entry := entry }⟩) ∧
        d.Elsewhere [r ++ [m.entry.state.name, m.entry.name],
          r' ++ [m.entry.state.name, m.entry.name]] d' ∧ entry.Stands r' f d') := by
  by_cases hdest : dest = m.entry.folder
  · exact Or.inl ⟨_, moveTo_same hdest, Or.inl hdest⟩
  by_cases hthere : ∃ r', d.resolve dest.path = .ok r' ∧
      d.item? (r' ++ [m.entry.state.name]) = some .folder
  · obtain ⟨r', hr', hthere⟩ := hthere
    by_cases hblocked : d.item? (r' ++ [m.entry.state.name, m.entry.name]) = some .folder
    · exact Or.inl ⟨_, moveTo_blocked hd h hdest hr' hthere hblocked, Or.inr ⟨_, rfl⟩⟩
    · exact Or.inr ⟨hdest, r', hr', hthere, moveTo_of_free hd h hdest hr' hthere hblocked⟩
  · have hno : ∀ r', d.resolve dest.path = .ok r' →
        d.item? (r' ++ [m.entry.state.name]) ≠ some .folder :=
      fun r' hr' hfolder => hthere ⟨r', hr', hfolder⟩
    exact Or.inl ⟨_, moveTo_nowhere hd hdest hno, Or.inr ⟨_, rfl⟩⟩

/-- Moving a message to another folder with success makes its file stand there. -/
theorem moveTo_of_ok (hd : d.Sound) (h : m.entry.Stands r f d) (hdest : dest ≠ m.entry.folder)
    {desk : Desk} (hrun : moveTo dest ⟨d, m⟩ = (.ok (), desk)) :
    let entry := { m.entry with folder := dest, known := none }
    ∃ r', desk.message = { m with entry := entry } ∧ desk.disk.Sound ∧
      entry.Stands r' f desk.disk := by
  intro entry
  rcases moveTo_of_stands hd h dest with ⟨result, hstays, hwhy⟩ |
    ⟨-, r', -, -, hmoved, helse, hstands⟩
  · obtain ⟨e, rfl⟩ := hwhy.resolve_left hdest
    exact absurd (congrArg Prod.fst (hstays.symm.trans hrun)) (by simp)
  · obtain rfl := (Prod.mk.inj (hmoved.symm.trans hrun)).2
    exact ⟨r', rfl, helse.sound, hstands⟩

/-- Whether or not moving succeeds, the message stands somewhere with its file. -/
theorem moveTo_stands (hd : d.Sound) (h : m.entry.Stands r f d) (dest : Folder) :
    ∃ r' d' entry, (moveTo dest ⟨d, m⟩).2 = ⟨d', { m with entry := entry }⟩ ∧ d'.Sound ∧
      entry.Stands r' f d' := by
  rcases moveTo_of_stands hd h dest with ⟨result, hstays, -⟩ |
    ⟨-, r', -, -, hmoved, helse, hstands⟩
  · exact ⟨r, d, m.entry, congrArg Prod.snd hstays, hd, h⟩
  · exact ⟨r', _, _, congrArg Prod.snd hmoved, helse.sound, hstands⟩

end Message

/-- When others leave what is read of a message as it is, it stands somewhere with that content. -/
theorem Entry.Stands.of_read {r : Path} {f : File} {d d' : Disk} {e : Entry} (h : e.Stands r f d)
    (hd : d.Sound) (hread : e.read d' = e.read d) :
    ∃ r' g, e.Stands r' g d' ∧ g.content = f.content := by
  rw [h.read hd, Entry.read, Disk.read] at hread
  cases hfile : d'.file e.path with
  | error fault => simp [hfile, Except.map, ofDisk] at hread
  | ok g =>
    rw [hfile] at hread
    obtain ⟨r', hstands⟩ := Entry.exists_stands h.name hfile
    exact ⟨r', g, hstands, Except.ok.inj hread⟩

end Mailroom
