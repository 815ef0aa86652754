import Mailroom.Proofs.Message.Editing

/-!
# Messages in any folder

A rule may move a message to `.` or `..`, where it is at no slot.  Wherever it is, what is done to
it concerns the files of its state and its name only.

* `Disk.Apart` says that two disks differ in such files only.
* `Entry.IsHeld` says that a message has a file, in a folder that one step leads to.
* `Message.save_of_held` and `Message.moveTo_of_held` say that saving and moving keep both.
-/

namespace Mailroom

/-! ## Files of a state and a name -/

/-- Whether a path leads to the place of a state, or to the one for writing, and ends in a name. -/
def EndsIn (state : ReadState) (name : Text) (q : Path) : Prop :=
  ∃ p, q = p ++ [state.name, name] ∨ q = p ++ [temporaryName, name]

/-- A file of one state and name is no file of another. -/
theorem not_endsIn {state state' : ReadState} {name name' : Text} {p : Path}
    (h : state' = state → name' ≠ name) : ¬ EndsIn state name (p ++ [state'.name, name']) := by
  rintro ⟨p', hp | hp⟩
  · obtain ⟨hstate, hname⟩ := pair_eq_of_append hp
    exact h (ReadState.name_inj hstate) hname
  · exact state'.name_ne_temporaryName (pair_eq_of_append hp).1

theorem not_endsIn_names {state : ReadState} {name : Text} {place : Path} {s : Slot}
    (h : s.state = state → s.name ≠ name) : ¬ EndsIn state name (place ++ s.names) := by
  have hsplit : place ++ s.names = (place ++ [s.folder]) ++ [s.state.name, s.name] := by
    simp [Slot.names]
  rw [hsplit]
  exact not_endsIn h

namespace Disk

/-- Two sound disks with the same folders that differ in files of one state and name only. -/
def Apart (state : ReadState) (name : Text) (d d' : Disk) : Prop :=
  ∃ ps, d.Elsewhere ps d' ∧ ∀ q ∈ ps, EndsIn state name q

namespace Apart

variable {state : ReadState} {name : Text} {d d' : Disk}

theorem sound (h : Apart state name d d') : d'.Sound := by
  obtain ⟨ps, hps, -⟩ := h
  exact hps.sound

theorem folders (h : Apart state name d d') (q : Path) :
    d'.item? q = some .folder ↔ d.item? q = some .folder := by
  obtain ⟨ps, hps, -⟩ := h
  exact hps.folders q

theorem resolve (h : Apart state name d d') {p q : Path} (hp : d.resolve p = .ok q) :
    d'.resolve p = .ok q := by
  obtain ⟨ps, hps, -⟩ := h
  exact hps.resolve hp

theorem same (h : Apart state name d d') {q : Path} (hq : ¬ EndsIn state name q) :
    d'.item? q = d.item? q := by
  obtain ⟨ps, hps, hends⟩ := h
  exact hps.same q fun hmem => hq (hends q hmem)

end Apart

end Disk

/-! ## Messages that have a file -/

namespace Entry

/-- A message of a state and a name, in a folder of the maildir or in one that `.` or `..` leads
to, and its file. -/
structure IsHeld (root : Path) (state : ReadState) (name : Text) (f : File) (d : Disk)
    (e : Entry) : Prop where
  /-- The folder is named from the maildir. -/
  root : e.folder.root = root
  /-- One step leads to it. -/
  step : IsStep e.folder.name
  /-- The message is of the state. -/
  state : e.state = state
  /-- It has the name. -/
  name : e.name = name
  /-- The file is there. -/
  file : d.file e.path = .ok f

theorem path_of_step {root : Path} {name : Text} {e : Entry} (hn : IsName name) {g : Text}
    (hg : IsStep g) (hname : e.name = name) :
    e.pathIn ⟨root, g⟩ = root ++ [g, e.state.name, name] := by
  rw [pathIn, hname, Path.join_of_isName _ hn, Folder.statePath, Folder.path,
    Path.join_of_isStep _ hg]
  simp

variable {root : Path} {state : ReadState} {name : Text} {f : File} {d : Disk} {e : Entry}

namespace IsHeld

variable (h : e.IsHeld root state name f d) (hn : IsName name)

include h

theorem read : e.read d = .ok f.content := by
  rw [Entry.read, Disk.read, h.file]
  rfl

include hn

/-- Where the message is, as it is written. -/
theorem path_eq : e.path = root ++ [e.folder.name, state.name, name] := by
  have hpath : e.pathIn ⟨root, e.folder.name⟩ = root ++ [e.folder.name, e.state.name, name] :=
    path_of_step hn h.step h.name
  rw [h.state] at hpath
  rw [Entry.path, ← hpath, ← h.root]

/-- It stands somewhere. -/
theorem exists_stands : ∃ r, e.Stands r f d := Entry.exists_stands (h.name ▸ hn) h.file

end IsHeld

theorem isHeld_entry {s : Slot} (h : d.file (root ++ s.names) = .ok f) :
    (s.entry root).IsHeld root s.state s.name f d := by
  refine ⟨?_, ?_, Slot.state_entry root s, Slot.name_entry root s, ?_⟩
  · rw [Slot.folder_entry]
  · rw [Slot.folder_entry]
    exact s.isName_folder.isStep
  · rw [Slot.path_entry]
    exact h

end Entry

namespace Message

variable {root : Path} {state : ReadState} {name : Text} {f : File} {d : Disk} {m : Message}

/-- Saving a message fails without a trace, or what is seen of it was written, and nothing but the
files of its state and name is concerned. -/
theorem save_of_held (hd : d.Sound) (hn : IsName name)
    (hm : m.entry.IsHeld root state name f d) :
    (m.edits = [] ∧ save ⟨d, m⟩ = (.ok false, ⟨d, m⟩)) ∨
    (∃ e m', save ⟨d, m⟩ = (.error e, ⟨d, m'⟩) ∧ m'.sight d = m.sight d) ∨
    ∃ bytes header d' m' id, (m.sight d).content = .ok bytes ∧
      (m.sight d).header = .ok header ∧ save ⟨d, m⟩ = (.ok true, ⟨d', m'⟩) ∧
      d.Apart state name d' ∧ m'.entry.IsHeld root state name
        ⟨id, revise bytes header.bodyOffset m.edits, d.clock⟩ d' := by
  obtain ⟨r, hstands⟩ := hm.exists_stands hn
  rcases save_of_stands hd hstands with hnone | ⟨e, m', hsave, hsight, -⟩ |
    ⟨bytes, header, d', m', id, hcontent, hheader, hsave, helse, hentry, hstands', -⟩
  · exact Or.inl hnone
  · exact Or.inr (Or.inl ⟨e, m', hsave, hsight⟩)
  · refine Or.inr (Or.inr ⟨bytes, header, d', m', id, hcontent, hheader, hsave, ⟨_, helse, ?_⟩, ?_⟩)
    · rw [hm.state, hm.name]
      intro q hq
      simp only [List.mem_cons, List.not_mem_nil, or_false] at hq
      exact ⟨r, hq⟩
    · rw [hentry] at hstands' ⊢
      exact ⟨hm.root, hm.step, hm.state, hm.name, hstands'.file_path helse.sound⟩

/-- Moving a message comes to nothing, or its file gets another folder, and nothing but the files
of its state and name is concerned. -/
theorem moveTo_of_held (hd : d.Sound) (hn : IsName name)
    (hm : m.entry.IsHeld root state name f d) {g : Text} (hg : IsStep g) :
    (∃ result, moveTo ⟨root, g⟩ ⟨d, m⟩ = (result, ⟨d, m⟩)) ∨
    ∃ d', moveTo ⟨root, g⟩ ⟨d, m⟩ = (.ok (), ⟨d',
        { m with entry := { m.entry with folder := ⟨root, g⟩, known := none } }⟩) ∧
      d.Apart state name d' ∧
      Entry.IsHeld root state name f d' { m.entry with folder := ⟨root, g⟩, known := none } := by
  obtain ⟨r, hstands⟩ := hm.exists_stands hn
  rcases moveTo_of_stands hd hstands ⟨root, g⟩ with ⟨result, hstays, -⟩ |
    ⟨-, r', -, -, hmoved, helse, hstands'⟩
  · exact Or.inl ⟨result, hstays⟩
  · refine Or.inr ⟨_, hmoved, ⟨_, helse, ?_⟩, rfl, hg, hm.state, hm.name,
      hstands'.file_path helse.sound⟩
    rw [hm.state, hm.name]
    intro q hq
    simp only [List.mem_cons, List.not_mem_nil, or_false] at hq
    rcases hq with rfl | rfl
    · exact ⟨r, Or.inl rfl⟩
    · exact ⟨r', Or.inl rfl⟩

/-- A message that was just taken up is seen as it is in its file. -/
theorem sight_ofEntry_of_held {e : Entry} (h : e.IsHeld root state name f d) :
    (ofEntry e).sight d = .ofFile e f.content := by
  simp only [ofEntry, sight, h.read, Sight.ofFile]
  rfl

end Message

end Mailroom
