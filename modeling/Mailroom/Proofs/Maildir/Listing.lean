import Mailroom.Proofs.Disk.Planting
import Mailroom.Proofs.Disk.Resolution
import Mailroom.Proofs.Maildir.Slot
import Mailroom.Text.Utf8

/-!
# What a maildir lists

The folders that are listed and the messages that are met in them, by what stands on the disk.

* `Maildir.mem_folders` says which folders are listed.
* `Folder.mem_messages` says which messages a folder has: the files at its slots whose names
  begin with no dot.
* `Maildir.HasMessage` and `Maildir.Lists` say the same of a maildir, seen from outside.
-/

namespace Mailroom

variable {d : Disk} {root place : Path}

theorem Disk.list_eq_ok {p : Path} {l : List (Text × Item)} (h : d.list p = .ok l) :
    ∃ q, d.resolve p = .ok q ∧ d.item? q = some .folder ∧ l = d.children q := by
  cases hp : d.resolve p with
  | error e => simp [Disk.list, hp, bind, Except.bind] at h
  | ok q =>
    simp only [Disk.list, hp, bind, Except.bind] at h
    split at h
    · rename_i hq
      exact ⟨q, rfl, hq, (Except.ok.inj h).symm⟩
    · simp at h
    · simp at h

theorem Disk.list_eq_of_folder {p : Path} (hp : d.resolve p = .ok place)
    (hfolder : d.item? place = some .folder) : d.list p = .ok (d.children place) := by
  simp [Disk.list, hp, hfolder, bind, Except.bind]

/-! ## Folders -/

/-- Whether a folder is listed: its name is a proper one that begins with no dot, and it has both
places for messages. -/
def Listed (place : Path) (d : Disk) (name : Text) : Prop :=
  IsName name ∧ name.head? ≠ some '.' ∧
    d.item? (place ++ [name, ReadState.new.name]) = some .folder ∧
    d.item? (place ++ [name, ReadState.cur.name]) = some .folder

theorem statePath_eq {name : Text} (hname : IsName name) (s : ReadState) :
    Folder.statePath ⟨root, name⟩ s = root ++ [name, s.name] := by
  rw [Folder.statePath, Folder.path, Path.join_of_isName _ hname]
  simp

theorem isThere_iff (hd : d.Sound) (hroot : d.resolve root = .ok place) {name : Text}
    (hname : IsName name) : Folder.isThere ⟨root, name⟩ d = true ↔
      d.item? (place ++ [name, ReadState.new.name]) = some .folder ∧
        d.item? (place ++ [name, ReadState.cur.name]) = some .folder := by
  rw [Folder.isThere, Bool.and_eq_true, statePath_eq hname, statePath_eq hname,
    Disk.isFolder_below hd hroot (isName_of_mem_pair hname (ReadState.isName_name _)),
    Disk.isFolder_below hd hroot (isName_of_mem_pair hname (ReadState.isName_name _))]

namespace Maildir

variable {m : Maildir} {fs : List Folder}

/-- The folders of a maildir that is there can be listed. -/
theorem exists_folders (hroot : d.resolve m.root = .ok place)
    (hfolder : d.item? place = some .folder) : ∃ fs, m.folders d = .ok fs := by
  rw [folders, Disk.list_eq_of_folder hroot hfolder]
  exact ⟨_, rfl⟩

/-- The folders can only be listed of a maildir that is there. -/
theorem place_of_folders (h : m.folders d = .ok fs) :
    ∃ place, d.resolve m.root = .ok place ∧ d.item? place = some .folder := by
  cases hlist : d.list m.root with
  | error e => simp [folders, hlist, ofDisk, bind, Except.bind] at h
  | ok l =>
    obtain ⟨place, hplace, hfolder, -⟩ := Disk.list_eq_ok hlist
    exact ⟨place, hplace, hfolder⟩

theorem mem_folders (hd : d.Sound) (hroot : d.resolve m.root = .ok place)
    (h : m.folders d = .ok fs) {f : Folder} :
    f ∈ fs ↔ f.root = m.root ∧ Listed place d f.name := by
  cases hlist : d.list m.root with
  | error e => simp [folders, hlist, ofDisk, bind, Except.bind] at h
  | ok l =>
    obtain ⟨q, hq, -, rfl⟩ := Disk.list_eq_ok hlist
    obtain rfl : place = q := by simpa [hroot] using hq
    simp only [folders, hlist, ofDisk, bind, Except.bind, pure, Except.pure, Except.ok.injEq] at h
    rw [← h, List.mem_filter, List.mem_map]
    constructor
    · rintro ⟨⟨name, hname, rfl⟩, hthere⟩
      obtain ⟨hmem, hdot⟩ := List.mem_filter.1 hname
      obtain ⟨⟨n, i⟩, hchild, rfl⟩ := List.mem_map.1 hmem
      have hitem := (Disk.mem_children hd).1 hchild
      have hisName : IsName n := hd.name place n (by simp [hitem])
      have hvisible : n.head? ≠ some '.' := by simpa using hdot
      refine ⟨rfl, hisName, hvisible, ?_⟩
      exact (isThere_iff hd hroot hisName).1 hthere
    · rintro ⟨hr, hisName, hdot, hnew, hcur⟩
      obtain ⟨r, name⟩ := f
      obtain rfl : r = m.root := hr
      refine ⟨⟨name, List.mem_filter.2 ⟨?_, by simpa using hdot⟩, rfl⟩,
        (isThere_iff hd hroot hisName).2 ⟨hnew, hcur⟩⟩
      have hfolder : d.item? (place ++ [name]) = some .folder :=
        hd.parent (place ++ [name]) ReadState.new.name (by simpa using by simp [hnew])
      exact List.mem_map.2 ⟨(name, .folder), (Disk.mem_children hd).2 hfolder, rfl⟩

end Maildir

/-! ## Messages -/

/-- Whether a file's name begins with no dot. -/
def Slot.IsVisible (s : Slot) : Prop := s.name.head? ≠ some '.'

/-- Whether a file stands at a slot. -/
def Slot.IsTaken (place : Path) (d : Disk) (s : Slot) : Prop :=
  ∃ f, d.item? (place ++ s.names) = some (.file f)

namespace Folder

variable {name : Text} {listing : Listing} {es : List Entry} {e : Entry}

theorem mem_messagesOf (hd : d.Sound) (hroot : d.resolve root = .ok place) (hname : IsName name)
    {st : ReadState} (h : messagesOf ⟨root, name⟩ listing d st = .ok es) :
    e ∈ es ↔ ∃ s : Slot, s.folder = name ∧ s.state = st ∧ s.IsVisible ∧ s.IsTaken place d ∧
      e = s.entry root := by
  have hproper := isName_of_mem_pair hname st.isName_name
  cases hlist : d.list (Folder.statePath ⟨root, name⟩ st) with
  | error e => simp [messagesOf, hlist, ofDisk, bind, Except.bind] at h
  | ok l =>
    obtain ⟨q, hq, hfolder, rfl⟩ := Disk.list_eq_ok hlist
    rw [statePath_eq hname, Disk.resolve_below hroot] at hq
    obtain rfl := Disk.eq_append_of_walk hproper hq
    simp only [messagesOf, hlist, ofDisk, bind, Except.bind, pure, Except.pure,
      Except.ok.injEq] at h
    rw [← h, List.mem_map]
    simp only [List.mem_filter, (listing.perm _ _).mem_iff, List.mem_map, Prod.exists,
      exists_and_right, exists_eq_right]
    constructor
    · rintro ⟨n, ⟨⟨i, hchild, hfile⟩, hdot⟩, rfl⟩
      have hitem := (Disk.mem_children hd).1 hchild
      cases i with
      | folder => simp at hfile
      | file f =>
        have hn : IsName n := hd.name _ n (by rw [hitem]; rfl)
        have hvisible : n.head? ≠ some '.' := by simpa using hdot
        refine ⟨⟨name, st, n, hname, hn⟩, rfl, rfl, hvisible, ⟨f, ?_⟩, rfl⟩
        rw [List.append_assoc] at hitem
        exact hitem
    · rintro ⟨s, rfl, rfl, hvisible, ⟨f, hf⟩, rfl⟩
      have hdot : s.name.head? ≠ some '.' := hvisible
      refine ⟨s.name, ⟨⟨.file f, (Disk.mem_children hd).2 ?_, rfl⟩, by simpa using hdot⟩, rfl⟩
      rw [List.append_assoc]
      exact hf

theorem messages_eq_ok {f : Folder} (h : f.messages listing d = .ok es) :
    ∃ unseen seen, f.messagesOf listing d .new = .ok unseen ∧
      f.messagesOf listing d .cur = .ok seen ∧ es = unseen ++ seen := by
  cases hnew : f.messagesOf listing d .new with
  | error e => simp [messages, hnew, bind, Except.bind] at h
  | ok unseen =>
    cases hcur : f.messagesOf listing d .cur with
    | error e => simp [messages, hnew, hcur, bind, Except.bind] at h
    | ok seen =>
      simp only [messages, hnew, hcur, bind, Except.bind, pure, Except.pure,
        Except.ok.injEq] at h
      exact ⟨unseen, seen, rfl, rfl, h.symm⟩

/-- The messages of a folder are the files at its slots whose names begin with no dot. -/
theorem mem_messages (hd : d.Sound) (hroot : d.resolve root = .ok place) (hname : IsName name)
    (h : messages ⟨root, name⟩ listing d = .ok es) :
    e ∈ es ↔ ∃ s : Slot, s.folder = name ∧ s.IsVisible ∧ s.IsTaken place d ∧
      e = s.entry root := by
  obtain ⟨unseen, seen, hunseen, hseen, rfl⟩ := messages_eq_ok h
  rw [List.mem_append, mem_messagesOf hd hroot hname hunseen,
    mem_messagesOf hd hroot hname hseen]
  constructor
  · rintro (⟨s, hs, -, hrest⟩ | ⟨s, hs, -, hrest⟩)
    · exact ⟨s, hs, hrest⟩
    · exact ⟨s, hs, hrest⟩
  · rintro ⟨s, hs, hrest⟩
    cases hst : s.state with
    | new => exact Or.inl ⟨s, hs, hst, hrest⟩
    | cur => exact Or.inr ⟨s, hs, hst, hrest⟩

/-- The messages of one state can be listed where there is a place for them. -/
theorem exists_messagesOf (hd : d.Sound)
    (hroot : d.resolve root = .ok place) (hname : IsName name) (listing : Listing)
    {s : ReadState} (h : d.item? (place ++ [name, s.name]) = some .folder) :
    ∃ es, messagesOf ⟨root, name⟩ listing d s = .ok es := by
  have hproper := isName_of_mem_pair hname s.isName_name
  have hresolve : d.resolve (Folder.statePath ⟨root, name⟩ s) = .ok (place ++ [name, s.name]) := by
    rw [statePath_eq hname, Disk.resolve_below hroot]
    exact Disk.walk_of_item? hd hproper (by simp [h])
  rw [messagesOf, Disk.list_eq_of_folder hresolve h]
  exact ⟨_, rfl⟩

/-- The messages of a listed folder can be listed. -/
theorem exists_messages (hd : d.Sound)
    (hroot : d.resolve root = .ok place) (listing : Listing) (h : Listed place d name) :
    ∃ es, messages ⟨root, name⟩ listing d = .ok es := by
  obtain ⟨hname, -, hnew, hcur⟩ := h
  obtain ⟨unseen, hunseen⟩ := exists_messagesOf hd hroot hname listing hnew
  obtain ⟨seen, hseen⟩ := exists_messagesOf hd hroot hname listing hcur
  exact ⟨unseen ++ seen, by rw [messages, hunseen, hseen]; rfl⟩

end Folder

/-! ## Message files, seen from outside -/

namespace Maildir

/-- Whether a message file is at a slot of a maildir. -/
def HasMessage (m : Maildir) (d : Disk) (s : Slot) : Prop :=
  ∃ f, d.file (m.root ++ s.names) = .ok f

/-- Whether a message file is in a folder that is listed. -/
def Lists (m : Maildir) (d : Disk) (s : Slot) : Prop :=
  (∃ fs, m.folders d = .ok fs ∧ m.folder s.folder ∈ fs) ∧ m.HasMessage d s

variable {m : Maildir}

theorem hasMessage_iff (hd : d.Sound) (hroot : d.resolve m.root = .ok place) (s : Slot) :
    m.HasMessage d s ↔ s.IsTaken place d :=
  exists_congr fun _ => Disk.file_below hd hroot s.isName_of_mem_names

theorem lists_iff (hd : d.Sound) (hroot : d.resolve m.root = .ok place) (s : Slot) :
    m.Lists d s ↔ Listed place d s.folder ∧ s.IsTaken place d := by
  rw [Lists, hasMessage_iff hd hroot]
  constructor
  · rintro ⟨⟨fs, hfs, hmem⟩, htaken⟩
    exact ⟨((mem_folders hd hroot hfs).1 hmem).2, htaken⟩
  · rintro ⟨hlisted, htaken⟩
    have hthere : (d.item? (place ++ [s.folder, ReadState.new.name])).isSome := by
      simp [hlisted.2.2.1]
    obtain ⟨fs, hfs⟩ := exists_folders hroot (hd.ancestor place (by simp) hthere)
    exact ⟨⟨fs, hfs, (mem_folders hd hroot hfs).2 ⟨rfl, hlisted⟩⟩, htaken⟩

/-- Where no other file is on the disk, there is one message only. -/
theorem eq_of_only_file (hd : d.Sound) (hroot : d.resolve m.root = .ok place) {s t : Slot}
    (honly : ∀ e ∈ d.items, e.2 ≠ .folder → e.1 = place ++ t.names) (hs : m.HasMessage d s) :
    s = t := by
  obtain ⟨f, hf⟩ := (hasMessage_iff hd hroot s).1 hs
  rw [Disk.item?_of_ne_nil _ (by simp [Slot.names])] at hf
  have hpath := honly _ (mem_of_lookup hf) (by simp)
  exact Slot.names_inj (List.append_cancel_left hpath)

end Maildir

/-! ### A maildir with one message -/

/-- A message with a subject. -/
def sampleLetter : Bytes := Utf8.encode "Subject: s\n\nbody\n"

/-- A disk that is a maildir of two folders, with one message in one of them. -/
def sampleDisk : Disk := (Disk.empty 0).plant [] (.folder
  [("INBOX", .folder [("new", .folder []),
      ("cur", .folder [("1.a:2,S", .file sampleLetter none)]),
      ("tmp", .folder [])]),
    ("work", .folder [("new", .folder []), ("cur", .folder [])])])

/-- Where the message is. -/
def sampleSlot : Slot := ⟨"INBOX", .cur, "1.a:2,S", by decide, by decide⟩

theorem sound_sampleDisk : sampleDisk.Sound := Disk.sound_plant 0 (by decide)

theorem read_sampleDisk : sampleDisk.read sampleSlot.names = .ok sampleLetter := by
  rfl

/-- There is no other message. -/
theorem eq_sampleSlot {s : Slot} (hs : Maildir.HasMessage ⟨[], .byName⟩ sampleDisk s) :
    s = sampleSlot :=
  Maildir.eq_of_only_file sound_sampleDisk (m := ⟨[], .byName⟩) rfl (by decide) hs

end Mailroom
