import Mailroom.Proofs.Clerk.Beside
import Mailroom.Proofs.Maildir.Enumeration

/-!
# The same folder, looked through twice

Which messages are met in a folder, and in which order, is told by the names of the files in it.
Two disks that show the same files in a folder, or the same files but one, let the same messages be
met there.

* `Maildir.folders_eq` gives the folders by their names, `Folder.messages_eq` the messages of a
  listed folder by the names of its files.
* `Folder.messages_within` compares a folder with a copy of it in another maildir,
  `Folder.messages_perm` two orders of the same files, and `Folder.messages_without` a folder with
  one that lacks a file.
-/

namespace Mailroom

/-- The messages of a state by the names of the files. -/
def Folder.shown (f : Folder) (listing : Listing) (names : List Text) (s : ReadState) :
    List Entry :=
  ((listing.arrange (f.statePath s) names).filter (fun n => n.head? != some '.')).map
    (Entry.ofName f s)

theorem Entry.within_ofName (f : Folder) (s : ReadState) (n : Text) (M' : Maildir) :
    (ofName f s n).within M' = ofName (M'.folder f.name) s n := by
  unfold ofName within
  split <;> rfl

/-- A message of one maildir is one of every other maildir at the same place. -/
theorem Entry.within_of_root {M M' : Maildir} (hroot : M'.root = M.root) {e : Entry} {name : Text}
    (h : e.folder = M.folder name) : e.within M' = e := by
  have hfolder : M'.folder e.folder.name = e.folder := by
    rw [h, Maildir.folder, Maildir.folder, hroot]
  rw [within, hfolder]

/-- Folders stay listed while no folder comes or goes. -/
theorem Disk.Patched.listed {d d' : Disk} {P : Patch} (h : d.Patched P d') {place : Path}
    {name : Text} : Listed place d' name ↔ Listed place d name := by
  rw [Listed, Listed, h.folders, h.folders]

/-! ## The folders -/

instance (place : Path) (d : Disk) (name : Text) : Decidable (Listed place d name) :=
  inferInstanceAs (Decidable (_ ∧ _ ∧ _ ∧ _))

namespace Maildir

variable {d d' : Disk} {place : Path} {M M' : Maildir} {fs : List Folder}

/-- Folders are listed in increasing order of their names. -/
theorem increasing_folders (hd : d.Sound) (h : M.folders d = .ok fs) :
    (fs.map Folder.name).Pairwise (· < ·) := by
  cases hlist : d.list M.root with
  | error e => simp [folders, hlist, ofDisk, bind, Except.bind] at h
  | ok l =>
    obtain ⟨q, -, -, rfl⟩ := Disk.list_eq_ok hlist
    simp only [folders, hlist, ofDisk, bind, Except.bind, pure, Except.pure, Except.ok.injEq] at h
    have hname : Folder.name ∘ M.folder = id := rfl
    rw [← h, List.filter_map, List.map_map, hname, List.map_id]
    exact ((Disk.increasing_children hd q).filter _).filter _

/-- What is listed is a folder of the maildir. -/
theorem listed_of_mem_folders (hd : d.Sound) (hplace : d.resolve M.root = .ok place)
    (hfs : M.folders d = .ok fs) : ∀ f ∈ fs, f = M.folder f.name ∧ Listed place d f.name := by
  intro f hf
  obtain ⟨hroot, hlisted⟩ := (mem_folders hd hplace hfs).1 hf
  exact ⟨by rw [folder, ← hroot], hlisted⟩

theorem mem_names_iff (hd : d.Sound) (hplace : d.resolve M.root = .ok place)
    (hfs : M.folders d = .ok fs) {n : Text} : n ∈ fs.map Folder.name ↔ Listed place d n := by
  rw [List.mem_map]
  constructor
  · rintro ⟨f, hf, rfl⟩
    exact (listed_of_mem_folders hd hplace hfs f hf).2
  · intro hn
    exact ⟨M.folder n, (mem_folders hd hplace hfs).2 ⟨rfl, hn⟩, rfl⟩

/-- The folders are told by the names that are listed. -/
theorem folders_eq (hd : d.Sound) (hplace : d.resolve M.root = .ok place)
    (hfolder : d.item? place = some .folder) {names : List Text} (hnames : names.Pairwise (· < ·))
    (h : ∀ n, Listed place d n ↔ n ∈ names) : M.folders d = .ok (names.map M.folder) := by
  obtain ⟨fs, hfs⟩ := exists_folders hplace hfolder
  have hsame : fs.map Folder.name = names := eq_of_increasing (increasing_folders hd hfs) hnames
    fun n => (mem_names_iff hd hplace hfs).trans (h n)
  rw [hfs, ← hsame, List.map_map]
  exact congrArg _ ((List.map_id _).symm.trans
    (List.map_congr_left fun f hf => (listed_of_mem_folders hd hplace hfs f hf).1))

/-- At the root of a disk, the names of the folders can be checked. -/
theorem folders_of_root (hd : d.Sound) (hroot : M.root = []) {names : List Text}
    (hnames : names.Pairwise (· < ·)) (hall : ∀ e ∈ d.items, ∃ n ∈ names, e.1.head? = some n)
    (hthere : ∀ n ∈ names, Listed [] d n) : M.folders d = .ok (names.map M.folder) := by
  have hplace : d.resolve M.root = .ok [] := by
    rw [hroot]
    rfl
  refine folders_eq hd hplace (by simp) hnames fun n => ⟨fun hn => ?_, hthere n⟩
  have hnew := hn.2.2.1
  rw [Disk.item?_of_ne_nil _ (by simp)] at hnew
  obtain ⟨m, hm, heq⟩ := hall _ (mem_of_lookup hnew)
  obtain rfl : n = m := Option.some.inj heq
  exact hm

/-- While no folder comes or goes, the same folders are listed. -/
theorem folders_of_patched {P : Patch} (hd : d.Sound) (h : d.Patched P d')
    (hroot : M'.root = M.root) (hfs : M.folders d = .ok fs) : M'.folders d' = .ok fs := by
  obtain ⟨place, hplace, hfolder⟩ := place_of_folders hfs
  have hplace' : d'.resolve M'.root = .ok place := by
    rw [hroot]
    exact (h.resolve _ _).2 hplace
  have hfs' := folders_eq h.sound hplace' ((h.folders place).2 hfolder) (increasing_folders hd hfs)
    fun n => h.listed.trans (mem_names_iff hd hplace hfs).symm
  have hsame : fs.map (M'.folder ∘ Folder.name) = fs := by
    refine (List.map_congr_left fun f hf => ?_).trans (List.map_id fs)
    show M'.folder f.name = f
    rw [folder, hroot]
    exact (listed_of_mem_folders hd hplace hfs f hf).1.symm
  rw [hfs', List.map_map, hsame]

end Maildir

/-! ## The messages of a folder -/

namespace Folder

variable {d d' : Disk} {place place' : Path} {name : Text} {M M' : Maildir}

/-- The messages of a listed folder by the names of its files. -/
theorem messages_eq (hd : d.Sound) (hroot : d.resolve M.root = .ok place)
    (hlisted : Listed place d name) : (M.folder name).messages M.listing d =
      .ok ((M.folder name).shown M.listing (d.fileNames (place ++ [name, ReadState.new.name])) .new ++
        (M.folder name).shown M.listing (d.fileNames (place ++ [name, ReadState.cur.name])) .cur) := by
  have hstate : ∀ s : ReadState, d.item? (place ++ [name, s.name]) = some .folder →
      (M.folder name).messagesOf M.listing d s =
        .ok ((M.folder name).shown M.listing (d.fileNames (place ++ [name, s.name])) s) := by
    intro s hs
    have hproper := isName_of_mem_pair hlisted.1 s.isName_name
    have hresolve : d.resolve ((M.folder name).statePath s) = .ok (place ++ [name, s.name]) := by
      rw [Maildir.folder, statePath_eq hlisted.1, Disk.resolve_below hroot]
      exact Disk.walk_of_item? hd hproper (by simp [hs])
    rw [messagesOf, Disk.list_eq_of_folder hresolve hs]
    rfl
  rw [messages, hstate .new hlisted.2.2.1, hstate .cur hlisted.2.2.2]
  rfl

/-- A folder is listed where the same can be seen. -/
theorem listed_congr (hview : ∀ ns, d'.view (place' ++ name :: ns) = d.view (place ++ name :: ns)) :
    Listed place' d' name ↔ Listed place d name := by
  have hfolder : ∀ s : ReadState, d'.item? (place' ++ [name, s.name]) = some .folder ↔
      d.item? (place ++ [name, s.name]) = some .folder := by
    intro s
    rw [← Disk.view_eq_folder, hview, Disk.view_eq_folder]
  rw [Listed, Listed, hfolder, hfolder]

section Copies

variable (hd : d.Sound) (hd' : d'.Sound) (hroot : d.resolve M.root = .ok place)
  (hroot' : d'.resolve M'.root = .ok place') (hlisted : Listed place d name)

include hd hd' hroot hroot' hlisted

/-- In a copy of a folder, the same messages are met in the same order. -/
theorem messages_within
    (hview : ∀ ns, d'.view (place' ++ name :: ns) = d.view (place ++ name :: ns))
    (hlisting : ∀ s l, M'.listing.arrange ((M'.folder name).statePath s) l =
      M.listing.arrange ((M.folder name).statePath s) l) :
    ∃ es, (M.folder name).messages M.listing d = .ok es ∧
      (M'.folder name).messages M'.listing d' = .ok (es.map (Entry.within · M')) := by
  have hnames : ∀ s : ReadState, d'.fileNames (place' ++ [name, s.name]) =
      d.fileNames (place ++ [name, s.name]) := by
    intro s
    refine Disk.fileNames_congr hd hd' fun n => ?_
    simpa using hview [s.name, n]
  have hshown : ∀ names s, (M'.folder name).shown M'.listing names s =
      ((M.folder name).shown M.listing names s).map (Entry.within · M') := by
    intro names s
    rw [shown, shown, hlisting, List.map_map]
    exact List.map_congr_left fun n _ => (Entry.within_ofName (M.folder name) s n M').symm
  refine ⟨_, messages_eq hd hroot hlisted, ?_⟩
  rw [messages_eq hd' hroot' ((listed_congr hview).2 hlisted), hnames, hnames, List.map_append,
    hshown, hshown]

/-- Whatever the order in which the files are met, the messages are the same. -/
theorem messages_perm (hplace : M'.root = M.root)
    (hview : ∀ ns, d'.view (place' ++ name :: ns) = d.view (place ++ name :: ns)) :
    ∃ es es', (M.folder name).messages M.listing d = .ok es ∧
      (M'.folder name).messages M'.listing d' = .ok es' ∧ es.Perm es' := by
  have hfolder : M'.folder name = M.folder name := by rw [Maildir.folder, Maildir.folder, hplace]
  have hshown : ∀ s : ReadState,
      ((M.folder name).shown M.listing (d.fileNames (place ++ [name, s.name])) s).Perm
        ((M'.folder name).shown M'.listing (d'.fileNames (place' ++ [name, s.name])) s) := by
    intro s
    have hnames : d'.fileNames (place' ++ [name, s.name]) = d.fileNames (place ++ [name, s.name]) :=
      Disk.fileNames_congr hd hd' fun n => by simpa using hview [s.name, n]
    rw [hfolder, hnames]
    exact (((M.listing.perm _ _).trans (M'.listing.perm _ _).symm).filter _).map _
  exact ⟨_, _, messages_eq hd hroot hlisted,
    messages_eq hd' hroot' ((listed_congr hview).2 hlisted), (hshown .new).append (hshown .cur)⟩

end Copies

end Folder

/-! ## A file that is not there -/

/-- Whether a listing arranges files like another one, but for a file that is not in a folder. -/
structure Listing.Omits (listing listing' : Listing) (p : Path) (name : Text) : Prop where
  /-- In the folder, the others are met in the same order. -/
  here : ∀ l, l.Pairwise (· < ·) → name ∈ l →
    listing'.arrange p (l.filter (· ≠ name)) = (listing.arrange p l).filter (· ≠ name)
  /-- In other folders, all are met in the same order. -/
  elsewhere : ∀ q, q ≠ p → ∀ l, listing'.arrange q l = listing.arrange q l

namespace Folder

variable {d d' : Disk} {place : Path} {M M' : Maildir} {s : Slot}

/-- Among the messages by their names, one can be left out like its name. -/
theorem filter_shown (f : Folder) (listing : Listing) (names : List Text) (st : ReadState)
    (name : Text) : (f.shown listing names st).filter (· ≠ Entry.ofName f st name) =
      (((listing.arrange (f.statePath st) names).filter (· ≠ name)).filter
        (fun n => n.head? != some '.')).map (Entry.ofName f st) := by
  have hinj : ∀ n, Entry.ofName f st n = Entry.ofName f st name ↔ n = name := by
    intro n
    constructor
    · intro h
      rw [← Entry.name_ofName f st n, h, Entry.name_ofName]
    · rintro rfl
      rfl
  rw [shown, List.filter_map, List.filter_filter, List.filter_filter]
  refine congrArg _ (List.filter_congr fun n _ => ?_)
  simp only [Function.comp, ne_eq, hinj]
  exact Bool.and_comm _ _

section Missing

variable (hd : d.Sound) (hd' : d'.Sound) (hgone : d'.item? (place ++ s.names) = none)
  (htaken : s.IsTaken place d) (hview : ∀ q, q ≠ place ++ s.names → d'.view q = d.view q)
  (hlisting : M.listing.Omits M'.listing (M.root ++ [s.folder, s.state.name]) s.name)

include hd hd' hgone htaken hview hlisting

/-- Where a file is missing, the others are met in the same order. -/
theorem shown_here :
    (M.folder s.folder).shown M'.listing (d'.fileNames (place ++ [s.folder, s.state.name]))
        s.state =
      ((M.folder s.folder).shown M.listing (d.fileNames (place ++ [s.folder, s.state.name]))
        s.state).filter (· ≠ s.entry M.root) := by
  have hat : place ++ s.names = (place ++ [s.folder, s.state.name]) ++ [s.name] := by
    simp [Slot.names]
  have hnames := Disk.fileNames_without hd hd' (hat ▸ hgone) fun n hn => hview _ <| by
    rw [hat]
    simpa using hn
  have hmem : s.name ∈ d.fileNames (place ++ [s.folder, s.state.name]) := by
    rw [Disk.mem_fileNames hd, ← hat]
    exact htaken
  have hpath : (M.folder s.folder).statePath s.state = M.root ++ [s.folder, s.state.name] :=
    statePath_eq s.isName_folder s.state
  have harrange := hlisting.here _ (Disk.increasing_fileNames hd _) hmem
  rw [← hpath] at harrange
  have hentry : s.entry M.root = Entry.ofName (M.folder s.folder) s.state s.name := rfl
  rw [hentry, filter_shown, hnames, shown, harrange]

omit hgone htaken in
/-- Elsewhere, all are met in the same order, and the missing one was not among them. -/
theorem shown_elsewhere {name : Text} (hname : IsName name) {st : ReadState}
    (hother : ¬ (s.folder = name ∧ s.state = st)) :
    (M.folder name).shown M'.listing (d'.fileNames (place ++ [name, st.name])) st =
      ((M.folder name).shown M.listing (d.fileNames (place ++ [name, st.name])) st).filter
        (· ≠ s.entry M.root) := by
  have hdir : M.root ++ [name, st.name] ≠ M.root ++ [s.folder, s.state.name] := by
    intro heq
    obtain ⟨hfolder, hst⟩ := pair_eq_of_append heq
    exact hother ⟨hfolder.symm, ReadState.name_inj hst.symm⟩
  have hnames : d'.fileNames (place ++ [name, st.name]) = d.fileNames (place ++ [name, st.name]) := by
    refine Disk.fileNames_congr hd hd' fun n => hview _ fun heq => hother ?_
    simp only [Slot.names, List.append_assoc, List.append_cancel_left_eq, List.cons_append,
      List.nil_append, List.cons.injEq] at heq
    exact ⟨heq.1.symm, ReadState.name_inj heq.2.1.symm⟩
  have hpath : (M.folder name).statePath st = M.root ++ [name, st.name] := statePath_eq hname st
  have hall : ∀ e ∈ (M.folder name).shown M.listing (d.fileNames (place ++ [name, st.name])) st,
      decide (e ≠ s.entry M.root) = true := by
    intro e he
    obtain ⟨n, -, rfl⟩ := List.mem_map.1 he
    refine decide_eq_true fun heq => hother ⟨?_, ?_⟩
    · have hfolder := congrArg (fun e => e.folder.name) heq
      simpa [Maildir.folder] using hfolder.symm
    · have hst := congrArg Entry.state heq
      simpa using hst.symm
  rw [List.filter_eq_self.2 hall, hnames, shown, shown, hpath, hlisting.elsewhere _ hdir]

/-- Where one file is missing, all other messages are met, and in the same order. -/
theorem messages_without (hroot : d.resolve M.root = .ok place)
    (hroot' : d'.resolve M'.root = .ok place) (hplace : M'.root = M.root) {name : Text}
    (hlisted : Listed place d name) :
    ∃ es, (M.folder name).messages M.listing d = .ok es ∧
      (M'.folder name).messages M'.listing d' = .ok (es.filter (· ≠ s.entry M.root)) := by
  have hfolder : M'.folder name = M.folder name := by rw [Maildir.folder, Maildir.folder, hplace]
  have hstate : ∀ st : ReadState,
      (M'.folder name).shown M'.listing (d'.fileNames (place ++ [name, st.name])) st =
        ((M.folder name).shown M.listing (d.fileNames (place ++ [name, st.name])) st).filter
          (· ≠ s.entry M.root) := by
    intro st
    rw [hfolder]
    by_cases hhere : s.folder = name ∧ s.state = st
    · obtain ⟨rfl, rfl⟩ := hhere
      exact shown_here hd hd' hgone htaken hview hlisting
    · exact shown_elsewhere hd hd' hview hlisting hlisted.1 hhere
  have hlisted' : Listed place d' name := by
    have hfolders : ∀ t : ReadState, d.item? (place ++ [name, t.name]) = some .folder →
        d'.item? (place ++ [name, t.name]) = some .folder := by
      intro t ht
      have hne : place ++ [name, t.name] ≠ place ++ s.names := by
        intro heq
        simp [Slot.names] at heq
      rw [← Disk.view_eq_folder, hview _ hne, Disk.view_eq_folder]
      exact ht
    exact ⟨hlisted.1, hlisted.2.1, hfolders .new hlisted.2.2.1, hfolders .cur hlisted.2.2.2⟩
  refine ⟨_, messages_eq hd hroot hlisted, ?_⟩
  rw [messages_eq hd' hroot' hlisted', hstate, hstate, List.filter_append]

end Missing

end Folder

end Mailroom
