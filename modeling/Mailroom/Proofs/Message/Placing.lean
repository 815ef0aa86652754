import Mailroom.Proofs.Message.Standing

/-!
# Where a message is put

What becomes of the disk when the message at a slot is written anew or moved.

* `Slot.stands_entry` says where the message at a slot stands, and `Slot.hasRoomAt_iff` what room
  beside it is there.
* `Message.moveTo_cases` lists what moving can come to: nothing happens, or the file goes to the
  slot of the same state and name in the other folder.
-/

namespace Mailroom

namespace Slot

/-- Whether there is room to write a message anew: a folder for it, and no folder of its name in
there. -/
def HasRoom (place : Path) (d : Disk) (s : Slot) : Prop :=
  d.item? (place ++ [s.folder, temporaryName]) = some .folder ∧
    d.item? (place ++ s.temporary) ≠ some .folder

/-- The same of a maildir, seen from outside. -/
def CanRewrite (m : Maildir) (d : Disk) (s : Slot) : Prop :=
  d.isFolder (m.root ++ [s.folder, temporaryName]) = true ∧
    d.isFolder (m.root ++ s.temporary) = false

theorem canRewrite_iff {m : Maildir} {place : Path} {d : Disk} (hd : d.Sound)
    (hroot : d.resolve m.root = .ok place) (s : Slot) :
    CanRewrite m d s ↔ s.HasRoom place d := by
  rw [CanRewrite, HasRoom, ← Bool.not_eq_true,
    Disk.isFolder_below hd hroot (isName_of_mem_pair s.isName_folder isName_temporaryName),
    Disk.isFolder_below hd hroot s.isName_of_mem_temporary]

/-- Whether there is room depends on the folders only. -/
theorem HasRoom.of_folders {place : Path} {d d' : Disk} {s : Slot} (h : s.HasRoom place d)
    (hd : ∀ q, d'.item? q = some .folder ↔ d.item? q = some .folder) : s.HasRoom place d' :=
  ⟨(hd _).2 h.1, fun hf => h.2 ((hd _).1 hf)⟩

theorem append_names_inj {place : Path} {s t : Slot} (h : place ++ s.names = place ++ t.names) :
    s = t := names_inj (List.append_cancel_left h)

theorem append_names_ne_temporary (place : Path) (s t : Slot) :
    place ++ s.names ≠ place ++ t.temporary :=
  fun h => temporary_ne_names t s (List.append_cancel_left h).symm

section Stands

variable {d : Disk} {root place : Path} {s : Slot} {f : File}

/-- A folder of the maildir is at its place, if anything is in it. -/
theorem resolve_folder (hd : d.Sound) (hroot : d.resolve root = .ok place) {g n : Text}
    (hg : IsName g) (h : (d.item? (place ++ [g, n])).isSome) :
    d.resolve (Folder.path ⟨root, g⟩) = .ok (place ++ [g]) := by
  have hsplit : place ++ [g, n] = place ++ [g] ++ [n] := by simp
  have hfolder := hd.parent (place ++ [g]) n (hsplit ▸ h)
  have hnames : ∀ m ∈ [g], IsName m := fun m hm => List.mem_singleton.1 hm ▸ hg
  rw [Folder.path, Path.join_of_isName _ hg, Disk.resolve_below hroot]
  exact Disk.walk_of_item? hd hnames (by simp [hfolder])

/-- Nowhere else is it. -/
theorem eq_of_resolve_folder (hroot : d.resolve root = .ok place) {g : Text} (hg : IsName g)
    {q : Path} (h : d.resolve (Folder.path ⟨root, g⟩) = .ok q) : q = place ++ [g] := by
  have hnames : ∀ m ∈ [g], IsName m := fun m hm => List.mem_singleton.1 hm ▸ hg
  rw [Folder.path, Path.join_of_isName _ hg, Disk.resolve_below hroot] at h
  exact Disk.eq_append_of_walk hnames h

/-- The message at a slot stands there. -/
theorem stands_entry (hd : d.Sound) (hroot : d.resolve root = .ok place)
    (hs : d.item? (place ++ s.names) = some (.file f)) :
    (s.entry root).Stands (place ++ [s.folder]) f d := by
  have hfile : d.item? (place ++ [s.folder] ++ [s.state.name, s.name]) = some (.file f) := by
    simpa [names] using hs
  refine ⟨?_, ?_, ?_⟩
  · rw [name_entry]
    exact s.isName_name
  · rw [folder_entry]
    have hstate : d.item? (place ++ [s.folder, s.state.name]) = some .folder :=
      hd.parent _ s.name (by simpa using congrArg Option.isSome hfile)
    exact resolve_folder hd hroot s.isName_folder (n := s.state.name) (by simp [hstate])
  · rw [state_entry, name_entry]
    exact hfile

theorem hasRoomAt_iff : d.HasRoomAt (place ++ [s.folder]) s.name ↔ s.HasRoom place d := by
  simp [Disk.HasRoomAt, HasRoom, temporary]

end Stands

end Slot

namespace Message

variable {d : Disk} {m : Message} {root place : Path} {s : Slot} {f : File}

/-- Moving a message comes to nothing, or puts its file at the slot of the other folder. -/
theorem moveTo_cases (hd : d.Sound) (hroot : d.resolve root = .ok place)
    (hm : m.entry = s.entry root) (hs : d.item? (place ++ s.names) = some (.file f))
    {g : Text} (hg : IsName g) :
    (∃ r, moveTo ⟨root, g⟩ ⟨d, m⟩ = (r, ⟨d, m⟩) ∧
      ((∃ e, r = .error e) ∨ g = s.folder)) ∨
    (∃ d', moveTo ⟨root, g⟩ ⟨d, m⟩ =
        (.ok (), ⟨d', { m with entry := (s.within g hg).entry root }⟩) ∧
      g ≠ s.folder ∧ d.item? (place ++ [g, s.state.name]) = some .folder ∧
      d.Elsewhere [place ++ s.names, place ++ (s.within g hg).names] d' ∧
      d'.item? (place ++ s.names) = none ∧
      d'.item? (place ++ (s.within g hg).names) = some (.file f)) := by
  have hstands : m.entry.Stands (place ++ [s.folder]) f d := hm ▸ s.stands_entry hd hroot hs
  have hfolder : m.entry.folder = ⟨root, s.folder⟩ := by rw [hm, Slot.folder_entry]
  have hstate : m.entry.state = s.state := by rw [hm, Slot.state_entry]
  have hname : m.entry.name = s.name := by rw [hm, Slot.name_entry]
  rcases moveTo_of_stands hd hstands ⟨root, g⟩ with ⟨result, hstays, hwhy⟩ |
    ⟨hdest, q, hq, hthere, hmoved, helse, -⟩
  · refine Or.inl ⟨result, hstays, hwhy.symm.imp_right fun hsame => ?_⟩
    exact congrArg Folder.name (hsame.trans hfolder)
  · obtain rfl := Slot.eq_of_resolve_folder hroot hg hq
    have hne : g ≠ s.folder := fun h => hdest (by rw [hfolder, h])
    have hsource : place ++ [s.folder] ++ [m.entry.state.name, m.entry.name] =
        place ++ s.names := by simp [hstate, hname, Slot.names]
    have htarget : place ++ [g] ++ [m.entry.state.name, m.entry.name] =
        place ++ (s.within g hg).names := by simp [hstate, hname, Slot.names, Slot.within]
    rw [hsource, htarget] at hmoved helse
    have hitem := fun q => Disk.item?_renamed (d := d) (p := place ++ s.names)
      (q := place ++ (s.within g hg).names) (f := f) (by simp [Slot.names])
      (by simp [Slot.names]) q
    refine Or.inr ⟨_, ?_, hne, ?_, helse, ?_, ?_⟩
    · rw [hmoved, hm, Slot.entry_within root s hg]
    · rw [hstate] at hthere
      simpa using hthere
    · rw [hitem, if_neg ?_, if_pos rfl]
      intro h
      exact hne (congrArg Slot.folder (Slot.append_names_inj h)).symm
    · rw [hitem, if_pos rfl]

end Message

end Mailroom
