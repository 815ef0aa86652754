import Mailroom.Maildir
import Mailroom.Proofs.Disk.Sound
import Mailroom.Proofs.Text.Pieces

/-!
# Places for messages

A `Slot` is a place for a message file: a mail folder, a state and the name of the file.  It
carries the proof that its names are proper ones, so that it is the same thing as a path below
the maildir.

* `Slot.entry` is the message at a slot; `Slot.path_entry` says where it is.
* `Slot.names_inj` parts any two slots, and `Slot.temporary_ne_names` parts them from what is
  being written.
-/

namespace Mailroom

/-! ## Names as paths -/

/-- Whether a text is one step of a path; `.` and `..` are steps as well. -/
def IsStep (t : Text) : Prop := t ≠ [] ∧ '/' ∉ t

theorem IsName.isStep {t : Text} (h : IsName t) : IsStep t := ⟨h.1, h.2.2.2⟩

namespace Path

theorem names_of_isStep {n : Text} (h : IsStep n) : names n = [n] := by
  have hpieces : Text.pieces (· == '/') n = [n] := by
    refine Text.pieces_of_none fun c hc => ?_
    simp only [beq_eq_false_iff_ne]
    rintro rfl
    exact h.2 hc
  simp [names, hpieces, h.1]

/-- A step leads on from a place. -/
theorem join_of_isStep (p : Path) {n : Text} (h : IsStep n) : join p n = p ++ [n] := by
  cases n with
  | nil => exact absurd rfl h.1
  | cons c cs =>
    have hc : c ≠ '/' := by
      rintro rfl
      exact h.2 (by simp)
    rw [← names_of_isStep h]
    unfold join
    split
    · rename_i heq
      exact absurd (List.cons.inj heq).1 hc
    · rfl

/-- A proper name leads one step on from a place. -/
theorem join_of_isName (p : Path) {n : Text} (h : IsName n) : join p n = p ++ [n] :=
  join_of_isStep p h.isStep

end Path

namespace ReadState

theorem isName_name (s : ReadState) : IsName s.name := by cases s <;> decide

theorem name_inj {s t : ReadState} (h : s.name = t.name) : s = t := by
  cases s <;> cases t <;> first | rfl | exact absurd h (by decide)

theorem name_ne_temporaryName (s : ReadState) : s.name ≠ temporaryName := by
  cases s <;> decide

end ReadState

theorem isName_temporaryName : IsName temporaryName := by decide

theorem isName_of_mem_pair {a b : Text} (ha : IsName a) (hb : IsName b) :
    ∀ n ∈ [a, b], IsName n := by
  intro n hn
  simp only [List.mem_cons, List.not_mem_nil, or_false] at hn
  rcases hn with rfl | rfl
  · exact ha
  · exact hb

/-- The last two names of a path are told by it. -/
theorem pair_eq_of_append {p q : Path} {a b a' b' : Text} (h : p ++ [a, b] = q ++ [a', b']) :
    a = a' ∧ b = b' := by
  have hend := (List.append_inj' h rfl).2
  simpa only [List.cons.injEq, and_true] using hend

namespace Entry

@[simp] theorem name_ofName (f : Folder) (s : ReadState) (n : Text) : (ofName f s n).name = n := by
  unfold ofName
  split
  · rename_i key flags hcut
    exact (Text.cut_eq_some hcut).1.symm
  · rfl

@[simp] theorem folder_ofName (f : Folder) (s : ReadState) (n : Text) :
    (ofName f s n).folder = f := by
  unfold ofName
  split <;> rfl

@[simp] theorem state_ofName (f : Folder) (s : ReadState) (n : Text) :
    (ofName f s n).state = s := by
  unfold ofName
  split <;> rfl

@[simp] theorem known_ofName (f : Folder) (s : ReadState) (n : Text) :
    (ofName f s n).known = none := by
  unfold ofName
  split <;> rfl

/-- In another folder, a message is the one of the same name there. -/
theorem ofName_with_folder (f g : Folder) (s : ReadState) (n : Text) :
    { ofName f s n with folder := g, known := none } = ofName g s n := by
  unfold ofName
  split <;> rfl

theorem ofName_with_known (f : Folder) (s : ReadState) (n : Text) :
    { ofName f s n with known := none } = ofName f s n := by
  unfold ofName
  split <;> rfl

end Entry

/-! ## Slots -/

/-- A place for a message file. -/
structure Slot where
  /-- The name of the mail folder. -/
  folder : Text
  /-- The state of the message. -/
  state : ReadState
  /-- The name of the file. -/
  name : Text
  /-- The folder has a proper name. -/
  isName_folder : IsName folder
  /-- The file has a proper name. -/
  isName_name : IsName name
  deriving DecidableEq

namespace Slot

/-- The names that lead to the slot from the maildir. -/
def names (s : Slot) : Path := [s.folder, s.state.name, s.name]

/-- The names that lead to the file that is written before it takes the slot. -/
def temporary (s : Slot) : Path := [s.folder, temporaryName, s.name]

/-- The slot of the same state and name in another folder. -/
def within (s : Slot) (folder : Text) (h : IsName folder) : Slot :=
  { s with folder := folder, isName_folder := h }

/-- The message at a slot of a maildir. -/
def entry (root : Path) (s : Slot) : Entry := .ofName ⟨root, s.folder⟩ s.state s.name

theorem names_inj {s t : Slot} (h : s.names = t.names) : s = t := by
  obtain ⟨f, st, n, hf, hn⟩ := s
  obtain ⟨f', st', n', hf', hn'⟩ := t
  simp only [names, List.cons.injEq, and_true] at h
  obtain ⟨rfl, hst, rfl⟩ := h
  obtain rfl := ReadState.name_inj hst
  rfl

theorem eq_of_same {s t : Slot} (hfolder : s.folder = t.folder) (hstate : s.state = t.state)
    (hname : s.name = t.name) : s = t :=
  names_inj (by rw [names, names, hfolder, hstate, hname])

theorem isName_of_mem_names (s : Slot) : ∀ n ∈ s.names, IsName n := by
  intro n hn
  simp only [names, List.mem_cons, List.not_mem_nil, or_false] at hn
  rcases hn with rfl | rfl | rfl
  · exact s.isName_folder
  · exact s.state.isName_name
  · exact s.isName_name

theorem isName_of_mem_temporary (s : Slot) : ∀ n ∈ s.temporary, IsName n := by
  intro n hn
  simp only [temporary, List.mem_cons, List.not_mem_nil, or_false] at hn
  rcases hn with rfl | rfl | rfl
  · exact s.isName_folder
  · exact isName_temporaryName
  · exact s.isName_name

/-- What is being written never has the place of a message. -/
theorem temporary_ne_names (s t : Slot) : s.temporary ≠ t.names := by
  intro h
  simp only [temporary, names, List.cons.injEq, and_true] at h
  exact t.state.name_ne_temporaryName h.2.1.symm

section Entry

variable (root : Path) (s : Slot)

@[simp] theorem folder_entry : (s.entry root).folder = ⟨root, s.folder⟩ := by simp [entry]

@[simp] theorem state_entry : (s.entry root).state = s.state := by simp [entry]

@[simp] theorem name_entry : (s.entry root).name = s.name := by simp [entry]

theorem path_folder : Folder.path ⟨root, s.folder⟩ = root ++ [s.folder] :=
  Path.join_of_isName root s.isName_folder

theorem pathIn_entry {g : Text} (hg : IsName g) :
    (s.entry root).pathIn ⟨root, g⟩ = root ++ (s.within g hg).names := by
  rw [Entry.pathIn, name_entry, Path.join_of_isName _ s.isName_name, Folder.statePath,
    Folder.path, Path.join_of_isName _ hg, state_entry]
  simp [names, within]

theorem path_entry : (s.entry root).path = root ++ s.names := by
  rw [Entry.path, folder_entry]
  exact pathIn_entry root s s.isName_folder

theorem entry_inj {root : Path} {s t : Slot} (h : s.entry root = t.entry root) : s = t := by
  have hpath : root ++ s.names = root ++ t.names := by rw [← path_entry, ← path_entry, h]
  exact names_inj (List.append_cancel_left hpath)

theorem known_entry : { s.entry root with known := none } = s.entry root :=
  Entry.ofName_with_known _ _ _

theorem entry_within {g : Text} (hg : IsName g) :
    { s.entry root with folder := ⟨root, g⟩, known := none } = (s.within g hg).entry root :=
  Entry.ofName_with_folder _ _ _ _

end Entry

end Slot

end Mailroom
