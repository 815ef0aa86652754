import Mailroom.Proofs.Disk.Changes
import Mailroom.Proofs.Keywords

/-!
# What can be seen of a disk

The identity of a file cannot be seen.  What can be seen at a path is a folder, or the content of a
file and the time of its last change.

* `Disk.view` is what can be seen at a path.
* A `Patch` says of every path whether it changed, and what can be seen there then;
  `Disk.Patched` says that a disk came from another one by such changes.
* `Disk.fileNames` are the files in a folder, which two disks share that show the same.
-/

namespace Mailroom

/-- What can be seen of an item. -/
inductive Look where
  /-- A folder. -/
  | folder
  /-- A file with its content and the time of its last change. -/
  | file (content : Bytes) (modified : Int)
  deriving DecidableEq, Repr

/-- What can be seen of an item. -/
def Item.look : Item → Look
  | .folder => .folder
  | .file f => .file f.content f.modified

namespace Disk

variable {d d₁ d' : Disk} {p q : Path}

/-- What can be seen at a path without `.` and `..`. -/
def view (d : Disk) (q : Path) : Option Look := (d.item? q).map Item.look

@[simp] theorem view_eq_none : d.view q = none ↔ d.item? q = none := by simp [view]

@[simp] theorem view_eq_folder : d.view q = some .folder ↔ d.item? q = some .folder := by
  unfold view
  cases d.item? q with
  | none => simp
  | some i => cases i <;> simp [Item.look]

theorem view_eq_file {content : Bytes} {modified : Int} :
    d.view q = some (.file content modified) ↔
      ∃ f, d.item? q = some (.file f) ∧ f.content = content ∧ f.modified = modified := by
  unfold view
  cases d.item? q with
  | none => simp
  | some i => cases i <;> simp [Item.look]

theorem view_of_file {f : File} (h : d.item? q = some (.file f)) :
    d.view q = some (.file f.content f.modified) := by
  rw [view, h]
  rfl

/-- Where the same can be seen, there is a file on one disk if there is one on the other. -/
theorem exists_file_congr {q' : Path} (h : d'.view q' = d.view q) :
    (∃ f, d'.item? q' = some (.file f)) ↔ ∃ f, d.item? q = some (.file f) := by
  have hfile : ∀ (d : Disk) (q : Path), (∃ f, d.item? q = some (.file f)) ↔
      ∃ content modified, d.view q = some (.file content modified) := by
    intro d q
    constructor
    · rintro ⟨f, hf⟩
      exact ⟨_, _, view_of_file hf⟩
    · rintro ⟨content, modified, hview⟩
      obtain ⟨f, hf, -⟩ := view_eq_file.1 hview
      exact ⟨f, hf⟩
  rw [hfile, hfile, h]

/-- Where the folders are the same, paths lead to the same places. -/
theorem resolve_congr (h : ∀ q, d'.item? q = some .folder ↔ d.item? q = some .folder)
    (p q : Path) : d'.resolve p = .ok q ↔ d.resolve p = .ok q :=
  ⟨fun hp => walk_of_same_folders (fun r hr => (h r).1 hr) hp,
    fun hp => walk_of_same_folders (fun r hr => (h r).2 hr) hp⟩

end Disk

/-! ## Patches -/

/-- What changed at each path: nothing, or there is now what is said, perhaps nothing. -/
abbrev Patch := Path → Option (Option Look)

namespace Patch

/-- No change. -/
def nothing : Patch := fun _ => none

/-- One change. -/
def single (p : Path) (look : Option Look) : Patch := fun q => if q = p then some look else none

/-- Changes after other changes. -/
def andThen (P P' : Patch) : Patch := fun q => (P' q).or (P q)

/-- What was at one path is at another. -/
def moving (source target : Path) (look : Look) : Patch :=
  (single source none).andThen (single target (some look))

theorem nothing_andThen (P : Patch) : nothing.andThen P = P := by
  funext q
  simp [andThen, nothing]

theorem andThen_nothing (P : Patch) : P.andThen nothing = P := by
  funext q
  simp [andThen, nothing]

/-- Changes that agree where they meet may be made in any order. -/
theorem andThen_comm {P P' : Patch} (h : ∀ q a b, P q = some a → P' q = some b → a = b) :
    P.andThen P' = P'.andThen P := by
  funext q
  unfold andThen
  cases hP : P q with
  | none => simp
  | some a =>
    cases hP' : P' q with
    | none => simp
    | some b => simp [h q a b hP hP']

theorem moving_eq {source target : Path} {look : Look} (q : Path) :
    moving source target look q = if q = target then some (some look)
      else if q = source then some none else none := by
  unfold moving andThen single
  split
  · rfl
  · simp

end Patch

namespace Disk

variable {d d₁ d' : Disk} {P P' : Patch}

/-- A file that got another name is not under the old one any more. -/
theorem item?_renamed_source {p q : Path} {f : File} (hp : p ≠ []) (hq : q ≠ []) :
    p = q ∨ (d.renamed p q f).item? p = none := by
  by_cases hpq : p = q
  · exact Or.inl hpq
  · exact Or.inr (by rw [item?_renamed hp hq, if_neg hpq, if_pos rfl])

/-- Two sound disks with the same folders, the second one with some changes. -/
structure Patched (P : Patch) (d d' : Disk) : Prop where
  /-- The disk is still sound. -/
  sound : d'.Sound
  /-- The time is the same. -/
  clock : d'.clock = d.clock
  /-- No folder came or went. -/
  folders : ∀ q, d'.item? q = some .folder ↔ d.item? q = some .folder
  /-- At every path there is what the changes say, or what there was. -/
  view : ∀ q, d'.view q = (P q).getD (d.view q)

namespace Patched

theorem refl (hd : d.Sound) : Patched .nothing d d := ⟨hd, rfl, fun _ => Iff.rfl, fun _ => rfl⟩

theorem trans (h : Patched P d d₁) (h' : Patched P' d₁ d') : Patched (P.andThen P') d d' := by
  refine ⟨h'.sound, h'.clock.trans h.clock, fun q => (h'.folders q).trans (h.folders q),
    fun q => ?_⟩
  rw [h'.view, h.view, Patch.andThen]
  cases P' q <;> rfl

theorem view_of_none (h : Patched P d d') {q : Path} (hq : P q = none) :
    d'.view q = d.view q := by
  rw [h.view, hq]
  rfl

theorem view_of_some (h : Patched P d d') {q : Path} {look : Option Look} (hq : P q = some look) :
    d'.view q = look := by
  rw [h.view, hq]
  rfl

/-- What is the same change from two disks leads to disks that differ like these two, if the order
of the changes does not matter. -/
theorem square {d₁' : Disk} (h : Patched P d d') (h₁ : Patched P' d d₁) (h₁' : Patched P' d' d₁')
    (hcomm : P.andThen P' = P'.andThen P) : Patched P d₁ d₁' := by
  refine ⟨h₁'.sound, ?_, fun q => ?_, fun q => ?_⟩
  · rw [h₁'.clock, h.clock, h₁.clock]
  · rw [h₁'.folders, h.folders, h₁.folders]
  · have hview := (h.trans h₁').view q
    rw [hcomm, Patch.andThen] at hview
    rw [hview, h₁.view]
    cases P q <;> rfl

theorem resolve (h : Patched P d d') (p q : Path) : d'.resolve p = .ok q ↔ d.resolve p = .ok q :=
  resolve_congr h.folders p q

/-- Disks that differ at one path and another, of which the first lost its file. -/
theorem of_elsewhere {source target : Path} {f : File} (h : d.Elsewhere [target, source] d')
    (htarget : d'.item? target = some (.file f))
    (hsource : source = target ∨ d'.item? source = none) :
    Patched (.moving source target (.file f.content f.modified)) d d' := by
  refine ⟨h.sound, h.clock, h.folders, fun q => ?_⟩
  rw [Patch.moving_eq]
  split
  · rename_i hq
    subst hq
    exact view_of_file htarget
  · rename_i hne
    split
    · rename_i hq
      subst hq
      exact view_eq_none.2 (hsource.resolve_left hne)
    · rename_i hne'
      rw [Disk.view, Disk.view, h.same q (by simp [hne, hne'])]
      rfl

/-- A disk that has lost a file. -/
theorem of_removeFile (hd : d.Sound) {p q : Path} {f : File} (hq : d.resolve p = .ok q)
    (hf : d.item? q = some (.file f)) (h : d.removeFile p = .ok d') :
    Patched (.single q none) d d' := by
  simp only [removeFile, hq, hf, bind, Except.bind, Except.ok.injEq] at h
  subst h
  have hne : q ≠ [] := by
    rintro rfl
    simp at hf
  have hitem := item?_drop d hne
  have hleaf : ∀ name, d.item? (q ++ [name]) = none := by
    intro name
    cases hchild : d.item? (q ++ [name]) with
    | none => rfl
    | some i =>
      have hfolder := hd.parent q name (by simp [hchild])
      rw [hf] at hfolder
      exact absurd hfolder (by simp)
  refine ⟨hd.drop hne hleaf, rfl, fun r => ?_, fun r => ?_⟩
  · rw [hitem]
    split
    · rename_i hr
      rw [hr, hf]
      simp
    · rfl
  · rw [Disk.view, hitem, Patch.single]
    split <;> rfl

end Patched

/-! ## The names in a folder -/

/-- The names of the files in a folder, in increasing order. -/
def fileNames (d : Disk) (p : Path) : List Text :=
  ((d.children p).filter (fun c => match c.2 with | .file _ => true | .folder => false)).map
    Prod.fst

/-- The names in a folder increase strictly. -/
theorem increasing_children (hd : d.Sound) (p : Path) :
    ((d.children p).map Prod.fst).Pairwise (· < ·) := by
  have hsorted : ((d.children p).map Prod.fst).Pairwise (fun a b => Text.le a b = true) := by
    refine List.pairwise_map.2 (List.pairwise_mergeSort ?_ ?_ _)
    · intro a b c hab hbc
      simp only [Text.le, Bool.not_eq_true', decide_eq_false_iff_not, List.not_lt] at hab hbc ⊢
      exact List.le_trans hab hbc
    · intro a b
      simp only [Text.le, Bool.or_eq_true, Bool.not_eq_true', decide_eq_false_iff_not,
        List.not_lt]
      exact List.le_total a.1 b.1
  refine hsorted.imp₂ ?_ (nodup_children hd p)
  intro a b hle hne
  simp only [Text.le, Bool.not_eq_true', decide_eq_false_iff_not] at hle
  rcases Std.lt_trichotomy a b with h | h | h
  · exact h
  · exact absurd h hne
  · exact absurd h hle

theorem increasing_fileNames (hd : d.Sound) (p : Path) : (d.fileNames p).Pairwise (· < ·) :=
  (increasing_children hd p).sublist (List.filter_sublist.map _)

theorem mem_fileNames (hd : d.Sound) {p : Path} {n : Text} :
    n ∈ d.fileNames p ↔ ∃ f, d.item? (p ++ [n]) = some (.file f) := by
  simp only [fileNames, List.mem_map, List.mem_filter, Prod.exists, exists_and_right,
    exists_eq_right]
  constructor
  · rintro ⟨i, hchild, hfile⟩
    have hitem := (mem_children hd).1 hchild
    cases i with
    | folder => simp at hfile
    | file f => exact ⟨f, hitem⟩
  · rintro ⟨f, hf⟩
    exact ⟨.file f, (mem_children hd).2 hf, rfl⟩

variable {p p' : Path}

theorem fileNames_eq (hd : d.Sound) {names : List Text} (hnames : names.Pairwise (· < ·))
    (h : ∀ n, (∃ f, d.item? (p ++ [n]) = some (.file f)) ↔ n ∈ names) : d.fileNames p = names :=
  eq_of_increasing (increasing_fileNames hd p) hnames fun n => (mem_fileNames hd).trans (h n)

/-- Two folders in which the same can be seen have files of the same names. -/
theorem fileNames_congr (hd : d.Sound) (hd' : d'.Sound)
    (h : ∀ n, d'.view (p' ++ [n]) = d.view (p ++ [n])) : d'.fileNames p' = d.fileNames p :=
  fileNames_eq hd' (increasing_fileNames hd p) fun n =>
    (exists_file_congr (h n)).trans (mem_fileNames hd).symm

/-- A folder that has lost a file has the files of the other names. -/
theorem fileNames_without (hd : d.Sound) (hd' : d'.Sound) {name : Text}
    (hgone : d'.item? (p ++ [name]) = none)
    (h : ∀ n, n ≠ name → d'.view (p ++ [n]) = d.view (p ++ [n])) :
    d'.fileNames p = (d.fileNames p).filter (· ≠ name) := by
  refine fileNames_eq hd' ((increasing_fileNames hd p).filter _) fun n => ?_
  rw [List.mem_filter, mem_fileNames hd]
  by_cases hn : n = name
  · subst hn
    simp [hgone]
  · rw [exists_file_congr (h n hn)]
    simp [hn]

end Disk

end Mailroom
