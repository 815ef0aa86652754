import Mailroom.Maildir
import Mailroom.Proofs.Disk.Resolution
import Mailroom.Proofs.Maildir.Slot

/-!
# Removing folders

A folder that is removed was empty, so that no file goes with it.

* `Disk.Shrunk` says that nothing but folders below a path has gone.
* `Maildir.removeFolder_cases` says so of the removal of a mail folder, however far it gets.
* `Disk.Avoids` says that a path does not come by what has gone, and `Disk.Shrunk.resolve` that it
  leads where it led then.
-/

namespace Mailroom

namespace Disk

/-- A folder that is removed was empty. -/
theorem removeFolder_eq_ok {d d' : Disk} {r : Path} (h : d.removeFolder r = .ok d') :
    ∃ q, d.resolve r = .ok q ∧ d.item? q = some .folder ∧ d.children q = [] ∧ d' = d.drop q := by
  cases hq : d.resolve r with
  | error e => simp [removeFolder, hq, bind, Except.bind] at h
  | ok q =>
    simp only [removeFolder, hq, bind, Except.bind] at h
    split at h
    · rename_i hfolder
      split at h
      · rename_i hempty
        exact ⟨q, rfl, hfolder, List.isEmpty_iff.1 hempty, (Except.ok.inj h).symm⟩
      · exact absurd h (by simp)
    · exact absurd h (by simp)
    · exact absurd h (by simp)

/-- Nothing stands in a folder that lists nothing. -/
theorem item?_below_of_children {d : Disk} (hd : d.Sound) {q : Path} (h : d.children q = [])
    (name : Text) : d.item? (q ++ [name]) = none := by
  cases hchild : d.item? (q ++ [name]) with
  | none => rfl
  | some i =>
    have hmem := (mem_children hd).2 hchild
    rw [h] at hmem
    exact absurd hmem List.not_mem_nil

/-- Two sound disks of which the second one lacks nothing but folders at a path and below it. -/
structure Shrunk (p : Path) (d d' : Disk) : Prop where
  /-- The disk is still sound. -/
  sound : d'.Sound
  /-- No file came or went. -/
  files : ∀ q f, d'.item? q = some (.file f) ↔ d.item? q = some (.file f)
  /-- No folder came. -/
  gone : ∀ q, d'.item? q = some .folder → d.item? q = some .folder
  /-- Elsewhere there is what there was. -/
  same : ∀ q, ¬ p <+: q → d'.item? q = d.item? q

namespace Shrunk

variable {p : Path} {d d₁ d' : Disk}

theorem refl (p : Path) (hd : d.Sound) : Shrunk p d d :=
  ⟨hd, fun _ _ => Iff.rfl, fun _ h => h, fun _ _ => rfl⟩

theorem trans (h₁ : Shrunk p d d₁) (h₂ : Shrunk p d₁ d') : Shrunk p d d' where
  sound := h₂.sound
  files q f := (h₂.files q f).trans (h₁.files q f)
  gone q hq := h₁.gone q (h₂.gone q hq)
  same q hq := (h₂.same q hq).trans (h₁.same q hq)

theorem mono {q : Path} (h : Shrunk q d d') (hle : p <+: q) : Shrunk p d d' :=
  ⟨h.sound, h.files, h.gone, fun r hr => h.same r fun hqr => hr (hle.trans hqr)⟩

/-- Removing an empty folder takes away nothing else. -/
theorem of_removeFolder {r : Path} (hd : d.Sound) (hr : d.resolve r ≠ .ok [])
    (h : d.removeFolder r = .ok d') :
    ∃ q, d.resolve r = .ok q ∧ Shrunk q d d' ∧ d'.item? q = none := by
  obtain ⟨q, hq, hfolder, hempty, rfl⟩ := removeFolder_eq_ok h
  have hne : q ≠ [] := by
    rintro rfl
    exact hr hq
  have hitem := item?_drop d hne
  refine ⟨q, hq, ⟨hd.drop hne (item?_below_of_children hd hempty), fun s f => ?_,
    fun s hs => ?_, fun s hs => ?_⟩, ?_⟩
  · rw [hitem]
    split
    · rename_i hsq
      rw [hsq, hfolder]
      simp
    · rfl
  · rw [hitem] at hs
    split at hs
    · exact absurd hs (by simp)
    · exact hs
  · rw [hitem, if_neg]
    rintro rfl
    exact hs List.prefix_rfl
  · rw [hitem, if_pos rfl]

end Shrunk

/-! ## Paths that lead by -/

/-- Whether a path comes by no place in a folder. -/
def Avoids (d : Disk) (p path : Path) : Prop :=
  ∀ before after r, path = before ++ after → d.resolve before = .ok r → ¬ p <+: r

/-- A path that does not go up comes by places above its end only. -/
theorem prefix_of_walk {d : Disk} {place q : Path} {ns : List Text} (hup : ['.', '.'] ∉ ns)
    (h : d.walk place ns = .ok q) : place <+: q := by
  induction ns generalizing place with
  | nil =>
    obtain rfl : place = q := Except.ok.inj h
    exact List.prefix_rfl
  | cons n ns ih =>
    have hrest : ['.', '.'] ∉ ns := fun hmem => hup (List.mem_cons_of_mem _ hmem)
    have hn : n ≠ ['.', '.'] := by
      rintro rfl
      exact hup List.mem_cons_self
    rw [walk] at h
    split at h
    · exact absurd h (by simp)
    · exact absurd h (by simp)
    · rw [if_neg hn] at h
      split at h
      · exact ih hrest h
      · exact (List.prefix_append place [n]).trans (ih hrest h)

/-- It comes by no folder in the place that it leads to. -/
theorem avoids_of_no_up {d : Disk} {root place : Path} (hup : ['.', '.'] ∉ root)
    (hroot : d.resolve root = .ok place) (name : Text) : d.Avoids (place ++ [name]) root := by
  rintro before after r rfl hr hle
  have hrest : d.walk r after = .ok place := by
    rw [resolve, walk_append] at hroot
    rw [resolve] at hr
    simpa [hr, Except.bind] using hroot
  have hafter : ['.', '.'] ∉ after := fun hmem => hup (List.mem_append_right _ hmem)
  have hlength := (hle.trans (prefix_of_walk hafter hrest)).length_le
  simp only [List.length_append, List.length_singleton] at hlength
  omega

theorem Avoids.of_folders {p path : Path} {d d' : Disk} (h : d.Avoids p path)
    (hgone : ∀ q, d'.item? q = some .folder → d.item? q = some .folder) : d'.Avoids p path :=
  fun before after r hpath hr => h before after r hpath (walk_of_same_folders hgone hr)

/-- A path leads where it led when folders have gone that it does not come by. -/
theorem Shrunk.resolve {p q path : Path} {d d' : Disk} (h : Shrunk p d d')
    (havoids : d.Avoids p path) (hq : d.resolve path = .ok q) : d'.resolve path = .ok q :=
  walk_of_same_way hq fun before after r hpath hr hitem =>
    (h.same r (havoids before after r hpath hr)).trans hitem

end Disk

/-! ## Removing a mail folder -/

namespace Maildir

variable {root place : Path} {name : Text} {d : Disk}

/-- Removing one folder, if that succeeds, takes away nothing but what is at its place. -/
theorem shrunk_below (hname : IsName name) {ns : List Text} (hns : ∀ n ∈ ns, IsName n)
    (hd : d.Sound) (hroot : ∀ q, d.resolve root = .ok q → q = place) {d' : Disk}
    (h : d.removeFolder (root ++ name :: ns) = .ok d') :
    d.Shrunk (place ++ name :: ns) d' ∧ d'.item? (place ++ name :: ns) = none := by
  have hproper : ∀ n ∈ name :: ns, IsName n := List.forall_mem_cons.2 ⟨hname, hns⟩
  have hleads : ∀ q, d.resolve (root ++ name :: ns) = .ok q → q = place ++ name :: ns := by
    intro q hq
    rw [Disk.resolve_append] at hq
    cases hr : d.resolve root with
    | error e => simp [hr, Except.bind] at hq
    | ok r =>
      rw [hr] at hq
      rw [Disk.eq_append_of_walk hproper hq, hroot r hr]
  obtain ⟨q, hq, hshrunk⟩ := Disk.Shrunk.of_removeFolder hd (fun hnil => by
    simpa using hleads _ hnil) h
  exact hleads q hq ▸ hshrunk

theorem shrunk_removeEach (hname : IsName name) {ns : List Text} (hns : ∀ n ∈ ns, IsName n)
    (hd : d.Sound) (hroot : ∀ q, d.resolve root = .ok q → q = place) :
    let d' := (removeEach (ns.map fun n => root ++ [name, n]) d).2
    d.Shrunk (place ++ [name]) d' ∧ d'.item? (place ++ [name]) = d.item? (place ++ [name]) := by
  induction ns generalizing d with
  | nil => exact ⟨.refl _ hd, rfl⟩
  | cons n ns ih =>
    have hrest : ∀ n ∈ ns, IsName n := fun n hn => hns n (by simp [hn])
    rw [List.map_cons, removeEach]
    split
    · split
      · rename_i d₁ hrun
        have hn : ∀ m ∈ [n], IsName m := by
          intro m hm
          rw [List.mem_singleton.1 hm]
          exact hns n (by simp)
        obtain ⟨hfirst, -⟩ := shrunk_below hname hn hd hroot hrun
        obtain ⟨hthen, hsame⟩ := ih hrest hfirst.sound fun q hq =>
          hroot q (Disk.walk_of_same_folders hfirst.gone hq)
        refine ⟨(hfirst.mono ⟨[n], by simp⟩).trans hthen, hsame.trans (hfirst.same _ fun hle => ?_)⟩
        have hlength := hle.length_le
        simp only [List.length_append, List.length_cons, List.length_nil] at hlength
        omega
      · exact ⟨.refl _ hd, rfl⟩
    · exact ih hrest hd hroot

/-- Removing a mail folder, however far it gets, takes away nothing but folders in it, and the
folder itself goes if that succeeds and stays if it does not. -/
theorem removeFolder_cases (m : Maildir) (hname : IsName name) (hd : d.Sound)
    (hroot : ∀ q, d.resolve m.root = .ok q → q = place) :
    let r := m.removeFolder name d
    d.Shrunk (place ++ [name]) r.2 ∧
      (r.1 = .ok () ∧ r.2.item? (place ++ [name]) = none ∨
        (∃ e, r.1 = .error e) ∧ r.2.item? (place ++ [name]) = d.item? (place ++ [name])) := by
  have hpath : Path.join m.root name = m.root ++ [name] := Path.join_of_isName _ hname
  have hpaths : [ReadState.new.name, ReadState.cur.name, temporaryName].map
      (fun n => Path.join m.root name ++ [n]) =
      [ReadState.new.name, ReadState.cur.name, temporaryName].map
        (fun n => m.root ++ [name, n]) := by
    simp [hpath]
  have hnames : ∀ n ∈ [ReadState.new.name, ReadState.cur.name, temporaryName], IsName n := by
    decide
  obtain ⟨hplaces, hsame⟩ := shrunk_removeEach hname hnames hd hroot
  simp only [removeFolder, hpaths]
  cases hrun : removeEach ([ReadState.new.name, ReadState.cur.name, temporaryName].map
      (fun n => m.root ++ [name, n])) d with
  | mk result d₁ =>
    rw [hrun] at hplaces hsame
    cases result with
    | error e => exact ⟨hplaces, Or.inr ⟨⟨e, rfl⟩, hsame⟩⟩
    | ok a =>
      have hroot₁ : ∀ q, d₁.resolve m.root = .ok q → q = place := fun q hq =>
        hroot q (Disk.walk_of_same_folders hplaces.gone hq)
      dsimp only
      split
      · rename_i d₂ hrun₂
        rw [hpath] at hrun₂
        obtain ⟨hlast, hnone⟩ := shrunk_below hname (by simp) hplaces.sound hroot₁ hrun₂
        exact ⟨hplaces.trans hlast, Or.inl ⟨rfl, hnone⟩⟩
      · exact ⟨hplaces, Or.inr ⟨⟨_, rfl⟩, hsame⟩⟩

end Maildir

end Mailroom
