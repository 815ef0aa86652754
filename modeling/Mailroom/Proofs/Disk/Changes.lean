import Mailroom.Proofs.Disk.Resolution

/-!
# Making, filling and renaming a file

What the changes of a disk that concern one file do, path by path.

* `Disk.Elsewhere` says that two disks differ at some paths only, and that they have the same
  folders.
* `Disk.create_eq_ok` makes or empties a file, `Disk.item?_write_new` fills it, and
  `Disk.rename_file` puts it in the place of another file.
-/

namespace Mailroom
namespace Disk

variable {d d' : Disk}

/-- Two sound disks with the same folders that differ at some paths only. -/
structure Elsewhere (ps : List Path) (d d' : Disk) : Prop where
  /-- The disk is still sound. -/
  sound : d'.Sound
  /-- At every other path there is what there was. -/
  same : ∀ q, q ∉ ps → d'.item? q = d.item? q
  /-- No folder came or went. -/
  folders : ∀ q, d'.item? q = some .folder ↔ d.item? q = some .folder
  /-- The time is the same. -/
  clock : d'.clock = d.clock

namespace Elsewhere

theorem refl (ps : List Path) (hd : d.Sound) : Elsewhere ps d d :=
  ⟨hd, fun _ _ => rfl, fun _ => Iff.rfl, rfl⟩

theorem trans {ps : List Path} {d₁ d₂ d₃ : Disk} (h₁ : Elsewhere ps d₁ d₂)
    (h₂ : Elsewhere ps d₂ d₃) : Elsewhere ps d₁ d₃ where
  sound := h₂.sound
  same q hq := (h₂.same q hq).trans (h₁.same q hq)
  folders q := (h₂.folders q).trans (h₁.folders q)
  clock := h₂.clock.trans h₁.clock

theorem mono {ps qs : List Path} (h : Elsewhere ps d d') (hsub : ps ⊆ qs) :
    Elsewhere qs d d' :=
  ⟨h.sound, fun q hq => h.same q (fun hp => hq (hsub hp)), h.folders, h.clock⟩

/-- Paths lead where they led. -/
theorem resolve {ps : List Path} (h : Elsewhere ps d d') {p q : Path}
    (hp : d.resolve p = .ok q) : d'.resolve p = .ok q :=
  walk_of_same_folders (fun r hr => (h.folders r).2 hr) hp

end Elsewhere

/-! ## The time -/

/-- The disk at another time. -/
def setClock (d : Disk) (t : Int) : Disk := { d with clock := t }

@[simp] theorem item?_setClock (d : Disk) (t : Int) (p : Path) :
    (d.setClock t).item? p = d.item? p := rfl

theorem Sound.setClock (hd : d.Sound) (t : Int) : (d.setClock t).Sound :=
  ⟨hd.nodup, hd.root, hd.parent, hd.name, hd.own, hd.fresh⟩

theorem walk_setClock (d : Disk) (t : Int) (place names : Path) :
    walk (d.setClock t) place names = walk d place names := by
  induction names generalizing place with
  | nil => rfl
  | cons name names ih => simp only [walk, item?_setClock, ih]

@[simp] theorem resolve_setClock (d : Disk) (t : Int) (p : Path) :
    (d.setClock t).resolve p = d.resolve p := walk_setClock d t [] p

/-! ## Making a file -/

section Create

variable {a p : Path} {name : Text}

theorem create_eq_ok (hd : d.Sound) (ha : d.resolve a = .ok (p ++ [name]))
    (hp : d.item? p = some .folder) (hname : IsName name)
    (hfree : d.item? (p ++ [name]) ≠ some .folder) :
    ∃ id d', d.create a = .ok (id, d') ∧ Elsewhere [p ++ [name]] d d' ∧
      d'.item? (p ++ [name]) = some (.file ⟨id, [], d.clock⟩) := by
  have hne : p ++ [name] ≠ [] := by simp
  -- the file of an identity that no other path leads to
  have key : ∀ (id : FileId) (n : FileId),
      (∀ q g, d.item? q = some (.file g) → g.id = id → q = p ++ [name]) → id < n →
      d.nextId ≤ n →
      let d' : Disk := { d.put (p ++ [name]) (.file ⟨id, [], d.clock⟩) with nextId := n }
      Elsewhere [p ++ [name]] d d' ∧
        d'.item? (p ++ [name]) = some (.file ⟨id, [], d.clock⟩) := by
    intro id n hown hid hn d'
    have hitem : ∀ q, d'.item? q =
        if q = p ++ [name] then some (.file ⟨id, [], d.clock⟩) else d.item? q :=
      item?_put d hne _
    refine ⟨⟨hd.put_file n hp hname hfree hown hid hn, ?_, ?_, rfl⟩, ?_⟩
    · intro q hq
      rw [hitem, if_neg (by simpa using hq)]
    · intro q
      rw [hitem]
      split
      · rename_i hq
        subst hq
        exact ⟨fun h => by simp at h, fun h => absurd h hfree⟩
      · rfl
    · rw [hitem, if_pos rfl]
  cases hi : d.item? (p ++ [name]) with
  | none =>
    refine ⟨d.nextId, _, ?_, key d.nextId (d.nextId + 1) ?_ (Nat.lt_succ_self _)
      (Nat.le_succ _)⟩
    · simp [create, ha, bind, Except.bind, hi]
    · intro q g hq hg
      exact absurd (hg ▸ hd.fresh q g hq) (Nat.lt_irrefl _)
  | some i =>
    cases i with
    | folder => exact absurd hi hfree
    | file f =>
      refine ⟨f.id, _, ?_, key f.id d.nextId ?_ (hd.fresh _ f hi) (Nat.le_refl _)⟩
      · simp [create, ha, bind, Except.bind, hi, put]
      · intro q g hq hg
        exact hd.own q _ g f hq hi hg

/-- No file can be made where a path leads nowhere or to a folder. -/
theorem create_eq_error (hns : ∀ q, d.resolve a = .ok q → d.item? q = some .folder) :
    ∃ e, d.create a = .error e := by
  cases ha : d.resolve a with
  | error e => exact ⟨e, by simp [create, ha, bind, Except.bind]⟩
  | ok q => exact ⟨.isAFolder, by simp [create, ha, bind, Except.bind, hns q ha]⟩

end Create

/-! ## Filling a file and taking it away -/

/-- A new file gets the bytes that are written, and no other file does. -/
theorem item?_write_new (hd : d.Sound) {p : Path} {id : FileId} {t : Int}
    (hp : d.item? p = some (.file ⟨id, [], t⟩)) (bytes : Bytes) (q : Path) :
    (d.write id 0 bytes).item? q =
      if q = p then some (.file ⟨id, bytes, d.clock⟩) else d.item? q := by
  rw [item?_write]
  split
  · rename_i hq
    subst hq
    simp [hp, written, splice]
  · rename_i hq
    cases hi : d.item? q with
    | none => rfl
    | some i =>
      cases i with
      | folder => rfl
      | file g =>
        have hne : g.id ≠ id := fun h => hq (hd.own q p g _ hi hp h)
        simp [written, hne]

theorem elsewhere_write_new (hd : d.Sound) {p : Path} {id : FileId} {t : Int}
    (hp : d.item? p = some (.file ⟨id, [], t⟩)) (bytes : Bytes) :
    Elsewhere [p] d (d.write id 0 bytes) := by
  have hitem := item?_write_new hd hp bytes
  refine ⟨hd.write _ _ _, ?_, ?_, rfl⟩
  · intro q hq
    rw [hitem, if_neg (by simpa using hq)]
  · intro q
    rw [hitem]
    split
    · rename_i hq
      subst hq
      simp [hp]
    · rfl

/-- A file goes away. -/
theorem elsewhere_drop (hd : d.Sound) {p : Path} {f : File} (hp : d.item? p = some (.file f)) :
    Elsewhere [p] d (d.drop p) := by
  have hpne : p ≠ [] := Sound.ne_nil_of_file p hp
  have hitem := item?_drop d hpne
  refine ⟨hd.drop hpne (hd.no_child_of_file hp), ?_, ?_, rfl⟩
  · intro q hq
    rw [hitem, if_neg (by simpa using hq)]
  · intro q
    rw [hitem]
    split
    · rename_i hq
      subst hq
      simp [hp]
    · rfl

/-! ## Renaming a file -/

section Rename

variable {a b p q : Path} {name : Text} {f : File}

/-- The disk with a file under another name. -/
def renamed (d : Disk) (p q : Path) (f : File) : Disk := (d.drop p).put q (.file f)

theorem item?_renamed (hp : p ≠ []) (hq : q ≠ []) (r : Path) :
    (d.renamed p q f).item? r =
      if r = q then some (.file f) else if r = p then none else d.item? r := by
  rw [renamed, item?_put _ hq, item?_drop _ hp]

theorem elsewhere_renamed (hd : d.Sound) (hp : d.item? p = some (.file f))
    (hq : d.item? q = some .folder) (hname : IsName name)
    (hfree : d.item? (q ++ [name]) ≠ some .folder) :
    Elsewhere [p, q ++ [name]] d (d.renamed p (q ++ [name]) f) := by
  have hpne : p ≠ [] := Sound.ne_nil_of_file p hp
  have hpq : q ≠ p := by
    rintro rfl
    simp [hp] at hq
  have hdrop := item?_drop d hpne
  have hdropped : (d.drop p).Sound := hd.drop hpne (hd.no_child_of_file hp)
  refine ⟨?_, ?_, ?_, rfl⟩
  · refine hdropped.put_file (d.drop p).nextId ?_ hname ?_ ?_ (hd.fresh p f hp) (Nat.le_refl _)
    · rw [hdrop, if_neg hpq, hq]
    · rw [hdrop]
      split
      · simp
      · exact hfree
    · intro r g hr hg
      rw [hdrop] at hr
      split at hr
      · simp at hr
      · rename_i hrp
        exact absurd (hd.own r p g f hr hp hg) hrp
  · intro r hr
    simp only [List.mem_cons, List.not_mem_nil, or_false, not_or] at hr
    rw [item?_renamed hpne (by simp), if_neg hr.2, if_neg hr.1]
  · intro r
    rw [item?_renamed hpne (by simp)]
    split
    · rename_i hr
      subst hr
      exact ⟨fun h => by simp at h, fun h => absurd h hfree⟩
    · split
      · rename_i hr
        subst hr
        simp [hp]
      · rfl

/-- A file that goes to a name in a folder of a folder. -/
theorem elsewhere_renamed_pair (hd : d.Sound) {part : Text} (hp : d.item? p = some (.file f))
    (hq : d.item? (q ++ [part]) = some .folder) (hname : IsName name)
    (hfree : d.item? (q ++ [part, name]) ≠ some .folder) :
    Elsewhere [p, q ++ [part, name]] d (d.renamed p (q ++ [part, name]) f) := by
  rw [List.append_cons] at hfree ⊢
  exact elsewhere_renamed hd hp hq hname hfree

/-- A file gets another name, unless a folder has it. -/
theorem rename_file (ha : d.resolve a = .ok p) (hb : d.resolve b = .ok q)
    (hp : d.item? p = some (.file f)) (hfree : d.item? q ≠ some .folder) :
    d.rename a b = .ok (d.renamed p q f) := by
  simp only [rename, ha, hb, bind, Except.bind, hp]
  rfl

/-- If renaming a file succeeds, no folder had the other name. -/
theorem rename_eq_ok {d' : Disk} (ha : d.resolve a = .ok p) (hp : d.item? p = some (.file f))
    (h : d.rename a b = .ok d') :
    ∃ q, d.resolve b = .ok q ∧ d.item? q ≠ some .folder ∧ d' = d.renamed p q f := by
  cases hb : d.resolve b with
  | error e => simp [rename, ha, hb, bind, Except.bind] at h
  | ok q =>
    have hfree : d.item? q ≠ some .folder := by
      intro hfolder
      simp [rename, ha, hb, bind, Except.bind, hp, hfolder] at h
    exact ⟨q, rfl, hfree, Except.ok.inj (h.symm.trans (rename_file ha hb hp hfree))⟩

end Rename

end Disk
end Mailroom
