import Mailroom.Proofs.Disk.Sound

/-!
# Following paths on a sound disk

Where proper names lead from a place: to what is called so below it.

* `Disk.resolve_append` follows the first part of a path and then the rest.
* `Disk.walk_of_item?` and `Disk.walk_of_folder` say that names lead to what is there, and to the
  place for what may be put there.
* `Disk.resolve_concat` and `Disk.resolve_pair` say what the last names of a path come to.
* `Disk.stat_below` reads an item off the place that a path below a root leads to.
-/

namespace Mailroom
namespace Disk

variable {d : Disk}

theorem walk_append (d : Disk) (place : Path) (ns ms : List Text) :
    d.walk place (ns ++ ms) = (d.walk place ns).bind (fun q => d.walk q ms) := by
  induction ns generalizing place with
  | nil => rfl
  | cons n ns ih =>
    simp only [List.cons_append, walk]
    split
    · rfl
    · rfl
    · split
      · exact ih place
      · split
        · exact ih place.dropLast
        · exact ih (place ++ [n])

theorem resolve_append (d : Disk) (p ns : Path) :
    d.resolve (p ++ ns) = (d.resolve p).bind (fun q => d.walk q ns) := walk_append d [] p ns

theorem walk_cons {place : Path} {n : Text} (hn : IsName n) (ns : List Text)
    (h : d.item? place = some .folder) :
    d.walk place (n :: ns) = d.walk (place ++ [n]) ns := by
  simp only [walk, h]
  rw [if_neg hn.2.1, if_neg hn.2.2.1]

/-- Proper names lead nowhere but below the place where they begin. -/
theorem eq_append_of_walk {place q : Path} {ns : List Text} (hns : ∀ n ∈ ns, IsName n)
    (h : d.walk place ns = .ok q) : q = place ++ ns := by
  induction ns generalizing place with
  | nil =>
    simp only [walk, Except.ok.injEq] at h
    simp [h]
  | cons n ns ih =>
    have hplace : d.item? place = some .folder := by
      simp only [walk] at h
      split at h
      · simp at h
      · simp at h
      · assumption
    rw [walk_cons (hns n (by simp)) ns hplace] at h
    rw [ih (fun m hm => hns m (by simp [hm])) h]
    simp

theorem walk_of_item? (hd : d.Sound) {place : Path} {ns : List Text} (hns : ∀ n ∈ ns, IsName n)
    (h : (d.item? (place ++ ns)).isSome) : d.walk place ns = .ok (place ++ ns) := by
  induction ns generalizing place with
  | nil => simp [walk]
  | cons n ns ih =>
    have hplace : d.item? place = some .folder := hd.ancestor place (by simp) h
    rw [walk_cons (hns n (by simp)) ns hplace,
      ih (fun m hm => hns m (by simp [hm])) (by simpa using h)]
    simp

/-- Names lead into a folder whether or not the last of them is taken. -/
theorem walk_of_folder (hd : d.Sound) {place : Path} {ns : List Text} {n : Text}
    (hns : ∀ m ∈ ns, IsName m) (hn : IsName n) (h : d.item? (place ++ ns) = some .folder) :
    d.walk place (ns ++ [n]) = .ok (place ++ ns ++ [n]) := by
  rw [walk_append, walk_of_item? hd hns (by simp [h])]
  exact walk_cons hn [] h

/-- Names that lead somewhere lead through folders. -/
theorem folder_of_walk {place q : Path} {ns : List Text} {n : Text} (hns : ∀ m ∈ ns, IsName m)
    (h : d.walk place (ns ++ [n]) = .ok q) : d.item? (place ++ ns) = some .folder := by
  rw [walk_append] at h
  cases hw : d.walk place ns with
  | error e => simp [hw, Except.bind] at h
  | ok r =>
    obtain rfl := eq_append_of_walk hns hw
    simp only [hw, Except.bind, walk] at h
    split at h
    · simp at h
    · simp at h
    · assumption

/-- Where the folders on its way stay folders, a path that led somewhere still leads there. -/
theorem walk_of_same_way {d' : Disk} {place q : Path} {ns : List Text}
    (h : d.walk place ns = .ok q)
    (hway : ∀ before after r, ns = before ++ after → d.walk place before = .ok r →
      d.item? r = some .folder → d'.item? r = some .folder) : d'.walk place ns = .ok q := by
  induction ns generalizing place with
  | nil => simpa [walk] using h
  | cons n ns ih =>
    simp only [walk] at h
    split at h
    · simp at h
    · simp at h
    · rename_i hplace
      simp only [walk, hway [] (n :: ns) place rfl rfl hplace]
      -- the way goes on from a place that the first name leads to
      have hon : ∀ place', (∀ ms, d.walk place (n :: ms) = d.walk place' ms) →
          ∀ before after r, ns = before ++ after → d.walk place' before = .ok r →
            d.item? r = some .folder → d'.item? r = some .folder := by
        intro place' hstep before after r hns hr hitem
        refine hway (n :: before) after r (by rw [hns]; rfl) ?_ hitem
        rw [hstep, hr]
      split at h
      · rename_i hdot
        rw [if_pos hdot]
        exact ih h (hon place fun ms => by simp [walk, hplace, hdot])
      · rename_i hdot
        rw [if_neg hdot]
        split at h
        · rename_i hup
          rw [if_pos hup]
          exact ih h (hon place.dropLast fun ms => by simp [walk, hplace, hup])
        · rename_i hup
          rw [if_neg hup]
          exact ih h (hon (place ++ [n]) fun ms => by simp [walk, hplace, hdot, hup])

/-- Where folders stay folders, a path that led somewhere still leads there. -/
theorem walk_of_same_folders {d' : Disk}
    (hfolders : ∀ q, d.item? q = some .folder → d'.item? q = some .folder) {place q : Path}
    {ns : List Text} (h : d.walk place ns = .ok q) : d'.walk place ns = .ok q :=
  walk_of_same_way h fun _ _ r _ _ hr => hfolders r hr

/-- A path that leads anywhere leads to an item. -/
theorem exists?_iff {p : Path} :
    d.exists? p = true ↔ ∃ q, d.resolve p = .ok q ∧ (d.item? q).isSome := by
  unfold exists? stat
  cases hp : d.resolve p with
  | error e => simp [bind, Except.bind, Except.toBool]
  | ok q => cases hq : d.item? q <;> simp [bind, Except.bind, Except.toBool, hq]

/-! ## The last names of a path -/

/-- The last name of a path is put behind what the names before it lead to. -/
theorem resolve_concat {p q : Path} {n : Text} (hn : IsName n)
    (h : d.resolve (p ++ [n]) = .ok q) :
    ∃ r, d.resolve p = .ok r ∧ d.item? r = some .folder ∧ q = r ++ [n] := by
  rw [resolve_append] at h
  cases hp : d.resolve p with
  | error e => simp [hp, Except.bind] at h
  | ok r =>
    rw [hp] at h
    have hwalk : d.walk r ([] ++ [n]) = .ok q := h
    have hfolder := folder_of_walk (by simp) hwalk
    rw [List.append_nil] at hfolder
    exact ⟨r, rfl, hfolder, eq_append_of_walk (by simpa using hn) hwalk⟩

/-- So are the last two of them. -/
theorem resolve_pair {p q : Path} {m n : Text} (hm : IsName m) (hn : IsName n)
    (h : d.resolve (p ++ [m, n]) = .ok q) :
    ∃ r, d.resolve p = .ok r ∧ d.item? (r ++ [m]) = some .folder ∧ q = r ++ [m, n] := by
  have hsplit : p ++ [m, n] = (p ++ [m]) ++ [n] := by simp
  rw [hsplit] at h
  obtain ⟨q', hq', hfolder, rfl⟩ := resolve_concat hn h
  obtain ⟨r, hr, -, rfl⟩ := resolve_concat hm hq'
  exact ⟨r, hr, hfolder, by simp⟩

theorem file_eq_ok {p : Path} {f : File} :
    d.file p = .ok f ↔ ∃ q, d.resolve p = .ok q ∧ d.item? q = some (.file f) := by
  unfold file stat
  cases hp : d.resolve p with
  | error e => simp [bind, Except.bind]
  | ok q =>
    cases hq : d.item? q with
    | none => simp [bind, Except.bind, hq]
    | some i => cases i <;> simp [bind, Except.bind, hq]

/-! ## Items below a root -/

section Below

variable {root place : Path} {ns : List Text}

theorem resolve_below (hroot : d.resolve root = .ok place) :
    d.resolve (root ++ ns) = d.walk place ns := by
  rw [resolve_append, hroot]
  rfl

/-- What a path below a root leads to is what stands at that place. -/
theorem stat_below (hd : d.Sound) (hroot : d.resolve root = .ok place)
    (hns : ∀ n ∈ ns, IsName n) :
    (d.stat (root ++ ns)).toOption = d.item? (place ++ ns) := by
  simp only [stat, resolve_below hroot]
  cases hi : d.item? (place ++ ns) with
  | some i =>
    rw [walk_of_item? hd hns (by simp [hi])]
    simp [bind, Except.bind, hi, Except.toOption]
  | none =>
    cases hw : d.walk place ns with
    | error e => rfl
    | ok q =>
      obtain rfl := eq_append_of_walk hns hw
      simp [bind, Except.bind, hi, Except.toOption]

theorem isFolder_below (hd : d.Sound) (hroot : d.resolve root = .ok place)
    (hns : ∀ n ∈ ns, IsName n) :
    d.isFolder (root ++ ns) = true ↔ d.item? (place ++ ns) = some .folder := by
  rw [← stat_below hd hroot hns, isFolder]
  cases d.stat (root ++ ns) with
  | error e => simp [Except.toOption]
  | ok i => cases i <;> simp [Except.toOption]

theorem file_below (hd : d.Sound) (hroot : d.resolve root = .ok place)
    (hns : ∀ n ∈ ns, IsName n) {f : File} :
    d.file (root ++ ns) = .ok f ↔ d.item? (place ++ ns) = some (.file f) := by
  rw [← stat_below hd hroot hns, file]
  cases d.stat (root ++ ns) with
  | error e => simp [bind, Except.bind, Except.toOption]
  | ok i => cases i <;> simp [bind, Except.bind, Except.toOption]

theorem read_below (hd : d.Sound) (hroot : d.resolve root = .ok place)
    (hns : ∀ n ∈ ns, IsName n) {content : Bytes} :
    d.read (root ++ ns) = .ok content ↔
      ∃ f, d.item? (place ++ ns) = some (.file f) ∧ f.content = content := by
  simp only [← file_below hd hroot hns, read]
  cases d.file (root ++ ns) with
  | error e => simp [Except.map]
  | ok f => simp [Except.map]

end Below

end Disk
end Mailroom
