import Mailroom.Disk

/-!
# Sound disks

A disk is a list of entries, and not every list describes a file system.  `Disk.Sound` says which
do: nothing stands at a path twice, everything stands in a folder under a proper name, and no two
paths lead to one file.

* `Disk.item?_put`, `Disk.item?_drop` and `Disk.item?_write` say what the changes of a disk do to
  the item at every path.
* `Disk.Sound.put`, `Disk.Sound.drop` and `Disk.Sound.write` say that they keep a disk sound.
* `Disk.mem_children` lists a folder: the names in it are those with an item.
-/

namespace Mailroom

/-- Whether a text can be the name of something in a folder. -/
def IsName (t : Text) : Prop := t ≠ [] ∧ t ≠ ['.'] ∧ t ≠ ['.', '.'] ∧ '/' ∉ t

instance (t : Text) : Decidable (IsName t) := inferInstanceAs (Decidable (_ ∧ _ ∧ _ ∧ _))

/-! ## Looking up in a list of entries -/

section Lookup

variable {κ α β : Type} [BEq κ] [LawfulBEq κ]

theorem lookup_cons_of_ne {l : List (κ × α)} {e : κ × α} {q : κ} (h : q ≠ e.1) :
    (e :: l).lookup q = l.lookup q := by
  rw [List.lookup_cons, beq_eq_false_iff_ne.2 h]

theorem lookup_filter (l : List (κ × α)) (keep : κ → Bool) (q : κ) :
    (l.filter (fun e => keep e.1)).lookup q = if keep q then l.lookup q else none := by
  induction l with
  | nil => simp
  | cons e l ih =>
    by_cases hk : keep e.1 = true
    · rw [List.filter_cons_of_pos (by simpa using hk)]
      by_cases hq : q = e.1
      · rw [List.lookup_cons, List.lookup_cons, beq_iff_eq.2 hq]
        simp [hq, hk]
      · rw [lookup_cons_of_ne hq, lookup_cons_of_ne hq, ih]
    · rw [List.filter_cons_of_neg (by simpa using hk), ih]
      by_cases hq : q = e.1
      · rw [if_neg (hq ▸ hk), if_neg (hq ▸ hk)]
      · rw [lookup_cons_of_ne hq]

theorem lookup_filter_ne (l : List (κ × α)) (p q : κ) :
    (l.filter (fun e => e.1 != p)).lookup q = if q == p then none else l.lookup q := by
  rw [lookup_filter l (· != p)]
  by_cases hq : q = p <;> simp [hq]

omit [LawfulBEq κ] in
theorem lookup_map_snd (l : List (κ × α)) (f : α → β) (q : κ) :
    (l.map (fun e => (e.1, f e.2))).lookup q = (l.lookup q).map f := by
  induction l with
  | nil => rfl
  | cons e l ih =>
    rw [List.map_cons, List.lookup_cons, List.lookup_cons]
    split
    · rfl
    · exact ih

theorem mem_of_lookup {l : List (κ × α)} {q : κ} {a : α} (h : l.lookup q = some a) :
    (q, a) ∈ l := by
  obtain ⟨before, after, rfl, -⟩ := List.lookup_eq_some_iff.1 h
  simp

theorem lookup_of_mem {l : List (κ × α)} (hl : (l.map Prod.fst).Nodup) {q : κ} {a : α}
    (h : (q, a) ∈ l) : l.lookup q = some a := by
  induction l with
  | nil => simp at h
  | cons e l ih =>
    rw [List.map_cons, List.nodup_cons] at hl
    rcases List.mem_cons.1 h with rfl | h
    · simp
    · have hne : q ≠ e.1 := fun hq => hl.1 (hq ▸ List.mem_map_of_mem h)
      rw [lookup_cons_of_ne hne]
      exact ih hl.2 h

end Lookup

namespace Disk

/-! ## The item at a path -/

@[simp] theorem item?_nil (d : Disk) : d.item? [] = some .folder := by simp [item?]

theorem item?_of_ne_nil (d : Disk) {p : Path} (hp : p ≠ []) : d.item? p = d.items.lookup p := by
  simp [item?, hp]

theorem item?_put (d : Disk) {p : Path} (hp : p ≠ []) (n : Item) (q : Path) :
    (d.put p n).item? q = if q = p then some n else d.item? q := by
  by_cases hq : q = []
  · subst hq
    simp [Ne.symm hp]
  · rw [item?_of_ne_nil _ hq, item?_of_ne_nil _ hq]
    by_cases hqp : q = p
    · subst hqp
      simp [put]
    · rw [put, lookup_cons_of_ne hqp, lookup_filter_ne]
      simp [hqp]

theorem item?_drop (d : Disk) {p : Path} (hp : p ≠ []) (q : Path) :
    (d.drop p).item? q = if q = p then none else d.item? q := by
  by_cases hq : q = []
  · subst hq
    simp [Ne.symm hp]
  · rw [item?_of_ne_nil _ hq, item?_of_ne_nil _ hq]
    simp [drop, lookup_filter_ne]

/-- What writing into the file of an identity makes of an item. -/
def written (d : Disk) (id : FileId) (place : Nat) (bytes : Bytes) : Item → Item
  | .file f =>
    if f.id = id then .file ⟨id, splice f.content place bytes, d.clock⟩ else .file f
  | .folder => .folder

theorem items_write (d : Disk) (id : FileId) (place : Nat) (bytes : Bytes) :
    (d.write id place bytes).items =
      d.items.map (fun e => (e.1, d.written id place bytes e.2)) := by
  refine List.map_congr_left fun e _ => ?_
  obtain ⟨p, i⟩ := e
  cases i with
  | folder => rfl
  | file f =>
    simp only [written]
    split <;> rfl

theorem item?_write (d : Disk) (id : FileId) (place : Nat) (bytes : Bytes) (q : Path) :
    (d.write id place bytes).item? q = (d.item? q).map (d.written id place bytes) := by
  by_cases hq : q = []
  · subst hq
    simp [written]
  · rw [item?_of_ne_nil _ hq, item?_of_ne_nil _ hq, items_write, lookup_map_snd]

/-! ## Soundness -/

/-- A disk that describes a file system. -/
structure Sound (d : Disk) : Prop where
  /-- Nothing stands at a path twice. -/
  nodup : (d.items.map Prod.fst).Nodup
  /-- Nothing is put in the place of the root. -/
  root : [] ∉ d.items.map Prod.fst
  /-- Everything stands in a folder. -/
  parent : ∀ p name, (d.item? (p ++ [name])).isSome → d.item? p = some .folder
  /-- Everything stands under a proper name. -/
  name : ∀ p name, (d.item? (p ++ [name])).isSome → IsName name
  /-- No two paths lead to one file. -/
  own : ∀ p q f g, d.item? p = some (.file f) → d.item? q = some (.file g) → f.id = g.id → p = q
  /-- The identity of the next new file is not taken. -/
  fresh : ∀ p f, d.item? p = some (.file f) → f.id < d.nextId

namespace Sound

variable {d : Disk}

theorem empty (clock : Int) : (Disk.empty clock).Sound where
  nodup := List.Pairwise.nil
  root := by simp [Disk.empty]
  parent := by simp [Disk.empty, item?]
  name := by simp [Disk.empty, item?]
  own := by
    intro p q f g hp
    by_cases h : p = [] <;> simp [Disk.empty, item?, h] at hp
  fresh := by
    intro p f hp
    by_cases h : p = [] <;> simp [Disk.empty, item?, h] at hp

/-- All that leads to an item is a folder. -/
theorem ancestor (hd : d.Sound) (p : Path) {ns : List Text} (hns : ns ≠ [])
    (h : (d.item? (p ++ ns)).isSome) : d.item? p = some .folder := by
  induction ns generalizing p with
  | nil => exact absurd rfl hns
  | cons n ns ih =>
    by_cases hn : ns = []
    · subst hn
      exact hd.parent p n h
    · have hp : d.item? (p ++ [n]) = some .folder := ih (p ++ [n]) hn (by simpa using h)
      exact hd.parent p n (by simp [hp])

theorem ne_nil_of_file (p : Path) {f : File} (h : d.item? p = some (.file f)) : p ≠ [] := by
  rintro rfl
  simp at h

/-- Nothing stands below a file. -/
theorem no_child_of_file (hd : d.Sound) {p : Path} {f : File} (h : d.item? p = some (.file f))
    (name : Text) : d.item? (p ++ [name]) = none := by
  cases hc : d.item? (p ++ [name]) with
  | none => rfl
  | some i => simp [hd.parent p name (by simp [hc])] at h

theorem nodup_put (hd : d.Sound) {p : Path} (n : Item) :
    ((d.put p n).items.map Prod.fst).Nodup := by
  simp only [Disk.put, List.map_cons, List.nodup_cons]
  refine ⟨?_, List.Nodup.sublist (List.filter_sublist.map _) hd.nodup⟩
  intro hp
  obtain ⟨e, he, hep⟩ := List.mem_map.1 hp
  simp [hep] at he

/-- A disk stays sound when something is put into a folder: a file takes the place of no folder, and
no other path leads to it. -/
theorem put (hd : d.Sound) {p : Path} {name : Text} {i : Item} (n : FileId)
    (hp : d.item? p = some .folder) (hname : IsName name)
    (hfile : ∀ f, i = .file f → d.item? (p ++ [name]) ≠ some .folder ∧ f.id < n ∧
      ∀ q g, d.item? q = some (.file g) → g.id = f.id → q = p ++ [name])
    (hn : d.nextId ≤ n) :
    ({ d.put (p ++ [name]) i with nextId := n } : Disk).Sound := by
  have hne : p ++ [name] ≠ [] := by simp
  have hitem : ∀ q, ({ d.put (p ++ [name]) i with nextId := n } : Disk).item? q =
      if q = p ++ [name] then some i else d.item? q := item?_put d hne _
  refine ⟨hd.nodup_put _, ?_, ?_, ?_, ?_, ?_⟩
  · simp only [Disk.put, List.map_cons, List.mem_cons, not_or]
    exact ⟨hne.symm, fun h => hd.root (List.Sublist.subset (List.filter_sublist.map _) h)⟩
  · intro q m h
    rw [hitem] at h ⊢
    by_cases hq : q = p ++ [name]
    · subst hq
      rw [if_neg (by simp)] at h
      rw [if_pos rfl]
      cases i with
      | folder => rfl
      | file f =>
        -- below the new file nothing stood, since no folder was there
        exact absurd (hd.parent _ m h) (hfile f rfl).1
    · rw [if_neg hq]
      split at h
      · rename_i heq
        rw [(List.append_inj' heq rfl).1]
        exact hp
      · exact hd.parent q m h
  · intro q m h
    rw [hitem] at h
    split at h
    · rename_i heq
      have := (List.append_inj' heq rfl).2
      simp only [List.cons.injEq, and_true] at this
      exact this ▸ hname
    · exact hd.name q m h
  · intro q r g g' hq hr hid
    rw [hitem] at hq hr
    split at hq <;> split at hr
    · simp_all
    · rename_i h _
      exact h.trans ((hfile g (Option.some.inj hq)).2.2 r g' hr hid.symm).symm
    · rename_i h
      exact ((hfile g' (Option.some.inj hr)).2.2 q g hq hid).trans h.symm
    · exact hd.own q r g g' hq hr hid
  · intro q g hq
    rw [hitem] at hq
    split at hq
    · exact (hfile g (Option.some.inj hq)).2.1
    · exact Nat.lt_of_lt_of_le (hd.fresh q g hq) hn

/-- So it does when a file is put where no folder is. -/
theorem put_file (hd : d.Sound) {p : Path} {name : Text} {f : File} (n : FileId)
    (hp : d.item? p = some .folder) (hname : IsName name)
    (hfree : d.item? (p ++ [name]) ≠ some .folder)
    (hown : ∀ q g, d.item? q = some (.file g) → g.id = f.id → q = p ++ [name])
    (hf : f.id < n) (hn : d.nextId ≤ n) :
    ({ d.put (p ++ [name]) (.file f) with nextId := n } : Disk).Sound := by
  refine hd.put n hp hname (fun g hg => ?_) hn
  obtain rfl := Item.file.inj hg
  exact ⟨hfree, hf, hown⟩

/-- So it does when a folder is put there. -/
theorem put_folder (hd : d.Sound) {p : Path} {name : Text} (hp : d.item? p = some .folder)
    (hname : IsName name) : (d.put (p ++ [name]) .folder).Sound :=
  hd.put d.nextId hp hname (fun _ h => nomatch h) (Nat.le_refl _)

/-- A disk stays sound when something is taken away that nothing stands in. -/
theorem drop (hd : d.Sound) {p : Path} (hp : p ≠ [])
    (hleaf : ∀ name, d.item? (p ++ [name]) = none) : (d.drop p).Sound := by
  have hitem := item?_drop d hp
  refine ⟨List.Nodup.sublist (List.filter_sublist.map _) hd.nodup,
    fun h => hd.root (List.Sublist.subset (List.filter_sublist.map _) h), ?_, ?_, ?_, ?_⟩
  · intro q m h
    rw [hitem] at h ⊢
    by_cases hq : q = p
    · subst hq
      rw [if_neg (by simp), hleaf m] at h
      simp at h
    · rw [if_neg hq]
      split at h
      · simp at h
      · exact hd.parent q m h
  · intro q m h
    rw [hitem] at h
    split at h
    · simp at h
    · exact hd.name q m h
  · intro q r f g hq hr
    rw [hitem] at hq hr
    split at hq
    · simp at hq
    · split at hr
      · simp at hr
      · exact hd.own q r f g hq hr
  · intro q f hq
    rw [hitem] at hq
    split at hq
    · simp at hq
    · exact hd.fresh q f hq

theorem of_written {id : FileId} {place : Nat} {bytes : Bytes} {i : Item} {f : File}
    (h : d.written id place bytes i = .file f) : ∃ g, i = .file g ∧ g.id = f.id := by
  cases i with
  | folder => simp [written] at h
  | file g =>
    refine ⟨g, rfl, ?_⟩
    simp only [written] at h
    split at h
    · rename_i hid
      rw [hid]
      exact congrArg File.id (Item.file.inj h)
    · exact congrArg File.id (Item.file.inj h)

theorem write (hd : d.Sound) (id : FileId) (place : Nat) (bytes : Bytes) :
    (d.write id place bytes).Sound := by
  have hkeys : (d.write id place bytes).items.map Prod.fst = d.items.map Prod.fst := by
    rw [items_write, List.map_map]
    rfl
  have hsome : ∀ q, ((d.write id place bytes).item? q).isSome = (d.item? q).isSome := by
    intro q
    rw [item?_write, Option.isSome_map]
  refine ⟨hkeys ▸ hd.nodup, hkeys ▸ hd.root, ?_, ?_, ?_, ?_⟩
  · intro q m h
    rw [hsome] at h
    rw [item?_write, hd.parent q m h]
    rfl
  · intro q m h
    rw [hsome] at h
    exact hd.name q m h
  · intro q r f g hq hr hid
    rw [item?_write] at hq hr
    obtain ⟨i, hi, hif⟩ := Option.map_eq_some_iff.1 hq
    obtain ⟨j, hj, hjg⟩ := Option.map_eq_some_iff.1 hr
    obtain ⟨f', rfl, hf'⟩ := of_written hif
    obtain ⟨g', rfl, hg'⟩ := of_written hjg
    exact hd.own q r f' g' hi hj (hf'.trans (hid.trans hg'.symm))
  · intro q f hq
    rw [item?_write] at hq
    obtain ⟨i, hi, hif⟩ := Option.map_eq_some_iff.1 hq
    obtain ⟨f', rfl, hf'⟩ := of_written hif
    rw [← hf']
    exact hd.fresh q f' hi

end Sound

/-! ## Listing a folder -/

/-- The names in a folder are those that lead to something. -/
theorem mem_children {d : Disk} (hd : d.Sound) {p : Path} {name : Text} {i : Item} :
    (name, i) ∈ d.children p ↔ d.item? (p ++ [name]) = some i := by
  have hne : p ++ [name] ≠ [] := by simp
  rw [item?_of_ne_nil _ hne, children, List.mem_mergeSort, List.mem_filterMap]
  constructor
  · rintro ⟨⟨q, j⟩, he, h⟩
    split at h
    · rename_i last hlast
      split at h
      · rename_i hq
        simp only [Option.some.injEq, Prod.mk.injEq] at h
        obtain ⟨rfl, rfl⟩ := h
        obtain ⟨ys, rfl⟩ := List.getLast?_eq_some_iff.1 hlast
        rw [List.dropLast_concat] at hq
        exact lookup_of_mem hd.nodup (hq ▸ he)
      · simp at h
    · simp at h
  · intro h
    refine ⟨(p ++ [name], i), mem_of_lookup h, ?_⟩
    simp

/-- No name is in a folder twice. -/
theorem nodup_children {d : Disk} (hd : d.Sound) (p : Path) :
    ((d.children p).map Prod.fst).Nodup := by
  rw [children, ((List.mergeSort_perm _ _).map Prod.fst).nodup_iff]
  refine List.pairwise_map.2 ((List.pairwise_map.1 hd.nodup).filterMap _ ?_)
  rintro ⟨q, i⟩ ⟨r, j⟩ hqr ⟨n, i'⟩ hn ⟨m, j'⟩ hm rfl
  -- a name in the folder tells the path
  have key : ∀ {q : Path} {last : Text}, q.getLast? = some last → q.dropLast = p →
      q = p ++ [last] := by
    rintro q last hlast rfl
    obtain ⟨ys, rfl⟩ := List.getLast?_eq_some_iff.1 hlast
    rw [List.dropLast_concat]
  dsimp only at hn hm
  split at hn
  · rename_i last hlast
    split at hn
    · rename_i hq
      split at hm
      · rename_i last' hlast'
        split at hm
        · rename_i hr
          have hn' : last = n := congrArg Prod.fst (Option.some.inj hn)
          have hm' : last' = n := congrArg Prod.fst (Option.some.inj hm)
          rw [key hlast hq, key hlast' hr, hn', hm'] at hqr
          exact hqr rfl
        · exact absurd hm (by simp)
      · exact absurd hm (by simp)
    · exact absurd hn (by simp)
  · exact absurd hn (by simp)

end Disk

end Mailroom
