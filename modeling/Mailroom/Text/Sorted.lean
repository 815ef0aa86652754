import Mailroom.Text

/-!
# Sorted texts

Sets of texts and dictionaries keyed by text, kept in strictly increasing order of code points.
The order is part of the type, so that equal sets are equal values and are shown in one way.

* `TextSet.mem_insert` and `TextSet.mem_erase` say what the operations do to the members.
* `Dictionary.find?` looks a key up; `Dictionary.update` changes or adds one entry.
-/

namespace Mailroom

/-! ## Insertion into an increasing list -/

/-- Puts a text into an increasing list, unless it is there. -/
def insertSorted (x : Text) : List Text → List Text
  | [] => [x]
  | y :: ys => if x < y then x :: y :: ys else if x = y then y :: ys else y :: insertSorted x ys

theorem mem_insertSorted {x z : Text} {l : List Text} :
    z ∈ insertSorted x l ↔ z = x ∨ z ∈ l := by
  induction l with
  | nil => simp [insertSorted]
  | cons y ys ih =>
    simp only [insertSorted]
    split
    · simp
    · split
      · rename_i h; subst h; simp
      · simp only [List.mem_cons, ih]
        constructor
        · rintro (h | h | h) <;> simp [h]
        · rintro (h | h | h) <;> simp [h]

theorem pairwise_insertSorted {x : Text} {l : List Text} (hl : l.Pairwise (· < ·)) :
    (insertSorted x l).Pairwise (· < ·) := by
  induction l with
  | nil => simp [insertSorted]
  | cons y ys ih =>
    have hy := List.pairwise_cons.1 hl
    simp only [insertSorted]
    split
    · rename_i h
      refine List.pairwise_cons.2 ⟨fun z hz => ?_, hl⟩
      rcases List.mem_cons.1 hz with rfl | hz
      · exact h
      · exact List.lt_trans h (hy.1 z hz)
    · split
      · exact hl
      · rename_i h hne
        refine List.pairwise_cons.2 ⟨fun z hz => ?_, ih hy.2⟩
        rcases mem_insertSorted.1 hz with rfl | hz
        · rcases Std.lt_trichotomy z y with h' | h' | h'
          · exact absurd h' h
          · exact absurd h' hne
          · exact h'
        · exact hy.1 z hz

theorem nodup_of_increasing {l : List Text} (hl : l.Pairwise (· < ·)) : l.Nodup := by
  refine hl.imp fun {a b} hlt => ?_
  rintro rfl
  exact List.lt_irrefl a hlt

/-! ## Sets -/

/-- A finite set of texts. -/
structure TextSet where
  /-- The members in increasing order. -/
  toList : List Text
  /-- The members increase strictly. -/
  increasing : toList.Pairwise (· < ·)
  deriving DecidableEq

namespace TextSet

/-- The set without members. -/
def empty : TextSet := ⟨[], List.Pairwise.nil⟩

instance : Inhabited TextSet := ⟨empty⟩

/-- Adds a member. -/
def insert (s : TextSet) (x : Text) : TextSet :=
  ⟨insertSorted x s.toList, pairwise_insertSorted s.increasing⟩

/-- Removes a member. -/
def erase (s : TextSet) (x : Text) : TextSet :=
  ⟨s.toList.filter (· != x), s.increasing.filter _⟩

/-- The set of the texts of a list. -/
def ofList (l : List Text) : TextSet := l.foldl insert empty

/-- Whether a text is a member. -/
def contains (s : TextSet) (x : Text) : Bool := s.toList.contains x

/-- The union with the texts of a list. -/
def insertAll (s : TextSet) (l : List Text) : TextSet := l.foldl insert s

theorem mem_insert {s : TextSet} {x z : Text} :
    z ∈ (s.insert x).toList ↔ z = x ∨ z ∈ s.toList := mem_insertSorted

theorem mem_erase {s : TextSet} {x z : Text} :
    z ∈ (s.erase x).toList ↔ z ∈ s.toList ∧ z ≠ x := by
  simp [erase]

theorem contains_iff {s : TextSet} {x : Text} : s.contains x = true ↔ x ∈ s.toList := by
  simp [contains]

end TextSet

/-! ## Dictionaries -/

/-- Changes the value at a key, or adds the key, in an increasing list of entries. -/
def updateSorted {α : Type} (key : Text) (f : Option α → α) :
    List (Text × α) → List (Text × α)
  | [] => [(key, f none)]
  | e :: es =>
    if key < e.1 then (key, f none) :: e :: es
    else if key = e.1 then (e.1, f (some e.2)) :: es
    else e :: updateSorted key f es

theorem keys_updateSorted {α : Type} (key : Text) (f : Option α → α) (l : List (Text × α)) :
    (updateSorted key f l).map Prod.fst = insertSorted key (l.map Prod.fst) := by
  induction l with
  | nil => rfl
  | cons e es ih =>
    simp only [updateSorted, List.map_cons, insertSorted]
    split
    · rfl
    · split
      · rfl
      · simp [ih]

/-- A finite map from texts. -/
structure Dictionary (α : Type) where
  /-- The entries in increasing order of their keys. -/
  entries : List (Text × α)
  /-- The keys increase strictly. -/
  increasing : (entries.map Prod.fst).Pairwise (· < ·)

namespace Dictionary

variable {α : Type}

/-- The map without entries. -/
def empty : Dictionary α := ⟨[], List.Pairwise.nil⟩

instance : Inhabited (Dictionary α) := ⟨empty⟩

/-- The value at a key. -/
def find? (d : Dictionary α) (key : Text) : Option α := d.entries.lookup key

/-- Changes the value at a key, which may be missing before. -/
def update (d : Dictionary α) (key : Text) (f : Option α → α) : Dictionary α :=
  ⟨updateSorted key f d.entries, keys_updateSorted key f d.entries ▸
    pairwise_insertSorted d.increasing⟩

/-- Sets the value at a key. -/
def insert (d : Dictionary α) (key : Text) (value : α) : Dictionary α :=
  d.update key (fun _ => value)

/-- Removes a key. -/
def erase (d : Dictionary α) (key : Text) : Dictionary α :=
  ⟨d.entries.filter (fun e => e.1 != key),
    List.Pairwise.sublist (List.filter_sublist.map Prod.fst) d.increasing⟩

/-- The map that a list of entries describes; a later entry wins. -/
def ofList (l : List (Text × α)) : Dictionary α :=
  l.foldl (fun d e => d.insert e.1 e.2) empty

/-- The keys in increasing order. -/
def keys (d : Dictionary α) : List Text := d.entries.map Prod.fst

end Dictionary

end Mailroom
