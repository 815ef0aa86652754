import Mailroom.Proofs.Disk.View
import Mailroom.Proofs.Message.Standing

/-!
# One maildir on the map of another

Two disks may hold the same folders, or one folder each that is the same.  A `Chart` says which
place on the one corresponds to which place on the other, and carries changes over.

* `Chart.whole` is for disks with the same folders, `Chart.below` for one folder on each.
* `Chart.push` carries a patch over.
* `Chart.Faces` says that two disks have the same folders at the places that correspond, seen from
  two maildirs.
-/

namespace Mailroom

/-- Which places of one disk correspond to which of another. -/
structure Chart where
  /-- The places that have a counterpart. -/
  land : Path → Prop
  /-- The counterpart of a place. -/
  shift : Path → Path
  /-- The place whose counterpart is given. -/
  back : Path → Option Path
  /-- One way is the other way back. -/
  back_eq_some : ∀ {q' q}, back q' = some q ↔ land q ∧ shift q = q'
  /-- Below a place with a counterpart everything has one. -/
  land_append : ∀ {q} ns, land q → land (q ++ ns)
  /-- It is below the counterpart. -/
  shift_append : ∀ {q} ns, land q → shift (q ++ ns) = shift q ++ ns

namespace Chart

/-- Every place corresponds to itself. -/
def whole : Chart where
  land _ := True
  shift := id
  back := some
  back_eq_some := by simp [eq_comm]
  land_append := by simp
  shift_append := by simp

/-- What is below one place corresponds to what is below another. -/
def below (a b : Path) : Chart where
  land q := a <+: q
  shift q := b ++ q.drop a.length
  back q' := if b.isPrefixOf q' then some (a ++ q'.drop b.length) else none
  back_eq_some := by
    intro q' q
    rw [Option.ite_none_right_eq_some, List.isPrefixOf_iff_prefix]
    constructor
    · rintro ⟨⟨ns, rfl⟩, hq⟩
      obtain rfl := Option.some.inj hq
      simp
    · rintro ⟨⟨ns, rfl⟩, rfl⟩
      simp
  land_append := by
    rintro q ns ⟨ms, rfl⟩
    exact ⟨ms ++ ns, by simp⟩
  shift_append := by
    rintro q ns ⟨ms, rfl⟩
    simp

variable {χ : Chart} {q q' : Path}

theorem back_shift (h : χ.land q) : χ.back (χ.shift q) = some q := χ.back_eq_some.2 ⟨h, rfl⟩

theorem shift_inj (hq : χ.land q) (hq' : χ.land q') (h : χ.shift q = χ.shift q') : q = q' := by
  have hback := back_shift hq
  rw [h, back_shift hq'] at hback
  exact (Option.some.inj hback).symm

theorem below_land (a b ns : Path) : (below a b).land (a ++ ns) := ⟨ns, rfl⟩

theorem below_shift (a b ns : Path) : (below a b).shift (a ++ ns) = b ++ ns := by simp [below]

/-! ## Carrying changes over -/

/-- The changes at the places that correspond. -/
def push (χ : Chart) (P : Patch) : Patch := fun q' => (χ.back q').bind P

theorem push_shift (P : Patch) (h : χ.land q) : χ.push P (χ.shift q) = P q := by
  rw [push, back_shift h]
  rfl

@[simp] theorem push_nothing : χ.push .nothing = .nothing := by
  funext q'
  simp [push, Patch.nothing]

theorem push_andThen (P P' : Patch) : χ.push (P.andThen P') = (χ.push P).andThen (χ.push P') := by
  funext q'
  simp only [push, Patch.andThen]
  cases χ.back q' <;> rfl

@[simp] theorem whole_push (P : Patch) : whole.push P = P := by
  funext q'
  rfl

theorem push_single {look : Option Look} (h : χ.land q) :
    χ.push (.single q look) = .single (χ.shift q) look := by
  funext q'
  unfold push Patch.single
  cases hback : χ.back q' with
  | none =>
    rw [if_neg]
    · rfl
    · rintro rfl
      rw [back_shift h] at hback
      exact absurd hback (by simp)
  | some r =>
    obtain ⟨hr, rfl⟩ := χ.back_eq_some.1 hback
    by_cases hrq : r = q
    · subst hrq
      simp
    · rw [if_neg fun heq => hrq (shift_inj hr h heq)]
      exact if_neg hrq

theorem push_moving {source target : Path} {look : Look} (hs : χ.land source)
    (ht : χ.land target) : χ.push (.moving source target look) =
      .moving (χ.shift source) (χ.shift target) look := by
  rw [Patch.moving, push_andThen, push_single hs, push_single ht]
  rfl

/-! ## Maildirs that face each other -/

/-- Two disks with the same folders at the places that correspond, seen from two maildirs: their
folders of the given names are at such places, or nowhere on either disk. -/
structure Faces (χ : Chart) (names : Text → Prop) (M M' : Maildir) (d d' : Disk) : Prop where
  /-- The one disk is sound. -/
  sound : d.Sound
  /-- So is the other one. -/
  sound' : d'.Sound
  /-- The time is the same. -/
  clock : d'.clock = d.clock
  /-- The folders are the same. -/
  folders : ∀ q, χ.land q → (d'.item? (χ.shift q) = some .folder ↔ d.item? q = some .folder)
  /-- Folders of one name are at places that correspond. -/
  places : ∀ n, names n →
    (∃ r, χ.land r ∧ d.resolve (M.folder n).path = .ok r ∧
      d'.resolve (M'.folder n).path = .ok (χ.shift r)) ∨
    (∀ r, d.resolve (M.folder n).path ≠ .ok r) ∧ ∀ r, d'.resolve (M'.folder n).path ≠ .ok r

namespace Faces

variable {names : Text → Prop} {M M' : Maildir} {d d' d₁ d₁' : Disk} {P P' : Patch}

/-- It stays so when no folder comes or goes. -/
theorem patched (h : χ.Faces names M M' d d') (hP : d.Patched P d₁) (hP' : d'.Patched P' d₁') :
    χ.Faces names M M' d₁ d₁' := by
  refine ⟨hP.sound, hP'.sound, ?_, fun q hq => ?_, fun n hn => ?_⟩
  · rw [hP'.clock, hP.clock, h.clock]
  · rw [hP'.folders, hP.folders]
    exact h.folders q hq
  · simp only [ne_eq, hP.resolve, hP'.resolve]
    exact h.places n hn

theorem folders_append (h : χ.Faces names M M' d d') {r : Path} (hr : χ.land r) (ns : List Text) :
    d'.item? (χ.shift r ++ ns) = some .folder ↔ d.item? (r ++ ns) = some .folder := by
  rw [← χ.shift_append ns hr]
  exact h.folders _ (χ.land_append ns hr)

/-- There is the same room to write anew. -/
theorem hasRoomAt (h : χ.Faces names M M' d d') {r : Path} (hr : χ.land r) (name : Text) :
    d'.HasRoomAt (χ.shift r) name ↔ d.HasRoomAt r name := by
  rw [Disk.HasRoomAt, Disk.HasRoomAt, ne_eq, ne_eq, h.folders_append hr, h.folders_append hr]

/-- A disk with the same folders faces this one in every maildir of the same root. -/
theorem of_whole (hd : d.Sound) (hd' : d'.Sound) (hclock : d'.clock = d.clock)
    (hfolders : ∀ q, d'.item? q = some .folder ↔ d.item? q = some .folder)
    (hroot : M'.root = M.root) : whole.Faces names M M' d d' := by
  refine ⟨hd, hd', hclock, fun q _ => hfolders q, fun n _ => ?_⟩
  have hpath : (M'.folder n).path = (M.folder n).path := by
    rw [Maildir.folder, Maildir.folder, hroot]
  rw [hpath]
  cases hr : d.resolve (M.folder n).path with
  | ok r => exact Or.inl ⟨r, trivial, rfl, (Disk.resolve_congr hfolders _ r).2 hr⟩
  | error e =>
    refine Or.inr ⟨by simp, fun r hr' => ?_⟩
    rw [Disk.resolve_congr hfolders, hr] at hr'
    exact absurd hr' (by simp)

end Faces

end Chart

end Mailroom
