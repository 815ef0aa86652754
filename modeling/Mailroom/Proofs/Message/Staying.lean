import Mailroom.Proofs.Maildir.Listing
import Mailroom.Proofs.Message.Placing

/-!
# Messages that stay where they are

While messages are only written anew, they stay at their slots and the folders stay what they are.

* `Stays` compares a disk with an earlier one.
* `Stays.rewritten` keeps it when a message is written anew.
-/

namespace Mailroom

variable {root place : Path} {d₀ d d' : Disk} {s t : Slot}

/-- What is written at a slot and beside it leaves the other slots alone. -/
theorem Disk.Elsewhere.other_slot
    (h : d.Elsewhere [place ++ s.names, place ++ s.temporary] d') (hts : t ≠ s) :
    d'.item? (place ++ t.names) = d.item? (place ++ t.names) := by
  refine h.same _ ?_
  simp only [List.mem_cons, List.not_mem_nil, or_false, not_or]
  exact ⟨fun hsame => hts (Slot.append_names_inj hsame),
    Slot.append_names_ne_temporary place t s⟩

/-- A sound disk with the maildir of an earlier one: the folders are the same, and messages are at
the same slots. -/
structure Stays (root place : Path) (d₀ d : Disk) : Prop where
  /-- The disk is sound. -/
  sound : d.Sound
  /-- The maildir is there. -/
  resolve : d.resolve root = .ok place
  /-- The folders are those of the beginning. -/
  folders : ∀ q, d.item? q = some .folder ↔ d₀.item? q = some .folder
  /-- The messages are where they were in the beginning. -/
  taken : ∀ s, Slot.IsTaken place d s ↔ s.IsTaken place d₀

namespace Stays

theorem refl (hd : d.Sound) (hroot : d.resolve root = .ok place) : Stays root place d d :=
  ⟨hd, hroot, fun _ => Iff.rfl, fun _ => Iff.rfl⟩

theorem listed (h : Stays root place d₀ d) (name : Text) :
    Listed place d name ↔ Listed place d₀ name := by
  rw [Listed, Listed, h.folders, h.folders]

theorem hasRoom (h : Stays root place d₀ d) (hroom : s.HasRoom place d₀) : s.HasRoom place d :=
  hroom.of_folders h.folders

theorem setClock (h : Stays root place d₀ d) (t : Int) : Stays root place d₀ (d.setClock t) :=
  ⟨h.sound.setClock t, (Disk.resolve_setClock d t root).trans h.resolve, h.folders, h.taken⟩

/-- A message that was written anew is where it was. -/
theorem rewritten (h : Stays root place d₀ d)
    (helse : d.Elsewhere [place ++ s.names, place ++ s.temporary] d')
    (hbefore : s.IsTaken place d) (hafter : s.IsTaken place d') : Stays root place d₀ d' := by
  refine ⟨helse.sound, helse.resolve h.resolve,
    fun q => (helse.folders q).trans (h.folders q), fun t => ?_⟩
  rw [← h.taken t]
  by_cases hts : t = s
  · rw [hts]
    exact ⟨fun _ => hbefore, fun _ => hafter⟩
  · rw [Slot.IsTaken, Slot.IsTaken, helse.other_slot hts]

end Stays

end Mailroom
