import Mailroom.Proofs.Disk.Removal
import Mailroom.Proofs.Vacuum.Rehoming

/-!
# A maildir that is being swept

What holds of the disk while a vacuum goes through the folders, and what every step of it keeps.

* `Vacuum.Swept` compares the disk with the one of the beginning.
* `Swept.stays`, `Swept.goes` and `Swept.shrunk` are the steps: a message stays at its slot, it goes
  to its goal, and a drained folder is removed.
-/

namespace Mailroom

variable {v : Vacuum} {place : Path} {π : Equiv.Perm Slot} {rest : List Text} {d₀ d d' : Disk}
  {s : Slot} {f : File}

/-- The disk while a vacuum goes through the folders, some of which are still to come.  No message
is lost or doubled, and those that were listed are listed. -/
structure Vacuum.Swept (v : Vacuum) (place : Path) (d₀ : Disk) (π : Equiv.Perm Slot)
    (rest : List Text) (d : Disk) : Prop where
  /-- The disk is sound. -/
  sound : d.Sound
  /-- The maildir is there. -/
  resolve : d.resolve v.maildir.root = .ok place
  /-- It is still a folder. -/
  there : d.item? place = some .folder
  /-- No folder came. -/
  gone : ∀ q, d.item? q = some .folder → d₀.item? q = some .folder
  /-- Nothing went from a wanted folder. -/
  kept : ∀ g ns, isUnwanted g = false → d₀.item? (place ++ g :: ns) = some .folder →
    d.item? (place ++ g :: ns) = some .folder
  /-- A folder that is still to be drained is as it was. -/
  waiting : ∀ u ∈ rest, isUnwanted u = true → ∀ ns,
    d.item? (place ++ u :: ns) = d₀.item? (place ++ u :: ns)
  /-- The messages are those of the beginning. -/
  carried : Carried place π d₀ d
  /-- Those that were listed are listed. -/
  placed : ∀ s, Listed place d₀ s.folder → s.IsVisible → s.IsTaken place d₀ →
    Listed place d (π s).folder

theorem Listed.of_folders {name : Text} (h : Listed place d name)
    (hfolders : ∀ n, d.item? (place ++ [name, n]) = some .folder →
      d'.item? (place ++ [name, n]) = some .folder) : Listed place d' name :=
  ⟨h.1, h.2.1, hfolders _ h.2.2.1, hfolders _ h.2.2.2⟩

/-- Where two paths begin at one place with other names, they differ. -/
theorem append_cons_ne {u g : Text} (h : u ≠ g) (ns ms : List Text) :
    place ++ u :: ns ≠ place ++ g :: ms :=
  fun hsame => h (List.cons.inj (List.append_cancel_left hsame)).1

namespace Vacuum.Swept

theorem start (hd : d.Sound) (hroot : d.resolve v.maildir.root = .ok place)
    (hplace : d.item? place = some .folder) (rest : List Text) :
    v.Swept place d (Equiv.refl Slot) rest d :=
  ⟨hd, hroot, hplace, fun _ h => h, fun _ _ _ h => h, fun _ _ _ _ => rfl, Carried.refl place d,
    fun _ h _ _ => h⟩

variable (h : v.Swept place d₀ π rest d)

include h

/-- The next folder is taken up. -/
theorem mono {rest' : List Text} (hsub : ∀ u ∈ rest', u ∈ rest) : v.Swept place d₀ π rest' d :=
  ⟨h.sound, h.resolve, h.there, h.gone, h.kept, fun u hu => h.waiting u (hsub u hu), h.carried, h.placed⟩

/-- A wanted folder that was listed is listed. -/
theorem listed_wanted {g : Text} (hg : isUnwanted g = false) (hl : Listed place d₀ g) :
    Listed place d g :=
  hl.of_folders fun n => h.kept g [n] hg

/-- So is a folder that is still to be drained. -/
theorem listed_waiting {u : Text} (hu : u ∈ rest) (hunwanted : isUnwanted u = true)
    (hl : Listed place d₀ u) : Listed place d u :=
  hl.of_folders fun n hn => (h.waiting u hu hunwanted [n]).trans hn

/-- A message stays at its slot. -/
theorem stays (hs : s.folder ∈ rest → isUnwanted s.folder = false)
    (hf : d.item? (place ++ s.names) = some (.file f)) (hstays : StaysAt place d s f d') :
    v.Swept place d₀ π rest d' := by
  obtain ⟨f', helse, hf', hletter⟩ := hstays
  refine ⟨helse.sound, helse.resolve h.resolve, (helse.folders place).2 h.there,
    fun q hq => h.gone q ((helse.folders q).1 hq),
    fun g ns hg hq => (helse.folders _).2 (h.kept g ns hg hq), fun u hu hunwanted ns => ?_,
    h.carried.rewritten (fun _ => helse.other_slot) hf hf' hletter,
    fun t hl hvisible htaken => (h.placed t hl hvisible htaken).of_folders
      fun n => (helse.folders _).2⟩
  have hne : u ≠ s.folder := by
    rintro rfl
    rw [hs hu] at hunwanted
    exact absurd hunwanted (by simp)
  rw [← h.waiting u hu hunwanted ns]
  refine helse.same _ ?_
  simp only [List.mem_cons, List.not_mem_nil, or_false, not_or]
  exact ⟨append_cons_ne hne _ _, append_cons_ne hne _ _⟩

/-- A message goes to a slot of a wanted folder that is listed. -/
theorem goes {t : Slot} (hs : s.folder ∉ rest) (ht : isUnwanted t.folder = false)
    (hstate : t.state = s.state) (hname : t.name = s.name) (hlisted : Listed place d t.folder)
    (hf : d.item? (place ++ s.names) = some (.file f)) (hfree : ¬ t.IsTaken place d)
    (hgoes : GoesTo place d s t f d') : v.Swept place d₀ (π.trans (Equiv.swap s t)) rest d' := by
  obtain ⟨f', helse, hgone, hf', hletter⟩ := hgoes
  have hother : ∀ u : Slot, u ≠ s → u ≠ t →
      d'.item? (place ++ u.names) = d.item? (place ++ u.names) := by
    intro u hus hut
    refine helse.same _ ?_
    simp only [List.mem_cons, List.not_mem_nil, or_false, not_or]
    exact ⟨fun hsame => hus (Slot.append_names_inj hsame),
      Slot.append_names_ne_temporary place u s, fun hsame => hut (Slot.append_names_inj hsame)⟩
  refine ⟨helse.sound, helse.resolve h.resolve, (helse.folders place).2 h.there,
    fun q hq => h.gone q ((helse.folders q).1 hq),
    fun g ns hg hq => (helse.folders _).2 (h.kept g ns hg hq), fun u hu hunwanted ns => ?_,
    h.carried.moved hstate hname hother hf hfree hgone hf' hletter, fun u hl hvisible htaken => ?_⟩
  · have hus : u ≠ s.folder := by
      rintro rfl
      exact hs hu
    have hut : u ≠ t.folder := by
      rintro rfl
      rw [ht] at hunwanted
      exact absurd hunwanted (by simp)
    rw [← h.waiting u hu hunwanted ns]
    refine helse.same _ ?_
    simp only [List.mem_cons, List.not_mem_nil, or_false, not_or]
    exact ⟨append_cons_ne hus _ _, append_cons_ne hus _ _, append_cons_ne hut _ _⟩
  · have hafter : ∀ {name : Text}, Listed place d name → Listed place d' name :=
      fun hl => hl.of_folders fun n => (helse.folders _).2
    show Listed place d' (Equiv.swap s t (π u)).folder
    by_cases hus : π u = s
    · rw [hus, Equiv.swap_apply_left]
      exact hafter hlisted
    by_cases hut : π u = t
    · exact absurd (hut ▸ (h.carried.taken u).2 htaken) hfree
    · rw [Equiv.swap_apply_of_ne_of_ne hus hut]
      exact hafter (h.placed u hl hvisible htaken)

/-- A drained folder is removed, or a part of it. -/
theorem shrunk {u : Text} (havoids : d.Avoids (place ++ [u]) v.maildir.root) (hu : u ∉ rest)
    (hunwanted : isUnwanted u = true)
    (hempty : ∀ s : Slot, s.folder = u → s.IsVisible → ¬ s.IsTaken place d)
    (hshrunk : d.Shrunk (place ++ [u]) d') : v.Swept place d₀ π rest d' := by
  have hother : ∀ {g : Text} (ns : List Text), g ≠ u →
      d'.item? (place ++ g :: ns) = d.item? (place ++ g :: ns) := by
    intro g ns hne
    refine hshrunk.same _ fun hle => ?_
    rw [List.prefix_append_right_inj, List.cons_prefix_cons] at hle
    exact hne hle.1.symm
  have hwanted : ∀ g, isUnwanted g = false → g ≠ u := by
    rintro g hg rfl
    rw [hg] at hunwanted
    exact absurd hunwanted (by simp)
  have hthere : ¬ place ++ [u] <+: place := by
    intro hle
    have hlength := hle.length_le
    simp only [List.length_append, List.length_singleton] at hlength
    omega
  refine ⟨hshrunk.sound, hshrunk.resolve havoids h.resolve, (hshrunk.same place hthere).trans h.there,
    fun q hq => h.gone q (hshrunk.gone q hq), fun g ns hg hq => ?_,
    fun w hw hunwanted' ns => ?_, h.carried.same_files hshrunk.files, fun s hl hvisible htaken => ?_⟩
  · rw [hother ns (hwanted g hg)]
    exact h.kept g ns hg hq
  · have hne : w ≠ u := by
      rintro rfl
      exact hu hw
    rw [hother ns hne]
    exact h.waiting w hw hunwanted' ns
  · -- a message that can be seen is not in the folder that was drained
    have hne : (π s).folder ≠ u := by
      intro hfolder
      refine hempty (π s) hfolder ?_ ((h.carried.taken s).2 htaken)
      rw [Slot.IsVisible, h.carried.name]
      exact hvisible
    refine (h.placed s hl hvisible htaken).of_folders fun n hn => ?_
    rw [hother [n] hne]
    exact hn

end Vacuum.Swept

end Mailroom
