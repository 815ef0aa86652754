import Mailroom.Proofs.Message.Standing
import Mailroom.Proofs.Vacuum.Rehoming

/-!
# Wherever a message of a drained folder goes

Keywords may be any words, so that a message may also go to a folder that is not listed, to `.` or
to `..`.  Wherever it goes, it is the same letter there, under its state and its name.

* `Maildir.place_cases` lists the places that the name of a folder can lead to, and
  `Maildir.target_ne_below` and `Maildir.folder_of_target` say what a message never takes the place
  of there.
* `GoesOut` is a message that went to such a place, and `Vacuum.rehome_anywhere` says that nothing
  else can come of giving it a better one.
-/

namespace Mailroom

variable {v : Vacuum} {root place r : Path} {d d' : Disk} {s : Slot} {f : File} {g u : Text}

/-! ## The places of folders -/

namespace Maildir

/-- The name of a folder leads one step down from the maildir, or one step up, or nowhere else. -/
theorem place_cases (hslash : '/' ∉ g) (hroot : d.resolve root = .ok place)
    (hr : d.resolve (Folder.path ⟨root, g⟩) = .ok r) :
    IsName g ∧ r = place ++ [g] ∨ r = place ∨ r = place.dropLast := by
  by_cases hnil : g = []
  · subst hnil
    have hpath : Folder.path ⟨root, []⟩ = root := by
      simp [Folder.path, Path.join, Path.names, Text.pieces]
    rw [hpath, hroot] at hr
    exact Or.inr (Or.inl (Except.ok.inj hr).symm)
  have hpath : Folder.path ⟨root, g⟩ = root ++ [g] := Path.join_of_isStep root ⟨hnil, hslash⟩
  rw [hpath, Disk.resolve_below hroot] at hr
  simp only [Disk.walk] at hr
  split at hr
  · exact absurd hr (by simp)
  · exact absurd hr (by simp)
  · split at hr
    · exact Or.inr (Or.inl (Except.ok.inj hr).symm)
    · rename_i hdot
      split at hr
      · exact Or.inr (Or.inr (Except.ok.inj hr).symm)
      · rename_i hup
        exact Or.inl ⟨⟨hnil, hdot, hup, hslash⟩, (Except.ok.inj hr).symm⟩

/-- Whether a path in a folder of the maildir is out of the reach of messages that go one step up:
it is no folder of the maildir itself, or the maildir has no place in another mail folder. -/
def IsOutOfReach (place : Path) (ns : List Text) : Prop :=
  ns ≠ [] ∨ ∀ state : ReadState, place.getLast? ≠ some state.name

section Target

variable (hslash : '/' ∉ g) (hroot : d.resolve root = .ok place)
  (hr : d.resolve (Folder.path ⟨root, g⟩) = .ok r) (hwanted : isUnwanted g = false)
  (state : ReadState) (name : Text)

include hslash hroot hr hwanted

/-- A message that goes to a wanted folder takes no place in one that is to be drained. -/
theorem target_ne_below (hu : isUnwanted u = true) {ns : List Text} (hns : IsOutOfReach place ns) :
    place ++ u :: ns ≠ r ++ [state.name, name] := by
  have hstate : u ≠ state.name := by
    have hboth : ∀ state : ReadState, isUnwanted state.name = false := by
      intro state
      cases state <;> decide
    exact (Vacuum.ne_of_wanted (hboth state) hu).symm
  rcases place_cases hslash hroot hr with ⟨-, rfl⟩ | rfl | rfl
  · intro heq
    rw [List.append_assoc] at heq
    exact Vacuum.ne_of_wanted hwanted hu (List.cons.inj (List.append_cancel_left heq)).1.symm
  · intro heq
    exact hstate (List.cons.inj (List.append_cancel_left heq)).1
  · -- one step up, the folder itself might be meant
    rcases List.eq_nil_or_concat place with rfl | ⟨up, last, rfl⟩
    · intro heq
      exact hstate (List.cons.inj heq).1
    · intro heq
      rw [List.concat_eq_append, List.dropLast_concat, List.append_assoc] at heq
      obtain ⟨hlast, hrest⟩ := List.cons.inj (List.append_cancel_left heq)
      rcases hns with hns | hns
      · exact hns (List.cons.inj hrest).2
      · refine hns state ?_
        rw [List.concat_eq_append, List.getLast?_concat, hlast]

omit hwanted in
/-- If it takes the place of a slot, that is one of the folder that it goes to. -/
theorem folder_of_target (h : place ++ s.names = r ++ [state.name, name]) : s.folder = g := by
  have hlength := congrArg List.length h
  simp only [List.length_append, Slot.names, List.length_cons, List.length_nil] at hlength
  rcases place_cases hslash hroot hr with ⟨-, rfl⟩ | rfl | rfl
  · rw [List.append_assoc] at h
    exact (List.cons.inj (List.append_cancel_left h)).1
  · omega
  · rw [List.length_dropLast] at hlength
    omega

end Target

end Maildir

/-! ## What can become of a message -/

/-- The message of a slot went to a path, and is the same letter. -/
def GoesOut (place : Path) (d : Disk) (s : Slot) (q : Path) (f : File) (d' : Disk) : Prop :=
  ∃ f', d.Elsewhere [place ++ s.names, place ++ s.temporary, q] d' ∧
    d'.item? (place ++ s.names) = none ∧ d'.item? q = some (.file f') ∧
    SameLetter f.content f'.content

namespace Vacuum

/-- The message of a slot stands in its folder. -/
theorem stands_entry (hd : d.Sound) (hroot : d.resolve root = .ok place)
    (hf : d.item? (place ++ s.names) = some (.file f)) :
    (s.entry root).Stands (place ++ [s.folder]) f d := by
  have hsplit : place ++ s.names = place ++ [s.folder] ++ [s.state.name, s.name] := by
    simp [Slot.names]
  have hfolder : ∀ n ∈ [s.folder], IsName n := fun n hn =>
    List.mem_singleton.1 hn ▸ s.isName_folder
  refine ⟨by rw [Slot.name_entry]; exact s.isName_name, ?_, ?_⟩
  · rw [Slot.folder_entry, Slot.path_folder, Disk.resolve_below hroot]
    refine Disk.walk_of_item? hd hfolder ?_
    have hthere : d.item? (place ++ [s.folder]) = some .folder :=
      hd.ancestor _ (List.cons_ne_nil s.state.name [s.name]) (by rw [← hsplit, hf]; rfl)
    rw [hthere]
    rfl
  · rw [Slot.state_entry, Slot.name_entry, ← hsplit]
    exact hf

/-- The last step: the message goes to a place of the other folder, or stays where it is. -/
theorem moveTo_anywhere {desk : Desk} (h : Tended v.maildir.root place d s f desk)
    (hroot : d.resolve v.maildir.root = .ok place) (hslash : '/' ∉ g) (hne : g ≠ s.folder) :
    (∃ e, Message.moveTo (v.maildir.folder g) desk = (.error e, desk)) ∨
    ∃ r desk', d.resolve (v.maildir.folder g).path = .ok r ∧
      Message.moveTo (v.maildir.folder g) desk = (.ok (), desk') ∧
      GoesOut place d s (r ++ [s.state.name, s.name]) f desk'.disk := by
  obtain ⟨d₁, m⟩ := desk
  obtain ⟨f', helse, hat, -, hletter⟩ := h
  have hentry : m.entry = s.entry v.maildir.root := hat.entry
  have hstands : m.entry.Stands (place ++ [s.folder]) f' d₁ :=
    hentry ▸ stands_entry hat.sound hat.resolve hat.file
  have hdest : v.maildir.folder g ≠ m.entry.folder := by
    rw [hentry, Slot.folder_entry]
    exact fun heq => hne (congrArg Folder.name heq)
  by_cases hthere : ∃ r, d₁.resolve (v.maildir.folder g).path = .ok r ∧
      d₁.item? (r ++ [m.entry.state.name]) = some .folder
  · obtain ⟨r, hr, hthere⟩ := hthere
    by_cases hblocked : d₁.item? (r ++ [m.entry.state.name, m.entry.name]) = some .folder
    · exact Or.inl ⟨_, Message.moveTo_blocked hat.sound hstands hdest hr hthere hblocked⟩
    · obtain ⟨hrun, helse', hstands'⟩ :=
        Message.moveTo_of_free hat.sound hstands hdest hr hthere hblocked
      have hr₀ : d.resolve (v.maildir.folder g).path = .ok r :=
        Disk.walk_of_same_folders (fun q => (helse.folders q).1) hr
      have hsource : place ++ [s.folder] ++ [m.entry.state.name, m.entry.name] =
          place ++ s.names := by
        simp [hentry, Slot.names]
      have htarget : r ++ [m.entry.state.name, m.entry.name] = r ++ [s.state.name, s.name] := by
        simp [hentry]
      have hother : place ++ s.names ≠ r ++ [s.state.name, s.name] := fun heq =>
        hne (Maildir.folder_of_target hslash hroot hr₀ _ _ heq).symm
      have hfile : (d₁.renamed (place ++ [s.folder] ++ [m.entry.state.name, m.entry.name])
          (r ++ [m.entry.state.name, m.entry.name]) f').item?
            (r ++ [m.entry.state.name, m.entry.name]) = some (.file f') := hstands'.file
      simp only [hsource, htarget] at hrun helse' hfile
      refine Or.inr ⟨r, _, hr₀, hrun, f', (helse.mono ?_).trans (helse'.mono ?_), ?_, hfile, hletter⟩
      · simp
      · simp
      · rw [Disk.item?_renamed (by simp [Slot.names]) (by simp), if_neg hother, if_pos rfl]
  · exact Or.inl ⟨_, Message.moveTo_nowhere hat.sound hdest fun r hr hfolder =>
      hthere ⟨r, hr, hfolder⟩⟩

/-- A message of a drained folder stays at its slot if something fails, and else goes to a folder
that is wanted. -/
theorem rehome_anywhere (hdry : v.dryRun = false) (hd : d.Sound)
    (hroot : d.resolve v.maildir.root = .ok place)
    (hf : d.item? (place ++ s.names) = some (.file f)) (hunwanted : isUnwanted s.folder = true)
    (report : VacuumReport) :
    (∃ e d', Sweeping.onMessage (v.rehome s.folder) (s.entry v.maildir.root) ⟨d, report⟩ =
      (.error e, ⟨d', report⟩) ∧ StaysAt place d s f d') ∨
    ∃ g r d', Sweeping.onMessage (v.rehome s.folder) (s.entry v.maildir.root) ⟨d, report⟩ =
        (.ok (), ⟨d', report⟩) ∧ isUnwanted g = false ∧ '/' ∉ g ∧
      d.resolve (v.maildir.folder g).path = .ok r ∧
      GoesOut place d s (r ++ [s.state.name, s.name]) f d' := by
  rcases rehome_cases hdry hd hroot hf with
    ⟨e, desk, hrun, htended⟩ | ⟨g, desk, -, hwanted, hslash, htended, hrun⟩
  · exact Or.inl ⟨e, desk.disk, by rw [Sweeping.onMessage, hrun], htended.staysAt⟩
  · rcases moveTo_anywhere htended hroot hslash (ne_of_wanted hwanted hunwanted) with
      ⟨e, hmove⟩ | ⟨r, desk', hr, hmove, hgoes⟩
    · exact Or.inl ⟨e, desk.disk, by rw [Sweeping.onMessage, hrun, hmove], htended.staysAt⟩
    · exact Or.inr ⟨g, r, desk'.disk, by rw [Sweeping.onMessage, hrun, hmove], hwanted, hslash,
        hr, hgoes⟩

end Vacuum

end Mailroom
