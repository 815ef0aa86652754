import Mailroom.Proofs.Message.Carried
import Mailroom.Proofs.Message.Staying
import Mailroom.Proofs.Vacuum.Routing

/-!
# What a vacuum does to one message

A message that is tidied stays at its slot and is the same letter.  So does one that could not be
given a better place; another one is at the slot of its goal then.

* `Tended` is what all steps but the last one keep.
* `Vacuum.tidy_onMessage` and `Vacuum.rehome_onMessage` are the two results.
-/

namespace Mailroom

variable {v : Vacuum} {root place : Path} {d : Disk} {s : Slot} {f : File}

/-! ## What can become of a message -/

/-- The message of a slot is still there, and the same letter. -/
def StaysAt (place : Path) (d : Disk) (s : Slot) (f : File) (d' : Disk) : Prop :=
  ∃ f', d.Elsewhere [place ++ s.names, place ++ s.temporary] d' ∧
    d'.item? (place ++ s.names) = some (.file f') ∧ SameLetter f.content f'.content

/-- The message of a slot went to another one, and is the same letter. -/
def GoesTo (place : Path) (d : Disk) (s t : Slot) (f : File) (d' : Disk) : Prop :=
  ∃ f', d.Elsewhere [place ++ s.names, place ++ s.temporary, place ++ t.names] d' ∧
    d'.item? (place ++ s.names) = none ∧ d'.item? (place ++ t.names) = some (.file f') ∧
    SameLetter f.content f'.content

/-! ## What is kept before a message is moved -/

/-- The message at hand is at its slot, and the same letter as before; what it is to get is written
on one line. -/
def Tended (root place : Path) (d : Disk) (s : Slot) (f : File) (desk : Desk) : Prop :=
  ∃ f', d.Elsewhere [place ++ s.names, place ++ s.temporary] desk.disk ∧
    Message.At root place s f' desk.disk (desk.message.sight desk.disk) ∧
    (desk.message.sight desk.disk).IsPlain ∧ SameLetter f.content f'.content

/-- A message that was just taken up. -/
theorem tended_ofEntry (hd : d.Sound) (hroot : d.resolve root = .ok place)
    (hf : d.item? (place ++ s.names) = some (.file f)) :
    Tended root place d s f ⟨d, .ofEntry (s.entry root)⟩ := by
  refine ⟨f, .refl _ hd, ?_, ?_, SameLetter.refl _⟩
  · rw [Message.sight_ofEntry hd hroot hf]
    exact .ofFile hd hroot hf
  · rw [Message.sight_ofEntry hd hroot hf]
    exact .ofFile _ _

theorem Tended.staysAt {desk : Desk} (h : Tended root place d s f desk) :
    StaysAt place d s f desk.disk := by
  obtain ⟨f', helse, hat, -, hletter⟩ := h
  exact ⟨f', helse, hat.file, hletter⟩

theorem tended_relabels {m m' : Message} {d' : Disk} (h : Tended root place d s f ⟨d', m⟩)
    (hrelabels : (m.sight d').Relabels (m'.sight d')) : Tended root place d s f ⟨d', m'⟩ := by
  obtain ⟨f', helse, hat, hplain, hletter⟩ := h
  exact ⟨f', helse, hrelabels.at_slot hat, hrelabels.plain hplain, hletter⟩

theorem Relabels.keeps {α : Type} {r : Reading α} (h : Relabels r) :
    Keeps (Tended root place d s f) r.toEditing := by
  rintro ⟨d', m⟩ hdesk
  rw [Message.toEditing_run]
  exact tended_relabels hdesk (h d' m)

theorem keeps_save : Keeps (Tended root place d s f) Message.save := by
  rintro ⟨d', m⟩ ⟨f', helse, hat, hplain, hletter⟩
  rcases Message.save_cases hat with ⟨-, hrun⟩ | ⟨-, e, m', hrun, hsight, -⟩ |
    ⟨-, header, d'', m', id, hread, hrun, helse', -, hat', hedits', hkeywords, -⟩
  · rw [hrun]
    exact ⟨f', helse, hat, hplain, hletter⟩
  · rw [hrun]
    exact tended_relabels ⟨f', helse, hat, hplain, hletter⟩ (.of_eq hsight)
  · rw [hrun]
    exact ⟨_, helse.trans helse', hat', hplain.saved hedits' hkeywords,
      hletter.trans (sameLetter_revise hread hplain.edits)⟩

namespace Vacuum

theorem keeps_tidyMessage : Keeps (Tended root place d s f) v.tidyMessage := by
  have hlook : Relabels Message.hasNonconformingKeywords :=
    Message.reads_keywordText.quiet.relabels.bind fun _ => (Quiet.pure _).relabels
  have hsave : Keeps (Tended root place d s f) (discard Message.save : Editing Unit) :=
    keeps_save.discard
  have hrest : Keeps (Tended root place d s f) (do
      Reading.toEditing renameKeywords
      if !(← getThe Desk).message.isDirty then return false
      if !v.dryRun then discard Message.save
      return true : Editing Bool) := by
    refine Keeps.bind relabels_renameKeywords.keeps fun _ => Keeps.get fun _ => ?_
    refine Keeps.ite (fun _ => Keeps.pure _) fun _ => ?_
    exact Keeps.ite (fun _ => hsave.bind fun _ => Keeps.pure _) fun _ => Keeps.pure _
  refine Keeps.bind hlook.keeps fun nonconforming => ?_
  exact Keeps.ite (fun _ => relabels_tidyKeywords.keeps.discard.bind fun _ => hrest) fun _ => hrest

/-- A message that is tidied stays where it is, and the same letter. -/
theorem tidy_onMessage (hd : d.Sound) (hroot : d.resolve v.maildir.root = .ok place)
    (hf : d.item? (place ++ s.names) = some (.file f)) (report : VacuumReport) :
    ∃ result d', Sweeping.onMessage v.tidyMessage (s.entry v.maildir.root) ⟨d, report⟩ =
      (result, ⟨d', report⟩) ∧ StaysAt place d s f d' :=
  ⟨_, _, rfl, (keeps_tidyMessage (v := v) _ (tended_ofEntry hd hroot hf)).staysAt⟩

/-! ## Giving a message a better place -/

theorem ne_of_wanted {g u : Text} (hg : isUnwanted g = false) (hu : isUnwanted u = true) :
    g ≠ u := by
  rintro rfl
  rw [hg] at hu
  exact absurd hu (by simp)

/-- The last step: the message goes to its goal, or stays where it is. -/
theorem moveTo_goal {m : Message} {d' : Disk} {g : Text}
    (h : Tended v.maildir.root place d s f ⟨d', m⟩) (hother : g ≠ s.folder)
    (hgoal : Listed place d g ∨ d.isFolder ((v.maildir.folder g).statePath s.state) = false) :
    (∃ e, Message.moveTo (v.maildir.folder g) ⟨d', m⟩ = (.error e, ⟨d', m⟩)) ∨
    ∃ (hg : IsName g) (d'' : Disk) (m' : Message), Listed place d g ∧
      Message.moveTo (v.maildir.folder g) ⟨d', m⟩ = (.ok (), ⟨d'', m'⟩) ∧
      GoesTo place d s (s.within g hg) f d'' := by
  obtain ⟨f', helse, hat, -, hletter⟩ := h
  have hentry : m.entry = s.entry v.maildir.root := hat.entry
  rcases hgoal with hlisted | hno
  · have hg := hlisted.1
    rcases Message.moveTo_cases hat.sound hat.resolve hentry hat.file hg with
      ⟨r, hrun, ⟨e, rfl⟩ | hsame⟩ | ⟨d'', hrun, -, -, helse', hgone, hthere⟩
    · exact Or.inl ⟨e, hrun⟩
    · exact absurd hsame hother
    · refine Or.inr ⟨hg, d'', _, hlisted, hrun, f', (helse.mono ?_).trans (helse'.mono ?_), hgone,
        hthere, hletter⟩
      · simp
      · simp
  · have hno' : d'.isFolder ((v.maildir.folder g).statePath s.state) = false := by
      rw [← Bool.not_eq_true] at hno ⊢
      exact fun h => hno (isFolder_of_folders (fun q => (helse.folders q).1) h)
    have hfolder : v.maildir.folder g ≠ (⟨v.maildir.root, s.folder⟩ : Folder) :=
      fun h => hother (congrArg Folder.name h)
    refine Or.inl ⟨.config ("destination folder " ++ g ++ " does not exist"), ?_⟩
    rw [Message.moveTo, Entry.moveTo, hentry, Slot.folder_entry, Slot.state_entry,
      if_neg hfolder, hno']
    rfl

theorem rehome_eq (hdry : v.dryRun = false) (drained : Text) :
    v.rehome drained = v.route drained >>= fun name =>
      (discard (Reading.toEditing (Message.removeKeywords [drained]) : Editing Bool) >>= fun _ =>
        discard Message.save) >>= fun _ => Message.moveTo (v.maildir.folder name) := by
  simp only [rehome, route, hdry, bind_assoc]
  rfl

/-- Up to the last step a message of a drained folder stays at its slot: something fails, or it is to
be moved to its goal now. -/
theorem rehome_cases (hdry : v.dryRun = false) (hd : d.Sound)
    (hroot : d.resolve v.maildir.root = .ok place)
    (hf : d.item? (place ++ s.names) = some (.file f)) :
    (∃ e desk, v.rehome s.folder ⟨d, .ofEntry (s.entry v.maildir.root)⟩ = (.error e, desk) ∧
      Tended v.maildir.root place d s f desk) ∨
    ∃ g desk, v.goal d s = .ok g ∧ isUnwanted g = false ∧ '/' ∉ g ∧
      Tended v.maildir.root place d s f desk ∧
      v.rehome s.folder ⟨d, .ofEntry (s.entry v.maildir.root)⟩ =
        Message.moveTo (v.maildir.folder g) desk := by
  let m₀ : Message := .ofEntry (s.entry v.maildir.root)
  rw [rehome_eq hdry]
  -- finding the place
  obtain ⟨m₁, hroute, hrelabels⟩ := route_run (v := v) (d := d) s.folder m₀
  have htended₁ := tended_relabels (tended_ofEntry hd hroot hf) hrelabels
  have hgoal : v.goal d s = _ := congrArg Prod.fst hroute
  cases hk : (m₀.sight d).keywords with
  | error e =>
    rw [hk] at hroute
    exact Or.inl ⟨e, ⟨d, m₁⟩, run_bind_error hroute, htended₁⟩
  | ok k =>
    simp only [hk, Except.map] at hroute hgoal
    have hwanted := wanted_goalOf (v := v) (d := d) s.folder
      (alternativeOf s.folder (k.exchange (renamings k)))
    have hslash := slash_not_mem_goalOf (v := v) (d := d) s.folder
      (slash_not_mem_alternativeOf s.folder (k.exchange (renamings k)))
    rw [run_bind_ok hroute]
    -- taking away the keyword of the folder, and saving
    have hwork : Keeps (Tended v.maildir.root place d s f)
        (discard (Reading.toEditing (Message.removeKeywords [s.folder]) : Editing Bool) >>= fun _ =>
          discard Message.save) :=
      (relabels_removeKeywords [s.folder]).keeps.discard.bind fun _ => keeps_save.discard
    rcases hwork.cases htended₁ with ⟨e, desk, hrun, htended₂⟩ | ⟨_, desk, hrun, htended₂⟩
    · exact Or.inl ⟨e, desk, run_bind_error hrun, htended₂⟩
    · exact Or.inr ⟨_, desk, hgoal, hwanted, hslash, htended₂, run_bind_ok hrun⟩

/-- A message of a drained folder stays at its slot if something fails, and else goes to the slot
of its goal. -/
theorem rehome_onMessage (hdry : v.dryRun = false) (hd : d.Sound)
    (hroot : d.resolve v.maildir.root = .ok place)
    (hf : d.item? (place ++ s.names) = some (.file f)) (hunwanted : isUnwanted s.folder = true)
    (hgoal : ∀ g, v.goal d s = .ok g →
      Listed place d g ∨ d.isFolder ((v.maildir.folder g).statePath s.state) = false)
    (report : VacuumReport) :
    (∃ e d', Sweeping.onMessage (v.rehome s.folder) (s.entry v.maildir.root) ⟨d, report⟩ =
      (.error e, ⟨d', report⟩) ∧ StaysAt place d s f d') ∨
    ∃ (g : Text) (hg : IsName g) (d' : Disk),
      Sweeping.onMessage (v.rehome s.folder) (s.entry v.maildir.root) ⟨d, report⟩ =
        (.ok (), ⟨d', report⟩) ∧ Listed place d g ∧ isUnwanted g = false ∧
      GoesTo place d s (s.within g hg) f d' := by
  rcases rehome_cases hdry hd hroot hf with
    ⟨e, desk, hrun, htended⟩ | ⟨g, ⟨d₂, m₂⟩, hg, hwanted, -, htended, hrun⟩
  · exact Or.inl ⟨e, desk.disk, by rw [Sweeping.onMessage, hrun], htended.staysAt⟩
  · rcases moveTo_goal htended (ne_of_wanted hwanted hunwanted) (hgoal g hg) with
      ⟨e, hrun₃⟩ | ⟨hname, d₃, m₃, hlisted, hrun₃, hgoes⟩
    · exact Or.inl ⟨e, d₂, by rw [Sweeping.onMessage, hrun, hrun₃], htended.staysAt⟩
    · exact Or.inr ⟨g, hname, d₃, by rw [Sweeping.onMessage, hrun, hrun₃], hlisted, hwanted, hgoes⟩

end Vacuum

end Mailroom
