import Mailroom.Proofs.Maildir.Listing
import Mailroom.Proofs.Pass.Handling

/-!
# The run of a pass

A pass takes up one message after the other, whatever comes of the ones before.  What is kept
while any message is handled is kept by the whole pass.

* `Pass.Meets` is what is known of a message when it is taken up.
* `keeps_run` is the induction over the run.
-/

namespace Mailroom

variable {p : Pass} {place : Path} {K : Office → Prop}

/-- What is known of a message when a pass takes it up: it was met at a slot of a listed folder,
and it counts as recent. -/
structure Pass.Meets (p : Pass) (place : Path) (K : Office → Prop) (o : Office) (s : Slot) :
    Prop where
  /-- Its name begins with no dot. -/
  visible : s.IsVisible
  /-- It was there when its folder was looked through. -/
  taken : ∃ o', K o' ∧ s.IsTaken place o'.disk
  /-- Its folder was listed when the pass began. -/
  listed : ∃ o', K o' ∧ Listed place o'.disk s.folder
  /-- Its folder is not left alone. -/
  wanted : skippedFolders.contains s.folder = false
  /-- The pass was not called off. -/
  goesOn : p.calledOff o.submissions = false
  /-- It counts as recent. -/
  recent : p.isRecent o.disk (s.entry p.maildir.root) = true

/-! ## Taking up a message -/

section Taking

variable {s : Slot} {d : Disk}

/-- Whether a message counts as recent is told by the time of its file. -/
theorem isRecent_of_file (hd : d.Sound) (hroot : d.resolve p.maildir.root = .ok place) {f : File}
    (hf : d.item? (place ++ s.names) = some (.file f)) :
    p.isRecent d (s.entry p.maildir.root) =
      match p.window with
      | none => true
      | some window => decide (p.now - window ≤ f.modified) := by
  have hstat : d.stat (p.maildir.root ++ s.names) = .ok (.file f) := by
    have hbelow := Disk.stat_below hd hroot s.isName_of_mem_names
    rw [hf] at hbelow
    cases hitem : d.stat (p.maildir.root ++ s.names) with
    | error e => simp [hitem, Except.toOption] at hbelow
    | ok i =>
      rw [hitem] at hbelow
      exact congrArg Except.ok (Option.some.inj hbelow)
  have hknown : (s.entry p.maildir.root).known = none := by simp [Slot.entry]
  unfold Pass.isRecent
  cases p.window with
  | none => rfl
  | some window =>
    simp only [Entry.stat, hknown, Slot.path_entry, hstat, ofDisk, bind, Except.bind, pure,
      Except.pure]

/-- Nothing is done where no message is. -/
theorem onMessage_of_not_taken {o : Office} {rules : List Rule} (hd : o.disk.Sound)
    (hroot : o.disk.resolve p.maildir.root = .ok place) (hs : ¬ s.IsTaken place o.disk) :
    (p.handle rules).onMessage (.ofEntry (s.entry p.maildir.root)) o = (.ok (), o) := by
  obtain ⟨e, he⟩ := Message.keywords_ofEntry_of_not_taken hd hroot fun f hf => hs ⟨f, hf⟩
  refine onMessage_idle fun r hr => ?_
  rw [Sight.not_applies_of_unreadable he] at hr
  exact absurd hr (by simp)

/-- A message is passed over that none of the rules for its folder is for. -/
theorem onMessage_of_no_rule {o : Office} {f : File} (hd : o.disk.Sound)
    (hroot : o.disk.resolve p.maildir.root = .ok place)
    (hf : o.disk.item? (place ++ s.names) = some (.file f))
    (h : ∀ r ∈ p.rulebook.rulesFor s.folder,
      ((Sight.ofFile (s.entry p.maildir.root) f.content).verdict r).applies = false) :
    (p.handle (p.rulebook.rulesFor s.folder)).onMessage (.ofEntry (s.entry p.maildir.root)) o =
      (.ok (), o) := by
  refine onMessage_idle fun r hr => ?_
  rw [Message.sight_ofEntry hd hroot hf] at hr ⊢
  have hnot : r ∉ p.rulebook.rulesFor s.folder := by
    intro hmem
    rw [h r hmem] at hr
    exact absurd hr (by simp)
  have hfolder : (Sight.ofFile (s.entry p.maildir.root) f.content).entry.folder.name = s.folder := by
    simp [Sight.ofFile]
  rw [hfolder]
  exact ⟨hnot, fun hmem => hnot (Rulebook.mem_rulesFor_of_mem_folderRules hmem)⟩

end Taking

/-! ## The run -/

theorem keeps_checkpoint : Keeps K p.checkpoint :=
  Keeps.get fun _ => Keeps.ite (fun _ => Keeps.throw _) (fun _ => Keeps.pure ())

theorem checkpoint_run (p : Pass) (o : Office) : p.checkpoint o =
    if p.calledOff o.submissions then (.error .cancelled, o) else (.ok (), o) := by
  have hget : (getThe Office : Work Office) o = (.ok o, o) := rfl
  rw [Pass.checkpoint, run_bind_ok hget]
  split <;> rfl

/-- Whether or not an error ends the work on a folder, nothing but the work itself changes the
office. -/
theorem run_caught {w : Work Unit} {o o' : Office} {result : Except Error Unit}
    (h : w o = (result, o')) : ∃ result', (tryCatch w
      (fun error => if error.endsFolder then throw error else return)) o = (result', o') := by
  cases result with
  | ok u => exact ⟨.ok u, run_tryCatch_ok h⟩
  | error e =>
    rw [run_tryCatch_error h]
    split
    · exact ⟨.error e, rfl⟩
    · exact ⟨.ok (), rfl⟩

theorem keeps_workThrough {folder : Text} {entries : List Entry}
    (hhandle : ∀ o s, K o → s.folder = folder → p.Meets place K o s →
      K ((p.handle (p.rulebook.rulesFor folder)).onMessage
        (.ofEntry (s.entry p.maildir.root)) o).2)
    (hlisted : ∃ o', K o' ∧ Listed place o'.disk folder)
    (hwanted : skippedFolders.contains folder = false)
    (hentries : ∀ e ∈ entries, ∃ s : Slot, s.folder = folder ∧ s.IsVisible ∧
      (∃ o', K o' ∧ s.IsTaken place o'.disk) ∧ e = s.entry p.maildir.root) :
    Keeps K (p.workThrough (p.rulebook.rulesFor folder) entries) := by
  induction entries with
  | nil => exact Keeps.pure ()
  | cons e entries ih =>
    have hrest := ih fun e he => hentries e (by simp [he])
    obtain ⟨s, hfolder, hvisible, htaken, rfl⟩ := hentries e (by simp)
    intro o ho
    rw [Pass.workThrough]
    by_cases hoff : p.calledOff o.submissions = true
    · rw [run_bind_error ((checkpoint_run p o).trans (if_pos hoff))]
      exact ho
    have hgoes : p.calledOff o.submissions = false := by simpa using hoff
    have hget : (getThe Office : Work Office) o = (.ok o, o) := rfl
    rw [run_bind_ok ((checkpoint_run p o).trans (if_neg hoff)), run_bind_ok hget]
    dsimp only
    split
    · rename_i hrecent
      have hstep := hhandle o s ho hfolder
        ⟨hvisible, htaken, hfolder ▸ hlisted, hfolder ▸ hwanted, hgoes, hrecent⟩
      cases hrun : (p.handle (p.rulebook.rulesFor folder)).onMessage
          (.ofEntry (s.entry p.maildir.root)) o with
      | mk result o' =>
        rw [hrun] at hstep
        obtain ⟨result', hcaught⟩ := run_caught hrun
        cases result' with
        | ok u =>
          rw [run_bind_ok hcaught]
          exact hrest o' hstep
        | error e =>
          rw [run_bind_error hcaught]
          exact hstep
    · exact hrest o ho

section Folders

variable (hplace : ∀ o, K o → o.disk.Sound ∧ o.disk.resolve p.maildir.root = .ok place)
  (hhandle : ∀ o s, K o → p.Meets place K o s →
    K ((p.handle (p.rulebook.rulesFor s.folder)).onMessage (.ofEntry (s.entry p.maildir.root))
      o).2)

include hplace hhandle

theorem keeps_workOn {folder : Text} (hlisted : ∃ o', K o' ∧ Listed place o'.disk folder)
    (hwanted : skippedFolders.contains folder = false) :
    Keeps K (p.workOn ⟨p.maildir.root, folder⟩) := by
  unfold Pass.workOn
  refine Keeps.bind keeps_checkpoint fun _ => ?_
  refine Keeps.ite (fun _ => Keeps.pure ()) fun _ => ?_
  intro o ho
  have hget : (getThe Office : Work Office) o = (.ok o, o) := rfl
  rw [run_bind_ok hget]
  obtain ⟨hd, hroot⟩ := hplace o ho
  cases hmessages : Folder.messages ⟨p.maildir.root, folder⟩ p.maildir.listing o.disk with
  | error e => exact ho
  | ok entries =>
    have hname : IsName folder := by
      obtain ⟨_, _, hname, -⟩ := hlisted
      exact hname
    refine keeps_workThrough (fun o s ho hfolder hmeets => hfolder ▸ hhandle o s ho hmeets)
      hlisted hwanted ?_ o ho
    intro e he
    obtain ⟨s, hfolder, hvisible, htaken, rfl⟩ :=
      (Folder.mem_messages hd hroot hname hmessages).1 he
    exact ⟨s, hfolder, hvisible, ⟨o, ho, htaken⟩, rfl⟩

theorem keeps_workOnAll {folders : List Folder}
    (hfolders : ∀ f ∈ folders, f.root = p.maildir.root ∧
      ∃ o', K o' ∧ Listed place o'.disk f.name) :
    Keeps K (p.workOnAll folders) := by
  induction folders with
  | nil => exact Keeps.pure ()
  | cons f folders ih =>
    have hrest := ih fun f hf => hfolders f (by simp [hf])
    obtain ⟨hroot, hlisted⟩ := hfolders f (by simp)
    unfold Pass.workOnAll
    refine Keeps.ite (fun _ => hrest) fun hwanted => ?_
    refine Keeps.bind (Keeps.tryCatch ?_ fun e => Keeps.pure (some e)) fun outcome => ?_
    · refine Keeps.bind ?_ fun _ => Keeps.pure none
      obtain ⟨root, folder⟩ := f
      obtain rfl : root = p.maildir.root := hroot
      exact keeps_workOn hplace hhandle hlisted (by simpa using hwanted)
    · exact Keeps.ite (fun _ => Keeps.pure ()) fun _ => hrest

/-- What is kept while any message that a pass meets is handled is kept by the whole pass. -/
theorem keeps_run : Keeps K p.run := by
  intro o ho
  have hget : (getThe Office : Work Office) o = (.ok o, o) := rfl
  rw [Pass.run, run_bind_ok hget]
  obtain ⟨hd, hroot⟩ := hplace o ho
  cases hfolders : p.maildir.folders o.disk with
  | error e => exact ho
  | ok folders =>
    refine keeps_workOnAll hplace hhandle (fun f hf => ?_) o ho
    obtain ⟨hr, hlisted⟩ := (Maildir.mem_folders hd hroot hfolders).1 hf
    exact ⟨hr, o, ho, hlisted⟩

end Folders

/-- A pass over a maildir that is not there fails, and changes nothing. -/
theorem run_of_no_maildir {o : Office} {f : Fault} (h : o.disk.resolve p.maildir.root = .error f) :
    p.run o = (.error (.file f), o) := by
  have hget : (getThe Office : Work Office) o = (.ok o, o) := rfl
  rw [Pass.run, run_bind_ok hget]
  have hfolders : p.maildir.folders o.disk = .error (.file f) := by
    simp [Maildir.folders, Disk.list, h, ofDisk, bind, Except.bind]
  rw [hfolders]
  rfl

end Mailroom
