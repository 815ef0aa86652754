import Mailroom.Proofs.Maildir.Enumeration
import Mailroom.Proofs.Message.Standing
import Mailroom.Proofs.Pass.Run

/-!
# Turn by turn

A pass gives one message its turn after another, folder by folder.  A turn is the same work for
every message, so that a pass is told by its turns.

* `Entry.Awaits` is what is known of a message before its turn, `Folder.awaits_of_mem_messages`
  says it of all messages of a listed folder.
* `Pass.takeUp` is a turn, and `takeUp_run` says what it comes to.
* `Pass.workThrough_of_ok`, `Pass.workThrough_of_error`, `Pass.workOn_run` and
  `Pass.workOnAll_cons` put a pass together from its turns.
-/

namespace Mailroom

/-! ## Messages before their turn -/

/-- Whether two messages differ in their state or in their name. -/
def Entry.Apart (e e' : Entry) : Prop := e'.state = e.state → e'.name ≠ e.name

theorem Entry.Apart.symm {e e' : Entry} (h : e.Apart e') : e'.Apart e :=
  fun hstate hname => h hstate.symm hname.symm

/-- Whether a message awaits its turn in a folder that is at a place. -/
structure Entry.Awaits (g : Folder) (r : Path) (d : Disk) (e : Entry) : Prop where
  /-- It is in the folder. -/
  folder : e.folder = g
  /-- Nothing is known of its file. -/
  known : e.known = none
  /-- It stands there. -/
  stands : ∃ f, e.Stands r f d

/-- A listed folder is at its place. -/
theorem Listed.resolve {d : Disk} {root place : Path} (hd : d.Sound)
    (hroot : d.resolve root = .ok place) {name : Text} (h : Listed place d name) :
    d.resolve (Folder.path ⟨root, name⟩) = .ok (place ++ [name]) := by
  have hfolder : d.item? (place ++ [name]) = some .folder :=
    hd.parent (place ++ [name]) ReadState.new.name (by simp [h.2.2.1])
  rw [Folder.path, Path.join_of_isName _ h.1, Disk.resolve_below hroot]
  refine Disk.walk_of_item? hd (fun n hn => ?_) (by simp [hfolder])
  rw [List.mem_singleton.1 hn]
  exact h.1

/-- The messages of a listed folder await their turns, and differ from each other. -/
theorem Folder.awaits_of_mem_messages {d : Disk} {root place : Path} (hd : d.Sound)
    (hroot : d.resolve root = .ok place) {name : Text} (hlisted : Listed place d name)
    {listing : Listing} {es : List Entry} (h : messages ⟨root, name⟩ listing d = .ok es) :
    (∀ e ∈ es, e.Awaits ⟨root, name⟩ (place ++ [name]) d) ∧ es.Pairwise Entry.Apart := by
  have hmem := fun e => mem_messages (e := e) hd hroot hlisted.1 h
  have hwaits : ∀ e ∈ es, e.Awaits ⟨root, name⟩ (place ++ [name]) d := by
    intro e he
    obtain ⟨s, rfl, -, ⟨f, hf⟩, rfl⟩ := (hmem e).1 he
    refine ⟨s.folder_entry root, Entry.known_ofName _ _ _, f, ?_, ?_, ?_⟩
    · rw [s.name_entry]
      exact s.isName_name
    · rw [s.folder_entry]
      exact hlisted.resolve hd hroot
    · rw [s.state_entry, s.name_entry, List.append_assoc]
      exact hf
  refine ⟨hwaits, (nodup_messages hd h).imp_of_mem fun {e e'} he he' hne hstate hname => ?_⟩
  obtain ⟨s, hs, -, -, rfl⟩ := (hmem e).1 he
  obtain ⟨s', hs', -, -, rfl⟩ := (hmem e').1 he'
  rw [s.state_entry, s'.state_entry] at hstate
  rw [s.name_entry, s'.name_entry] at hname
  refine hne ?_
  rw [Slot.entry, Slot.entry, hs, hs', hstate, hname]

/-! ## One turn -/

namespace Pass

variable {p : Pass} {rules : List Rule} {e : Entry} {o : Office}

/-- Whether a message counts as recent is told by the time of its file. -/
theorem isRecent_of_stands {d : Disk} {r : Path} {f : File} (hd : d.Sound)
    (hstands : e.Stands r f d) (hknown : e.known = none) : p.isRecent d e = match p.window with
      | none => true
      | some window => decide (p.now - window ≤ f.modified) := by
  unfold Pass.isRecent
  cases p.window with
  | none => rfl
  | some window =>
    simp only [Entry.stat, hknown, hstands.stat_path hd, ofDisk, bind, Except.bind, pure,
      Except.pure]

/-- What the result for one message comes to for its folder. -/
def settled : Except Error Unit → Except Error Unit
  | .ok () => .ok ()
  | .error e => if e.endsFolder then .error e else .ok ()

/-- The turn of one message. -/
def takeUp (p : Pass) (rules : List Rule) (e : Entry) : Work Unit := do
  p.checkpoint
  if p.isRecent (← getThe Office).disk e then
    tryCatch ((p.handle rules).onMessage (.ofEntry e))
      (fun error => if error.endsFolder then throw error else return)

theorem takeUp_run (p : Pass) (rules : List Rule) (e : Entry) (o : Office) :
    p.takeUp rules e o = if p.calledOff o.submissions then (.error .cancelled, o)
      else if p.isRecent o.disk e then
        (settled ((p.handle rules).onMessage (.ofEntry e) o).1,
          ((p.handle rules).onMessage (.ofEntry e) o).2)
      else (.ok (), o) := by
  have hget : (getThe Office : Work Office) o = (.ok o, o) := rfl
  unfold Pass.takeUp
  by_cases hoff : p.calledOff o.submissions = true
  · rw [run_bind_error ((checkpoint_run p o).trans (if_pos hoff)), if_pos hoff]
  · rw [run_bind_ok ((checkpoint_run p o).trans (if_neg hoff)), run_bind_ok hget, if_neg hoff]
    split
    · cases hrun : (p.handle rules).onMessage (.ofEntry e) o with
      | mk result o' =>
        cases result with
        | ok u => exact run_tryCatch_ok hrun
        | error error =>
          rw [run_tryCatch_error hrun]
          simp only [settled]
          split <;> rfl
    · rfl

theorem takeUp_of_not_recent (hgoes : p.calledOff o.submissions = false)
    (hlate : p.isRecent o.disk e = false) : p.takeUp rules e o = (.ok (), o) := by
  rw [takeUp_run, hgoes, hlate]
  rfl

theorem takeUp_of_ok (hgoes : p.calledOff o.submissions = false)
    (hlate : p.isRecent o.disk e = true) {o' : Office}
    (hrun : (p.handle rules).onMessage (.ofEntry e) o = (.ok (), o')) :
    p.takeUp rules e o = (.ok (), o') := by
  rw [takeUp_run, hgoes, hlate, hrun]
  rfl

/-- The messages of a list have their turns one after the other. -/
theorem workThrough_cons (p : Pass) (rules : List Rule) (e : Entry) (rest : List Entry)
    (o : Office) : p.workThrough rules (e :: rest) o =
      (p.takeUp rules e >>= fun _ => p.workThrough rules rest) o := by
  have hget : (getThe Office : Work Office) o = (.ok o, o) := rfl
  rw [Pass.workThrough, Pass.takeUp]
  by_cases hoff : p.calledOff o.submissions = true
  · have hcheck := (checkpoint_run p o).trans (if_pos hoff)
    rw [run_bind_error hcheck, run_bind_error (run_bind_error hcheck)]
  · have hcheck := (checkpoint_run p o).trans (if_neg hoff)
    rw [run_bind_ok hcheck, run_bind_ok hget, bind_assoc, run_bind_ok hcheck, bind_assoc,
      run_bind_ok hget]
    dsimp only
    split <;> rfl

theorem workThrough_of_ok (h : (p.takeUp rules e o).1 = .ok ()) (rest : List Entry) :
    p.workThrough rules (e :: rest) o = p.workThrough rules rest (p.takeUp rules e o).2 := by
  rw [workThrough_cons]
  exact run_bind_ok (Prod.ext h rfl)

theorem workThrough_of_error {error : Error} (h : (p.takeUp rules e o).1 = .error error)
    (rest : List Entry) :
    p.workThrough rules (e :: rest) o = (.error error, (p.takeUp rules e o).2) := by
  rw [workThrough_cons]
  exact run_bind_error (Prod.ext h rfl)

theorem workThrough_cons_eq_ok {rest : List Entry} :
    (p.workThrough rules (e :: rest) o).1 = .ok () ↔ (p.takeUp rules e o).1 = .ok () ∧
      (p.workThrough rules rest (p.takeUp rules e o).2).1 = .ok () := by
  cases h : (p.takeUp rules e o).1 with
  | ok u => simp [workThrough_of_ok h]
  | error error => simp [workThrough_of_error h]

/-- A pass that is called off does nothing more in a folder. -/
theorem workThrough_of_calledOff (entries : List Entry) (h : p.calledOff o.submissions = true) :
    (p.workThrough rules entries o).2 = o := by
  cases entries with
  | nil => rfl
  | cons e entries =>
    have hturn : p.takeUp rules e o = (.error .cancelled, o) := by rw [takeUp_run, if_pos h]
    rw [workThrough_of_error (congrArg Prod.fst hturn), hturn]

/-! ## Folders -/

theorem workOn_run (p : Pass) (f : Folder) (o : Office) :
    p.workOn f o = if p.calledOff o.submissions then (.error .cancelled, o)
      else if (p.rulebook.rulesFor f.name).isEmpty then (.ok (), o)
      else match f.messages p.maildir.listing o.disk with
        | .error error => (.error error, o)
        | .ok entries => p.workThrough (p.rulebook.rulesFor f.name) entries o := by
  have hget : (getThe Office : Work Office) o = (.ok o, o) := rfl
  rw [Pass.workOn]
  by_cases hoff : p.calledOff o.submissions = true
  · rw [run_bind_error ((checkpoint_run p o).trans (if_pos hoff)), if_pos hoff]
  · rw [run_bind_ok ((checkpoint_run p o).trans (if_neg hoff)), if_neg hoff]
    split
    · rfl
    · rw [run_bind_ok hget]
      cases f.messages p.maildir.listing o.disk <;> rfl

theorem workOn_of_calledOff (f : Folder) (h : p.calledOff o.submissions = true) :
    p.workOn f o = (.error .cancelled, o) := by
  rw [workOn_run, if_pos h]

theorem workOn_of_no_rules {f : Folder} (hgoes : p.calledOff o.submissions = false)
    (h : p.rulebook.rulesFor f.name = []) : p.workOn f o = (.ok (), o) := by
  rw [workOn_run, hgoes, h]
  rfl

theorem workOn_of_messages {f : Folder} (hgoes : p.calledOff o.submissions = false)
    (hrules : p.rulebook.rulesFor f.name ≠ []) {entries : List Entry}
    (h : f.messages p.maildir.listing o.disk = .ok entries) :
    p.workOn f o = p.workThrough (p.rulebook.rulesFor f.name) entries o := by
  have hsome : (p.rulebook.rulesFor f.name).isEmpty = false := by simpa using hrules
  rw [workOn_run, hgoes, hsome, h]
  rfl

theorem workOnAll_cons (p : Pass) (f : Folder) (rest : List Folder) (o : Office) :
    p.workOnAll (f :: rest) o = if skippedFolders.contains f.name then p.workOnAll rest o
      else if (p.workOn f o).1 = .error .cancelled then (.ok (), (p.workOn f o).2)
      else p.workOnAll rest (p.workOn f o).2 := by
  rw [Pass.workOnAll]
  split
  · rfl
  · cases hwork : p.workOn f o with
    | mk result o' =>
      cases result with
      | ok u =>
        have hcaught : (tryCatch (do p.workOn f; return none)
            (fun error => return some error) : Work (Option Error)) o = (.ok none, o') :=
          run_tryCatch_ok (run_bind_ok hwork)
        rw [run_bind_ok hcaught]
        rfl
      | error error =>
        have hcaught : (tryCatch (do p.workOn f; return none)
            (fun error => return some error) : Work (Option Error)) o = (.ok (some error), o') :=
          run_tryCatch_error (run_bind_error hwork)
        rw [run_bind_ok hcaught]
        by_cases herror : error = .cancelled
        · rw [if_pos (by rw [herror]), if_pos (by rw [herror])]
          rfl
        · rw [if_neg (by simpa using herror), if_neg (by simpa using herror)]

/-- A pass that is called off does nothing more. -/
theorem workOnAll_of_calledOff (fs : List Folder) (h : p.calledOff o.submissions = true) :
    p.workOnAll fs o = (.ok (), o) := by
  induction fs with
  | nil => rfl
  | cons f fs ih =>
    rw [workOnAll_cons, workOn_of_calledOff f h]
    split
    · exact ih
    · rfl

theorem run_of_error {error : Error} (h : p.maildir.folders o.disk = .error error) :
    p.run o = (.error error, o) := by
  have hget : (getThe Office : Work Office) o = (.ok o, o) := rfl
  rw [Pass.run, run_bind_ok hget, h]
  rfl

theorem run_of_folders {fs : List Folder} (h : p.maildir.folders o.disk = .ok fs) :
    p.run o = p.workOnAll fs o := by
  have hget : (getThe Office : Work Office) o = (.ok o, o) := rfl
  rw [Pass.run, run_bind_ok hget, h]
  rfl

theorem run_of_calledOff {fs : List Folder} (h : p.calledOff o.submissions = true)
    (hfs : p.maildir.folders o.disk = .ok fs) : p.run o = (.ok (), o) := by
  rw [run_of_folders hfs, workOnAll_of_calledOff fs h]

end Pass

end Mailroom
