import Mailroom.Proofs.Pass.Once
import Mailroom.Proofs.Vacuum.Conservation
import Mailroom.Proofs.Vacuum.Shares

/-!
# Trials

On a trial the keywords of a message change in memory only: the disk stays as it is, and the post
gets nothing.  This holds whether or not the work fails, and wherever it fails.

* `Pass.keeps_run_of_handle` is the induction over a pass, for what is kept while any message at
  all is handled; `maintains_apply_trial` is the step.
* `Vacuum.keepsSteps_trial` has the steps of a vacuum, with `keeps_rehome_trial` and
  `keeps_tidyMessage_trial` for its work on one message.
* `trial_changes_nothing` is the result for both.
-/

namespace Mailroom

/-! ## Carrying out a rule -/

/-- Nothing was written or given to the post since; only the summary may be another one. -/
def Office.Untouched (o₀ o : Office) : Prop :=
  o.disk = o₀.disk ∧ o.submissions = o₀.submissions

section Rules

variable {o₀ : Office} {p : Pass}

theorem maintains_apply_trial {k : Clerk} (hdry : k.dryRun = true) (r : Rule) :
    Handling.Maintains (fun o _ => o₀.Untouched o) (k.apply r) := by
  have hsummary : ∀ (o : Office) (_ : Sight) summary, o₀.Untouched o →
      o₀.Untouched { o with summary := summary } := fun _ _ _ h => h
  refine maintains_apply hsummary (fun _ _ _ h _ => h) (fun _ _ _ h _ => h) ?_ ?_ ?_
  · -- letters are given to the post only if this is no trial
    refine maintains_passOn hsummary fun _ _ _ _ _ hreal => ?_
    rw [hdry] at hreal
    exact absurd hreal (by simp)
  · rw [Clerk.save, hdry]
    exact Keeps.pure ()
  · cases htarget : r.moveTo with
    | none => exact Keeps.pure ()
    | some name =>
      rw [Clerk.move, hdry]
      exact maintains_record hsummary _

theorem keeps_onMessage_trial (hdry : p.dryRun = true) {rules : List Rule}
    (hused : ∀ r ∈ rules, IsUsed p.rules p.now r) (e : Entry) :
    Keeps o₀.Untouched ((p.handle rules).onMessage (.ofEntry e)) :=
  fun _ ho => keeps_onMessage (fun _ _ h => h)
    (fun r _ => maintains_apply_trial (k := p.clerk) hdry r) hused ho

end Rules

/-! ## A pass -/

namespace Pass

section Everywhere

variable {p : Pass} {K : Office → Prop}
  (hhandle : ∀ rules e, (∀ r ∈ rules, IsUsed p.rules p.now r) →
    Keeps K ((p.handle rules).onMessage (.ofEntry e)))

include hhandle

theorem keeps_workThrough_of_handle {rules : List Rule}
    (hused : ∀ r ∈ rules, IsUsed p.rules p.now r) (entries : List Entry) :
    Keeps K (p.workThrough rules entries) := by
  induction entries with
  | nil => exact Keeps.pure ()
  | cons e entries ih =>
    refine Keeps.bind keeps_checkpoint fun _ => Keeps.get fun o => ?_
    refine Keeps.ite (fun _ => Keeps.bind ?_ fun _ => ih) fun _ => ih
    refine Keeps.tryCatch (hhandle rules e hused) fun error => ?_
    exact Keeps.ite (fun _ => Keeps.throw error) fun _ => Keeps.pure ()

theorem keeps_workOn_of_handle (f : Folder) : Keeps K (p.workOn f) := by
  unfold workOn
  refine Keeps.bind keeps_checkpoint fun _ => ?_
  refine Keeps.ite (fun _ => Keeps.pure ()) fun _ => Keeps.get fun o => ?_
  refine Keeps.bind (Keeps.ofExcept _) fun entries => ?_
  exact keeps_workThrough_of_handle hhandle (fun r hr => Rulebook.isUsed_of_mem_rulesFor hr) entries

theorem keeps_workOnAll_of_handle (folders : List Folder) : Keeps K (p.workOnAll folders) := by
  induction folders with
  | nil => exact Keeps.pure ()
  | cons f folders ih =>
    unfold workOnAll
    refine Keeps.ite (fun _ => ih) fun _ => ?_
    refine Keeps.bind (Keeps.tryCatch ?_ fun e => Keeps.pure (some e)) fun outcome => ?_
    · exact Keeps.bind (keeps_workOn_of_handle hhandle f) fun _ => Keeps.pure none
    · exact Keeps.ite (fun _ => Keeps.pure ()) fun _ => ih

/-- What is kept while any message is handled is kept by a pass, on every disk. -/
theorem keeps_run_of_handle : Keeps K p.run := by
  refine Keeps.get fun o => Keeps.bind (Keeps.ofExcept _) fun folders => ?_
  exact keeps_workOnAll_of_handle hhandle folders

theorem keeps_runOne_of_handle (folder name : Text) : Keeps K (p.runOne folder name) := by
  refine Keeps.get fun o => Keeps.bind (Keeps.ofExcept _) fun e => ?_
  exact hhandle _ e fun r hr => Rulebook.isUsed_of_mem_rulesFor hr

end Everywhere

end Pass

/-! ## A vacuum -/

namespace Vacuum

variable {v : Vacuum} {d : Disk}

/-- A look at a message leaves the disk alone. -/
theorem keeps_look {α : Type} (r : Reading α) :
    Keeps (fun desk : Desk => desk.disk = d) r.toEditing := fun _ h => h

/-- So does work on a message that is taken up, if it does so on the desk. -/
theorem keeps_sweeping_onMessage {α : Type} {e : Editing α}
    (he : Keeps (fun desk => desk.disk = d) e) (entry : Entry) :
    Keeps (fun s : Sweep => s.disk = d) (Sweeping.onMessage e entry) :=
  fun s hs => he ⟨s.disk, .ofEntry entry⟩ hs

theorem keeps_disk_note (change : VacuumReport → VacuumReport) :
    Keeps (fun s => s.disk = d) (Sweeping.note change) := fun _ hs => hs

section Trial

variable (hdry : v.dryRun = true)

include hdry

theorem keeps_rehome_trial (drained : Text) :
    Keeps (fun desk => desk.disk = d) (v.rehome drained) := by
  unfold rehome
  refine Keeps.bind (keeps_look _) fun _ => Keeps.bind ?_ fun name => ?_
  · exact Keeps.bind (keeps_look _) fun name => Keeps.get fun _ => Keeps.pure _
  · refine Keeps.bind (Keeps.discard (keeps_look _)) fun _ => ?_
    rw [hdry]
    exact Keeps.pure ()

theorem keeps_tidyMessage_trial : Keeps (fun desk => desk.disk = d) v.tidyMessage := by
  have hrest : Keeps (fun desk : Desk => desk.disk = d) (do
      Reading.toEditing renameKeywords
      if !(← getThe Desk).message.isDirty then return false
      if !v.dryRun then discard Message.save
      return true) := by
    refine Keeps.bind (keeps_look _) fun _ => Keeps.get fun _ => ?_
    rw [hdry]
    exact Keeps.ite (fun _ => Keeps.pure _) fun _ => Keeps.pure _
  refine Keeps.bind (keeps_look _) fun nonconforming => ?_
  exact Keeps.ite (fun _ => Keeps.bind (Keeps.discard (keeps_look _)) fun _ => hrest) fun _ => hrest

/-- On a trial a folder is counted as removed, and stays. -/
theorem keeps_remove_trial (name : Text) : Keeps (fun s => s.disk = d) (v.remove name) := by
  rw [remove, hdry, if_pos rfl]
  refine Keeps.bind (Keeps.pure true) fun removed => ?_
  exact Keeps.ite (fun _ => keeps_disk_note _) fun _ => keeps_disk_note _

theorem keepsSteps_trial : v.KeepsSteps (fun _ => True) (fun s => s.disk = d) where
  rehome drained := keeps_sweeping_onMessage (keeps_rehome_trial hdry drained)
  tidy := keeps_sweeping_onMessage (keeps_tidyMessage_trial hdry)
  moved := keeps_disk_note _
  rewritten := keeps_disk_note _
  failure := keeps_disk_note _
  remove name _ := keeps_remove_trial hdry name

theorem run_disk_trial (d : Disk) : (v.run d).2 = d := by
  unfold run
  cases v.maildir.folders d with
  | error e => rfl
  | ok folders =>
    exact (keepsSteps_trial hdry).sweepAll (fun _ _ => trivial) ⟨d, .empty⟩ rfl

end Trial

end Vacuum

/-! ## Both -/

/-- A pass over all folders that is a trial, the work on one message in it, and a vacuum that is a
trial leave the disk as it was and give nothing to the post, whatever comes of them. -/
theorem trial_changes_nothing (p : Pass) (v : Vacuum) (o : Office) (hpass : p.dryRun = true)
    (hvacuum : v.dryRun = true) :
    ((p.run o).2.disk = o.disk ∧ (p.run o).2.submissions = o.submissions) ∧
      (∀ folder name, (p.runOne folder name o).2.disk = o.disk ∧
        (p.runOne folder name o).2.submissions = o.submissions) ∧
      (v.run o.disk).2 = o.disk := by
  have hhandle : ∀ rules e, (∀ r ∈ rules, IsUsed p.rules p.now r) →
      Keeps o.Untouched ((p.handle rules).onMessage (.ofEntry e)) :=
    fun _ e hused => keeps_onMessage_trial hpass hused e
  have hstart : o.Untouched o := ⟨rfl, rfl⟩
  exact ⟨Pass.keeps_run_of_handle hhandle o hstart,
    fun folder name => Pass.keeps_runOne_of_handle hhandle folder name o hstart,
    Vacuum.run_disk_trial hvacuum o.disk⟩

/-- A message that would be passed on, and a folder that would be drained. -/
theorem notice_trial :
    let notice : Pass := { noticePass with dryRun := true }
    let drain : Vacuum := { draining with dryRun := true }
    ((notice.run (.ofDisk draftsDisk)).2.disk = draftsDisk ∧
        (notice.run (.ofDisk draftsDisk)).2.submissions = []) ∧
      (∀ folder name, (notice.runOne folder name (.ofDisk draftsDisk)).2.disk = draftsDisk ∧
        (notice.runOne folder name (.ofDisk draftsDisk)).2.submissions = []) ∧
      (drain.run draftsDisk).2 = draftsDisk :=
  trial_changes_nothing { noticePass with dryRun := true } { draining with dryRun := true }
    (.ofDisk draftsDisk) rfl rfl

end Mailroom
