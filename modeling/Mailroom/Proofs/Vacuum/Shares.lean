import Mailroom.Proofs.Vacuum.Draining

/-!
# What the folders add to a report

No step of a vacuum looks at the report.  What is done for a folder is added to what was done for
the others, so that the report of a vacuum is the sum of what the folders give.

* `Sweeping.Adds` says that some work adds to the report and does the same whatever it says;
  `Vacuum.adds_sweepAll` is the induction over the folders.
* `Vacuum.KeepsSteps` says that single steps keep a property, and `KeepsSteps.sweepAll` that going
  through folders does so.
* `Vacuum.run_split` takes a vacuum apart at one folder.
-/

namespace Mailroom

/-! ## Work that adds to the report -/

namespace Sweeping

variable {α β : Type} {w : Sweeping α} {f : α → Sweeping β}

/-- Whether some work does the same whatever the report says, and adds to it. -/
def Adds (w : Sweeping α) : Prop := ∀ d r, w ⟨d, r⟩ =
  ((w ⟨d, .empty⟩).1, ⟨(w ⟨d, .empty⟩).2.disk, r + (w ⟨d, .empty⟩).2.report⟩)

theorem Adds.pure (a : α) : Adds (pure a : Sweeping α) := fun d r => by
  show (Except.ok a, (⟨d, r⟩ : Sweep)) = (Except.ok a, ⟨d, r + .empty⟩)
  rw [VacuumReport.add_empty]

theorem Adds.bind (hw : Adds w) (hf : ∀ a, Adds (f a)) : Adds (w >>= f) := by
  intro d r
  have hrun' := hw d r
  cases hrun : w ⟨d, .empty⟩ with
  | mk result s =>
    rw [hrun] at hrun'
    cases result with
    | error e => rw [run_bind_error hrun', run_bind_error hrun]
    | ok a =>
      obtain ⟨d', r'⟩ := s
      rw [run_bind_ok hrun', run_bind_ok hrun, hf a d' (r + r'), hf a d' r',
        VacuumReport.add_assoc]

/-- A look at the disk adds nothing. -/
theorem Adds.look {g : Disk → Sweeping β} (hg : ∀ d, Adds (g d)) :
    Adds (getThe Sweep >>= fun s => g s.disk) := fun d r => hg d d r

theorem Adds.ofExcept (result : Except Error α) : Adds (liftM result : Sweeping α) := by
  cases result with
  | ok a => exact .pure a
  | error e =>
    intro d r
    show (Except.error e, (⟨d, r⟩ : Sweep)) = (Except.error e, ⟨d, r + .empty⟩)
    rw [VacuumReport.add_empty]

theorem Adds.note {change : VacuumReport → VacuumReport} (h : ∀ r, change r = r + change .empty) :
    Adds (note change) := fun d r => by
  show (Except.ok (), (⟨d, change r⟩ : Sweep)) = _
  rw [h]
  rfl

theorem Adds.noteFailure : Adds noteFailure := .note fun r => by
  simp [VacuumReport.add_def, VacuumReport.empty]

theorem Adds.onMessage (e : Editing α) (entry : Entry) : Adds (onMessage e entry) := fun d r => by
  show ((e ⟨d, .ofEntry entry⟩).1, (⟨(e ⟨d, .ofEntry entry⟩).2.disk, r⟩ : Sweep)) =
    ((e ⟨d, .ofEntry entry⟩).1, ⟨(e ⟨d, .ofEntry entry⟩).2.disk, r + .empty⟩)
  rw [VacuumReport.add_empty]

theorem Adds.attempt (hw : Adds w) : Adds w.attempt := by
  intro d r
  have hrun' := hw d r
  cases hrun : w ⟨d, .empty⟩ with
  | mk result s =>
    rw [hrun] at hrun'
    rw [attempt_run hrun', attempt_run hrun]

end Sweeping

open Sweeping (Adds)

namespace Vacuum

variable (v : Vacuum)

theorem adds_rehomeAll (drained : Text) (es : List Entry) : Adds (v.rehomeAll drained es) := by
  induction es with
  | nil => exact .pure 0
  | cons e es ih =>
    rw [rehomeAll]
    refine (Adds.onMessage _ e).attempt.bind fun result => ?_
    cases result with
    | ok a =>
      refine (Adds.note fun r => ?_).bind fun _ => ih
      simp [VacuumReport.add_def, VacuumReport.empty]
    | error e' => exact Adds.noteFailure.bind fun _ => ih.bind fun n => .pure (n + 1)

theorem adds_remove (name : Text) : Adds (v.remove name) := by
  have hnote : ∀ removed : Bool, Adds (if removed
      then Sweeping.note fun r => { r with removed := r.removed ++ [name] }
      else Sweeping.noteFailure) := by
    intro removed
    split
    · refine Adds.note fun r => ?_
      simp [VacuumReport.add_def, VacuumReport.empty]
    · exact .noteFailure
  rw [remove]
  split
  · exact (Adds.pure true).bind hnote
  · refine Adds.bind (fun d r => ?_) hnote
    show ((.ok (v.maildir.removeFolder name d).1.toBool : Except Error Bool),
        (⟨(v.maildir.removeFolder name d).2, r⟩ : Sweep)) =
      (_, ⟨(v.maildir.removeFolder name d).2, r + .empty⟩)
    rw [VacuumReport.add_empty]

theorem adds_drain (f : Folder) : Adds (v.drain f) := by
  rw [drain]
  refine Adds.look fun d => (Adds.ofExcept _).bind fun es => (v.adds_rehomeAll f.name es).bind
    fun n => ?_
  split
  · exact v.adds_remove f.name
  · exact .pure ()

theorem adds_tidyAll (es : List Entry) : Adds (v.tidyAll es) := by
  induction es with
  | nil => exact .pure ()
  | cons e es ih =>
    rw [tidyAll]
    refine (Adds.onMessage _ e).attempt.bind fun result => ?_
    rcases result with e' | _ | _
    · exact Adds.noteFailure.bind fun _ => ih
    · exact ih
    · refine (Adds.note fun r => ?_).bind fun _ => ih
      simp [VacuumReport.add_def, VacuumReport.empty]

theorem adds_tidy (f : Folder) : Adds (v.tidy f) := by
  rw [tidy]
  exact Adds.look fun d => (Adds.ofExcept _).bind fun es => v.adds_tidyAll es

theorem adds_sweepAll (fs : List Folder) : Adds (v.sweepAll fs) := by
  induction fs with
  | nil => exact .pure ()
  | cons f fs ih =>
    rw [sweepAll]
    refine Adds.bind (Adds.attempt ?_) fun result => ?_
    · split
      · exact v.adds_drain f
      · exact v.adds_tidy f
    · cases result with
      | ok a => exact ih
      | error e => exact Adds.noteFailure.bind fun _ => ih

/-! ## What every step keeps -/

theorem keeps_attempt {α : Type} {I : Sweep → Prop} {w : Sweeping α} (hw : Keeps I w) :
    Keeps I w.attempt :=
  Keeps.tryCatch (Leads.map hw) fun e => Keeps.pure (Except.error e)

/-- Whether the steps of a vacuum keep a property, if the folders that are removed have names of some
kind. -/
structure KeepsSteps (v : Vacuum) (names : Text → Prop) (I : Sweep → Prop) : Prop where
  /-- Giving a message a better place keeps it. -/
  rehome : ∀ drained e, Keeps I (Sweeping.onMessage (v.rehome drained) e)
  /-- So does tidying a message. -/
  tidy : ∀ e, Keeps I (Sweeping.onMessage v.tidyMessage e)
  /-- So does counting a message as moved. -/
  moved : Keeps I (Sweeping.note fun r => { r with moved := r.moved + 1 })
  /-- So does counting one as written anew. -/
  rewritten : Keeps I (Sweeping.note fun r => { r with rewritten := r.rewritten + 1 })
  /-- So does counting a failure. -/
  failure : Keeps I Sweeping.noteFailure
  /-- So does removing a folder. -/
  remove : ∀ name, names name → Keeps I (v.remove name)

namespace KeepsSteps

variable {v : Vacuum} {names : Text → Prop} {I : Sweep → Prop} (h : v.KeepsSteps names I)

include h

theorem rehomeAll (drained : Text) (es : List Entry) : Keeps I (v.rehomeAll drained es) := by
  induction es with
  | nil => exact Keeps.pure 0
  | cons e es ih =>
    rw [Vacuum.rehomeAll]
    refine Keeps.bind (keeps_attempt (h.rehome drained e)) fun outcome => ?_
    cases outcome with
    | ok => exact Keeps.bind h.moved fun _ => ih
    | error => exact Keeps.bind h.failure fun _ => Keeps.bind ih fun n => Keeps.pure (n + 1)

theorem drain {f : Folder} (hf : names f.name) : Keeps I (v.drain f) := by
  refine Keeps.get fun s => Keeps.bind (Keeps.ofExcept _) fun es => ?_
  refine Keeps.bind (h.rehomeAll f.name es) fun stranded => ?_
  exact Keeps.ite (fun _ => h.remove f.name hf) fun _ => Keeps.pure ()

theorem tidyAll (es : List Entry) : Keeps I (v.tidyAll es) := by
  induction es with
  | nil => exact Keeps.pure ()
  | cons e es ih =>
    rw [Vacuum.tidyAll]
    refine Keeps.bind (keeps_attempt (h.tidy e)) fun outcome => ?_
    rcases outcome with error | _ | _
    · exact Keeps.bind h.failure fun _ => ih
    · exact ih
    · exact Keeps.bind h.rewritten fun _ => ih

theorem sweepAll {fs : List Folder} (hfs : ∀ f ∈ fs, names f.name) : Keeps I (v.sweepAll fs) := by
  induction fs with
  | nil => exact Keeps.pure ()
  | cons f fs ih =>
    have htidy : Keeps I (v.tidy f) :=
      Keeps.get fun s => Keeps.bind (Keeps.ofExcept _) fun es => h.tidyAll es
    rw [Vacuum.sweepAll]
    refine Keeps.bind (keeps_attempt (Keeps.ite (fun _ => h.drain (hfs f List.mem_cons_self))
      fun _ => htidy)) fun outcome => ?_
    have hrest := ih fun f hf => hfs f (List.mem_cons_of_mem _ hf)
    cases outcome with
    | ok => exact hrest
    | error => exact Keeps.bind h.failure fun _ => hrest

end KeepsSteps

/-- Only folders that are gone through are counted as removed. -/
theorem keepsSteps_removed (v : Vacuum) (names : Text → Prop) :
    v.KeepsSteps names (fun s => ∀ n ∈ s.report.removed, names n) where
  rehome _ _ := fun _ hs => hs
  tidy _ := fun _ hs => hs
  moved := fun _ hs => hs
  rewritten := fun _ hs => hs
  failure := fun _ hs => hs
  remove name hname := by
    have hnote : ∀ removed : Bool, Keeps (fun s : Sweep => ∀ n ∈ s.report.removed, names n)
        (if removed then Sweeping.note fun r => { r with removed := r.removed ++ [name] }
          else Sweeping.noteFailure) := fun removed =>
      Keeps.ite (fun _ s hs n hn => by
        rcases List.mem_append.1 hn with hn | hn
        · exact hs n hn
        · exact List.mem_singleton.1 hn ▸ hname) fun _ _ hs => hs
    rw [remove]
    split
    · exact (Keeps.pure true).bind hnote
    · exact Keeps.bind (fun _ hs => hs) hnote

/-! ## One folder after the other -/

/-- What a vacuum has come to when it has gone through some folders. -/
def through (fs : List Folder) (d : Disk) : Sweep := (v.sweepAll fs ⟨d, .empty⟩).2

variable {v} {f : Folder} {d : Disk}

/-- A folder that cannot be gone through counts as a failure, and the next one is taken up. -/
theorem sweepAll_cons (f : Folder) (fs : List Folder) (s : Sweep) :
    v.sweepAll (f :: fs) s = v.sweepAll fs (v.sweepAll [f] s).2 := by
  cases hrun : (if isUnwanted f.name then v.drain f else v.tidy f) s with
  | mk result s' =>
    have hattempt := Sweeping.attempt_run hrun
    rw [sweepAll, sweepAll, run_bind_ok hattempt, run_bind_ok hattempt]
    cases result <;> rfl

/-- In one folder the disk is changed as that folder wants it. -/
theorem disk_sweepAll_singleton (f : Folder) (s : Sweep) : (v.sweepAll [f] s).2.disk =
    ((if isUnwanted f.name then v.drain f else v.tidy f) s).2.disk := by
  cases hrun : (if isUnwanted f.name then v.drain f else v.tidy f) s with
  | mk result s' =>
    rw [sweepAll, run_bind_ok (Sweeping.attempt_run hrun)]
    cases result <;> rfl

/-- A folder that is drained gives what the draining comes to. -/
theorem through_drained {s : Sweep} (hf : isUnwanted f.name = true)
    (h : v.drain f ⟨d, .empty⟩ = (.ok (), s)) : v.through [f] d = s := by
  have hrun : (if isUnwanted f.name then v.drain f else v.tidy f) ⟨d, .empty⟩ = (.ok (), s) := by
    rw [if_pos hf, h]
  rw [through, sweepAll, run_bind_ok (Sweeping.attempt_run hrun)]
  rfl

theorem sweepAll_append (gs : List Folder) (fs : List Folder) (s : Sweep) :
    v.sweepAll (fs ++ gs) s = v.sweepAll gs (v.sweepAll fs s).2 := by
  induction fs generalizing s with
  | nil => rfl
  | cons f fs ih => rw [List.cons_append, sweepAll_cons, ih, ← sweepAll_cons]

/-- Going through the folders does not fail. -/
theorem sweepAll_ok (fs : List Folder) (s : Sweep) : (v.sweepAll fs s).1 = .ok () := by
  induction fs generalizing s with
  | nil => rfl
  | cons f fs ih => rw [sweepAll_cons, ih]

/-- Only the folders that were gone through can be counted as removed. -/
theorem not_mem_removed_through {fs : List Folder} {n : Text} (h : ∀ f ∈ fs, n ≠ f.name) :
    n ∉ (v.through fs d).report.removed :=
  fun hn => (v.keepsSteps_removed (n ≠ ·)).sweepAll h ⟨d, .empty⟩
    (fun _ hn => absurd hn List.not_mem_nil) n hn rfl

theorem sweepAll_through (fs : List Folder) (s : Sweep) : (v.sweepAll fs s).2 =
    ⟨(v.through fs s.disk).disk, s.report + (v.through fs s.disk).report⟩ := by
  rw [show v.sweepAll fs s = _ from v.adds_sweepAll fs s.disk s.report]
  rfl

/-- A vacuum is what it is up to one folder, what it is in this folder and what it is after it. -/
theorem run_split (hcalled : v.calledOff = false) {earlier later : List Folder}
    (hfs : v.maildir.folders d = .ok (earlier ++ f :: later)) :
    let before := v.through earlier d
    let here := v.through [f] before.disk
    let after := v.through later here.disk
    v.run d = (.ok (before.report + here.report + after.report), after.disk) := by
  intro before here after
  have hwhole : v.sweepAll (earlier ++ f :: later) ⟨d, .empty⟩ =
      (.ok (), ⟨after.disk, before.report + here.report + after.report⟩) := by
    refine Prod.ext (sweepAll_ok _ _) ?_
    rw [sweepAll_append, sweepAll_cons]
    show (v.sweepAll later (v.sweepAll [f] before).2).2 = _
    rw [sweepAll_through [f] before, sweepAll_through]
  simp only [run, hfs, hcalled, Bool.false_eq_true, if_false, hwhole]
  rfl

end Vacuum

end Mailroom
