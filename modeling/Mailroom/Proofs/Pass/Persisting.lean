import Mailroom.Proofs.Pass.Turns

/-!
# Work that calls nothing off

Only a pass finds out that it was called off.  Whatever goes wrong while a message is handled, the
error says something else, so that the pass goes on with the next folder.

* `Persists` says that some work never comes to the error of a pass that was called off;
  `Persists.bind` and the lemmas beside it put such work together.
* `Pass.persists_handle` says so of handling a message, and `Pass.persists_workOn` of the work on a
  folder in a pass that is never called off.
* `Pass.afterFolder` is what such work leaves, and `Pass.run_of_goesOn` has a whole pass do it for
  one folder after the other.
-/

namespace Mailroom

/-- Whether some work never says that a pass was called off. -/
def Persists {σ α : Type} (w : ExceptT Error (StateM σ) α) : Prop := ∀ s, (w s).1 ≠ .error .cancelled

namespace Persists

variable {σ α β : Type} {w : ExceptT Error (StateM σ) α} {f : α → ExceptT Error (StateM σ) β}

theorem pure (a : α) : Persists (pure a : ExceptT Error (StateM σ) α) := by
  intro _ h
  cases h

theorem throw {e : Error} (he : e ≠ .cancelled) :
    Persists (throw e : ExceptT Error (StateM σ) α) := by
  intro _ h
  exact he (Except.error.inj h)

theorem bind (hw : Persists w) (hf : ∀ a, Persists (f a)) : Persists (w >>= f) := by
  intro s
  have hfirst := hw s
  cases hrun : w s with
  | mk r s' =>
    rw [hrun] at hfirst
    cases r with
    | error e =>
      rw [run_bind_error hrun]
      exact fun h => hfirst (congrArg _ (Except.error.inj h))
    | ok a =>
      rw [run_bind_ok hrun]
      exact hf a s'

theorem discard (hw : Persists w) : Persists (discard w) := hw.bind fun _ => pure ()

/-- An error that is caught does not matter. -/
theorem tryCatch {handler : Error → ExceptT Error (StateM σ) α}
    (hh : ∀ e, Persists (handler e)) : Persists (tryCatch w handler) := by
  intro s
  cases hrun : w s with
  | mk r s' =>
    cases r with
    | error e =>
      rw [run_tryCatch_error hrun]
      exact hh e s'
    | ok a =>
      rw [run_tryCatch_ok hrun]
      simp

theorem ite {c : Prop} [Decidable c] {v w : ExceptT Error (StateM σ) α} (hv : c → Persists v)
    (hw : ¬ c → Persists w) : Persists (if c then v else w) := by
  split
  · rename_i h
    exact hv h
  · rename_i h
    exact hw h

theorem get {g : σ → ExceptT Error (StateM σ) β} (hg : ∀ s, Persists (g s)) :
    Persists (getThe σ >>= g) := fun s => hg s s

theorem modify (g : σ → σ) : Persists (modifyThe σ g : ExceptT Error (StateM σ) PUnit) := by
  intro _ h
  cases h

end Persists

/-! ## Looks at a message -/

theorem persists_ofExcept {α : Type} {r : Except Error α} (hr : r ≠ .error .cancelled) (d : Disk) :
    Persists (Reading.ofExcept r d) := fun _ => hr

theorem ofDisk_ne_cancelled {α : Type} (r : Except Fault α) :
    Mailroom.ofDisk r ≠ .error .cancelled := by
  cases r <;> simp [Mailroom.ofDisk]

namespace Message

theorem persists_raw (d : Disk) : Persists (raw d) := by
  refine Persists.get fun m => ?_
  cases m.content with
  | some bytes => exact Persists.pure bytes
  | none =>
    exact (persists_ofExcept (ofDisk_ne_cancelled _) d).bind fun _ =>
      (Persists.modify _).bind fun _ => Persists.pure _

theorem persists_parsed (d : Disk) : Persists (parsed d) := by
  refine Persists.get fun m => ?_
  cases m.header with
  | some h => exact Persists.pure h
  | none =>
    refine (persists_raw d).bind fun bytes => ?_
    dsimp only
    cases Header.read bytes with
    | error f => exact Persists.throw (by simp)
    | ok h => exact (Persists.modify _).bind fun _ => Persists.pure h

theorem persists_fieldValues (name : Text) (d : Disk) : Persists (fieldValues name d) := by
  refine Persists.get fun m => ?_
  cases m.edit? name with
  | some e => exact Persists.pure _
  | none => exact (persists_parsed d).bind fun _ => Persists.pure _

theorem persists_keywords (d : Disk) : Persists (keywords d) := by
  refine Persists.get fun m => ?_
  cases m.keywordSet with
  | some k => exact Persists.pure k
  | none =>
    exact ((persists_fieldValues _ d).bind fun _ => Persists.pure _).bind fun _ =>
      (Persists.modify _).bind fun _ => Persists.pure _

theorem persists_changeKeywords (change : Keywords → Keywords × Bool) (d : Disk) :
    Persists (changeKeywords change d) := by
  refine (persists_keywords d).bind fun k => (Persists.modify _).bind fun _ => ?_
  split
  · exact (Persists.modify _).bind fun _ => Persists.pure _
  · exact Persists.pure _

end Message

theorem persists_pending (destinations : List Mailbox) (d : Disk) :
    Persists (pendingRecipients destinations d) :=
  ((Message.persists_fieldValues _ d).bind fun _ => Persists.pure _).bind fun _ => Persists.pure _

/-! ## Work on a message -/

theorem Folder.messagesOf_ne_cancelled (f : Folder) (listing : Listing) (d : Disk)
    (s : ReadState) : f.messagesOf listing d s ≠ .error .cancelled := by
  cases hlist : d.list (f.statePath s) <;>
    simp [messagesOf, hlist, ofDisk, bind, Except.bind, pure, Except.pure]

theorem Folder.messages_ne_cancelled (f : Folder) (listing : Listing) (d : Disk) :
    f.messages listing d ≠ .error .cancelled := by
  have hunseen := f.messagesOf_ne_cancelled listing d .new
  have hseen := f.messagesOf_ne_cancelled listing d .cur
  cases hnew : f.messagesOf listing d .new with
  | error e =>
    rw [hnew] at hunseen
    simpa [messages, hnew, bind, Except.bind] using hunseen
  | ok unseen =>
    cases hcur : f.messagesOf listing d .cur with
    | error e =>
      rw [hcur] at hseen
      simpa [messages, hnew, hcur, bind, Except.bind] using hseen
    | ok seen => simp [messages, hnew, hcur, bind, Except.bind, pure, Except.pure]

section Lifting

variable {α : Type}

theorem persists_toEditing {r : Reading α} (hr : ∀ d, Persists (r d)) : Persists r.toEditing :=
  fun desk => hr desk.disk desk.message

theorem persists_editing {w : Editing α} (hw : Persists w) : Persists (liftM w : Handling α) :=
  fun c => hw ⟨c.office.disk, c.message⟩

theorem persists_reading {r : Reading α} (hr : ∀ d, Persists (r d)) :
    Persists (liftM r.toEditing : Handling α) := persists_editing (persists_toEditing hr)

end Lifting

theorem Entry.replace_ne_cancelled (e : Entry) (d : Disk) : e.replace d ≠ .error .cancelled := by
  cases hcreate : d.create (Path.join (e.folder.path ++ [temporaryName]) e.name) <;>
    simp [Entry.replace, hcreate, ofDisk, bind, Except.bind, pure, Except.pure]

theorem Replacement.commit_ne_cancelled (r : Replacement) (d : Disk) :
    (r.commit d).1 ≠ .error .cancelled := by
  unfold Replacement.commit
  cases d.rename r.temporary r.target <;> simp

theorem Entry.moveTo_ne_cancelled (e : Entry) (dest : Folder) (d : Disk) :
    e.moveTo dest d ≠ .error .cancelled := by
  unfold Entry.moveTo
  split
  · simp
  · split
    · cases d.rename e.path (e.pathIn dest) <;>
        simp [ofDisk, bind, Except.bind, pure, Except.pure]
    · simp

namespace Message

theorem persists_putContent (bytes : Bytes) : Persists (putContent bytes) := by
  intro desk
  have hreplace := desk.message.entry.replace_ne_cancelled desk.disk
  unfold putContent
  cases hrun : desk.message.entry.replace desk.disk with
  | error e =>
    rw [hrun] at hreplace
    exact fun h => hreplace (congrArg _ (Except.error.inj h))
  | ok opened => exact Replacement.commit_ne_cancelled _ _

theorem persists_save : Persists save := by
  refine Persists.get fun desk => Persists.ite (fun _ => Persists.pure false) fun _ => ?_
  refine (persists_toEditing persists_raw).bind fun bytes => ?_
  refine (persists_toEditing persists_parsed).bind fun header => ?_
  exact (persists_putContent _).bind fun _ => (Persists.modify _).bind fun _ => Persists.pure true

theorem persists_moveTo (dest : Folder) : Persists (moveTo dest) := by
  intro desk
  have hmove := desk.message.entry.moveTo_ne_cancelled dest desk.disk
  unfold moveTo
  cases hrun : desk.message.entry.moveTo dest desk.disk with
  | error e =>
    rw [hrun] at hmove
    exact fun h => hmove (congrArg _ (Except.error.inj h))
  | ok moved => simp

end Message

/-! ## Rules -/

namespace Clerk

theorem persists_addLabels (labels : List Text) : Persists (addLabels labels) :=
  Persists.ite (fun _ => Persists.pure ()) fun _ =>
    (persists_reading (Message.persists_changeKeywords _)).discard.bind fun _ => Persists.modify _

theorem persists_removeLabels (labels : List Text) : Persists (removeLabels labels) :=
  Persists.ite (fun _ => Persists.pure ()) fun _ =>
    (persists_reading (Message.persists_changeKeywords _)).discard.bind fun _ => Persists.modify _

/-- What the post answers is no error of the clerk. -/
theorem persists_passOn (k : Clerk) (destinations : List Mailbox) :
    Persists (k.passOn destinations) := by
  refine Persists.ite (fun _ => Persists.pure ()) fun _ => ?_
  cases k.forwarder with
  | none => exact Persists.modify _
  | some f =>
    refine Persists.ite (fun _ => ?_) fun _ => ?_
    · refine (persists_reading (persists_pending destinations)).bind fun _ => ?_
      exact Persists.ite (fun _ => Persists.modify _) fun _ => Persists.pure ()
    · refine (Persists.tryCatch fun _ => Persists.pure none).bind fun _ => ?_
      split
      · exact Persists.modify _
      · exact Persists.pure ()

theorem persists_apply (k : Clerk) (r : Rule) : Persists (k.apply r) := by
  refine (persists_addLabels r.label).bind fun _ => ?_
  refine (persists_removeLabels r.clear).bind fun _ => ?_
  refine (k.persists_passOn r.forward).bind fun _ => ?_
  refine Persists.bind (Persists.ite (fun _ => (persists_editing Message.persists_save).discard)
    fun _ => Persists.pure ()) fun _ => ?_
  unfold Clerk.move
  cases r.moveTo with
  | none => exact Persists.pure ()
  | some name =>
    exact Persists.ite (fun _ => (persists_editing (Message.persists_moveTo _)).bind fun _ =>
      Persists.modify _) fun _ => Persists.modify _

end Clerk

namespace Pass

variable {p : Pass}

theorem persists_carryOut (rules : List Rule) : Persists (p.carryOut rules) := by
  induction rules with
  | nil => exact Persists.pure ()
  | cons r rules ih =>
    have hverdict : Persists (liftM (Looking.toReading r.verdict).toEditing : Handling Verdict) := by
      intro _ h
      cases h
    refine hverdict.bind fun v => ?_
    exact Persists.ite (fun _ => (p.clerk.persists_apply r).bind fun _ => ih) fun _ => ih

theorem persists_follow (fresh : List Text) : Persists (p.follow fresh) := by
  induction hn : fresh.length using Nat.strongRecOn generalizing fresh with
  | _ n ih =>
    rw [Pass.follow]
    refine Persists.get fun c => ?_
    dsimp only
    split
    · rename_i hmem
      refine (persists_carryOut _).bind fun _ => ih _ ?_ _ rfl
      have hpos := List.length_pos_of_mem hmem
      rw [List.length_erase_of_mem hmem]
      omega
    · exact Persists.pure ()

/-- Nothing that goes wrong with a message says that the pass was called off. -/
theorem persists_handle (rules : List Rule) : Persists (p.handle rules) :=
  Persists.get fun _ => (persists_carryOut rules).bind fun _ => persists_follow _

/-! ## Passes that are never called off -/

section GoesOn

variable (hgoes : ∀ submissions, p.calledOff submissions = false)

include hgoes

theorem persists_takeUp (rules : List Rule) (e : Entry) : Persists (p.takeUp rules e) := by
  intro o
  have hhandle : ((p.handle rules).onMessage (.ofEntry e) o).1 ≠ .error .cancelled :=
    persists_handle rules ⟨o, .ofEntry e⟩
  rw [takeUp_run, hgoes]
  by_cases hlate : p.isRecent o.disk e = true
  · simp only [Bool.false_eq_true, if_false, hlate, if_true]
    cases hrun : ((p.handle rules).onMessage (.ofEntry e) o).1 with
    | ok u => simp [settled]
    | error error =>
      have hother : error ≠ .cancelled := fun heq => hhandle (hrun.trans (congrArg _ heq))
      simp only [settled]
      split
      · simpa using hother
      · simp
  · simp [hlate]

theorem persists_workThrough (rules : List Rule) (entries : List Entry) :
    Persists (p.workThrough rules entries) := by
  induction entries with
  | nil => exact Persists.pure ()
  | cons e entries ih =>
    intro o
    rw [workThrough_cons]
    exact (persists_takeUp hgoes rules e).bind (fun _ => ih) o

/-- The work on a folder never says that the pass was called off. -/
theorem persists_workOn (f : Folder) : Persists (p.workOn f) := by
  intro o
  rw [workOn_run, hgoes]
  simp only [Bool.false_eq_true, if_false]
  split
  · simp
  · have hmessages := f.messages_ne_cancelled p.maildir.listing o.disk
    cases hrun : f.messages p.maildir.listing o.disk with
    | error error =>
      rw [hrun] at hmessages
      simpa using hmessages
    | ok entries => exact persists_workThrough hgoes _ entries o

end GoesOn

/-- What the work on a folder leaves, unless the folder is left alone. -/
def afterFolder (p : Pass) (o : Office) (f : Folder) : Office :=
  if skippedFolders.contains f.name then o else (p.workOn f o).2

/-- The folders are worked on one after the other, whatever happens in any of them. -/
theorem workOnAll_of_goesOn (hgoes : ∀ submissions, p.calledOff submissions = false)
    (fs : List Folder) (o : Office) : (p.workOnAll fs o).2 = fs.foldl p.afterFolder o := by
  induction fs generalizing o with
  | nil => rfl
  | cons f fs ih =>
    rw [workOnAll_cons, List.foldl_cons, afterFolder]
    split
    · exact ih o
    · rw [if_neg (persists_workOn hgoes f o)]
      exact ih _

theorem run_of_goesOn {o : Office} {fs : List Folder}
    (hgoes : ∀ submissions, p.calledOff submissions = false)
    (hfs : p.maildir.folders o.disk = .ok fs) : (p.run o).2 = fs.foldl p.afterFolder o := by
  rw [run_of_folders hfs, workOnAll_of_goesOn hgoes]

end Pass

end Mailroom
