import Mailroom.Proofs.Forwarding

/-!
# What a rule keeps

A clerk adds labels, removes labels, passes on, saves and moves.  What each of these steps keeps is
kept when a rule is carried out.

* `Message.Rewritten` is what saving with success comes to.
* `maintains_save` and `maintains_move` reduce saving and moving to what they do to the disk.
* `maintains_apply` puts the five steps together.
-/

namespace Mailroom

variable {I J : Office → Sight → Prop} {root place : Path}

/-! ## Labels and forwarding -/

section Steps

variable (hsummary : ∀ o v summary, I o v → I { o with summary := summary } v)

include hsummary

/-- Passing on keeps what giving a letter to the post keeps. -/
theorem maintains_passOn {k : Clerk} {destinations : List Mailbox}
    (hI : ∀ o v done letter accepted, k.dryRun = false → I o v → v.forwarded = .ok done →
      letter.recipients = pendingOf done destinations →
      I (o.posted ⟨letter, v.entry.path, accepted⟩)
        (if accepted then v.withField forwardedField
          (Text.join ", " (done.insertAll (pendingOf done destinations)).toList) else v)) :
    Handling.Maintains I (k.passOn destinations) := by
  intro c hc
  obtain ⟨result, summary, m, -, ⟨hrun, hsight⟩ |
    ⟨hdry, done, letter, accepted, hrun, hdone, hletter, hsight⟩⟩ := passOn_cases k destinations c
  · rw [hrun]
    show I { c.office with summary := summary } (m.sight c.office.disk)
    rw [hsight]
    exact hsummary _ _ _ hc
  · rw [hrun]
    show I { c.office.posted ⟨letter, c.sight.entry.path, accepted⟩ with summary := summary }
      (m.sight c.office.disk)
    rw [hsight]
    exact hsummary _ _ _ (hI _ _ done letter accepted hdry hc hdone hletter)

theorem maintains_addLabels {labels : List Text}
    (hI : ∀ o v k, I o v → v.keywords = .ok k → I o (v.withKeywords (k.insertAll labels))) :
    Handling.Maintains I (Clerk.addLabels labels) := by
  unfold Clerk.addLabels
  refine Keeps.ite (fun _ => Keeps.pure ()) fun _ => ?_
  exact Keeps.bind (Keeps.discard (maintains_changeKeywords hI)) fun _ =>
    maintains_record hsummary _

theorem maintains_removeLabels {labels : List Text}
    (hI : ∀ o v k, I o v → v.keywords = .ok k → I o (v.withKeywords (k.eraseAll labels))) :
    Handling.Maintains I (Clerk.removeLabels labels) := by
  unfold Clerk.removeLabels
  refine Keeps.ite (fun _ => Keeps.pure ()) fun _ => ?_
  exact Keeps.bind (Keeps.discard (maintains_changeKeywords hI)) fun _ =>
    maintains_record hsummary _

end Steps

/-! ## Saving and moving -/

/-- Work on a message is judged by what it does to the disk and the message. -/
theorem leads_editing {α : Type} {e : Editing α}
    (h : ∀ c : Case, I c.office c.sight → ∃ result d' m', e ⟨c.office.disk, c.message⟩ =
      (result, ⟨d', m'⟩) ∧ J { c.office with disk := d' } (m'.sight d')) :
    Leads (fun c : Case => I c.office c.sight) (fun c => J c.office c.sight)
      (liftM e : Handling α) := by
  intro c hc
  obtain ⟨result, d', m', hrun, hkept⟩ := h c hc
  rw [liftM_run hrun]
  exact hkept

theorem save_eq_discard {k : Clerk} (hdry : k.dryRun = false) :
    k.save = discard (liftM Message.save : Handling Bool) := by
  rw [Clerk.save, hdry]
  rfl

/-- What is seen of a message at a slot, and of the disk, when its new values were written. -/
structure Message.Rewritten (root place : Path) (s : Slot) (f : File) (d : Disk) (v : Sight)
    (header : Header) (id : FileId) (d' : Disk) (v' : Sight) : Prop where
  /-- The header block that was there. -/
  read : readHeader f.content = .ok header
  /-- There was something to be written. -/
  dirty : v.edits ≠ []
  /-- Nothing but the file has changed. -/
  elsewhere : d.Elsewhere [place ++ s.names, place ++ s.temporary] d'
  /-- The message is where it was. -/
  at_slot : Message.At root place s ⟨id, revise f.content header.bodyOffset v.edits, d.clock⟩ d' v'
  /-- Nothing is to be written any more. -/
  edits : v'.edits = []
  /-- The keywords are still remembered, or they are those that were written. -/
  keywords : v'.keywords = v.keywords ∨
    v'.keywords = seenKeywords [] (readHeader (revise f.content header.bodyOffset v.edits))

/-- What saving leads to: nothing was to be written, or it could not be, or it was. -/
theorem leads_save {k : Clerk} (hdry : k.dryRun = false)
    (hI : ∀ o v, I o v → ∃ s f, Message.At root place s f o.disk v ∧
      (v.edits = [] → J o v) ∧
      (v.edits ≠ [] → (∃ e, readHeader f.content = .error e) ∨ ¬ s.HasRoom place o.disk → J o v) ∧
      ∀ header id d' v', Message.Rewritten root place s f o.disk v header id d' v' →
        J { o with disk := d' } v') :
    Leads (fun c : Case => I c.office c.sight) (fun c => J c.office c.sight) k.save := by
  rw [save_eq_discard hdry]
  refine Leads.discard (leads_editing fun c hc => ?_)
  obtain ⟨s, f, hat, hnone, hfailed, hsaved⟩ := hI c.office c.sight hc
  rcases Message.save_cases hat with ⟨hedits, hrun⟩ | ⟨hedits, e, m', hrun, hsight, hwhy⟩ |
    ⟨hedits, header, d', m', id, hread, hrun, helse, -, hat', hedits', hkeywords, -⟩
  · exact ⟨_, _, _, hrun, hnone hedits⟩
  · refine ⟨_, _, _, hrun, ?_⟩
    rw [hsight]
    exact hfailed hedits hwhy
  · exact ⟨_, _, _, hrun,
      hsaved header id d' (m'.sight d') ⟨hread, hedits, helse, hat', hedits', hkeywords⟩⟩

/-- Saving keeps what holds of the message afterwards, if something was written. -/
theorem maintains_save {k : Clerk} (hI : ∀ o v, I o v → ∃ s f, Message.At root place s f o.disk v ∧
      ∀ header id d' v', Message.Rewritten root place s f o.disk v header id d' v' →
        I { o with disk := d' } v') :
    Handling.Maintains I k.save := by
  cases hdry : k.dryRun with
  | true =>
    rw [Clerk.save, hdry]
    exact Keeps.pure ()
  | false =>
    exact leads_save hdry fun o v hv => (hI o v hv).imp fun s hs => hs.imp fun f hf =>
      ⟨hf.1, fun _ => hv, fun _ _ => hv, hf.2⟩

/-- Moving keeps what holds of the message at its new place, if it gets there. -/
theorem maintains_move {k : Clerk} (hroot : k.maildir.root = root) {target : Option Text}
    (hsummary : ∀ o v summary, I o v → I { o with summary := summary } v)
    (hproper : ∀ g, target = some g → IsName g)
    (hI : ∀ o v g (hg : IsName g), target = some g → I o v →
      ∃ s f, Message.At root place s f o.disk v ∧ ∀ d', g ≠ s.folder →
        o.disk.Elsewhere [place ++ s.names, place ++ (s.within g hg).names] d' →
        d'.item? (place ++ s.names) = none →
        Message.At root place (s.within g hg) f d'
          { v with entry := (s.within g hg).entry root } →
        I { o with disk := d' } { v with entry := (s.within g hg).entry root }) :
    Handling.Maintains I (k.move target) := by
  unfold Clerk.move
  cases target with
  | none => exact Keeps.pure ()
  | some g =>
    have hrest : Handling.Maintains I (Handling.record ("Moved " ++ g)) :=
      maintains_record hsummary _
    refine Keeps.ite (fun _ => Keeps.bind (leads_editing fun c hc => ?_) fun _ => hrest)
      fun _ => hrest
    have hg := hproper g rfl
    obtain ⟨s, f, hat, hmoved⟩ := hI c.office c.sight g hg rfl hc
    rw [Maildir.folder, hroot]
    rcases Message.moveTo_cases hat.sound hat.resolve hat.entry hat.file hg with
      ⟨r, hrun, -⟩ | ⟨d', hrun, hne, -, helse, hgone, hthere⟩
    · exact ⟨_, _, _, hrun, hc⟩
    · have hplace := helse.resolve hat.resolve
      refine ⟨_, _, _, hrun, ?_⟩
      rw [Message.sight_moved hat helse.sound hplace hthere]
      exact hmoved d' hne helse hgone (hat.moved helse.sound hplace hthere)

/-! ## Rules -/

/-- What the five steps keep is kept when a rule is carried out. -/
theorem maintains_apply {k : Clerk} {r : Rule}
    (hsummary : ∀ o v summary, I o v → I { o with summary := summary } v)
    (hinsert : ∀ o v ks, I o v → v.keywords = .ok ks → I o (v.withKeywords (ks.insertAll r.label)))
    (herase : ∀ o v ks, I o v → v.keywords = .ok ks → I o (v.withKeywords (ks.eraseAll r.clear)))
    (hpassOn : Handling.Maintains I (k.passOn r.forward)) (hsave : Handling.Maintains I k.save)
    (hmove : Handling.Maintains I (k.move r.moveTo)) : Handling.Maintains I (k.apply r) := by
  unfold Clerk.apply
  refine Keeps.bind (maintains_addLabels hsummary hinsert) fun _ => ?_
  refine Keeps.bind (maintains_removeLabels hsummary herase) fun _ => ?_
  refine Keeps.bind hpassOn fun _ => ?_
  exact Keeps.bind hsave fun _ => hmove

end Mailroom
