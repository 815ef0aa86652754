import Mailroom.Proofs.Message.Agreement

/-!
# Keywords that are remembered

Whether a message is starred is the last thing that is asked before the tests of a rule are made.
So a message remembers its keywords from the first rule on that is for it, and nothing but a change
of the labels changes what is remembered of them.  When the message was saved, they are what they
were before, whatever its file gives.

* `Message.Knows` says that a message remembers its keywords, and `Recalls` that a look does not
  change this; `recalls_raw` to `recalls_copy` say so of every look that a rule takes.
* `knows_of_applies` says that they are remembered when a rule is for the message.
* `Clerk.leads_addLabels` to `Clerk.keeps_passOn` are for the steps of a clerk, and `knows_save` is
  for saving the message.
-/

namespace Mailroom

/-- Whether a message remembers these keywords. -/
def Message.Knows (k : Keywords) (m : Message) : Prop := m.keywordSet = some k

/-- A look that does not change the keywords that are remembered. -/
def Recalls {α : Type} (k : Keywords) (r : Reading α) : Prop := ∀ d, Keeps (Message.Knows k) (r d)

variable {k : Keywords} {d : Disk} {m : Message}

theorem Message.Knows.keywords (h : m.Knows k) (d : Disk) : (m.sight d).keywords = .ok k := by
  have hset : m.keywordSet = some k := h
  simp only [sight, hset]

section Recalls

variable {α β : Type}

theorem Recalls.pure (a : α) : Recalls k (pure a) := fun _ => Keeps.pure a

theorem Recalls.throw (e : Error) : Recalls k (throw e : Reading α) := fun _ => Keeps.throw e

theorem Recalls.ofExcept (a : Except Error α) : Recalls k (Reading.ofExcept a) := fun _ _ h => h

theorem Recalls.bind {r : Reading α} {g : α → Reading β} (hr : Recalls k r)
    (hg : ∀ a, Recalls k (g a)) : Recalls k (r >>= g) :=
  fun d => Keeps.bind (hr d) fun a => hg a d

/-- A look may depend on what is known of the message from the first. -/
theorem Recalls.get {g : Message → Reading α} (hg : ∀ m, Recalls k (g m)) :
    Recalls k (MonadState.get >>= g) := fun d m h => hg m d m h

end Recalls

/-! ## Looks -/

namespace Message

theorem recalls_raw : Recalls k raw := fun d => keeps_raw (fun _ _ h => h) d

theorem recalls_parsed : Recalls k parsed :=
  fun d => keeps_parsed (fun _ _ h => h) (fun _ _ h => h) d

theorem recalls_fieldValues (name : Text) : Recalls k (fieldValues name) :=
  fun d => keeps_fieldValues (fun _ _ h => h) (fun _ _ h => h) d name

theorem recalls_field? (name : Text) : Recalls k (field? name) :=
  (recalls_fieldValues name).bind fun _ => .pure _

theorem recalls_subject : Recalls k subject := (recalls_field? "Subject").bind fun _ => .pure _

theorem recalls_mailboxes (name : Text) : Recalls k (mailboxes name) := by
  refine (recalls_fieldValues name).bind fun vs => ?_
  cases mailboxesOf vs with
  | ok ms => exact .pure ms
  | error f => exact .throw _

theorem recalls_date : Recalls k date := by
  refine (recalls_field? "Date").bind fun value? => ?_
  cases value? with
  | none => exact .get fun m => .throw _
  | some value =>
    dsimp only
    cases Date.parse value with
    | error f => exact .throw _
    | ok t =>
      dsimp only
      split
      · exact .pure t
      · exact .throw _

/-- Keywords that are remembered are not looked for in the file. -/
theorem keywords_of_knows (h : m.Knows k) (d : Disk) : keywords d m = (.ok k, m) := by
  obtain ⟨entry, content, header, keywordSet, edits⟩ := m
  obtain rfl : keywordSet = some k := h
  rfl

theorem recalls_keywords : Recalls k keywords := by
  intro d m h
  rw [keywords_of_knows h]
  exact h

theorem recalls_hasAll (names : List Text) : Recalls k (hasAll names) :=
  recalls_keywords.bind fun _ => .pure _

theorem recalls_hasNone (names : List Text) : Recalls k (hasNone names) :=
  recalls_keywords.bind fun _ => .pure _

end Message

theorem recalls_textTest (t : TextTest) (operand : Text) : Recalls k (t.holds operand) := by
  cases t with
  | author => exact (Message.recalls_mailboxes _).bind fun _ => .pure _
  | authorDomain => exact (Message.recalls_mailboxes _).bind fun _ => .pure _
  | recipient => exact (Message.recalls_mailboxes _).bind fun _ => .pure _
  | recipientDomain => exact (Message.recalls_mailboxes _).bind fun _ => .pure _
  | sender => exact (Message.recalls_mailboxes _).bind fun _ => .pure _
  | deliveredTo => exact (Message.recalls_mailboxes _).bind fun _ => .pure _
  | subject => exact Message.recalls_subject.bind fun _ => .pure _
  | subjectAnyCase => exact Message.recalls_subject.bind fun _ => .pure _
  | subjectPart => exact Message.recalls_subject.bind fun _ => .pure _
  | subjectPartAnyCase => exact Message.recalls_subject.bind fun _ => .pure _
  | part => exact Message.recalls_raw.bind fun _ => .pure _
  | partAnyCase => exact Message.recalls_raw.bind fun _ => .pure _

theorem recalls_test (r : Rule) (t : Test) : Recalls k (r.holds t) := by
  cases t with
  | folder => exact .get fun m => .pure _
  | age =>
    simp only [Rule.holds]
    cases r.okayDate with
    | none => exact .pure true
    | some okay => exact Message.recalls_date.bind fun _ => .pure _
  | text t =>
    simp only [Rule.holds]
    cases r.criteria.operand t with
    | none => exact .pure true
    | some operand => exact recalls_textTest t operand

theorem recalls_skip (r : Rule) (s : Skip) : Recalls k (s.holds r) := by
  cases s with
  | alreadyLabeled =>
    simp only [Skip.holds]
    split
    · exact .pure false
    · exact Message.recalls_hasAll _
  | alreadyCleared =>
    simp only [Skip.holds]
    split
    · exact .pure false
    · exact Message.recalls_hasNone _
  | alreadyInFolder => exact .get fun m => .pure _
  | starred => exact Message.recalls_hasAll _

theorem recalls_firstSkip (r : Rule) (ss : List Skip) : Recalls k (Skip.first? r ss) := by
  induction ss with
  | nil => exact .pure none
  | cons s ss ih =>
    refine (recalls_skip r s).bind fun b => ?_
    split
    · exact .pure _
    · exact ih

theorem knows_firstFailure (r : Rule) (ts : List Test) (h : m.Knows k) :
    (r.firstFailure ts d m).2.Knows k := by
  induction ts generalizing m with
  | nil => exact h
  | cons t ts ih =>
    have hstep : ((r.holds t).attempt d m).2.Knows k := recalls_test r t d m h
    rw [Rule.firstFailure, run_looking_bind]
    cases hrun : (r.holds t).attempt d m with
    | mk result m' =>
      rw [hrun] at hstep
      dsimp only
      split
      · exact ih hstep
      · exact hstep

theorem recalls_forwarded : Recalls k forwardedRecipients :=
  (Message.recalls_fieldValues forwardedField).bind fun _ => .pure _

theorem recalls_pending (destinations : List Mailbox) :
    Recalls k (pendingRecipients destinations) :=
  recalls_forwarded.bind fun _ => .pure _

theorem recalls_mailboxesOrNone (name : Text) : Recalls k (Citation.mailboxesOrNone name) :=
  fun d => Keeps.tryCatch (Message.recalls_mailboxes name d) fun _ => Keeps.pure []

theorem recalls_citation : Recalls k Citation.ofMessage :=
  (recalls_mailboxesOrNone _).bind fun _ => (Message.recalls_field? _).bind fun _ =>
    Message.recalls_subject.bind fun _ => (recalls_mailboxesOrNone _).bind fun _ =>
      (recalls_mailboxesOrNone _).bind fun _ => .pure _

theorem recalls_copy (sender : Mailbox) (destinations : List Mailbox) (time : Time)
    (suggestions : List Text) : Recalls k (Copy.ofMessage sender destinations time suggestions) :=
  Message.recalls_raw.bind fun _ => (Recalls.ofExcept _).bind fun _ =>
    recalls_citation.bind fun _ => (Recalls.ofExcept _).bind fun _ => .pure _

/-! ## When the keywords are remembered -/

/-- Keywords that were asked for are remembered. -/
theorem knows_hasAll {names : List Text} {b : Bool} (h : (m.sight d).hasAll names = .ok b) :
    ∃ k, (m.sight d).keywords = .ok k ∧ (Message.hasAll names d m).2.Knows k := by
  obtain ⟨k, hk, -⟩ := exists_of_bind_ok h
  obtain ⟨m', hrun, -, hset⟩ := Message.keywords_run hk
  refine ⟨k, hk, ?_⟩
  have hall : Message.hasAll names d m = (.ok (names.all k.contains), m') := run_bind_ok hrun
  rw [hall]
  exact hset

theorem knows_firstSkip (r : Rule) {ss : List Skip} (hstarred : .starred ∈ ss)
    (h : (m.sight d).firstSkip r ss = .ok none) :
    ∃ k, (m.sight d).keywords = .ok k ∧ (Skip.first? r ss d m).2.Knows k := by
  induction ss generalizing m with
  | nil => exact absurd hstarred List.not_mem_nil
  | cons s ss ih =>
    have hskip := Sight.firstSkip_eq_ok_none.1 h s (by simp)
    have hrest := Sight.firstSkip_eq_ok_none.2 fun s' hs' =>
      Sight.firstSkip_eq_ok_none.1 h s' (List.mem_cons_of_mem _ hs')
    obtain ⟨hvalue, hsight⟩ := reads_skip r s d m
    have hstep : Skip.first? r (s :: ss) d m = Skip.first? r ss d (s.holds r d m).2 :=
      run_bind_ok (Prod.ext (hvalue.trans hskip) rfl)
    rw [hstep]
    rcases List.mem_cons.1 hstarred with rfl | hstarred
    · obtain ⟨k, hk, hknows⟩ := knows_hasAll hskip
      exact ⟨k, hk, recalls_firstSkip r ss d _ hknows⟩
    · rw [← hsight]
      exact ih hstarred (hsight ▸ hrest)

/-- When a rule is for a message, the message remembers its keywords. -/
theorem knows_of_applies {r : Rule} (h : ((m.sight d).verdict r).applies = true) :
    ∃ k, (m.sight d).keywords = .ok k ∧ (Looking.toReading r.verdict d m).2.Knows k := by
  have hnone : (m.sight d).firstSkip r Skip.all = .ok none :=
    Sight.firstSkip_eq_ok_none.2 fun s _ => (Sight.applies_iff.1 h).1 s
  obtain ⟨k, hk, hknows⟩ := knows_firstSkip r (by decide) hnone
  have hrun : (Skip.first? r Skip.all).attempt d m =
      (.ok none, (Skip.first? r Skip.all d m).2) :=
    Prod.ext ((reads_firstSkip r Skip.all d m).1.trans hnone) rfl
  refine ⟨k, hk, ?_⟩
  show (r.verdict d m).2.Knows k
  rw [Rule.verdict, run_looking_bind, hrun]
  have hafter := knows_firstFailure (d := d) r r.tests hknows
  dsimp only
  rw [run_looking_bind]
  cases hfailure : r.firstFailure r.tests d (Skip.first? r Skip.all d m).2 with
  | mk failure? m' =>
    rw [hfailure] at hafter
    cases failure? with
    | some t => exact hafter
    | none => exact hafter

/-! ## The steps of a clerk -/

/-- Whether the message at hand remembers these keywords. -/
def Case.Knows (k : Keywords) (c : Case) : Prop := c.message.Knows k

/-- A change of the keywords is remembered. -/
theorem knows_changeKeywords (change : Keywords → Keywords × Bool) (h : m.Knows k) :
    (Message.changeKeywords change d m).2.Knows (change k).1 := by
  have hrun : Message.changeKeywords change d m = _ :=
    run_bind_ok (Message.keywords_of_knows h d)
  rw [hrun]
  cases hchange : change k with
  | mk k' changed =>
    simp only [hchange]
    cases changed with
    | false => rfl
    | true => rfl

theorem keeps_look {α : Type} {r : Reading α} (hr : Recalls k r) :
    Keeps (Case.Knows k) (Editing.toHandling r.toEditing) :=
  fun c hc => hr c.office.disk c.message hc

namespace Clerk

/-- So it is when a clerk makes one. -/
theorem leads_changeKeywords (change : Keywords → Keywords × Bool) (action : Text) :
    Leads (Case.Knows k) (Case.Knows (change k).1) (do
      discard (Reading.toEditing (Message.changeKeywords change) : Handling Bool)
      Handling.record action : Handling Unit) :=
  Leads.bind (Leads.discard fun _ hc => knows_changeKeywords change hc) fun _ =>
    Keeps.modify fun _ hc => hc

theorem leads_addLabels (labels : List Text) :
    Leads (Case.Knows k) (Case.Knows (k.insertAll labels).1) (addLabels labels) := by
  cases labels with
  | nil => exact Keeps.pure ()
  | cons l labels => exact leads_changeKeywords (·.insertAll (l :: labels)) _

theorem leads_removeLabels (labels : List Text) :
    Leads (Case.Knows k) (Case.Knows (k.eraseAll labels).1) (removeLabels labels) := by
  cases labels with
  | nil => exact Keeps.pure ()
  | cons l labels => exact leads_changeKeywords (·.eraseAll (l :: labels)) _

theorem keeps_forward (f : Forwarder) (destinations : List Mailbox) (now : Time) :
    Keeps (Case.Knows k) (f.forward destinations now) := by
  refine Keeps.bind (keeps_look (recalls_pending destinations)) fun recipients => ?_
  refine Keeps.ite (fun _ => Keeps.pure _) fun _ => ?_
  refine Keeps.bind (keeps_look (recalls_copy _ _ _ _)) fun copy => ?_
  refine Keeps.bind (fun _ hc => hc) fun _ => ?_
  refine Keeps.bind (keeps_look recalls_forwarded) fun done => ?_
  exact Keeps.bind (Keeps.modify fun _ hc => hc) fun _ => Keeps.pure _

/-- Passing on does not change what is remembered of the keywords. -/
theorem keeps_passOn (clerk : Clerk) (destinations : List Mailbox) :
    Keeps (Case.Knows k) (clerk.passOn destinations) := by
  have hrecord : ∀ action, Keeps (Case.Knows k) (Handling.record action) :=
    fun _ => Keeps.modify fun _ hc => hc
  unfold passOn
  refine Keeps.ite (fun _ => Keeps.pure ()) fun _ => ?_
  cases clerk.forwarder with
  | none => exact hrecord _
  | some f =>
    refine Keeps.ite (fun _ => ?_) fun _ => ?_
    · refine Keeps.bind (keeps_look (recalls_pending destinations)) fun pending => ?_
      exact Keeps.ite (fun _ => hrecord _) fun _ => Keeps.pure ()
    · refine Keeps.bind (Keeps.tryCatch (Leads.map (keeps_forward f destinations clerk.now))
        fun _ => Keeps.pure none) fun outcome => ?_
      rcases outcome with - | ⟨-⟩ | -
      · exact Keeps.pure ()
      · exact hrecord _
      · exact Keeps.pure ()

end Clerk

/-- What is remembered of the keywords does not change when the message is saved. -/
theorem knows_save : Keeps (fun desk : Desk => desk.message.Knows k) Message.save := by
  have hlook : ∀ {α : Type} {r : Reading α}, Recalls k r →
      Keeps (fun desk : Desk => desk.message.Knows k) r.toEditing :=
    fun hr desk h => hr desk.disk desk.message h
  refine Keeps.get fun desk => Keeps.ite (fun _ => Keeps.pure _) fun _ => ?_
  refine Keeps.bind (hlook Message.recalls_raw) fun bytes => ?_
  refine Keeps.bind (hlook Message.recalls_parsed) fun header => ?_
  refine Keeps.bind (fun desk h => ?_) fun _ => Keeps.bind (Keeps.modify fun _ h => h) fun _ =>
    Keeps.pure _
  unfold Message.putContent
  split <;> exact h

end Mailroom
