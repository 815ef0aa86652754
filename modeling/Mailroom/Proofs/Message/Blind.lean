import Mailroom.Proofs.Alongside
import Mailroom.Proofs.Forwarding

/-!
# Looks that do not see the place

What a look at a message gives, and what the message remembers then, depends on what it remembers
already and on what is read of its file.  Where the file is, and what else is on the disk, does not
matter, but for the name of the folder and for the key of the message.

* `Entry.Reads` says that two entries are of files that read the same.
* `Blind` says that a look comes to the same for two messages that are alike in this way.
* `blind_raw` to `blind_copy` say so of every look that a rule takes.
-/

namespace Mailroom

/-- Two entries, on two disks, that cannot be told apart by reading them. -/
structure Entry.SameToRead (d d' : Disk) (e e' : Entry) : Prop where
  /-- The folders have one name. -/
  folder : e'.folder.name = e.folder.name
  /-- The keys are the same. -/
  key : e'.key = e.key
  /-- The files read the same. -/
  read : e'.read d' = e.read d

/-- Two messages that remember the same, of two entries. -/
def Message.Twins (e e' : Entry) (m m' : Message) : Prop :=
  m.entry = e ∧ m' = { m with entry := e' }

/-- A look that comes to the same for messages that remember the same and read the same. -/
def Blind {α : Type} (r : Reading α) : Prop :=
  ∀ d d' e e', Entry.SameToRead d d' e e' → Alongside (Message.Twins e e') (r d) (r d')

/-- A look without failure that comes to the same. -/
def Looking.Blind {α : Type} (l : Looking α) : Prop :=
  ∀ d d' e e', Entry.SameToRead d d' e e' → ∀ m m', Message.Twins e e' m m' →
    (l d' m').1 = (l d m).1 ∧ Message.Twins e e' (l d m).2 (l d' m').2

section Blind

variable {α β : Type}

theorem Blind.pure (a : α) : Blind (pure a) := fun _ _ _ _ _ => Alongside.pure a

theorem Blind.throw (e : Error) : Blind (throw e : Reading α) :=
  fun _ _ _ _ _ => Alongside.throw (.same e)

theorem Blind.ofExcept (a : Except Error α) : Blind (Reading.ofExcept a) := by
  intro d d' e e' _ m m' hm
  exact ⟨.refl a, hm⟩

theorem Blind.bind {r : Reading α} {g : α → Reading β} (hr : Blind r) (hg : ∀ a, Blind (g a)) :
    Blind (r >>= g) :=
  fun d d' e e' he => Alongside.bind (hr d d' e e' he) fun a => hg a d d' e e' he

/-- A look may depend on what is remembered, and on the name of the folder and the key. -/
theorem Blind.get {g : Message → Reading α}
    (hg : ∀ d d' e e', Entry.SameToRead d d' e e' → ∀ m m', Message.Twins e e' m m' →
      Alongside (Message.Twins e e') (g m d) (g m' d')) :
    Blind (MonadState.get >>= g) :=
  fun d d' e e' he m m' hm => hg d d' e e' he m m' hm m m' hm

/-- What is remembered may change in a way that has nothing to do with the entry. -/
theorem Blind.modify {g : Message → Message} (hentry : ∀ m, (g m).entry = m.entry)
    (hg : ∀ m e, g { m with entry := e } = { g m with entry := e }) : Blind (modify g) := by
  rintro d d' e e' - m m' ⟨rfl, rfl⟩
  exact ⟨.ok _, hentry m, hg m e'⟩

end Blind

/-! ## Fields and keywords -/

namespace Message

theorem blind_raw : Blind raw := by
  refine Blind.get fun d d' e e' he m m' hm => ?_
  obtain ⟨rfl, rfl⟩ := hm
  dsimp only
  cases m.content with
  | some b => exact Alongside.pure b
  | none =>
    change Alongside (Twins m.entry e') (Reading.ofExcept (m.entry.read d) d >>= fun bytes =>
      (do modify fun m => { m with content := some bytes }; return bytes : Reading Bytes) d)
      (Reading.ofExcept (e'.read d') d' >>= fun bytes =>
        (do modify fun m => { m with content := some bytes }; return bytes : Reading Bytes) d')
    rw [he.read]
    have hrest : ∀ bytes, Blind (do
        modify fun m => { m with content := some bytes }
        return bytes) := fun bytes =>
      Blind.bind (Blind.modify (fun _ => rfl) fun _ _ => rfl) fun _ => Blind.pure bytes
    exact Alongside.bind (Blind.ofExcept _ d d' _ e' he) fun bytes => hrest bytes d d' _ e' he

theorem blind_parsed : Blind parsed := by
  refine Blind.get fun d d' e e' he m m' hm => ?_
  obtain ⟨rfl, rfl⟩ := hm
  dsimp only
  cases m.header with
  | some h => exact Alongside.pure h
  | none =>
    refine Blind.bind blind_raw (fun bytes => ?_) d d' _ e' he
    cases Header.read bytes with
    | error f => exact Blind.throw _
    | ok h => exact Blind.bind (Blind.modify (fun _ => rfl) fun _ _ => rfl) fun _ => Blind.pure h

theorem blind_fieldValues (name : Text) : Blind (fieldValues name) := by
  refine Blind.get fun d d' e e' he m m' hm => ?_
  obtain ⟨rfl, rfl⟩ := hm
  have hedit : edit? { m with entry := e' } name = m.edit? name := rfl
  rw [hedit]
  cases m.edit? name with
  | some e => exact Alongside.pure _
  | none =>
    have hrest : Blind (do return (← parsed).values name) :=
      Blind.bind blind_parsed fun _ => Blind.pure _
    exact hrest d d' _ e' he

theorem blind_field? (name : Text) : Blind (field? name) :=
  Blind.bind (blind_fieldValues name) fun _ => Blind.pure _

theorem blind_subject : Blind subject := Blind.bind (blind_field? "Subject") fun _ => Blind.pure _

theorem blind_mailboxes (name : Text) : Blind (mailboxes name) := by
  refine Blind.bind (blind_fieldValues name) fun vs => ?_
  cases mailboxesOf vs with
  | ok ms => exact Blind.pure ms
  | error f => exact Blind.throw _

theorem blind_date : Blind date := by
  refine Blind.bind (blind_field? "Date") fun value? => ?_
  cases value? with
  | none =>
    refine Blind.get fun d d' e e' he m m' hm => ?_
    obtain ⟨rfl, rfl⟩ := hm
    have hkey : ({ m with entry := e' } : Message).entry.key = m.entry.key := he.key
    rw [hkey]
    exact Alongside.throw (.same _)
  | some value =>
    dsimp only
    cases Date.parse value with
    | error f => exact Blind.throw _
    | ok t =>
      dsimp only
      split
      · exact Blind.pure t
      · exact Blind.throw _

theorem blind_keywordText : Blind keywordText :=
  Blind.bind (blind_fieldValues Keywords.fieldName) fun _ => Blind.pure _

theorem blind_keywords : Blind keywords := by
  refine Blind.get fun d d' e e' he m m' hm => ?_
  obtain ⟨rfl, rfl⟩ := hm
  dsimp only
  cases m.keywordSet with
  | some k => exact Alongside.pure k
  | none =>
    refine Blind.bind blind_keywordText (fun t => ?_) d d' _ e' he
    exact Blind.bind (Blind.modify (fun _ => rfl) fun _ _ => rfl) fun _ => Blind.pure _

theorem blind_hasAll (names : List Text) : Blind (hasAll names) :=
  Blind.bind blind_keywords fun _ => Blind.pure _

theorem blind_hasNone (names : List Text) : Blind (hasNone names) :=
  Blind.bind blind_keywords fun _ => Blind.pure _

theorem blind_changeKeywords (change : Keywords → Keywords × Bool) :
    Blind (changeKeywords change) := by
  refine Blind.bind blind_keywords fun k => ?_
  refine Blind.bind (Blind.modify (fun _ => rfl) fun _ _ => rfl) fun _ => ?_
  split
  · exact Blind.bind (Blind.modify (fun _ => rfl) fun _ _ => rfl) fun _ => Blind.pure _
  · exact Blind.pure _

end Message

/-! ## The verdict -/

theorem blind_textTest (t : TextTest) (operand : Text) : Blind (t.holds operand) := by
  cases t with
  | author => exact Blind.bind (Message.blind_mailboxes _) fun _ => Blind.pure _
  | authorDomain => exact Blind.bind (Message.blind_mailboxes _) fun _ => Blind.pure _
  | recipient => exact Blind.bind (Message.blind_mailboxes _) fun _ => Blind.pure _
  | recipientDomain => exact Blind.bind (Message.blind_mailboxes _) fun _ => Blind.pure _
  | sender => exact Blind.bind (Message.blind_mailboxes _) fun _ => Blind.pure _
  | deliveredTo => exact Blind.bind (Message.blind_mailboxes _) fun _ => Blind.pure _
  | subject => exact Blind.bind Message.blind_subject fun _ => Blind.pure _
  | subjectAnyCase => exact Blind.bind Message.blind_subject fun _ => Blind.pure _
  | subjectPart => exact Blind.bind Message.blind_subject fun _ => Blind.pure _
  | subjectPartAnyCase => exact Blind.bind Message.blind_subject fun _ => Blind.pure _
  | part => exact Blind.bind Message.blind_raw fun _ => Blind.pure _
  | partAnyCase => exact Blind.bind Message.blind_raw fun _ => Blind.pure _

/-- The name of the folder is the same for both messages. -/
theorem blind_folder {α : Type} (g : Text → α) :
    Blind (do return g (← MonadState.get).folder : Reading α) := by
  refine Blind.get fun d d' e e' he m m' hm => ?_
  obtain ⟨rfl, rfl⟩ := hm
  have hfolder : ({ m with entry := e' } : Message).folder = m.folder := he.folder
  rw [hfolder]
  exact Alongside.pure _

theorem blind_test (r : Rule) (t : Test) : Blind (r.holds t) := by
  cases t with
  | folder => exact blind_folder fun folder => r.criteria.folder.all (· == folder)
  | age =>
    simp only [Rule.holds]
    cases r.okayDate with
    | none => exact Blind.pure true
    | some okay => exact Blind.bind Message.blind_date fun _ => Blind.pure _
  | text t =>
    simp only [Rule.holds]
    cases r.criteria.operand t with
    | none => exact Blind.pure true
    | some operand => exact blind_textTest t operand

theorem blind_skip (r : Rule) (k : Skip) : Blind (k.holds r) := by
  cases k with
  | alreadyLabeled =>
    simp only [Skip.holds]
    split
    · exact Blind.pure false
    · exact Message.blind_hasAll _
  | alreadyCleared =>
    simp only [Skip.holds]
    split
    · exact Blind.pure false
    · exact Message.blind_hasNone _
  | alreadyInFolder => exact blind_folder fun folder => r.moveTo == some folder
  | starred => exact Message.blind_hasAll _

theorem blind_firstSkip (r : Rule) (ks : List Skip) : Blind (Skip.first? r ks) := by
  induction ks with
  | nil => exact Blind.pure none
  | cons k ks ih =>
    refine Blind.bind (blind_skip r k) fun b => ?_
    cases b with
    | false => exact ih
    | true => exact Blind.pure (some k)

namespace Looking.Blind

variable {α β : Type}

theorem pure (a : α) : Looking.Blind (pure a) := fun _ _ _ _ _ _ _ hm => ⟨rfl, hm⟩

theorem bind {l : Looking α} {f : α → Looking β} (hl : Looking.Blind l)
    (hf : ∀ a, Looking.Blind (f a)) : Looking.Blind (l >>= f) := by
  intro d d' e e' he m m' hm
  obtain ⟨hvalue, hmessages⟩ := hl d d' e e' he m m' hm
  rw [run_looking_bind, run_looking_bind, hvalue]
  exact hf _ d d' e e' he _ _ hmessages

/-- Whatever comes of a look, it may be gone on with if nobody asks what the error was. -/
theorem attempt {r : Reading α} {f : Except Error α → Looking β} (hr : Mailroom.Blind r)
    (hf : ∀ a, Looking.Blind (f a)) (herror : ∀ e e', f (.error e) = f (.error e')) :
    Looking.Blind (r.attempt >>= f) := by
  intro d d' e e' he m m' hm
  rw [run_looking_bind, run_looking_bind]
  have hrun : ∀ (d : Disk) (m : Message), r.attempt d m = r d m := fun _ _ => rfl
  rw [hrun, hrun]
  rcases (hr d d' e e' he).cases hm with ⟨a, t, t', hr₁, hr₂, ht⟩ | ⟨x, x', t, t', hr₁, hr₂, -, ht⟩
  · rw [hr₁, hr₂]
    exact hf _ d d' e e' he t t' ht
  · rw [hr₁, hr₂, herror x' x]
    exact hf _ d d' e e' he t t' ht

end Looking.Blind

theorem blind_firstFailure (r : Rule) (ts : List Test) : Looking.Blind (r.firstFailure ts) := by
  induction ts with
  | nil => exact Looking.Blind.pure none
  | cons t ts ih =>
    refine Looking.Blind.attempt (blind_test r t) (fun a => ?_) fun _ _ => rfl
    split
    · exact ih
    · exact Looking.Blind.pure _

theorem blind_verdict (r : Rule) : Blind (Looking.toReading r.verdict) := by
  have hlooking : Looking.Blind r.verdict := by
    refine Looking.Blind.attempt (blind_firstSkip r Skip.all) (fun a => ?_) fun _ _ => rfl
    split
    · exact Looking.Blind.pure _
    · exact Looking.Blind.pure _
    · refine Looking.Blind.bind (blind_firstFailure r r.tests) fun failure => ?_
      cases failure with
      | some t => exact Looking.Blind.pure _
      | none => exact Looking.Blind.pure _
  intro d d' e e' he m m' hm
  obtain ⟨hvalue, hmessages⟩ := hlooking d d' e e' he m m' hm
  refine ⟨?_, hmessages⟩
  change SameOutcome (.ok (r.verdict d m).1) (.ok (r.verdict d' m').1)
  rw [hvalue]
  exact .ok _

/-! ## Passing on -/

theorem blind_forwarded : Blind forwardedRecipients :=
  Blind.bind (Message.blind_fieldValues forwardedField) fun _ => Blind.pure _

theorem blind_pending (destinations : List Mailbox) : Blind (pendingRecipients destinations) :=
  Blind.bind blind_forwarded fun _ => Blind.pure _

theorem blind_mailboxesOrNone (name : Text) : Blind (Citation.mailboxesOrNone name) :=
  fun d d' e e' he => Alongside.tryCatch (Message.blind_mailboxes name d d' e e' he)
    fun _ _ _ => Alongside.pure []

theorem blind_citation : Blind Citation.ofMessage :=
  Blind.bind (blind_mailboxesOrNone _) fun _ => Blind.bind (Message.blind_field? _) fun _ =>
    Blind.bind Message.blind_subject fun _ => Blind.bind (blind_mailboxesOrNone _) fun _ =>
      Blind.bind (blind_mailboxesOrNone _) fun _ => Blind.pure _

theorem blind_copy (sender : Mailbox) (destinations : List Mailbox) (time : Time)
    (suggestions : List Text) : Blind (Copy.ofMessage sender destinations time suggestions) :=
  Blind.bind Message.blind_raw fun _ => Blind.bind (Blind.ofExcept _) fun _ =>
    Blind.bind blind_citation fun _ => Blind.bind (Blind.ofExcept _) fun _ => Blind.pure _

end Mailroom
