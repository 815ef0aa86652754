import Mailroom.Proofs.Work
import Mailroom.Verdict

/-!
# What can be seen of a message

A message remembers what it has read, so that a look at it changes it.  Its `Sight` does not
change: it is what the message remembers, and for the rest what it would read now.

* `Reads` says that a look gives what a function of the sight says, and leaves the sight alone.
* `reads_raw` to `reads_verdict` give that function for every look that a rule takes.
* `Sight.verdict` is what becomes of a rule, as a function of what can be seen.
-/

namespace Mailroom

/-! ## Sights -/

/-- Reads a header block, with the error that a message gives. -/
def readHeader (raw : Bytes) : Except Error Header :=
  match Header.read raw with
  | .ok h => .ok h
  | .error f => .error (.parse f.message)

/-- The values of the fields of a name, new values included. -/
def seenValues (edits : List Field) (header : Except Error Header) (name : Text) :
    Except Error (List Text) :=
  match edits.find? (fun e => Text.sameName e.name name) with
  | some e => .ok (if e.value.isEmpty then [] else [e.value])
  | none => header.map (fun h => h.values name)

/-- The keywords that the keyword fields hold. -/
def seenKeywords (edits : List Field) (header : Except Error Header) : Except Error Keywords :=
  (seenValues edits header Keywords.fieldName).map
    (fun values => Keywords.parse (Text.join ", " values))

@[simp] theorem seenValues_ok (h : Header) (name : Text) :
    seenValues [] (.ok h) name = .ok (h.values name) := rfl

@[simp] theorem seenValues_error (e : Error) (name : Text) :
    seenValues [] (.error e) name = .error e := rfl

/-- If nothing is to be written, values can be seen just if the header block can be read. -/
theorem seenValues_eq_ok {header : Except Error Header} {name : Text} {vs : List Text} :
    seenValues [] header name = .ok vs ↔ ∃ h, header = .ok h ∧ vs = h.values name := by
  cases header <;> simp [eq_comm]

@[simp] theorem seenKeywords_ok (h : Header) : seenKeywords [] (.ok h) =
    .ok (Keywords.parse (Text.join ", " (h.values Keywords.fieldName))) := rfl

@[simp] theorem seenKeywords_error (e : Error) : seenKeywords [] (.error e) = .error e := rfl

/-- If nothing is to be written, keywords can be seen just if the header block can be read. -/
theorem seenKeywords_eq_ok {header : Except Error Header} {k : Keywords} :
    seenKeywords [] header = .ok k ↔ ∃ h, header = .ok h ∧
      k = Keywords.parse (Text.join ", " (h.values Keywords.fieldName)) := by
  cases header <;> simp [eq_comm]

/-- What can be seen of a message. -/
structure Sight where
  /-- The file. -/
  entry : Entry
  /-- Its content. -/
  content : Except Error Bytes
  /-- Its header block. -/
  header : Except Error Header
  /-- Its keywords. -/
  keywords : Except Error Keywords
  /-- The fields that are to get new values. -/
  edits : List Field

/-- What a message remembers, and for the rest what it would read. -/
def Message.sight (m : Message) (d : Disk) : Sight :=
  let content := match m.content with
    | some bytes => .ok bytes
    | none => m.entry.read d
  let header := match m.header with
    | some h => .ok h
    | none => content.bind readHeader
  { entry := m.entry
    content := content
    header := header
    keywords := match m.keywordSet with
      | some k => .ok k
      | none => seenKeywords m.edits header
    edits := m.edits }

/-- What can be seen of a message that was just taken up. -/
def Sight.ofFile (entry : Entry) (content : Bytes) : Sight where
  entry := entry
  content := .ok content
  header := readHeader content
  keywords := seenKeywords [] (readHeader content)
  edits := []

namespace Sight

/-- The values of the fields of a name. -/
def values (s : Sight) (name : Text) : Except Error (List Text) :=
  seenValues s.edits s.header name

/-- The fields of a name that is not to be written are seen as they are in the header block. -/
theorem values_of_unedited {s : Sight} {name : Text}
    (h : s.edits.find? (fun e => Text.sameName e.name name) = none) :
    s.values name = s.header.map fun header => header.values name := by
  rw [values, seenValues, h]

/-- The date. -/
def date (s : Sight) : Except Error Time := do
  match (← s.values "Date").head? with
  | none => throw (.parse (s.entry.key ++ " has no Date header"))
  | some value =>
    match Date.parse value with
    | .error f => throw (.parse ("bad Date " ++ Text.quoted value ++ ": " ++ f.message))
    | .ok t =>
      if Date.inRange t then return t
      else throw (.parse ("Date out of range: " ++ value))

/-- The subject. -/
def subject (s : Sight) : Except Error Text := do
  return ((← s.values "Subject").head?).getD []

/-- The mailboxes in the address fields of a name. -/
def mailboxes (s : Sight) (name : Text) : Except Error (List Mailbox) := do
  match Message.mailboxesOf (← s.values name) with
  | .ok ms => return ms
  | .error f => throw (.parse f.message)

/-- Whether all of some keywords are present. -/
def hasAll (s : Sight) (names : List Text) : Except Error Bool := do
  return names.all (← s.keywords).contains

/-- Whether none of some keywords is present. -/
def hasNone (s : Sight) (names : List Text) : Except Error Bool := do
  let k ← s.keywords
  return names.all (fun n => !k.contains n)

/-- Whether the message agrees with a text. -/
def agrees (s : Sight) (operand : Text) : TextTest → Except Error Bool
  | .author => do return anyAddress (← s.mailboxes "From") operand
  | .authorDomain => do return anyDomain (← s.mailboxes "From") operand
  | .recipient => do return anyAddress (← s.mailboxes "To") operand
  | .recipientDomain => do return anyDomain (← s.mailboxes "To") operand
  | .sender => do return anyAddress (← s.mailboxes "Sender") operand
  | .deliveredTo => do return anyAddress (← s.mailboxes "Delivered-To") operand
  | .subject => do return (← s.subject) == operand
  | .subjectAnyCase => do return Text.lower (← s.subject) == Text.lower operand
  | .subjectPart => do return occurs operand (← s.subject)
  | .subjectPartAnyCase => do return occurs (Text.lower operand) (Text.lower (← s.subject))
  | .part => do return occurs (Utf8.encode operand) (← s.content)
  | .partAnyCase => do
    return occurs (Text.lower operand) (Text.lower (Utf8.decodeLossy (← s.content)))

/-- Whether the message passes a test of a rule. -/
def passes (s : Sight) (r : Rule) : Test → Except Error Bool
  | .folder => .ok (r.criteria.folder.all (· == s.entry.folder.name))
  | .age =>
    match r.okayDate with
    | some okay => do return decide ((← s.date) < okay)
    | none => .ok true
  | .text t =>
    match r.criteria.operand t with
    | some operand => s.agrees operand t
    | none => .ok true

/-- The first test of a list that the message does not pass. -/
def firstFailure (s : Sight) (r : Rule) : List Test → Option Test
  | [] => none
  | t :: rest =>
    match s.passes r t with
    | .ok true => firstFailure s r rest
    | _ => some t

/-- Whether there is a reason to skip a rule. -/
def skips (s : Sight) (r : Rule) : Skip → Except Error Bool
  | .alreadyLabeled => if r.label.isEmpty then .ok false else s.hasAll r.label
  | .alreadyCleared => if r.clear.isEmpty then .ok false else s.hasNone r.clear
  | .alreadyInFolder => .ok (r.moveTo == some s.entry.folder.name)
  | .starred => s.hasAll [Label.starred.labelForm]

/-- The first reason of a list to skip a rule. -/
def firstSkip (s : Sight) (r : Rule) : List Skip → Except Error (Option Skip)
  | [] => .ok none
  | k :: rest => do if ← s.skips r k then return some k else firstSkip s r rest

/-- What becomes of a rule. -/
def verdict (s : Sight) (r : Rule) : Verdict :=
  match s.firstSkip r Skip.all with
  | .error _ => .fail .folder
  | .ok (some reason) => .skip reason
  | .ok none =>
    match s.firstFailure r r.tests with
    | some t => .fail t
    | none => if r.tests.any (· != .folder) then .pass else .noTests

/-- A date is read from the first value of its field. -/
theorem date_eq_ok {s : Sight} {t : Time} : s.date = .ok t ↔
    ∃ value rest, s.values "Date" = .ok (value :: rest) ∧ Date.parse value = .ok t ∧
      Date.inRange t = true := by
  constructor
  · intro ht
    obtain ⟨vs, hvs, ht⟩ := exists_of_bind_ok ht
    cases vs with
    | nil => simp [throw, throwThe, MonadExceptOf.throw] at ht
    | cons value rest =>
      cases hparse : Date.parse value with
      | error e => simp [hparse, throw, throwThe, MonadExceptOf.throw] at ht
      | ok t' =>
        simp only [List.head?_cons, hparse] at ht
        split at ht
        · rename_i hrange
          obtain rfl := Except.ok.inj ht
          exact ⟨value, rest, hvs, hparse, hrange⟩
        · simp [throw, throwThe, MonadExceptOf.throw] at ht
  · rintro ⟨value, rest, hvs, hparse, hrange⟩
    simp only [Sight.date, hvs, bind, Except.bind, List.head?_cons, hparse, hrange, if_true, pure,
      Except.pure]

end Sight

/-! ## Looks at a message -/

/-- A look that gives what a function of the sight says, and leaves the sight alone. -/
def Reads {α : Type} (r : Reading α) (f : Sight → Except Error α) : Prop :=
  ∀ d m, (r d m).1 = f (m.sight d) ∧ ((r d m).2.sight d) = m.sight d

section Reads

variable {α β : Type}

theorem Reads.pure (a : α) : Reads (pure a) (fun _ => .ok a) := fun _ _ => ⟨rfl, rfl⟩

theorem Reads.throw (e : Error) : Reads (throw e : Reading α) (fun _ => .error e) :=
  fun _ _ => ⟨rfl, rfl⟩

/-- A result that was there before any look at the message. -/
theorem Reads.ofExcept (a : Except Error α) : Reads (Reading.ofExcept a) (fun _ => a) :=
  fun _ _ => ⟨rfl, rfl⟩

theorem Reads.bind {r : Reading α} {f : Sight → Except Error α} {g : α → Reading β}
    {h : α → Sight → Except Error β} (hr : Reads r f) (hg : ∀ a, Reads (g a) (h a)) :
    Reads (r >>= g) (fun s => f s >>= fun a => h a s) := by
  intro d m
  obtain ⟨hvalue, hsight⟩ := hr d m
  change ((r d >>= fun a => g a d) m).1 = (f (m.sight d) >>= fun a => h a (m.sight d)) ∧
    ((r d >>= fun a => g a d) m).2.sight d = m.sight d
  rw [← hvalue]
  cases hrun : r d m with
  | mk result m' =>
    rw [hrun] at hsight
    cases result with
    | error e =>
      rw [run_bind_error hrun]
      exact ⟨rfl, hsight⟩
    | ok a =>
      rw [run_bind_ok hrun]
      obtain ⟨hvalue', hsight'⟩ := hg a d m'
      rw [hsight] at hvalue' hsight'
      exact ⟨hvalue', hsight'⟩

theorem Reads.congr {r : Reading α} {f g : Sight → Except Error α} (h : Reads r f)
    (hfg : ∀ s, f s = g s) : Reads r g := by
  intro d m
  rw [← hfg]
  exact h d m

/-- A look may depend on what is not read but known of the message from the first. -/
theorem Reads.get {g : Message → Reading α} {h : Sight → Except Error α}
    (hg : ∀ m d, (g m d m).1 = h (m.sight d) ∧ ((g m d m).2.sight d) = m.sight d) :
    Reads (MonadState.get >>= g) h := fun d m => hg m d

/-- A look that leaves the sight alone, whatever it gives. -/
def Quiet (r : Reading α) : Prop := ∀ d m, (r d m).2.sight d = m.sight d

theorem Reads.quiet {r : Reading α} {f : Sight → Except Error α} (h : Reads r f) : Quiet r :=
  fun d m => (h d m).2

theorem Quiet.pure (a : α) : Quiet (pure a) := fun _ _ => rfl

end Reads

namespace Message

theorem raw_run (d : Disk) (m : Message) : raw d m = match m.content with
    | some b => (.ok b, m)
    | none => match m.entry.read d with
      | .ok b => (.ok b, { m with content := some b })
      | .error e => (.error e, m) := by
  obtain ⟨entry, content, header, keywordSet, edits⟩ := m
  cases content with
  | some b => rfl
  | none =>
    cases h : entry.read d with
    | ok b => exact run_bind_ok (w := Reading.ofExcept (entry.read d) d) (congrArg (·, _) h)
    | error e => exact run_bind_error (w := Reading.ofExcept (entry.read d) d) (congrArg (·, _) h)

/-! ### What is remembered -/

section Remembered

variable {m : Message} {d : Disk}

theorem sight_with_content {b : Bytes} (h : (m.sight d).content = .ok b) :
    { m with content := some b }.sight d = m.sight d := by
  have hc : (match m.content with
      | some bytes => .ok bytes
      | none => m.entry.read d) = Except.ok b := h
  simp only [sight, hc]

theorem sight_with_header {h : Header} (hh : (m.sight d).header = .ok h) :
    { m with header := some h }.sight d = m.sight d := by
  have hc : (match m.header with
      | some h => .ok h
      | none => (m.sight d).content.bind readHeader) = Except.ok h := hh
  simp only [sight] at hc ⊢
  simp only [hc]

theorem sight_with_keywords {k : Keywords} (hk : (m.sight d).keywords = .ok k) :
    { m with keywordSet := some k }.sight d = m.sight d := by
  have hc : (match m.keywordSet with
      | some k => .ok k
      | none => seenKeywords m.edits (m.sight d).header) = Except.ok k := hk
  simp only [sight] at hc ⊢
  simp only [hc]

end Remembered

/-! ### What a look changes -/

/-- Reading the file changes nothing but what is remembered of its content. -/
theorem keeps_raw {I : Message → Prop} (hcontent : ∀ m b, I m → I { m with content := some b })
    (d : Disk) : Keeps I (raw d) := by
  intro m hm
  rw [raw_run]
  cases m.content with
  | some b => exact hm
  | none =>
    cases m.entry.read d with
    | ok b => exact hcontent m b hm
    | error e => exact hm

/-- A file that was read is remembered. -/
theorem content_of_raw {d : Disk} {m m' : Message} {b : Bytes} (h : raw d m = (.ok b, m')) :
    m'.content = some b := by
  rw [raw_run] at h
  cases hc : m.content with
  | some b' =>
    rw [hc] at h
    cases h
    exact hc
  | none =>
    rw [hc] at h
    cases he : m.entry.read d with
    | error e =>
      rw [he] at h
      cases h
    | ok b' =>
      rw [he] at h
      cases h
      rfl

/-- Looking at the header block changes nothing but what is remembered of the file. -/
theorem keeps_parsed {I : Message → Prop} (hcontent : ∀ m b, I m → I { m with content := some b })
    (hheader : ∀ m h, I m → I { m with header := some h }) (d : Disk) : Keeps I (parsed d) := by
  refine Keeps.get fun m => ?_
  cases m.header with
  | some h => exact Keeps.pure h
  | none =>
    refine Keeps.bind (keeps_raw hcontent d) fun b => ?_
    dsimp only
    cases Header.read b with
    | ok h => exact fun m hm => hheader m h hm
    | error f => exact Keeps.throw _

/-- A header block that is not remembered is read from the file. -/
theorem parsed_of_no_header {m : Message} (d : Disk) (h : m.header = none) :
    parsed d m = (raw d >>= fun b => (match Header.read b with
      | .ok h => do
        modify fun m => { m with header := some h }
        return h
      | .error f => throw (.parse f.message) : Reading Header) d) m := by
  obtain ⟨entry, content, header, keywordSet, edits⟩ := m
  subst h
  rfl

/-- What is remembered of the file stays when the header block is looked at. -/
theorem content_of_parsed {m : Message} {b : Bytes} (h : m.content = some b) (d : Disk) :
    (parsed d m).2.content = some b := by
  cases hh : m.header with
  | some _ =>
    obtain ⟨entry, content, header, keywordSet, edits⟩ := m
    subst hh
    exact h
  | none =>
    have hraw : raw d m = (.ok b, m) := by rw [raw_run, h]
    rw [parsed_of_no_header d hh, run_bind_ok hraw]
    cases Header.read b with
    | ok header => exact h
    | error f => exact h

/-- Looking at a field changes no more than that. -/
theorem keeps_fieldValues {I : Message → Prop}
    (hcontent : ∀ m b, I m → I { m with content := some b })
    (hheader : ∀ m h, I m → I { m with header := some h }) (d : Disk) (name : Text) :
    Keeps I (fieldValues name d) := by
  refine Keeps.get fun m => ?_
  cases m.edit? name with
  | some e => exact Keeps.pure _
  | none => exact Keeps.bind (keeps_parsed hcontent hheader d) fun h => Keeps.pure _

/-! ### Looks -/

theorem reads_raw : Reads raw Sight.content := by
  intro d m
  rw [raw_run]
  cases hc : m.content with
  | some b => simp [sight, hc]
  | none =>
    have hcontent : (m.sight d).content = m.entry.read d := by simp [sight, hc]
    cases he : m.entry.read d with
    | ok b => exact ⟨(hcontent.trans he).symm, sight_with_content (hcontent.trans he)⟩
    | error e => exact ⟨(hcontent.trans he).symm, rfl⟩

theorem reads_parsed : Reads parsed Sight.header := by
  intro d m
  cases hh : m.header with
  | some h =>
    have hrun : parsed d m = (.ok h, m) := by
      obtain ⟨entry, content, header, keywordSet, edits⟩ := m
      subst hh
      rfl
    rw [hrun]
    simp [sight, hh]
  | none =>
    have hheader : (m.sight d).header = (m.sight d).content.bind readHeader := by
      simp [sight, hh]
    have hrun := parsed_of_no_header d hh
    obtain ⟨hvalue, hsight⟩ := reads_raw d m
    rw [hrun]
    cases hraw : raw d m with
    | mk result m' =>
      rw [hraw] at hvalue hsight
      simp only at hvalue hsight
      rw [← hvalue] at hheader
      cases result with
      | error e =>
        rw [run_bind_error hraw]
        exact ⟨hheader.symm, hsight⟩
      | ok b =>
        rw [run_bind_ok hraw]
        cases hb : Header.read b with
        | ok h =>
          have hh' : (m.sight d).header = .ok h := by
            rw [hheader]
            simp [Except.bind, readHeader, hb]
          exact ⟨hh'.symm, (sight_with_header (hsight ▸ hh')).trans hsight⟩
        | error f =>
          have hh' : (m.sight d).header = .error (.parse f.message) := by
            rw [hheader]
            simp [Except.bind, readHeader, hb]
          exact ⟨hh'.symm, hsight⟩

theorem reads_fieldValues (name : Text) : Reads (fieldValues name) (·.values name) := by
  refine Reads.get fun m d => ?_
  have hedit : m.edit? name = (m.sight d).edits.find? (fun e => Text.sameName e.name name) := rfl
  cases he : m.edit? name with
  | some e =>
    rw [he] at hedit
    simp only [Sight.values, seenValues, ← hedit]
    exact ⟨rfl, rfl⟩
  | none =>
    rw [he] at hedit
    have hvalues : (m.sight d).values name =
        ((m.sight d).header >>= fun h => Except.ok (h.values name)) := by
      simp only [Sight.values, seenValues, ← hedit]
      cases (m.sight d).header <;> rfl
    rw [hvalues]
    exact Reads.bind reads_parsed (fun h => Reads.pure (h.values name)) d m

theorem reads_field? (name : Text) :
    Reads (field? name) (fun s => s.values name >>= fun vs => .ok vs.head?) :=
  Reads.bind (reads_fieldValues name) fun _ => Reads.pure _

theorem reads_subject : Reads subject Sight.subject :=
  (Reads.bind (reads_field? "Subject") fun _ => Reads.pure _).congr fun s => by
    simp only [Sight.subject]
    cases s.values "Subject" <;> rfl

theorem reads_mailboxes (name : Text) : Reads (mailboxes name) (·.mailboxes name) := by
  refine Reads.bind (reads_fieldValues name) fun vs => ?_
  cases mailboxesOf vs with
  | ok ms => exact Reads.pure ms
  | error f => exact Reads.throw _

theorem reads_date : Reads date Sight.date := by
  have hread : Reads date (fun s => (s.values "Date" >>= fun vs => Except.ok vs.head?) >>=
      fun value? => match value? with
        | none => .error (.parse (s.entry.key ++ " has no Date header"))
        | some value =>
          match Date.parse value with
          | .error f => .error (.parse ("bad Date " ++ Text.quoted value ++ ": " ++ f.message))
          | .ok t => if Date.inRange t then .ok t
            else .error (.parse ("Date out of range: " ++ value))) := by
    refine Reads.bind (reads_field? "Date") fun value? => ?_
    cases value? with
    | none => exact Reads.get fun m d => ⟨rfl, rfl⟩
    | some value =>
      dsimp only
      cases Date.parse value with
      | error f => exact Reads.throw _
      | ok t =>
        dsimp only
        by_cases ht : Date.inRange t = true
        · simp only [ht, if_true]
          exact Reads.pure t
        · simp only [ht]
          exact Reads.throw _
  refine hread.congr fun s => ?_
  simp only [Sight.date]
  cases s.values "Date" <;> rfl

theorem reads_keywordText :
    Reads keywordText (fun s => s.values Keywords.fieldName >>= fun vs =>
      .ok (Text.join ", " vs)) :=
  Reads.bind (reads_fieldValues Keywords.fieldName) fun _ => Reads.pure _

/-- Keywords that are remembered are not looked for. -/
theorem keywords_of_remembered {m : Message} {k : Keywords} (h : m.keywordSet = some k)
    (d : Disk) : keywords d m = (.ok k, m) := by
  obtain ⟨entry, content, header, keywordSet, edits⟩ := m
  subst h
  rfl

/-- Keywords that are not remembered are read, and remembered. -/
theorem keywords_of_unread {m : Message} (h : m.keywordSet = none) (d : Disk) :
    keywords d m = (keywordText d >>= fun t => (do
      let k := Keywords.parse t
      modify fun m => { m with keywordSet := some k }
      return k : Reading Keywords) d) m := by
  obtain ⟨entry, content, header, keywordSet, edits⟩ := m
  subst h
  rfl

theorem reads_keywords : Reads keywords Sight.keywords := by
  intro d m
  cases hk : m.keywordSet with
  | some k =>
    rw [keywords_of_remembered hk]
    simp [sight, hk]
  | none =>
    have hkeywords : (m.sight d).keywords =
        ((m.sight d).values Keywords.fieldName).map
          (fun vs => Keywords.parse (Text.join ", " vs)) := by
      simp [sight, hk, Sight.values, seenKeywords]
    obtain ⟨hvalue, hsight⟩ := reads_keywordText d m
    rw [keywords_of_unread hk]
    cases htext : keywordText d m with
    | mk result m' =>
      rw [htext] at hvalue hsight
      simp only at hvalue hsight
      cases hv : (m.sight d).values Keywords.fieldName with
      | error e =>
        rw [hv] at hvalue hkeywords
        obtain rfl : result = .error e := hvalue
        rw [run_bind_error htext]
        exact ⟨hkeywords.symm, hsight⟩
      | ok vs =>
        rw [hv] at hvalue hkeywords
        obtain rfl : result = .ok (Text.join ", " vs) := hvalue
        rw [run_bind_ok htext]
        exact ⟨hkeywords.symm, (sight_with_keywords (hsight ▸ hkeywords)).trans hsight⟩

theorem reads_hasAll (names : List Text) : Reads (hasAll names) (·.hasAll names) :=
  Reads.bind reads_keywords fun _ => Reads.pure _

theorem reads_hasNone (names : List Text) : Reads (hasNone names) (·.hasNone names) :=
  Reads.bind reads_keywords fun _ => Reads.pure _

end Message

/-! ## The verdict -/

theorem reads_textTest (t : TextTest) (operand : Text) :
    Reads (t.holds operand) (·.agrees operand t) := by
  cases t with
  | author => exact Reads.bind (Message.reads_mailboxes _) fun _ => Reads.pure _
  | authorDomain => exact Reads.bind (Message.reads_mailboxes _) fun _ => Reads.pure _
  | recipient => exact Reads.bind (Message.reads_mailboxes _) fun _ => Reads.pure _
  | recipientDomain => exact Reads.bind (Message.reads_mailboxes _) fun _ => Reads.pure _
  | sender => exact Reads.bind (Message.reads_mailboxes _) fun _ => Reads.pure _
  | deliveredTo => exact Reads.bind (Message.reads_mailboxes _) fun _ => Reads.pure _
  | subject => exact Reads.bind Message.reads_subject fun _ => Reads.pure _
  | subjectAnyCase => exact Reads.bind Message.reads_subject fun _ => Reads.pure _
  | subjectPart => exact Reads.bind Message.reads_subject fun _ => Reads.pure _
  | subjectPartAnyCase => exact Reads.bind Message.reads_subject fun _ => Reads.pure _
  | part => exact Reads.bind Message.reads_raw fun _ => Reads.pure _
  | partAnyCase => exact Reads.bind Message.reads_raw fun _ => Reads.pure _

theorem reads_test (r : Rule) (t : Test) : Reads (r.holds t) (·.passes r t) := by
  cases t with
  | folder => exact Reads.get fun m d => ⟨rfl, rfl⟩
  | age =>
    simp only [Rule.holds, Sight.passes]
    cases r.okayDate with
    | none => exact Reads.pure true
    | some okay => exact Reads.bind Message.reads_date fun _ => Reads.pure _
  | text t =>
    simp only [Rule.holds, Sight.passes]
    cases r.criteria.operand t with
    | none => exact Reads.pure true
    | some operand => exact reads_textTest t operand

theorem reads_skip (r : Rule) (k : Skip) : Reads (k.holds r) (·.skips r k) := by
  cases k with
  | alreadyLabeled =>
    simp only [Skip.holds, Sight.skips]
    split
    · exact Reads.pure false
    · exact Message.reads_hasAll _
  | alreadyCleared =>
    simp only [Skip.holds, Sight.skips]
    split
    · exact Reads.pure false
    · exact Message.reads_hasNone _
  | alreadyInFolder => exact Reads.get fun m d => ⟨rfl, rfl⟩
  | starred => exact Message.reads_hasAll _

theorem reads_firstSkip (r : Rule) (ks : List Skip) :
    Reads (Skip.first? r ks) (·.firstSkip r ks) := by
  induction ks with
  | nil => exact Reads.pure none
  | cons k ks ih =>
    refine Reads.bind (reads_skip r k) fun b => ?_
    cases b with
    | false => exact ih
    | true => exact Reads.pure (some k)

theorem run_looking_bind {α β : Type} (l : Looking α) (f : α → Looking β) (d : Disk)
    (m : Message) : (l >>= f) d m = f (l d m).1 d (l d m).2 := rfl

theorem reads_attempt {α : Type} {r : Reading α} {f : Sight → Except Error α} (h : Reads r f)
    (d : Disk) (m : Message) :
    (r.attempt d m).1 = f (m.sight d) ∧ ((r.attempt d m).2.sight d) = m.sight d := h d m

theorem reads_firstFailure (r : Rule) (ts : List Test) (d : Disk) (m : Message) :
    (r.firstFailure ts d m).1 = (m.sight d).firstFailure r ts ∧
      ((r.firstFailure ts d m).2.sight d) = m.sight d := by
  induction ts generalizing m with
  | nil => exact ⟨rfl, rfl⟩
  | cons t ts ih =>
    obtain ⟨hvalue, hsight⟩ := reads_attempt (reads_test r t) d m
    simp only [Rule.firstFailure, run_looking_bind, Sight.firstFailure, ← hvalue]
    cases hrun : (r.holds t).attempt d m with
    | mk result m' =>
      rw [hrun] at hsight
      simp only at hsight ⊢
      have hrest := ih m'
      rw [hsight] at hrest
      cases result with
      | error e => exact ⟨rfl, hsight⟩
      | ok passed =>
        cases passed with
        | false => exact ⟨rfl, hsight⟩
        | true => exact hrest

/-- The verdict is a function of what can be seen, and finding it leaves that alone. -/
theorem reads_verdict (r : Rule) :
    Reads (Looking.toReading r.verdict) (fun s => .ok (s.verdict r)) := by
  intro d m
  obtain ⟨hvalue, hsight⟩ := reads_attempt (reads_firstSkip r Skip.all) d m
  have hlift : (Looking.toReading r.verdict) d m =
      (.ok (r.verdict d m).1, (r.verdict d m).2) := rfl
  rw [hlift]
  simp only [Rule.verdict, run_looking_bind, Sight.verdict, ← hvalue]
  cases hrun : (Skip.first? r Skip.all).attempt d m with
  | mk result m' =>
    rw [hrun] at hsight
    simp only at hsight ⊢
    cases result with
    | error e => exact ⟨rfl, hsight⟩
    | ok reason? =>
      cases reason? with
      | some reason => exact ⟨rfl, hsight⟩
      | none =>
        obtain ⟨hvalue', hsight'⟩ := reads_firstFailure r r.tests d m'
        rw [hsight] at hvalue' hsight'
        simp only [run_looking_bind, ← hvalue']
        cases hrun' : r.firstFailure r.tests d m' with
        | mk failure? m'' =>
          rw [hrun'] at hsight'
          simp only at hsight' ⊢
          cases failure? with
          | some t => exact ⟨rfl, hsight'⟩
          | none => exact ⟨rfl, hsight'⟩

theorem Rule.verdict_eq_sight (r : Rule) (d : Disk) (m : Message) :
    (r.verdict d m).1 = (m.sight d).verdict r := Except.ok.inj (reads_verdict r d m).1

end Mailroom
