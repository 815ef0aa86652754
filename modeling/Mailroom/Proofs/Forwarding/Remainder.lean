import Mailroom.Proofs.Disk.View
import Mailroom.Proofs.Forwarding

/-!
# Who is left to pass a message on to

A message remembers whom it was passed on to in a field, which may stand in it several times, with
the addresses in any case and set apart by commas or blanks.  When it is passed on once more, all
of them are written anew as one value.

* `Case.remembered` are the addresses that the message was passed on to, and `Case.left` those of
  a list that it was not passed on to yet.
* `Message.ReadsAlike` says that nothing that can be read of a message has changed.
* `Forwarder.Advances` lists what passing on does to the message and to the post, and
  `Forwarder.forward_advances` is the result.
-/

namespace Mailroom

/-! ## The addresses of the field -/

/-- What is read from the field are words in small letters. -/
theorem isWord_of_mem_forwardedIn {values : List Text} {z : Text}
    (hz : z ∈ (forwardedIn values).toList) :
    Text.IsWord isTokenBreak z ∧ Text.lower z = z := by
  obtain ⟨v, -, w, hw, rfl⟩ := mem_forwardedIn.1 hz
  exact ⟨isWord_lower (Text.isWord_of_mem_words hw).1, Text.lower_lower w⟩

/-- So are the addresses that are read from it together with those of a list. -/
theorem isWord_of_mem_insertAll {values : List Text} {destinations : List Mailbox}
    (h : ∀ m ∈ destinations, Text.IsWord isTokenBreak m.email) :
    ∀ a ∈ ((forwardedIn values).insertAll (pendingOf (forwardedIn values) destinations)).toList,
      Text.IsWord isTokenBreak a ∧ Text.lower a = a := by
  intro a ha
  rcases TextSet.mem_insertAll.1 ha with ha | ha
  · exact isWord_of_mem_forwardedIn ha
  · obtain ⟨⟨m, hm, rfl⟩, -⟩ := mem_pendingOf.1 ha
    exact ⟨isWord_lower (h m hm), Text.lower_lower _⟩

theorem increasing_pendingOf (done : TextSet) (destinations : List Mailbox) :
    (pendingOf done destinations).Pairwise (· < ·) := (TextSet.ofList _).increasing

/-- Addresses that are remembered as well are left no more, and nothing else changes. -/
theorem pendingOf_insertAll (done : TextSet) (recipients : List Text)
    (destinations : List Mailbox) : pendingOf (done.insertAll recipients) destinations =
      (pendingOf done destinations).filter (fun a => !recipients.contains a) := by
  refine eq_of_increasing (increasing_pendingOf _ _) ((increasing_pendingOf _ _).filter _)
    fun a => ?_
  rw [mem_pendingOf, TextSet.mem_insertAll, List.mem_filter, mem_pendingOf]
  simp only [Bool.not_eq_true', ← Bool.not_eq_true, List.contains_iff_mem]
  constructor
  · rintro ⟨hwanted, hnot⟩
    exact ⟨⟨hwanted, fun h => hnot (Or.inl h)⟩, fun h => hnot (Or.inr h)⟩
  · rintro ⟨⟨hwanted, hdone⟩, hrecipients⟩
    exact ⟨hwanted, fun h => h.elim hdone hrecipients⟩

/-- A set of addresses that was written can be read back. -/
theorem Sight.forwarded_withField (v : Sight) {all : TextSet}
    (h : ∀ a ∈ all.toList, Text.IsWord isTokenBreak a ∧ Text.lower a = a) :
    (v.withField forwardedField (Text.join ", " all.toList)).forwarded = .ok all := by
  rw [Sight.forwarded, values_withField_self]
  exact congrArg Except.ok (TextSet.ext_of_mem (mem_forwardedIn_join h))

/-! ## What can be read -/

/-- Nothing that can be read of a message has changed, nor what is to be written. -/
structure Message.ReadsAlike (d : Disk) (m m' : Message) : Prop where
  /-- The values of all fields. -/
  fieldValues : ∀ name, (Message.fieldValues name d m').1 = (Message.fieldValues name d m).1
  /-- The keywords. -/
  keywords : (Message.keywords d m').1 = (Message.keywords d m).1
  /-- The whole content. -/
  raw : (Message.raw d m').1 = (Message.raw d m).1
  /-- The file. -/
  entry : m'.entry = m.entry
  /-- The fields that are to get new values. -/
  edits : m'.edits = m.edits

theorem Message.ReadsAlike.of_sight {d : Disk} {m m' : Message} (h : m'.sight d = m.sight d) :
    ReadsAlike d m m' where
  fieldValues name := by
    rw [(reads_fieldValues name d m').1, (reads_fieldValues name d m).1, h]
  keywords := by rw [(reads_keywords d m').1, (reads_keywords d m).1, h]
  raw := by rw [(reads_raw d m').1, (reads_raw d m).1, h]
  entry := congrArg Sight.entry h
  edits := congrArg Sight.edits h

namespace Case

/-- The addresses that the message is known to have been passed on to. -/
def remembered (c : Case) : Except Error TextSet :=
  (forwardedRecipients c.office.disk c.message).1

/-- The addresses of a list that are left. -/
def left (c : Case) (destinations : List Mailbox) : Except Error (List Text) :=
  (pendingRecipients destinations c.office.disk c.message).1

variable (c : Case)

theorem remembered_eq : c.remembered = c.sight.forwarded := (reads_forwarded _ _).1

theorem left_eq (destinations : List Mailbox) : c.left destinations =
    c.sight.forwarded >>= fun done => .ok (pendingOf done destinations) :=
  (reads_pending destinations _ _).1

/-- They are the words of all values of the field, in small letters. -/
theorem exists_remembered {vs : List Text}
    (h : (Message.fieldValues forwardedField c.office.disk c.message).1 = .ok vs) :
    c.remembered = .ok (forwardedIn vs) := by
  have hvalues : c.sight.values forwardedField = .ok vs :=
    (Message.reads_fieldValues _ _ _).1.symm.trans h
  rw [remembered_eq, Sight.forwarded, hvalues]
  rfl

theorem left_of_remembered {c : Case} {done : TextSet} (h : c.remembered = .ok done)
    (destinations : List Mailbox) : c.left destinations = .ok (pendingOf done destinations) := by
  rw [left_eq, ← remembered_eq, h]
  rfl

end Case

/-! ## Passing on -/

/-- What is remembered after a letter went to some addresses: these are added to the others, the
field is to be written as one value that lists all of them, and of no list are they left. -/
structure Case.Remembers (c : Case) (recipients : List Text) (c' : Case) : Prop where
  /-- The field gets one value, in which all addresses stand in order and without doubles. -/
  written : ∃ done all : TextSet, c.remembered = .ok done ∧ c'.remembered = .ok all ∧
    (∀ a, a ∈ all.toList ↔ a ∈ done.toList ∨ a ∈ recipients) ∧
    c'.message.edit? forwardedField = some ⟨forwardedField, Text.join ", " all.toList⟩
  /-- For whatever list, exactly the others are left. -/
  left : ∀ destinations before, c.left destinations = .ok before →
    c'.left destinations = .ok (before.filter (fun a => !recipients.contains a))

/-- What passing a message on to a list of mailboxes does. -/
structure Forwarder.Advances (f : Forwarder) (destinations : List Mailbox) (c : Case)
    (result : Except Error Forwarded) (c' : Case) : Prop where
  /-- The addresses that are remembered are the words of all values of the field, in small
  letters. -/
  remembered : ∀ vs, (Message.fieldValues forwardedField c.office.disk c.message).1 = .ok vs →
    ∃ done, c.remembered = .ok done ∧ ∀ z, z ∈ done.toList ↔
      ∃ v ∈ vs, ∃ w ∈ Text.words isTokenBreak v, z = Text.lower w
  /-- The others of the list are left, in small letters, in order and without doubles. -/
  left : ∀ done, c.remembered = .ok done → ∃ recipients, c.left destinations = .ok recipients ∧
    recipients.Pairwise (· < ·) ∧
    ∀ a, a ∈ recipients ↔ (∃ m ∈ destinations, a = Text.lower m.email) ∧ a ∉ done.toList
  /-- If the field cannot be read, this is the error, and nothing is given to the post. -/
  unread : ∀ e, (Message.fieldValues forwardedField c.office.disk c.message).1 = .error e →
    result = .error e ∧ c'.office = c.office
  /-- If nobody is left, nothing is given to the post. -/
  nobody : c.left destinations = .ok [] ↔ result = .ok .alreadyDone
  /-- Otherwise one letter is at most, and it goes to all that are left. -/
  once : c'.office = c.office ∨ ∃ letter recipients, c.left destinations = .ok recipients ∧
    recipients ≠ [] ∧ letter.recipients = recipients ∧
    c'.office = c.office.posted ⟨letter, c.message.entry.path,
      (f.post.answer c.office.submissions letter).toBool⟩ ∧
    result = (f.post.answer c.office.submissions letter).map fun _ => .sent recipients
  /-- It went out only if the post took it. -/
  sent : ∀ recipients, result = .ok (.sent recipients) → c.left destinations = .ok recipients ∧
    ∃ letter, letter.recipients = recipients ∧
      c'.office = c.office.posted ⟨letter, c.message.entry.path, true⟩
  /-- Unless a letter went out, nothing that can be read of the message has changed. -/
  unsent : (∀ recipients, result ≠ .ok (.sent recipients)) →
    Message.ReadsAlike c.office.disk c.message c'.message
  /-- If a letter went out, its addresses are remembered, provided that they can be told apart
  when they are written in a list. -/
  remembers : ∀ recipients, result = .ok (.sent recipients) →
    (∀ m ∈ destinations, Text.IsWord isTokenBreak m.email) → c.Remembers recipients c'

section Forward

variable {c : Case}

theorem Case.remembers_of_sent {destinations : List Mailbox} {vs : List Text} {o : Office}
    {m : Message} (hdone : c.sight.forwarded = .ok (forwardedIn vs))
    (hdisk : o.disk = c.office.disk)
    (hsight : m.sight c.office.disk = c.sight.withField forwardedField (Text.join ", "
      ((forwardedIn vs).insertAll (pendingOf (forwardedIn vs) destinations)).toList))
    (h : ∀ m ∈ destinations, Text.IsWord isTokenBreak m.email) :
    c.Remembers (pendingOf (forwardedIn vs) destinations) ⟨o, m⟩ := by
  have hbefore : c.remembered = .ok (forwardedIn vs) := c.remembered_eq.trans hdone
  have hsight' : Case.sight ⟨o, m⟩ = c.sight.withField forwardedField (Text.join ", "
      ((forwardedIn vs).insertAll (pendingOf (forwardedIn vs) destinations)).toList) := by
    rw [Case.sight, hdisk, hsight]
  have hafter : Case.remembered ⟨o, m⟩ =
      .ok ((forwardedIn vs).insertAll (pendingOf (forwardedIn vs) destinations)) := by
    rw [Case.remembered_eq, hsight', Sight.forwarded_withField _ (isWord_of_mem_insertAll h)]
  refine ⟨⟨_, _, hbefore, hafter, fun a => TextSet.mem_insertAll, ?_⟩,
    fun others before hothers => ?_⟩
  · have hedits : m.edits = (c.sight.withField forwardedField (Text.join ", "
        ((forwardedIn vs).insertAll (pendingOf (forwardedIn vs) destinations)).toList)).edits :=
      congrArg Sight.edits hsight
    rw [Message.edit?, hedits]
    exact find?_withField_self _ _ _
  · rw [Case.left_of_remembered hbefore] at hothers
    rw [Case.left_of_remembered hafter, pendingOf_insertAll, Except.ok.inj hothers]

namespace Forwarder

variable {f : Forwarder} {destinations : List Mailbox}

theorem Advances.remembered_of (c : Case) {vs : List Text}
    (h : (Message.fieldValues forwardedField c.office.disk c.message).1 = .ok vs) :
    ∃ done, c.remembered = .ok done ∧ ∀ z, z ∈ done.toList ↔
      ∃ v ∈ vs, ∃ w ∈ Text.words isTokenBreak v, z = Text.lower w :=
  ⟨_, c.exists_remembered h, fun _ => mem_forwardedIn⟩

theorem Advances.left_of {c : Case} {done : TextSet} (h : c.remembered = .ok done) :
    ∃ recipients, c.left destinations = .ok recipients ∧ recipients.Pairwise (· < ·) ∧
      ∀ a, a ∈ recipients ↔ (∃ m ∈ destinations, a = Text.lower m.email) ∧ a ∉ done.toList :=
  ⟨_, Case.left_of_remembered h _, increasing_pendingOf _ _, fun _ => mem_pendingOf⟩

/-- Passing on where nothing is given to the post. -/
theorem Advances.of_idle {result : Except Error Forwarded} {m : Message}
    (hsight : Case.sight ⟨c.office, m⟩ = c.sight)
    (hunread : ∀ e, c.sight.values forwardedField = .error e → result = .error e)
    (hnobody : c.left destinations = .ok [] ↔ result = .ok .alreadyDone)
    (hunsent : ∀ recipients, result ≠ .ok (.sent recipients)) :
    f.Advances destinations c result ⟨c.office, m⟩ where
  remembered _ h := remembered_of c h
  left _ h := left_of h
  unread e h := ⟨hunread e ((Message.reads_fieldValues _ _ _).1.symm.trans h), rfl⟩
  nobody := hnobody
  once := Or.inl rfl
  sent recipients h := absurd h (hunsent recipients)
  unsent _ := .of_sight hsight
  remembers recipients h := absurd h (hunsent recipients)

/-- Only a letter that the post took is said to have gone out. -/
theorem eq_of_map_sent {answer : Except Error Unit} {left recipients : List Text}
    (h : answer.map (fun _ => Forwarded.sent left) = .ok (.sent recipients)) :
    left = recipients ∧ answer.toBool = true := by
  cases answer with
  | error e => exact absurd h (by simp [Except.map])
  | ok u => exact ⟨Forwarded.sent.inj (Except.ok.inj h), rfl⟩

/-- Passing on where a letter is given to the post. -/
theorem Advances.of_mails (now : Time) {done : TextSet}
    (h : c.sight.Mails destinations done) :
    f.Advances destinations c (f.forward destinations now c).1
      (f.forward destinations now c).2 := by
  obtain ⟨letter, accepted, m, hrun, haccepted, hletter, hsight⟩ := forward_of_mails f now h
  obtain ⟨vs, hvs, rfl⟩ := forwarded_eq_ok h.forwarded
  have hleft : c.left destinations = .ok (pendingOf (forwardedIn vs) destinations) :=
    Case.left_of_remembered (c.remembered_eq.trans h.forwarded) destinations
  rw [hrun]
  constructor
  case remembered => exact fun _ => Advances.remembered_of c
  case left => exact fun _ => Advances.left_of
  case unread =>
    intro e he
    rw [(Message.reads_fieldValues _ _ _).1] at he
    exact absurd (hvs.symm.trans he) (by simp)
  case nobody =>
    rw [hleft]
    cases f.post.answer c.office.submissions letter with
    | error e => simpa [Except.map] using h.pending
    | ok u => simpa [Except.map] using h.pending
  case once =>
    refine Or.inr ⟨letter, _, hleft, h.pending, hletter, ?_, rfl⟩
    rw [haccepted]
    rfl
  case sent =>
    intro recipients hsent
    obtain ⟨rfl, htaken⟩ := eq_of_map_sent hsent
    exact ⟨hleft, letter, hletter, by rw [haccepted, htaken]; rfl⟩
  case unsent =>
    intro hunsent
    refine .of_sight (hsight.trans (if_neg ?_))
    rw [haccepted]
    cases hanswer : f.post.answer c.office.submissions letter with
    | error e => simp [Except.toBool]
    | ok u => exact absurd (by rw [hanswer]; rfl) (hunsent _)
  case remembers =>
    intro recipients hsent hwords
    obtain ⟨rfl, htaken⟩ := eq_of_map_sent hsent
    rw [haccepted, htaken, if_pos rfl] at hsight
    exact Case.remembers_of_sent h.forwarded rfl hsight hwords

/-- Whom a message was passed on to grows by those, and only those, that a letter went to. -/
theorem forward_advances (f : Forwarder) (destinations : List Mailbox) (now : Time) (c : Case) :
    f.Advances destinations c (f.forward destinations now c).1
      (f.forward destinations now c).2 := by
  by_cases hmails : ∃ done, c.sight.Mails destinations done
  · obtain ⟨done, hmails⟩ := hmails
    exact .of_mails now hmails
  have hnone : ∀ done, ¬ c.sight.Mails destinations done := fun done h => hmails ⟨done, h⟩
  cases hdone : c.sight.forwarded with
  | error e =>
    -- the error is that of the field, which is looked at first
    obtain ⟨m, hrun, hsight⟩ := run_reads (reads_pending destinations) c
    have hforward : f.forward destinations now c = (.error e, ⟨c.office, m⟩) := by
      rw [hdone] at hrun
      exact run_bind_error hrun
    rw [hforward]
    refine .of_idle hsight (fun e' he' => ?_) ?_ (by simp)
    · rw [Sight.forwarded, he'] at hdone
      obtain rfl : e' = e := Except.error.inj hdone
      rfl
    · simp [Case.left_eq, hdone, bind, Except.bind]
  | ok done =>
    have hvalues : ∀ e, c.sight.values forwardedField ≠ .error e := by
      obtain ⟨vs, hvs, -⟩ := forwarded_eq_ok hdone
      simp [hvs]
    have hleft := Case.left_of_remembered (c.remembered_eq.trans hdone) destinations
    by_cases hempty : pendingOf done destinations = []
    · obtain ⟨m, hrun, hsight⟩ := forward_of_none_left f now hdone hempty
      rw [hrun]
      exact .of_idle hsight (fun e he => absurd he (hvalues e)) (by simp [hleft, hempty]) (by simp)
    · obtain ⟨e, m, hrun, hsight⟩ := forward_of_no_letter f now hnone fun done' hdone' =>
        Except.ok.inj (hdone.symm.trans hdone') ▸ hempty
      rw [hrun]
      exact .of_idle hsight (fun e he => absurd he (hvalues e)) (by simp [hleft, hempty]) (by simp)

end Forwarder

end Forward

/-! ### One of two mailboxes is left -/

/-- A message that was passed on to three addresses, as two fields tell. -/
def forwardedCase : Case :=
  ⟨.ofDisk (.empty 0), ⟨⟨⟨[], "INBOX"⟩, "1.a", some "2,S", .cur, none⟩,
    some (Utf8.encode ("From: boss@corp.com\n" ++
      "X-Zostay-Forwarded: Ann@home.com,bob@home.com\n" ++
      "X-Zostay-Forwarded: CY@home.com\n\nbody\n".toList)), none, none, []⟩⟩

/-- What passes it on through a post that takes every letter. -/
def forwardedRun : Except Error Forwarded × Case :=
  Forwarder.forward ⟨⟨none, "robot@home.com"⟩, ⟨fun _ _ => .ok ()⟩, []⟩
    [⟨none, "Dan@home.com"⟩, ⟨none, "Bob@home.com"⟩] 0 forwardedCase

/-- The letter goes to the one that is left, and all four stand in one field afterwards. -/
theorem remembers_forwardedRun :
    forwardedCase.Remembers ["dan@home.com"] forwardedRun.2 ∧
      (forwardedRun.2.message.edit? forwardedField).map Field.value =
        some "ann@home.com, bob@home.com, cy@home.com, dan@home.com" :=
  ⟨(Forwarder.forward_advances _ _ _ forwardedCase).remembers _ (by decide +kernel)
      (by decide +kernel),
    by decide +kernel⟩

end Mailroom
