import Mailroom.Proofs.Header.Lists
import Mailroom.Proofs.Keywords
import Mailroom.Proofs.Pass.Handling

/-!
# Passing a message on

What comes of passing one message on: the letter that is given to the post, if there is one, and
what is remembered of it.

* `Sight.forwarded` are the addresses that a message was passed on to, as far as can be seen.
* `pendingOf` are those of a list that are left.
* `Sight.Mails` says that a letter is given to the post; `forward_of_mails` is what comes of it.
* `passOn_cases` lists what passing on can come to.
-/

namespace Mailroom

/-! ## What is looked at -/

/-- The addresses that the values of the field name. -/
def forwardedIn (values : List Text) : TextSet :=
  .ofList ((values.flatMap (Text.words isTokenBreak)).map Text.lower)

/-- The addresses that the message was passed on to. -/
def Sight.forwarded (v : Sight) : Except Error TextSet :=
  v.values forwardedField >>= fun values => .ok (forwardedIn values)

theorem mem_forwardedIn {values : List Text} {z : Text} : z ∈ (forwardedIn values).toList ↔
    ∃ v ∈ values, ∃ w ∈ Text.words isTokenBreak v, z = Text.lower w := by
  rw [forwardedIn, TextSet.mem_ofList, List.mem_map]
  simp only [List.mem_flatMap]
  constructor
  · rintro ⟨w, ⟨v, hv, hw⟩, rfl⟩
    exact ⟨v, hv, w, hw, rfl⟩
  · rintro ⟨v, hv, w, hw, rfl⟩
    exact ⟨w, ⟨v, hv, hw⟩, rfl⟩

/-- A written list of addresses in small letters reads as these addresses. -/
theorem mem_forwardedIn_join {ts : List Text}
    (h : ∀ t ∈ ts, Text.IsWord isTokenBreak t ∧ Text.lower t = t) (z : Text) :
    z ∈ (forwardedIn (if (Text.join ", " ts).isEmpty then [] else [Text.join ", " ts])).toList ↔
      z ∈ ts := by
  have hwords : Text.words isTokenBreak (Text.join ", " ts) = ts :=
    words_join_of_isWord fun t ht => (h t ht).1
  rw [mem_forwardedIn]
  by_cases hempty : (Text.join ", " ts).isEmpty = true
  · have hnil : ts = [] := by
      rw [← hwords, List.isEmpty_iff.1 hempty]
      rfl
    simp [hnil]
  · rw [if_neg hempty]
    constructor
    · rintro ⟨v, hv, w, hw, rfl⟩
      rw [List.mem_singleton.1 hv, hwords] at hw
      rw [(h w hw).2]
      exact hw
    · intro hz
      exact ⟨_, List.mem_singleton_self _, z, by rwa [hwords], (h z hz).2.symm⟩

theorem forwarded_eq_ok {v : Sight} {done : TextSet} (h : v.forwarded = .ok done) :
    ∃ vs, v.values forwardedField = .ok vs ∧ done = forwardedIn vs := by
  unfold Sight.forwarded at h
  cases hvalues : v.values forwardedField with
  | error e => simp [hvalues, bind, Except.bind] at h
  | ok vs =>
    simp only [hvalues, bind, Except.bind, Except.ok.injEq] at h
    exact ⟨vs, rfl, h.symm⟩

theorem values_withField_self (v : Sight) (name value : Text) :
    (v.withField name value).values name =
      .ok (if value.isEmpty then [] else [value]) := by
  rw [Sight.values, seenValues, Sight.withField, find?_withField_self]

/-- The addresses of a list that are left when a message was passed on to some. -/
def pendingOf (done : TextSet) (destinations : List Mailbox) : List Text :=
  (TextSet.ofList ((destinations.map (fun m => Text.lower m.email)).filter
    (fun a => !done.contains a))).toList

theorem mem_pendingOf {done : TextSet} {destinations : List Mailbox} {a : Text} :
    a ∈ pendingOf done destinations ↔
      (∃ m ∈ destinations, a = Text.lower m.email) ∧ a ∉ done.toList := by
  rw [pendingOf, TextSet.mem_ofList, List.mem_filter, List.mem_map]
  simp only [Bool.not_eq_true', ← Bool.not_eq_true, TextSet.contains_iff]
  constructor
  · rintro ⟨⟨m, hm, rfl⟩, hdone⟩
    exact ⟨⟨m, hm, rfl⟩, hdone⟩
  · rintro ⟨⟨m, hm, rfl⟩, hdone⟩
    exact ⟨⟨m, hm, rfl⟩, hdone⟩

/-- Who is left depends on no other address than those of the list. -/
theorem pendingOf_congr {done done' : TextSet} {destinations : List Mailbox}
    (h : ∀ m ∈ destinations,
      (Text.lower m.email ∈ done'.toList ↔ Text.lower m.email ∈ done.toList)) :
    pendingOf done' destinations = pendingOf done destinations := by
  have hsame : ∀ a ∈ destinations.map (fun m => Text.lower m.email),
      done'.contains a = done.contains a := by
    intro a ha
    obtain ⟨m, hm, rfl⟩ := List.mem_map.1 ha
    rw [Bool.eq_iff_iff, TextSet.contains_iff, TextSet.contains_iff]
    exact h m hm
  rw [pendingOf, pendingOf, List.filter_congr fun a ha => congrArg (!·) (hsame a ha)]

theorem reads_forwarded : Reads forwardedRecipients Sight.forwarded :=
  Reads.bind (Message.reads_fieldValues forwardedField) fun _ => Reads.pure _

theorem reads_pending (destinations : List Mailbox) :
    Reads (pendingRecipients destinations)
      (fun v => v.forwarded >>= fun done => .ok (pendingOf done destinations)) :=
  Reads.bind reads_forwarded fun _ => Reads.pure _

/-- The mailboxes of a field, or none if they cannot be read. -/
def Sight.mailboxesOrNone (v : Sight) (name : Text) : List Mailbox :=
  match v.mailboxes name with
  | .ok ms => ms
  | .error _ => []

theorem reads_mailboxesOrNone (name : Text) :
    Reads (Citation.mailboxesOrNone name) (fun v => .ok (v.mailboxesOrNone name)) := by
  intro d m
  obtain ⟨hvalue, hsight⟩ := Message.reads_mailboxes name d m
  cases hrun : Message.mailboxes name d m with
  | mk result m' =>
    rw [hrun] at hvalue hsight
    simp only at hvalue
    cases result with
    | ok ms =>
      have hcatch : Citation.mailboxesOrNone name d m = (.ok ms, m') := run_tryCatch_ok hrun
      rw [hcatch]
      simp only [Sight.mailboxesOrNone, ← hvalue]
      exact ⟨trivial, hsight⟩
    | error e =>
      have hcatch : Citation.mailboxesOrNone name d m = (.ok [], m') := run_tryCatch_error hrun
      rw [hcatch]
      simp only [Sight.mailboxesOrNone, ← hvalue]
      exact ⟨trivial, hsight⟩

/-- What the message says about itself. -/
def Sight.citation (v : Sight) : Except Error Citation := do
  let dates ← v.values "Date"
  let subject ← v.subject
  return ⟨v.mailboxesOrNone "From", dates.head?.getD [], subject, v.mailboxesOrNone "To",
    v.mailboxesOrNone "Cc"⟩

theorem reads_citation : Reads Citation.ofMessage Sight.citation := by
  refine (Reads.bind (reads_mailboxesOrNone _) fun _ => Reads.bind (Message.reads_field? _) fun _ =>
    Reads.bind Message.reads_subject fun _ => Reads.bind (reads_mailboxesOrNone _) fun _ =>
      Reads.bind (reads_mailboxesOrNone _) fun _ => Reads.pure _).congr fun v => ?_
  unfold Sight.citation
  cases v.values "Date" <;> cases v.subject <;> rfl

/-- What goes into a letter that passes the message on: the content, that the boundary must not
occur in, the citation and the parts. -/
def Sight.enclosed (v : Sight) : Except Error (Bytes × Citation × List Enclosure) := do
  let raw ← v.content
  let part ← Copy.ofParts (Part.read raw)
  let citation ← v.citation
  let enclosures ← Enclosure.ofLeaves citation ⟨false, false⟩ part.leaves
  return (raw, citation, enclosures)

theorem reads_copy (sender : Mailbox) (destinations : List Mailbox) (time : Time)
    (suggestions : List Text) : Reads (Copy.ofMessage sender destinations time suggestions)
      (fun v => v.enclosed >>= fun x => .ok ⟨sender, destinations, time, x.2.1.subject,
        Boundary.pick suggestions x.1, x.2.2⟩) := by
  refine (Reads.bind Message.reads_raw fun raw => Reads.bind (Reads.ofExcept _) fun part =>
    Reads.bind reads_citation fun citation => Reads.bind (Reads.ofExcept _) fun _ =>
      Reads.pure _).congr fun v => ?_
  simp only [Sight.enclosed, bind_assoc, pure_bind]

/-! ## Passing on -/

section Forward

variable {c : Case} {α : Type}

theorem run_look (r : Reading α) (c : Case) : (liftM r.toEditing : Handling α) c =
    ((r c.office.disk c.message).1, ⟨c.office, (r c.office.disk c.message).2⟩) := rfl

/-- A step that looks at the message gives what the sight says. -/
theorem run_reads {r : Reading α} {f : Sight → Except Error α} (hr : Reads r f) (c : Case) :
    ∃ m, (liftM r.toEditing : Handling α) c = (f c.sight, ⟨c.office, m⟩) ∧
      Case.sight ⟨c.office, m⟩ = c.sight := by
  obtain ⟨hvalue, hsight⟩ := hr c.office.disk c.message
  refine ⟨(r c.office.disk c.message).2, ?_, hsight⟩
  rw [run_look, hvalue]
  rfl

/-- The office when one more letter was given to the post. -/
def Office.posted (o : Office) (x : Submission) : Office :=
  { o with submissions := o.submissions ++ [x] }

@[simp] theorem Office.disk_posted (o : Office) (x : Submission) : (o.posted x).disk = o.disk := rfl

@[simp] theorem Office.submissions_posted (o : Office) (x : Submission) :
    (o.posted x).submissions = o.submissions ++ [x] := rfl

theorem submit_run (post : Post) (letter : Letter) (c : Case) :
    Handling.submit post letter c = (post.answer c.office.submissions letter,
      ⟨c.office.posted ⟨letter, c.sight.entry.path,
        (post.answer c.office.submissions letter).toBool⟩, c.message⟩) := rfl

theorem forwardedField_ne : Text.sameName forwardedField Keywords.fieldName = false := by decide

/-- A letter about the message is given to the post: there are addresses left that it was not
passed on to, besides those that it was, and the letter can be made. -/
structure Sight.Mails (v : Sight) (destinations : List Mailbox) (done : TextSet) : Prop where
  /-- The message was passed on to some addresses. -/
  forwarded : v.forwarded = .ok done
  /-- There are others. -/
  pending : pendingOf done destinations ≠ []
  /-- The parts of the message can be put into a letter. -/
  enclosed : ∃ x, v.enclosed = .ok x

/-- Who is left is told by who was remembered. -/
theorem pending_run (destinations : List Mailbox) {done : TextSet}
    (hdone : c.sight.forwarded = .ok done) :
    ∃ m, (liftM (pendingRecipients destinations).toEditing : Handling _) c =
        (.ok (pendingOf done destinations), ⟨c.office, m⟩) ∧ Case.sight ⟨c.office, m⟩ = c.sight := by
  obtain ⟨m, hrun, hsight⟩ := run_reads (reads_pending destinations) c
  rw [hdone] at hrun
  exact ⟨m, hrun, hsight⟩

/-- Once a letter was taken, all to whom one went are remembered: who was before is read again,
after the office has changed, but not what is seen of the message. -/
theorem remember_run {x : Submission} {m : Message} (g : Handling α)
    (hsight : Case.sight ⟨c.office, m⟩ = c.sight) {done : TextSet}
    (hdone : c.sight.forwarded = .ok done) (recipients : List Text) :
    ∃ m', (do
        let done ← Reading.toEditing forwardedRecipients
        let all := (done.insertAll recipients).toList
        modifyThe Case fun c =>
          { c with message := c.message.setField forwardedField (Text.join ", " all) }
        g : Handling α) ⟨c.office.posted x, m⟩ = g ⟨c.office.posted x, m'⟩ ∧
      m'.sight c.office.disk = c.sight.withField forwardedField
        (Text.join ", " (done.insertAll recipients).toList) := by
  have hsame : Case.sight ⟨c.office.posted x, m⟩ = c.sight := by
    rw [← hsight, Case.sight, Case.sight, Office.disk_posted]
  obtain ⟨m₂, hrun, hsight₂⟩ := run_reads reads_forwarded ⟨c.office.posted x, m⟩
  rw [hsame] at hsight₂
  rw [hsame, hdone] at hrun
  have hread : (liftM forwardedRecipients.toEditing : Handling _) ⟨c.office.posted x, m⟩ =
      (.ok done, ⟨c.office.posted x, m₂⟩) := hrun
  have hm₂ : m₂.sight c.office.disk = c.sight := hsight₂
  refine ⟨m₂.setField forwardedField (Text.join ", " (done.insertAll recipients).toList),
    run_bind_ok hread, ?_⟩
  rw [Message.sight_setField _ forwardedField_ne, hm₂]

/-- Without anybody left, nothing is given to the post. -/
theorem forward_of_none_left (f : Forwarder) {destinations : List Mailbox} (now : Time)
    {done : TextSet} (hdone : c.sight.forwarded = .ok done)
    (hnone : pendingOf done destinations = []) :
    ∃ m, f.forward destinations now c = (.ok .alreadyDone, ⟨c.office, m⟩) ∧
      Case.sight ⟨c.office, m⟩ = c.sight := by
  obtain ⟨m, hpending, hsight⟩ := pending_run destinations hdone
  rw [Forwarder.forward, run_bind_ok hpending, if_pos (by simp [hnone])]
  exact ⟨m, rfl, hsight⟩

/-- Passing on fails if the letter cannot be made. -/
theorem forward_of_no_letter (f : Forwarder) {destinations : List Mailbox} (now : Time)
    (h : ∀ done, ¬ c.sight.Mails destinations done)
    (hleft : ∀ done, c.sight.forwarded = .ok done → pendingOf done destinations ≠ []) :
    ∃ e m, f.forward destinations now c = (.error e, ⟨c.office, m⟩) ∧
      Case.sight ⟨c.office, m⟩ = c.sight := by
  cases hdone : c.sight.forwarded with
  | error e =>
    obtain ⟨m, hrun, hsight⟩ := run_reads (reads_pending destinations) c
    rw [hdone] at hrun
    exact ⟨e, m, run_bind_error hrun, hsight⟩
  | ok done =>
    obtain ⟨m₁, hpending, hsight₁⟩ := pending_run destinations hdone
    rw [Forwarder.forward, run_bind_ok hpending, if_neg (by simpa using hleft done hdone)]
    obtain ⟨m₂, hrun₂, hsight₂⟩ :=
      run_reads (reads_copy f.sender destinations now f.boundaries) ⟨c.office, m₁⟩
    rw [hsight₁] at hrun₂ hsight₂
    cases henclosed : c.sight.enclosed with
    | error e =>
      rw [henclosed] at hrun₂
      exact ⟨e, m₂, run_bind_error hrun₂, hsight₂⟩
    | ok x => exact absurd ⟨hdone, hleft done hdone, x, henclosed⟩ (h done)

/-- Either way nothing is given to the post. -/
theorem forward_of_not_mails (f : Forwarder) {destinations : List Mailbox} (now : Time)
    (h : ∀ done, ¬ c.sight.Mails destinations done) :
    ∃ result m, f.forward destinations now c = (result, ⟨c.office, m⟩) ∧
      Case.sight ⟨c.office, m⟩ = c.sight := by
  by_cases hleft : ∀ done, c.sight.forwarded = .ok done → pendingOf done destinations ≠ []
  · obtain ⟨e, hfails⟩ := forward_of_no_letter f now h hleft
    exact ⟨.error e, hfails⟩
  · obtain ⟨done, hdone, hnone⟩ : ∃ done, c.sight.forwarded = .ok done ∧
        pendingOf done destinations = [] := by simpa using hleft
    exact ⟨_, forward_of_none_left f now hdone hnone⟩

/-- Otherwise a letter to all addresses that are left is, and they are remembered if the post
takes it. -/
theorem forward_of_mails (f : Forwarder) {destinations : List Mailbox} (now : Time)
    {done : TextSet} (h : c.sight.Mails destinations done) :
    ∃ letter accepted m, f.forward destinations now c =
        ((f.post.answer c.office.submissions letter).map fun _ =>
            .sent (pendingOf done destinations),
          ⟨c.office.posted ⟨letter, c.sight.entry.path, accepted⟩, m⟩) ∧
      accepted = (f.post.answer c.office.submissions letter).toBool ∧
      letter.recipients = pendingOf done destinations ∧
      m.sight c.office.disk = if accepted then c.sight.withField forwardedField
        (Text.join ", " (done.insertAll (pendingOf done destinations)).toList) else c.sight := by
  obtain ⟨hdone, hsome, x, henclosed⟩ := h
  obtain ⟨m₁, hpending, hsight₁⟩ := pending_run destinations hdone
  rw [Forwarder.forward, run_bind_ok hpending, if_neg (by simpa using hsome)]
  obtain ⟨m₂, hrun₂, hsight₂⟩ :=
    run_reads (reads_copy f.sender destinations now f.boundaries) ⟨c.office, m₁⟩
  rw [hsight₁] at hsight₂
  rw [hsight₁, henclosed] at hrun₂
  have hcopied : (liftM (Copy.ofMessage f.sender destinations now f.boundaries).toEditing :
      Handling _) ⟨c.office, m₁⟩ = (.ok ⟨f.sender, destinations, now, x.2.1.subject,
        Boundary.pick f.boundaries x.1, x.2.2⟩, ⟨c.office, m₂⟩) := hrun₂
  rw [run_bind_ok hcopied]
  generalize (⟨f.sender, destinations, now, x.2.1.subject, Boundary.pick f.boundaries x.1,
    x.2.2⟩ : Copy) = copy
  generalize hletter : (⟨f.sender.email, pendingOf done destinations,
    Utf8.encode copy.render⟩ : Letter) = letter
  have hsubmit := submit_run f.post letter ⟨c.office, m₂⟩
  rw [hsight₂] at hsubmit
  cases hanswer : f.post.answer c.office.submissions letter with
  | error e =>
    rw [hanswer] at hsubmit
    refine ⟨letter, false, m₂, ?_, by rw [hanswer]; rfl, by rw [← hletter], hsight₂⟩
    rw [hanswer]
    exact run_bind_error hsubmit
  | ok u =>
    rw [hanswer] at hsubmit
    obtain ⟨m₃, hremembered, hsight₃⟩ := remember_run
      (x := ⟨letter, c.sight.entry.path, true⟩) (pure (Forwarded.sent (pendingOf done destinations)))
      hsight₂ hdone (pendingOf done destinations)
    rw [run_bind_ok hsubmit]
    refine ⟨letter, true, m₃, ?_, by rw [hanswer]; rfl, by rw [← hletter], hsight₃⟩
    rw [hanswer]
    exact hremembered

/-- What passing a message on can come to: no letter is given to the post, or one to all
addresses that are left, which are remembered if the post takes it. -/
theorem forward_cases (f : Forwarder) (destinations : List Mailbox) (now : Time) (c : Case) :
    (∃ result m, f.forward destinations now c = (result, ⟨c.office, m⟩) ∧
      Case.sight ⟨c.office, m⟩ = c.sight) ∨
    (∃ result done letter accepted m, f.forward destinations now c = (result,
        ⟨c.office.posted ⟨letter, c.sight.entry.path, accepted⟩, m⟩) ∧
      c.sight.forwarded = .ok done ∧ letter.recipients = pendingOf done destinations ∧
      m.sight c.office.disk = if accepted then c.sight.withField forwardedField
        (Text.join ", " (done.insertAll (pendingOf done destinations)).toList) else c.sight) := by
  by_cases h : ∃ done, c.sight.Mails destinations done
  · obtain ⟨done, hmails⟩ := h
    obtain ⟨letter, accepted, m, hrun, -, hletter, hsight⟩ := forward_of_mails f now hmails
    exact Or.inr ⟨_, done, letter, accepted, m, hrun, hmails.forwarded, hletter, hsight⟩
  · exact Or.inl (forward_of_not_mails f now fun done hmails => h ⟨done, hmails⟩)

/-- The summary after a letter was to be sent: it is counted if it was. -/
def Summary.recordLetter (s : Summary) (destinations : List Mailbox) :
    Except Error Forwarded → Summary
  | .ok (.sent _) => s.record ("Forwarded " ++ Mailbox.renderList destinations)
  | _ => s

/-- Whatever comes of the letter, the clerk goes on. -/
theorem passOn_of_forwarder {k : Clerk} {f : Forwarder} {destinations : List Mailbox}
    (hf : k.forwarder = some f) (hdry : k.dryRun = false) (hdest : destinations.isEmpty = false)
    {result : Except Error Forwarded} {c' : Case}
    (hrun : f.forward destinations k.now c = (result, c')) :
    k.passOn destinations c = (.ok (), ⟨{ c'.office with
      summary := c'.office.summary.recordLetter destinations result }, c'.message⟩) := by
  simp only [Clerk.passOn, hf, hdry, hdest, Bool.false_eq_true, if_false]
  cases result with
  | error e =>
    have hmap : (some <$> f.forward destinations k.now : Handling (Option Forwarded)) c =
        (.error e, c') := run_bind_error hrun
    have hcaught : (tryCatch (some <$> f.forward destinations k.now) (fun _ => return none) :
        Handling (Option Forwarded)) c = (.ok none, c') := run_tryCatch_error hmap
    exact run_bind_ok hcaught
  | ok forwarded =>
    have hmap : (some <$> f.forward destinations k.now : Handling (Option Forwarded)) c =
        (.ok (some forwarded), c') := run_bind_ok hrun
    have hcaught : (tryCatch (some <$> f.forward destinations k.now) (fun _ => return none) :
        Handling (Option Forwarded)) c = (.ok (some forwarded), c') := run_tryCatch_ok hmap
    cases forwarded with
    | sent recipients => exact run_bind_ok hcaught
    | alreadyDone => exact run_bind_ok hcaught

/-- Without anybody to pass it on to, nothing is done. -/
theorem passOn_of_nobody (k : Clerk) {destinations : List Mailbox}
    (hdest : destinations.isEmpty = true) (c : Case) :
    k.passOn destinations c = (.ok (), c) := by
  rw [Clerk.passOn, if_pos hdest]
  rfl

/-- Without a forwarder, it is counted that the message was not passed on. -/
theorem passOn_of_no_forwarder {k : Clerk} (hf : k.forwarder = none) {destinations : List Mailbox}
    (hdest : destinations.isEmpty = false) (c : Case) :
    k.passOn destinations c = (.ok (), ⟨{ c.office with
      summary := c.office.summary.record
        ("NOT Forwarded " ++ Mailbox.renderList destinations) }, c.message⟩) := by
  simp only [Clerk.passOn, hf, hdest, Bool.false_eq_true, if_false]
  rfl

/-- On a trial it is counted that the message was passed on if somebody is left. -/
theorem passOn_of_trial {k : Clerk} {f : Forwarder} (hf : k.forwarder = some f)
    (hdry : k.dryRun = true) {destinations : List Mailbox} (hdest : destinations.isEmpty = false)
    {done : TextSet} (hdone : c.sight.forwarded = .ok done) :
    ∃ m, k.passOn destinations c = (.ok (), ⟨{ c.office with
        summary := if (pendingOf done destinations).isEmpty then c.office.summary
          else c.office.summary.record ("Forwarded " ++ Mailbox.renderList destinations) }, m⟩) ∧
      m.sight c.office.disk = c.sight := by
  simp only [Clerk.passOn, hf, hdry, hdest, Bool.false_eq_true, if_false, if_true]
  obtain ⟨m, hpending, hsight⟩ := pending_run destinations hdone
  rw [run_bind_ok hpending]
  refine ⟨m, ?_, hsight⟩
  cases (pendingOf done destinations).isEmpty with
  | true => rfl
  | false => rfl

/-- The trial fails if it cannot be told who is left. -/
theorem passOn_of_trial_unread {k : Clerk} {f : Forwarder} (hf : k.forwarder = some f)
    (hdry : k.dryRun = true) {destinations : List Mailbox} (hdest : destinations.isEmpty = false)
    {e : Error} (hdone : c.sight.forwarded = .error e) :
    ∃ m, k.passOn destinations c = (.error e, ⟨c.office, m⟩) ∧
      m.sight c.office.disk = c.sight := by
  simp only [Clerk.passOn, hf, hdry, hdest, Bool.false_eq_true, if_false, if_true]
  obtain ⟨m, hrun, hsight⟩ := run_reads (reads_pending destinations) c
  rw [hdone] at hrun
  exact ⟨m, run_bind_error hrun, hsight⟩

/-- What a clerk can come to who passes a message on: nothing but the summary changes, or a letter
was given to the post. -/
theorem passOn_cases (k : Clerk) (destinations : List Mailbox) (c : Case) :
    ∃ result summary m, (k.dryRun = false → result = .ok ()) ∧
      ((k.passOn destinations c = (result, ⟨{ c.office with summary := summary }, m⟩) ∧
          m.sight c.office.disk = c.sight) ∨
        (k.dryRun = false ∧ ∃ done letter accepted, k.passOn destinations c = (result,
            ⟨{ c.office.posted ⟨letter, c.sight.entry.path, accepted⟩ with summary := summary },
              m⟩) ∧
          c.sight.forwarded = .ok done ∧ letter.recipients = pendingOf done destinations ∧
          m.sight c.office.disk = if accepted then c.sight.withField forwardedField
            (Text.join ", " (done.insertAll (pendingOf done destinations)).toList)
            else c.sight)) := by
  cases hdest : destinations.isEmpty with
  | true => exact ⟨_, _, _, fun _ => rfl, Or.inl ⟨passOn_of_nobody k hdest c, rfl⟩⟩
  | false =>
    cases hf : k.forwarder with
    | none => exact ⟨_, _, _, fun _ => rfl, Or.inl ⟨passOn_of_no_forwarder hf hdest c, rfl⟩⟩
    | some f =>
      cases hdry : k.dryRun with
      | true =>
        cases hdone : c.sight.forwarded with
        | error e =>
          obtain ⟨m, hpass, hsight⟩ := passOn_of_trial_unread hf hdry hdest hdone
          exact ⟨.error e, _, m, by simp, Or.inl ⟨hpass, hsight⟩⟩
        | ok done =>
          obtain ⟨m, hpass, hsight⟩ := passOn_of_trial hf hdry hdest hdone
          exact ⟨.ok (), _, m, by simp, Or.inl ⟨hpass, hsight⟩⟩
      | false =>
        rcases forward_cases f destinations k.now c with ⟨result, m, hrun, hsight⟩ |
          ⟨result, done, letter, accepted, m, hrun, hdone, hletter, hsight⟩
        · have hpass := passOn_of_forwarder hf hdry hdest hrun
          exact ⟨.ok (), _, m, fun _ => rfl, Or.inl ⟨hpass, hsight⟩⟩
        · have hpass := passOn_of_forwarder hf hdry hdest hrun
          exact ⟨.ok (), _, m, fun _ => rfl,
            Or.inr ⟨rfl, done, letter, accepted, hpass, hdone, hletter, hsight⟩⟩

end Forward

end Mailroom
