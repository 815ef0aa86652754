import Mailroom.Proofs.Verdict

/-!
# What a verdict means

`Rule.verdict` makes its looks one after the other, each at what the looks before it have left in
the message's memory, and breaks off early.  `Rule.Judges` says what the verdict has to be without
any such order of events: every look in it is a look at the message as it was taken up.

* `Skip.Applies` and `Skip.Errs` say when there is a reason to skip a rule and when that cannot be
  known, and `Rule.Meets` says what each test asks for.
* `Rule.Judges` puts them together; where the order matters, it is that of `Skip.all` and of
  `Test.all`, as `IsFirst`.
* `Rule.verdict_eq_iff` says that the verdict is the one that a rule judges.
-/

namespace Mailroom

/-! ## The first of a list -/

section First

variable {α : Type}

/-- The first element of a list that has a property. -/
def IsFirst (p : α → Prop) (l : List α) (a : α) : Prop :=
  ∃ before after, l = before ++ a :: after ∧ (∀ b ∈ before, ¬ p b) ∧ p a

theorem exists_isFirst {p : α → Prop} {l : List α} {a : α} (ha : a ∈ l) (hp : p a) :
    ∃ b, IsFirst p l b := by
  induction l with
  | nil => simp at ha
  | cons b l ih =>
    by_cases hb : p b
    · exact ⟨b, [], l, rfl, by simp, hb⟩
    · have hne : a ≠ b := fun h => hb (h ▸ hp)
      obtain ⟨c, before, after, rfl, hbefore, hc⟩ := ih ((List.mem_cons.1 ha).resolve_left hne)
      exact ⟨c, b :: before, after, rfl, List.forall_mem_cons.2 ⟨hb, hbefore⟩, hc⟩

theorem occurs_iff [BEq α] [LawfulBEq α] {needle l : List α} :
    occurs needle l = true ↔ needle <:+: l := by
  induction l with
  | nil => simp [occurs]
  | cons x xs ih => simp [occurs, List.infix_cons_iff, ih]

end First

/-! ## What a look comes to -/

section Looks

variable {α : Type}

/-- A look finds something of a kind. -/
def Reading.Finds (r : Reading α) (d : Disk) (m : Message) (p : α → Prop) : Prop :=
  ∃ a, (r d m).1 = .ok a ∧ p a

/-- A look fails. -/
def Reading.Fails (r : Reading α) (d : Disk) (m : Message) : Prop := ∃ e, (r d m).1 = .error e

variable {r : Reading α} {f : Sight → Except Error α} {d : Disk} {m : Message}

theorem Reads.finds_iff (hr : Reads r f) {p : α → Bool} {P : α → Prop}
    (hp : ∀ a, p a = true ↔ P a) :
    r.Finds d m P ↔ (f (m.sight d) >>= fun a => Except.ok (p a)) = .ok true := by
  rw [Reading.Finds, (hr d m).1]
  cases f (m.sight d) with
  | error e => simp [Bind.bind, Except.bind]
  | ok a => simp [Bind.bind, Except.bind, hp]

theorem Reads.fails_iff (hr : Reads r f) (p : α → Bool) :
    r.Fails d m ↔ ∃ e, (f (m.sight d) >>= fun a => Except.ok (p a)) = .error e := by
  rw [Reading.Fails, (hr d m).1]
  cases f (m.sight d) with
  | error e => simp [Bind.bind, Except.bind]
  | ok a => simp [Bind.bind, Except.bind]

end Looks

/-! ## What the tests ask for -/

/-- Some mailbox has the address, blanks around it and case set aside. -/
def HasAddress (wanted : Text) (ms : List Mailbox) : Prop :=
  ∃ b ∈ ms, Text.lower b.email = Text.lower (Text.trim wanted)

/-- Some mailbox has the domain, blanks around it and case set aside. -/
def HasDomain (wanted : Text) (ms : List Mailbox) : Prop :=
  ∃ b ∈ ms, Text.lower b.domain = Text.lower (Text.trim wanted)

theorem anyAddress_iff {wanted : Text} (ms : List Mailbox) :
    anyAddress ms wanted = true ↔ HasAddress wanted ms := by
  simp [anyAddress, HasAddress]

theorem anyDomain_iff {wanted : Text} (ms : List Mailbox) :
    anyDomain ms wanted = true ↔ HasDomain wanted ms := by
  simp [anyDomain, HasDomain]

theorem Test.mem_all (t : Test) : t ∈ Test.all := by
  cases t with
  | folder => decide
  | age => decide
  | text t => cases t <;> decide

/-- What it means that a message agrees with a text. -/
def TextTest.Means (d : Disk) (m : Message) (operand : Text) : TextTest → Prop
  | author => (Message.mailboxes "From").Finds d m (HasAddress operand)
  | authorDomain => (Message.mailboxes "From").Finds d m (HasDomain operand)
  | recipient => (Message.mailboxes "To").Finds d m (HasAddress operand)
  | recipientDomain => (Message.mailboxes "To").Finds d m (HasDomain operand)
  | sender => (Message.mailboxes "Sender").Finds d m (HasAddress operand)
  | deliveredTo => (Message.mailboxes "Delivered-To").Finds d m (HasAddress operand)
  | subject => Message.subject.Finds d m (· = operand)
  | subjectAnyCase => Message.subject.Finds d m (fun s => Text.lower s = Text.lower operand)
  | subjectPart => Message.subject.Finds d m (operand <:+: ·)
  | subjectPartAnyCase =>
    Message.subject.Finds d m (fun s => Text.lower operand <:+: Text.lower s)
  | part => Message.raw.Finds d m (Utf8.encode operand <:+: ·)
  | partAnyCase =>
    Message.raw.Finds d m (fun b => Text.lower operand <:+: Text.lower (Utf8.decodeLossy b))

/-- What it means that a message passes a test that a rule makes. -/
def Rule.Meets (r : Rule) (d : Disk) (m : Message) : Test → Prop
  | .folder => r.criteria.folder = some m.folder
  | .age => ∃ okay, r.okayDate = some okay ∧ Message.date.Finds d m (· < okay)
  | .text t => ∃ operand, r.criteria.operand t = some operand ∧ t.Means d m operand

/-! ## What the reasons to skip a rule are -/

namespace Skip

/-- What it means that there is a reason to skip a rule. -/
def Applies (r : Rule) (d : Disk) (m : Message) : Skip → Prop
  | alreadyLabeled =>
    r.label ≠ [] ∧ Message.keywords.Finds d m (fun k => ∀ l ∈ r.label, k.contains l = true)
  | alreadyCleared =>
    r.clear ≠ [] ∧ Message.keywords.Finds d m (fun k => ∀ l ∈ r.clear, k.contains l = false)
  | alreadyInFolder => r.moveTo = some m.folder
  | starred => Message.keywords.Finds d m (fun k => k.contains Label.starred.labelForm = true)

/-- What it means that it cannot be known whether there is a reason to skip a rule. -/
def Errs (r : Rule) (d : Disk) (m : Message) : Skip → Prop
  | alreadyLabeled => r.label ≠ [] ∧ Message.keywords.Fails d m
  | alreadyCleared => r.clear ≠ [] ∧ Message.keywords.Fails d m
  | alreadyInFolder => False
  | starred => Message.keywords.Fails d m

/-- A reason that settles the verdict: it is there, or it cannot be known whether it is. -/
def Settles (r : Rule) (d : Disk) (m : Message) (s : Skip) : Prop :=
  s.Applies r d m ∨ s.Errs r d m

end Skip

/-- What the verdict on a message has to be. -/
inductive Rule.Judges (r : Rule) (d : Disk) (m : Message) : Verdict → Prop
  /-- The first reason that settles the verdict is there. -/
  | skip {s : Skip} (hfirst : IsFirst (Skip.Settles r d m) Skip.all s) (hs : s.Applies r d m) :
    Judges r d m (.skip s)
  /-- Of the first reason that settles the verdict it cannot be known whether it is there. -/
  | unreadable {s : Skip} (hfirst : IsFirst (Skip.Settles r d m) Skip.all s)
    (hs : s.Errs r d m) : Judges r d m (.fail .folder)
  /-- No reason settles the verdict, and a test is not passed. -/
  | fail {t : Test} (hskip : ∀ s, ¬ Skip.Settles r d m s)
    (hfirst : IsFirst (fun t => r.asks t = true ∧ ¬ r.Meets d m t) Test.all t) :
    Judges r d m (.fail t)
  /-- No reason settles the verdict, and there is nothing to pass but the test of the folder. -/
  | noTests (hskip : ∀ s, ¬ Skip.Settles r d m s) (hmeets : ∀ t, r.asks t = true → r.Meets d m t)
    (hnone : ∀ t, r.asks t = true → t = .folder) : Judges r d m .noTests
  /-- The keywords can be read, there is no reason to skip the rule, and all its tests, not only
  that of the folder, are passed. -/
  | pass {t : Test} (hread : Message.keywords.Finds d m (fun _ => True))
    (hskip : ∀ s : Skip, ¬ s.Applies r d m) (hasks : r.asks t = true) (ht : t ≠ .folder)
    (hmeets : ∀ t, r.asks t = true → r.Meets d m t) : Judges r d m .pass

/-! ## The looks mean what they say -/

section Sight

variable {r : Rule} {d : Disk} {m : Message}

theorem TextTest.means_iff {operand : Text} (t : TextTest) :
    t.Means d m operand ↔ (m.sight d).agrees operand t = .ok true := by
  cases t with
  | author => exact (Message.reads_mailboxes "From").finds_iff anyAddress_iff
  | authorDomain => exact (Message.reads_mailboxes "From").finds_iff anyDomain_iff
  | recipient => exact (Message.reads_mailboxes "To").finds_iff anyAddress_iff
  | recipientDomain => exact (Message.reads_mailboxes "To").finds_iff anyDomain_iff
  | sender => exact (Message.reads_mailboxes "Sender").finds_iff anyAddress_iff
  | deliveredTo => exact (Message.reads_mailboxes "Delivered-To").finds_iff anyAddress_iff
  | subject => exact Message.reads_subject.finds_iff fun _ => beq_iff_eq
  | subjectAnyCase => exact Message.reads_subject.finds_iff fun _ => beq_iff_eq
  | subjectPart => exact Message.reads_subject.finds_iff fun _ => occurs_iff
  | subjectPartAnyCase => exact Message.reads_subject.finds_iff fun _ => occurs_iff
  | part => exact Message.reads_raw.finds_iff fun _ => occurs_iff
  | partAnyCase => exact Message.reads_raw.finds_iff fun _ => occurs_iff

theorem Rule.meets_iff {t : Test} (hasks : r.asks t = true) :
    r.Meets d m t ↔ (m.sight d).passes r t = .ok true := by
  cases t with
  | folder =>
    obtain ⟨f, hf⟩ := Option.isSome_iff_exists.1 hasks
    have hsight : (m.sight d).entry.folder.name = m.folder := rfl
    simp [Meets, Sight.passes, hf, hsight]
  | age =>
    obtain ⟨okay, hokay⟩ := Option.isSome_iff_exists.1 hasks
    simp only [Meets, Sight.passes, hokay, Option.some.injEq, exists_eq_left']
    exact Message.reads_date.finds_iff fun _ => decide_eq_true_iff
  | text t =>
    obtain ⟨operand, hoperand⟩ := Option.isSome_iff_exists.1 hasks
    simp only [Meets, Sight.passes, hoperand, Option.some.injEq, exists_eq_left']
    exact t.means_iff

theorem Skip.applies_iff (s : Skip) : s.Applies r d m ↔ (m.sight d).skips r s = .ok true := by
  cases s with
  | alreadyLabeled =>
    by_cases hnil : r.label = []
    · simp [Applies, Sight.skips, hnil]
    · simp only [Applies, Sight.skips, ne_eq, hnil, not_false_eq_true, true_and,
        List.isEmpty_iff, if_false]
      exact Message.reads_keywords.finds_iff fun _ => List.all_eq_true
  | alreadyCleared =>
    by_cases hnil : r.clear = []
    · simp [Applies, Sight.skips, hnil]
    · simp only [Applies, Sight.skips, ne_eq, hnil, not_false_eq_true, true_and,
        List.isEmpty_iff, if_false]
      exact Message.reads_keywords.finds_iff fun _ => by simp
  | alreadyInFolder =>
    have hsight : (m.sight d).entry.folder.name = m.folder := rfl
    simp [Applies, Sight.skips, hsight]
  | starred => exact Message.reads_keywords.finds_iff fun _ => by simp

theorem Skip.errs_iff (s : Skip) : s.Errs r d m ↔ ∃ e, (m.sight d).skips r s = .error e := by
  cases s with
  | alreadyLabeled =>
    by_cases hnil : r.label = []
    · simp [Errs, Sight.skips, hnil]
    · simp only [Errs, Sight.skips, ne_eq, hnil, not_false_eq_true, true_and, List.isEmpty_iff,
        if_false]
      exact Message.reads_keywords.fails_iff _
  | alreadyCleared =>
    by_cases hnil : r.clear = []
    · simp [Errs, Sight.skips, hnil]
    · simp only [Errs, Sight.skips, ne_eq, hnil, not_false_eq_true, true_and, List.isEmpty_iff,
        if_false]
      exact Message.reads_keywords.fails_iff _
  | alreadyInFolder => simp [Errs, Sight.skips]
  | starred => exact Message.reads_keywords.fails_iff _

theorem Skip.settles_iff (s : Skip) :
    s.Settles r d m ↔ (m.sight d).skips r s ≠ .ok false := by
  rw [Settles, applies_iff, errs_iff]
  rcases (m.sight d).skips r s with e | _ | _ <;> simp

end Sight

/-! ## The verdict -/

namespace Sight

variable {v : Sight} {r : Rule}

theorem firstSkip_of_isFirst {ks : List Skip} {k : Skip}
    (h : IsFirst (fun k => v.skips r k ≠ .ok false) ks k) :
    v.firstSkip r ks = (v.skips r k).map (fun _ => some k) := by
  obtain ⟨before, after, rfl, hbefore, hk⟩ := h
  induction before with
  | nil =>
    rcases hskip : v.skips r k with e | _ | _
    · simp [firstSkip, hskip, bind, Except.bind, Except.map]
    · exact absurd hskip hk
    · simp [firstSkip, hskip, bind, Except.bind, pure, Except.pure, Except.map]
  | cons b before ih =>
    obtain ⟨hb, hrest⟩ := List.forall_mem_cons.1 hbefore
    rw [← ih hrest, List.cons_append, firstSkip, Classical.not_not.1 hb]
    rfl

theorem firstFailure_of_isFirst {ts : List Test} {t : Test}
    (h : IsFirst (fun t => r.asks t = true ∧ v.passes r t ≠ .ok true) ts t) :
    v.firstFailure r (ts.filter r.asks) = some t := by
  obtain ⟨before, after, rfl, hbefore, hasks, ht⟩ := h
  induction before with
  | nil =>
    rw [List.nil_append, List.filter_cons_of_pos hasks, firstFailure]
    split
    · exact absurd ‹_› ht
    · rfl
  | cons b before ih =>
    obtain ⟨hb, hrest⟩ := List.forall_mem_cons.1 hbefore
    rw [List.cons_append]
    by_cases hask : r.asks b = true
    · have hpass : v.passes r b = .ok true := Classical.not_not.1 fun hnot => hb ⟨hask, hnot⟩
      rw [List.filter_cons_of_pos hask, firstFailure, hpass]
      exact ih hrest
    · rw [List.filter_cons_of_neg hask]
      exact ih hrest

end Sight

namespace Rule

variable {r : Rule} {d : Disk} {m : Message} {v : Verdict}

theorem mem_tests (r : Rule) (t : Test) : t ∈ r.tests ↔ r.asks t = true := by
  simp [tests, t.mem_all]

/-- What is asked of the order of the reasons is asked of what can be seen. -/
theorem isFirst_skips {s : Skip} (h : IsFirst (Skip.Settles r d m) Skip.all s) :
    IsFirst (fun k => (m.sight d).skips r k ≠ .ok false) Skip.all s := by
  simpa only [IsFirst, Skip.settles_iff] using h

theorem firstSkip_eq_none (h : ∀ s, ¬ Skip.Settles r d m s) :
    (m.sight d).firstSkip r Skip.all = .ok none :=
  Sight.firstSkip_eq_ok_none.2 fun s _ => Classical.not_not.1 fun hnot => h s (s.settles_iff.2 hnot)

theorem firstFailure_eq_none_of_meets (h : ∀ t, r.asks t = true → r.Meets d m t) :
    (m.sight d).firstFailure r r.tests = none := by
  refine Sight.firstFailure_eq_none.2 fun t ht => ?_
  have hasks := (r.mem_tests t).1 ht
  exact (meets_iff hasks).1 (h t hasks)

/-- A reason cannot be unknown when the keywords are known. -/
theorem not_errs_of_finds (h : Message.keywords.Finds d m (fun _ => True)) (s : Skip) :
    ¬ s.Errs r d m := by
  obtain ⟨k, hk, -⟩ := h
  have hnot : ¬ Message.keywords.Fails d m := by
    rintro ⟨e, he⟩
    rw [hk] at he
    exact nomatch he
  cases s with
  | alreadyLabeled => exact fun h => hnot h.2
  | alreadyCleared => exact fun h => hnot h.2
  | alreadyInFolder => exact id
  | starred => exact hnot

/-- The keywords are known if it is known that the message is not starred. -/
theorem finds_of_not_settles (h : ¬ Skip.starred.Settles r d m) :
    Message.keywords.Finds d m (fun _ => True) := by
  cases hk : (Message.keywords d m).1 with
  | error e => exact absurd (.inr ⟨e, hk⟩) h
  | ok k => exact ⟨k, hk, trivial⟩

theorem Judges.verdict_eq (h : r.Judges d m v) : (m.sight d).verdict r = v := by
  cases h with
  | @skip s hfirst hs =>
    rw [Sight.verdict, Sight.firstSkip_of_isFirst (isFirst_skips hfirst), s.applies_iff.1 hs]
    rfl
  | @unreadable s hfirst hs =>
    obtain ⟨e, he⟩ := s.errs_iff.1 hs
    rw [Sight.verdict, Sight.firstSkip_of_isFirst (isFirst_skips hfirst), he]
    rfl
  | @fail t hskip hfirst =>
    have hfails : IsFirst (fun t => r.asks t = true ∧ (m.sight d).passes r t ≠ .ok true)
        Test.all t := by
      have hiff : (fun t => r.asks t = true ∧ ¬ r.Meets d m t) =
          (fun t => r.asks t = true ∧ (m.sight d).passes r t ≠ .ok true) :=
        funext fun t => propext (and_congr_right fun hasks => not_congr (meets_iff hasks))
      exact hiff ▸ hfirst
    rw [Sight.verdict, firstSkip_eq_none hskip, tests, Sight.firstFailure_of_isFirst hfails]
  | noTests hskip hmeets hnone =>
    have hany : r.tests.any (· != .folder) = false := by
      simpa [mem_tests] using hnone
    simp [Sight.verdict, firstSkip_eq_none hskip, firstFailure_eq_none_of_meets hmeets, hany]
  | @pass t hread hskip hasks ht hmeets =>
    have hsettles : ∀ s, ¬ Skip.Settles r d m s := fun s hs =>
      hs.elim (hskip s) (not_errs_of_finds hread s)
    have hany : r.tests.any (· != .folder) = true :=
      List.any_eq_true.2 ⟨t, (r.mem_tests t).2 hasks, by simpa using ht⟩
    simp [Sight.verdict, firstSkip_eq_none hsettles, firstFailure_eq_none_of_meets hmeets, hany]

/-- There is always something that the verdict has to be. -/
theorem exists_judges (r : Rule) (d : Disk) (m : Message) : ∃ v, r.Judges d m v := by
  by_cases hskip : ∃ s, Skip.Settles r d m s
  · obtain ⟨s, hs⟩ := hskip
    obtain ⟨s, hfirst⟩ := exists_isFirst (l := Skip.all) (by cases s <;> decide) hs
    obtain ⟨-, -, -, -, happlies | herrs⟩ := id hfirst
    · exact ⟨_, .skip hfirst happlies⟩
    · exact ⟨_, .unreadable hfirst herrs⟩
  have hskip : ∀ s, ¬ Skip.Settles r d m s := not_exists.1 hskip
  by_cases hfail : ∃ t, r.asks t = true ∧ ¬ r.Meets d m t
  · obtain ⟨t, ht⟩ := hfail
    obtain ⟨t, hfirst⟩ := exists_isFirst
      (p := fun t => r.asks t = true ∧ ¬ r.Meets d m t) t.mem_all ht
    exact ⟨_, .fail hskip hfirst⟩
  have hmeets : ∀ t, r.asks t = true → r.Meets d m t := fun t hasks =>
    Classical.not_not.1 fun hnot => hfail ⟨t, hasks, hnot⟩
  by_cases hnone : ∀ t, r.asks t = true → t = .folder
  · exact ⟨_, .noTests hskip hmeets hnone⟩
  · obtain ⟨t, ht⟩ := Classical.not_forall.1 hnone
    obtain ⟨hasks, ht⟩ := Classical.not_imp.1 ht
    exact ⟨_, .pass (finds_of_not_settles (hskip .starred))
      (fun s hs => hskip s (.inl hs)) hasks ht hmeets⟩

/-- The verdict on a message is the one that the rule judges.  Nothing is asked of the message:
it may be of no file at all, and remember anything. -/
theorem verdict_eq_iff (r : Rule) (d : Disk) (m : Message) (v : Verdict) :
    (r.verdict d m).1 = v ↔ r.Judges d m v := by
  have hrun : (r.verdict d m).1 = (m.sight d).verdict r := Except.ok.inj (reads_verdict r d m).1
  rw [hrun]
  refine ⟨fun h => ?_, Judges.verdict_eq⟩
  obtain ⟨v', hv'⟩ := r.exists_judges d m
  exact (hv'.verdict_eq.symm.trans h) ▸ hv'

end Rule

end Mailroom
