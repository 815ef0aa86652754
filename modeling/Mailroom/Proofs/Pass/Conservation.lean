import Mailroom.Proofs.Clerk
import Mailroom.Proofs.Message.Carried
import Mailroom.Proofs.Message.Plain
import Mailroom.Proofs.Message.Staying
import Mailroom.Proofs.Pass.Run
import Mailroom.Proofs.Rule

/-!
# A pass loses and doubles no mail

Whatever a pass does, and wherever it stops, the messages after it are those before it: they keep
their state, their name and their body.

* `Pass.KeepsMail` is the invariant of the office, `Pass.KeepsMailAt` the one of a message at hand.
* `Pass.exists_messages_equiv` is the result, for the message files of a maildir.
-/

namespace Mailroom

/-! ## What rules may do -/

/-- Whether no text that a rule writes holds a line feed, and its folder is another one than the
maildir and the place that it is in. -/
structure Rule.IsTame (r : Rule) : Prop where
  /-- The labels. -/
  label : ∀ l ∈ r.label, '\n' ∉ l
  /-- The addresses. -/
  forward : ∀ m ∈ r.forward, '\n' ∉ m.email
  /-- The folder. -/
  moveTo : r.moveTo ≠ some "." ∧ r.moveTo ≠ some ".."

theorem IsUsed.isTame {rules : List Rule} {now : Time} {r : Rule} (h : IsUsed rules now r)
    (hrules : ∀ r ∈ rules, r.IsCompiled ∧ r.IsTame) :
    (∀ l ∈ r.label, '\n' ∉ l) ∧ (∀ m ∈ r.forward, '\n' ∉ m.email) ∧
      ∀ g, r.moveTo = some g → IsName g := by
  obtain ⟨source, hsource, hlabel, hforward, hmove⟩ := h.keeps_actions
  obtain ⟨hcompiled, htame⟩ := hrules source hsource
  refine ⟨fun l hl => htame.label l (hlabel l hl),
    fun m hm => htame.forward m (hforward m hm), fun g hg => ?_⟩
  have hg' := hmove g hg
  refine hcompiled.isName_moveTo hg' ?_ ?_
  · rintro rfl
    exact htame.moveTo.1 hg'
  · rintro rfl
    exact htame.moveTo.2 hg'

namespace Pass

variable {p : Pass} {place : Path} {d₀ : Disk}

/-! ## The invariant -/

/-- The messages on the disk are those of an earlier disk. -/
def KeepsMail (p : Pass) (place : Path) (d₀ : Disk) (o : Office) : Prop :=
  o.disk.Sound ∧ o.disk.resolve p.maildir.root = .ok place ∧ ∃ π, Carried place π d₀ o.disk

/-- The same while a message is at hand. -/
def KeepsMailAt (p : Pass) (place : Path) (d₀ : Disk) (o : Office) (v : Sight) : Prop :=
  ∃ s f π, Message.At p.maildir.root place s f o.disk v ∧ Carried place π d₀ o.disk ∧ v.IsPlain

theorem KeepsMailAt.keepsMail {o : Office} {v : Sight} (h : p.KeepsMailAt place d₀ o v) :
    p.KeepsMail place d₀ o := by
  obtain ⟨s, f, π, hat, hcarried, -⟩ := h
  exact ⟨hat.sound, hat.resolve, π, hcarried⟩

section Steps

variable (hnames : NamesDiffer place d₀)

theorem keepsMailAt_save : Handling.Maintains (p.KeepsMailAt place d₀) p.clerk.save := by
  refine maintains_save fun o v ⟨s, f, π, hat, hcarried, hplain⟩ => ⟨s, f, hat, ?_⟩
  intro header id d' v' ⟨hread, _, helse, hat', hedits, hkeywords⟩
  exact ⟨s, _, π, hat', hcarried.rewritten (fun _ => helse.other_slot) hat.file hat'.file
    (sameLetter_revise hread hplain.edits), hplain.saved hedits hkeywords⟩

include hnames

theorem keepsMailAt_move {target : Option Text} (hproper : ∀ g, target = some g → IsName g) :
    Handling.Maintains (p.KeepsMailAt place d₀) (p.clerk.move target) := by
  refine maintains_move rfl (fun _ _ _ h => h) hproper
    fun o v g hg _ ⟨s, f, π, hat, hcarried, hplain⟩ =>
      ⟨s, f, hat, fun d' hne helse hgone hat' => ?_⟩
  -- no message of this state and name is in the other folder
  have hfree : ¬ (s.within g hg).IsTaken place o.disk := by
    intro htaken
    have hsame := hcarried.namesDiffer hnames _ _ htaken ⟨f, hat.file⟩ rfl rfl
    exact hne (congrArg Slot.folder hsame)
  refine ⟨s.within g hg, f, _, hat',
    hcarried.moved (s := s) (t := s.within g hg) rfl rfl ?_ hat.file hfree hgone hat'.file
      (SameLetter.refl _), hplain.moved _⟩
  intro u hus hut
  refine helse.same _ ?_
  simp only [List.mem_cons, List.not_mem_nil, or_false, not_or]
  exact ⟨fun h => hus (Slot.append_names_inj h), fun h => hut (Slot.append_names_inj h)⟩

theorem keepsMailAt_apply {r : Rule} (hlabel : ∀ l ∈ r.label, '\n' ∉ l)
    (hforward : ∀ m ∈ r.forward, '\n' ∉ m.email) (hmove : ∀ g, r.moveTo = some g → IsName g) :
    Handling.Maintains (p.KeepsMailAt place d₀) (p.clerk.apply r) := by
  refine maintains_apply (fun _ _ _ h => h) ?_ ?_ ?_ keepsMailAt_save (keepsMailAt_move hnames hmove)
  · rintro o v k ⟨s, f, π, hat, hcarried, hplain⟩ hk
    exact ⟨s, f, π, hat.withKeywords _, hcarried, hplain.insertAll hk hlabel⟩
  · rintro o v k ⟨s, f, π, hat, hcarried, hplain⟩ hk
    exact ⟨s, f, π, hat.withKeywords _, hcarried, hplain.eraseAll _ hk⟩
  · refine maintains_passOn (fun _ _ _ h => h) ?_
    rintro o v done letter accepted - ⟨s, f, π, hat, hcarried, hplain⟩ hdone -
    cases accepted with
    | false => exact ⟨s, f, π, hat, hcarried, hplain⟩
    | true =>
      exact ⟨s, f, π, hat.withField _ _, hcarried, hplain.passedOn hdone hforward⟩

/-- Handling a message keeps the mail, whether or not the message is still where it was met. -/
theorem keepsMail_handle (hrules : ∀ r ∈ p.rules, r.IsCompiled ∧ r.IsTame) (s : Slot) (o : Office)
    (h : p.KeepsMail place d₀ o) : p.KeepsMail place d₀
      ((p.handle (p.rulebook.rulesFor s.folder)).onMessage
        (.ofEntry (s.entry p.maildir.root)) o).2 := by
  obtain ⟨hd, hroot, π, hcarried⟩ := h
  by_cases htaken : s.IsTaken place o.disk
  · obtain ⟨f, hf⟩ := htaken
    have hat : p.KeepsMailAt place d₀ o
        ((Message.ofEntry (s.entry p.maildir.root)).sight o.disk) := by
      rw [Message.sight_ofEntry hd hroot hf]
      exact ⟨s, f, π, .ofFile hd hroot hf, hcarried, .ofFile _ _⟩
    refine keeps_onMessage (I := p.KeepsMailAt place d₀) (fun _ _ h => h.keepsMail) (fun r hr => ?_)
      (fun r hr => Rulebook.isUsed_of_mem_rulesFor hr) hat
    obtain ⟨hlabel, hforward, hmove⟩ := hr.isTame hrules
    exact keepsMailAt_apply hnames hlabel hforward hmove
  · rw [onMessage_of_not_taken hd hroot htaken]
    exact ⟨hd, hroot, π, hcarried⟩

end Steps

/-- A pass keeps the mail. -/
theorem keepsMail_run (hnames : NamesDiffer place d₀)
    (hrules : ∀ r ∈ p.rules, r.IsCompiled ∧ r.IsTame) : Keeps (p.KeepsMail place d₀) p.run :=
  keeps_run (fun _ h => ⟨h.1, h.2.1⟩) fun o s h _ => keepsMail_handle hnames hrules s o h

end Pass

/-! ## The message files of a maildir -/

/-- The message files after a pass are those before it, one by one: each keeps its state and its
name, and it stays the same letter. -/
theorem Pass.exists_messages_equiv (p : Pass) (o : Office) (hd : o.disk.Sound)
    (hrules : ∀ r ∈ p.rules, r.IsCompiled ∧ r.IsTame)
    (hnames : ∀ s t, p.maildir.HasMessage o.disk s → p.maildir.HasMessage o.disk t →
      s.state = t.state → s.name = t.name → s = t) :
    ∃ π : { s // p.maildir.HasMessage o.disk s } ≃ { s // p.maildir.HasMessage (p.run o).2.disk s },
      ∀ x, (π x).1.state = x.1.state ∧ (π x).1.name = x.1.name ∧
        ∃ before after, o.disk.read (p.maildir.root ++ x.1.names) = .ok before ∧
          (p.run o).2.disk.read (p.maildir.root ++ (π x).1.names) = .ok after ∧
          SameLetter before after := by
  cases hroot : o.disk.resolve p.maildir.root with
  | error e =>
    rw [run_of_no_maildir hroot]
    refine ⟨Equiv.refl _, fun x => ⟨rfl, rfl, ?_⟩⟩
    obtain ⟨f, hf⟩ := x.2
    have hread : o.disk.read (p.maildir.root ++ x.1.names) = .ok f.content := by
      rw [Disk.read, hf]
      rfl
    exact ⟨f.content, f.content, hread, hread, SameLetter.refl _⟩
  | ok place =>
    have hbefore := Maildir.hasMessage_iff hd hroot
    have hdiffer : NamesDiffer place o.disk := fun s t hs ht =>
      hnames s t ((hbefore s).2 hs) ((hbefore t).2 ht)
    obtain ⟨hd', hroot', π, hcarried⟩ := keepsMail_run hdiffer hrules o
      ⟨hd, hroot, Equiv.refl Slot, Carried.refl place o.disk⟩
    have hafter := Maildir.hasMessage_iff hd' hroot'
    refine ⟨π.subtypeEquiv fun s => ?_, fun x => ⟨hcarried.state _, hcarried.name _, ?_⟩⟩
    · rw [hbefore, hafter, hcarried.taken]
    · obtain ⟨f, hf⟩ := (hbefore _).1 x.2
      obtain ⟨f', hf'⟩ := (hcarried.taken _).2 ⟨f, hf⟩
      refine ⟨f.content, f'.content, ?_, ?_, hcarried.letter _ _ _ hf hf'⟩
      · rw [Disk.read, (Disk.file_below hd hroot x.1.isName_of_mem_names).2 hf]
        rfl
      · have hfile := (Disk.file_below hd' hroot' (π x.1).isName_of_mem_names).2 hf'
        exact congrArg (Except.map File.content) hfile

/-! ### A pass that files messages away -/

/-- A rule, as it is written, that labels the messages of a subject and files them away. -/
def filingRaw : RawRule where
  criteria := { Criteria.none with operand := fun t => if t = .subject then some "s" else none }
  clear := []
  label := ["urgent"]
  moveTo := some "work"
  forward := []

/-- The rule that it stands for. -/
def filingRule : Rule where
  criteria := filingRaw.criteria.normalized
  okayDate := none
  clear := []
  label := ["urgent"]
  moveTo := some "work"
  forward := []
  order := 0

/-- A pass with this rule. -/
def filingPass : Pass where
  maildir := ⟨[], .byName⟩
  rules := [filingRule]
  forwarder := none
  allowForwarding := false
  dryRun := false
  window := none
  now := 0
  calledOff _ := false

theorem filing_messages_equiv :
    ∃ π : { s // filingPass.maildir.HasMessage sampleDisk s } ≃
        { s // filingPass.maildir.HasMessage (filingPass.run (.ofDisk sampleDisk)).2.disk s },
      ∀ x, (π x).1.state = x.1.state ∧ (π x).1.name = x.1.name ∧
        ∃ before after, sampleDisk.read (filingPass.maildir.root ++ x.1.names) = .ok before ∧
          (filingPass.run (.ofDisk sampleDisk)).2.disk.read
            (filingPass.maildir.root ++ (π x).1.names) = .ok after ∧
          SameLetter before after := by
  refine Pass.exists_messages_equiv filingPass (.ofDisk sampleDisk) sound_sampleDisk ?_ ?_
  · intro r hr
    obtain rfl : r = filingRule := List.mem_singleton.1 hr
    exact ⟨⟨filingRaw, 0, rfl⟩, by decide, by simp [filingRule], by decide⟩
  · intro s t hs ht _ _
    exact (eq_sampleSlot hs).trans (eq_sampleSlot ht).symm

end Mailroom
