import Mailroom.Proofs.Clerk.Anywhere
import Mailroom.Proofs.Rulebook
import Mailroom.Proofs.Verdict.Meaning

/-!
# Companions

A rule that moves messages from one folder to another has a companion, which takes the label of
the inbox away from them.  When the rule was carried out, its companion is for the message, unless
the label is gone already; when the companion was carried out as well, it is skipped.

* `Sight.KeepsForeign.passes` says what becomes of a test when the fields are kept.
* `Sight.verdict_of_companion` is the verdict of a companion when the label is there.
* `Clerk.leads_apply` says which keywords are remembered, whatever comes of a rule.
* `Clerk.companion_clears` says that a companion takes the label away.
* `Clerk.companion_fires` is the result.  The one exception is a message whose only date is the
  empty one of a line that hangs: this date may be lost, and the test of the age fails then.
-/

namespace Mailroom

/-! ## Tests of fields that are kept -/

/-- Whether the only date of a message is the empty value of a line that hangs. -/
def Sight.HangsDate (content : Bytes) (v : Sight) : Prop :=
  HangsIn "Date" content ∧ v.values "Date" = .ok [[]]

namespace Sight.KeepsForeign

variable {content : Bytes} {v v' : Sight} (h : v.KeepsForeign content v')

include h

/-- The values are what they were, or can be read both times. -/
theorem settles {name : Text} (hname : IsPlainName name) (hforeign : IsForeign name) :
    v'.values name = v.values name ∨
      ∃ vs vs', v.values name = .ok vs ∧ v'.values name = .ok vs' ∧ SettlesTo vs vs' := by
  rcases h name hname hforeign with hsame | ⟨-, vs, hvs, hvs'⟩
  · exact .inl hsame
  · exact .inr ⟨_, vs, hvs, hvs', .inr rfl⟩

theorem mailboxes : ∀ name ∈ addressFields, v'.mailboxes name = v.mailboxes name := by
  intro name hname
  rcases h.settles (isPlainName_of_mem_addressFields name hname).1
    (isForeign_of_mem_addressFields name hname) with hsame | ⟨vs, vs', hvs, hvs', hsettles⟩
  · simp only [Sight.mailboxes, hsame]
  · exact mailboxes_of_settles hvs hvs' hsettles

theorem subject : v'.subject = v.subject := by
  have hplain : IsPlainName "Subject" := by decide
  rcases h.settles hplain (by decide) with hsame | ⟨vs, vs', hvs, hvs', hsettles⟩
  · simp only [Sight.subject, hsame]
  · exact subject_of_settles hvs hvs' hsettles

/-- A date that could be read can be read, unless it is that of a line that hangs. -/
theorem date {t : Time} (ht : v.date = .ok t) : v'.date = .ok t ∨ v.HangsDate content := by
  obtain ⟨value, vs, hvs, hread⟩ := date_eq_ok.1 ht
  rcases h "Date" (by decide) (by decide) with hsame | ⟨hhangs, rest, hold, hnew⟩
  · exact .inl (date_eq_ok.2 ⟨value, vs, hsame.trans hvs, hread⟩)
  · -- the first value is still there, if it is not the last one as well
    have hsplit : value :: vs = rest ++ [[]] := Except.ok.inj (hvs.symm.trans hold)
    cases rest with
    | nil => exact .inr ⟨hhangs, hold⟩
    | cons first rest =>
      obtain ⟨rfl, -⟩ := List.cons.inj hsplit
      exact .inl (date_eq_ok.2 ⟨value, rest, hnew, hread⟩)

/-- A test of a rule that looks at fields only is passed if it was passed, wherever the message
is. -/
theorem passes {r : Rule} (hlooks : r.LooksAtFields) {t : Test} (ht : t ≠ .folder)
    (hpassed : v.passes r t = .ok true) :
    v'.passes r t = .ok true ∨ t = .age ∧ r.asks .age = true ∧ v.HangsDate content := by
  cases t with
  | folder => exact absurd rfl ht
  | age =>
    cases hokay : r.okayDate with
    | none => simp [Sight.passes, hokay]
    | some okay =>
      have hasks : r.asks .age = true := by simp [Rule.asks, hokay]
      simp only [Sight.passes, hokay] at hpassed ⊢
      obtain ⟨time, htime, holder⟩ := exists_of_bind_ok hpassed
      refine (h.date htime).imp (fun hkept => ?_) fun hhangs => ⟨trivial, hasks, hhangs⟩
      rw [hkept]
      exact holder
  | text t =>
    cases hoperand : r.criteria.operand t with
    | none => simp [Sight.passes, hoperand]
    | some operand =>
      have hlook : t = .part ∨ t = .partAnyCase → v'.content = v.content := by
        rintro (rfl | rfl)
        · simp [hlooks.1] at hoperand
        · simp [hlooks.2] at hoperand
      simp only [Sight.passes, hoperand] at hpassed ⊢
      exact .inl ((agrees_congr h.mailboxes h.subject hlook operand).trans hpassed)

end Sight.KeepsForeign

/-! ## The verdict of a companion -/

section Companion

variable {content : Bytes} {v v' : Sight} {r comp : Rule} {k : Keywords}

/-- A companion makes the tests that its rule makes. -/
theorem Rule.asks_of_companion? (hcomp : r.companion? = some comp) : comp.asks = r.asks := by
  obtain ⟨source, target, hsource, -, -, rfl⟩ := exists_of_companion? hcomp
  funext t
  cases t with
  | folder => simp [asks, hsource]
  | age => rfl
  | text t => rfl

/-- They are passed alike, but for that of the folder. -/
theorem Sight.passes_of_companion? (hcomp : r.companion? = some comp) {t : Test}
    (ht : t ≠ .folder) : v.passes comp t = v.passes r t := by
  obtain ⟨source, target, -, -, -, rfl⟩ := exists_of_companion? hcomp
  cases t with
  | folder => exact absurd rfl ht
  | age => rfl
  | text t => rfl

/-- The test of the folder is passed where the rule moves messages. -/
theorem Sight.passes_folder_of_companion? (hcomp : r.companion? = some comp)
    (hfolder : r.moveTo = some v.entry.folder.name) : v.passes comp .folder = .ok true := by
  obtain ⟨source, target, -, htarget, -, rfl⟩ := exists_of_companion? hcomp
  obtain rfl : target = v.entry.folder.name := Option.some.inj (htarget.symm.trans hfolder)
  simp [passes]

/-- There is no reason to skip a companion if the label of the inbox is there and the message is
not starred. -/
theorem Sight.skips_of_companion? (hcomp : r.companion? = some comp) (hk : v.keywords = .ok k)
    (hthere : k.contains Label.inbox.labelForm = true)
    (hstarred : k.contains Label.starred.labelForm = false) : ∀ s, v.skips comp s = .ok false := by
  obtain ⟨-, hclear, hlabel, hmove, -⟩ := companion?_eq_some hcomp
  refine (skips_iff_of_keywords hk).2 ⟨fun hne => absurd hlabel hne, fun _ => ?_, ?_, hstarred⟩
  · exact ⟨Label.inbox.labelForm, by simp [hclear], hthere⟩
  · simp [hmove]

/-- When a rule was for a message that has been moved, and the label of the inbox is still there,
the companion is for the message. -/
theorem Sight.verdict_of_companion (hcomp : r.companion? = some comp) (hlooks : r.LooksAtFields)
    (happlies : (v.verdict r).applies = true) (h : v.KeepsForeign content v')
    (hfolder : r.moveTo = some v'.entry.folder.name) (hk : v'.keywords = .ok k)
    (hthere : k.contains Label.inbox.labelForm = true)
    (hstarred : k.contains Label.starred.labelForm = false) :
    v'.verdict comp = .pass ∨
      v'.verdict comp = .fail .age ∧ r.asks .age = true ∧ v.HangsDate content := by
  obtain ⟨-, htests, hasked⟩ := applies_iff.1 happlies
  have hasks := Rule.asks_of_companion? hcomp
  have hsame : comp.tests = r.tests := by rw [Rule.tests, Rule.tests, hasks]
  have hskips := skips_of_companion? hcomp hk hthere hstarred
  have hpassed : ∀ t ∈ r.tests, v'.passes comp t = .ok true ∨
      t = .age ∧ r.asks .age = true ∧ v.HangsDate content := by
    intro t ht
    by_cases hother : t = .folder
    · exact .inl (hother ▸ passes_folder_of_companion? hcomp hfolder)
    · rw [passes_of_companion? hcomp hother]
      exact h.passes hlooks hother (htests t ht)
  by_cases hage : v'.passes comp .age = .ok true
  · have happlies' : (v'.verdict comp).applies = true := by
      refine applies_iff.2 ⟨hskips, fun t ht => ?_, hsame ▸ hasked⟩
      rcases hpassed t (hsame ▸ ht) with hpass | ⟨rfl, -⟩
      · exact hpass
      · exact hage
    exact .inl (eq_of_beq happlies')
  · -- the test of the age comes next to that of the folder, which is passed
    have hask : comp.asks .age = true := by
      by_contra hnot
      have hnone : comp.okayDate = none := by simpa [Rule.asks] using hnot
      exact hage (by simp [passes, hnone])
    have hfirst : IsFirst (fun t => comp.asks t = true ∧ v'.passes comp t ≠ .ok true) Test.all
        .age :=
      ⟨[.folder], TextTest.all.map .text, rfl,
        by simp [passes_folder_of_companion? hcomp hfolder], hask, hage⟩
    have hnone := firstSkip_eq_ok_none.2 fun s (_ : s ∈ Skip.all) => hskips s
    have hmem : Test.age ∈ r.tests := (r.mem_tests .age).2 (hasks ▸ hask)
    refine .inr ⟨?_, ((hpassed _ hmem).resolve_left hage).2⟩
    rw [Sight.verdict, hnone, Rule.tests, firstFailure_of_isFirst hfirst]

end Companion

/-! ## Stars -/

/-- No label but that of starred messages stars a message. -/
theorem Rule.IsCompiled.resolveFolder_label_ne {r : Rule} (hr : r.IsCompiled) {l : Text}
    (hl : l ∈ r.label) (hne : l ≠ Label.starred.labelForm) :
    resolveFolder l ≠ Label.starred.folderForm := by
  obtain ⟨raw, -, hlabel, -, -⟩ := hr.actions
  rw [hlabel] at hl
  obtain ⟨t, -, ht⟩ := List.mem_filterMap.1 hl
  intro hstar
  rcases resolveFolder_split l with ⟨s, hs, hform, hfolder⟩ | ⟨-, hself⟩
  · have honly : ∀ s ∈ Label.system, s.folderForm = Label.starred.folderForm → s = .starred := by
      decide
    obtain rfl := honly s hs (hfolder.symm.trans hstar)
    exact hne hform
  · -- the name of the folder holds a dot, and no label of the user's own does
    have hname : l = Label.starred.folderForm := hself.symm.trans hstar
    have hhead : Label.starred.folderForm.head? ≠ some '\\' := by decide
    have hdot : '.' ∈ Label.starred.folderForm := by decide
    rw [hname] at ht
    exact hhead ((isLabelForm_of_canonicalLabel? ht).dotFree hdot)

theorem Rule.IsCompiled.contains_starred_relabel {r : Rule} (hr : r.IsCompiled)
    (hstarred : Label.starred.labelForm ∉ r.label) {k : Keywords}
    (hk : k.contains Label.starred.labelForm = false) :
    (r.relabel k).contains Label.starred.labelForm = false := by
  rw [← Bool.not_eq_true] at hk ⊢
  intro hthere
  rcases (contains_relabel.1 hthere).1 with hbefore | ⟨l, hl, hsame⟩
  · exact hk hbefore
  · have hstar : resolveFolder Label.starred.labelForm = Label.starred.folderForm := by decide
    exact hr.resolveFolder_label_ne hl (fun heq => hstarred (heq ▸ hl)) (hsame.symm.trans hstar)

/-! ## What is remembered of the keywords -/

namespace Clerk

variable {k : Keywords}

/-- Saving does not change what is remembered of them. -/
theorem keeps_save (clerk : Clerk) : Keeps (Case.Knows k) clerk.save := by
  unfold save
  refine Keeps.ite (fun _ => Keeps.discard fun c hc => ?_) fun _ => Keeps.pure ()
  exact knows_save ⟨c.office.disk, c.message⟩ hc

/-- Neither does moving. -/
theorem keeps_move (clerk : Clerk) (target : Option Text) :
    Keeps (Case.Knows k) (clerk.move target) := by
  cases target with
  | none => exact Keeps.pure ()
  | some name =>
    have hrecord : Keeps (Case.Knows k) (Handling.record ("Moved " ++ name)) :=
      Keeps.modify fun _ hc => hc
    refine Keeps.ite (fun _ => Keeps.bind (fun c hc => ?_) fun _ => hrecord) fun _ => hrecord
    have hmoved : ((Message.moveTo (clerk.maildir.folder name)
        ⟨c.office.disk, c.message⟩).2).message.Knows k := by
      unfold Message.moveTo
      split <;> exact hc
    exact hmoved

/-- Whatever comes of a rule, the keywords that it leaves are remembered. -/
theorem leads_apply (clerk : Clerk) (r : Rule) :
    Leads (Case.Knows k) (Case.Knows (r.relabel k)) (clerk.apply r) := by
  rw [apply_eq]
  refine Leads.bind (fun c hc => ?_) fun _ => Keeps.bind (keeps_passOn clerk r.forward) fun _ =>
    Keeps.bind (keeps_save clerk) fun _ => keeps_move clerk r.moveTo
  obtain ⟨m, hrun, -⟩ := relabel_run r (hc.keywords c.office.disk)
  rw [hrun]
  exact knows_relabel hc hrun

end Clerk

/-! ## The companion after its rule -/

/-- What becomes of a rule for the message at hand. -/
def Case.verdict (r : Rule) (c : Case) : Verdict := (r.verdict c.office.disk c.message).1

section Companion

variable {r comp : Rule} {c c' : Case} {place : Path} {f : File}

theorem Case.verdict_eq (r : Rule) (c : Case) : c.verdict r = c.sight.verdict r :=
  r.verdict_eq_sight c.office.disk c.message

/-- Finding a verdict leaves a message where it is found. -/
theorem Case.IsFound.tested (h : c.IsFound place f) (r : Rule) : (c.tested r).IsFound place f := by
  have hsight := c.sight_tested r
  exact h.of_sight rfl (congrArg Sight.entry hsight) (congrArg Sight.content hsight)
    (congrArg Sight.header hsight) (hsight ▸ h.plain) (hsight ▸ h.own)

/-- A rule that is for a message leaves its keywords remembered. -/
theorem Case.knows_tested (h : c.verdict r = .pass) :
    ∃ k, c.sight.keywords = .ok k ∧ (c.tested r).Knows k ∧
      (c.sight.verdict r).applies = true := by
  rw [verdict_eq] at h
  have happlies : (c.sight.verdict r).applies = true := by rw [h]; rfl
  obtain ⟨k, hk, hknows⟩ := knows_of_applies happlies
  exact ⟨k, hk, hknows, happlies⟩

/-- A companion is skipped if the label of the inbox is gone. -/
theorem Case.verdict_of_cleared (hcomp : r.companion? = some comp)
    (h : c.sight.hasNone [Label.inbox.labelForm] = .ok true) :
    c.verdict comp = .skip .alreadyCleared := by
  obtain ⟨-, hclear, hlabel, -⟩ := companion?_eq_some hcomp
  rw [verdict_eq]
  exact (Sight.verdict_eq_alreadyCleared hlabel (by simp [hclear])).2 (hclear ▸ h)

/-- A companion that is carried out, whatever comes of it, takes the label away. -/
theorem Clerk.companion_clears (clerk : Clerk) (hcomp : r.companion? = some comp)
    (hpass : c.verdict comp = .pass) :
    (clerk.apply comp (c.tested comp)).2.sight.hasNone [Label.inbox.labelForm] = .ok true := by
  obtain ⟨-, hclear, -⟩ := companion?_eq_some hcomp
  obtain ⟨k, -, hknows, -⟩ := Case.knows_tested hpass
  have hafter := (clerk.leads_apply comp (c.tested comp) hknows).keywords
  have hgone : (comp.relabel k).contains Label.inbox.labelForm = false := by
    rw [← Bool.not_eq_true]
    intro hthere
    exact (contains_relabel.1 hthere).2 _ (by simp [hclear]) rfl
  simp [Sight.hasNone, Case.sight, hafter, hgone, bind, Except.bind, pure, Except.pure]

/-- A rule that moved a message from one folder to another one, and was carried out with success,
leaves it in the other folder.  Its companion is skipped there if the label of the inbox is gone,
and is for the message if it is not; when it was carried out, it is skipped. -/
theorem Clerk.companion_fires {clerk : Clerk} (hdry : clerk.dryRun = false) (hr : r.IsCompiled)
    (hlooks : r.LooksAtFields) (hstarred : Label.starred.labelForm ∉ r.label)
    (hlabel : ∀ l ∈ r.label, '\n' ∉ l) (hforward : ∀ b ∈ r.forward, '\n' ∉ b.email)
    {source target : Text} (hsource : r.criteria.folder = some source)
    (htarget : r.moveTo = some target) (hne : source ≠ target) (now : Time)
    (hfound : c.IsFound place f) (hpass : c.verdict (r.stamped now) = .pass)
    (hrun : clerk.apply (r.stamped now) (c.tested (r.stamped now)) = (.ok (), c')) :
    ∃ comp, (r.stamped now).companion? = some comp ∧
      c'.message.entry.folder = clerk.maildir.folder target ∧
      (∃ place' f', c'.message.entry.Stands place' f' c'.office.disk) ∧
      (c'.sight.hasNone [Label.inbox.labelForm] = .ok true ∧
          c'.verdict comp = .skip .alreadyCleared ∨
        c'.sight.hasAll [Label.inbox.labelForm] = .ok true ∧
          (c'.verdict comp = .pass ∨
            c'.verdict comp = .fail .age ∧ (r.stamped now).asks .age = true ∧
              c.sight.HangsDate f.content)) ∧
      (c'.verdict comp = .pass → ∀ clerk' : Clerk,
        let done := (clerk'.apply comp (c'.tested comp)).2
        done.sight.hasNone [Label.inbox.labelForm] = .ok true ∧
          done.verdict comp = .skip .alreadyCleared) := by
  obtain ⟨comp, hcomp⟩ : ∃ comp, (r.stamped now).companion? = some comp :=
    exists_companion? (by simpa using hsource) (by simpa using htarget) hne
  obtain ⟨k, hk, hknows, happlies⟩ := Case.knows_tested hpass
  obtain ⟨hskips, htests, -⟩ := Sight.applies_iff.1 happlies
  obtain ⟨-, -, -, hnostar⟩ := (Sight.skips_iff_of_keywords hk).1 hskips
  -- the test of the folder is passed, so the message is not where it is to be moved
  have hfolder : c.message.entry.folder.name = source := by
    have hmem : Test.folder ∈ (r.stamped now).tests :=
      ((r.stamped now).mem_tests .folder).2 (by simp [Rule.asks, hsource])
    have hpassed := htests _ hmem
    simp only [Sight.passes, Rule.stamped_criteria, hsource, Option.all_some] at hpassed
    exact (eq_of_beq (Except.ok.inj hpassed)).symm
  have hsight := c.sight_tested (r.stamped now)
  have hplace : (c.tested (r.stamped now)).message.entry.folder.name ≠ target := by
    have hentry : (c.tested (r.stamped now)).message.entry = c.message.entry :=
      congrArg Sight.entry hsight
    rw [hentry, hfolder]
    exact hne
  obtain ⟨place', f', hfound', hknows', hthere, hkept⟩ := apply_found hdry
    (hfound.tested (r.stamped now)) hknows (by simpa using hlabel) (by simpa using hforward)
    (by simpa using htarget) hplace hrun
  rw [hsight] at hkept
  have hrelabel : (r.stamped now).relabel k = r.relabel k := by simp [Rule.relabel]
  rw [hrelabel] at hknows'
  have hkeywords : c'.sight.keywords = .ok (r.relabel k) := hknows'.keywords c'.office.disk
  refine ⟨comp, hcomp, hthere, ⟨place', f', hfound'.stands⟩, ?_, fun hpass' clerk' =>
    have hgone := clerk'.companion_clears hcomp hpass'
    ⟨hgone, Case.verdict_of_cleared hcomp hgone⟩⟩
  cases hinbox : (r.relabel k).contains Label.inbox.labelForm with
  | false =>
    have hnone : c'.sight.hasNone [Label.inbox.labelForm] = .ok true := by
      simp [Sight.hasNone, hkeywords, hinbox, bind, Except.bind, pure, Except.pure]
    exact .inl ⟨hnone, Case.verdict_of_cleared hcomp hnone⟩
  | true =>
    have hall : c'.sight.hasAll [Label.inbox.labelForm] = .ok true := by
      simp [Sight.hasAll, hkeywords, hinbox, bind, Except.bind, pure, Except.pure]
    have hlooks' : (r.stamped now).LooksAtFields := by
      rw [Rule.LooksAtFields, Rule.stamped_criteria]
      exact hlooks
    have hmoved : (r.stamped now).moveTo = some c'.sight.entry.folder.name := by
      rw [Rule.stamped_moveTo, htarget]
      exact congrArg some (congrArg Folder.name hthere).symm
    rw [Case.verdict_eq]
    exact .inr ⟨hall, Sight.verdict_of_companion hcomp hlooks' happlies hkept hmoved hkeywords
      hinbox (hr.contains_starred_relabel hstarred hnostar)⟩

end Companion

/-! ### A rule that empties the inbox -/

/-- A rule, as it is written, that moves the messages of a subject out of the inbox and gives them
its label nevertheless. -/
def emptyingRaw : RawRule where
  criteria := ⟨some "INBOX", none, fun t => if t = .subject then some "s" else none⟩
  clear := []
  label := ["INBOX", "urgent"]
  moveTo := some "work"
  forward := []

/-- The rule that it stands for. -/
def emptyingRule : Rule where
  criteria := emptyingRaw.criteria.normalized
  okayDate := none
  clear := []
  label := ["\\Inbox", "urgent"]
  moveTo := some "work"
  forward := []
  order := 0

theorem emptying_companion_fires :
    let c : Case := ⟨.ofDisk sampleDisk, .ofEntry (sampleSlot.entry [])⟩
    let rule := emptyingRule.stamped 0
    let c' := (filingPass.clerk.apply rule (c.tested rule)).2
    ∃ comp, rule.companion? = some comp ∧
      c'.message.entry.folder = filingPass.maildir.folder "work" ∧ c'.verdict comp = .pass := by
  intro c rule c'
  have hfound : c.IsFound ["INBOX"] ⟨0, sampleLetter, 0⟩ :=
    Case.isFound_ofEntry sound_sampleDisk ⟨sampleSlot.isName_name, rfl, rfl⟩
  have hrun : filingPass.clerk.apply rule (c.tested rule) = (.ok (), c') := by
    have hresult : (filingPass.clerk.apply rule (c.tested rule)).1.toBool = true := by
      decide +kernel
    refine Prod.ext ?_ rfl
    cases hok : (filingPass.clerk.apply rule (c.tested rule)).1 with
    | ok u => rfl
    | error e => simp [hok, Except.toBool] at hresult
  have hthere : (c'.sight.hasNone [Label.inbox.labelForm]).toOption ≠ some true := by
    decide +kernel
  obtain ⟨comp, hcomp, hfolder, -, hverdict, -⟩ :=
    Clerk.companion_fires rfl ⟨emptyingRaw, 0, rfl⟩ ⟨rfl, rfl⟩ (by decide) (by decide) (by decide)
      rfl rfl (by decide) 0 hfound (by decide +kernel) hrun
  refine ⟨comp, hcomp, hfolder, ?_⟩
  rcases hverdict with ⟨hnone, -⟩ | ⟨-, hpassed | ⟨-, hasks, -⟩⟩
  · rw [hnone] at hthere
    exact absurd rfl hthere
  · exact hpassed
  · exact absurd hasks (by decide)

end Mailroom
