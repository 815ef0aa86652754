import Mailroom.Proofs.Message.Remembering
import Mailroom.Proofs.Message.Resembling
import Mailroom.Proofs.Pass.Labeling
import Mailroom.Proofs.Pass.Once

/-!
# A rule that is tried first

On a trial a clerk counts what he would do, and changes nothing but the keywords that he has in
mind.  If all that he tries succeeds when it is done, the same is counted then, and the message
looks the same to the rules that follow, as long as what was written about letters tells nothing
about the addresses that are theirs.

* `Clerk.Succeeds` says that a rule is carried out with success.
* `Sight.AgreesOn` compares what two messages tell of the addresses of some rules, and
  `Sight.Drafts` a message before and after new values were given to it.
* `Foretold` is what is the same for the message on a trial and the message that was worked on.
* `Clerk.draft_foretold` is the step that a rule takes before the message is saved, and
  `Clerk.apply_foretold` is the whole step.
-/

namespace Mailroom

variable {root place : Path} {s : Slot} {f : File} {v v' w w' : Sight} {r : Rule}
  {rules : List Rule}

/-- The clerk on a trial. -/
def Clerk.onTrial (k : Clerk) : Clerk := { k with dryRun := true }

/-- Whether all that a clerk tries for a rule succeeds: the letter is made and taken, and the
message is saved. -/
def Clerk.Succeeds (k : Clerk) (r : Rule) (c : Case) : Prop :=
  (k.apply r c).1 = .ok () ∧ ∀ f ∈ k.forwarder, r.forward ≠ [] →
    ∃ outcome, ((do
      addLabels r.label
      removeLabels r.clear
      f.forward r.forward k.now : Handling Forwarded) c).1 = .ok outcome

instance decidableExistsOk {α : Type} (result : Except Error α) :
    Decidable (∃ a, result = .ok a) :=
  match result with
  | .ok a => isTrue ⟨a, rfl⟩
  | .error _ => isFalse fun ⟨_, h⟩ => nomatch h

instance (k : Clerk) (r : Rule) (c : Case) : Decidable (k.Succeeds r c) :=
  inferInstanceAs (Decidable (_ ∧ _))

/-! ## What later rules are like -/

/-- What two rules have to be like for the later one not to notice that the message was written
for the earlier one. -/
structure Rule.MayPrecede (r r' : Rule) : Prop where
  /-- No label that is added holds a line feed. -/
  label : ∀ l ∈ r.label, '\n' ∉ l
  /-- The later rule looks at fields only. -/
  looks : r'.LooksAtFields

/-- What two rules have to be like for the later one not to notice that the message was passed on
for the earlier one. -/
structure Rule.MailsApart (r r' : Rule) : Prop where
  /-- Every address can be read back. -/
  token : ∀ m ∈ r.forward, IsToken m.email
  /-- No address is that of the other rule. -/
  apart : ∀ m ∈ r.forward, ∀ m' ∈ r'.forward, Text.lower m'.email ≠ Text.lower m.email

/-! ## What is told of letters -/

/-- Two messages that tell the same of all addresses of some rules; nothing that the first one
tells looks like an encoded word. -/
def Sight.AgreesOn (rules : List Rule) (v w : Sight) : Prop :=
  ∃ vs ws, v.values forwardedField = .ok vs ∧ w.values forwardedField = .ok ws ∧
    (∀ x ∈ vs, ¬ HasOpening x) ∧ ∀ r ∈ rules, ∀ m ∈ r.forward,
      (Text.lower m.email ∈ (forwardedIn ws).toList ↔ Text.lower m.email ∈ (forwardedIn vs).toList)

theorem forwarded_of_values {vs : List Text} (h : v.values forwardedField = .ok vs) :
    v.forwarded = .ok (forwardedIn vs) := by
  simp only [Sight.forwarded, h, bind, Except.bind]

namespace Sight.AgreesOn

theorem congr (h : v.AgreesOn rules w) (hv : v'.values forwardedField = v.values forwardedField)
    (hw : w'.values forwardedField = w.values forwardedField) : v'.AgreesOn rules w' := by
  obtain ⟨vs, ws, hvs, hws, hrest⟩ := h
  exact ⟨vs, ws, hv.trans hvs, hw.trans hws, hrest⟩

theorem tail (h : v.AgreesOn (r :: rules) w) : v.AgreesOn rules w := by
  obtain ⟨vs, ws, hvs, hws, hopening, hall⟩ := h
  exact ⟨vs, ws, hvs, hws, hopening, fun r' hr' => hall r' (List.mem_cons_of_mem _ hr')⟩

theorem settles (h : v.AgreesOn rules w) {us us' : List Text}
    (hus : v.values forwardedField = .ok us) (hus' : v'.values forwardedField = .ok us')
    (hsettles : SettlesTo us us') : v'.AgreesOn rules w := by
  obtain ⟨vs, ws, hvs, hws, hopening, hall⟩ := h
  obtain rfl := Except.ok.inj (hvs.symm.trans hus)
  refine ⟨us', ws, hus', hws, fun x hx => hopening x (hsettles.mem hx), ?_⟩
  rw [forwardedIn_settles hsettles]
  exact hall

/-- The same addresses are left. -/
theorem exists_pending (h : v.AgreesOn (r :: rules) w) : ∃ done done', v.forwarded = .ok done ∧
    w.forwarded = .ok done' ∧ pendingOf done' r.forward = pendingOf done r.forward := by
  obtain ⟨vs, ws, hvs, hws, -, hall⟩ := h
  exact ⟨_, _, forwarded_of_values hvs, forwarded_of_values hws,
    pendingOf_congr (hall r (by simp))⟩

/-- What is written when the message was passed on tells nothing new of other addresses. -/
theorem posted (h : v.AgreesOn (r :: rules) w) {done : TextSet} (hdone : v.forwarded = .ok done)
    (htoken : ∀ m ∈ r.forward, IsToken m.email) (hapart : ∀ r' ∈ rules, r.MailsApart r') :
    (v.withField forwardedField
      (Text.join ", " (done.insertAll (pendingOf done r.forward)).toList)).AgreesOn rules w := by
  obtain ⟨vs, ws, hvs, hws, hopening, hall⟩ := h
  obtain rfl := Except.ok.inj ((forwarded_of_values hvs).symm.trans hdone)
  have htokens := isToken_of_mem_insertAll hopening htoken
  refine ⟨_, ws, values_withField_self _ _ _, hws, fun x hx => ?_, fun r' hr' m hm => ?_⟩
  · split at hx
    · exact absurd hx List.not_mem_nil
    · rw [List.mem_singleton.1 hx]
      exact not_hasOpening_join fun t ht => (htokens t ht).1.2
  · rw [hall r' (by simp [hr']) m hm,
      mem_forwardedIn_join fun t ht => ⟨(htokens t ht).1.1, (htokens t ht).2⟩,
      TextSet.mem_insertAll]
    refine ⟨Or.inl, fun hmem => hmem.resolve_right fun hpending => ?_⟩
    obtain ⟨⟨m', hm', heq⟩, -⟩ := mem_pendingOf.1 hpending
    exact (hapart r' hr').apart m' hm' m hm heq

end Sight.AgreesOn

/-! ## Passing on -/

section PassOn

variable {k : Clerk} {c t : Case} {destinations : List Mailbox} {done : TextSet}

/-- It is counted as well if the letter is sent, and the message remembers whom it was sent to. -/
theorem passOn_of_sent {f : Forwarder} (hf : k.forwarder = some f) (hdry : k.dryRun = false)
    (hdest : destinations.isEmpty = false) (hdone : c.sight.forwarded = .ok done)
    {outcome : Forwarded} (hsent : (f.forward destinations k.now c).1 = .ok outcome) :
    ∃ submissions m, k.passOn destinations c = (.ok (), ⟨⟨c.office.disk, submissions,
        if (pendingOf done destinations).isEmpty then c.office.summary
          else c.office.summary.record ("Forwarded " ++ Mailbox.renderList destinations)⟩, m⟩) ∧
      (m.sight c.office.disk = c.sight ∨ m.sight c.office.disk = c.sight.withField forwardedField
        (Text.join ", " (done.insertAll (pendingOf done destinations)).toList)) := by
  by_cases hnone : pendingOf done destinations = []
  · obtain ⟨m, hrun, hsight⟩ := forward_of_none_left f k.now hdone hnone
    refine ⟨c.office.submissions, m, ?_, Or.inl hsight⟩
    rw [passOn_of_forwarder hf hdry hdest hrun, hnone]
    rfl
  · have honly : ∀ done', c.sight.forwarded = .ok done' → done' = done := fun done' h =>
      Except.ok.inj (h.symm.trans hdone)
    have hmails : c.sight.Mails destinations done := by
      refine Classical.byContradiction fun hnot => ?_
      have hno : ∀ done', ¬ c.sight.Mails destinations done' := fun done' h =>
        hnot (honly done' h.forwarded ▸ h)
      have hleft : ∀ done', c.sight.forwarded = .ok done' → pendingOf done' destinations ≠ [] := by
        intro done' h
        rw [honly done' h]
        exact hnone
      obtain ⟨e, m, hrun, -⟩ := forward_of_no_letter f k.now hno hleft
      rw [hrun] at hsent
      exact absurd hsent (by simp)
    obtain ⟨letter, accepted, m, hrun, haccepted, -, hsight⟩ := forward_of_mails f k.now hmails
    cases hanswer : f.post.answer c.office.submissions letter with
    | error e =>
      rw [hrun, hanswer] at hsent
      exact absurd hsent (by simp [Except.map])
    | ok u =>
      rw [hanswer] at hrun haccepted
      obtain rfl : accepted = true := haccepted
      have hsome : (pendingOf done destinations).isEmpty = false := by simpa using hnone
      have hpass := passOn_of_forwarder hf hdry hdest hrun
      rw [hsome]
      exact ⟨_, m, hpass, Or.inr hsight⟩

/-- If the letter is sent, or there is none to be sent, the same is counted as on a trial. -/
theorem passOn_foretold (hdry : k.dryRun = false)
    (hsummary : t.office.summary = c.office.summary)
    (hletters : k.forwarder ≠ none → c.sight.AgreesOn (r :: rules) t.sight)
    (hsent : ∀ f, k.forwarder = some f → r.forward ≠ [] →
      ∃ outcome, (f.forward r.forward k.now c).1 = .ok outcome) :
    ∃ submissions summary m m',
      k.passOn r.forward c = (.ok (), ⟨⟨c.office.disk, submissions, summary⟩, m⟩) ∧
      k.onTrial.passOn r.forward t = (.ok (), ⟨{ t.office with summary := summary }, m'⟩) ∧
      m'.sight t.office.disk = t.sight ∧
      (m.sight c.office.disk = c.sight ∨ k.forwarder ≠ none ∧ ∃ done,
        c.sight.forwarded = .ok done ∧ m.sight c.office.disk = c.sight.withField forwardedField
          (Text.join ", " (done.insertAll (pendingOf done r.forward)).toList)) := by
  cases hdest : r.forward.isEmpty with
  | true =>
    refine ⟨_, _, _, _, passOn_of_nobody k hdest c, ?_, rfl, Or.inl rfl⟩
    rw [← hsummary]
    exact passOn_of_nobody k.onTrial hdest t
  | false =>
    cases hf : k.forwarder with
    | none =>
      refine ⟨_, _, _, _, passOn_of_no_forwarder hf hdest c, ?_, rfl, Or.inl rfl⟩
      rw [← hsummary]
      exact passOn_of_no_forwarder (k := k.onTrial) hf hdest t
    | some f =>
      obtain ⟨done, done', hdone, hdone', hpending⟩ := (hletters (by simp [hf])).exists_pending
      obtain ⟨outcome, houtcome⟩ := hsent f hf (by simpa using hdest)
      obtain ⟨submissions, m, hrun, hsight⟩ := passOn_of_sent hf hdry hdest hdone houtcome
      obtain ⟨m', hrun', hsight'⟩ := passOn_of_trial (k := k.onTrial) hf rfl hdest hdone'
      rw [hpending, hsummary] at hrun'
      exact ⟨submissions, _, m, m', hrun, hrun', hsight',
        hsight.imp id fun hwritten => ⟨by simp, done, hdone, hwritten⟩⟩

end PassOn

/-! ## Saving -/

/-- Saving with success writes the message anew, or leaves it as it is; the keywords that are
remembered stay what they are. -/
theorem save_of_ok {clerk : Clerk} {c : Case} {k : Keywords} (hdry : clerk.dryRun = false)
    (hat : Message.At root place s f c.office.disk c.sight) (hknows : c.Knows k)
    (hok : (clerk.save c).1 = .ok ()) :
    ∃ d m f', clerk.save c = (.ok (), ⟨{ c.office with disk := d }, m⟩) ∧
      c.office.disk.Elsewhere [place ++ s.names, place ++ s.temporary] d ∧
      Message.At root place s f' d (m.sight d) ∧ (m.sight d).edits = [] ∧
      (m.sight d).keywords = c.sight.keywords ∧
      (m.sight d = c.sight ∨
        (c.sight.IsPlain → c.sight.WritesOwn → c.sight.KeepsFields (m.sight d))) := by
  rw [save_eq_discard hdry] at hok ⊢
  have hkept := knows_save ⟨c.office.disk, c.message⟩ hknows
  rcases Message.save_cases hat with ⟨hedits, hrun⟩ | ⟨-, e, m, hrun, -⟩ |
    ⟨-, header, d, m, id, hread, hrun, helse, -, hat', hedits', -⟩
  · exact ⟨_, _, f, run_discard_ok (liftM_run hrun), .refl _ hat.sound, hat, hedits, rfl,
      Or.inl rfl⟩
  · have hfails : (discard (liftM Message.save : Handling Bool) : Handling Unit) c = _ :=
      run_bind_error (liftM_run hrun)
    rw [hfails] at hok
    exact absurd hok (by simp)
  · rw [hrun] at hkept
    have hkeywords : (m.sight d).keywords = c.sight.keywords :=
      (hkept.keywords d).trans (hknows.keywords c.office.disk).symm
    refine ⟨d, m, _, run_discard_ok (liftM_run hrun), helse, hat', hedits', hkeywords,
      Or.inr fun hplain hown => ?_⟩
    exact hown.keepsFields_saved hplain hread (hat.header.trans hread)
      (hat'.entry.trans hat.entry.symm) hedits' hat'.header

/-! ## One rule -/

/-- What is the same, before the next of some rules, for a message that is worked on and for the
message on a trial; `mailing` tells whether there is somebody who passes messages on. -/
structure Foretold (mailing : Prop) (root place : Path) (s : Slot) (rules : List Rule)
    (o o' : Office) (v w : Sight) : Prop where
  /-- The message that is worked on is at its slot. -/
  at_slot : ∃ f, Message.At root place s f o.disk v
  /-- All of it was saved. -/
  edits : v.edits = []
  /-- What is to be written next is on one line each. -/
  plain : v.IsPlain
  /-- No empty date can have gone. -/
  date : v.HasNoEmptyDate
  /-- The same was counted. -/
  summary : o'.summary = o.summary
  /-- The keywords are the same. -/
  keywords : w.keywords = v.keywords
  /-- The tests of rules see the same. -/
  resembles : v.Resembles w
  /-- This includes the content, if one of the rules looks at it. -/
  content : w.content = v.content ∨ ∀ r ∈ rules, r.LooksAtFields
  /-- The same is told of the addresses of the rules. -/
  letters : mailing → v.AgreesOn rules w

/-- What comes of work on a message and of a trial of it. -/
structure Worked (place : Path) (s : Slot) (o o' o₁ o₁' : Office) : Prop where
  /-- The same was counted. -/
  summary : o₁'.summary = o₁.summary
  /-- On the trial, nothing was written. -/
  trial : o₁'.disk = o'.disk
  /-- The other messages are as they were. -/
  elsewhere : o.disk.Elsewhere [place ++ s.names, place ++ s.temporary] o₁.disk
  /-- The message is where it was. -/
  taken : s.IsTaken place o₁.disk

theorem Worked.trans {o o' o₁ o₁' o₂ o₂' : Office} (h : Worked place s o o' o₁ o₁')
    (h' : Worked place s o₁ o₁' o₂ o₂') : Worked place s o o' o₂ o₂' :=
  ⟨h'.summary, h'.trial.trans h.trial, h.elsewhere.trans h'.elsewhere, h'.taken⟩

section Drafts

variable {k : Keywords}

theorem values_relabeled {name : Text} (h : Text.sameName Keywords.fieldName name = false) :
    (v.relabeled r k).values name = v.values name :=
  (values_withKeywords_of_ne h).trans (values_withKeywords_of_ne h)

theorem resembles_relabeled (v : Sight) (r : Rule) (k : Keywords) : v.Resembles (v.relabeled r k) :=
  (resembles_withKeywords v _).trans (resembles_withKeywords _ _)

/-- A message with new values of its own that can be saved; the tests of rules see it as before. -/
structure Sight.Drafts (v v' : Sight) : Prop where
  /-- The new values are on one line each. -/
  plain : v'.IsPlain
  /-- They are those that a clerk writes. -/
  own : v'.WritesOwn
  /-- The tests of rules see the same. -/
  resembles : v.Resembles v'
  /-- No empty date can go. -/
  date : v'.HasNoEmptyDate

namespace Sight.Drafts

/-- The labels of a rule were added and removed. -/
theorem relabeled (hplain : v.IsPlain) (hedits : v.edits = []) (hdate : v.HasNoEmptyDate)
    (hk : v.keywords = .ok k) (hlabels : ∀ l ∈ r.label, '\n' ∉ l) :
    v.Drafts (v.relabeled r k) where
  plain := (hplain.insertAll hk hlabels).eraseAll r.clear rfl
  own := ((WritesOwn.of_no_edits hedits).withKeywords _).withKeywords _
  resembles := resembles_relabeled v r k
  date := by
    unfold HasNoEmptyDate
    rw [values_relabeled (by decide)]
    exact hdate

/-- The message was passed on to addresses that can be read back. -/
theorem posted (h : v.Drafts v') (hagrees : v'.AgreesOn rules w) {done : TextSet}
    (hdone : v'.forwarded = .ok done) {destinations : List Mailbox}
    (htoken : ∀ m ∈ destinations, IsToken m.email) :
    v.Drafts (v'.withField forwardedField
      (Text.join ", " (done.insertAll (pendingOf done destinations)).toList)) where
  plain := h.plain.passedOn hdone fun m hm => (htoken m hm).lineFeed
  own := by
    obtain ⟨vs, -, hvs, -, hopening, -⟩ := hagrees
    obtain rfl := Except.ok.inj ((forwarded_of_values hvs).symm.trans hdone)
    exact h.own.withField
      (readsBack_join fun t ht => (isToken_of_mem_insertAll hopening htoken t ht).1)
  resembles := h.resembles.trans (resembles_withField v' _)
  date := by
    unfold HasNoEmptyDate
    rw [values_withField_of_ne _ (by decide)]
    exact h.date

/-- When it was saved, it looks as before as well, and tells the same of letters. -/
theorem saved (h : v.Drafts v') {v'' : Sight} (hedits : v''.edits = [])
    (hkeywords : v''.keywords = v'.keywords)
    (hsaved : v'' = v' ∨ (v'.IsPlain → v'.WritesOwn → v'.KeepsFields v'')) :
    v.Drafts v'' ∧ (v'.AgreesOn rules w → v''.AgreesOn rules w) := by
  rcases hsaved with rfl | hkeeps
  · exact ⟨h, id⟩
  · have hfields := hkeeps h.plain h.own
    have hknown : v''.keywords = v'.keywords ∨ v''.keywords = seenKeywords [] v''.header :=
      Or.inl hkeywords
    refine ⟨⟨h.plain.saved hedits hknown, .of_no_edits hedits,
      h.resembles.trans (hfields.resembles h.date), hfields.hasNoEmptyDate h.date⟩,
      fun hagrees => ?_⟩
    obtain ⟨us, us', hus, hus', hsettles⟩ := hfields.values forwardedField (by decide) (by decide)
    exact hagrees.settles hus hus' hsettles

end Sight.Drafts

end Drafts

/-- What is remembered of the keywords when a rule has added and removed its labels. -/
theorem Clerk.knows_relabel {k : Keywords} {c c₁ : Case} (h : c.Knows k)
    (hrun : (do addLabels r.label; removeLabels r.clear : Handling Unit) c = (.ok (), c₁)) :
    c₁.Knows (r.relabel k) := by
  obtain ⟨m, hadd, -⟩ := addLabels_run r.label (h.keywords c.office.disk)
  have hfirst := leads_addLabels r.label c h
  rw [hadd] at hfirst
  have hsecond := leads_removeLabels r.clear _ hfirst
  rw [run_bind_ok hadd] at hrun
  rw [hrun] at hsecond
  exact hsecond

namespace Clerk

/-- What a clerk does for a rule before the message is saved. -/
def draft (k : Clerk) (r : Rule) : Handling Unit :=
  (do addLabels r.label; removeLabels r.clear) >>= fun _ => k.passOn r.forward

theorem apply_eq_draft (k : Clerk) (r : Rule) :
    k.apply r = k.draft r >>= fun _ => k.save >>= fun _ => k.move r.moveTo := by
  simp only [apply_eq, draft, bind_assoc]

/-- If a clerk succeeds with a rule, its letter is made and taken after the labels were changed. -/
theorem Succeeds.forward {k : Clerk} {c c₁ : Case} (h : k.Succeeds r c)
    (hrun : (do addLabels r.label; removeLabels r.clear : Handling Unit) c = (.ok (), c₁)) :
    ∀ f, k.forwarder = some f → r.forward ≠ [] →
      ∃ outcome, (f.forward r.forward k.now c₁).1 = .ok outcome := by
  intro f hf hdest
  obtain ⟨outcome, houtcome⟩ := h.2 f hf hdest
  have hsplit : (do addLabels r.label; removeLabels r.clear; f.forward r.forward k.now :
      Handling Forwarded) = (do addLabels r.label; removeLabels r.clear) >>= fun _ =>
        f.forward r.forward k.now := by
    rw [bind_assoc]
  rw [hsplit, run_bind_ok hrun] at houtcome
  exact ⟨outcome, houtcome⟩

variable {k : Clerk} {c t : Case} {ks : Keywords}

/-- Before it is saved, the message is a draft, and the same is counted as on a trial. -/
theorem draft_foretold (hdry : k.dryRun = false) (hknows : c.Knows ks)
    (h : Foretold (k.forwarder ≠ none) root place s (r :: rules) c.office t.office c.sight
      t.sight)
    (hsucceeds : k.Succeeds r c) :
    ∃ submissions summary m m',
      k.draft r c = (.ok (), ⟨⟨c.office.disk, submissions, summary⟩, m⟩) ∧
      k.onTrial.draft r t = (.ok (), ⟨{ t.office with summary := summary }, m'⟩) ∧
      m.Knows (r.relabel ks) ∧
      (∃ f, Message.At root place s f c.office.disk (m.sight c.office.disk)) ∧
      m'.sight t.office.disk = t.sight.relabeled r ks ∧
      ((∀ l ∈ r.label, '\n' ∉ l) →
        (k.forwarder ≠ none → (∀ m ∈ r.forward, IsToken m.email) ∧ ∀ r' ∈ rules, r.MailsApart r') →
        c.sight.Drafts (m.sight c.office.disk) ∧ (k.forwarder ≠ none →
          (m.sight c.office.disk).AgreesOn rules (m'.sight t.office.disk))) := by
  obtain ⟨f, hat⟩ := h.at_slot
  have hk : c.sight.keywords = .ok ks := hknows.keywords c.office.disk
  -- the labels
  obtain ⟨m₁, hrun₁, hsight₁⟩ := relabel_run r hk
  obtain ⟨m₁', hrun₁', hsight₁'⟩ := relabel_run r (c := t) (h.keywords.trans hk)
  have hknows₁ := knows_relabel hknows hrun₁
  -- the letter
  have hletters : k.forwarder ≠ none → (m₁.sight c.office.disk).AgreesOn (r :: rules)
      (m₁'.sight t.office.disk) := fun hf => by
    rw [hsight₁, hsight₁']
    exact (h.letters hf).congr (values_relabeled (by decide)) (values_relabeled (by decide))
  obtain ⟨submissions, summary, m₂, m₂', hrun₂, hrun₂', hsight₂', hsight₂⟩ := passOn_foretold
    (c := ⟨{ c.office with summary := r.countLabels c.office.summary }, m₁⟩)
    (t := ⟨{ t.office with summary := r.countLabels t.office.summary }, m₁'⟩)
    hdry (congrArg r.countLabels h.summary) hletters (hsucceeds.forward hrun₁)
  have hknows₂ := keeps_passOn k r.forward _ hknows₁
  rw [hrun₂] at hknows₂
  refine ⟨submissions, summary, m₂, m₂', (run_bind_ok hrun₁).trans hrun₂,
    (run_bind_ok hrun₁').trans hrun₂', hknows₂, ⟨f, ?_⟩, hsight₂'.trans hsight₁',
    fun hlabels hmails => ?_⟩
  · have hat₁ : Message.At root place s f c.office.disk (m₁.sight c.office.disk) :=
      hsight₁ ▸ hat.relabeled r ks
    rcases hsight₂ with hsame | ⟨-, done, -, hwritten⟩
    · rw [hsame]
      exact hat₁
    · rw [hwritten]
      exact hat₁.withField _ _
  · have hdraft₁ : c.sight.Drafts (m₁.sight c.office.disk) := by
      rw [hsight₁]
      exact .relabeled h.plain h.edits h.date hk hlabels
    have hw : m₂'.sight t.office.disk = m₁'.sight t.office.disk := hsight₂'
    rw [hw]
    rcases hsight₂ with hsame | ⟨hf, done, hdone, hwritten⟩
    · have hv : m₂.sight c.office.disk = m₁.sight c.office.disk := hsame
      rw [hv]
      exact ⟨hdraft₁, fun hf => (hletters hf).tail⟩
    · have hv : m₂.sight c.office.disk = (m₁.sight c.office.disk).withField forwardedField
          (Text.join ", " (done.insertAll (pendingOf done r.forward)).toList) := hwritten
      rw [hv]
      obtain ⟨htoken, hapart⟩ := hmails hf
      exact ⟨hdraft₁.posted (hletters hf) hdone htoken,
        fun _ => (hletters hf).posted hdone htoken hapart⟩

/-- If all that a clerk tries for a rule succeeds, the same is counted as on a trial, and the
message looks the same to the rules that follow. -/
theorem apply_foretold (hdry : k.dryRun = false) (hmove : r.moveTo = none) (hknows : c.Knows ks)
    (h : Foretold (k.forwarder ≠ none) root place s (r :: rules) c.office t.office c.sight
      t.sight)
    (hsucceeds : k.Succeeds r c) :
    ∃ c₁ t₁, k.apply r c = (.ok (), c₁) ∧ k.onTrial.apply r t = (.ok (), t₁) ∧
      Worked place s c.office t.office c₁.office t₁.office ∧
      (rules ≠ [] → (∀ r' ∈ rules, r.MayPrecede r') →
        (k.forwarder ≠ none → ∀ r' ∈ rules, r.MailsApart r') →
        Foretold (k.forwarder ≠ none) root place s rules c₁.office t₁.office c₁.sight
          t₁.sight) := by
  obtain ⟨submissions, summary, m₂, m₂', hrun₂, hrun₂', hknows₂, ⟨f, hat₂⟩, hsight₂', hdraft⟩ :=
    draft_foretold hdry hknows h hsucceeds
  have hsaves := hsucceeds.1
  rw [apply_eq_draft, run_bind_ok hrun₂, hmove] at hsaves
  obtain ⟨u, hsaves⟩ := exists_ok_of_bind_ok hsaves
  obtain ⟨d, m₃, f', hrun₃, helse, hat₃, hedits₃, hkeywords₃, hsaved⟩ := save_of_ok
    (c := ⟨⟨c.office.disk, submissions, summary⟩, m₂⟩) hdry hat₂ hknows₂ hsaves
  refine ⟨⟨⟨d, submissions, summary⟩, m₃⟩, ⟨{ t.office with summary := summary }, m₂'⟩, ?_, ?_,
    ⟨rfl, rfl, helse, f', hat₃.file⟩, fun hrules hprecede hmails => ?_⟩
  · rw [apply_eq_draft, run_bind_ok hrun₂, run_bind_ok hrun₃, hmove]
    rfl
  · rw [apply_eq_draft, run_bind_ok hrun₂', hmove]
    rfl
  · obtain ⟨r₀, hr₀⟩ := List.exists_mem_of_ne_nil rules hrules
    obtain ⟨hdraft, hagrees⟩ := hdraft (hprecede r₀ hr₀).label
      fun hf => ⟨(hmails hf r₀ hr₀).token, hmails hf⟩
    obtain ⟨hdraft', hagrees'⟩ : c.sight.Drafts (m₃.sight d) ∧
        ((m₂.sight c.office.disk).AgreesOn rules (m₂'.sight t.office.disk) →
          (m₃.sight d).AgreesOn rules (m₂'.sight t.office.disk)) :=
      hdraft.saved hedits₃ hkeywords₃ hsaved
    refine ⟨⟨f', hat₃⟩, hedits₃, hdraft'.plain, hdraft'.date, rfl, ?_, ?_,
      Or.inr fun r' hr' => (hprecede r' hr').looks, fun hf => hagrees' (hagrees hf)⟩
    · show (m₂'.sight t.office.disk).keywords = (m₃.sight d).keywords
      rw [hsight₂', hkeywords₃]
      exact (hknows₂.keywords c.office.disk).symm
    · show (m₃.sight d).Resembles (m₂'.sight t.office.disk)
      rw [hsight₂']
      exact hdraft'.resembles.symm.trans (h.resembles.trans (resembles_relabeled _ r ks))

end Clerk

end Mailroom
