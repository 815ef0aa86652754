import Mailroom.Proofs.Clerk.Foretelling
import Mailroom.Proofs.Maildir.Matching
import Mailroom.Proofs.Pass.Persisting
import Mailroom.Proofs.Pass.Retrying

/-!
# A pass that is tried first

Before a pass is made, it can be tried: nothing is written and nothing is sent, but all is counted
that would be done.  If all that is tried succeeds when the pass is made, it counts the same, as
long as no rule notices what was done to a message for an earlier one.

* `Pass.Succeeds` says that all that a pass tries succeeds.
* `Pass.carryOut_foretold` is the induction over the rules for one message.
* `Abreast` compares the offices of the two passes while some messages are still to come, and
  `Pass.takeUp_foretold` is the step that both take.
* `Pass.run_foretold` is the result.
-/

namespace Mailroom

namespace Pass

/-- The same pass, but only tried. -/
def onTrial (p : Pass) : Pass := { p with dryRun := true }

/-! ## Passes that succeed -/

/-- Whether all that is tried for a message succeeds, rule after rule. -/
def RulesSucceed (p : Pass) : List Rule → Case → Prop
  | [], _ => True
  | r :: rest, c =>
    if (c.sight.verdict r).applies then
      p.clerk.Succeeds r (c.tested r) ∧ p.RulesSucceed rest (p.clerk.apply r (c.tested r)).2
    else p.RulesSucceed rest (c.tested r)

/-- Whether all that is tried succeeds while messages of a folder have their turns. -/
def TurnsSucceed (p : Pass) (rules : List Rule) : List Entry → Office → Prop
  | [], _ => True
  | e :: rest, o =>
    (p.isRecent o.disk e = true → p.RulesSucceed rules ⟨o, .ofEntry e⟩) ∧
      p.TurnsSucceed rules rest (p.takeUp rules e o).2

/-- Whether all that is tried succeeds in any of some folders. -/
def FoldersSucceed (p : Pass) : List Folder → Office → Prop
  | [], _ => True
  | f :: rest, o =>
    (skippedFolders.contains f.name = false → ∀ entries,
      f.messages p.maildir.listing o.disk = .ok entries →
        p.TurnsSucceed (p.rulebook.rulesFor f.name) entries o) ∧
      p.FoldersSucceed rest (p.afterFolder o f)

/-- Whether all that a pass tries succeeds. -/
def Succeeds (p : Pass) (o : Office) : Prop :=
  ∀ fs, p.maildir.folders o.disk = .ok fs → p.FoldersSucceed fs o

instance decidableRulesSucceed (p : Pass) : ∀ rules c, Decidable (p.RulesSucceed rules c)
  | [], _ => isTrue trivial
  | r :: rest, c =>
    have := decidableRulesSucceed p rest (p.clerk.apply r (c.tested r)).2
    have := decidableRulesSucceed p rest (c.tested r)
    inferInstanceAs (Decidable (if (c.sight.verdict r).applies then _ ∧ _ else _))

instance decidableTurnsSucceed (p : Pass) (rules : List Rule) :
    ∀ entries o, Decidable (p.TurnsSucceed rules entries o)
  | [], _ => isTrue trivial
  | e :: rest, o =>
    have := decidableTurnsSucceed p rules rest (p.takeUp rules e o).2
    inferInstanceAs (Decidable ((_ → _) ∧ _))

end Pass

variable {p : Pass} {place : Path} {s : Slot} {f : File} {d : Disk} {o o' : Office}
  {rules : List Rule}

/-! ## One message -/

theorem Foretold.tail {mailing : Prop} {root : Path} {r : Rule} {v w : Sight}
    (h : Foretold mailing root place s (r :: rules) o o' v w) :
    Foretold mailing root place s rules o o' v w where
  at_slot := h.at_slot
  edits := h.edits
  plain := h.plain
  date := h.date
  summary := h.summary
  keywords := h.keywords
  resembles := h.resembles
  content := h.content.imp id fun hlooks r' hr' => hlooks r' (List.mem_cons_of_mem _ hr')
  letters hmailing := (h.letters hmailing).tail

namespace Pass

/-- The rules that are for a message are carried out with success, and the same is counted as on a
trial. -/
theorem carryOut_foretold (hdry : p.dryRun = false) {c t : Case}
    (hmoves : ∀ r ∈ rules, r.moveTo = none) (hprecede : rules.Pairwise Rule.MayPrecede)
    (hmails : p.clerk.forwarder ≠ none → rules.Pairwise Rule.MailsApart)
    (hworked : Worked place s o o' c.office t.office)
    (h : rules ≠ [] → Foretold (p.clerk.forwarder ≠ none) p.maildir.root place s rules c.office
      t.office c.sight t.sight)
    (hsucceeds : p.RulesSucceed rules c) :
    ∃ c₁ t₁, p.carryOut rules c = (.ok (), c₁) ∧ p.onTrial.carryOut rules t = (.ok (), t₁) ∧
      Worked place s o o' c₁.office t₁.office := by
  induction rules generalizing c t with
  | nil => exact ⟨c, t, rfl, rfl, hworked⟩
  | cons r rules ih =>
    have hfirst := h (by simp)
    obtain ⟨hprecede₁, hprecede⟩ := List.pairwise_cons.1 hprecede
    have hmails₁ := fun hf => (List.pairwise_cons.1 (hmails hf)).1
    have hmails := fun hf => (List.pairwise_cons.1 (hmails hf)).2
    have hmoves' : ∀ r' ∈ rules, r'.moveTo = none := fun r' hr' =>
      hmoves r' (List.mem_cons_of_mem _ hr')
    have hverdict : t.sight.verdict r = c.sight.verdict r :=
      hfirst.resembles.verdict hfirst.keywords (hfirst.content.imp id fun hall => hall r (by simp))
    have htested : Foretold (p.clerk.forwarder ≠ none) p.maildir.root place s (r :: rules)
        (c.tested r).office (t.tested r).office (c.tested r).sight (t.tested r).sight := by
      rw [Case.sight_tested, Case.sight_tested]
      exact hfirst
    rw [RulesSucceed] at hsucceeds
    rw [carryOut_tested, carryOut_tested, hverdict]
    cases happlies : (c.sight.verdict r).applies with
    | false =>
      rw [happlies, if_neg (by simp)] at hsucceeds
      exact ih hmoves' hprecede hmails hworked (fun _ => htested.tail) hsucceeds
    | true =>
      rw [happlies, if_pos rfl] at hsucceeds
      obtain ⟨k, -, hremembers⟩ := knows_of_applies happlies
      have hknows : (c.tested r).Knows k := hremembers
      obtain ⟨c₁, t₁, hrun, hrun', hworked₁, hrest⟩ :=
        Clerk.apply_foretold hdry (hmoves r (by simp)) hknows htested hsucceeds.1
      have hafter := hsucceeds.2
      rw [hrun] at hafter
      obtain ⟨c₂, t₂, hrun₂, hrun₂', hworked₂⟩ := ih hmoves' hprecede hmails
        (hworked.trans hworked₁) (fun hne => hrest hne hprecede₁ hmails₁) hafter
      exact ⟨c₂, t₂, (run_bind_ok hrun).trans hrun₂, (run_bind_ok hrun').trans hrun₂', hworked₂⟩

end Pass

/-- Whether what is read of a message stays the same when it is written anew: no empty date may go,
and nothing that it tells of letters looks like an encoded word. -/
def ReadsSteadily (content : Bytes) : Prop :=
  ∀ header, readHeader content = .ok header →
    (header.values "Date").head? ≠ some [] ∧ ∀ x ∈ header.values forwardedField, ¬ HasOpening x

/-- A message that was just taken up is the same on a trial. -/
theorem Foretold.ofFile {mailing : Prop} {root : Path} (hd : o.disk.Sound)
    (hroot : o.disk.resolve root = .ok place)
    (hf : o.disk.item? (place ++ s.names) = some (.file f)) (hsummary : o'.summary = o.summary)
    (hsteady : ReadsSteadily f.content) {header : Header}
    (hread : readHeader f.content = .ok header) :
    Foretold mailing root place s rules o o' (.ofFile (s.entry root) f.content)
      (.ofFile (s.entry root) f.content) := by
  have hvalues : ∀ name, (Sight.ofFile (s.entry root) f.content).values name =
      .ok (header.values name) := by
    intro name
    rw [Sight.values, Sight.ofFile, hread, seenValues_ok]
  obtain ⟨hdate, hopening⟩ := hsteady header hread
  refine ⟨⟨f, .ofFile hd hroot hf⟩, rfl, .ofFile _ _, fun vs hvs => ?_, hsummary, rfl, .refl _,
    Or.inl rfl, fun _ => ⟨_, _, hvalues _, hvalues _, hopening, fun _ _ _ _ => Iff.rfl⟩⟩
  obtain rfl := Except.ok.inj ((hvalues _).symm.trans hvs)
  exact hdate

/-! ## Messages that have their turns -/

/-- The offices of a pass and of its trial, while some messages are still to come. -/
structure Abreast (root place : Path) (d : Disk) (waiting : Slot → Prop) (o o' : Office) :
    Prop where
  /-- The messages stay where they are. -/
  stays : Stays root place d o.disk
  /-- The trial writes nothing. -/
  trial : o'.disk = d
  /-- The same was counted. -/
  summary : o'.summary = o.summary
  /-- The messages that are still to come are as they were. -/
  same : ∀ s, waiting s → o.disk.item? (place ++ s.names) = d.item? (place ++ s.names)

namespace Abreast

variable {root : Path} {waiting waiting' : Slot → Prop}

theorem mono (h : Abreast root place d waiting o o') (hsub : ∀ s, waiting' s → waiting s) :
    Abreast root place d waiting' o o' :=
  ⟨h.stays, h.trial, h.summary, fun s hs => h.same s (hsub s hs)⟩

/-- Work on a message leaves the others as they are. -/
theorem worked (h : Abreast root place d waiting o o') {o₁ o₁' : Office}
    (hworked : Worked place s o o' o₁ o₁') (htaken : s.IsTaken place d) :
    Abreast root place d (fun t => waiting t ∧ t ≠ s) o₁ o₁' where
  stays := h.stays.rewritten hworked.elsewhere ((h.stays.taken s).2 htaken) hworked.taken
  trial := hworked.trial.trans h.trial
  summary := hworked.summary
  same t ht := (hworked.elsewhere.other_slot ht.2).trans (h.same t ht.1)

end Abreast

/-- The messages of a folder are met in the same order while they stay where they are. -/
theorem Folder.messages_of_stays {M : Maildir} {d' : Disk} {name : Text} (hd : d.Sound)
    (hroot : d.resolve M.root = .ok place) (h : Stays M.root place d d')
    (hlisted : Listed place d name) :
    (M.folder name).messages M.listing d' = (M.folder name).messages M.listing d := by
  have hnames : ∀ st : ReadState, d'.fileNames (place ++ [name, st.name]) =
      d.fileNames (place ++ [name, st.name]) := by
    intro st
    refine Disk.fileNames_eq h.sound (Disk.increasing_fileNames hd _) fun n => ?_
    rw [Disk.mem_fileNames hd]
    by_cases hn : IsName n
    · have htaken := h.taken ⟨name, st, n, hlisted.1, hn⟩
      simpa [Slot.IsTaken, Slot.names] using htaken
    · -- a file has a proper name
      constructor
      · rintro ⟨f, hf⟩
        exact absurd (h.sound.name _ n (by rw [hf]; rfl)) hn
      · rintro ⟨f, hf⟩
        exact absurd (hd.name _ n (by rw [hf]; rfl)) hn
  rw [messages_eq hd hroot hlisted, messages_eq h.sound h.resolve ((h.listed name).2 hlisted),
    hnames, hnames]

namespace Pass

/-- What the rules of a pass have to be like for a trial to tell what is counted: they move
nothing, and none notices what was done for an earlier one. -/
structure Foretellable (p : Pass) : Prop where
  /-- They move nothing. -/
  moves : ∀ r ∈ p.rules, r.moveTo = none
  /-- In no folder does a rule notice that the message was written. -/
  precede : ∀ folder, (p.rulebook.rulesFor folder).Pairwise Rule.MayPrecede
  /-- In no folder does a rule notice that the message was passed on. -/
  mails : p.clerk.forwarder ≠ none →
    ∀ folder, (p.rulebook.rulesFor folder).Pairwise Rule.MailsApart

section Turns

variable (hdry : p.dryRun = false) (hrules : p.Foretellable)

include hdry hrules

/-- A message is handled with success, and the same is counted as on a trial. -/
theorem onMessage_foretold (hd : o.disk.Sound) (hroot : o.disk.resolve p.maildir.root = .ok place)
    (hf : o.disk.item? (place ++ s.names) = some (.file f)) (hd' : o'.disk.Sound)
    (hroot' : o'.disk.resolve p.maildir.root = .ok place)
    (hf' : o'.disk.item? (place ++ s.names) = some (.file f)) (hsummary : o'.summary = o.summary)
    (hsteady : ReadsSteadily f.content)
    (hsucceeds : p.RulesSucceed (p.rulebook.rulesFor s.folder)
      ⟨o, .ofEntry (s.entry p.maildir.root)⟩) :
    ∃ o₁ o₁', (p.handle (p.rulebook.rulesFor s.folder)).onMessage
        (.ofEntry (s.entry p.maildir.root)) o = (.ok (), o₁) ∧
      (p.onTrial.handle (p.rulebook.rulesFor s.folder)).onMessage
        (.ofEntry (s.entry p.maildir.root)) o' = (.ok (), o₁') ∧ Worked place s o o' o₁ o₁' := by
  have hworked : Worked place s o o' o o' := ⟨hsummary, rfl, .refl _ hd, f, hf⟩
  cases hread : readHeader f.content with
  | error e =>
    -- no rule is for a message whose keywords cannot be read
    have hidle : ∀ r ∈ p.rulebook.rulesFor s.folder,
        ((Sight.ofFile (s.entry p.maildir.root) f.content).verdict r).applies = false := by
      intro r _
      refine Sight.not_applies_of_unreadable (e := e) ?_ r
      rw [Sight.ofFile, hread, seenKeywords_error]
    exact ⟨o, o', onMessage_of_no_rule hd hroot hf hidle,
      onMessage_of_no_rule (p := p.onTrial) hd' hroot' hf' hidle, hworked⟩
  | ok header =>
    have hmoves : ∀ r ∈ p.rulebook.rulesFor s.folder, r.moveTo = none := by
      intro r hr
      obtain ⟨source, hsource, rfl⟩ := (Rulebook.isUsed_of_mem_rulesFor hr).stamped hrules.moves
      rw [Rule.stamped_moveTo, hrules.moves source hsource]
    have hsight : Case.sight ⟨o, .ofEntry (s.entry p.maildir.root)⟩ =
        .ofFile (s.entry p.maildir.root) f.content := Message.sight_ofEntry hd hroot hf
    have hsight' : Case.sight ⟨o', .ofEntry (s.entry p.maildir.root)⟩ =
        .ofFile (s.entry p.maildir.root) f.content := Message.sight_ofEntry hd' hroot' hf'
    obtain ⟨c₁, c₁', hrun, hrun', hworked₁⟩ := carryOut_foretold
      (c := ⟨o, .ofEntry (s.entry p.maildir.root)⟩) (t := ⟨o', .ofEntry (s.entry p.maildir.root)⟩)
      hdry hmoves (hrules.precede s.folder) (fun hf => hrules.mails hf s.folder) hworked
      (fun _ => by
        rw [hsight, hsight']
        exact .ofFile hd hroot hf hsummary hsteady hread) hsucceeds
    refine ⟨c₁.office, c₁'.office, ?_, ?_, hworked₁⟩
    · rw [onMessage_run, handle_run_of_no_moves hrules.moves hrun]
    · rw [onMessage_run, handle_run_of_no_moves (p := p.onTrial) hrules.moves hrun']

variable (hgoes : ∀ submissions, p.calledOff submissions = false) (hd : d.Sound)
  (hroot : d.resolve p.maildir.root = .ok place)
  (hsteady : ∀ (s : Slot) (f : File), Listed place d s.folder →
    d.item? (place ++ s.names) = some (.file f) → ReadsSteadily f.content)

include hgoes hd hroot hsteady

variable {waiting : Slot → Prop}

/-- A message has its turn in the pass and in the trial. -/
theorem takeUp_foretold (h : Abreast p.maildir.root place d waiting o o') (hs : waiting s)
    (hlisted : Listed place d s.folder) (htaken : s.IsTaken place d)
    (hsucceeds : p.isRecent o.disk (s.entry p.maildir.root) = true →
      p.RulesSucceed (p.rulebook.rulesFor s.folder) ⟨o, .ofEntry (s.entry p.maildir.root)⟩) :
    ∃ o₁ o₁', p.takeUp (p.rulebook.rulesFor s.folder) (s.entry p.maildir.root) o = (.ok (), o₁) ∧
      p.onTrial.takeUp (p.rulebook.rulesFor s.folder) (s.entry p.maildir.root) o' =
        (.ok (), o₁') ∧
      Abreast p.maildir.root place d (fun t => waiting t ∧ t ≠ s) o₁ o₁' := by
  obtain ⟨f, hf⟩ := htaken
  have hf₁ := (h.same s hs).trans hf
  have hd' : o'.disk.Sound := h.trial ▸ hd
  have hroot' : o'.disk.resolve p.maildir.root = .ok place := h.trial ▸ hroot
  have hf' : o'.disk.item? (place ++ s.names) = some (.file f) := h.trial ▸ hf
  have hrecent : p.onTrial.isRecent o'.disk (s.entry p.maildir.root) =
      p.isRecent o.disk (s.entry p.maildir.root) :=
    isRecent_congr (p := p) h.stays.sound hd' h.stays.resolve hroot' hf₁ hf'
  have hgoes' : p.onTrial.calledOff o'.submissions = false := hgoes _
  cases hlate : p.isRecent o.disk (s.entry p.maildir.root) with
  | false =>
    exact ⟨o, o', takeUp_of_not_recent (hgoes _) hlate,
      takeUp_of_not_recent hgoes' (hrecent.trans hlate), h.mono fun t ht => ht.1⟩
  | true =>
    obtain ⟨o₁, o₁', hrun, hrun', hworked⟩ := onMessage_foretold hdry hrules h.stays.sound
      h.stays.resolve hf₁ hd' hroot' hf' h.summary (hsteady s f hlisted hf) (hsucceeds hlate)
    exact ⟨o₁, o₁', takeUp_of_ok (hgoes _) hlate hrun,
      takeUp_of_ok hgoes' (hrecent.trans hlate) hrun', h.worked hworked ⟨f, hf⟩⟩

/-- So have some messages of a folder. -/
theorem workThrough_foretold {folder : Text} (hlisted : Listed place d folder)
    {entries : List Entry} (hentries : ∀ e ∈ entries, ∃ s : Slot, s.folder = folder ∧
      s.IsTaken place d ∧ waiting s ∧ e = s.entry p.maildir.root) (hnodup : entries.Nodup)
    (h : Abreast p.maildir.root place d waiting o o')
    (hsucceeds : p.TurnsSucceed (p.rulebook.rulesFor folder) entries o) :
    Abreast p.maildir.root place d
      (fun t => waiting t ∧ t.entry p.maildir.root ∉ entries)
      (p.workThrough (p.rulebook.rulesFor folder) entries o).2
      (p.onTrial.workThrough (p.rulebook.rulesFor folder) entries o').2 := by
  induction entries generalizing o o' waiting with
  | nil => exact h.mono fun t ht => ht.1
  | cons e entries ih =>
    obtain ⟨s, rfl, htaken, hs, rfl⟩ := hentries e (by simp)
    obtain ⟨hnew, hnodup⟩ := List.nodup_cons.1 hnodup
    obtain ⟨o₁, o₁', hrun, hrun', habreast⟩ := takeUp_foretold hdry hrules hgoes hd hroot hsteady h
      hs hlisted htaken hsucceeds.1
    have hrest := hsucceeds.2
    rw [workThrough_of_ok (congrArg Prod.fst hrun),
      workThrough_of_ok (p := p.onTrial) (congrArg Prod.fst hrun'), hrun']
    rw [hrun] at hrest ⊢
    refine (ih (fun e he => ?_) hnodup habreast hrest).mono fun t ht => ?_
    · obtain ⟨t, hfolder, htaken', ht, rfl⟩ := hentries e (List.mem_cons_of_mem _ he)
      exact ⟨t, hfolder, htaken', ⟨ht, fun hts => hnew (hts ▸ he)⟩, rfl⟩
    · refine ⟨⟨ht.1, fun hts => ht.2 ?_⟩, fun he => ht.2 (List.mem_cons_of_mem _ he)⟩
      rw [hts]
      exact List.mem_cons_self

/-- So have all messages of a folder. -/
theorem workOn_foretold {folder : Text} (hlisted : Listed place d folder)
    (hwaiting : ∀ s : Slot, s.folder = folder → waiting s)
    (h : Abreast p.maildir.root place d waiting o o')
    (hsucceeds : ∀ entries, (p.maildir.folder folder).messages p.maildir.listing o.disk =
      .ok entries → p.TurnsSucceed (p.rulebook.rulesFor folder) entries o) :
    Abreast p.maildir.root place d (fun t => waiting t ∧ t.folder ≠ folder)
      (p.workOn (p.maildir.folder folder) o).2
      (p.onTrial.workOn (p.maildir.folder folder) o').2 := by
  have hgoes' : p.onTrial.calledOff o'.submissions = false := hgoes _
  by_cases hnone : p.rulebook.rulesFor folder = []
  · rw [workOn_of_no_rules (f := p.maildir.folder folder) (hgoes _) hnone,
      workOn_of_no_rules (p := p.onTrial) (f := p.maildir.folder folder) hgoes' hnone]
    exact h.mono fun t ht => ht.1
  · obtain ⟨entries, hentries⟩ := Folder.exists_messages hd hroot p.maildir.listing hlisted
    have hhere := (Folder.messages_of_stays hd hroot h.stays hlisted).trans hentries
    have htrial : (p.maildir.folder folder).messages p.maildir.listing o'.disk = .ok entries := by
      rw [h.trial]
      exact hentries
    have hmem := fun e => Folder.mem_messages (e := e) hd hroot hlisted.1 hentries
    rw [workOn_of_messages (f := p.maildir.folder folder) (hgoes _) hnone hhere,
      workOn_of_messages (p := p.onTrial) (f := p.maildir.folder folder) hgoes' hnone htrial]
    refine (workThrough_foretold hdry hrules hgoes hd hroot hsteady hlisted (fun e he => ?_)
      (Folder.nodup_messages hd hentries) h (hsucceeds entries hhere)).mono fun t ht => ⟨ht.1, ?_⟩
    · obtain ⟨s, hs, -, htaken, rfl⟩ := (hmem e).1 he
      exact ⟨s, hs, htaken, hwaiting s hs, rfl⟩
    · intro hin
      obtain ⟨s, hs, -, -, hsame⟩ := (hmem _).1 hin
      rw [Slot.entry_inj hsame] at ht
      exact ht.2 hs

/-- So have the messages of some folders. -/
theorem folders_foretold {fs : List Folder} (hfs : ∀ f ∈ fs, f = p.maildir.folder f.name ∧
      Listed place d f.name ∧ ∀ s : Slot, s.folder = f.name → waiting s) (hnodup : fs.Nodup)
    (h : Abreast p.maildir.root place d waiting o o') (hsucceeds : p.FoldersSucceed fs o) :
    Abreast p.maildir.root place d (fun _ => False) (fs.foldl p.afterFolder o)
      (fs.foldl p.onTrial.afterFolder o') := by
  induction fs generalizing o o' waiting with
  | nil => exact h.mono fun _ => False.elim
  | cons f fs ih =>
    obtain ⟨hfolder, hlisted, hwaiting⟩ := hfs f (by simp)
    obtain ⟨hnew, hnodup⟩ := List.nodup_cons.1 hnodup
    have hafter : Abreast p.maildir.root place d (fun t => waiting t ∧ t.folder ≠ f.name)
        (p.afterFolder o f) (p.onTrial.afterFolder o' f) := by
      rw [afterFolder, afterFolder]
      cases hskipped : skippedFolders.contains f.name with
      | true => exact h.mono fun t ht => ht.1
      | false =>
        have hturns := hsucceeds.1 hskipped
        rw [hfolder] at hturns ⊢
        exact workOn_foretold hdry hrules hgoes hd hroot hsteady hlisted hwaiting h hturns
    refine ih (fun g hg => ?_) hnodup hafter hsucceeds.2
    obtain ⟨hgfolder, hglisted, hgwaiting⟩ := hfs g (List.mem_cons_of_mem _ hg)
    refine ⟨hgfolder, hglisted, fun s hs => ⟨hgwaiting s hs, fun hsame => hnew ?_⟩⟩
    rw [hfolder, ← hsame, hs, ← hgfolder]
    exact hg

end Turns

end Pass

/-- If all that a pass tries succeeds, and no rule notices what was done to a message for an earlier
one, then a trial of the pass comes to the same result and counts the same. -/
theorem Pass.run_foretold (p : Pass) {d : Disk} (hd : d.Sound) (hdry : p.dryRun = false)
    (hrules : p.Foretellable) (hoff : ∀ submissions, p.calledOff submissions = p.calledOff [])
    (hsteady : ∀ s content, p.maildir.Lists d s →
      d.read (p.maildir.root ++ s.names) = .ok content → ReadsSteadily content)
    (hsucceeds : p.Succeeds (.ofDisk d)) :
    (p.onTrial.run (.ofDisk d)).1 = (p.run (.ofDisk d)).1 ∧
      (p.onTrial.run (.ofDisk d)).2.summary = (p.run (.ofDisk d)).2.summary := by
  cases hfs : p.maildir.folders d with
  | error e =>
    rw [run_of_error (p := p) (o := .ofDisk d) hfs,
      run_of_error (p := p.onTrial) (o := .ofDisk d) hfs]
    exact ⟨rfl, rfl⟩
  | ok fs =>
    refine ⟨(run_eq_ok (p := p.onTrial) (o := .ofDisk d) hfs).trans
      (run_eq_ok (p := p) (o := .ofDisk d) hfs).symm, ?_⟩
    cases hgoes : p.calledOff [] with
    | true =>
      rw [run_of_calledOff (p := p) (o := .ofDisk d) hgoes hfs,
        run_of_calledOff (p := p.onTrial) (o := .ofDisk d) hgoes hfs]
    | false =>
      have hgoes : ∀ submissions, p.calledOff submissions = false := fun submissions =>
        (hoff submissions).trans hgoes
      obtain ⟨place, hroot, -⟩ := Maildir.place_of_folders hfs
      have hsteady' : ∀ (s : Slot) (f : File), Listed place d s.folder →
          d.item? (place ++ s.names) = some (.file f) → ReadsSteadily f.content := by
        intro s f hlisted hf
        refine hsteady s f.content ((Maildir.lists_iff hd hroot s).2 ⟨hlisted, f, hf⟩) ?_
        exact (Disk.read_below hd hroot s.isName_of_mem_names).2 ⟨f, hf, rfl⟩
      have hstart : Abreast p.maildir.root place d (fun _ => True) (.ofDisk d) (.ofDisk d) :=
        ⟨.refl hd hroot, rfl, rfl, fun _ _ => rfl⟩
      rw [run_of_goesOn (p := p) (o := .ofDisk d) hgoes hfs,
        run_of_goesOn (p := p.onTrial) (o := .ofDisk d) hgoes hfs]
      refine (folders_foretold hdry hrules hgoes hd hroot hsteady' (fun f hf => ?_)
        (Maildir.nodup_folders hd hfs) hstart (hsucceeds fs hfs)).summary
      obtain ⟨hfolder, hlisted⟩ := Maildir.listed_of_mem_folders hd hroot hfs f hf
      exact ⟨hfolder, hlisted, fun _ _ => trivial⟩

/-! ### Two rules that pass a message on -/

/-- A rule that labels the messages of a subject and passes them on. -/
def announcingRule : Rule :=
  { noticeRule with label := ["urgent"], forward := [⟨none, "you@home.com"⟩] }

/-- A pass with this rule and one for another address. -/
def announcingPass : Pass := { noticePass with rules := [announcingRule, noticeRule] }

theorem announcing_run_foretold : (announcingPass.onTrial.run (.ofDisk inboxDisk)).2.summary =
    (announcingPass.run (.ofDisk inboxDisk)).2.summary := by
  have hd : inboxDisk.Sound := Disk.sound_plant 0 (by decide)
  have hrules : ∀ folder,
      announcingPass.rulebook.rulesFor folder = [announcingRule, noticeRule] := by
    have hsorted : ([announcingRule, noticeRule] ++ []).mergeSort
        (fun a b => decide (a.order ≤ b.order)) = [announcingRule, noticeRule] :=
      List.mergeSort_of_pairwise (by decide)
    rintro (- | -) <;> exact hsorted
  have hfolders : announcingPass.maildir.folders inboxDisk = .ok [⟨[], "INBOX"⟩] := by
    decide +kernel
  have hmessages : Folder.messages ⟨[], "INBOX"⟩ .byName inboxDisk = .ok [sampleSlot.entry []] := by
    decide +kernel
  have hturns : announcingPass.TurnsSucceed [announcingRule, noticeRule] [sampleSlot.entry []]
      (.ofDisk inboxDisk) := by
    decide +kernel
  have hsucceeds : announcingPass.Succeeds (.ofDisk inboxDisk) := by
    intro fs hfs
    obtain rfl := Except.ok.inj (hfolders.symm.trans hfs)
    refine ⟨fun _ entries hentries => ?_, trivial⟩
    obtain rfl := Except.ok.inj (hmessages.symm.trans hentries)
    rw [hrules]
    exact hturns
  refine (Pass.run_foretold announcingPass hd rfl ⟨?_, fun folder => ?_, fun _ folder => ?_⟩
    (fun _ => rfl) ?_ hsucceeds).2
  · decide
  · rw [hrules]
    exact List.pairwise_pair.2 ⟨by decide, rfl, rfl⟩
  · rw [hrules]
    refine List.pairwise_pair.2 ⟨by decide +kernel, by decide⟩
  · rintro s content ⟨-, hs⟩ hread header hheader
    obtain rfl : s = sampleSlot :=
      Maildir.eq_of_only_file hd (m := announcingPass.maildir) rfl (by decide) hs
    have hletter : inboxDisk.read sampleSlot.names = .ok sampleLetter := rfl
    obtain rfl := Except.ok.inj (hletter.symm.trans hread)
    have hvalues : (readHeader sampleLetter).map
        (fun h => (h.values "Date", h.values forwardedField)) = .ok ([], []) := by
      decide +kernel
    rw [hheader] at hvalues
    obtain ⟨hdate, hforwarded⟩ := Prod.mk.inj (Except.ok.inj hvalues)
    rw [hdate, hforwarded]
    exact ⟨by simp, by simp⟩

end Mailroom
