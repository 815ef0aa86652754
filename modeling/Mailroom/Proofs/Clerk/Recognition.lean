import Mailroom.Proofs.Clerk
import Mailroom.Proofs.Message.Roaming
import Mailroom.Proofs.Pass.Conservation
import Mailroom.Proofs.Pass.Labeling
import Mailroom.Proofs.Rule

/-!
# Labels that are recognised

A rule that added its labels is skipped for them when the message is taken up again, wherever the
rule moved it, exactly if each label is one word of the keyword field.

* `Sight.Stages` says that a message is to get a keyword field that reads back.
* `Clerk.keywords_applied` says which keywords a message has when a rule was carried out.
* `Clerk.verdict_applied` is the result.
-/

namespace Mailroom

/-! ## Labels of one word -/

/-- A keyword that was read from a field holds no blank and no comma, in either form. -/
theorem Keywords.not_isTokenBreak_of_contains {raw l : Text}
    (h : (Keywords.parse raw).contains l = true) : ∀ x ∈ l, isTokenBreak x = false := by
  obtain ⟨w, hw, heq⟩ := Keywords.mem_parse.1 (Keywords.contains_iff.1 h)
  have hword := (Text.isWord_of_mem_words hw).1
  have hsystem : ∀ l ∈ Label.system, Text.IsWord isTokenBreak l.labelForm ∧
      Text.IsWord isTokenBreak l.folderForm := by decide
  rcases resolveFolder_split l with ⟨s, hs, rfl, -⟩ | ⟨-, hself⟩
  · exact (hsystem s hs).1.2
  · rw [← hself, heq]
    exact (holds_resolveFolder hword fun s hs => (hsystem s hs).2).2

/-- What is read of the keywords of a message that was just taken up stands in its fields. -/
theorem exists_parse_of_ofEntry {e : Entry} {d : Disk} {k : Keywords}
    (hk : ((Message.ofEntry e).sight d).keywords = .ok k) : ∃ raw, k = Keywords.parse raw := by
  have hseen : seenKeywords [] ((Message.ofEntry e).sight d).header = .ok k := hk
  obtain ⟨header, -, hk⟩ := seenKeywords_eq_ok.1 hseen
  exact ⟨_, hk⟩

/-! ## Keywords to be written -/

/-- A message is to get a keyword field, and no other one, that reads back as some keywords. -/
structure Sight.Stages (v : Sight) (k : Keywords) : Prop where
  /-- There is something to be written. -/
  dirty : v.edits ≠ []
  /-- What is to be written for the keywords. -/
  values : v.values Keywords.fieldName = .ok (if k.render.isEmpty then [] else [k.render])
  /-- It reads back. -/
  readsBack : ∀ e ∈ v.edits, Text.sameName e.name Keywords.fieldName = true → ReadsBack e.value

theorem withField_ne_nil (edits : List Field) (name value : Text) :
    withField edits name value ≠ [] := by simp [withField]

/-- A field that is not the keyword field leaves that one to be written. -/
theorem Sight.Stages.withField {v : Sight} {k : Keywords} (h : v.Stages k) {name : Text}
    (value : Text) (hname : Text.sameName name Keywords.fieldName = false) :
    (v.withField name value).Stages k := by
  refine ⟨withField_ne_nil _ _ _, ?_, fun e he hsame => ?_⟩
  · rw [← h.values, Sight.values, Sight.values, seenValues, seenValues, Sight.withField,
      find?_withField_of_ne v.edits value hname]
  · rcases mem_withField he with he | rfl
    · exact h.readsBack e he hsame
    · rw [hname] at hsame
      exact absurd hsame (by simp)

/-- New keywords that read back are to be written. -/
theorem Sight.stages_withKeywords {v : Sight} {change : Keywords × Bool}
    (hchange : change.2 = true) (hclean : change.1.IsClean) :
    (v.withKeywords change).Stages change.1 := by
  have hedits : (v.withKeywords change).edits =
      Mailroom.withField v.edits Keywords.fieldName change.1.render := by
    simp [Sight.withKeywords, hchange]
  refine ⟨?_, ?_, fun e he hsame => ?_⟩
  · rw [hedits]
    exact withField_ne_nil _ _ _
  · rw [Sight.values, seenValues, hedits, find?_withField_self]
  · rw [hedits] at he
    rcases List.mem_append.1 he with he | he
    · have hother := (List.mem_filter.1 he).2
      rw [hsame] at hother
      exact absurd hother (by simp)
    · rw [List.mem_singleton.1 he]
      exact hclean.readsBack

/-! ## Messages at hand -/

/-- A message at hand, of which nothing is remembered that is not so, on a sound disk. -/
structure Case.IsOpen (root : Path) (state : ReadState) (name : Text) (f : File) (c : Case) :
    Prop where
  /-- The disk is sound. -/
  sound : c.office.disk.Sound
  /-- The file of the message is there. -/
  held : c.message.entry.IsHeld root state name f c.office.disk
  /-- The content is that of the file. -/
  content : c.sight.content = .ok f.content
  /-- The header block is that of the file. -/
  header : c.sight.header = readHeader f.content
  /-- New values are written on one line each. -/
  plain : c.sight.IsPlain

namespace Case

variable {root : Path} {state : ReadState} {name : Text} {f : File} {c : Case}

/-- A message that was just taken up is open. -/
theorem isOpen_ofEntry {o : Office} {e : Entry} (hd : o.disk.Sound)
    (he : e.IsHeld root state name f o.disk) :
    IsOpen root state name f ⟨o, .ofEntry e⟩ := by
  have hsight := Message.sight_ofEntry_of_held he
  refine ⟨hd, he, ?_, ?_, ?_⟩
  · exact congrArg Sight.content hsight
  · exact congrArg Sight.header hsight
  · show ((Message.ofEntry e).sight o.disk).IsPlain
    rw [hsight]
    exact .ofFile _ _

/-- The message is as open with other new values, and when more was counted or sent. -/
theorem IsOpen.of_sight {c' : Case} (h : c.IsOpen root state name f)
    (hdisk : c'.office.disk = c.office.disk) (hentry : c'.sight.entry = c.sight.entry)
    (hcontent : c'.sight.content = c.sight.content) (hheader : c'.sight.header = c.sight.header)
    (hplain : c'.sight.IsPlain) : c'.IsOpen root state name f := by
  refine ⟨hdisk ▸ h.sound, ?_, hcontent.trans h.content, hheader.trans h.header, hplain⟩
  have hsame : c'.message.entry = c.message.entry := hentry
  rw [hsame, hdisk]
  exact h.held

end Case

namespace Clerk

variable {clerk : Clerk} {root : Path} {state : ReadState} {name : Text} {f : File} {c c' : Case}
  {k : Keywords}

/-! ## The steps of a rule -/

/-- Passing on changes nothing on the disk, and of what is seen of the message only the field of
addresses. -/
theorem passOn_run (hdry : clerk.dryRun = false) (destinations : List Mailbox) (c : Case) :
    ∃ c', clerk.passOn destinations c = (.ok (), c') ∧ c'.office.disk = c.office.disk ∧
      (c'.sight = c.sight ∨ ∃ done, c.sight.forwarded = .ok done ∧
        c'.sight = c.sight.withField forwardedField
          (Text.join ", " (done.insertAll (pendingOf done destinations)).toList)) := by
  obtain ⟨result, summary, m, hresult, ⟨hrun, hsight⟩ |
    ⟨-, done, letter, accepted, hrun, hdone, -, hsight⟩⟩ := passOn_cases clerk destinations c
  · obtain rfl := hresult hdry
    exact ⟨_, hrun, rfl, Or.inl hsight⟩
  · obtain rfl := hresult hdry
    cases accepted with
    | false => exact ⟨_, hrun, rfl, Or.inl hsight⟩
    | true => exact ⟨_, hrun, rfl, Or.inr ⟨done, hdone, hsight⟩⟩

/-- Saving that does not fail writes the keywords so that they are read back. -/
theorem save_stages (hdry : clerk.dryRun = false) (hn : IsName name)
    (hopen : c.IsOpen root state name f) (hstages : c.sight.Stages k) (hclean : k.IsClean)
    (hrun : clerk.save c = (.ok (), c')) :
    ∃ f', c'.office.disk.Sound ∧ c'.message.entry.IsHeld root state name f' c'.office.disk ∧
      seenKeywords [] (readHeader f'.content) = .ok k := by
  rw [save_eq_discard hdry] at hrun
  rcases Message.save_of_held hopen.sound hn hopen.held with ⟨hedits, -⟩ |
    ⟨e, m', hfailed, -⟩ | ⟨bytes, header, d', m', id, hcontent, hheader, hsaved, hapart, hheld⟩
  · exact absurd hedits hstages.dirty
  · have hstop : (discard (liftM Message.save : Handling Bool)) c = (.error e, ⟨_, m'⟩) :=
      run_bind_error (liftM_run hfailed)
    rw [hstop] at hrun
    exact absurd (congrArg Prod.fst hrun) (by simp)
  · rw [run_discard_ok (liftM_run hsaved)] at hrun
    obtain rfl := (Prod.mk.inj hrun).2
    obtain rfl : f.content = bytes := Except.ok.inj (hopen.content.symm.trans hcontent)
    have hread : readHeader f.content = .ok header := hopen.header.symm.trans hheader
    obtain ⟨header', hread', hvalues⟩ := hopen.plain.values_saved hread hheader
    obtain ⟨vs, hvs, hsettles⟩ := hvalues _ isPlainName_keywords hstages.readsBack
    obtain rfl := Except.ok.inj (hstages.values.symm.trans hvs)
    refine ⟨_, hapart.sound, hheld, ?_⟩
    have hwritten : readHeader (revise f.content header.bodyOffset c.message.edits) =
        .ok header' := hread'
    rw [hwritten, seenKeywords_ok, hclean.parse_values hsettles]

/-- Moving that does not fail keeps the file. -/
theorem move_held (hdry : clerk.dryRun = false) (hroot : clerk.maildir.root = root)
    (hn : IsName name) {target : Option Text} (htarget : ∀ g, target = some g → IsStep g)
    (hd : c.office.disk.Sound) (hheld : c.message.entry.IsHeld root state name f c.office.disk)
    (hrun : clerk.move target c = (.ok (), c')) :
    c'.message.entry.IsHeld root state name f c'.office.disk := by
  cases target with
  | none =>
    obtain rfl : c = c' := congrArg Prod.snd hrun
    exact hheld
  | some g =>
    have hmove : clerk.move (some g) = (liftM (Message.moveTo ⟨root, g⟩) : Handling Unit) >>=
        fun _ => Handling.record ("Moved " ++ g) := by
      simp only [Clerk.move, hdry, Bool.not_false, if_true, Maildir.folder, hroot]
    rw [hmove] at hrun
    rcases Message.moveTo_of_held hd hn hheld (htarget g rfl) with
      ⟨result, hstay⟩ | ⟨d', hmoved, -, hheld'⟩
    · cases result with
      | error e =>
        rw [run_bind_error (liftM_run hstay)] at hrun
        exact absurd (congrArg Prod.fst hrun) (by simp)
      | ok u =>
        rw [run_bind_ok (liftM_run hstay)] at hrun
        obtain rfl := (Prod.mk.inj hrun).2
        exact hheld
    · rw [run_bind_ok (liftM_run hmoved)] at hrun
      obtain rfl := (Prod.mk.inj hrun).2
      exact hheld'

/-- Adding labels of which one is new leaves the keywords to be written. -/
theorem addLabels_stages {labels : List Text} (hopen : c.IsOpen root state name f)
    (hk : c.sight.keywords = .ok k) (hclean : k.IsClean) (hlabels : ∀ l ∈ labels, IsToken l)
    (hnew : ∃ l ∈ labels, k.contains l = false) :
    ∃ c', addLabels labels c = (.ok (), c') ∧ c'.IsOpen root state name f ∧
      c'.sight.Stages (k.insertAll labels).1 := by
  obtain ⟨m, hrun, hsight⟩ := addLabels_run labels hk
  have hplain : (c.sight.withKeywords (k.insertAll labels)).IsPlain :=
    hopen.plain.insertAll hk fun l hl => (hlabels l hl).lineFeed
  have hsight' : Case.sight ⟨{ c.office with
      summary := c.office.summary.recordLabels "Labeled " labels }, m⟩ =
        c.sight.withKeywords (k.insertAll labels) := hsight
  refine ⟨_, hrun, hopen.of_sight rfl ?_ ?_ ?_ ?_, ?_⟩
  all_goals rw [hsight']
  · rfl
  · rfl
  · rfl
  · exact hplain
  · exact Sight.stages_withKeywords (Keywords.insertAll_changed.2 hnew)
      (hclean.insertAll hlabels)

/-- Passing on leaves them to be written. -/
theorem passOn_stages (hdry : clerk.dryRun = false) {destinations : List Mailbox}
    (hdestinations : ∀ m ∈ destinations, '\n' ∉ m.email) (hopen : c.IsOpen root state name f)
    (hstages : c.sight.Stages k) : ∃ c', clerk.passOn destinations c = (.ok (), c') ∧
      c'.IsOpen root state name f ∧ c'.sight.Stages k := by
  obtain ⟨c', hrun, hdisk, hsight | ⟨done, hdone, hsight⟩⟩ := passOn_run hdry destinations c
  · refine ⟨c', hrun, hopen.of_sight hdisk ?_ ?_ ?_ ?_, ?_⟩
    all_goals rw [hsight]
    · exact hopen.plain
    · exact hstages
  · refine ⟨c', hrun, hopen.of_sight hdisk ?_ ?_ ?_ ?_, ?_⟩
    all_goals rw [hsight]
    · rfl
    · rfl
    · rfl
    · exact hopen.plain.passedOn hdone hdestinations
    · exact hstages.withField _ forwardedField_ne

/-! ## The whole rule -/

variable {r : Rule}

/-- A rule that adds a new label, removes none and does not fail leaves a message with the labels
in its file. -/
theorem keywords_applied (hdry : clerk.dryRun = false) (hroot : clerk.maildir.root = root)
    (hn : IsName name) (hopen : c.IsOpen root state name f)
    (hk : c.sight.keywords = .ok k) (hclean : k.IsClean) (hlabel : ∀ l ∈ r.label, IsToken l)
    (hnew : ∃ l ∈ r.label, k.contains l = false) (hclear : r.clear = [])
    (hforward : ∀ m ∈ r.forward, '\n' ∉ m.email) (hmove : ∀ g, r.moveTo = some g → IsStep g)
    (hrun : clerk.apply r c = (.ok (), c')) :
    ((Message.ofEntry c'.message.entry).sight c'.office.disk).keywords =
      .ok (k.insertAll r.label).1 := by
  obtain ⟨c₁, hadd, hopen₁, hstages₁⟩ := addLabels_stages hopen hk hclean hlabel hnew
  have hremove : removeLabels r.clear c₁ = (.ok (), c₁) := by rw [hclear]; rfl
  obtain ⟨c₂, hpass, hopen₂, hstages₂⟩ := passOn_stages hdry hforward hopen₁ hstages₁
  rw [Clerk.apply, run_bind_ok hadd, run_bind_ok hremove, run_bind_ok hpass] at hrun
  cases hsave : clerk.save c₂ with
  | mk result c₃ =>
    cases result with
    | error e =>
      rw [run_bind_error hsave] at hrun
      exact absurd (congrArg Prod.fst hrun) (by simp)
    | ok u =>
      rw [run_bind_ok hsave] at hrun
      obtain ⟨f', hd', hheld', hseen⟩ :=
        save_stages hdry hn hopen₂ hstages₂ (hclean.insertAll hlabel) hsave
      rw [Message.sight_ofEntry_of_held (move_held hdry hroot hn hmove hd' hheld' hrun)]
      exact hseen

/-- A rule that added its labels, and removes none, is skipped for them when the message is taken
up again, if and only if no label holds a blank or a comma. -/
theorem verdict_applied (clerk : Clerk) (hdry : clerk.dryRun = false) (hr : r.IsCompiled)
    (hlabel : r.label ≠ []) (hclear : r.clear = []) (hopening : ∀ l ∈ r.label, ¬ HasOpening l)
    (hforward : ∀ m ∈ r.forward, '\n' ∉ m.email) (hn : IsName name)
    (hopen : c.IsOpen clerk.maildir.root state name f)
    (hclean : ∀ k, c.sight.keywords = .ok k → k.IsClean)
    (hpass : (r.verdict c.office.disk c.message).1 = .pass)
    (hrun : clerk.apply r c = (.ok (), c')) :
    (r.verdict c'.office.disk (.ofEntry c'.message.entry)).1 = .skip .alreadyLabeled ↔
      ∀ l ∈ r.label, ∀ x ∈ l, isTokenBreak x = false := by
  have hverdict : ∀ (d : Disk) (m : Message), (r.verdict d m).1 = (m.sight d).verdict r :=
    fun d m => Except.ok.inj (reads_verdict r d m).1
  rw [hverdict] at hpass ⊢
  rw [Sight.verdict_eq_alreadyLabeled hlabel]
  constructor
  · rintro ⟨k, hk, hall⟩ l hl
    obtain ⟨raw, rfl⟩ := exists_parse_of_ofEntry hk
    exact Keywords.not_isTokenBreak_of_contains (hall l hl)
  · intro hwords
    have happlies : (c.sight.verdict r).applies = true := by
      have hsight : c.sight.verdict r = .pass := hpass
      rw [hsight]
      rfl
    obtain ⟨k, hk⟩ : ∃ k, c.sight.keywords = .ok k := by
      cases hk : c.sight.keywords with
      | ok k => exact ⟨k, rfl⟩
      | error e =>
        rw [Sight.not_applies_of_unreadable hk] at happlies
        exact absurd happlies (by simp)
    have hnew := ((Sight.skips_iff_of_keywords hk).1 (Sight.applies_iff.1 happlies).1).1 hlabel
    have hkeywords := keywords_applied hdry rfl hn hopen hk (hclean k hk)
      (fun l hl => ⟨⟨hr.label_ne_nil hl, hwords l hl⟩, hopening l hl⟩) hnew hclear hforward
      (fun g hg => hr.isStep_moveTo hg) hrun
    refine ⟨_, hkeywords, fun l hl => ?_⟩
    exact Keywords.contains_iff.2 (Keywords.mem_insertAll.2 (Or.inr ⟨l, hl, rfl⟩))

end Clerk

/-! ### A rule that labels and files away -/

theorem keepsKeywords_sampleLetter : KeepsKeywords sampleLetter := by
  have hvalues : (readHeader sampleLetter).map (fun h => h.values Keywords.fieldName) = .ok [] := by
    decide +kernel
  intro header hheader x hx
  rw [hheader] at hvalues
  have hnone : header.values Keywords.fieldName = [] := Except.ok.inj hvalues
  rw [hnone] at hx
  exact absurd hx List.not_mem_nil

theorem filing_verdict_applied : ∃ c',
    filingPass.clerk.apply filingRule ⟨.ofDisk sampleDisk, .ofEntry (sampleSlot.entry [])⟩ =
        (.ok (), c') ∧
      (filingRule.verdict c'.office.disk (.ofEntry c'.message.entry)).1 =
        .skip .alreadyLabeled := by
  generalize hc : (⟨.ofDisk sampleDisk, .ofEntry (sampleSlot.entry [])⟩ : Case) = c
  have hword : ∀ l ∈ filingRule.label, Text.IsWord isTokenBreak l := by decide
  have hresult : (filingPass.clerk.apply filingRule c).1.toBool = true := by
    rw [← hc]
    decide +kernel
  have hpass : (filingRule.verdict c.office.disk c.message).1 = .pass := by
    rw [← hc]
    decide +kernel
  have hopen : c.IsOpen [] sampleSlot.state sampleSlot.name ⟨0, sampleLetter, 0⟩ := by
    rw [← hc]
    exact Case.isOpen_ofEntry sound_sampleDisk (Entry.isHeld_entry rfl)
  cases hrun : filingPass.clerk.apply filingRule c with
  | mk result c' =>
    rw [hrun] at hresult
    cases result with
    | error e => exact absurd hresult (by simp [Except.toBool])
    | ok u =>
      refine ⟨c', rfl, (Clerk.verdict_applied filingPass.clerk rfl ⟨filingRaw, 0, rfl⟩ (by decide)
        rfl (by decide +kernel) (by decide) sampleSlot.isName_name hopen (fun k hk => ?_) hpass
        hrun).2 fun l hl => (hword l hl).2⟩
      rw [← hc] at hk
      have hsight : Case.sight ⟨.ofDisk sampleDisk, .ofEntry (sampleSlot.entry [])⟩ =
          .ofFile (sampleSlot.entry []) sampleLetter :=
        Message.sight_ofEntry_of_held (Entry.isHeld_entry (f := ⟨0, sampleLetter, 0⟩) rfl)
      rw [hsight] at hk
      exact (keepsKeywords_sampleLetter.exists_header hk).1

end Mailroom
