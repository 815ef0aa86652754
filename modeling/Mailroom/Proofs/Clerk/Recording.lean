import Mailroom.Proofs.Clerk.Foretelling
import Mailroom.Proofs.Message.Saving
import Mailroom.Proofs.Summary

/-!
# What is counted and what is done

A clerk counts labels as added and removed before the message is saved, and a move after it was
made.  What was counted is done if the message was saved, whatever came later.  If it could not be
saved, the labels were counted for nothing, and the message still has its new values.

* A `Report` is what is counted when a rule is carried out, and `Report.IsSo` says that it is done.
* `Case.IsRooted` says that the message at hand has its file somewhere, which may be newer than what
  is remembered of it.
* `Clerk.passOn_reports`, `Clerk.save_of_rooted` and `Clerk.move_reports` are the steps of a rule
  that may fail, or that count something.
* `Clerk.apply_reports` is the result.
-/

namespace Mailroom

/-! ## Reports -/

/-- What may be counted when a rule is carried out. -/
inductive Report where
  /-- Labels were added. -/
  | labeled (labels : List Text)
  /-- Labels were removed. -/
  | cleared (labels : List Text)
  /-- A letter was sent. -/
  | forwarded (destinations : List Mailbox)
  /-- No letters may be sent. -/
  | notForwarded (destinations : List Mailbox)
  /-- The message was moved. -/
  | moved (folder : Text)

namespace Report

/-- How it is counted. -/
def action : Report → Text
  | labeled labels => "Labeled " ++ Text.join ", " labels
  | cleared labels => "Cleared " ++ Text.join ", " labels
  | forwarded destinations => "Forwarded " ++ Mailbox.renderList destinations
  | notForwarded destinations => "NOT Forwarded " ++ Mailbox.renderList destinations
  | moved folder => "Moved " ++ folder

/-- Whether it is so on a disk, for the message of an entry that is taken up there.  Of letters
nothing can be told by the disk. -/
def IsSo (M : Maildir) (d : Disk) (e : Entry) : Report → Prop
  | labeled labels => ∃ k, (Message.keywords d (.ofEntry e)).1 = .ok k ∧
      ∀ l ∈ labels, k.contains l = true
  | cleared labels => ∃ k, (Message.keywords d (.ofEntry e)).1 = .ok k ∧
      ∀ l ∈ labels, k.contains l = false
  | forwarded _ | notForwarded _ => True
  | moved folder => e.folder = M.folder folder ∧ ∃ content, e.read d = .ok content

end Report

/-- What is counted for the folder that a message is to be moved to: nothing if that failed. -/
def moveReports (target : Option Text) : Except Error Unit → List Report
  | .ok _ => target.toList.map .moved
  | .error _ => []

namespace Rule

variable {r : Rule}

/-- What is counted for the labels of a rule. -/
def labelReports (r : Rule) : List Report :=
  (if r.label.isEmpty then [] else [.labeled r.label]) ++
    (if r.clear.isEmpty then [] else [.cleared r.clear])

/-- What may be counted for the letters of a rule. -/
def MayReportLetters (r : Rule) (reports : List Report) : Prop :=
  reports = [] ∨ reports = [.forwarded r.forward] ∨ reports = [.notForwarded r.forward]

/-- What may be counted for a rule in all. -/
def MayReport (r : Rule) (result : Except Error Unit) (reports : List Report) : Prop :=
  ∃ letters, r.MayReportLetters letters ∧
    reports = r.labelReports ++ letters ++ moveReports r.moveTo result

theorem mem_labelReports {x : Report} : x ∈ r.labelReports ↔
    (r.label ≠ [] ∧ x = .labeled r.label) ∨ (r.clear ≠ [] ∧ x = .cleared r.clear) := by
  rw [labelReports, List.mem_append]
  refine or_congr ?_ ?_
  · cases r.label <;> simp
  · cases r.clear <;> simp

theorem countLabels_eq (r : Rule) (s : Summary) :
    r.countLabels s = s.recordAll (r.labelReports.map Report.action) := by
  rw [countLabels, labelReports, List.map_append, Summary.recordAll_append]
  simp only [Summary.recordLabels]
  cases r.label.isEmpty <;> cases r.clear.isEmpty <;> rfl

section Labels

variable {M : Maildir} {d : Disk} {e : Entry} {k : Keywords}

/-- The labels are as they were counted if the file has the keywords that the rule makes of
others. -/
theorem labelReports_so (hspares : r.Spares r) (hfresh : r.label ≠ [] ∨ r.clear ≠ [] →
      (Message.keywords d (.ofEntry e)).1 = .ok (r.relabel k)) :
    ∀ x ∈ r.labelReports, x.IsSo M d e := by
  intro x hx
  rcases mem_labelReports.1 hx with ⟨hne, rfl⟩ | ⟨hne, rfl⟩
  · refine ⟨_, hfresh (.inl hne), fun l hl => ?_⟩
    exact contains_relabel.2 ⟨.inr ⟨l, hl, rfl⟩, hspares l hl⟩
  · refine ⟨_, hfresh (.inr hne), fun l hl => ?_⟩
    rw [← Bool.not_eq_true]
    exact fun hthere => (contains_relabel.1 hthere).2 l hl rfl

/-- They are not if the file still has keywords for which the rule is not skipped. -/
theorem labelReports_so_iff (hfresh : (Message.keywords d (.ofEntry e)).1 = .ok k)
    (hlabel : r.label ≠ [] → ∃ l ∈ r.label, k.contains l = false)
    (hclear : r.clear ≠ [] → ∃ l ∈ r.clear, k.contains l = true) :
    (∀ x ∈ r.labelReports, x.IsSo M d e) ↔ r.label = [] ∧ r.clear = [] := by
  constructor
  · intro hall
    constructor
    · by_contra hne
      obtain ⟨l, hl, hmissing⟩ := hlabel hne
      obtain ⟨k', hk', hthere⟩ := hall _ (mem_labelReports.2 (.inl ⟨hne, rfl⟩))
      obtain rfl := Except.ok.inj (hfresh.symm.trans hk')
      exact absurd (hthere l hl) (by simp [hmissing])
    · by_contra hne
      obtain ⟨l, hl, hthere⟩ := hclear hne
      obtain ⟨k', hk', hmissing⟩ := hall _ (mem_labelReports.2 (.inr ⟨hne, rfl⟩))
      obtain rfl := Except.ok.inj (hfresh.symm.trans hk')
      exact absurd (hmissing l hl) (by simp [hthere])
  · rintro ⟨hlabel, hclear⟩ x hx
    rcases mem_labelReports.1 hx with ⟨hne, -⟩ | ⟨hne, -⟩
    · exact absurd hlabel hne
    · exact absurd hclear hne

theorem MayReportLetters.so {reports : List Report} (h : r.MayReportLetters reports) :
    ∀ x ∈ reports, x.IsSo M d e := by
  rcases h with rfl | rfl | rfl
  · simp
  · simp [Report.IsSo]
  · simp [Report.IsSo]

end Labels

end Rule

/-! ## Keywords of a message that was taken up -/

section Stands

variable {place : Path} {f : File} {d : Disk} {e : Entry}

theorem Message.keywords_ofEntry_of_stands (hd : d.Sound) (h : e.Stands place f d) :
    (Message.keywords d (.ofEntry e)).1 = seenKeywords [] (readHeader f.content) := by
  rw [(Message.reads_keywords _ _).1, Message.sight_ofEntry_of_stands hd h]
  rfl

end Stands

/-- A message at hand that has its file at a place.  What is remembered of it fits together, but may
be older than the file. -/
structure Case.IsRooted (place : Path) (f : File) (c : Case) : Prop where
  /-- The disk is sound. -/
  sound : c.office.disk.Sound
  /-- There is a file for the message. -/
  stands : c.message.entry.Stands place f c.office.disk
  /-- The header block is that of the content. -/
  header : c.sight.header = c.sight.content.bind readHeader
  /-- New values are written on one line each. -/
  plain : c.sight.IsPlain

/-- It has it there with other new values as well, and when more was counted or sent. -/
theorem Case.IsRooted.of_sight {place : Path} {f : File} {c c' : Case} (h : c.IsRooted place f)
    (hdisk : c'.office.disk = c.office.disk) (hentry : c'.sight.entry = c.sight.entry)
    (hcontent : c'.sight.content = c.sight.content) (hheader : c'.sight.header = c.sight.header)
    (hplain : c'.sight.IsPlain) : c'.IsRooted place f := by
  have hsame : c'.message.entry = c.message.entry := hentry
  refine ⟨hdisk ▸ h.sound, ?_, ?_, hplain⟩
  · rw [hsame, hdisk]
    exact h.stands
  · rw [hheader, hcontent]
    exact h.header

/-- Where nothing is to be written and the keywords are clean, every new value is plain. -/
theorem Sight.IsPlain.of_no_edits {v : Sight} (hedits : v.edits = [])
    (hclean : ∀ k, v.keywords = .ok k → k.IsClean) : v.IsPlain :=
  ⟨by simp [hedits], by simp [hedits], by simp [hedits],
    fun k hk n hn => ((hclean k hk) n hn).2.lineFeed⟩

/-- A rule that a message passes has its keywords to be written when they were changed, unless it
changes none. -/
theorem Sight.stages_relabeled {v : Sight} {r : Rule} {k : Keywords} (hclean : k.IsClean)
    (htoken : ∀ l ∈ r.label, IsToken l)
    (hlabel : r.label ≠ [] → ∃ l ∈ r.label, k.contains l = false)
    (hclear : r.clear ≠ [] → ∃ l ∈ r.clear, k.contains l = true)
    (hacts : r.label ≠ [] ∨ r.clear ≠ []) : (v.relabeled r k).Stages (r.relabel k) := by
  have hinserted := hclean.insertAll htoken
  cases herased : ((k.insertAll r.label).1.eraseAll r.clear).2 with
  | true => exact Sight.stages_withKeywords herased (hinserted.eraseAll r.clear)
  | false =>
    -- nothing was removed, so something was added
    have hchanged : (k.insertAll r.label).2 = true := by
      by_cases hnil : r.label = []
      · obtain ⟨l, hl, hthere⟩ := hclear (hacts.resolve_left fun hne => hne hnil)
        rw [hnil] at herased
        have herases := Keywords.eraseAll_changed.2 ⟨l, hl, hthere⟩
        exact absurd (herases.symm.trans herased) (by simp)
      · exact Keywords.insertAll_changed.2 (hlabel hnil)
    have hstages := Sight.stages_withKeywords (v := v) hchanged hinserted
    have hsame : r.relabel k = (k.insertAll r.label).1 :=
      Keywords.eraseAll_eq_self _ _ herased
    have hedits : (v.relabeled r k).edits = (v.withKeywords (k.insertAll r.label)).edits := by
      simp [Sight.relabeled, Sight.withKeywords, herased]
    rw [hsame]
    refine ⟨?_, ?_, ?_⟩
    · rw [hedits]
      exact hstages.dirty
    · rw [← hstages.values, Sight.values, Sight.values, hedits]
      rfl
    · rw [hedits]
      exact hstages.readsBack

namespace Clerk

variable {clerk : Clerk} {r : Rule} {place : Path} {f : File} {c c' : Case} {k : Keywords}

/-! ## The steps of a rule -/

/-- Whatever comes of passing on, it is counted as a letter that was sent, as one that may not be
sent, or not at all. -/
theorem passOn_reports (hdry : clerk.dryRun = false)
    (hrun : clerk.passOn r.forward c = (.ok (), c')) : ∃ letters,
    r.MayReportLetters letters ∧
      c'.office.summary = c.office.summary.recordAll (letters.map Report.action) := by
  cases hdest : r.forward.isEmpty with
  | true =>
    rw [passOn_of_nobody clerk hdest] at hrun
    obtain rfl : c = c' := congrArg Prod.snd hrun
    exact ⟨[], .inl rfl, rfl⟩
  | false =>
    cases hf : clerk.forwarder with
    | none =>
      rw [passOn_of_no_forwarder hf hdest] at hrun
      obtain rfl := congrArg Prod.snd hrun
      exact ⟨_, .inr (.inr rfl), rfl⟩
    | some forwarder =>
      cases hforward : forwarder.forward r.forward clerk.now c with
      | mk outcome c₁ =>
        rw [passOn_of_forwarder hf hdry hdest hforward] at hrun
        obtain rfl := congrArg Prod.snd hrun
        have hsummary : c₁.office.summary = c.office.summary := by
          rcases forward_cases forwarder r.forward clerk.now c with ⟨result, m, hrun, -⟩ |
            ⟨result, done, letter, accepted, m, hrun, -⟩
          · rw [hforward] at hrun
            rw [(Prod.mk.inj hrun).2]
          · rw [hforward] at hrun
            rw [(Prod.mk.inj hrun).2]
            rfl
        rw [← hsummary]
        rcases outcome with e | (recipients | _)
        · exact ⟨[], .inl rfl, rfl⟩
        · exact ⟨_, .inr (.inl rfl), rfl⟩
        · exact ⟨[], .inl rfl, rfl⟩

/-- Saving fails and leaves everything as it is, or nothing is left to be written, and keywords that
were to be written are read back. -/
theorem save_of_rooted (hdry : clerk.dryRun = false) (h : c.IsRooted place f) :
    (∃ e m', clerk.save c = (.error e, ⟨c.office, m'⟩) ∧ m'.sight c.office.disk = c.sight ∧
      c.sight.edits ≠ [] ∧ ((∃ e', c.sight.header = .error e') ∨
        ¬ c.office.disk.HasRoomAt place c.message.entry.name)) ∨
    ∃ d' m' f', clerk.save c = (.ok (), ⟨{ c.office with disk := d' }, m'⟩) ∧ d'.Sound ∧
      m'.entry.Stands place f' d' ∧ m'.entry.folder = c.message.entry.folder ∧ m'.edits = [] ∧
      ∀ k : Keywords, k.IsClean → c.sight.Stages k →
        seenKeywords [] (readHeader f'.content) = .ok k := by
  rw [save_eq_discard hdry]
  rcases Message.save_of_stands h.sound h.stands with ⟨hedits, hsave⟩ |
    ⟨e, m', hsave, hsight, hedits, hwhy⟩ |
    ⟨bytes, header, d', m', id, hcontent, hheader, hsave, helse, hentry, hstands, hedits, -⟩
  · refine .inr ⟨_, _, f, run_discard_ok (liftM_run hsave), h.sound, h.stands, rfl, hedits, ?_⟩
    exact fun k _ hstages => absurd hedits hstages.dirty
  · refine .inl ⟨e, m', run_bind_error (liftM_run hsave), hsight, hedits, ?_⟩
    rcases hwhy with hcontent | hheader | hroom
    · have hcontent' : c.sight.content = .error e := hcontent
      have hheader := h.header
      rw [hcontent'] at hheader
      exact .inl ⟨e, hheader⟩
    · exact .inl ⟨e, hheader⟩
    · exact .inr hroom
  · refine .inr ⟨d', m', _, run_discard_ok (liftM_run hsave), helse.sound, hstands, ?_, hedits, ?_⟩
    · rw [hentry]
    · intro k hclean hstages
      have hcontent' : c.sight.content = .ok bytes := hcontent
      have hheader' : c.sight.header = .ok header := hheader
      have hread : readHeader bytes = .ok header := by
        have hfits := h.header
        rw [hheader', hcontent'] at hfits
        exact hfits.symm
      obtain ⟨header', hread', hvalues⟩ := h.plain.values_saved hread hheader'
      obtain ⟨vs, hvs, hsettles⟩ := hvalues _ isPlainName_keywords hstages.readsBack
      obtain rfl := Except.ok.inj (hstages.values.symm.trans hvs)
      have hwritten : readHeader (revise bytes header.bodyOffset c.message.edits) =
          .ok header' := hread'
      rw [hwritten, seenKeywords_ok, hclean.parse_values hsettles]

/-- Whether or not moving succeeds, the message has its file, and what was counted is so. -/
theorem move_reports (hdry : clerk.dryRun = false) (hd : c.office.disk.Sound)
    (h : c.message.entry.Stands place f c.office.disk) {target : Option Text}
    (hne : target ≠ some c.message.entry.folder.name) {result : Except Error Unit}
    (hrun : clerk.move target c = (result, c')) :
    c'.office.summary =
        c.office.summary.recordAll ((moveReports target result).map Report.action) ∧
      c'.message.edits = c.message.edits ∧ c'.office.disk.Sound ∧
      (∃ place', c'.message.entry.Stands place' f c'.office.disk) ∧
      ∀ x ∈ moveReports target result, x.IsSo clerk.maildir c'.office.disk c'.message.entry := by
  cases target with
  | none =>
    obtain ⟨rfl, rfl⟩ := Prod.mk.inj hrun
    exact ⟨rfl, rfl, hd, ⟨place, h⟩, by simp [moveReports]⟩
  | some g =>
    have hmove : clerk.move (some g) =
        (liftM (Message.moveTo (clerk.maildir.folder g)) : Handling Unit) >>=
          fun _ => Handling.record ("Moved " ++ g) := by
      simp only [Clerk.move, hdry, Bool.not_false, if_true]
    rw [hmove] at hrun
    have hdest : clerk.maildir.folder g ≠ c.message.entry.folder :=
      fun heq => hne (heq ▸ rfl)
    cases hmoved : Message.moveTo (clerk.maildir.folder g) ⟨c.office.disk, c.message⟩ with
    | mk outcome desk =>
      cases outcome with
      | error e =>
        obtain rfl : desk = ⟨c.office.disk, c.message⟩ := Message.moveTo_of_error hmoved
        rw [run_bind_error (liftM_run hmoved)] at hrun
        obtain ⟨rfl, rfl⟩ := Prod.mk.inj hrun
        exact ⟨rfl, rfl, hd, ⟨place, h⟩, by simp [moveReports]⟩
      | ok u =>
        rw [run_bind_ok (liftM_run hmoved)] at hrun
        obtain ⟨rfl, rfl⟩ := Prod.mk.inj hrun
        obtain ⟨place', hmessage, hd', hstands⟩ := Message.moveTo_of_ok hd h hdest hmoved
        have hstands' : desk.message.entry.Stands place' f desk.disk := by
          rw [hmessage]
          exact hstands
        refine ⟨rfl, ?_, hd', ⟨place', hstands'⟩, fun x hx => ?_⟩
        · show desk.message.edits = _
          rw [hmessage]
        · obtain rfl := List.mem_singleton.1 hx
          refine ⟨?_, f.content, hstands'.read hd'⟩
          show desk.message.entry.folder = _
          rw [hmessage]

/-! ## The whole rule -/

/-- Before the message is saved, the labels and the letters were counted, and the keywords are to be
written if the rule changes any. -/
theorem draft_reports (hdry : clerk.dryRun = false) (h : c.IsRooted place f)
    (hk : c.sight.keywords = .ok k) (hclean : k.IsClean) (htoken : ∀ l ∈ r.label, IsToken l)
    (hlabel : r.label ≠ [] → ∃ l ∈ r.label, k.contains l = false)
    (hclear : r.clear ≠ [] → ∃ l ∈ r.clear, k.contains l = true)
    (hforward : ∀ m ∈ r.forward, '\n' ∉ m.email) : ∃ c₂ letters,
    clerk.draft r c = (.ok (), c₂) ∧ c₂.IsRooted place f ∧ c₂.office.disk = c.office.disk ∧
      c₂.message.entry = c.message.entry ∧ c₂.sight.header = c.sight.header ∧
      r.MayReportLetters letters ∧
      c₂.office.summary =
        c.office.summary.recordAll ((r.labelReports ++ letters).map Report.action) ∧
      (r.label ≠ [] ∨ r.clear ≠ [] → c₂.sight.Stages (r.relabel k)) := by
  obtain ⟨m, hrelabel, hsight₁⟩ := relabel_run r hk
  generalize hc₁ : (⟨{ c.office with summary := r.countLabels c.office.summary }, m⟩ : Case) = c₁
    at hrelabel
  have hdisk₁ : c₁.office.disk = c.office.disk := by rw [← hc₁]
  have hsummary₁ : c₁.office.summary = r.countLabels c.office.summary := by rw [← hc₁]
  have hsight₁ : c₁.sight = c.sight.relabeled r k := by
    rw [← hc₁]
    exact hsight₁
  have hplain₁ : c₁.sight.IsPlain := by
    rw [hsight₁]
    exact (h.plain.insertAll hk fun l hl => (htoken l hl).lineFeed).eraseAll _ rfl
  obtain ⟨c₂, hpass, hdisk₂, hsight₂⟩ := passOn_run hdry r.forward c₁
  obtain ⟨letters, hletters, hsummary₂⟩ := passOn_reports hdry hpass
  -- passing on sets one field apart from the keywords, or none
  obtain ⟨hentry, hcontent, hheader, hplain₂, hkeeps⟩ : c₂.sight.entry = c.sight.entry ∧
      c₂.sight.content = c.sight.content ∧ c₂.sight.header = c.sight.header ∧
      c₂.sight.IsPlain ∧
      ∀ k' : Keywords, c₁.sight.Stages k' → c₂.sight.Stages k' := by
    rcases hsight₂ with hsame | ⟨done, hdone, hwritten⟩
    · rw [hsame]
      refine ⟨?_, ?_, ?_, hplain₁, fun _ hstages => hstages⟩
      all_goals rw [hsight₁]; rfl
    · rw [hwritten]
      refine ⟨?_, ?_, ?_, hplain₁.passedOn hdone hforward,
        fun _ hstages => hstages.withField _ forwardedField_ne⟩
      all_goals rw [hsight₁]; rfl
  refine ⟨c₂, letters, (run_bind_ok hrelabel).trans hpass,
    h.of_sight (hdisk₂.trans hdisk₁) hentry hcontent hheader hplain₂, hdisk₂.trans hdisk₁, hentry,
    hheader, hletters, ?_, fun hacts => hkeeps _ ?_⟩
  · rw [hsummary₂, hsummary₁, List.map_append, Summary.recordAll_append, ← Rule.countLabels_eq]
  · rw [hsight₁]
    exact Sight.stages_relabeled hclean htoken hlabel hclear hacts

/-- All that was counted for a rule is done, whether or not it was carried out with success, if
nothing is left to be written for the message.  Otherwise it could not be saved and the disk is as
before, and what was counted is done only for a rule without labels. -/
theorem apply_reports (clerk : Clerk) (hdry : clerk.dryRun = false) (hr : r.IsCompiled)
    (hspares : r.Spares r)
    (hlabel : ∀ l ∈ r.label, (∀ x ∈ l, isTokenBreak x = false) ∧ ¬ HasOpening l)
    (hforward : ∀ m ∈ r.forward, '\n' ∉ m.email) (hd : c.office.disk.Sound)
    (hstands : c.message.entry.Stands place f c.office.disk)
    (hheader : c.sight.header = c.sight.content.bind readHeader) (hedits : c.message.edits = [])
    (hclean : ∀ k, c.sight.keywords = .ok k → k.IsClean)
    (hpass : (r.verdict c.office.disk c.message).1 = .pass) {result : Except Error Unit}
    (hrun : clerk.apply r c = (result, c')) :
    ∃ reports, r.MayReport result reports ∧
      c'.office.summary = c.office.summary.recordAll (reports.map Report.action) ∧
      (c'.message.isDirty = false →
        ∀ x ∈ reports, x.IsSo clerk.maildir c'.office.disk c'.message.entry) ∧
      (c'.message.isDirty = true → (∃ e, result = .error e) ∧
        c'.office.disk = c.office.disk ∧ c'.message.entry = c.message.entry ∧
        ((∃ e, c.sight.header = .error e) ∨
          ¬ c.office.disk.HasRoomAt place c.message.entry.name) ∧
        ((Message.keywords c.office.disk (.ofEntry c.message.entry)).1 = c.sight.keywords →
          ((∀ x ∈ reports, x.IsSo clerk.maildir c'.office.disk c'.message.entry) ↔
            r.label = [] ∧ r.clear = []))) := by
  obtain ⟨k, hk, hadds, hremoves, hne⟩ : ∃ k, c.sight.keywords = .ok k ∧
      (r.label ≠ [] → ∃ l ∈ r.label, k.contains l = false) ∧
      (r.clear ≠ [] → ∃ l ∈ r.clear, k.contains l = true) ∧
      r.moveTo ≠ some c.message.entry.folder.name := by
    refine Sight.keywords_of_applies ?_
    have hverdict : c.sight.verdict r = .pass := (r.verdict_eq_sight _ _).symm.trans hpass
    rw [hverdict]
    rfl
  have htoken : ∀ l ∈ r.label, IsToken l :=
    fun l hl => ⟨⟨hr.label_ne_nil hl, (hlabel l hl).1⟩, (hlabel l hl).2⟩
  have hrooted : c.IsRooted place f := ⟨hd, hstands, hheader, .of_no_edits hedits hclean⟩
  obtain ⟨c₂, letters, hdraft, hrooted₂, hdisk, hentry, hheader₂, hletters, hsummary, hstages⟩ :=
    draft_reports hdry hrooted hk (hclean k hk) htoken hadds hremoves hforward
  rw [apply_eq_draft, run_bind_ok hdraft] at hrun
  rcases save_of_rooted hdry hrooted₂ with ⟨e, m', hsave, hsight, hdirty, hwhy⟩ |
    ⟨d', m', f', hsave, hd', hstands', hfolder, hsaved, hfresh⟩
  · -- the message could not be saved
    rw [run_bind_error hsave] at hrun
    obtain ⟨rfl, rfl⟩ := Prod.mk.inj hrun
    have hentry' : m'.entry = c.message.entry := (congrArg Sight.entry hsight).trans hentry
    have hnone : moveReports r.moveTo (.error e) = [] := rfl
    refine ⟨_, ⟨letters, hletters, rfl⟩, ?_, fun hno => ?_,
      fun _ => ⟨⟨e, rfl⟩, hdisk, hentry', ?_, fun hsame => ?_⟩⟩
    · rw [hnone, List.append_nil]
      exact hsummary
    · have hclean' : m'.edits = [] := by simpa [Message.isDirty] using hno
      exact absurd ((congrArg Sight.edits hsight).symm.trans hclean') hdirty
    · rw [← hdisk, ← hentry, ← hheader₂]
      exact hwhy
    · have hold : (Message.keywords c₂.office.disk (.ofEntry m'.entry)).1 = .ok k := by
        rw [hdisk, hentry']
        exact hsame.trans hk
      rw [hnone, List.append_nil, List.forall_mem_append,
        Rule.labelReports_so_iff (r := r) (M := clerk.maildir) hold hadds hremoves]
      exact and_iff_left hletters.so
  · -- nothing is left to be written, and then the message may be moved
    rw [run_bind_ok hsave] at hrun
    have hne' : r.moveTo ≠ some m'.entry.folder.name := by
      rw [hfolder, hentry]
      exact hne
    obtain ⟨hmoved, hedits', hd'', ⟨place', hstands''⟩, hthere⟩ :=
      move_reports hdry hd' hstands' hne' hrun
    refine ⟨_, ⟨letters, hletters, rfl⟩, ?_, fun _ => ?_, fun hdirty => ?_⟩
    · rw [hmoved, List.map_append, Summary.recordAll_append, ← hsummary]
    · rw [List.forall_mem_append, List.forall_mem_append]
      refine ⟨⟨Rule.labelReports_so (k := k) hspares fun hacts => ?_, hletters.so⟩, hthere⟩
      rw [Message.keywords_ofEntry_of_stands hd'' hstands'']
      exact hfresh _ (((hclean k hk).insertAll htoken).eraseAll r.clear) (hstages hacts)
    · have hnone : c'.message.edits = [] := hedits'.trans hsaved
      exact absurd hdirty (by simp [Message.isDirty, hnone])

end Clerk

/-! ### A rule that is carried out with and without a place to write -/

theorem filing_reports :
    (∃ c', filingPass.clerk.apply filingRule ⟨.ofDisk sampleDisk, .ofEntry (sampleSlot.entry [])⟩ =
        (.ok (), c') ∧
      (Report.labeled ["urgent"]).IsSo filingPass.clerk.maildir c'.office.disk c'.message.entry ∧
      (Report.moved "work").IsSo filingPass.clerk.maildir c'.office.disk c'.message.entry) ∧
    ∃ e c', filingPass.clerk.apply filingRule ⟨.ofDisk bareDisk, .ofEntry (sampleSlot.entry [])⟩ =
        (.error e, c') ∧
      c'.office.summary.count (Report.action (.labeled ["urgent"])) = 1 ∧
      ¬ (Report.labeled ["urgent"]).IsSo filingPass.clerk.maildir c'.office.disk
        c'.message.entry := by
  have hlabels : filingRule.labelReports = [.labeled ["urgent"]] := rfl
  have hspares : filingRule.Spares filingRule := fun l hl x hx => absurd hx List.not_mem_nil
  have htoken : ∀ l ∈ filingRule.label, IsToken l := by decide
  have hwords : ∀ l ∈ filingRule.label, (∀ x ∈ l, isTokenBreak x = false) ∧ ¬ HasOpening l :=
    fun l hl => ⟨(htoken l hl).1.2, (htoken l hl).2⟩
  have hstands : ∀ {d : Disk}, d.resolve ["INBOX"] = .ok ["INBOX"] →
      d.item? ["INBOX", "cur", "1.a:2,S"] = some (.file ⟨0, sampleLetter, 0⟩) →
      (sampleSlot.entry []).Stands ["INBOX"] ⟨0, sampleLetter, 0⟩ d :=
    fun hfolder hfile => ⟨sampleSlot.isName_name, hfolder, hfile⟩
  have hfresh : ∀ {d : Disk}, d.Sound →
      (sampleSlot.entry []).Stands ["INBOX"] ⟨0, sampleLetter, 0⟩ d →
      Case.sight ⟨.ofDisk d, .ofEntry (sampleSlot.entry [])⟩ =
        .ofFile (sampleSlot.entry []) sampleLetter :=
    fun hd h => Message.sight_ofEntry_of_stands hd h
  have happly := fun (d : Disk) (hd : d.Sound)
      (h : (sampleSlot.entry []).Stands ["INBOX"] ⟨0, sampleLetter, 0⟩ d)
      (hpass : (filingRule.verdict d (.ofEntry (sampleSlot.entry []))).1 = .pass)
      {result : Except Error Unit} {c' : Case} (hrun : filingPass.clerk.apply filingRule
        ⟨.ofDisk d, .ofEntry (sampleSlot.entry [])⟩ = (result, c')) =>
    Clerk.apply_reports (r := filingRule) (c := ⟨.ofDisk d, .ofEntry (sampleSlot.entry [])⟩)
      filingPass.clerk rfl ⟨filingRaw, 0, rfl⟩ hspares hwords (by decide)
      hd h (by rw [hfresh hd h]; rfl) rfl (fun k hk => by
        rw [hfresh hd h] at hk
        exact (keepsKeywords_sampleLetter.exists_header hk).1) hpass hrun
  constructor
  · have hresult : (filingPass.clerk.apply filingRule
        ⟨.ofDisk sampleDisk, .ofEntry (sampleSlot.entry [])⟩).1.toBool = true := by decide +kernel
    have hclean : (filingPass.clerk.apply filingRule
        ⟨.ofDisk sampleDisk, .ofEntry (sampleSlot.entry [])⟩).2.message.isDirty = false := by
      decide +kernel
    cases hrun : filingPass.clerk.apply filingRule
        ⟨.ofDisk sampleDisk, .ofEntry (sampleSlot.entry [])⟩ with
    | mk result c' =>
      rw [hrun] at hresult hclean
      cases result with
      | error e => exact absurd hresult (by simp [Except.toBool])
      | ok u =>
        obtain ⟨reports, ⟨letters, -, rfl⟩, -, hso, -⟩ := happly sampleDisk sound_sampleDisk
          (hstands rfl rfl) (by decide +kernel) hrun
        refine ⟨c', rfl, hso hclean _ ?_, hso hclean _ ?_⟩
        · simp [hlabels]
        · simp [moveReports, filingRule]
  · have hfails : (filingPass.clerk.apply filingRule
        ⟨.ofDisk bareDisk, .ofEntry (sampleSlot.entry [])⟩).1.toBool = false := by decide +kernel
    have hdirty : (filingPass.clerk.apply filingRule
        ⟨.ofDisk bareDisk, .ofEntry (sampleSlot.entry [])⟩).2.message.isDirty = true := by
      decide +kernel
    have hcount : (filingPass.clerk.apply filingRule
        ⟨.ofDisk bareDisk, .ofEntry (sampleSlot.entry [])⟩).2.office.summary.count
          (Report.action (.labeled ["urgent"])) = 1 := by
      decide +kernel
    cases hrun : filingPass.clerk.apply filingRule
        ⟨.ofDisk bareDisk, .ofEntry (sampleSlot.entry [])⟩ with
    | mk result c' =>
      rw [hrun] at hfails hdirty hcount
      cases result with
      | ok u => exact absurd hfails (by simp [Except.toBool])
      | error e =>
        obtain ⟨reports, ⟨letters, hletters, rfl⟩, -, -, hunsaved⟩ := happly bareDisk sound_bareDisk
          (hstands rfl rfl) (by decide +kernel) hrun
        obtain ⟨-, -, -, -, hiff⟩ := hunsaved hdirty
        refine ⟨e, c', rfl, hcount, fun hso => ?_⟩
        have hall := (hiff ((Message.reads_keywords _ _).1)).1 fun x hx => ?_
        · exact absurd hall.1 (by decide)
        · rw [hlabels, moveReports, List.append_nil, List.mem_append] at hx
          rcases hx with hx | hx
          · rw [List.mem_singleton.1 hx]
            exact hso
          · exact hletters.so x hx

end Mailroom
