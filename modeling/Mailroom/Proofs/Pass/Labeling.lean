import Mailroom.Proofs.Clerk
import Mailroom.Proofs.Message.Relabeling
import Mailroom.Proofs.Message.Staying

/-!
# Carrying out rules that only label

A rule that neither passes on nor moves changes the keywords of a message and writes them.  Where
there is room to write, nothing of that fails, and what is seen of the message afterwards is what
stands in its file.

* `AtRest` is a message of which nothing is left to write.
* `Clerk.apply_labels` is one rule, and `Pass.carryOut_settles` any number of them: none of them
  is for the message afterwards.
-/

namespace Mailroom

variable {root place : Path} {s : Slot} {f : File} {v : Sight} {k : Keywords}

/-! ## Keywords to be written -/

/-- The keywords of a message, with nothing to be written but the field that is theirs. -/
structure Sight.IsStaged (v : Sight) (k : Keywords) : Prop where
  /-- The keywords that are seen. -/
  keywords : v.keywords = .ok k
  /-- They are those of the header block, or they are to be written. -/
  edits : (v.edits = [] ∧ seenKeywords [] v.header = .ok k) ∨
    v.edits = [⟨Keywords.fieldName, k.render⟩]

/-- A change of the keywords is to be written, unless it is none. -/
theorem Sight.IsStaged.withKeywords {change : Keywords × Bool} (h : v.IsStaged k)
    (hsame : change.2 = false → change.1 = k) : (v.withKeywords change).IsStaged change.1 := by
  refine ⟨rfl, ?_⟩
  cases hchange : change.2 with
  | false =>
    have hedits : (v.withKeywords change).edits = v.edits := by simp [Sight.withKeywords, hchange]
    rw [hedits, hsame hchange]
    exact h.edits
  | true =>
    refine Or.inr ?_
    have hname : Text.sameName Keywords.fieldName Keywords.fieldName = true := sameName_self _
    rcases h.edits with ⟨hedits, -⟩ | hedits
    · simp [Sight.withKeywords, hchange, hedits, Mailroom.withField]
    · simp [Sight.withKeywords, hchange, hedits, Mailroom.withField, hname]

/-! ## Messages at rest -/

/-- Whether the keywords that a message holds can be read back when they are written anew. -/
def KeepsKeywords (content : Bytes) : Prop :=
  ∀ header, readHeader content = .ok header → ∀ x ∈ header.values Keywords.fieldName, ¬ HasOpening x

/-- If such keywords can be read, so can the header block, and they are clean. -/
theorem KeepsKeywords.exists_header {content : Bytes} (h : KeepsKeywords content)
    (hk : seenKeywords [] (readHeader content) = .ok k) :
    k.IsClean ∧ ∃ header, readHeader content = .ok header := by
  obtain ⟨header, hread, rfl⟩ := seenKeywords_eq_ok.1 hk
  exact ⟨Keywords.IsClean.parse (h header hread), header, hread⟩

/-- A message with nothing left to write, which can be written anew. -/
structure AtRest (root place : Path) (s : Slot) (f : File) (d : Disk) (v : Sight) : Prop where
  /-- The disk is sound. -/
  sound : d.Sound
  /-- The maildir is there. -/
  resolve : d.resolve root = .ok place
  /-- The file is at the slot. -/
  file : d.item? (place ++ s.names) = some (.file f)
  /-- The message is seen as it is in its file. -/
  sight : v = .ofFile (s.entry root) f.content
  /-- There is room to write it anew. -/
  room : s.HasRoom place d
  /-- Its keywords can be read back. -/
  keeps : KeepsKeywords f.content

namespace AtRest

variable {d : Disk} (h : AtRest root place s f d v)

include h

theorem at_slot : Message.At root place s f d v := by
  rw [h.sight]
  exact .ofFile h.sound h.resolve h.file

theorem isStaged (hk : v.keywords = .ok k) : v.IsStaged k := by
  refine ⟨hk, Or.inl ?_⟩
  rw [h.sight] at hk ⊢
  exact ⟨rfl, hk⟩

/-- If the keywords can be read, so can the header block, and they are clean. -/
theorem exists_header (hk : v.keywords = .ok k) :
    k.IsClean ∧ ∃ header, readHeader f.content = .ok header := by
  rw [h.sight] at hk
  exact h.keeps.exists_header hk

end AtRest

/-- What is remembered of a message with nothing to write is what stands in its file. -/
theorem eq_ofFile {d : Disk} (h : Message.At root place s f d v) (hedits : v.edits = [])
    (hk : v.keywords = seenKeywords [] (readHeader f.content)) :
    v = .ofFile (s.entry root) f.content := by
  obtain ⟨entry, content, header, keywords, edits⟩ := v
  obtain rfl : entry = s.entry root := h.entry
  obtain rfl : content = .ok f.content := h.content
  obtain rfl : header = readHeader f.content := h.header
  obtain rfl : edits = [] := hedits
  obtain rfl : keywords = seenKeywords [] (readHeader f.content) := hk
  rfl

/-! ## Saving keywords -/

namespace Sight.IsStaged

variable (h : v.IsStaged k)

include h

theorem isPlain (hclean : k.IsClean) : v.IsPlain := by
  have hlineFeed : ∀ n ∈ k.toList, '\n' ∉ n := fun n hn => (hclean n hn).2.lineFeed
  refine ⟨?_, ?_, ?_, fun k' hk' => ?_⟩
  · intro e he
    rcases h.edits with ⟨hedits, -⟩ | hedits
    · simp [hedits] at he
    · rw [hedits] at he
      obtain rfl := List.mem_singleton.1 he
      exact ⟨isPlainName_keywords.1, fun c hc => (isPlainName_keywords.2 c hc).2,
        hclean.readsBack.lineFeed⟩
  · intro e he
    rcases h.edits with ⟨hedits, -⟩ | hedits
    · simp [hedits] at he
    · rw [hedits] at he
      obtain rfl := List.mem_singleton.1 he
      exact isPlainName_keywords
  · rcases h.edits with ⟨hedits, -⟩ | hedits <;> simp [hedits]
  · obtain rfl : k = k' := Except.ok.inj (h.keywords.symm.trans hk')
    exact hlineFeed

/-- No other field is to get a new value. -/
theorem values {name : Text} (hother : Text.sameName Keywords.fieldName name = false) :
    v.values name = v.header.map (fun header => header.values name) := by
  refine Sight.values_of_unedited ?_
  rcases h.edits with ⟨hedits, -⟩ | hedits
  · simp [hedits]
  · simp [hedits, hother]

/-- New values that are to be written read back. -/
theorem readsBack (hclean : k.IsClean) {name : Text} :
    ∀ e ∈ v.edits, Text.sameName e.name name = true → ReadsBack e.value := by
  intro e he _
  rcases h.edits with ⟨hedits, -⟩ | hedits
  · simp [hedits] at he
  · rw [hedits] at he
    obtain rfl := List.mem_singleton.1 he
    exact hclean.readsBack

end Sight.IsStaged

/-- What was written for the keywords is what is read of their field, and the other fields are as
they were. -/
theorem values_written {header : Header} (h : v.IsStaged k) (hclean : k.IsClean)
    (hread : readHeader f.content = .ok header) (hheader : v.header = readHeader f.content)
    (hedits : v.edits ≠ []) :
    ∃ header', readHeader (revise f.content header.bodyOffset v.edits) = .ok header' ∧
      header'.values Keywords.fieldName = (if k.render.isEmpty then [] else [k.render]) ∧
      ∀ name, IsPlainName name → Text.sameName Keywords.fieldName name = false →
        SettlesTo (header.values name) (header'.values name) := by
  obtain ⟨header', hread', hvalues⟩ :=
    (h.isPlain hclean).values_saved hread (hheader.trans hread)
  have hstaged : v.values Keywords.fieldName =
      .ok (if k.render.isEmpty then [] else [k.render]) := by
    have hname : Text.sameName Keywords.fieldName Keywords.fieldName = true := sameName_self _
    simp [Sight.values, seenValues, h.edits.resolve_left fun hno => hedits hno.1, hname]
  obtain ⟨vs, hvs, hsettles⟩ := hvalues _ isPlainName_keywords (h.readsBack hclean)
  obtain rfl := Except.ok.inj (hstaged.symm.trans hvs)
  refine ⟨header', hread', eq_of_settlesTo hsettles, fun name hname hother => ?_⟩
  obtain ⟨us, hus, hsettles'⟩ := hvalues name hname (h.readsBack hclean)
  rw [h.values hother, hheader, hread] at hus
  obtain rfl : header.values name = us := Except.ok.inj hus
  exact hsettles'

/-- Keywords that were written are read back, and the other fields are as they were. -/
theorem exists_written {header : Header} (h : v.IsStaged k) (hclean : k.IsClean)
    (hread : readHeader f.content = .ok header) (hheader : v.header = readHeader f.content)
    (hedits : v.edits ≠ []) :
    ∃ header', readHeader (revise f.content header.bodyOffset v.edits) = .ok header' ∧
      (∀ x ∈ header'.values Keywords.fieldName, ¬ HasOpening x) ∧
      Keywords.parse (Text.join ", " (header'.values Keywords.fieldName)) = k ∧
      ∀ name, IsPlainName name → Text.sameName Keywords.fieldName name = false →
        SettlesTo (header.values name) (header'.values name) := by
  obtain ⟨header', hread', hvalues, hothers⟩ := values_written h hclean hread hheader hedits
  have hsettles : SettlesTo (if k.render.isEmpty then [] else [k.render])
      (header'.values Keywords.fieldName) := Or.inl hvalues
  exact ⟨header', hread', hclean.not_hasOpening_values hsettles, hclean.parse_values hsettles,
    hothers⟩

/-! ## One rule -/

/-- The summary after labels were added or removed.  Without labels, nothing is counted. -/
def Summary.recordLabels (s : Summary) (deed : Text) (labels : List Text) : Summary :=
  if labels.isEmpty then s else s.record (deed ++ Text.join ", " labels)

/-- The summary after a rule has added and removed its labels. -/
def Rule.countLabels (r : Rule) (s : Summary) : Summary :=
  (s.recordLabels "Labeled " r.label).recordLabels "Cleared " r.clear

/-- What is seen of a message of some keywords after a rule has added and removed its labels. -/
def Sight.relabeled (v : Sight) (r : Rule) (k : Keywords) : Sight :=
  (v.withKeywords (k.insertAll r.label)).withKeywords ((k.insertAll r.label).1.eraseAll r.clear)

theorem Message.At.relabeled {d : Disk} (h : Message.At root place s f d v) (r : Rule)
    (k : Keywords) : Message.At root place s f d (v.relabeled r k) :=
  (h.withKeywords _).withKeywords _

/-- The keywords that come of it are to be written. -/
theorem Sight.IsStaged.relabeled (h : v.IsStaged k) (r : Rule) :
    (v.relabeled r k).IsStaged (r.relabel k) :=
  (h.withKeywords (Keywords.insertAll_eq_self k r.label)).withKeywords
    (Keywords.eraseAll_eq_self _ r.clear)

/-- What comes of work on a message at rest that does not fail: the message is at rest again, and
nothing else has changed. -/
structure Rested (root place : Path) (s : Slot) (c c' : Case) (f' : File) : Prop where
  /-- The message is at rest. -/
  atRest : AtRest root place s f' c'.office.disk c'.sight
  /-- The other messages are as they were. -/
  elsewhere : c.office.disk.Elsewhere [place ++ s.names, place ++ s.temporary] c'.office.disk
  /-- Nothing was sent. -/
  submissions : c'.office.submissions = c.office.submissions

theorem Rested.trans {c c₁ c₂ : Case} {f₁ f₂ : File} (h₁ : Rested root place s c c₁ f₁)
    (h₂ : Rested root place s c₁ c₂ f₂) : Rested root place s c c₂ f₂ :=
  ⟨h₂.atRest, h₁.elsewhere.trans h₂.elsewhere, h₂.submissions.trans h₁.submissions⟩

namespace Clerk

variable {c : Case}

/-- Changing keywords that can be read. -/
theorem changeKeywords_run (change : Keywords → Keywords × Bool) (hk : c.sight.keywords = .ok k)
    (action : Text) : ∃ m, (do
        discard (Reading.toEditing (Message.changeKeywords change) : Handling Bool)
        Handling.record action : Handling Unit) c =
        (.ok (), ⟨{ c.office with summary := c.office.summary.record action }, m⟩) ∧
      m.sight c.office.disk = c.sight.withKeywords (change k) := by
  obtain ⟨m, hrun, hsight⟩ := Message.changeKeywords_run change hk
  have hlook : (Message.changeKeywords change).toEditing ⟨c.office.disk, c.message⟩ =
      (.ok (change k).2, ⟨c.office.disk, m⟩) := by
    rw [Message.toEditing_run, hrun]
  refine ⟨m, ?_, hsight⟩
  rw [run_bind_ok (run_discard_ok (liftM_run hlook))]
  rfl

theorem addLabels_run (labels : List Text) (hk : c.sight.keywords = .ok k) : ∃ m,
    addLabels labels c = (.ok (), ⟨{ c.office with
        summary := c.office.summary.recordLabels "Labeled " labels }, m⟩) ∧
      m.sight c.office.disk = c.sight.withKeywords (k.insertAll labels) := by
  cases labels with
  | nil =>
    refine ⟨c.message, rfl, ?_⟩
    simp only [Sight.withKeywords, Keywords.insertAll, List.foldl_nil]
    rw [← hk]
    rfl
  | cons l labels => exact changeKeywords_run (·.insertAll (l :: labels)) hk _

theorem removeLabels_run (labels : List Text) (hk : c.sight.keywords = .ok k) : ∃ m,
    removeLabels labels c = (.ok (), ⟨{ c.office with
        summary := c.office.summary.recordLabels "Cleared " labels }, m⟩) ∧
      m.sight c.office.disk = c.sight.withKeywords (k.eraseAll labels) := by
  cases labels with
  | nil =>
    refine ⟨c.message, rfl, ?_⟩
    simp only [Sight.withKeywords, Keywords.eraseAll, List.foldl_nil]
    rw [← hk]
    rfl
  | cons l labels => exact changeKeywords_run (·.eraseAll (l :: labels)) hk _

/-- Adding and removing the labels of a rule. -/
theorem relabel_run (r : Rule) (hk : c.sight.keywords = .ok k) : ∃ m,
    (do addLabels r.label; removeLabels r.clear : Handling Unit) c =
        (.ok (), ⟨{ c.office with summary := r.countLabels c.office.summary }, m⟩) ∧
      m.sight c.office.disk = c.sight.relabeled r k := by
  obtain ⟨m₁, hrun₁, hsight₁⟩ := addLabels_run r.label hk
  obtain ⟨m₂, hrun₂, hsight₂⟩ := removeLabels_run r.clear
    (c := ⟨{ c.office with summary := c.office.summary.recordLabels "Labeled " r.label }, m₁⟩)
    (congrArg Sight.keywords hsight₁)
  exact ⟨m₂, (run_bind_ok hrun₁).trans hrun₂,
    hsight₂.trans (congrArg (Sight.withKeywords · _) hsight₁)⟩

/-- Saving keywords that are staged brings the message to rest. -/
theorem save_staged {clerk : Clerk} (hdry : clerk.dryRun = false) {header : Header}
    (hat : Message.At root place s f c.office.disk c.sight)
    (hroom : s.HasRoom place c.office.disk) (hkeeps : KeepsKeywords f.content)
    (hread : readHeader f.content = .ok header) (hstaged : c.sight.IsStaged k)
    (hclean : k.IsClean) :
    ∃ c' f', clerk.save c = (.ok (), c') ∧ Rested root place s c c' f' ∧
      c'.sight.keywords = .ok k ∧ c.sight.KeepsFields c'.sight := by
  rw [save_eq_discard hdry]
  have hvalues : ∀ name, Text.sameName Keywords.fieldName name = false →
      c.sight.values name = .ok (header.values name) := by
    intro name hother
    rw [hstaged.values hother, hat.header, hread]
    rfl
  rcases Message.save_cases hat with ⟨hedits, hrun⟩ | ⟨-, e, m', -, -, hwhy⟩ |
    ⟨hedits, header', d', m', id, hread', hrun, helse, hitem, hat', hedits', hkeywords, -⟩
  · -- nothing is to be written: the keywords are those of the file
    have hseen : seenKeywords [] (readHeader f.content) = .ok k := by
      rcases hstaged.edits with ⟨-, hseen⟩ | hwritten
      · rw [← hat.header]
        exact hseen
      · exact absurd (hwritten.symm.trans hedits) (by simp)
    have hsight := eq_ofFile hat hedits (hstaged.keywords.trans hseen.symm)
    exact ⟨c, f, run_discard_ok (liftM_run hrun),
      ⟨⟨hat.sound, hat.resolve, hat.file, hsight, hroom, hkeeps⟩, .refl _ hat.sound, rfl⟩,
      hstaged.keywords, rfl,
      fun name _ hother => ⟨_, _, hvalues name hother, hvalues name hother, Or.inl rfl⟩⟩
  · exfalso
    rcases hwhy with ⟨e', he'⟩ | hno
    · rw [hread] at he'
      exact absurd he' (by simp)
    · exact hno hroom
  · obtain rfl : header = header' := Except.ok.inj (hread.symm.trans hread')
    obtain ⟨written, hwritten, hopening, hparse, hsettles⟩ :=
      exists_written hstaged hclean hread hat.header hedits
    have hseen : seenKeywords [] (readHeader (revise f.content header.bodyOffset c.sight.edits)) =
        .ok k := by
      rw [hwritten, seenKeywords_ok, hparse]
    have hkeywords' : (m'.sight d').keywords = .ok k := by
      rcases hkeywords with heq | heq
      · exact heq.trans hstaged.keywords
      · exact heq.trans hseen
    have hsight := eq_ofFile hat' hedits' (hkeywords'.trans hseen.symm)
    refine ⟨_, _, run_discard_ok (liftM_run hrun), ⟨⟨hat'.sound, hat'.resolve, hitem, hsight,
      hroom.of_folders helse.folders, ?_⟩, helse, rfl⟩, hkeywords', ?_, fun name hname hother =>
        ⟨_, _, hvalues name hother, ?_, hsettles name hname hother⟩⟩
    · intro header'' hread''
      obtain rfl := Except.ok.inj (hwritten.symm.trans hread'')
      exact hopening
    · exact hat'.entry.trans hat.entry.symm
    · show (m'.sight d').values name = _
      rw [Sight.values, show (m'.sight d').edits = [] from hedits', hat'.header]
      exact (congrArg (seenValues [] · name) hwritten).trans (seenValues_ok written name)

/-- Labels first, then the letter, then the file. -/
theorem apply_eq (clerk : Clerk) (r : Rule) : clerk.apply r =
    (do addLabels r.label; removeLabels r.clear) >>= fun _ =>
      clerk.passOn r.forward >>= fun _ => clerk.save >>= fun _ => clerk.move r.moveTo := by
  rw [bind_assoc]
  rfl

/-- A rule that only labels brings a message at rest to rest again, with the keywords changed. -/
theorem apply_labels (clerk : Clerk) (hdry : clerk.dryRun = false) {r : Rule}
    (hlabel : ∀ l ∈ r.label, IsToken l) (hforward : r.forward = []) (hmove : r.moveTo = none)
    (hrest : AtRest root place s f c.office.disk c.sight) (hk : c.sight.keywords = .ok k) :
    ∃ c' f', clerk.apply r c = (.ok (), c') ∧ Rested root place s c c' f' ∧
      c'.sight.keywords = .ok (r.relabel k) ∧ c.sight.KeepsFields c'.sight := by
  obtain ⟨hclean, header, hread⟩ := hrest.exists_header hk
  have hstaged := hrest.isStaged hk
  obtain ⟨m, hrun, hsight⟩ := relabel_run r hk
  have hstaged' : (m.sight c.office.disk).IsStaged (r.relabel k) := hsight ▸ hstaged.relabeled r
  have hat' : Message.At root place s f c.office.disk (m.sight c.office.disk) :=
    hsight ▸ hrest.at_slot.relabeled r k
  obtain ⟨c', f', hsave, hrested, hkeywords, hfields⟩ := save_staged
    (c := ⟨{ c.office with summary := r.countLabels c.office.summary }, m⟩) hdry hat'
    hrest.room hrest.keeps hread hstaged' ((hclean.insertAll hlabel).eraseAll r.clear)
  refine ⟨c', f', ?_, ⟨hrested.atRest, hrested.elsewhere, hrested.submissions⟩, hkeywords,
    hfields.entry.trans (hat'.entry.trans hrest.at_slot.entry.symm), fun name hname hother => ?_⟩
  · rw [apply_eq, run_bind_ok hrun, hforward, hmove]
    exact (run_bind_ok hsave).trans rfl
  · obtain ⟨vs, vs', hvs, hvs', hsettles⟩ := hfields.values name hname hother
    refine ⟨vs, vs', ?_, hvs', hsettles⟩
    rw [hstaged.values hother, hrest.at_slot.header, ← hat'.header, ← hvs]
    exact (hstaged'.values hother).symm

end Clerk

/-! ## Any number of rules -/

/-- What a rule has to be like to do nothing but label, and nothing a second time. -/
structure Rule.OnlyLabels (r : Rule) : Prop where
  /-- The labels that it adds can be read back. -/
  label : ∀ l ∈ r.label, IsToken l
  /-- It passes nothing on. -/
  forward : r.forward = []
  /-- It moves nothing. -/
  moveTo : r.moveTo = none
  /-- It adds or removes a label. -/
  acts : r.label ≠ [] ∨ r.clear ≠ []
  /-- It looks at fields only. -/
  looks : r.LooksAtFields

namespace Pass

variable {p : Pass} {used : Rule → Prop}

/-- When some rules were carried out as far as they are for a message, none of them is for it any
more, and neither is any rule that was not for it before. -/
theorem carryOut_settles (hdry : p.dryRun = false) (hlabels : ∀ r, used r → r.OnlyLabels)
    (hspares : ∀ r r', used r → used r' → r.Spares r') (rules : List Rule)
    (hrules : ∀ r ∈ rules, used r) {c : Case}
    (hrest : AtRest root place s f c.office.disk c.sight) :
    ∃ c' f', p.carryOut rules c = (.ok (), c') ∧ Rested root place s c c' f' ∧
      (∀ r ∈ rules, (c'.sight.verdict r).applies = false) ∧
      ∀ r, used r → (c.sight.verdict r).applies = false →
        (c'.sight.verdict r).applies = false := by
  induction rules generalizing c f with
  | nil => exact ⟨c, f, rfl, ⟨hrest, .refl _ hrest.sound, rfl⟩, by simp, fun _ _ h => h⟩
  | cons r rules ih =>
    have hr := hrules r (by simp)
    have hothers : ∀ r' ∈ rules, used r' := fun r' hr' => hrules r' (by simp [hr'])
    obtain ⟨m, hsight, hrun⟩ := carryOut_cons (p := p) r rules c
    have hsame : Case.sight ⟨c.office, m⟩ = c.sight := hsight
    have hrest₀ : AtRest root place s f c.office.disk (Case.sight ⟨c.office, m⟩) := hsame ▸ hrest
    rw [hrun]
    cases happlies : (c.sight.verdict r).applies with
    | false =>
      obtain ⟨c', f', hrun', hrested, hdone, hkeep⟩ :=
        ih hothers (c := ⟨c.office, m⟩) hrest₀
      rw [hsame] at hkeep
      refine ⟨c', f', hrun', ⟨hrested.1, hrested.2, hrested.3⟩, fun r' hr' => ?_, hkeep⟩
      rcases List.mem_cons.1 hr' with rfl | hr'
      · exact hkeep r' hr happlies
      · exact hdone r' hr'
    | true =>
      -- the keywords can be read, as the rule is for the message
      obtain ⟨k, hk, -⟩ := Sight.keywords_of_applies happlies
      obtain ⟨c₁, f₁, hrun₁, hrested₁, hk₁, hfields₁⟩ := Clerk.apply_labels p.clerk
        (c := ⟨c.office, m⟩) hdry (hlabels r hr).label (hlabels r hr).forward
        (hlabels r hr).moveTo hrest₀ (hsame ▸ hk)
      rw [hsame] at hfields₁
      obtain ⟨c', f', hrun', hrested, hdone, hkeep⟩ := ih hothers hrested₁.atRest
      refine ⟨c', f', ?_, ?_, fun r' hr' => ?_, fun r' hr' hnot => hkeep r' hr' ?_⟩
      · rw [if_pos rfl, run_bind_ok hrun₁]
        exact hrun'
      · have hall := hrested₁.trans hrested
        exact ⟨hall.1, hall.2, hall.3⟩
      · rcases List.mem_cons.1 hr' with rfl | hr'
        · exact hkeep r' hr
            (Sight.not_applies_relabeled hk₁ (hspares r' r' hr hr) (hlabels r' hr).acts)
        · exact hdone r' hr'
      · rw [← Bool.not_eq_true] at hnot ⊢
        exact fun hyes => hnot (Sight.applies_of_relabeled hfields₁ hk hk₁ happlies
          (hspares r r' hr hr') (hspares r' r hr' hr) (hlabels r' hr').looks hyes)

end Pass

end Mailroom
