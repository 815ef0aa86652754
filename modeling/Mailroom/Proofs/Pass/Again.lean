import Mailroom.Proofs.Pass.Coverage
import Mailroom.Proofs.Pass.Labeling
import Mailroom.Proofs.Rule

/-!
# A pass that is made again

After a pass with rules that only label, another pass with the same rules at the same time does
nothing: what every rule was for has been done, and no rule undoes it.

* `Pass.Spent` says of a message that no rule is for it any more.
* `Pass.smooth_labels` says that the first pass leaves every message spent that it meets.
* `Pass.run_again` is the result.
-/

namespace Mailroom

namespace Pass

variable {p : Pass} {place : Path} {d₀ : Disk}

/-! ## Passes that do nothing -/

/-- A pass that leaves alone every message that it meets does nothing. -/
theorem run_idle {o : Office} (hd : o.disk.Sound) (hroot : o.disk.resolve p.maildir.root = .ok place)
    {fs : List Folder} (hfs : p.maildir.folders o.disk = .ok fs)
    (hidle : ∀ s, p.Meets place (· = o) o s → ((p.handle (p.rulebook.rulesFor s.folder)).onMessage
      (.ofEntry (s.entry p.maildir.root)) o).2 = o) : p.run o = (.ok (), o) := by
  have hplace : ∀ o', o' = o → o'.disk.Sound ∧ o'.disk.resolve p.maildir.root = .ok place := by
    rintro o' rfl
    exact ⟨hd, hroot⟩
  have hoffice : (p.run o).2 = o := by
    refine keeps_run (K := (· = o)) hplace ?_ o rfl
    rintro o' s rfl hmeets
    exact hidle s hmeets
  exact Prod.ext (run_eq_ok hfs) hoffice

/-- Whether a message counts as recent depends on its file only. -/
theorem isRecent_congr {s : Slot} {d d' : Disk} {f : File} (hd : d.Sound) (hd' : d'.Sound)
    (hroot : d.resolve p.maildir.root = .ok place) (hroot' : d'.resolve p.maildir.root = .ok place)
    (hf : d.item? (place ++ s.names) = some (.file f))
    (hf' : d'.item? (place ++ s.names) = some (.file f)) :
    p.isRecent d' (s.entry p.maildir.root) = p.isRecent d (s.entry p.maildir.root) := by
  rw [isRecent_of_file hd hroot hf, isRecent_of_file hd' hroot' hf']

/-! ## The first pass -/

/-- Where no rule moves messages, nothing follows the rules of the folder. -/
theorem handle_run_of_no_moves (hmoves : ∀ r ∈ p.rules, r.moveTo = none) {rules : List Rule}
    {c c' : Case} (hrun : p.carryOut rules c = (.ok (), c')) :
    p.handle rules c = (.ok (), c') := by
  have hnone : p.rules.filterMap Rule.moveTo = [] := List.filterMap_eq_nil_iff.2 hmoves
  have hget : ∀ c, (getThe Case : Handling Case) c = (.ok c, c) := fun _ => rfl
  rw [Pass.handle, run_bind_ok (hget c), run_bind_ok hrun, Pass.destinations, hnone]
  have hempty : (TextSet.ofList []).toList.erase c.message.folder = [] := rfl
  rw [hempty, Pass.follow, run_bind_ok (hget c'), dif_neg List.not_mem_nil]
  rfl

/-- Whether no rule is for a message that counts as recent. -/
def Spent (p : Pass) (place : Path) (s : Slot) (o : Office) : Prop :=
  p.isRecent o.disk (s.entry p.maildir.root) = true →
    ∀ f, o.disk.item? (place ++ s.names) = some (.file f) → ∀ r ∈ p.rulebook.rulesFor s.folder,
      ((Sight.ofFile (s.entry p.maildir.root) f.content).verdict r).applies = false

/-- The office while nothing is sent and all keywords can be read back. -/
structure Calm (p : Pass) (place : Path) (d₀ : Disk) (o : Office) : Prop where
  /-- The messages stay where they are. -/
  stays : Stays p.maildir.root place d₀ o.disk
  /-- Nothing was sent. -/
  submissions : o.submissions = []
  /-- The keywords of all messages can be read back. -/
  keeps : ∀ (s : Slot) (f : File), Listed place d₀ s.folder →
    o.disk.item? (place ++ s.names) = some (.file f) → KeepsKeywords f.content

section Rules

variable (hlabels : ∀ r, IsUsed p.rules p.now r → r.OnlyLabels)
  (hspares : ∀ r r', IsUsed p.rules p.now r → IsUsed p.rules p.now r' → r.Spares r')

include hlabels hspares

/-- Handling a message leaves it spent. -/
theorem covers_handle (hdry : p.dryRun = false) (hmoves : ∀ r ∈ p.rules, r.moveTo = none)
    {s : Slot} (hlisted : Listed place d₀ s.folder) (htaken : s.IsTaken place d₀)
    (hroom : s.HasRoom place d₀) :
    Covers (p.Calm place d₀) (p.Spent place) (· = s)
      ((p.handle (p.rulebook.rulesFor s.folder)).onMessage (.ofEntry (s.entry p.maildir.root))) := by
  intro o ho
  have hd := ho.stays.sound
  have hroot := ho.stays.resolve
  obtain ⟨f, hf⟩ := (ho.stays.taken s).2 htaken
  let c : Case := ⟨o, .ofEntry (s.entry p.maildir.root)⟩
  have hrest : AtRest p.maildir.root place s f c.office.disk c.sight :=
    ⟨hd, hroot, hf, Message.sight_ofEntry hd hroot hf, ho.stays.hasRoom hroom,
      ho.keeps s f hlisted hf⟩
  obtain ⟨c', f', hrun, hrested, hdone, -⟩ := carryOut_settles hdry hlabels hspares
    (p.rulebook.rulesFor s.folder) (fun r hr => Rulebook.isUsed_of_mem_rulesFor hr) hrest
  have hrest' := hrested.atRest
  have hsame : ∀ {t : Slot}, t ≠ s →
      c'.office.disk.item? (place ++ t.names) = o.disk.item? (place ++ t.names) :=
    fun hts => hrested.elsewhere.other_slot hts
  refine ⟨c'.office, ?_, ⟨?_, ?_, ?_⟩, ?_, ?_⟩
  · rw [onMessage_run, handle_run_of_no_moves hmoves hrun]
  · exact ho.stays.rewritten hrested.elsewhere ⟨f, hf⟩ ⟨f', hrest'.file⟩
  · exact hrested.submissions.trans ho.submissions
  · intro t g hlisted' hg
    by_cases hts : t = s
    · subst hts
      obtain rfl := Item.file.inj (Option.some.inj (hrest'.file.symm.trans hg))
      exact hrest'.keeps
    · rw [hsame hts] at hg
      exact ho.keeps t g hlisted' hg
  · rintro t rfl _ g hg r hr
    obtain rfl := Item.file.inj (Option.some.inj (hrest'.file.symm.trans hg))
    rw [← hrest'.sight]
    exact hdone r hr
  · intro t ht hrecent g hg
    by_cases hts : t = s
    · subst hts
      intro r hr
      obtain rfl := Item.file.inj (Option.some.inj (hrest'.file.symm.trans hg))
      rw [← hrest'.sight]
      exact hdone r hr
    · have hg' : o.disk.item? (place ++ t.names) = some (.file g) := by
        rw [← hsame hts]
        exact hg
      refine ht ?_ g hg'
      rw [← isRecent_congr hd hrest'.sound hroot hrest'.resolve hg' hg]
      exact hrecent

theorem smooth_labels (hdry : p.dryRun = false) (hmoves : ∀ r ∈ p.rules, r.moveTo = none)
    (hgoes : p.calledOff [] = false)
    (hroom : ∀ s : Slot, Listed place d₀ s.folder → s.IsTaken place d₀ → s.HasRoom place d₀) :
    p.Smooth place d₀ (p.Calm place d₀) (p.Spent place) where
  stays ho := ho.stays
  goesOn ho := by rw [ho.submissions]; exact hgoes
  handled hlisted htaken :=
    covers_handle hlabels hspares hdry hmoves hlisted htaken (hroom _ hlisted htaken)
  passed _ hnot hrecent := by
    rw [hnot] at hrecent
    exact absurd hrecent (by simp)
  ruleless hnone _ _ _ _ hr := by
    rw [hnone] at hr
    exact absurd hr List.not_mem_nil

end Rules

/-! ## The second pass -/

/-- A pass does nothing if the messages that it meets are spent. -/
theorem run_of_spent {o : Office} (hd : o.disk.Sound)
    (hroot : o.disk.resolve p.maildir.root = .ok place) {fs : List Folder}
    (hfs : p.maildir.folders o.disk = .ok fs)
    (hspent : ∀ s, Listed place o.disk s.folder → skippedFolders.contains s.folder = false →
      s.IsVisible → s.IsTaken place o.disk → p.Spent place s o) : p.run o = (.ok (), o) := by
  refine run_idle hd hroot hfs fun s hmeets => ?_
  obtain ⟨_, rfl, f, hf⟩ := hmeets.taken
  obtain ⟨_, rfl, hlisted⟩ := hmeets.listed
  rw [onMessage_of_no_rule hd hroot hf
    (hspent s hlisted hmeets.wanted hmeets.visible ⟨f, hf⟩ hmeets.recent f hf)]

end Pass

/-- What a rule has to be like to have nothing to do a second time. -/
structure Rule.IsRepeatable (r : Rule) : Prop where
  /-- No label that it adds holds a comma or a blank, or what looks like an encoded word. -/
  label : ∀ l ∈ r.label, (∀ c ∈ l, isTokenBreak c = false) ∧ ¬ HasOpening l
  /-- It passes nothing on. -/
  forward : r.forward = []
  /-- It moves nothing. -/
  moveTo : r.moveTo = none
  /-- It looks at fields only. -/
  looks : r.LooksAtFields

/-- A rule as it is used does what the rule does that it was made from. -/
theorem Rule.IsRepeatable.onlyLabels {r : Rule} (h : r.IsRepeatable) (hr : r.IsCompiled)
    (now : Time) : (r.stamped now).OnlyLabels where
  label l hl := by
    rw [Rule.stamped_label] at hl
    exact ⟨⟨hr.label_ne_nil hl, (h.label l hl).1⟩, (h.label l hl).2⟩
  forward := by rw [Rule.stamped_forward, h.forward]
  moveTo := by rw [Rule.stamped_moveTo, h.moveTo]
  acts := by
    have haction := hr.hasAction
    rw [Rule.stamped_label, Rule.stamped_clear]
    simp only [Rule.hasAction, h.forward, h.moveTo, Option.isSome_none, Bool.or_false,
      List.isEmpty_nil, Bool.not_true, Bool.or_eq_true, Bool.not_eq_true',
      List.isEmpty_eq_false_iff] at haction
    exact haction.symm
  looks := by
    rw [Rule.LooksAtFields, Rule.stamped_criteria]
    exact h.looks

/-- After a pass with rules that only label, and none of which removes what one adds, the same
pass does nothing, whatever time it is then: it counts nothing and leaves the disk as it is. -/
theorem Pass.run_again (p : Pass) {d : Disk} (hd : d.Sound) {fs : List Folder}
    (hfs : p.maildir.folders d = .ok fs) (hdry : p.dryRun = false)
    (hrules : ∀ r ∈ p.rules, r.IsCompiled ∧ r.IsRepeatable)
    (hspares : ∀ r ∈ p.rules, ∀ r' ∈ p.rules, r.Spares r')
    (hroom : ∀ s, p.maildir.Lists d s → Slot.CanRewrite p.maildir d s)
    (hkeeps : ∀ s content, p.maildir.Lists d s →
      d.read (p.maildir.root ++ s.names) = .ok content → KeepsKeywords content) (t : Int) :
    ∃ o, p.run (.ofDisk d) = (.ok (), o) ∧
      p.run (.ofDisk (o.disk.setClock t)) = (.ok (), .ofDisk (o.disk.setClock t)) := by
  obtain ⟨place, hroot, hplace⟩ := Maildir.place_of_folders hfs
  have hlabels : ∀ r, IsUsed p.rules p.now r → r.OnlyLabels := by
    intro r hr
    obtain ⟨source, hsource, rfl⟩ := hr.stamped fun r hr => (hrules r hr).2.moveTo
    exact (hrules source hsource).2.onlyLabels (hrules source hsource).1 p.now
  have hspares' : ∀ r r', IsUsed p.rules p.now r → IsUsed p.rules p.now r' → r.Spares r' := by
    intro r r' hr hr'
    obtain ⟨source, hsource, rfl⟩ := hr.stamped fun r hr => (hrules r hr).2.moveTo
    obtain ⟨source', hsource', rfl⟩ := hr'.stamped fun r hr => (hrules r hr).2.moveTo
    rw [Rule.Spares, Rule.stamped_label, Rule.stamped_clear]
    exact hspares source hsource source' hsource'
  cases hgoes : p.calledOff [] with
  | true =>
    -- a pass that is called off from the first meets no message
    have hnothing : ∀ {d : Disk} {fs : List Folder}, d.Sound → d.resolve p.maildir.root = .ok place →
        p.maildir.folders d = .ok fs → p.run (.ofDisk d) = (.ok (), .ofDisk d) := by
      intro d fs hd hroot hfs
      refine run_idle hd hroot hfs fun s hmeets => ?_
      exact absurd (hgoes.symm.trans hmeets.goesOn) (by simp)
    obtain ⟨fs', hfs'⟩ := Maildir.exists_folders (m := p.maildir) (d := d.setClock t)
      ((Disk.resolve_setClock d t _).trans hroot) hplace
    exact ⟨_, hnothing hd hroot hfs,
      hnothing (hd.setClock t) ((Disk.resolve_setClock d t _).trans hroot) hfs'⟩
  | false =>
    have hlists : ∀ s, p.maildir.Lists d s ↔ Listed place d s.folder ∧ s.IsTaken place d :=
      Maildir.lists_iff hd hroot
    have hsmooth : p.Smooth place d (p.Calm place d) (p.Spent place) :=
      smooth_labels hlabels hspares' hdry (fun r hr => (hrules r hr).2.moveTo) hgoes
        fun s hlisted htaken =>
          (Slot.canRewrite_iff hd hroot s).1 (hroom s ((hlists s).2 ⟨hlisted, htaken⟩))
    have hcalm : p.Calm place d (.ofDisk d) := by
      refine ⟨Stays.refl hd hroot, rfl, fun s f hlisted hf => ?_⟩
      refine hkeeps s f.content ((hlists s).2 ⟨hlisted, f, hf⟩) ?_
      rw [Disk.read, (Disk.file_below hd hroot s.isName_of_mem_names).2 hf]
      rfl
    obtain ⟨o, hrun, hcalm', hspent⟩ := hsmooth.run hcalm hfs
    refine ⟨o, hrun, ?_⟩
    -- at any other time the disk after the pass is the same
    have hstays := hcalm'.stays.setClock t
    obtain ⟨fs', hfs'⟩ := Maildir.exists_folders (m := p.maildir) hstays.resolve
      ((hstays.folders place).2 hplace)
    refine run_of_spent hstays.sound hstays.resolve hfs' fun s hlisted hwanted hvisible htaken => ?_
    have hdone := hspent s ((hstays.listed _).1 hlisted) hwanted hvisible ((hstays.taken s).1 htaken)
    intro hrecent f hf
    refine hdone ?_ f hf
    rw [← isRecent_congr hcalm'.stays.sound hstays.sound hcalm'.stays.resolve hstays.resolve
      (f := f) hf hf]
    exact hrecent

/-! ### A pass that labels -/

/-- A rule, as it is written, that labels the messages of a subject, and takes another label
away. -/
def sortingRaw : RawRule where
  criteria := { Criteria.none with operand := fun t => if t = .subject then some "s" else none }
  clear := ["later"]
  label := ["urgent"]
  moveTo := none
  forward := []

/-- The rule that it stands for. -/
def sortingRule : Rule where
  criteria := sortingRaw.criteria.normalized
  okayDate := none
  clear := ["later"]
  label := ["urgent"]
  moveTo := none
  forward := []
  order := 0

/-- A pass with this rule. -/
def sortingPass : Pass where
  maildir := ⟨[], .byName⟩
  rules := [sortingRule]
  forwarder := none
  allowForwarding := false
  dryRun := false
  window := none
  now := 0
  calledOff _ := false

theorem sorting_run_again : ∃ o, sortingPass.run (.ofDisk sampleDisk) = (.ok (), o) ∧
    sortingPass.run (.ofDisk (o.disk.setClock 1)) = (.ok (), .ofDisk (o.disk.setClock 1)) := by
  have hroot : sampleDisk.resolve sortingPass.maildir.root = .ok [] := rfl
  obtain ⟨fs, hfs⟩ := Maildir.exists_folders hroot rfl
  refine Pass.run_again sortingPass sound_sampleDisk hfs rfl ?_ ?_ ?_ ?_ 1
  · intro r hr
    obtain rfl : r = sortingRule := List.mem_singleton.1 hr
    refine ⟨⟨sortingRaw, 0, rfl⟩, fun l hl => ?_, rfl, rfl, rfl, rfl⟩
    have htoken : ∀ l ∈ sortingRule.label, IsToken l := by decide +kernel
    exact ⟨(htoken l hl).1.2, (htoken l hl).2⟩
  · intro r hr r' hr'
    obtain rfl : r = sortingRule := List.mem_singleton.1 hr
    obtain rfl : r' = sortingRule := List.mem_singleton.1 hr'
    intro l hl c hc
    rw [List.mem_singleton.1 hl, List.mem_singleton.1 hc]
    decide
  · rintro s ⟨-, hs⟩
    rw [eq_sampleSlot hs]
    exact ⟨by decide, by decide⟩
  · rintro s content ⟨-, hs⟩ hread header hheader x hx
    have hvalues : (readHeader sampleLetter).map (fun h => h.values Keywords.fieldName) = .ok [] := by
      decide +kernel
    rw [eq_sampleSlot hs] at hread
    obtain rfl := Except.ok.inj (read_sampleDisk.symm.trans hread)
    rw [hheader] at hvalues
    have hnone : header.values Keywords.fieldName = [] := Except.ok.inj hvalues
    rw [hnone] at hx
    exact absurd hx List.not_mem_nil

end Mailroom
