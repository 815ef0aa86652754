import Mailroom.Proofs.Clerk
import Mailroom.Proofs.Message.Roaming
import Mailroom.Proofs.Pass.Conservation

/-!
# Messages that a pass leaves alone

A pass leaves alone the messages of folders that it skips or does not list, starred messages and
messages that were not changed lately: their files stay as they are, and nothing is sent for them.
What a rule does to another message, wherever it moves it, concerns files of that message's state
and name.

* `Pass.LeavesAlone` says which messages these are.
* `Pass.Spared` is the invariant of the office, `Pass.SparedAt` the one of a message at hand.
* `Pass.run_leavesAlone` is the result.
-/

namespace Mailroom

namespace Pass

/-- Why a pass leaves a message alone. -/
inductive LeavesAlone (p : Pass) (d : Disk) (s : Slot) : Prop where
  /-- It is in a folder that is skipped. -/
  | skipped (h : s.folder ∈ skippedFolders)
  /-- It is in a folder that is not listed. -/
  | unlisted (h : ∀ fs, p.maildir.folders d = .ok fs → p.maildir.folder s.folder ∉ fs)
  /-- One of its keywords is the one of starred messages, in either form. -/
  | starred {content : Bytes} {header : Header} {keyword : Text}
      (hread : d.read (p.maildir.root ++ s.names) = .ok content)
      (hheader : Header.read content = .ok header)
      (hmem : keyword ∈ keywordTokens (Text.join ", " (header.values Keywords.fieldName)))
      (h : keyword = Label.starred.labelForm ∨ keyword = Label.starred.folderForm)
  /-- It was last changed before the time that counts as recent. -/
  | old {f : File} {window : Int} (hfile : d.file (p.maildir.root ++ s.names) = .ok f)
      (hwindow : p.window = some window) (h : f.modified < p.now - window)

variable {p : Pass} {place : Path} {d₀ : Disk} {s : Slot}

/-! ## The invariant -/

/-- The office while a message is left alone. -/
structure Spared (root place : Path) (d₀ : Disk) (s : Slot) (o : Office) : Prop where
  /-- The disk is sound. -/
  sound : o.disk.Sound
  /-- The maildir is there. -/
  resolve : o.disk.resolve root = .ok place
  /-- The folders are those of the beginning. -/
  folders : ∀ q, o.disk.item? q = some .folder ↔ d₀.item? q = some .folder
  /-- The message is as it was in the beginning. -/
  same : o.disk.item? (place ++ s.names) = d₀.item? (place ++ s.names)
  /-- No other message is of its state and has its name. -/
  only : ∀ t, t.state = s.state → t.name = s.name → t.IsTaken place o.disk → t = s
  /-- No letter was sent for a message of its state and name. -/
  unsent : ∀ x ∈ o.submissions, ∀ folder, x.source ≠ root ++ [folder, s.state.name, s.name]

/-- The same while a message is at hand that is of another state or has another name. -/
def SparedAt (root place : Path) (d₀ : Disk) (s : Slot) (state : ReadState) (name : Text)
    (o : Office) (v : Sight) : Prop :=
  Spared root place d₀ s o ∧ ∃ f, v.entry.IsHeld root state name f o.disk

/-- Changes of files of another state or name leave the message alone. -/
theorem Spared.apart {root : Path} {state : ReadState} {name : Text} {o : Office} {d : Disk}
    (h : Spared root place d₀ s o) (hother : s.state = state → s.name ≠ name)
    (hd : o.disk.Apart state name d) : Spared root place d₀ s { o with disk := d } where
  sound := hd.sound
  resolve := hd.resolve h.resolve
  folders q := (hd.folders q).trans (h.folders q)
  same := (hd.same (not_endsIn_names hother)).trans h.same
  only t hstate hname htaken := by
    refine h.only t hstate hname ?_
    obtain ⟨f, hf⟩ := htaken
    rw [hd.same (not_endsIn_names (by rw [hstate, hname]; exact hother))] at hf
    exact ⟨f, hf⟩
  unsent := h.unsent

section Steps

variable {state : ReadState} {name : Text} (hn : IsName name)
  (hother : s.state = state → s.name ≠ name)

include hn hother

theorem sparedAt_save :
    Handling.Maintains (SparedAt p.maildir.root place d₀ s state name) p.clerk.save := by
  unfold Clerk.save
  refine Keeps.ite (fun _ => Keeps.discard (leads_editing fun c hc => ?_)) fun _ => Keeps.pure ()
  obtain ⟨hspared, f, hheld⟩ := hc
  rcases Message.save_of_held hspared.sound hn hheld with ⟨-, hrun⟩ | ⟨e, m', hrun, hsight⟩ |
    ⟨bytes, header, d', m', id, -, -, hrun, hapart, hheld'⟩
  · exact ⟨_, _, _, hrun, hspared, f, hheld⟩
  · refine ⟨_, _, _, hrun, ?_⟩
    rw [hsight]
    exact ⟨hspared, f, hheld⟩
  · exact ⟨_, _, _, hrun, hspared.apart hother hapart, _, hheld'⟩

theorem sparedAt_move {target : Option Text} (htarget : ∀ g, target = some g → IsStep g) :
    Handling.Maintains (SparedAt p.maildir.root place d₀ s state name)
      (p.clerk.move target) := by
  cases target with
  | none => exact Keeps.pure ()
  | some g =>
    have hrest : Handling.Maintains (SparedAt p.maildir.root place d₀ s state name)
        (Handling.record ("Moved " ++ g)) := by
      refine maintains_record ?_ _
      exact fun o v summary h => ⟨⟨h.1.1, h.1.2, h.1.3, h.1.4, h.1.5, h.1.6⟩, h.2⟩
    refine Keeps.ite (fun _ => Keeps.bind (leads_editing fun c hc => ?_) fun _ => hrest)
      fun _ => hrest
    obtain ⟨hspared, f, hheld⟩ := hc
    rcases Message.moveTo_of_held hspared.sound hn hheld (htarget g rfl) with
      ⟨result, hrun⟩ | ⟨d', hrun, hapart, hheld'⟩
    · exact ⟨_, _, _, hrun, hspared, f, hheld⟩
    · exact ⟨_, _, _, hrun, hspared.apart hother hapart, f, hheld'⟩

/-- Whatever a rule does to a message of another state or name, the message is spared. -/
theorem sparedAt_apply {r : Rule} (hmove : ∀ g, r.moveTo = some g → IsStep g) :
    Handling.Maintains (SparedAt p.maildir.root place d₀ s state name) (p.clerk.apply r) := by
  refine maintains_apply ?_ (fun _ _ _ h _ => h) (fun _ _ _ h _ => h) ?_
    (sparedAt_save hn hother) (sparedAt_move hn hother hmove)
  · exact fun o v summary h => ⟨⟨h.1.1, h.1.2, h.1.3, h.1.4, h.1.5, h.1.6⟩, h.2⟩
  refine maintains_passOn ?_ ?_
  · exact fun o v summary h => ⟨⟨h.1.1, h.1.2, h.1.3, h.1.4, h.1.5, h.1.6⟩, h.2⟩
  rintro o v done letter accepted - ⟨hspared, f, hheld⟩ - -
  have hentry : (if accepted then v.withField forwardedField
      (Text.join ", " (done.insertAll (pendingOf done r.forward)).toList) else v).entry =
        v.entry := by
    split <;> rfl
  refine ⟨⟨hspared.1, hspared.2, hspared.3, hspared.4, hspared.5, ?_⟩, f, hentry ▸ hheld⟩
  intro x hx folder
  rw [Office.submissions_posted, List.mem_append, List.mem_singleton] at hx
  rcases hx with hx | rfl
  · exact hspared.unsent x hx folder
  · rw [hheld.path_eq hn]
    intro h
    have hend : p.maildir.root ++ [v.entry.folder.name] ++ [state.name, name] =
        p.maildir.root ++ [folder] ++ [s.state.name, s.name] := by simpa using h
    obtain ⟨hstate, hname⟩ := pair_eq_of_append hend
    exact hother (ReadState.name_inj hstate).symm hname.symm

end Steps

/-! ## The pass -/

/-- What is seen of a starred message is skipped by every rule. -/
theorem not_applies_of_starred {content : Bytes} {header : Header} {keyword : Text} {e : Entry}
    (hheader : Header.read content = .ok header)
    (hmem : keyword ∈ keywordTokens (Text.join ", " (header.values Keywords.fieldName)))
    (h : keyword = Label.starred.labelForm ∨ keyword = Label.starred.folderForm) (r : Rule) :
    ((Sight.ofFile e content).verdict r).applies = false := by
  have hkeywords : (Sight.ofFile e content).keywords =
      .ok (Keywords.parse (Text.join ", " (header.values Keywords.fieldName))) := by
    simp [Sight.ofFile, seenKeywords, seenValues, readHeader, hheader, Except.map]
  have hstar : (Keywords.parse (Text.join ", " (header.values Keywords.fieldName))).contains
      Label.starred.labelForm = true := by
    refine Keywords.contains_iff.2 (Keywords.mem_parse.2 ⟨keyword, hmem, ?_⟩)
    rcases h with rfl | rfl
    · rfl
    · decide
  rw [← Bool.not_eq_true, Sight.applies_iff]
  rintro ⟨hskips, -⟩
  have hnot := ((Sight.skips_iff_of_keywords hkeywords).1 hskips).2.2.2
  rw [hstar] at hnot
  exact absurd hnot (by simp)

/-- When the message itself is met, it is passed over. -/
theorem onMessage_leavesAlone (hd₀ : d₀.Sound) (hroot₀ : d₀.resolve p.maildir.root = .ok place)
    (hs : s.IsTaken place d₀) (halone : p.LeavesAlone d₀ s) {o : Office}
    (h : Spared p.maildir.root place d₀ s o)
    (hmeets : p.Meets place (Spared p.maildir.root place d₀ s) o s) :
    (p.handle (p.rulebook.rulesFor s.folder)).onMessage (.ofEntry (s.entry p.maildir.root)) o =
      (.ok (), o) := by
  obtain ⟨f, hf⟩ := hs
  have hfile := (Disk.file_below hd₀ hroot₀ s.isName_of_mem_names).2 hf
  have hf' : o.disk.item? (place ++ s.names) = some (.file f) := h.same.trans hf
  cases halone with
  | skipped hskip =>
    have hwanted := hmeets.wanted
    rw [List.contains_iff_mem.2 hskip] at hwanted
    exact absurd hwanted (by simp)
  | unlisted hunlisted =>
    -- the folder was listed at some time of the pass, and folders stay what they are
    obtain ⟨o', ho', hname, hdot, hnew, hcur⟩ := hmeets.listed
    have hlisted : Listed place d₀ s.folder :=
      ⟨hname, hdot, (ho'.folders _).1 hnew, (ho'.folders _).1 hcur⟩
    obtain ⟨fs, hfs, hmem⟩ := ((Maildir.lists_iff hd₀ hroot₀ s).2 ⟨hlisted, f, hf⟩).1
    exact absurd hmem (hunlisted fs hfs)
  | starred hread hheader hmem hkeyword =>
    refine onMessage_idle fun r hr => ?_
    rw [Disk.read, hfile] at hread
    obtain rfl := Except.ok.inj hread
    rw [Message.sight_ofEntry h.sound h.resolve hf',
      not_applies_of_starred hheader hmem hkeyword r] at hr
    exact absurd hr (by simp)
  | @old _ window hfile' hwindow hold =>
    obtain rfl := Except.ok.inj (hfile.symm.trans hfile')
    have hrecent := hmeets.recent
    rw [isRecent_of_file h.sound h.resolve hf', hwindow] at hrecent
    have hlate : p.now - window ≤ f.modified := of_decide_eq_true hrecent
    exact absurd hlate (Int.not_le.2 hold)

theorem spared_run (hd₀ : d₀.Sound) (hroot₀ : d₀.resolve p.maildir.root = .ok place)
    (hrules : ∀ r ∈ p.rules, r.IsCompiled) (hs : s.IsTaken place d₀)
    (halone : p.LeavesAlone d₀ s) : Keeps (Spared p.maildir.root place d₀ s) p.run := by
  refine keeps_run (fun _ h => ⟨h.sound, h.resolve⟩) fun o t h hmeets => ?_
  by_cases hsame : t.state = s.state ∧ t.name = s.name
  · -- the message met is the one that is left alone
    obtain ⟨o', ho', htaken⟩ := hmeets.taken
    obtain rfl := ho'.only t hsame.1 hsame.2 htaken
    rw [onMessage_leavesAlone hd₀ hroot₀ hs halone h hmeets]
    exact h
  by_cases htaken : t.IsTaken place o.disk
  · obtain ⟨f, hf⟩ := htaken
    have hfile := (Disk.file_below h.sound h.resolve t.isName_of_mem_names).2 hf
    have hat : SparedAt p.maildir.root place d₀ s t.state t.name o
        ((Message.ofEntry (t.entry p.maildir.root)).sight o.disk) :=
      ⟨h, f, Entry.isHeld_entry hfile⟩
    refine keeps_onMessage (fun _ _ hat => hat.1) (fun r hr => ?_)
      (fun r hr => Rulebook.isUsed_of_mem_rulesFor hr) hat
    obtain ⟨source, hsource, -, -, hmove⟩ := hr.keeps_actions
    exact sparedAt_apply t.isName_name (fun hstate hname => hsame ⟨hstate.symm, hname.symm⟩)
      fun g hg => (hrules source hsource).isStep_moveTo (hmove g hg)
  · rw [onMessage_of_not_taken h.sound h.resolve htaken]
    exact h

end Pass

/-! ## The messages of a maildir -/

/-- A message that a pass leaves alone has the same file after the pass, and nothing was sent for
a message of its state and name, in whatever folder. -/
theorem Pass.run_leavesAlone (p : Pass) (d : Disk) (hd : d.Sound)
    (hrules : ∀ r ∈ p.rules, r.IsCompiled)
    (hnames : ∀ s t, p.maildir.HasMessage d s → p.maildir.HasMessage d t →
      s.state = t.state → s.name = t.name → s = t)
    (s : Slot) (hs : p.maildir.HasMessage d s) (halone : p.LeavesAlone d s) :
    (p.run (.ofDisk d)).2.disk.file (p.maildir.root ++ s.names) =
        d.file (p.maildir.root ++ s.names) ∧
      ∀ x ∈ (p.run (.ofDisk d)).2.submissions, ∀ folder,
        x.source ≠ p.maildir.root ++ [folder, s.state.name, s.name] := by
  cases hroot : d.resolve p.maildir.root with
  | error e =>
    rw [run_of_no_maildir (o := .ofDisk d) hroot]
    exact ⟨rfl, by simp [Office.ofDisk]⟩
  | ok place =>
    have htaken := Maildir.hasMessage_iff hd hroot
    have hspared := spared_run hd hroot hrules ((htaken s).1 hs) halone (.ofDisk d)
      ⟨hd, hroot, fun _ => Iff.rfl, rfl, fun t hstate hname ht =>
        hnames t s ((htaken t).2 ht) hs hstate hname, by simp [Office.ofDisk]⟩
    refine ⟨?_, hspared.unsent⟩
    obtain ⟨f, hf⟩ := (htaken s).1 hs
    rw [(Disk.file_below hd hroot s.isName_of_mem_names).2 hf]
    exact (Disk.file_below hspared.sound hspared.resolve s.isName_of_mem_names).2
      (hspared.same.trans hf)

/-! ### A starred message -/

/-- A message with a subject that is starred. -/
def starredLetter : Bytes := Utf8.encode "Subject: s\nKeywords: \\Starred\n\nbody\n"

/-- A maildir with this message, in a folder that a rule is to empty. -/
def starredDisk : Disk := (Disk.empty 0).plant [] (.folder
  [("INBOX", .folder [("new", .folder []),
      ("cur", .folder [("1.a:2,S", .file starredLetter none)]),
      ("tmp", .folder [])]),
    ("work", .folder [("new", .folder []), ("cur", .folder [])])])

theorem read_starredLetter : ∃ header, Header.read starredLetter = .ok header ∧
    header.values Keywords.fieldName = [Label.starred.labelForm] := by
  have hvalues : (Header.read starredLetter).toOption.map (fun h => h.values Keywords.fieldName) =
      some [Label.starred.labelForm] := by decide +kernel
  cases hread : Header.read starredLetter with
  | error e => simp [hread, Except.toOption] at hvalues
  | ok header =>
    rw [hread] at hvalues
    exact ⟨header, rfl, Option.some.inj hvalues⟩

theorem starred_run_leavesAlone :
    (filingPass.run (.ofDisk starredDisk)).2.disk.file (filingPass.maildir.root ++ sampleSlot.names) =
        starredDisk.file (filingPass.maildir.root ++ sampleSlot.names) ∧
      ∀ x ∈ (filingPass.run (.ofDisk starredDisk)).2.submissions, ∀ folder,
        x.source ≠ filingPass.maildir.root ++ [folder, sampleSlot.state.name, sampleSlot.name] := by
  have hd : starredDisk.Sound := Disk.sound_plant 0 (by decide)
  have honly : ∀ t, filingPass.maildir.HasMessage starredDisk t → t = sampleSlot :=
    fun t ht => Maildir.eq_of_only_file hd (m := filingPass.maildir) rfl (by decide) ht
  refine Pass.run_leavesAlone filingPass starredDisk hd ?_ ?_ sampleSlot ⟨_, rfl⟩ ?_
  · intro r hr
    obtain rfl : r = filingRule := List.mem_singleton.1 hr
    exact ⟨filingRaw, 0, rfl⟩
  · exact fun s t hs ht _ _ => (honly s hs).trans (honly t ht).symm
  · obtain ⟨header, hheader, hvalues⟩ := read_starredLetter
    refine .starred rfl hheader (?_ : Label.starred.labelForm ∈ _) (Or.inl rfl)
    rw [hvalues]
    decide

end Mailroom
