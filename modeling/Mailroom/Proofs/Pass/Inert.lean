import Mailroom.Proofs.Maildir.Matching
import Mailroom.Proofs.Pass.Comparing
import Mailroom.Proofs.Pass.Conservation
import Mailroom.Proofs.Pass.Coverage

/-!
# Messages that cannot be read

A pass comes by a message whose header block cannot be read as if the message were not there.

* `onMessage_of_broken` says that nothing is done to such a message.
* `Office.Lacking` relates an office with the message to one without it, and `Pass.KeepsPace` what
  the work in both comes to.
* `Pass.run_without` is the result for a whole pass.
-/

namespace Mailroom

theorem Slot.append_names (place : Path) (s : Slot) :
    place ++ s.names = (place ++ [s.folder]) ++ [s.state.name, s.name] := by simp [Slot.names]

/-- Nothing is done to a message whose header block cannot be read. -/
theorem onMessage_of_broken {p : Pass} {rules : List Rule} {o : Office} {e : Entry}
    {content : Bytes} {fault : HeaderFault} (hread : e.read o.disk = .ok content)
    (hbroken : Header.read content = .error fault) :
    (p.handle rules).onMessage (.ofEntry e) o = (.ok (), o) := by
  have hkeywords : ((Message.ofEntry e).sight o.disk).keywords = .error (.parse fault.message) := by
    have hheader : readHeader content = .error (.parse fault.message) := by
      rw [readHeader, hbroken]
    simp [Message.ofEntry, Message.sight, hread, hheader, Except.bind]
  refine onMessage_idle fun r hr => ?_
  rw [Sight.not_applies_of_unreadable hkeywords] at hr
  exact absurd hr (by simp)

/-! ## Offices with and without the message -/

/-- Two offices in which the same was done since the disk was as given, but that the second one
lacks the message at a slot.  No other message of its state and name was touched. -/
structure Office.Lacking (d : Disk) (place : Path) (s : Slot) (o o' : Office) : Prop where
  /-- The disk has changed, but nowhere where a message of the state and name might be. -/
  since : ∃ P, d.Patched P o.disk ∧ ∀ r, P (r ++ [s.state.name, s.name]) = none
  /-- Nothing but the message is missing. -/
  disk : o.disk.Patched (.single (place ++ s.names) none) o'.disk
  /-- The same was counted. -/
  summary : o'.summary = o.summary
  /-- The same letters were given to the post. -/
  submissions : o'.submissions = o.submissions

/-- What two passes come to that keep pace: the same, or the first was called off at the message
that the second one does not meet. -/
def Pass.KeepsPace (p : Pass) (d : Disk) (place : Path) (s : Slot)
    (x x' : Except Error Unit × Office) : Prop :=
  Office.Lacking d place s x.2 x'.2 ∧
    (SameOutcome x.1 x'.1 ∨ x.1 = .error .cancelled ∧ p.calledOff x.2.submissions = true)

namespace Office.Lacking

variable {d : Disk} {place : Path} {s : Slot} {o o' o₁ o₁' : Office}

theorem sound (h : Lacking d place s o o') : o.disk.Sound := by
  obtain ⟨_, hP, -⟩ := h.since
  exact hP.sound

/-- Where a message of the state and the name might be, there is what there was. -/
theorem view_eq (h : Lacking d place s o o') (r : Path) :
    o.disk.view (r ++ [s.state.name, s.name]) = d.view (r ++ [s.state.name, s.name]) := by
  obtain ⟨_, hP, hnone⟩ := h.since
  exact hP.view_of_none (hnone r)

/-- A deed for another message keeps them so. -/
theorem done (h : Lacking d place s o o') {w : Deed} {M M' : Maildir} {state : ReadState}
    {name : Text} (hroot : M'.root = M.root) (hw : w.Concerns .whole state name)
    (hapart : s.state = state → s.name ≠ name) (hdone : w.Done M state name o o₁)
    (hdone' : w.Done M' state name o' o₁') : Lacking d place s o₁ o₁' := by
  have hnone : ∀ r, w.changes (r ++ [s.state.name, s.name]) = none := fun r => hw.eq_none hapart
  obtain ⟨P, hP, hPnone⟩ := h.since
  refine ⟨⟨_, hP.trans hdone.disk, fun r => ?_⟩, h.disk.square hdone.disk hdone'.disk ?_, ?_, ?_⟩
  · rw [Patch.andThen, hnone, hPnone]
    rfl
  · refine Patch.andThen_comm fun q a b ha hb => ?_
    have hq : q = place ++ s.names := by
      unfold Patch.single at ha
      split at ha
      · assumption
      · exact absurd ha (by simp)
    rw [hq, s.append_names, hnone] at hb
    exact absurd hb (by simp)
  · rw [hdone'.summary, hdone.summary, h.summary]
  · rw [hdone'.submissions, hdone.submissions, h.submissions, Maildir.submission_congr hroot]

/-- A message that was met by the state and the name of the missing one was there from the first. -/
theorem taken_iff (h : Lacking d place s o o') {t : Slot} (hstate : t.state = s.state)
    (hname : t.name = s.name) : t.IsTaken place o.disk ↔ t.IsTaken place d := by
  refine Disk.exists_file_congr ?_
  rw [t.append_names, hstate, hname]
  exact h.view_eq _

end Office.Lacking

namespace Pass

variable {p : Pass} {M' : Maildir} {d : Disk} {place : Path} {s : Slot} {o o' : Office}
  {rules : List Rule} {e : Entry} {folder : Text} {r : Path} {f : File} {fault : HeaderFault}

/-! ## Turns -/

/-- Another message comes to the same in both offices. -/
theorem turn_of_lacking (hroot : M'.root = p.maildir.root)
    (hrules : ∀ r ∈ rules, IsUsed p.rules p.now r) (h : Office.Lacking d place s o o')
    (hwait : e.Awaits (p.maildir.folder folder) r o.disk)
    (hapart : s.state = e.state → s.name ≠ e.name) :
    Tally (Office.Lacking d place s) (p.takeUp rules e o) ((p.within M').takeUp rules e o') ∧
      ∀ e', e.Apart e' → e'.Awaits (p.maildir.folder folder) r o.disk →
        e'.Awaits (p.maildir.folder folder) r (p.takeUp rules e o).2.disk := by
  have hother : Patch.single (place ++ s.names) none (r ++ [e.state.name, e.name]) = none := by
    refine if_neg fun heq => ?_
    obtain ⟨hstate, hname⟩ := pair_eq_of_append (heq.trans (s.append_names place))
    exact hapart (ReadState.name_inj hstate.symm) hname.symm
  obtain ⟨w, hw, hresult, hdone, hdone'⟩ := exists_turn_of_patched hroot h.sound h.disk hwait hother
    (congrArg p.calledOff h.submissions) (answersAlike_of_same hroot h.submissions _ _) hrules
  exact ⟨⟨hresult, h.done hroot hw hapart hdone hdone'⟩,
    fun e' hne hwait' => hdone.awaits hw hne hwait'⟩

section Broken

variable (hplace : d.resolve p.maildir.root = .ok place)
  (hfile : d.item? (place ++ s.names) = some (.file f))
  (hbroken : Header.read f.content = .error fault)

include hplace hfile hbroken

/-- The message that cannot be read has a turn in which nothing is done, unless the pass is called
off. -/
theorem takeUp_of_broken (h : Office.Lacking d place s o o') :
    p.takeUp rules (s.entry p.maildir.root) o =
      if p.calledOff o.submissions then (.error .cancelled, o) else (.ok (), o) := by
  obtain ⟨P, hP, -⟩ := h.since
  have hview := h.view_eq (place ++ [s.folder])
  rw [← s.append_names, Disk.view_of_file hfile] at hview
  obtain ⟨f', hf', hcontent, -⟩ := Disk.view_eq_file.1 hview
  have hread := Message.read_entry h.sound ((hP.resolve _ _).2 hplace) hf'
  rw [hcontent] at hread
  rw [takeUp_run, onMessage_of_broken hread hbroken]
  split
  · rfl
  · split <;> rfl

/-- Through the messages of a folder the passes keep pace. -/
theorem workThrough_keepsPace (hroot : M'.root = p.maildir.root)
    (hrules : ∀ r ∈ rules, IsUsed p.rules p.now r) {entries : List Entry}
    (hwaits : ∀ e ∈ entries, e.Awaits (p.maildir.folder folder) r o.disk)
    (hapart : entries.Pairwise Entry.Apart)
    (hother : ∀ e ∈ entries, e ≠ s.entry p.maildir.root → s.state = e.state → s.name ≠ e.name)
    (h : Office.Lacking d place s o o') :
    p.KeepsPace d place s (p.workThrough rules entries o) ((p.within M').workThrough rules
      (entries.filter (· ≠ s.entry p.maildir.root)) o') := by
  induction entries generalizing o o' with
  | nil => exact ⟨h, Or.inl (.ok ())⟩
  | cons e entries ih =>
    obtain ⟨hfirst, hrest⟩ := List.pairwise_cons.1 hapart
    have hother' := fun e he => hother e (List.mem_cons_of_mem _ he)
    by_cases he : e = s.entry p.maildir.root
    · have hturn : p.takeUp rules e o = _ := he ▸ takeUp_of_broken hplace hfile hbroken h
      rw [List.filter_cons_of_neg (by simp [he])]
      by_cases hgone : p.calledOff o.submissions = true
      · rw [if_pos hgone] at hturn
        have hgone' : (p.within M').calledOff o'.submissions = true := h.submissions.symm ▸ hgone
        rw [workThrough_of_error (congrArg Prod.fst hturn), hturn]
        refine ⟨?_, Or.inr ⟨rfl, hgone⟩⟩
        rw [workThrough_of_calledOff _ hgone']
        exact h
      · rw [if_neg hgone] at hturn
        rw [workThrough_of_ok (congrArg Prod.fst hturn), hturn]
        exact ih (fun e he => hwaits e (by simp [he])) hrest hother' h
    · obtain ⟨⟨hresult, hafter⟩, hkeeps⟩ := turn_of_lacking hroot hrules h (hwaits e (by simp))
        (hother e (by simp) he)
      rw [List.filter_cons_of_pos (by simp [he])]
      cases hrun : (p.takeUp rules e o).1 with
      | ok u =>
        rw [hrun] at hresult
        rw [workThrough_of_ok hrun, workThrough_of_ok hresult.eq_ok]
        exact ih (fun e' he' => hkeeps e' (hfirst e' he') (hwaits e' (by simp [he']))) hrest hother'
          hafter
      | error error =>
        rw [hrun] at hresult
        obtain ⟨error', hrun', hlike⟩ := hresult.eq_error
        rw [workThrough_of_error hrun, workThrough_of_error hrun']
        exact ⟨hafter, Or.inl (.error hlike)⟩

/-! ## Folders -/

section Folders

variable (hroot : M'.root = p.maildir.root) (hd : d.Sound)
  (hunique : ∀ t, p.maildir.Lists d t → t.state = s.state → t.name = s.name → t = s)
  (hlisting : p.maildir.listing.Omits M'.listing (p.maildir.root ++ [s.folder, s.state.name])
    s.name)

include hroot hd hunique hlisting

/-- In a folder the passes keep pace. -/
theorem workOn_keepsPace (hlisted : Listed place d folder) (h : Office.Lacking d place s o o') :
    p.KeepsPace d place s (p.workOn (p.maildir.folder folder) o)
      ((p.within M').workOn (M'.folder folder) o') := by
  have hrules : ∀ r ∈ p.rulebook.rulesFor folder, IsUsed p.rules p.now r :=
    fun r hr => Rulebook.isUsed_of_mem_rulesFor hr
  have hoff : (p.within M').calledOff o'.submissions = p.calledOff o.submissions :=
    congrArg p.calledOff h.submissions
  cases hgone : p.calledOff o.submissions with
  | true =>
    rw [workOn_of_calledOff _ hgone, workOn_of_calledOff _ (hoff.trans hgone)]
    exact ⟨h, Or.inl (.refl _)⟩
  | false =>
    by_cases hnone : p.rulebook.rulesFor folder = []
    · rw [workOn_of_no_rules hgone hnone,
        workOn_of_no_rules (p := p.within M') (f := M'.folder folder) (hoff.trans hgone) hnone]
      exact ⟨h, Or.inl (.ok ())⟩
    obtain ⟨P, hP, -⟩ := h.since
    have hplace₁ := (hP.resolve _ _).2 hplace
    have hlisted₁ := hP.listed.2 hlisted
    have hplace₁' : o'.disk.resolve M'.root = .ok place := by
      rw [hroot]
      exact (h.disk.resolve _ _).2 hplace₁
    have htaken : s.IsTaken place o.disk := (h.taken_iff rfl rfl).2 ⟨f, hfile⟩
    have hgone' : o'.disk.item? (place ++ s.names) = none :=
      Disk.view_eq_none.1 (h.disk.view_of_some (if_pos rfl))
    obtain ⟨entries, hentries, hentries'⟩ := Folder.messages_without hP.sound h.disk.sound hgone'
      htaken (fun q hq => h.disk.view_of_none (if_neg hq)) hlisting hplace₁ hplace₁' hroot hlisted₁
    obtain ⟨hwaits, hapart⟩ := Folder.awaits_of_mem_messages hP.sound hplace₁ hlisted₁ hentries
    rw [workOn_of_messages hgone hnone hentries,
      workOn_of_messages (p := p.within M') (f := M'.folder folder) (hoff.trans hgone) hnone
        hentries']
    refine workThrough_keepsPace hplace hfile hbroken hroot hrules hwaits hapart ?_ h
    intro e he hne hstate hname
    obtain ⟨t, rfl, -, ht, rfl⟩ :=
      (Folder.mem_messages hP.sound hplace₁ hlisted.1 hentries).1 he
    rw [t.state_entry] at hstate
    rw [t.name_entry] at hname
    have hlists := (Maildir.lists_iff hd hplace t).2
      ⟨hlisted, (h.taken_iff hstate.symm hname.symm).1 ht⟩
    exact hne (congrArg _ (hunique t hlists hstate.symm hname.symm))

/-- In all folders the passes keep pace. -/
theorem workOnAll_keepsPace {fs : List Folder} (hfs : ∀ f ∈ fs, f = p.maildir.folder f.name ∧
    Listed place d f.name) (h : Office.Lacking d place s o o') :
    Office.Lacking d place s (p.workOnAll fs o).2 ((p.within M').workOnAll fs o').2 := by
  induction fs generalizing o o' with
  | nil => exact h
  | cons g fs ih =>
    obtain ⟨hfolder, hlisted⟩ := hfs g (by simp)
    have hfs' := fun f hf => hfs f (List.mem_cons_of_mem _ hf)
    have hfolder' : g = M'.folder g.name := by rwa [Maildir.folder, hroot]
    rw [workOnAll_cons, workOnAll_cons]
    by_cases hskipped : skippedFolders.contains g.name = true
    · rw [if_pos hskipped, if_pos hskipped]
      exact ih hfs' h
    rw [if_neg hskipped, if_neg hskipped]
    obtain ⟨hafter, hresult⟩ :=
      workOn_keepsPace hplace hfile hbroken hroot hd hunique hlisting hlisted h
    rw [← hfolder, ← hfolder'] at hafter hresult
    rcases hresult with hresult | ⟨hcancelled, hgone⟩
    · by_cases hcancelled : (p.workOn g o).1 = .error .cancelled
      · rw [if_pos hcancelled, if_pos (hresult.cancelled_iff.1 hcancelled)]
        exact hafter
      · rw [if_neg hcancelled, if_neg fun hc => hcancelled (hresult.cancelled_iff.2 hc)]
        exact ih hfs' hafter
    · -- the second pass is called off as well, wherever it is
      have hgone' : (p.within M').calledOff ((p.within M').workOn g o').2.submissions = true :=
        hafter.submissions.symm ▸ hgone
      rw [if_pos hcancelled]
      split
      · exact hafter
      · rw [workOnAll_of_calledOff _ hgone']
        exact hafter

end Folders

end Broken

end Pass

/-- A message whose header block cannot be read is inert.  Take it away, and with all others met in
the same order, a pass comes to the same result, counts the same and gives the same letters to the
post.  Afterwards the disks differ by nothing but the message, which is where it was, byte by
byte. -/
theorem Pass.run_without (p : Pass) (listing : Listing) {d d' : Disk} (hd : d.Sound) {s : Slot}
    {content : Bytes} {fault : HeaderFault}
    (hread : d.read (p.maildir.root ++ s.names) = .ok content)
    (hbroken : Header.read content = .error fault)
    (hunique : ∀ t, p.maildir.Lists d t → t.state = s.state → t.name = s.name → t = s)
    (hremove : d.removeFile (p.maildir.root ++ s.names) = .ok d')
    (hlisting : p.maildir.listing.Omits listing (p.maildir.root ++ [s.folder, s.state.name])
      s.name) :
    let other : Pass := { p with maildir := ⟨p.maildir.root, listing⟩ }
    (other.run (.ofDisk d')).1 = (p.run (.ofDisk d)).1 ∧
      (other.run (.ofDisk d')).2.summary = (p.run (.ofDisk d)).2.summary ∧
      (other.run (.ofDisk d')).2.submissions = (p.run (.ofDisk d)).2.submissions ∧
      (p.run (.ofDisk d)).2.disk.read (p.maildir.root ++ s.names) = .ok content ∧
      ∃ place, d.resolve (p.maildir.root ++ s.names) = .ok place ∧
        (p.run (.ofDisk d)).2.disk.view place = d.view place ∧
        (other.run (.ofDisk d')).2.disk.view place = none ∧
        ∀ q, q ≠ place → (other.run (.ofDisk d')).2.disk.view q =
          (p.run (.ofDisk d)).2.disk.view q := by
  intro other
  obtain ⟨place, hplace⟩ : ∃ place, d.resolve p.maildir.root = .ok place := by
    cases hplace : d.resolve p.maildir.root with
    | ok place => exact ⟨place, rfl⟩
    | error e =>
      simp [Disk.read, Disk.file, Disk.stat, Disk.resolve_append, hplace, bind, Except.bind,
        Except.map] at hread
  obtain ⟨f, hitem, hcontent⟩ := (Disk.read_below hd hplace s.isName_of_mem_names).1 hread
  have hpath : d.resolve (p.maildir.root ++ s.names) = .ok (place ++ s.names) := by
    rw [Disk.resolve_below hplace]
    exact Disk.walk_of_item? hd s.isName_of_mem_names (by simp [hitem])
  have hgone := Disk.Patched.of_removeFile hd hpath hitem hremove
  have hstart : Office.Lacking d place s (.ofDisk d) (.ofDisk d') :=
    ⟨⟨.nothing, .refl hd, fun _ => rfl⟩, hgone, rfl, rfl⟩
  -- both passes list the same folders, and keep pace through them
  obtain ⟨fs, hfs⟩ := Maildir.exists_folders hplace (hd.ancestor place (by simp [Slot.names])
    (by simp [hitem] : (d.item? (place ++ s.names)).isSome))
  have hroot : other.maildir.root = p.maildir.root := rfl
  have hfs' := Maildir.folders_of_patched hd hgone hroot hfs
  have hfolders := Maildir.listed_of_mem_folders hd hplace hfs
  have hafter := Pass.workOnAll_keepsPace hplace hitem (hcontent ▸ hbroken) hroot hd hunique
    hlisting hfolders hstart
  rw [Pass.run_of_folders (p := other) (o := .ofDisk d') hfs',
    Pass.run_of_folders (p := p) (o := .ofDisk d) hfs]
  have hview : (p.workOnAll fs (.ofDisk d)).2.disk.view (place ++ s.names) =
      d.view (place ++ s.names) := by
    simpa only [← s.append_names] using hafter.view_eq (place ++ [s.folder])
  refine ⟨by rw [Pass.workOnAll_eq_ok, Pass.workOnAll_eq_ok], hafter.summary, hafter.submissions,
    ?_, place ++ s.names, hpath, hview, hafter.disk.view_of_some (if_pos rfl),
    fun q hq => hafter.disk.view_of_none (if_neg hq)⟩
  obtain ⟨P, hP, -⟩ := hafter.since
  rw [Disk.view_of_file hitem] at hview
  obtain ⟨f', hf', hcontent', -⟩ := Disk.view_eq_file.1 hview
  exact (Disk.read_below hafter.sound ((hP.resolve _ _).2 hplace) s.isName_of_mem_names).2
    ⟨f', hf', hcontent'.trans hcontent⟩

/-! ### A message that begins with a blank -/

/-- A message whose header block cannot be read. -/
def brokenLetter : Bytes := Utf8.encode " Subject: s\n\nbody\n"

/-- A disk that is a maildir of two folders, with such a message and another one. -/
def brokenDisk : Disk := (Disk.empty 0).plant [] (.folder
  [("INBOX", .folder [("new", .folder []),
      ("cur", .folder [("1.a:2,S", .file brokenLetter none), ("2.b", .file sampleLetter none)]),
      ("tmp", .folder [])]),
    ("work", .folder [("new", .folder []), ("cur", .folder [])])])

theorem sound_brokenDisk : brokenDisk.Sound := Disk.sound_plant 0 (by decide)

theorem filing_run_without :
    let d' := brokenDisk.drop ["INBOX", "cur", "1.a:2,S"]
    (filingPass.run (.ofDisk d')).1 = (filingPass.run (.ofDisk brokenDisk)).1 ∧
      (filingPass.run (.ofDisk d')).2.summary = (filingPass.run (.ofDisk brokenDisk)).2.summary ∧
      (filingPass.run (.ofDisk d')).2.submissions =
        (filingPass.run (.ofDisk brokenDisk)).2.submissions ∧
      (filingPass.run (.ofDisk brokenDisk)).2.disk.read sampleSlot.names = .ok brokenLetter ∧
      ∃ place, brokenDisk.resolve sampleSlot.names = .ok place ∧
        (filingPass.run (.ofDisk brokenDisk)).2.disk.view place = brokenDisk.view place ∧
        (filingPass.run (.ofDisk d')).2.disk.view place = none ∧
        ∀ q, q ≠ place → (filingPass.run (.ofDisk d')).2.disk.view q =
          (filingPass.run (.ofDisk brokenDisk)).2.disk.view q := by
  have hbroken : Header.read brokenLetter = .error .leadingBlank := by decide +kernel
  refine Pass.run_without filingPass .byName sound_brokenDisk (s := sampleSlot) rfl hbroken ?_ rfl
    ⟨fun _ _ _ => rfl, fun _ _ _ => rfl⟩
  rintro t ⟨-, ht⟩ - hname
  have hfiles : ∀ e ∈ brokenDisk.items, e.2 ≠ .folder →
      e.1 = sampleSlot.names ∨ e.1 = ["INBOX", "cur", "2.b"] := by decide
  have hroot : brokenDisk.resolve filingPass.maildir.root = .ok [] := rfl
  obtain ⟨f, hf⟩ := (Maildir.hasMessage_iff sound_brokenDisk hroot t).1 ht
  rw [Disk.item?_of_ne_nil _ (by simp [Slot.names])] at hf
  rcases hfiles _ (mem_of_lookup hf) (by simp) with hpath | hpath
  · exact Slot.names_inj hpath
  · have hother : t.name = "2.b" := congrArg (fun p => p.getLast?.getD []) hpath
    exact absurd (hname.symm.trans hother) (by decide)

end Mailroom
