import Mailroom.Proofs.Maildir.Matching
import Mailroom.Proofs.Pass.Comparing
import Mailroom.Proofs.Pass.Conservation
import Mailroom.Proofs.Pass.Coverage

/-!
# Passes that meet messages in another order

The order in which the messages of a folder are met makes no difference: what is done to one
message neither depends on what was done to another one nor gets in its way.

* `Pass.Untroubled` says that no error ends the work on a folder, so that all messages have their
  turns.
* `Office.Reordered` is all that the order can change in an office: the order of the letters.
* `turns_swap` has two messages change places, and `workThrough_perm` any number of them.
* `Pass.run_reordered` is the result.
-/

namespace Mailroom

namespace Pass

/-! ## Passes without trouble -/

/-- Whether no error ends the work on a folder while messages of it have their turns. -/
def GoesWell (p : Pass) (rules : List Rule) : List Entry → Office → Prop
  | [], _ => True
  | e :: rest, o =>
    (p.calledOff o.submissions = false → p.isRecent o.disk e = true → ∀ error,
      ((p.handle rules).onMessage (.ofEntry e) o).1 = .error error → error.endsFolder = false) ∧
    p.GoesWell rules rest (p.takeUp rules e o).2

/-- Whether no error ends the work on any of some folders. -/
def AllGoesWell (p : Pass) : List Folder → Office → Prop
  | [], _ => True
  | f :: rest, o =>
    if skippedFolders.contains f.name then p.AllGoesWell rest o
    else
      (∀ entries, f.messages p.maildir.listing o.disk = .ok entries →
        p.GoesWell (p.rulebook.rulesFor f.name) entries o) ∧
      p.AllGoesWell rest (p.workOn f o).2

/-- Whether a pass is made without an error that ends the work on a folder. -/
def Untroubled (p : Pass) (o : Office) : Prop :=
  ∀ fs, p.maildir.folders o.disk = .ok fs → p.AllGoesWell fs o

end Pass

/-! ## Offices that differ in the order of the letters -/

/-- Two offices in which the same was done since the disk was as given, but in another order. -/
structure Office.Reordered (d : Disk) (o o' : Office) : Prop where
  /-- The disk has changed. -/
  since : ∃ P, d.Patched P o.disk
  /-- The same can be seen on both disks. -/
  disk : o.disk.Patched .nothing o'.disk
  /-- The same was counted. -/
  summary : o'.summary = o.summary
  /-- The same letters were given to the post. -/
  submissions : o.submissions.Perm o'.submissions

namespace Office.Reordered

variable {d : Disk} {o o' o'' o₁ o₁' : Office}

theorem refl {P : Patch} (h : d.Patched P o.disk) : Reordered d o o :=
  ⟨⟨P, h⟩, .refl h.sound, rfl, .refl _⟩

theorem trans (h : Reordered d o o') (h' : Reordered d o' o'') : Reordered d o o'' := by
  refine ⟨h.since, ?_, h'.summary.trans h.summary, h.submissions.trans h'.submissions⟩
  have hdisk := h.disk.trans h'.disk
  rwa [Patch.nothing_andThen] at hdisk

/-- The same deed keeps them so. -/
theorem done (h : Reordered d o o') {w : Deed} {M M' : Maildir} {state : ReadState} {name : Text}
    (hroot : M'.root = M.root) (hdone : w.Done M state name o o₁)
    (hdone' : w.Done M' state name o' o₁') : Reordered d o₁ o₁' := by
  obtain ⟨P, hP⟩ := h.since
  refine ⟨⟨_, hP.trans hdone.disk⟩, h.disk.square hdone.disk hdone'.disk ?_, ?_, ?_⟩
  · rw [Patch.nothing_andThen, Patch.andThen_nothing]
  · rw [hdone'.summary, hdone.summary, h.summary]
  · rw [hdone.submissions, hdone'.submissions, Maildir.submission_congr hroot]
    exact h.submissions.append_right _

end Office.Reordered

namespace Pass

variable {p : Pass} {M' : Maildir} {d : Disk} {o o' : Office} {rules : List Rule} {e e' : Entry}
  {folder : Text} {r : Path}

/-! ## Messages that change places -/

section Turns

variable (hgoes : ∀ submissions, p.calledOff submissions = false)
  (hpost : ∀ f, p.forwarder = some f → f.post.IsSteady)
  (hrules : ∀ r ∈ rules, IsUsed p.rules p.now r)

include hgoes hpost hrules

/-- A message comes to the same in two offices on whose disks it looks the same. -/
theorem exists_turn_of_steady {P : Patch} (hroot : M'.root = p.maildir.root) (ho : o.disk.Sound)
    (h : o.disk.Patched P o'.disk) (hwait : e.Awaits (p.maildir.folder folder) r o.disk)
    (hsame : P (r ++ [e.state.name, e.name]) = none) :
    ∃ w : Deed, w.Concerns .whole e.state e.name ∧
      SameOutcome (p.takeUp rules e o).1 ((p.within M').takeUp rules e o').1 ∧
      w.Done p.maildir e.state e.name o (p.takeUp rules e o).2 ∧
      w.Done M' e.state e.name o' ((p.within M').takeUp rules e o').2 :=
  exists_turn_of_patched hroot ho h hwait hsame ((hgoes _).trans (hgoes _).symm)
    (answersAlike_of_steady hpost _ _) hrules

/-- Two messages may have their turns in any order. -/
theorem turns_swap {P : Patch} (hd : d.Patched P o.disk)
    (hwait : e.Awaits (p.maildir.folder folder) r o.disk)
    (hwait' : e'.Awaits (p.maildir.folder folder) r o.disk) (hapart : e.Apart e')
    (hok : (p.takeUp rules e o).1 = .ok ())
    (hok' : (p.takeUp rules e' (p.takeUp rules e o).2).1 = .ok ()) :
    (p.takeUp rules e' o).1 = .ok () ∧ (p.takeUp rules e (p.takeUp rules e' o).2).1 = .ok () ∧
      Office.Reordered d (p.takeUp rules e' (p.takeUp rules e o).2).2
        (p.takeUp rules e (p.takeUp rules e' o).2).2 := by
  have ho := hd.sound
  have hroot : p.maildir.root = p.maildir.root := rfl
  -- what the first one does is found by comparing its turn with itself
  obtain ⟨v, hv, -, hdone, -⟩ := exists_turn_of_steady hgoes hpost hrules hroot ho (.refl ho)
    hwait rfl
  obtain ⟨w', hw', hresult', hfirst', hsecond'⟩ := exists_turn_of_steady hgoes hpost hrules
    hroot ho hdone.disk hwait' (hv.eq_none hapart)
  obtain ⟨w, hw, hresult, hfirst, hsecond⟩ := exists_turn_of_steady hgoes hpost hrules
    hroot ho hfirst'.disk hwait (hw'.eq_none hapart.symm)
  rw [within_self] at hresult hresult' hsecond hsecond'
  have hfirst_ok : (p.takeUp rules e' o).1 = .ok () := by
    cases hrun : (p.takeUp rules e' o).1 with
    | ok u => rfl
    | error error =>
      have hno : SameOutcome (.error error) (.ok ()) := hrun ▸ hok' ▸ hresult'
      cases hno
  refine ⟨hfirst_ok, (hok ▸ hresult).eq_ok, ⟨_, (hd.trans hfirst.disk).trans hsecond'.disk⟩, ?_, ?_, ?_⟩
  · have hback := hfirst'.disk.trans hsecond.disk
    rw [← hw.andThen_comm hw' hapart] at hback
    exact (Disk.Patched.refl ho).square (hfirst.disk.trans hsecond'.disk) hback
      (by rw [Patch.nothing_andThen, Patch.andThen_nothing])
  · rw [hsecond.summary, hfirst'.summary, hsecond'.summary, hfirst.summary,
      ← Summary.recordAll_append, ← Summary.recordAll_append]
    exact Summary.recordAll_perm _ List.perm_append_comm
  · rw [hsecond.submissions, hfirst'.submissions, hsecond'.submissions, hfirst.submissions,
      List.append_assoc, List.append_assoc]
    exact List.perm_append_comm.append_left _

/-- While two offices differ in nothing but the order of the letters, a message comes to the same in
both. -/
theorem turn_of_reordered (hroot : M'.root = p.maildir.root) (h : Office.Reordered d o o')
    (hwait : e.Awaits (p.maildir.folder folder) r o.disk) :
    Tally (Office.Reordered d) (p.takeUp rules e o) ((p.within M').takeUp rules e o') ∧
      ∀ e', e.Apart e' → e'.Awaits (p.maildir.folder folder) r o.disk →
        e'.Awaits (p.maildir.folder folder) r (p.takeUp rules e o).2.disk := by
  obtain ⟨_, hP⟩ := h.since
  obtain ⟨w, hconcerns, hresult, hdone, hdone'⟩ :=
    exists_turn_of_steady hgoes hpost hrules hroot hP.sound h.disk hwait rfl
  exact ⟨⟨hresult, h.done hroot hdone hdone'⟩, fun e' hapart => hdone.awaits hconcerns hapart⟩

theorem workThrough_of_reordered (hroot : M'.root = p.maildir.root) {entries : List Entry}
    (hwaits : ∀ e ∈ entries, e.Awaits (p.maildir.folder folder) r o.disk)
    (hapart : entries.Pairwise Entry.Apart) (h : Office.Reordered d o o') :
    Tally (Office.Reordered d) (p.workThrough rules entries o)
      ((p.within M').workThrough rules entries o') := by
  have hwithin : ∀ {e : Entry}, e.folder = p.maildir.folder folder → e.within M' = e :=
    Entry.within_of_root hroot
  have hsame : entries.map (Entry.within · M') = entries :=
    (List.map_congr_left fun e he => hwithin (hwaits e he).folder).trans (List.map_id _)
  have htally : Tally (Office.Reordered d) (p.workThrough rules entries o)
      ((p.within M').workThrough rules (entries.map (Entry.within · M')) o') :=
    tally_workThrough (fun e _ o o' h hwait => by
      rw [hwithin hwait.folder]
      exact turn_of_reordered hgoes hpost hrules hroot h hwait) hwaits hapart h
  rwa [hsame] at htally

/-- After the turn of one message, the others still await theirs. -/
theorem awaits_takeUp {P : Patch} (hd : d.Patched P o.disk)
    (hwait : e.Awaits (p.maildir.folder folder) r o.disk) :
    (∃ P', d.Patched P' (p.takeUp rules e o).2.disk) ∧ ∀ e', e.Apart e' →
      e'.Awaits (p.maildir.folder folder) r o.disk →
        e'.Awaits (p.maildir.folder folder) r (p.takeUp rules e o).2.disk := by
  obtain ⟨⟨-, hsame⟩, hkeeps⟩ := turn_of_reordered hgoes hpost hrules
    (rfl : p.maildir.root = p.maildir.root) (.refl hd) hwait
  exact ⟨hsame.since, hkeeps⟩

/-- The messages of a folder may have their turns in any order. -/
theorem workThrough_perm {P : Patch} {entries entries' : List Entry}
    (hperm : entries.Perm entries') (hd : d.Patched P o.disk)
    (hwaits : ∀ e ∈ entries, e.Awaits (p.maildir.folder folder) r o.disk)
    (hapart : entries.Pairwise Entry.Apart) (hok : (p.workThrough rules entries o).1 = .ok ()) :
    (p.workThrough rules entries' o).1 = .ok () ∧
      Office.Reordered d (p.workThrough rules entries o).2 (p.workThrough rules entries' o).2 := by
  induction hperm generalizing o P with
  | nil => exact ⟨rfl, .refl hd⟩
  | cons e _ ih =>
    obtain ⟨hfirst, hrest⟩ := List.pairwise_cons.1 hapart
    obtain ⟨hok₁, hok₂⟩ := workThrough_cons_eq_ok.1 hok
    obtain ⟨⟨_, hd₁⟩, hkeeps⟩ := awaits_takeUp hgoes hpost hrules hd (hwaits e (by simp))
    rw [workThrough_of_ok hok₁, workThrough_of_ok hok₁]
    exact ih hd₁ (fun e' he' => hkeeps e' (hfirst e' he') (hwaits e' (by simp [he']))) hrest hok₂
  | swap e' e entries =>
    obtain ⟨hfirst, hrest⟩ := List.pairwise_cons.1 hapart
    obtain ⟨hsecond, hrest⟩ := List.pairwise_cons.1 hrest
    obtain ⟨hok₁, hok₂⟩ := workThrough_cons_eq_ok.1 hok
    obtain ⟨hok₂, hok₃⟩ := workThrough_cons_eq_ok.1 hok₂
    obtain ⟨hok₁', hok₂', hsame⟩ := turns_swap hgoes hpost hrules hd (hwaits e (by simp))
      (hwaits e' (by simp)) (hfirst e' (by simp)) hok₁ hok₂
    rw [workThrough_of_ok hok₁, workThrough_of_ok hok₂, workThrough_of_ok hok₁',
      workThrough_of_ok hok₂']
    obtain ⟨⟨_, hd₁⟩, hkeeps₁⟩ := awaits_takeUp hgoes hpost hrules hd (hwaits e (by simp))
    obtain ⟨-, hkeeps₂⟩ := awaits_takeUp hgoes hpost hrules hd₁
      (hkeeps₁ e' (hfirst e' (by simp)) (hwaits e' (by simp)))
    have hwaits' : ∀ x ∈ entries, x.Awaits (p.maildir.folder folder) r
        (p.takeUp rules e' (p.takeUp rules e o).2).2.disk := fun x hx =>
      hkeeps₂ x (hsecond x hx) (hkeeps₁ x (hfirst x (by simp [hx])) (hwaits x (by simp [hx])))
    obtain ⟨hresult, hafter⟩ := workThrough_of_reordered hgoes hpost hrules
      (rfl : p.maildir.root = p.maildir.root) hwaits' hrest hsame
    rw [hok₃] at hresult
    exact ⟨hresult.eq_ok, hafter⟩
  | trans hperm₁ _ ih₁ ih₂ =>
    obtain ⟨hok₁, hsame₁⟩ := ih₁ hd hwaits hapart hok
    obtain ⟨hok₂, hsame₂⟩ := ih₂ hd (fun e he => hwaits e (hperm₁.mem_iff.2 he))
      (hapart.perm hperm₁ fun h => h.symm) hok₁
    exact ⟨hok₂, hsame₁.trans hsame₂⟩

end Turns

/-! ## Folders -/

section Folders

variable {place : Path} {fs : List Folder}

/-- Messages that have their turns without trouble end the work on a folder well. -/
theorem workThrough_of_goesWell (hgoes : ∀ submissions, p.calledOff submissions = false)
    {entries : List Entry} (h : p.GoesWell rules entries o) :
    (p.workThrough rules entries o).1 = .ok () := by
  induction entries generalizing o with
  | nil => rfl
  | cons e entries ih =>
    obtain ⟨hfirst, hrest⟩ := h
    have hok : (p.takeUp rules e o).1 = .ok () := by
      rw [takeUp_run, hgoes]
      by_cases hlate : p.isRecent o.disk e = true
      · simp only [hlate, if_true, Bool.false_eq_true, if_false]
        cases hrun : ((p.handle rules).onMessage (.ofEntry e) o).1 with
        | ok u => rfl
        | error error => simp [settled, hfirst (hgoes _) hlate error hrun]
      · simp [hlate]
    exact workThrough_cons_eq_ok.2 ⟨hok, ih hrest⟩

variable (hgoes : ∀ submissions, p.calledOff submissions = false)
  (hpost : ∀ f, p.forwarder = some f → f.post.IsSteady) (hroot : M'.root = p.maildir.root)
  (hplace : d.resolve p.maildir.root = .ok place)

include hgoes hpost hroot hplace

/-- The work on a folder comes to the same, whatever the order of its messages. -/
theorem workOn_of_reordered (hlisted : Listed place d folder)
    (hwell : ∀ entries,
      (p.maildir.folder folder).messages p.maildir.listing o.disk = .ok entries →
        p.GoesWell (p.rulebook.rulesFor folder) entries o) (h : Office.Reordered d o o') :
    (p.workOn (p.maildir.folder folder) o).1 = .ok () ∧
      ((p.within M').workOn (M'.folder folder) o').1 = .ok () ∧
      Office.Reordered d (p.workOn (p.maildir.folder folder) o).2
        ((p.within M').workOn (M'.folder folder) o').2 := by
  have hrules : ∀ r ∈ p.rulebook.rulesFor folder, IsUsed p.rules p.now r :=
    fun r hr => Rulebook.isUsed_of_mem_rulesFor hr
  obtain ⟨P, hP⟩ := h.since
  have hplace₁ := (hP.resolve _ _).2 hplace
  have hlisted₁ := hP.listed.2 hlisted
  have hplace₁' : o'.disk.resolve M'.root = .ok place := by
    rw [hroot]
    exact (h.disk.resolve _ _).2 hplace₁
  obtain ⟨entries, entries', hentries, hentries', hperm⟩ := Folder.messages_perm hP.sound
    h.disk.sound hplace₁ hplace₁' hlisted₁ hroot fun ns => h.disk.view_of_none rfl
  obtain ⟨hwaits, hapart⟩ := Folder.awaits_of_mem_messages hP.sound hplace₁ hlisted₁ hentries
  by_cases hnone : p.rulebook.rulesFor folder = []
  · rw [workOn_of_no_rules (hgoes _) hnone,
      workOn_of_no_rules (p := p.within M') (f := M'.folder folder) (hgoes _) hnone]
    exact ⟨rfl, rfl, h⟩
  · obtain ⟨hok, hsame⟩ := workThrough_perm hgoes hpost hrules hperm hP hwaits hapart
      (workThrough_of_goesWell hgoes (hwell entries hentries))
    obtain ⟨hresult, hsame'⟩ := workThrough_of_reordered hgoes hpost hrules hroot
      (fun e he => hwaits e (hperm.mem_iff.2 he)) (hapart.perm hperm fun h => h.symm) h
    rw [workOn_of_messages (hgoes _) hnone hentries,
      workOn_of_messages (p := p.within M') (f := M'.folder folder) (hgoes _) hnone hentries']
    have hok' := workThrough_of_goesWell hgoes (hwell entries hentries)
    have hpair : SameOutcome (.ok ()) ((p.within M').workThrough (p.rulebook.rulesFor folder)
        entries' o').1 := hok ▸ hresult
    exact ⟨hok', hpair.eq_ok, hsame.trans hsame'⟩

theorem workOnAll_of_reordered (hfs : ∀ f ∈ fs, f = p.maildir.folder f.name ∧
    Listed place d f.name) (hwell : p.AllGoesWell fs o) (h : Office.Reordered d o o') :
    Office.Reordered d (p.workOnAll fs o).2 ((p.within M').workOnAll fs o').2 := by
  induction fs generalizing o o' with
  | nil => exact h
  | cons f fs ih =>
    obtain ⟨hfolder, hlisted⟩ := hfs f (by simp)
    have hfs' := fun f hf => hfs f (List.mem_cons_of_mem _ hf)
    have hfolder' : f = M'.folder f.name := by rwa [Maildir.folder, hroot]
    rw [workOnAll_cons, workOnAll_cons]
    simp only [AllGoesWell] at hwell
    by_cases hskipped : skippedFolders.contains f.name = true
    · rw [if_pos hskipped] at hwell ⊢
      rw [if_pos hskipped]
      exact ih hfs' hwell h
    · rw [if_neg hskipped] at hwell ⊢
      obtain ⟨hwell₁, hwell₂⟩ := hwell
      obtain ⟨hok, hok', hsame⟩ := workOn_of_reordered hgoes hpost hroot hplace hlisted
        (hfolder ▸ hwell₁) h
      rw [← hfolder] at hok hsame
      rw [← hfolder'] at hok' hsame
      rw [if_neg hskipped, if_neg (by rw [hok]; simp), if_neg (by rw [hok']; simp)]
      exact ih hfs' hwell₂ hsame

end Folders

end Pass

/-- Whatever the order in which the messages of each folder are met, a pass that is made without
trouble, and is not called off on the way, does the same: its result, what it counts, what can be
seen anywhere on the disk afterwards, and the letters that it gives to the post are the same. -/
theorem Pass.run_reordered (p : Pass) (listing : Listing) {d : Disk} (hd : d.Sound)
    (hoff : ∀ submissions, p.calledOff submissions = p.calledOff [])
    (hpost : ∀ f, p.forwarder = some f → f.post.IsSteady) (hwell : p.Untroubled (.ofDisk d)) :
    let other : Pass := { p with maildir := ⟨p.maildir.root, listing⟩ }
    (other.run (.ofDisk d)).1 = (p.run (.ofDisk d)).1 ∧
      (other.run (.ofDisk d)).2.summary = (p.run (.ofDisk d)).2.summary ∧
      (∀ q, (other.run (.ofDisk d)).2.disk.view q = (p.run (.ofDisk d)).2.disk.view q) ∧
      (p.run (.ofDisk d)).2.submissions.Perm (other.run (.ofDisk d)).2.submissions := by
  intro other
  cases hfs : p.maildir.folders d with
  | error e =>
    rw [Pass.run_of_error (p := other) (o := .ofDisk d) hfs,
      Pass.run_of_error (p := p) (o := .ofDisk d) hfs]
    exact ⟨rfl, rfl, fun _ => rfl, .refl _⟩
  | ok fs =>
    rw [Pass.run_of_folders (p := other) (o := .ofDisk d) hfs,
      Pass.run_of_folders (p := p) (o := .ofDisk d) hfs]
    refine ⟨by rw [Pass.workOnAll_eq_ok, Pass.workOnAll_eq_ok], ?_⟩
    cases hgone : p.calledOff [] with
    | true =>
      rw [Pass.workOnAll_of_calledOff (p := other) (o := .ofDisk d) fs hgone,
        Pass.workOnAll_of_calledOff (p := p) (o := .ofDisk d) fs hgone]
      exact ⟨rfl, fun _ => rfl, .refl _⟩
    | false =>
      obtain ⟨place, hplace, -⟩ := Maildir.place_of_folders hfs
      have hfolders := Maildir.listed_of_mem_folders hd hplace hfs
      have hroot : other.maildir.root = p.maildir.root := rfl
      have hsame := Pass.workOnAll_of_reordered
        (fun submissions => (hoff submissions).trans hgone) hpost hroot hplace hfolders
        (hwell fs hfs) (Office.Reordered.refl (.refl hd))
      exact ⟨hsame.summary, fun q => hsame.disk.view_of_none rfl, hsame.submissions⟩

/-! ### A pass over two messages -/

/-- A disk that is a maildir of two folders, with two messages in one of them. -/
def pairDisk : Disk := (Disk.empty 0).plant [] (.folder
  [("INBOX", .folder [("new", .folder []),
      ("cur", .folder [("1.a:2,S", .file sampleLetter none), ("2.b", .file sampleLetter none)]),
      ("tmp", .folder [])]),
    ("gmail.Trash", .folder [("new", .folder []), ("cur", .folder [])])])

theorem sound_pairDisk : pairDisk.Sound := Disk.sound_plant 0 (by decide)

/-- A pass that labels messages of a subject and moves them to the trash. -/
def trashingPass : Pass :=
  { filingPass with rules := [{ filingRule with moveTo := some "gmail.Trash" }] }

/-- Files are met in decreasing order of their names. -/
def Listing.byNameDown : Listing := ⟨fun _ l => l.reverse, fun _ l => l.reverse_perm⟩

theorem fileNames_pairDisk :
    pairDisk.fileNames ["INBOX", "new"] = [] ∧
      pairDisk.fileNames ["INBOX", "cur"] = ["1.a:2,S", "2.b"] := by
  have hfiles : ∀ (p : Path) (n : Text), (∃ f, pairDisk.item? (p ++ [n]) = some (.file f)) →
      p ++ [n] = ["INBOX", "cur"] ++ ["1.a:2,S"] ∨ p ++ [n] = ["INBOX", "cur"] ++ ["2.b"] := by
    rintro p n ⟨f, hf⟩
    have hall : ∀ e ∈ pairDisk.items, e.2 ≠ .folder →
        e.1 = ["INBOX", "cur", "1.a:2,S"] ∨ e.1 = ["INBOX", "cur", "2.b"] := by decide
    rw [Disk.item?_of_ne_nil _ (by simp)] at hf
    exact hall _ (mem_of_lookup hf) (by simp)
  constructor
  · refine Disk.fileNames_eq sound_pairDisk .nil fun n => ⟨fun h => ?_, by simp⟩
    rcases hfiles _ n h with heq | heq <;> simp at heq
  · refine Disk.fileNames_eq sound_pairDisk (by decide) fun n => ⟨fun h => ?_, fun h => ?_⟩
    · rcases hfiles _ n h with heq | heq <;> simp_all
    · rcases List.mem_pair.1 h with rfl | rfl <;> exact ⟨_, rfl⟩

theorem trashing_untroubled : trashingPass.Untroubled (.ofDisk pairDisk) := by
  have hnames : (["INBOX", "gmail.Trash"] : List Text).Pairwise (· < ·) := by decide
  have hfolders : trashingPass.maildir.folders pairDisk =
      .ok [⟨[], "INBOX"⟩, ⟨[], "gmail.Trash"⟩] :=
    Maildir.folders_of_root sound_pairDisk rfl hnames (by decide) (by decide)
  have hlisted : Listed [] pairDisk "INBOX" := by decide
  have hentries := Folder.messages_eq (M := trashingPass.maildir) sound_pairDisk rfl hlisted
  simp only [List.nil_append, ReadState.name] at hentries
  rw [fileNames_pairDisk.1, fileNames_pairDisk.2] at hentries
  intro fs hfs
  obtain rfl := Except.ok.inj (hfolders.symm.trans hfs)
  refine ⟨fun entries h => ?_, trivial⟩
  obtain rfl := Except.ok.inj (hentries.symm.trans h)
  have hfirst : ((trashingPass.handle (trashingPass.rulebook.rulesFor "INBOX")).onMessage
      (.ofEntry (.ofName ⟨[], "INBOX"⟩ .cur "1.a:2,S")) (.ofDisk pairDisk)).1 = .ok () := by
    decide +kernel
  have hsecond : ((trashingPass.handle (trashingPass.rulebook.rulesFor "INBOX")).onMessage
      (.ofEntry (.ofName ⟨[], "INBOX"⟩ .cur "2.b")) (trashingPass.takeUp
        (trashingPass.rulebook.rulesFor "INBOX") (.ofName ⟨[], "INBOX"⟩ .cur "1.a:2,S")
        (.ofDisk pairDisk)).2).1 = .ok () := by
    decide +kernel
  refine ⟨fun _ _ error herror => ?_, fun _ _ error herror => ?_, trivial⟩
  · exact absurd (hfirst.symm.trans herror) (by simp)
  · exact absurd (hsecond.symm.trans herror) (by simp)

theorem trashing_run_reordered :
    let other : Pass := { trashingPass with maildir := ⟨[], .byNameDown⟩ }
    (other.run (.ofDisk pairDisk)).1 = (trashingPass.run (.ofDisk pairDisk)).1 ∧
      (other.run (.ofDisk pairDisk)).2.summary = (trashingPass.run (.ofDisk pairDisk)).2.summary ∧
      (∀ q, (other.run (.ofDisk pairDisk)).2.disk.view q =
        (trashingPass.run (.ofDisk pairDisk)).2.disk.view q) ∧
      (trashingPass.run (.ofDisk pairDisk)).2.submissions.Perm
        (other.run (.ofDisk pairDisk)).2.submissions :=
  Pass.run_reordered trashingPass .byNameDown sound_pairDisk (fun _ => rfl)
    (fun f hf => absurd hf (by simp [trashingPass, filingPass])) trashing_untroubled

end Mailroom
