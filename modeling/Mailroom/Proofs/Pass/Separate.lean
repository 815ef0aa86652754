import Mailroom.Proofs.Pass.Again
import Mailroom.Proofs.Pass.Comparing
import Mailroom.Proofs.Pass.Persisting

/-!
# Folders that have nothing to do with each other

While no rule moves messages, a pass through all folders comes to what passes through one folder
each come to, even if the work on some of them breaks off.  So folders may be worked on apart, and
what was counted be merged.

* `Maildir.SameFolder` says that the same can be seen in a folder of two maildirs, and
  `Maildir.Secludes` that the one has only this folder.
* `Office.Secluded` relates an office in which a folder is one of many to one in which it is the
  only one; `Pass.workOn_secluded` keeps it.
* `Pass.run_eq_merge` is the result.
* `Disk.solely` takes away all folders but one, and `Maildir.secludes_solely` says that this
  secludes it.
-/

namespace Mailroom

/-! ## Folders by themselves -/

namespace Maildir

/-- Whether the same can be seen in the folders of one name of two maildirs. -/
def SameFolder (M : Maildir) (d : Disk) (M' : Maildir) (d' : Disk) (name : Text) : Prop :=
  ∃ place place', d.resolve M.root = .ok place ∧ d'.resolve M'.root = .ok place' ∧
    ∀ ns, d'.view (place' ++ name :: ns) = d.view (place ++ name :: ns)

/-- Whether a maildir has no folder but a copy of one of another maildir, in which the messages
are met in the same order. -/
structure Secludes (M : Maildir) (d : Disk) (name : Text) (M' : Maildir) (d' : Disk) : Prop where
  /-- The disk is sound. -/
  sound : d'.Sound
  /-- The time is the same. -/
  clock : d'.clock = d.clock
  /-- There is no other folder. -/
  alone : M'.folders d' = .ok [M'.folder name]
  /-- The folder is a copy. -/
  copy : M.SameFolder d M' d' name
  /-- The messages are met in the same order. -/
  listing : ∀ s l, M'.listing.arrange ((M'.folder name).statePath s) l =
    M.listing.arrange ((M.folder name).statePath s) l

/-- Changes elsewhere do not matter. -/
theorem SameFolder.of_patched {M M' : Maildir} {d d₁ d' : Disk} {place : Path} {name : Text}
    {P : Patch} (h : M.SameFolder d M' d' name) (hplace : d.resolve M.root = .ok place)
    (hP : d.Patched P d₁) (hnone : ∀ ns, P (place ++ name :: ns) = none) :
    M.SameFolder d₁ M' d' name := by
  obtain ⟨q, place', hq, hplace', hview⟩ := h
  obtain rfl := Except.ok.inj (hq.symm.trans hplace)
  refine ⟨q, place', (hP.resolve _ _).2 hq, hplace', fun ns => ?_⟩
  rw [hview, hP.view_of_none (hnone ns)]

end Maildir

/-- Two offices in which the same was done in a folder since the disks were as given.  In the first
one, the folder is one of many, and something had been counted before; in the second one, it is the
only folder. -/
structure Office.Secluded (p : Pass) (place : Path) (d : Disk) (name : Text) (M' : Maildir)
    (place' : Path) (d' : Disk) (before : Summary) (o o' : Office) : Prop where
  /-- A pass does the same to the messages of the folder. -/
  parallel : p.Parallel (.below (place ++ [name]) (place' ++ [name])) (· = name) M' o.disk o'.disk
  /-- The same can be seen in the folder. -/
  view : ∀ ns, o'.disk.view (place' ++ name :: ns) = o.disk.view (place ++ name :: ns)
  /-- Nothing has changed elsewhere. -/
  since : ∃ P, d.Patched P o.disk ∧ ∀ q, ¬ place ++ [name] <+: q → P q = none
  /-- The other disk has changed. -/
  since' : ∃ P, d'.Patched P o'.disk
  /-- The same was counted, besides what had been counted before. -/
  summary : o.summary = before.merge o'.summary

namespace Office.Secluded

variable {p : Pass} {place place' : Path} {d d' : Disk} {name : Text} {M' : Maildir}
  {before : Summary} {o o' o₁ o₁' : Office}

/-- So it is in the beginning. -/
theorem of_copy (ho : o.disk.Sound) (hplace : o.disk.resolve p.maildir.root = .ok place)
    (hlisted : Listed place o.disk name) (hd' : d'.Sound)
    (hplace' : d'.resolve M'.root = .ok place') (hclock : d'.clock = o.disk.clock)
    (hview : ∀ ns, d'.view (place' ++ name :: ns) = o.disk.view (place ++ name :: ns))
    (hmoves : ∀ r, IsUsed p.rules p.now r → r.moveTo = none) :
    Secluded p place o.disk name M' place' d' o.summary o (.ofDisk d') := by
  have hlisted' := (Folder.listed_congr hview).2 hlisted
  refine ⟨⟨⟨ho, hd', hclock, ?_, ?_⟩, fun r hr g hg => ?_⟩, hview,
    ⟨_, .refl ho, fun _ _ => rfl⟩, ⟨_, .refl hd'⟩, (Summary.merge_empty _).symm⟩
  · rintro q ⟨ns, rfl⟩
    have hsame := hview ns
    rw [Chart.below_shift, ← Disk.view_eq_folder, ← Disk.view_eq_folder, List.append_assoc,
      List.append_assoc]
    exact hsame ▸ Iff.rfl
  · rintro n rfl
    have hshift := Chart.below_shift (place ++ [n]) (place' ++ [n]) []
    rw [List.append_nil, List.append_nil] at hshift
    refine Or.inl ⟨place ++ [n], List.prefix_rfl, hlisted.resolve ho hplace, ?_⟩
    rw [hshift]
    exact hlisted'.resolve hd' hplace'
  · rw [hmoves r hr] at hg
    exact absurd hg (by simp)

/-- A deed for a message of the folder keeps it so. -/
theorem done (h : Secluded p place d name M' place' d' before o o') {w : Deed} {state : ReadState}
    {n : Text} (hw : w.Concerns (.below (place ++ [name]) (place' ++ [name])) state n)
    (hdone : w.Done p.maildir state n o o₁)
    (hdone' : (w.across (.below (place ++ [name]) (place' ++ [name]))).Done M' state n o' o₁') :
    Secluded p place d name M' place' d' before o₁ o₁' := by
  obtain ⟨P, hP, hnone⟩ := h.since
  obtain ⟨P', hP'⟩ := h.since'
  refine ⟨⟨h.parallel.faces.patched hdone.disk hdone'.disk, h.parallel.moves⟩, fun ns => ?_,
    ⟨_, hP.trans hdone.disk, fun q hq => ?_⟩, ⟨_, hP'.trans hdone'.disk⟩, ?_⟩
  · have hland := Chart.below_land (place ++ [name]) (place' ++ [name]) ns
    have hshift := Chart.below_shift (place ++ [name]) (place' ++ [name]) ns
    have hchange : (w.across (.below (place ++ [name]) (place' ++ [name]))).changes
        (place' ++ name :: ns) = w.changes (place ++ name :: ns) := by
      have hpush := Chart.push_shift w.changes hland
      rw [hshift, List.append_assoc, List.append_assoc] at hpush
      exact hpush
    rw [hdone'.disk.view, hdone.disk.view, hchange, h.view]
  · have hnone' : w.changes q = none := by
      cases hchange : w.changes q with
      | none => rfl
      | some look =>
        obtain ⟨r, hr, hat | ⟨hat, -⟩⟩ := hw q look hchange
        · exact absurd (hat ▸ Chart.land_append _ _ hr) hq
        · exact absurd (hat ▸ Chart.land_append _ _ hr) hq
    rw [Patch.andThen, hnone', hnone q hq]
    rfl
  · rw [hdone.summary, hdone'.summary, h.summary]
    exact (Summary.merge_recordAll _ _ _).symm

end Office.Secluded

/-! ## The work on a folder -/

namespace Pass

variable {p : Pass} {place place' : Path} {d d' : Disk} {name : Text} {M' : Maildir}
  {before : Summary} {o o' : Office} {rules : List Rule} {e : Entry}

section Folder

variable (hgoes : ∀ submissions, p.calledOff submissions = false)
  (hpost : ∀ f, p.forwarder = some f → f.post.IsSteady)

include hgoes hpost

/-- A message of the folder comes to the same in both offices. -/
theorem turn_of_secluded (hrules : ∀ r ∈ rules, IsUsed p.rules p.now r)
    (h : Office.Secluded p place d name M' place' d' before o o')
    (hwait : e.Awaits (p.maildir.folder name) (place ++ [name]) o.disk) :
    Tally (Office.Secluded p place d name M' place' d' before) (p.takeUp rules e o)
        ((p.within M').takeUp rules (e.within M') o') ∧
      ∀ e', e.Apart e' → e'.Awaits (p.maildir.folder name) (place ++ [name]) o.disk →
        e'.Awaits (p.maildir.folder name) (place ++ [name]) (p.takeUp rules e o).2.disk := by
  have hsame : o'.disk.view ((Chart.below (place ++ [name]) (place' ++ [name])).shift
      ((place ++ [name]) ++ [e.state.name, e.name])) =
      o.disk.view ((place ++ [name]) ++ [e.state.name, e.name]) := by
    rw [Chart.below_shift]
    simpa using h.view [e.state.name, e.name]
  obtain ⟨w, hw, hresult, hdone, hdone'⟩ := h.parallel.exists_turn rfl List.prefix_rfl hsame hwait
    ((hgoes _).trans (hgoes _).symm) (answersAlike_of_steady hpost _ _) hrules
  exact ⟨⟨hresult, h.done hw hdone hdone'⟩, fun e' hapart => hdone.awaits hw hapart⟩

/-- The work on the folder comes to the same in both offices. -/
theorem workOn_secluded (hplace : d.resolve p.maildir.root = .ok place)
    (hlisted : Listed place d name) (hplace' : d'.resolve M'.root = .ok place')
    (hlisting : ∀ s l, M'.listing.arrange ((M'.folder name).statePath s) l =
      p.maildir.listing.arrange ((p.maildir.folder name).statePath s) l)
    (h : Office.Secluded p place d name M' place' d' before o o') :
    Tally (Office.Secluded p place d name M' place' d' before)
      (p.workOn (p.maildir.folder name) o) ((p.within M').workOn (M'.folder name) o') := by
  have hrules : ∀ r ∈ p.rulebook.rulesFor name, IsUsed p.rules p.now r :=
    fun r hr => Rulebook.isUsed_of_mem_rulesFor hr
  by_cases hnone : p.rulebook.rulesFor name = []
  · rw [workOn_of_no_rules (hgoes _) hnone,
      workOn_of_no_rules (p := p.within M') (f := M'.folder name) (hgoes _) hnone]
    exact ⟨.ok (), h⟩
  · obtain ⟨P, hP, -⟩ := h.since
    obtain ⟨P', hP'⟩ := h.since'
    have hplace₁ := (hP.resolve _ _).2 hplace
    have hlisted₁ := hP.listed.2 hlisted
    obtain ⟨entries, hentries, hentries'⟩ := Folder.messages_within hP.sound hP'.sound hplace₁
      ((hP'.resolve _ _).2 hplace') hlisted₁ h.view hlisting
    obtain ⟨hwaits, hapart⟩ := Folder.awaits_of_mem_messages hP.sound hplace₁ hlisted₁ hentries
    rw [workOn_of_messages (hgoes _) hnone hentries,
      workOn_of_messages (p := p.within M') (f := M'.folder name) (hgoes _) hnone hentries']
    exact tally_workThrough (fun e _ o o' h hwait => turn_of_secluded hgoes hpost hrules h hwait)
      hwaits hapart h

/-- In the end, a pass through the folder alone has left in it what the work on the folder has, and
has counted what came on top. -/
theorem afterFolder_secluded (ho : o.disk.Sound)
    (hplace : o.disk.resolve p.maildir.root = .ok place) (hlisted : Listed place o.disk name)
    (hmoves : ∀ r ∈ p.rules, r.moveTo = none) (hcopy : p.maildir.Secludes o.disk name M' d') :
    ∃ place', d'.resolve M'.root = .ok place' ∧
      Office.Secluded p place o.disk name M' place' d' o.summary
        (p.afterFolder o (p.maildir.folder name)) ((p.within M').run (.ofDisk d')).2 := by
  obtain ⟨q, place', hq, hplace', hview⟩ := hcopy.copy
  obtain rfl := Except.ok.inj (hq.symm.trans hplace)
  have hstart := Office.Secluded.of_copy ho hplace hlisted hcopy.sound hplace' hcopy.clock hview
    fun r hr => by
      obtain ⟨source, hsource, rfl⟩ := hr.stamped hmoves
      rw [Rule.stamped_moveTo, hmoves source hsource]
  refine ⟨place', hplace', ?_⟩
  rw [run_of_goesOn (p := p.within M') (o := .ofDisk d') hgoes hcopy.alone, List.foldl_cons,
    List.foldl_nil, afterFolder, afterFolder]
  have hname : (p.maildir.folder name).name = (M'.folder name).name := rfl
  rw [hname]
  split
  · exact hstart
  · exact (workOn_secluded hgoes hpost hplace hlisted hplace' hcopy.listing hstart).2

end Folder

/-! ## All folders -/

/-- What is below one folder is not below another one. -/
theorem not_below {f g : Text} (hne : f ≠ g) (ns : List Text) :
    ¬ place ++ [f] <+: place ++ g :: ns := by
  rw [List.prefix_append_right_inj, List.cons_prefix_cons]
  exact fun h => hne h.1

/-- In the end, the passes through one folder each have left in the folders what the pass through all
of them has, and have counted the same between them. -/
theorem foldl_afterFolder (hgoes : ∀ submissions, p.calledOff submissions = false)
    (hpost : ∀ f, p.forwarder = some f → f.post.IsSteady)
    (hmoves : ∀ r ∈ p.rules, r.moveTo = none) {M' : Folder → Maildir} {d' : Folder → Disk}
    {fs : List Folder} (ho : o.disk.Sound) (hplace : o.disk.resolve p.maildir.root = .ok place)
    (hfs : ∀ f ∈ fs, f = p.maildir.folder f.name ∧ Listed place o.disk f.name)
    (hnames : fs.Pairwise fun f g => f.name ≠ g.name)
    (hcopies : ∀ f ∈ fs, p.maildir.Secludes o.disk f.name (M' f) (d' f)) :
    (fs.foldl p.afterFolder o).summary =
        (fs.map fun f => ((p.within (M' f)).run (.ofDisk (d' f))).2.summary).foldl Summary.merge
          o.summary ∧
      (∀ f ∈ fs, p.maildir.SameFolder (fs.foldl p.afterFolder o).disk (M' f)
        ((p.within (M' f)).run (.ofDisk (d' f))).2.disk f.name) ∧
      ∃ P, o.disk.Patched P (fs.foldl p.afterFolder o).disk ∧
        ∀ q, (∀ f ∈ fs, ¬ place ++ [f.name] <+: q) → P q = none := by
  induction fs generalizing o with
  | nil => exact ⟨rfl, by simp, _, .refl ho, fun _ _ => rfl⟩
  | cons f fs ih =>
    obtain ⟨hfirst, hrest⟩ := List.pairwise_cons.1 hnames
    obtain ⟨hfolder, hlisted⟩ := hfs f (by simp)
    obtain ⟨place', hplace', hdone⟩ := afterFolder_secluded hgoes hpost ho hplace hlisted hmoves
      (hcopies f (by simp))
    rw [← hfolder] at hdone
    obtain ⟨P, hP, hnone⟩ := hdone.since
    obtain ⟨P', hP'⟩ := hdone.since'
    have hplace₁ := (hP.resolve _ _).2 hplace
    have hcopies₁ : ∀ g ∈ fs, p.maildir.Secludes (p.afterFolder o f).disk g.name (M' g) (d' g) := by
      intro g hg
      have hcopy := hcopies g (by simp [hg])
      refine ⟨hcopy.sound, hcopy.clock.trans hP.clock.symm, hcopy.alone, ?_, hcopy.listing⟩
      exact hcopy.copy.of_patched hplace hP fun ns => hnone _ (not_below (hfirst g hg) ns)
    obtain ⟨hsummary, hsame, P₁, hP₁, hnone₁⟩ := ih hP.sound hplace₁
      (fun g hg => ⟨(hfs g (by simp [hg])).1, hP.listed.2 (hfs g (by simp [hg])).2⟩) hrest hcopies₁
    refine ⟨?_, fun g hg => ?_, _, hP.trans hP₁, fun q hq => ?_⟩
    · rw [List.foldl_cons, List.map_cons, List.foldl_cons, hsummary, hdone.summary]
    · rcases List.mem_cons.1 hg with rfl | hg
      · have hafter : p.maildir.SameFolder (p.afterFolder o g).disk (M' g)
            ((p.within (M' g)).run (.ofDisk (d' g))).2.disk g.name :=
          ⟨place, place', hplace₁, (hP'.resolve _ _).2 hplace', hdone.view⟩
        exact hafter.of_patched hplace₁ hP₁ fun ns => hnone₁ _ fun x hx =>
          not_below (hfirst x hx).symm ns
      · exact hsame g hg
    · rw [Patch.andThen, hnone₁ q fun g hg => hq g (by simp [hg]), hnone q (hq f (by simp))]
      rfl

end Pass

/-- While no rule moves messages, folders have nothing to do with each other.  Give each folder a
maildir where it is the only one.  A pass that is not called off then counts, in all, what passes
through these maildirs count between them, and it leaves in each folder what the pass through its
own maildir leaves there, whatever goes wrong with any of them. -/
theorem Pass.run_eq_merge (p : Pass) {d : Disk} (hd : d.Sound) {fs : List Folder}
    (hfs : p.maildir.folders d = .ok fs) (hmoves : ∀ r ∈ p.rules, r.moveTo = none)
    (hgoes : ∀ submissions, p.calledOff submissions = false)
    (hpost : ∀ f, p.forwarder = some f → f.post.IsSteady) (M' : Folder → Maildir)
    (d' : Folder → Disk)
    (hcopies : ∀ f ∈ fs, p.maildir.Secludes d f.name (M' f) (d' f)) :
    let alone (f : Folder) := ({ p with maildir := M' f } : Pass).run (.ofDisk (d' f))
    (p.run (.ofDisk d)).1 = .ok () ∧ (∀ f ∈ fs, (alone f).1 = .ok ()) ∧
      (p.run (.ofDisk d)).2.summary =
        (fs.map fun f => (alone f).2.summary).foldl Summary.merge .empty ∧
      ∀ f ∈ fs, p.maildir.SameFolder (p.run (.ofDisk d)).2.disk (M' f) (alone f).2.disk f.name := by
  intro alone
  obtain ⟨place, hplace, -⟩ := Maildir.place_of_folders hfs
  have hfolders := Maildir.listed_of_mem_folders hd hplace hfs
  have hnames : fs.Pairwise fun f g => f.name ≠ g.name := by
    refine (Maildir.nodup_folders hd hfs).imp_of_mem fun {f g} hf hg hne hname => hne ?_
    rw [(hfolders f hf).1, (hfolders g hg).1, hname]
  obtain ⟨hsummary, hsame, -⟩ := Pass.foldl_afterFolder (o := .ofDisk d) hgoes hpost hmoves hd
    hplace hfolders hnames hcopies
  rw [Pass.run_of_goesOn (o := .ofDisk d) hgoes hfs]
  refine ⟨Pass.run_eq_ok hfs, fun f hf => ?_, hsummary, hsame⟩
  exact Pass.run_eq_ok (o := .ofDisk (d' f)) (hcopies f hf).alone

/-! ### A maildir at the root of its disk -/

namespace Disk

variable {d : Disk}

/-- The disk with nothing at its root but what has a given name. -/
def solely (d : Disk) (name : Text) : Disk :=
  { d with items := d.items.filter (fun e => e.1.head? == some name) }

theorem item?_solely (name n : Text) (ns : List Text) :
    (d.solely name).item? (n :: ns) = if n = name then d.item? (n :: ns) else none := by
  rw [item?_of_ne_nil _ (by simp), item?_of_ne_nil _ (by simp)]
  exact (lookup_filter d.items (fun q => q.head? == some name) (n :: ns)).trans (by simp)

theorem item?_of_solely {name : Text} {q : Path} {i : Item}
    (h : (d.solely name).item? q = some i) : d.item? q = some i := by
  cases q with
  | nil => simpa using h
  | cons n ns =>
    rw [item?_solely] at h
    split at h
    · exact h
    · exact absurd h (by simp)

theorem Sound.solely (hd : d.Sound) (name : Text) : (d.solely name).Sound := by
  have hsub : ((d.solely name).items.map Prod.fst).Sublist (d.items.map Prod.fst) :=
    List.filter_sublist.map _
  have hof : ∀ q, ((d.solely name).item? q).isSome → (d.item? q).isSome := by
    intro q hq
    obtain ⟨i, hi⟩ := Option.isSome_iff_exists.1 hq
    simp [item?_of_solely hi]
  refine ⟨hd.nodup.sublist hsub, fun hnil => hd.root (hsub.subset hnil), ?_,
    fun p n hp => hd.name p n (hof _ hp),
    fun p q f g hp hq => hd.own p q f g (item?_of_solely hp) (item?_of_solely hq),
    fun p f hp => hd.fresh p f (item?_of_solely hp)⟩
  intro p n hp
  have hparent := hd.parent p n (hof _ hp)
  cases p with
  | nil => simp
  | cons m p =>
    rw [List.cons_append, item?_solely] at hp
    rw [item?_solely]
    split
    · exact hparent
    · rename_i hne
      rw [if_neg hne] at hp
      exact absurd hp (by simp)

theorem view_solely (name : Text) (ns : List Text) :
    (d.solely name).view (name :: ns) = d.view (name :: ns) := by
  rw [view, view, item?_solely, if_pos rfl]

end Disk

/-- A folder of a maildir at the root of its disk is secluded by taking away all others. -/
theorem Maildir.secludes_solely {M : Maildir} {d : Disk} (hd : d.Sound) (hroot : M.root = [])
    {name : Text} (hlisted : Listed [] d name) :
    M.Secludes d name M (d.solely name) := by
  have hplace : ∀ d : Disk, d.resolve M.root = .ok [] := by
    intro d
    rw [hroot]
    rfl
  have hsound := hd.solely name
  have hall : ∀ n, Listed [] (d.solely name) n ↔ n ∈ [name] := by
    intro n
    rw [List.mem_singleton]
    constructor
    · rintro ⟨-, -, hnew, -⟩
      rw [List.nil_append, Disk.item?_solely] at hnew
      split at hnew
      · assumption
      · exact absurd hnew (by simp)
    · rintro rfl
      exact (Folder.listed_congr fun ns => Disk.view_solely n ns).2 hlisted
  have halone := folders_eq hsound (hplace _) (by simp) (List.pairwise_singleton _ name) hall
  exact ⟨hsound, rfl, halone, ⟨[], [], hplace d, hplace _, Disk.view_solely name⟩,
    fun _ _ => rfl⟩

/-- A disk that is a maildir of two folders with a message each.  In one of them, nothing can be
written. -/
def spreadDisk : Disk := (Disk.empty 0).plant [] (.folder
  [("INBOX", .folder [("new", .folder []), ("cur", .folder [("1.a:2,S", .file sampleLetter none)]),
      ("tmp", .folder [])]),
    ("work", .folder [("new", .folder [("2.b", .file sampleLetter none)]), ("cur", .folder [])])])

theorem sound_spreadDisk : spreadDisk.Sound := Disk.sound_plant 0 (by decide)

theorem sorting_run_eq_merge :
    let fs : List Folder := [⟨[], "INBOX"⟩, ⟨[], "work"⟩]
    let alone (f : Folder) := sortingPass.run (.ofDisk (spreadDisk.solely f.name))
    (sortingPass.run (.ofDisk spreadDisk)).1 = .ok () ∧ (∀ f ∈ fs, (alone f).1 = .ok ()) ∧
      (sortingPass.run (.ofDisk spreadDisk)).2.summary =
        (fs.map fun f => (alone f).2.summary).foldl Summary.merge .empty ∧
      ∀ f ∈ fs, sortingPass.maildir.SameFolder (sortingPass.run (.ofDisk spreadDisk)).2.disk
        sortingPass.maildir (alone f).2.disk f.name := by
  have hfolders : sortingPass.maildir.folders spreadDisk = .ok [⟨[], "INBOX"⟩, ⟨[], "work"⟩] := by
    have hnames : (["INBOX", "work"] : List Text).Pairwise (· < ·) := by decide
    exact Maildir.folders_of_root sound_spreadDisk rfl hnames (by decide) (by decide)
  refine Pass.run_eq_merge sortingPass sound_spreadDisk hfolders
    (by simp [sortingPass, sortingRule]) (fun _ => rfl)
    (fun f hf => absurd hf (by simp [sortingPass])) (fun _ => sortingPass.maildir)
    (fun f => spreadDisk.solely f.name) fun f hf => ?_
  have hlisted := (Maildir.mem_folders sound_spreadDisk rfl hfolders).1 hf
  exact Maildir.secludes_solely sound_spreadDisk rfl hlisted.2

end Mailroom
