import Mailroom.Proofs.Message.Staying
import Mailroom.Proofs.Pass.Run

/-!
# Passes that come to every message

A pass in which no message makes trouble takes up all messages that it should, in all folders that
it should work on.  What handling a message brings about, and handling the others leaves alone,
then holds of all of them.

* `Pass.Smooth` is what has to be known of the handling of one message.
* `Pass.Smooth.run` is the induction over the run.
* `Pass.run_eq_ok` says that only a maildir that cannot be listed makes a pass fail.
-/

namespace Mailroom

variable {p : Pass} {place : Path} {d : Disk}

namespace Pass

/-! ## The result of a pass -/

theorem workOnAll_eq_ok (folders : List Folder) (o : Office) :
    (p.workOnAll folders o).1 = .ok () := by
  induction folders generalizing o with
  | nil => rfl
  | cons f folders ih =>
    rw [Pass.workOnAll]
    split
    · exact ih o
    · cases hwork : p.workOn f o with
      | mk result o' =>
        obtain ⟨outcome, hcaught⟩ : ∃ outcome, (tryCatch (do p.workOn f; return none)
            (fun error => return some error) : Work (Option Error)) o = (.ok outcome, o') := by
          cases result with
          | ok u => exact ⟨none, run_tryCatch_ok (run_bind_ok hwork)⟩
          | error e => exact ⟨some e, run_tryCatch_error (run_bind_error hwork)⟩
        rw [run_bind_ok hcaught]
        split
        · rfl
        · exact ih o'

/-- A pass over a maildir that can be listed does not fail. -/
theorem run_eq_ok {o : Office} {fs : List Folder} (h : p.maildir.folders o.disk = .ok fs) :
    (p.run o).1 = .ok () := by
  have hget : (getThe Office : Work Office) o = (.ok o, o) := rfl
  rw [Pass.run, run_bind_ok hget, h]
  exact workOnAll_eq_ok fs o

/-! ## Covering messages -/

variable {K : Office → Prop} {D : Slot → Office → Prop} {A B : Slot → Prop} {w : Work Unit}

/-- Work that does not fail, after which something holds of all messages of a kind, and of those
of which it held before. -/
def Covers (K : Office → Prop) (D : Slot → Office → Prop) (A : Slot → Prop) (w : Work Unit) :
    Prop :=
  ∀ o, K o → ∃ o', w o = (.ok (), o') ∧ K o' ∧ (∀ s, A s → D s o') ∧ ∀ s, D s o → D s o'

theorem Covers.nothing (h : ∀ s, ¬ A s) : Covers K D A (pure ()) :=
  fun o ho => ⟨o, rfl, ho, fun s hs => absurd hs (h s), fun _ hs => hs⟩

theorem Covers.mono (h : Covers K D A w) (hsub : ∀ s, B s → A s) :
    Covers K D B w := by
  intro o ho
  obtain ⟨o', hrun, ho', hA, hkeep⟩ := h o ho
  exact ⟨o', hrun, ho', fun s hs => hA s (hsub s hs), hkeep⟩

/-- What has to be known for a pass to come to every message: it goes on, it neither moves
anything nor makes or removes folders, and handling a message does not fail. -/
structure Smooth (p : Pass) (place : Path) (d : Disk) (K : Office → Prop)
    (D : Slot → Office → Prop) : Prop where
  /-- The messages stay where they are. -/
  stays : ∀ {o}, K o → Stays p.maildir.root place d o.disk
  /-- The pass is not called off. -/
  goesOn : ∀ {o}, K o → p.calledOff o.submissions = false
  /-- A message that counts as recent is handled well. -/
  handled : ∀ {s}, Listed place d s.folder → s.IsTaken place d →
    Covers K D (· = s) ((p.handle (p.rulebook.rulesFor s.folder)).onMessage
      (.ofEntry (s.entry p.maildir.root)))
  /-- Another one may be passed over. -/
  passed : ∀ {o s}, K o → p.isRecent o.disk (s.entry p.maildir.root) = false → D s o
  /-- So may all messages of a folder without rules. -/
  ruleless : ∀ {o s}, p.rulebook.rulesFor s.folder = [] → D s o

namespace Smooth

variable (h : p.Smooth place d K D)

include h

theorem checkpoint_run {o : Office} (ho : K o) : p.checkpoint o = (.ok (), o) := by
  rw [Mailroom.checkpoint_run, h.goesOn ho]
  rfl

/-- One message is taken up, or passed over, before the others. -/
theorem workThrough_cons {s : Slot} (hlisted : Listed place d s.folder)
    (htaken : s.IsTaken place d) (entries : List Entry) {o : Office} (ho : K o) :
    ∃ o', p.workThrough (p.rulebook.rulesFor s.folder) (s.entry p.maildir.root :: entries) o =
        p.workThrough (p.rulebook.rulesFor s.folder) entries o' ∧
      K o' ∧ D s o' ∧ ∀ t, D t o → D t o' := by
  have hget : (getThe Office : Work Office) o = (.ok o, o) := rfl
  rw [Pass.workThrough, run_bind_ok (h.checkpoint_run ho), run_bind_ok hget]
  cases hrecent : p.isRecent o.disk (s.entry p.maildir.root) with
  | false => exact ⟨o, rfl, ho, h.passed ho hrecent, fun _ ht => ht⟩
  | true =>
    obtain ⟨o', hrun, ho', hdone, hkeep⟩ := h.handled hlisted htaken o ho
    exact ⟨o', run_bind_ok (run_tryCatch_ok hrun), ho', hdone s rfl, hkeep⟩

theorem covers_workThrough {folder : Text} (hlisted : Listed place d folder)
    {entries : List Entry} (hentries : ∀ e ∈ entries, ∃ s : Slot, s.folder = folder ∧
      s.IsTaken place d ∧ e = s.entry p.maildir.root) :
    Covers K D (fun s => s.entry p.maildir.root ∈ entries)
      (p.workThrough (p.rulebook.rulesFor folder) entries) := by
  induction entries with
  | nil => exact Covers.nothing (by simp)
  | cons e entries ih =>
    obtain ⟨s, rfl, htaken, rfl⟩ := hentries e (by simp)
    intro o ho
    obtain ⟨o₁, hrun₁, ho₁, hdone₁, hkeep₁⟩ := h.workThrough_cons hlisted htaken entries ho
    obtain ⟨o₂, hrun₂, ho₂, hdone₂, hkeep₂⟩ := ih (fun e he => hentries e (by simp [he])) o₁ ho₁
    refine ⟨o₂, hrun₁.trans hrun₂, ho₂, fun t ht => ?_, fun t ht => hkeep₂ t (hkeep₁ t ht)⟩
    rcases List.mem_cons.1 ht with ht | ht
    · rw [Slot.entry_inj ht]
      exact hkeep₂ s hdone₁
    · exact hdone₂ t ht

theorem covers_workOn {folder : Text} (hlisted : Listed place d folder) :
    Covers K D (fun s => s.folder = folder ∧ s.IsVisible ∧ s.IsTaken place d)
      (p.workOn ⟨p.maildir.root, folder⟩) := by
  intro o ho
  rw [Pass.workOn, run_bind_ok (h.checkpoint_run ho)]
  dsimp only
  split
  · rename_i hnone
    refine ⟨o, rfl, ho, ?_, fun _ hs => hs⟩
    rintro s ⟨rfl, -⟩
    exact h.ruleless (List.isEmpty_iff.1 hnone)
  · have hget : (getThe Office : Work Office) o = (.ok o, o) := rfl
    have hd := (h.stays ho).sound
    have hroot := (h.stays ho).resolve
    obtain ⟨entries, hentries⟩ := Folder.exists_messages hd hroot p.maildir.listing
      (((h.stays ho).listed folder).2 hlisted)
    have hmem := fun e => Folder.mem_messages (e := e) hd hroot hlisted.1 hentries
    rw [run_bind_ok hget, hentries]
    refine ((h.covers_workThrough hlisted fun e he => ?_).mono ?_) o ho
    · obtain ⟨s, hs, -, htaken, rfl⟩ := (hmem e).1 he
      exact ⟨s, hs, ((h.stays ho).taken s).1 htaken, rfl⟩
    · rintro s ⟨hs, hvisible, htaken⟩
      exact (hmem _).2 ⟨s, hs, hvisible, ((h.stays ho).taken s).2 htaken, rfl⟩

theorem covers_workOnAll {folders : List Folder} (hfolders : ∀ f ∈ folders,
    f.root = p.maildir.root ∧ Listed place d f.name) :
    Covers K D (fun s => (∃ f ∈ folders, s.folder = f.name) ∧
      skippedFolders.contains s.folder = false ∧ s.IsVisible ∧ s.IsTaken place d)
      (p.workOnAll folders) := by
  induction folders with
  | nil => exact Covers.nothing (by simp)
  | cons f folders ih =>
    have hrest := ih fun f hf => hfolders f (by simp [hf])
    obtain ⟨hroot, hlisted⟩ := hfolders f (by simp)
    intro o ho
    rw [Pass.workOnAll]
    split
    · rename_i hskipped
      refine (hrest.mono ?_) o ho
      rintro s ⟨⟨g, hg, hs⟩, hwanted, hmet⟩
      rcases List.mem_cons.1 hg with rfl | hg
      · rw [hs, hskipped] at hwanted
        exact absurd hwanted (by simp)
      · exact ⟨⟨g, hg, hs⟩, hwanted, hmet⟩
    · obtain ⟨root, folder⟩ := f
      obtain rfl : root = p.maildir.root := hroot
      obtain ⟨o₁, hrun₁, ho₁, hdone₁, hkeep₁⟩ := h.covers_workOn hlisted o ho
      have hcaught : (tryCatch (do p.workOn ⟨p.maildir.root, folder⟩; return none)
          (fun error => return some error) : Work (Option Error)) o = (.ok none, o₁) :=
        run_tryCatch_ok (run_bind_ok hrun₁)
      obtain ⟨o₂, hrun₂, ho₂, hdone₂, hkeep₂⟩ := hrest o₁ ho₁
      refine ⟨o₂, (run_bind_ok hcaught).trans hrun₂, ho₂, ?_, fun t ht => hkeep₂ t (hkeep₁ t ht)⟩
      rintro s ⟨⟨g, hg, hs⟩, hwanted, hmet⟩
      rcases List.mem_cons.1 hg with rfl | hg
      · exact hkeep₂ s (hdone₁ s ⟨hs, hmet⟩)
      · exact hdone₂ s ⟨⟨g, hg, hs⟩, hwanted, hmet⟩

/-- After the pass it holds of all messages that the pass meets. -/
theorem run {o : Office} (ho : K o) {fs : List Folder} (hfs : p.maildir.folders o.disk = .ok fs) :
    ∃ o', p.run o = (.ok (), o') ∧ K o' ∧ ∀ s, Listed place d s.folder →
      skippedFolders.contains s.folder = false → s.IsVisible → s.IsTaken place d → D s o' := by
  have hget : (getThe Office : Work Office) o = (.ok o, o) := rfl
  have hmem := fun f => Maildir.mem_folders (f := f) (h.stays ho).sound (h.stays ho).resolve hfs
  rw [Pass.run, run_bind_ok hget, hfs]
  have hfolders : ∀ f ∈ fs, f.root = p.maildir.root ∧ Listed place d f.name := fun f hf =>
    ⟨((hmem f).1 hf).1, ((h.stays ho).listed f.name).1 ((hmem f).1 hf).2⟩
  obtain ⟨o', hrun, ho', hdone, -⟩ := h.covers_workOnAll hfolders o ho
  refine ⟨o', hrun, ho', fun s hlisted hwanted hvisible htaken => ?_⟩
  refine hdone s ⟨⟨p.maildir.folder s.folder, (hmem _).2 ⟨rfl, ?_⟩, rfl⟩, hwanted, hvisible, htaken⟩
  exact ((h.stays ho).listed s.folder).2 hlisted

end Smooth

end Pass

end Mailroom
