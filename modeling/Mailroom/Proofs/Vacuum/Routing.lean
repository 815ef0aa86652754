import Mailroom.Proofs.Maildir.Listing
import Mailroom.Proofs.Rule.Naming
import Mailroom.Proofs.Vacuum.Relabeling

/-!
# Where a vacuum takes messages

The folder that a message of a drained folder is to go to depends on its keywords, and on whether
the folder that they name is there.

* `Vacuum.goal` is that folder; `Vacuum.goal_eq` gives it as a function of the keywords.
* `Vacuum.Routes` says that no message goes where it would not be listed.
* `Vacuum.goal_of_same` says that the goal stays the same while other folders are drained.
-/

namespace Mailroom

variable {v : Vacuum} {root place : Path} {d d₀ : Disk} {s : Slot} {f : File}

/-! ## The goal of a message -/

/-- The better place for keywords. -/
def alternativeOf (drained : Text) (k : Keywords) : Text :=
  let candidates := k.toList.filter (· != drained)
  if candidates.any (occurs socialMark) then socialFolder
  else (candidates.head?.map (Text.replace '/' '.')).getD fallbackFolder

theorem reads_alternative (drained : Text) :
    Reads (alternative drained) (fun v => v.keywords.map (alternativeOf drained)) := by
  have hread : Reads (alternative drained)
      (fun v => v.keywords >>= fun k => .ok (alternativeOf drained k)) := by
    refine Reads.bind Message.reads_keywords fun k => ?_
    dsimp only [alternativeOf]
    split
    · exact Reads.pure _
    · exact Reads.pure _
  exact hread.congr fun v => by cases v.keywords <;> rfl

namespace Vacuum

/-- The first steps of giving the message at hand a better place: to find that place. -/
def route (v : Vacuum) (drained : Text) : Editing Text := do
  Reading.toEditing renameKeywords
  v.destination drained

/-- The folder that a message of a drained folder is to go to. -/
def goal (v : Vacuum) (d : Disk) (s : Slot) : Except Error Text :=
  (v.route s.folder ⟨d, .ofEntry (s.entry v.maildir.root)⟩).1

/-- The better place, or where messages go if it is none. -/
def goalOf (v : Vacuum) (d : Disk) (drained name : Text) : Text :=
  if name == drained || isUnwanted name || !(v.maildir.folder name).isThere d then fallbackFolder
  else name

theorem destination_run (drained : Text) {m : Message} {k : Keywords}
    (hk : (m.sight d).keywords = .ok k) : ∃ m', v.destination drained ⟨d, m⟩ =
      (.ok (v.goalOf d drained (alternativeOf drained k)), ⟨d, m'⟩) ∧
      m'.sight d = m.sight d := by
  obtain ⟨hvalue, hsight⟩ := reads_alternative drained d m
  simp only [hk, Except.map] at hvalue
  have hrun : (Reading.toEditing (alternative drained)) ⟨d, m⟩ =
      (.ok (alternativeOf drained k), ⟨d, (alternative drained d m).2⟩) := by
    rw [Message.toEditing_run, hvalue]
  refine ⟨_, ?_, hsight⟩
  rw [destination, run_bind_ok hrun]
  rfl

/-- Finding the place changes nothing but keywords, and the place depends on them only. -/
theorem route_run (drained : Text) (m : Message) : ∃ m', v.route drained ⟨d, m⟩ =
      ((m.sight d).keywords.map (fun k =>
        v.goalOf d drained (alternativeOf drained (k.exchange (renamings k)))), ⟨d, m'⟩) ∧
      (m.sight d).Relabels (m'.sight d) := by
  have hrelabels := relabels_renameKeywords d m
  cases hk : (m.sight d).keywords with
  | error e =>
    obtain ⟨m₁, hrun⟩ := renameKeywords_error hk
    rw [hrun] at hrelabels
    have hrun' : (Reading.toEditing renameKeywords) ⟨d, m⟩ = (.error e, ⟨d, m₁⟩) := by
      rw [Message.toEditing_run, hrun]
    exact ⟨m₁, run_bind_error hrun', hrelabels⟩
  | ok k =>
    obtain ⟨m₁, hrun, hkeywords⟩ := renameKeywords_run hk
    rw [hrun] at hrelabels
    have hrun' : (Reading.toEditing renameKeywords) ⟨d, m⟩ = (.ok (), ⟨d, m₁⟩) := by
      rw [Message.toEditing_run, hrun]
    obtain ⟨m₂, hrun₂, hsight₂⟩ := destination_run (v := v) drained hkeywords
    exact ⟨m₂, (run_bind_ok hrun').trans hrun₂, hrelabels.trans (.of_eq hsight₂)⟩

theorem goal_eq (hd : d.Sound) (hroot : d.resolve v.maildir.root = .ok place)
    (hf : d.item? (place ++ s.names) = some (.file f)) :
    v.goal d s = (seenKeywords [] (readHeader f.content)).map (fun k =>
      v.goalOf d s.folder (alternativeOf s.folder (k.exchange (renamings k)))) := by
  obtain ⟨m', hrun, -⟩ :=
    route_run (v := v) (d := d) s.folder (.ofEntry (s.entry v.maildir.root))
  rw [goal, hrun, Message.sight_ofEntry hd hroot hf]
  rfl

/-- No message goes to a folder that is to be drained. -/
theorem wanted_goalOf (drained name : Text) : isUnwanted (v.goalOf d drained name) = false := by
  have hfallback : isUnwanted fallbackFolder = false := by decide
  unfold goalOf
  split
  · exact hfallback
  · rename_i hnot
    simp only [Bool.or_eq_true, not_or, Bool.not_eq_true] at hnot
    exact hnot.1.2

theorem slash_not_mem_alternativeOf (drained : Text) (k : Keywords) : '/' ∉ alternativeOf drained k := by
  have hknown : '/' ∉ socialFolder ∧ '/' ∉ fallbackFolder := by decide
  dsimp only [alternativeOf]
  split
  · exact hknown.1
  · cases (k.toList.filter (· != drained)).head? with
    | none => exact hknown.2
    | some n => exact not_mem_replace (by decide) n

/-- A message goes one step from the maildir. -/
theorem slash_not_mem_goalOf (drained : Text) {name : Text} (h : '/' ∉ name) :
    '/' ∉ v.goalOf d drained name := by
  have hfallback : '/' ∉ fallbackFolder := by decide
  unfold goalOf
  split
  · exact hfallback
  · exact h

/-! ## Goals that stay the same -/

/-- Whether every message goes to a folder that is listed, or cannot get where it is to go. -/
def Routes (v : Vacuum) (d : Disk) : Prop :=
  ∀ s g, v.maildir.Lists d s → isUnwanted s.folder = true → s.IsVisible → v.goal d s = .ok g →
    (∃ fs, v.maildir.folders d = .ok fs ∧ v.maildir.folder g ∈ fs) ∨
      d.isFolder ((v.maildir.folder g).statePath s.state) = false

/-- The same by what stands on the disk. -/
theorem Routes.listed (h : v.Routes d) (hd : d.Sound)
    (hroot : d.resolve v.maildir.root = .ok place) (hlisted : Listed place d s.folder)
    (hunwanted : isUnwanted s.folder = true) (hvisible : s.IsVisible) (htaken : s.IsTaken place d)
    {g : Text} (hg : v.goal d s = .ok g) : Listed place d g ∨
      d.isFolder ((v.maildir.folder g).statePath s.state) = false := by
  have hlists := (Maildir.lists_iff hd hroot s).2 ⟨hlisted, htaken⟩
  rcases h s g hlists hunwanted hvisible hg with ⟨fs, hfs, hmem⟩ | hno
  · exact Or.inl ((Maildir.mem_folders hd hroot hfs).1 hmem).2
  · exact Or.inr hno

/-- What is a folder while others have gone was one before. -/
theorem isFolder_of_folders {p : Path}
    (hgone : ∀ q, d.item? q = some .folder → d₀.item? q = some .folder)
    (h : d.isFolder p = true) : d₀.isFolder p = true := by
  unfold Disk.isFolder Disk.stat at h ⊢
  cases hq : d.resolve p with
  | error e => simp [hq, bind, Except.bind] at h
  | ok q =>
    have hq' : d₀.resolve p = .ok q := Disk.walk_of_same_folders hgone hq
    simp only [hq, bind, Except.bind] at h
    simp only [hq', bind, Except.bind]
    cases hitem : d.item? q with
    | none => simp [hitem] at h
    | some i =>
      cases i with
      | file g => simp [hitem] at h
      | folder => rw [hgone q hitem]

theorem isThere_of_folders {g : Folder}
    (hgone : ∀ q, d.item? q = some .folder → d₀.item? q = some .folder)
    (h : g.isThere d = true) : g.isThere d₀ = true := by
  rw [Folder.isThere, Bool.and_eq_true] at h ⊢
  exact ⟨isFolder_of_folders hgone h.1, isFolder_of_folders hgone h.2⟩

/-- A message that waits for its folder to be drained has the goal that it had from the first, if
no folder came and none went that is wanted. -/
theorem goal_of_same (hroutes : v.Routes d₀) (hd : d.Sound) (hd₀ : d₀.Sound)
    (hroot : d.resolve v.maildir.root = .ok place) (hroot₀ : d₀.resolve v.maildir.root = .ok place)
    (hgone : ∀ q, d.item? q = some .folder → d₀.item? q = some .folder)
    (hkept : ∀ g ns, isUnwanted g = false → d₀.item? (place ++ g :: ns) = some .folder →
      d.item? (place ++ g :: ns) = some .folder)
    (hlisted : Listed place d₀ s.folder) (hunwanted : isUnwanted s.folder = true)
    (hvisible : s.IsVisible) (hf₀ : d₀.item? (place ++ s.names) = some (.file f))
    (hf : d.item? (place ++ s.names) = some (.file f)) : v.goal d s = v.goal d₀ s := by
  have hgoal₀ := goal_eq (v := v) hd₀ hroot₀ hf₀
  rw [goal_eq hd hroot hf, hgoal₀]
  cases hk : seenKeywords [] (readHeader f.content) with
  | error e => rfl
  | ok k =>
    simp only [hk, Except.map] at hgoal₀ ⊢
    refine congrArg Except.ok ?_
    generalize alternativeOf s.folder (k.exchange (renamings k)) = name at hgoal₀ ⊢
    have hthere : isUnwanted name = false → ((v.maildir.folder name).isThere d = true ↔
        (v.maildir.folder name).isThere d₀ = true) := by
      intro hwanted
      refine ⟨isThere_of_folders hgone, fun h₀ => ?_⟩
      -- a folder that was there and is wanted is the goal itself, hence listed
      have hname : name ≠ s.folder := by
        rintro rfl
        rw [hunwanted] at hwanted
        exact absurd hwanted (by simp)
      have hsame : v.goalOf d₀ s.folder name = name := by simp [goalOf, hwanted, h₀, hname]
      have hgoal : v.goal d₀ s = .ok name := hgoal₀.trans (congrArg Except.ok hsame)
      rcases hroutes.listed hd₀ hroot₀ hlisted hunwanted hvisible ⟨f, hf₀⟩ hgoal with hl | hno
      · obtain ⟨hisName, -, hnew, hcur⟩ := hl
        exact (isThere_iff hd hroot hisName).2 ⟨hkept _ _ hwanted hnew, hkept _ _ hwanted hcur⟩
      · rw [Folder.isThere, Bool.and_eq_true] at h₀
        cases hst : s.state with
        | new => rw [hst, h₀.1] at hno; exact absurd hno (by simp)
        | cur => rw [hst, h₀.2] at hno; exact absurd hno (by simp)
    cases hwanted : isUnwanted name with
    | true => simp [goalOf, hwanted]
    | false => simp [goalOf, hwanted, Bool.eq_iff_iff.2 (hthere hwanted)]

end Vacuum

end Mailroom
