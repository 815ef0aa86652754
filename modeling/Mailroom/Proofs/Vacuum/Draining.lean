import Mailroom.Proofs.Maildir.Enumeration
import Mailroom.Proofs.Vacuum.Swept

/-!
# Draining one folder

A folder that is drained loses its messages one after the other to folders that are wanted, and is
removed if no message is left in it.

* `VacuumReport.add` is the sum of two reports.
* `Vacuum.Ready` is what a vacuum has to find.
* `Vacuum.rehome_step` takes one message of a drained folder; `Vacuum.rehomeAll_run` is the
  induction over all of them.
* `Vacuum.leads_drain` says that `Vacuum.Sweeps` goes on with the folders that are still to come.
-/

namespace Mailroom

/-! ## Sums of reports -/

namespace VacuumReport

/-- What two reports say together. -/
def add (r r' : VacuumReport) : VacuumReport :=
  ⟨r.removed ++ r'.removed, r.moved + r'.moved, r.rewritten + r'.rewritten,
    r.failures + r'.failures⟩

instance : Add VacuumReport := ⟨add⟩

theorem add_def (r r' : VacuumReport) : r + r' = ⟨r.removed ++ r'.removed, r.moved + r'.moved,
    r.rewritten + r'.rewritten, r.failures + r'.failures⟩ := rfl

theorem add_assoc (r r' r'' : VacuumReport) : r + r' + r'' = r + (r' + r'') := by
  simp [add_def, Nat.add_assoc]

@[simp] theorem add_empty (r : VacuumReport) : r + empty = r := by
  simp [add_def, empty]

@[simp] theorem empty_add (r : VacuumReport) : empty + r = r := by
  simp [add_def, empty]

end VacuumReport

/-! ## Work that is attempted -/

namespace Sweeping

variable {α : Type} {w : Sweeping α} {s s' : Sweep}

theorem attempt_run {r : Except Error α} (h : w s = (r, s')) : w.attempt s = (.ok r, s') := by
  have hmap : (Except.ok <$> w : Sweeping (Except Error α)) = w >>= fun a => pure (.ok a) := rfl
  cases r with
  | ok a =>
    apply run_tryCatch_ok
    rw [hmap, run_bind_ok h]
    rfl
  | error e =>
    have herror : (Except.ok <$> w : Sweeping (Except Error α)) s = (.error e, s') := by
      rw [hmap, run_bind_error h]
    exact run_tryCatch_error herror

end Sweeping

namespace Vacuum

variable {v : Vacuum} {place : Path} {π : Equiv.Perm Slot} {rest : List Text} {d₀ d : Disk}

/-! ## One folder, by its messages -/

section Messages

variable {g : Folder} {s : Sweep} {entries : List Entry}

theorem lift_messages (r : Except Error (List Entry)) (s : Sweep) :
    (liftM r : Sweeping (List Entry)) s = (r, s) := by
  cases r <;> rfl

theorem drain_of_messages (h : g.messages v.maildir.listing s.disk = .ok entries) :
    v.drain g s = (v.rehomeAll g.name entries >>= fun stranded =>
      if stranded = 0 then v.remove g.name else pure ()) s := by
  have hget : (getThe Sweep : Sweeping Sweep) s = (.ok s, s) := rfl
  rw [drain, run_bind_ok hget, run_bind_ok ((lift_messages _ s).trans (by rw [h]))]

theorem drain_of_error {e : Error} (h : g.messages v.maildir.listing s.disk = .error e) :
    v.drain g s = (.error e, s) := by
  have hget : (getThe Sweep : Sweeping Sweep) s = (.ok s, s) := rfl
  rw [drain, run_bind_ok hget, run_bind_error ((lift_messages _ s).trans (by rw [h]))]

theorem tidy_of_messages (h : g.messages v.maildir.listing s.disk = .ok entries) :
    v.tidy g s = v.tidyAll entries s := by
  have hget : (getThe Sweep : Sweeping Sweep) s = (.ok s, s) := rfl
  rw [tidy, run_bind_ok hget, run_bind_ok ((lift_messages _ s).trans (by rw [h]))]

theorem tidy_of_error {e : Error} (h : g.messages v.maildir.listing s.disk = .error e) :
    v.tidy g s = (.error e, s) := by
  have hget : (getThe Sweep : Sweeping Sweep) s = (.ok s, s) := rfl
  rw [tidy, run_bind_ok hget, run_bind_error ((lift_messages _ s).trans (by rw [h]))]

end Messages

/-! ## What has to be found -/

/-- What a vacuum has to find so that no message is lost. -/
structure Ready (v : Vacuum) (place : Path) (d : Disk) : Prop where
  /-- The disk is sound. -/
  sound : d.Sound
  /-- The maildir is there. -/
  resolve : d.resolve v.maildir.root = .ok place
  /-- The way to it comes by no folder that is drained. -/
  avoids : ∀ u, isUnwanted u = true → d.Avoids (place ++ [u]) v.maildir.root
  /-- No two messages have one state and name. -/
  names : NamesDiffer place d
  /-- Messages go where they are listed. -/
  routes : v.Routes d

/-! ## One message -/

/-- The goal of a message that waits is a listed folder, or one without a place for it. -/
theorem Swept.goal (h : v.Swept place d₀ π rest d) (hready : v.Ready place d₀) {s : Slot} {f : File}
    (hlisted : Listed place d₀ s.folder) (hunwanted : isUnwanted s.folder = true)
    (hvisible : s.IsVisible) (hf : d.item? (place ++ s.names) = some (.file f))
    (hf₀ : d₀.item? (place ++ s.names) = some (.file f)) {g : Text} (hg : v.goal d s = .ok g) :
    Listed place d g ∨ d.isFolder ((v.maildir.folder g).statePath s.state) = false := by
  have hwanted : isUnwanted g = false := by
    rw [goal_eq h.sound h.resolve hf] at hg
    cases hk : seenKeywords [] (readHeader f.content) with
    | error e =>
      rw [hk] at hg
      exact absurd hg (by simp [Except.map])
    | ok k =>
      rw [hk] at hg
      rw [← Except.ok.inj hg]
      exact wanted_goalOf _ _
  rw [goal_of_same hready.routes h.sound hready.sound h.resolve hready.resolve h.gone h.kept hlisted
    hunwanted hvisible hf₀ hf] at hg
  rcases hready.routes.listed hready.sound hready.resolve hlisted hunwanted hvisible ⟨f, hf₀⟩ hg with
    hl | hno
  · exact Or.inl (h.listed_wanted hwanted hl)
  · refine Or.inr ?_
    rw [← Bool.not_eq_true] at hno ⊢
    exact fun hthere => hno (isFolder_of_folders h.gone hthere)

/-- One message of a drained folder is given a better place, or stays where it is. -/
theorem rehome_step (hready : v.Ready place d₀) (hdry : v.dryRun = false) {s : Sweep} {t : Slot}
    {f : File} (h : v.Swept place d₀ π rest s.disk) (hlisted : Listed place d₀ t.folder)
    (hunwanted : isUnwanted t.folder = true) (hrest : t.folder ∉ rest) (hvisible : t.IsVisible)
    (hf : s.disk.item? (place ++ t.names) = some (.file f))
    (hf₀ : d₀.item? (place ++ t.names) = some (.file f)) :
    ∃ r s' π', Sweeping.onMessage (v.rehome t.folder) (t.entry v.maildir.root) s = (r, s') ∧
      v.Swept place d₀ π' rest s'.disk ∧
      (∀ u : Slot, u.folder = t.folder → u ≠ t →
        s'.disk.item? (place ++ u.names) = s.disk.item? (place ++ u.names)) ∧
      (r = .ok () → ¬ t.IsTaken place s'.disk) := by
  have hgoal := fun g => h.goal (g := g) hready hlisted hunwanted hvisible hf hf₀
  rcases rehome_onMessage hdry h.sound h.resolve hf hunwanted hgoal s.report with
    ⟨e, d', hrun, hstays⟩ | ⟨g, hg, d', hrun, hl, hwanted, hgoes⟩
  · refine ⟨.error e, ⟨d', s.report⟩, π, hrun,
      h.stays (fun hmem => absurd hmem hrest) hf hstays, fun u _ hut => ?_, fun hr => ?_⟩
    · obtain ⟨f', helse, -⟩ := hstays
      exact helse.other_slot hut
    · exact absurd hr (by simp)
  · -- no message of this state and name is in the other folder
    have hne : g ≠ t.folder := by
      rintro rfl
      rw [hunwanted] at hwanted
      exact absurd hwanted (by simp)
    have hfree : ¬ (t.within g hg).IsTaken place s.disk := by
      intro htaken
      have hsame := h.carried.namesDiffer hready.names _ _ htaken ⟨f, hf⟩ rfl rfl
      exact hne (congrArg Slot.folder hsame)
    refine ⟨.ok (), ⟨d', s.report⟩, _, hrun,
      h.goes (t := t.within g hg) hrest hwanted rfl rfl hl hf hfree hgoes, fun u hu hut => ?_,
      fun _ htaken => ?_⟩
    · obtain ⟨f', helse, -⟩ := hgoes
      refine helse.same _ ?_
      simp only [List.mem_cons, List.not_mem_nil, or_false, not_or]
      refine ⟨fun hsame => hut (Slot.append_names_inj hsame),
        Slot.append_names_ne_temporary place u t, fun hsame => hne ?_⟩
      rw [← hu, Slot.append_names_inj hsame]
      rfl
    · obtain ⟨f', -, hgone, -⟩ := hgoes
      obtain ⟨f'', hf''⟩ := htaken
      rw [hgone] at hf''
      exact absurd hf'' (by simp)

/-! ## All messages of a folder -/

/-- Messages of a folder, each of them once, that wait there since the beginning. -/
structure Waiting (root place : Path) (d₀ : Disk) (u : Text) (entries : List Entry) (d : Disk) :
    Prop where
  /-- None of them is there twice. -/
  nodup : entries.Nodup
  /-- They are as they were. -/
  waits : ∀ e ∈ entries, ∃ t : Slot, t.folder = u ∧ t.IsVisible ∧ t.IsTaken place d ∧
    d.item? (place ++ t.names) = d₀.item? (place ++ t.names) ∧ e = t.entry root

/-- The others wait while one of them is worked on. -/
theorem Waiting.others {root : Path} {t : Slot} {entries : List Entry} {d' : Disk}
    (h : Waiting root place d₀ t.folder (t.entry root :: entries) d)
    (hothers : ∀ u : Slot, u.folder = t.folder → u ≠ t →
      d'.item? (place ++ u.names) = d.item? (place ++ u.names)) :
    Waiting root place d₀ t.folder entries d' := by
  obtain ⟨ht, hnodup⟩ := List.nodup_cons.1 h.nodup
  refine ⟨hnodup, fun e he => ?_⟩
  obtain ⟨u, hfolder, hvisible, htaken, hsame, rfl⟩ := h.waits e (List.mem_cons_of_mem _ he)
  have hne : u ≠ t := by
    rintro rfl
    exact ht he
  have hitem := hothers u hfolder hne
  exact ⟨u, hfolder, hvisible, (isTaken_iff_of_eq hitem).2 htaken, hitem.trans hsame, rfl⟩

section Steps

variable {g : Text} {e : Entry} {es : List Entry} {sw sw₁ sw₂ : Sweep}

/-- A message that got a better place counts as moved. -/
theorem rehomeAll_moved (hrun : Sweeping.onMessage (v.rehome g) e sw = (.ok (), sw₁)) :
    v.rehomeAll g (e :: es) sw =
      v.rehomeAll g es ⟨sw₁.disk, sw₁.report + ⟨[], 1, 0, 0⟩⟩ := by
  rw [rehomeAll, run_bind_ok (Sweeping.attempt_run hrun)]
  simp only [VacuumReport.add_def, List.append_nil, Nat.add_zero]
  rfl

/-- One that did not get one counts as a failure, and is stranded. -/
theorem rehomeAll_stranded {e' : Error} {n : Nat}
    (hrun : Sweeping.onMessage (v.rehome g) e sw = (.error e', sw₁))
    (hrest : v.rehomeAll g es ⟨sw₁.disk, sw₁.report + ⟨[], 0, 0, 1⟩⟩ = (.ok n, sw₂)) :
    v.rehomeAll g (e :: es) sw = (.ok (n + 1), sw₂) := by
  simp only [VacuumReport.add_def, List.append_nil, Nat.add_zero] at hrest
  rw [rehomeAll, run_bind_ok (Sweeping.attempt_run hrun)]
  have hnote : Sweeping.noteFailure sw₁ = (.ok (),
      ⟨sw₁.disk, { sw₁.report with failures := sw₁.report.failures + 1 }⟩) := rfl
  show (Sweeping.noteFailure >>= _) sw₁ = _
  rw [run_bind_ok hnote, run_bind_ok hrest]
  rfl

end Steps

/-- All messages of a drained folder are given a better place, or counted as stranded. -/
theorem rehomeAll_run (hready : v.Ready place d₀) (hdry : v.dryRun = false) {u : Text}
    (hlisted : Listed place d₀ u) (hunwanted : isUnwanted u = true) (hrest : u ∉ rest)
    (entries : List Entry) : ∀ (s : Sweep) (π : Equiv.Perm Slot),
      Waiting v.maildir.root place d₀ u entries s.disk → v.Swept place d₀ π rest s.disk →
      ∃ n s' π', v.rehomeAll u entries s = (.ok n, s') ∧ v.Swept place d₀ π' rest s'.disk ∧
        (∀ t : Slot, t.folder = u → t.entry v.maildir.root ∉ entries →
          s'.disk.item? (place ++ t.names) = s.disk.item? (place ++ t.names)) ∧
        (n = 0 → ∀ t : Slot, t.entry v.maildir.root ∈ entries → ¬ t.IsTaken place s'.disk) := by
  induction entries with
  | nil =>
    intro s π _ h
    exact ⟨0, s, π, rfl, h, fun _ _ _ => rfl, fun _ t ht => absurd ht List.not_mem_nil⟩
  | cons e entries ih =>
    intro s π hwaiting h
    obtain ⟨t, rfl, hvisible, ⟨f, hf⟩, hsame, rfl⟩ := hwaiting.waits e List.mem_cons_self
    obtain ⟨r, s₁, π₁, hrun₁, h₁, hothers₁, hgone₁⟩ :=
      rehome_step hready hdry h hlisted hunwanted hrest hvisible hf (hsame ▸ hf)
    have hwaiting₁ := hwaiting.others hothers₁
    have ht := (List.nodup_cons.1 hwaiting.nodup).1
    -- what is no message of these was left alone by the first step, too
    have hframe : ∀ {d' : Disk}, (∀ u : Slot, u.folder = t.folder →
          u.entry v.maildir.root ∉ entries →
          d'.item? (place ++ u.names) = s₁.disk.item? (place ++ u.names)) →
        ∀ u : Slot, u.folder = t.folder →
          u.entry v.maildir.root ∉ t.entry v.maildir.root :: entries →
          d'.item? (place ++ u.names) = s.disk.item? (place ++ u.names) := by
      intro d' hothers u hfolder hmem
      rw [List.mem_cons, not_or] at hmem
      have hne : u ≠ t := by
        rintro rfl
        exact hmem.1 rfl
      exact (hothers u hfolder hmem.2).trans (hothers₁ u hfolder hne)
    cases r with
    | error e =>
      obtain ⟨n, s₂, π₂, hrun₂, h₂, hothers₂, -⟩ :=
        ih ⟨s₁.disk, s₁.report + ⟨[], 0, 0, 1⟩⟩ π₁ hwaiting₁ h₁
      exact ⟨n + 1, s₂, π₂, rehomeAll_stranded hrun₁ hrun₂, h₂, hframe hothers₂,
        fun hn => absurd hn (by omega)⟩
    | ok a =>
      obtain ⟨n, s₂, π₂, hrun₂, h₂, hothers₂, hgone₂⟩ :=
        ih ⟨s₁.disk, s₁.report + ⟨[], 1, 0, 0⟩⟩ π₁ hwaiting₁ h₁
      refine ⟨n, s₂, π₂, (rehomeAll_moved hrun₁).trans hrun₂, h₂, hframe hothers₂,
        fun hn u hu => ?_⟩
      rcases List.mem_cons.1 hu with hu | hu
      · obtain rfl := Slot.entry_inj hu
        rw [isTaken_iff_of_eq (hothers₂ u rfl ht)]
        exact hgone₁ rfl
      · exact hgone₂ hn u hu

/-! ## One folder -/

/-- A sweep that has come to some folders, and lost no message so far. -/
def Sweeps (v : Vacuum) (place : Path) (d₀ : Disk) (rest : List Text) (s : Sweep) : Prop :=
  ∃ π, v.Swept place d₀ π rest s.disk

theorem keeps_note (change : VacuumReport → VacuumReport) :
    Keeps (v.Sweeps place d₀ rest) (Sweeping.note change) := fun _ hs => hs

/-- Removing a folder without messages loses none. -/
theorem Swept.remove (h : v.Swept place d₀ π rest d) (hready : v.Ready place d₀) {u : Text}
    (hname : IsName u) (hunwanted : isUnwanted u = true) (hrest : u ∉ rest)
    (hempty : ∀ t : Slot, t.folder = u → t.IsVisible → ¬ t.IsTaken place d) :
    v.Swept place d₀ π rest (v.maildir.removeFolder u d).2 := by
  have havoids := (hready.avoids u hunwanted).of_folders h.gone
  exact h.shrunk havoids hrest hunwanted hempty
    (v.maildir.removeFolder_cases hname h.sound fun _ hq => Except.ok.inj (hq.symm.trans h.resolve)).1

theorem remove_sweeps (hready : v.Ready place d₀) {u : Text} (hname : IsName u)
    (hunwanted : isUnwanted u = true) (hrest : u ∉ rest) {s : Sweep}
    (h : v.Swept place d₀ π rest s.disk)
    (hempty : ∀ t : Slot, t.folder = u → t.IsVisible → ¬ t.IsTaken place s.disk) :
    v.Sweeps place d₀ rest (v.remove u s).2 := by
  have hnoting : ∀ removed : Bool, Keeps (v.Sweeps place d₀ rest)
      (if removed then Sweeping.note fun r => { r with removed := r.removed ++ [u] }
        else Sweeping.noteFailure) := fun _ =>
    Keeps.ite (fun _ => keeps_note _) fun _ => keeps_note _
  rw [remove]
  split
  · exact hnoting true s ⟨π, h⟩
  · exact hnoting _ { s with disk := (v.maildir.removeFolder u s.disk).2 }
      ⟨π, h.remove hready hname hunwanted hrest hempty⟩

/-- Draining a folder loses no message. -/
theorem leads_drain (hready : v.Ready place d₀) (hdry : v.dryRun = false) {u : Text}
    (hlisted : Listed place d₀ u) (hunwanted : isUnwanted u = true) (hrest : u ∉ rest) :
    Leads (v.Sweeps place d₀ (u :: rest)) (v.Sweeps place d₀ rest)
      (v.drain ⟨v.maildir.root, u⟩) := by
  rintro s ⟨π, h⟩
  have hlater : v.Swept place d₀ π rest s.disk := h.mono fun _ => List.mem_cons_of_mem u
  obtain ⟨entries, hentries⟩ := Folder.exists_messages h.sound h.resolve v.maildir.listing
    (h.listed_waiting List.mem_cons_self hunwanted hlisted)
  have hmem := fun e => Folder.mem_messages (e := e) h.sound h.resolve hlisted.1 hentries
  have hwaiting : Waiting v.maildir.root place d₀ u entries s.disk := by
    refine ⟨Folder.nodup_messages h.sound hentries, fun e he => ?_⟩
    obtain ⟨t, rfl, hvisible, htaken, rfl⟩ := (hmem e).1 he
    exact ⟨t, rfl, hvisible, htaken, h.waiting _ List.mem_cons_self hunwanted _, rfl⟩
  obtain ⟨n, s₁, π₁, hrun, h₁, hothers, hgone⟩ :=
    rehomeAll_run hready hdry hlisted hunwanted hrest entries s π hwaiting hlater
  rw [drain_of_messages hentries, run_bind_ok hrun]
  split
  · rename_i hn
    refine remove_sweeps hready hlisted.1 hunwanted hrest h₁ fun t ht hvisible htaken => ?_
    by_cases hmet : t.entry v.maildir.root ∈ entries
    · exact hgone hn t hmet htaken
    · refine hmet ((hmem _).2 ⟨t, ht, hvisible, ?_, rfl⟩)
      exact (isTaken_iff_of_eq (hothers t ht hmet)).1 htaken
  · exact ⟨π₁, h₁⟩

end Vacuum

end Mailroom
