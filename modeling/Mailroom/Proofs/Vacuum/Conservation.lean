import Mailroom.Proofs.Vacuum.Draining

/-!
# No message is lost in a vacuum

A vacuum writes messages anew, moves them out of the folders that it drains and removes these.
Where every message of such a folder goes to one that is listed, the messages that were listed
before are listed afterwards, each of them once.

* `Vacuum.leads_tidy` is the step for a folder that is wanted; that for one that is drained is
  `Vacuum.leads_drain`.
* `Vacuum.sweepAll_run` is the induction over the folders.
* `Vacuum.run_entries` is the result for the whole vacuum.
-/

namespace Mailroom

namespace Vacuum

variable {v : Vacuum} {place : Path} {rest : List Text} {d₀ : Disk}

/-! ## A folder that is wanted -/

/-- A sweep that has come to some messages of a folder, which are all there. -/
def Tending (v : Vacuum) (place : Path) (d₀ : Disk) (rest : List Text) (g : Text)
    (entries : List Entry) (s : Sweep) : Prop :=
  v.Sweeps place d₀ rest s ∧ ∀ e ∈ entries, ∃ t : Slot, t.folder = g ∧ t.IsTaken place s.disk ∧
    e = t.entry v.maildir.root

theorem keeps_tidyMessage_attempt {g : Text} (hwanted : isUnwanted g = false)
    {entries : List Entry} {e : Entry} (he : e ∈ entries) :
    Keeps (v.Tending place d₀ rest g entries) (Sweeping.onMessage v.tidyMessage e).attempt := by
  rintro s ⟨⟨π, h⟩, hthere⟩
  obtain ⟨t, rfl, ⟨f, hf⟩, rfl⟩ := hthere e he
  obtain ⟨r, d', hrun, hstays⟩ := tidy_onMessage (v := v) h.sound h.resolve hf s.report
  rw [Sweeping.attempt_run hrun]
  refine ⟨⟨π, h.stays (fun _ => hwanted) hf hstays⟩, fun e' he' => ?_⟩
  obtain ⟨u, hu, htaken, rfl⟩ := hthere e' he'
  obtain ⟨f', helse, hf', -⟩ := hstays
  refine ⟨u, hu, ?_, rfl⟩
  by_cases hut : u = t
  · rw [hut]
    exact ⟨f', hf'⟩
  · exact (isTaken_iff_of_eq (helse.other_slot hut)).2 htaken

theorem keeps_tidyAll {g : Text} (hwanted : isUnwanted g = false) {entries : List Entry} :
    ∀ es : List Entry, (∀ e ∈ es, e ∈ entries) →
      Keeps (v.Tending place d₀ rest g entries) (v.tidyAll es) := by
  intro es
  induction es with
  | nil =>
    intro _
    exact Keeps.pure ()
  | cons e es ih =>
    intro hes
    have hrest := ih fun e' he' => hes e' (List.mem_cons_of_mem e he')
    have hnote : ∀ change : VacuumReport → VacuumReport,
        Keeps (v.Tending place d₀ rest g entries) (Sweeping.note change) := fun _ s hs => hs
    rw [tidyAll]
    apply (keeps_tidyMessage_attempt hwanted (hes e List.mem_cons_self)).bind
    intro r
    rcases r with e' | written
    · exact (hnote _).bind fun _ => hrest
    · cases written with
      | true => exact (hnote _).bind fun _ => hrest
      | false => exact hrest

/-- Tidying a folder loses no message. -/
theorem leads_tidy {g : Text} (hname : IsName g) (hwanted : isUnwanted g = false) :
    Leads (v.Sweeps place d₀ (g :: rest)) (v.Sweeps place d₀ rest)
      (v.tidy ⟨v.maildir.root, g⟩) := by
  rintro s ⟨π, h⟩
  have hlater : v.Swept place d₀ π rest s.disk := h.mono fun _ => List.mem_cons_of_mem g
  cases hentries : Folder.messages ⟨v.maildir.root, g⟩ v.maildir.listing s.disk with
  | error e =>
    rw [tidy_of_error hentries]
    exact ⟨π, hlater⟩
  | ok entries =>
    rw [tidy_of_messages hentries]
    have hthere : v.Tending place d₀ rest g entries s := by
      refine ⟨⟨π, hlater⟩, fun e he => ?_⟩
      obtain ⟨t, ht, -, htaken, rfl⟩ :=
        (Folder.mem_messages h.sound h.resolve hname hentries).1 he
      exact ⟨t, ht, htaken, rfl⟩
    exact (keeps_tidyAll hwanted entries (fun _ he => he) s hthere).1

/-! ## All folders -/

/-- Going through the folders loses no message, and does not fail. -/
theorem sweepAll_run (hready : v.Ready place d₀) (hdry : v.dryRun = false) :
    ∀ (folders : List Folder) (s : Sweep), folders.Nodup →
      (∀ f ∈ folders, f.root = v.maildir.root ∧ Listed place d₀ f.name) →
      v.Sweeps place d₀ (folders.map Folder.name) s →
      ∃ s', v.sweepAll folders s = (.ok (), s') ∧ v.Sweeps place d₀ [] s' := by
  intro folders
  induction folders with
  | nil =>
    intro s _ _ h
    exact ⟨s, rfl, h⟩
  | cons f folders ih =>
    intro s hnodup hfolders h
    obtain ⟨hf, hnodup'⟩ := List.nodup_cons.1 hnodup
    have hlater : ∀ f ∈ folders, f.root = v.maildir.root ∧ Listed place d₀ f.name :=
      fun f hf => hfolders f (List.mem_cons_of_mem _ hf)
    obtain ⟨root, name⟩ := f
    obtain ⟨hroot, hlisted⟩ := hfolders ⟨root, name⟩ List.mem_cons_self
    obtain rfl : root = v.maildir.root := hroot
    have hrest : name ∉ folders.map Folder.name := by
      intro hmem
      obtain ⟨⟨root, name'⟩, hg, rfl⟩ := List.mem_map.1 hmem
      obtain rfl : root = v.maildir.root := (hlater _ hg).1
      exact hf hg
    have hstep : Leads (v.Sweeps place d₀ (name :: folders.map Folder.name))
        (v.Sweeps place d₀ (folders.map Folder.name))
        (if isUnwanted name then v.drain ⟨v.maildir.root, name⟩
          else v.tidy ⟨v.maildir.root, name⟩) := by
      split
      · rename_i hunwanted
        exact leads_drain hready hdry hlisted hunwanted hrest
      · rename_i hwanted
        exact leads_tidy hlisted.1 (Bool.not_eq_true _ ▸ hwanted)
    have hs' := hstep s h
    rw [sweepAll]
    cases hrun : (if isUnwanted name then v.drain ⟨v.maildir.root, name⟩
        else v.tidy ⟨v.maildir.root, name⟩) s with
    | mk r s₁ =>
      rw [hrun] at hs'
      rw [run_bind_ok (Sweeping.attempt_run hrun)]
      cases r with
      | ok a => exact ih s₁ hnodup' hlater hs'
      | error e =>
        -- the failure is noted, and the disk is as it was
        exact ih ⟨s₁.disk, { s₁.report with failures := s₁.report.failures + 1 }⟩ hnodup' hlater hs'

/-- A vacuum that finds what it has to loses no message, and does not fail. -/
theorem run_sweeps (hready : v.Ready place d₀) (hdry : v.dryRun = false)
    (hplace : d₀.item? place = some .folder) :
    ∃ report d' π, v.run d₀ = (.ok report, d') ∧ v.Swept place d₀ π [] d' := by
  obtain ⟨fs, hfs⟩ := Maildir.exists_folders hready.resolve hplace
  obtain ⟨s', hrun, π, h⟩ : ∃ s', v.sweepAll (if v.calledOff then [] else fs) ⟨d₀, .empty⟩ =
      (.ok (), s') ∧ v.Sweeps place d₀ [] s' := by
    split
    · exact ⟨_, rfl, Equiv.refl Slot, .start hready.sound hready.resolve hplace []⟩
    · refine sweepAll_run hready hdry fs _ (Maildir.nodup_folders hready.sound hfs) (fun f hf => ?_)
        ⟨Equiv.refl Slot, .start hready.sound hready.resolve hplace _⟩
      exact (Maildir.mem_folders hready.sound hready.resolve hfs).1 hf
  refine ⟨s'.report, s'.disk, π, ?_, h⟩
  simp only [run, hfs, hrun]
  rfl

end Vacuum

/-! ## The messages of a maildir -/

/-- Whether the way to the maildir comes by no folder that is to be drained. -/
def Vacuum.IsApart (v : Vacuum) (d : Disk) : Prop :=
  ∀ place u, d.resolve v.maildir.root = .ok place → isUnwanted u = true →
    d.Avoids (place ++ [u]) v.maildir.root

theorem Vacuum.isApart_of_no_up {v : Vacuum} (hup : ['.', '.'] ∉ v.maildir.root) (d : Disk) :
    v.IsApart d :=
  fun _ u hroot _ => Disk.avoids_of_no_up hup hroot u

/-- Where messages of drained folders go where they are listed, every message that was met before
a vacuum is met once after it: with the same state and the same name, and the same letter. -/
theorem Vacuum.run_entries (v : Vacuum) (d : Disk) (hd : d.Sound) (hdry : v.dryRun = false)
    (happart : v.IsApart d) (hroutes : v.Routes d)
    (hnames : ∀ s t, v.maildir.HasMessage d s → v.maildir.HasMessage d t →
      s.state = t.state → s.name = t.name → s = t)
    {es : List Entry} (hes : v.maildir.entries d = .ok es) :
    ∃ report d' es', v.run d = (.ok report, d') ∧ v.maildir.entries d' = .ok es' ∧
      ∀ e ∈ es, ∃ e', es'.filter (fun g => decide (g.state = e.state ∧ g.name = e.name)) = [e'] ∧
        ∃ before after, e.read d = .ok before ∧ e'.read d' = .ok after ∧
          SameLetter before after := by
  obtain ⟨place, hroot, hplace⟩ := Maildir.place_of_entries hes
  have hdiffer : NamesDiffer place d := fun s t hs ht =>
    hnames s t ((Maildir.hasMessage_iff hd hroot s).2 hs) ((Maildir.hasMessage_iff hd hroot t).2 ht)
  have hready : v.Ready place d := ⟨hd, hroot, fun u => happart place u hroot, hdiffer, hroutes⟩
  obtain ⟨report, d', π, hrun, h⟩ := v.run_sweeps hready hdry hplace
  -- the messages before and after
  obtain ⟨es₀, hes₀, -, hmem⟩ := Maildir.exists_entries (m := v.maildir) hd hroot hplace
  obtain rfl : es = es₀ := Except.ok.inj (hes.symm.trans hes₀)
  obtain ⟨es', hes', hnodup, hmem'⟩ :=
    Maildir.exists_entries (m := v.maildir) h.sound h.resolve h.there
  refine ⟨report, d', es', hrun, hes', fun e he => ?_⟩
  obtain ⟨s, hlisted, hvisible, htaken, rfl⟩ := (hmem e).1 he
  have htaken' := (h.carried.taken s).2 htaken
  have hvisible' : (π s).IsVisible := by
    rw [Slot.IsVisible, h.carried.name]
    exact hvisible
  have hmet := (hmem' _).2 ⟨π s, h.placed s hlisted hvisible htaken, hvisible', htaken', rfl⟩
  refine ⟨(π s).entry v.maildir.root, filter_eq_singleton hnodup hmet fun e' he' => ?_, ?_⟩
  · -- the state and the name tell the message
    obtain ⟨t, -, -, ht, rfl⟩ := (hmem' e').1 he'
    rw [decide_eq_true_eq, Slot.state_entry, Slot.name_entry, Slot.state_entry, Slot.name_entry,
      ← h.carried.state s, ← h.carried.name s]
    constructor
    · rintro ⟨hstate, hname⟩
      rw [h.carried.namesDiffer hdiffer t (π s) ht htaken' hstate hname]
    · intro hsame
      rw [Slot.entry_inj hsame]
      exact ⟨rfl, rfl⟩
  · obtain ⟨f, hf⟩ := htaken
    obtain ⟨f', hf'⟩ := htaken'
    exact ⟨f.content, f'.content, Message.read_entry hd hroot hf,
      Message.read_entry h.sound h.resolve hf',
      h.carried.letter s f f' hf hf'⟩

/-! ### A vacuum that drains a folder -/

/-- A disk with a message in a folder that is to be drained, and the folder that it goes to. -/
def draftsDisk : Disk := (Disk.empty 0).plant [] (.folder
  [("Drafts", .folder [("new", .folder []),
      ("cur", .folder [("1.a:2,S", .file sampleLetter none)]),
      ("tmp", .folder [])]),
    ("gmail.All_Mail", .folder [("new", .folder []), ("cur", .folder [])])])

/-- Where the message is. -/
def draftSlot : Slot := sampleSlot.within "Drafts" (by decide)

/-- A vacuum of it. -/
def draining : Vacuum := ⟨⟨[], .byName⟩, false, false⟩

theorem sound_draftsDisk : draftsDisk.Sound := Disk.sound_plant 0 (by decide)

theorem resolve_draftsDisk : draftsDisk.resolve draining.maildir.root = .ok [] := rfl

/-- There is no other message. -/
theorem eq_draftSlot {s : Slot} (hs : draining.maildir.HasMessage draftsDisk s) : s = draftSlot :=
  Maildir.eq_of_only_file sound_draftsDisk (m := draining.maildir) rfl (by decide) hs

theorem goal_draftSlot : draining.goal draftsDisk draftSlot = .ok fallbackFolder := by
  rw [Vacuum.goal_eq sound_draftsDisk resolve_draftsDisk rfl]
  decide +kernel

theorem routes_draftsDisk : draining.Routes draftsDisk := by
  intro s g hlists _ _ hg
  obtain rfl := eq_draftSlot hlists.2
  rw [goal_draftSlot] at hg
  obtain rfl := Except.ok.inj hg
  obtain ⟨fs, hfs⟩ := Maildir.exists_folders resolve_draftsDisk (Disk.item?_nil draftsDisk)
  refine Or.inl ⟨fs, hfs, (Maildir.mem_folders sound_draftsDisk resolve_draftsDisk hfs).2 ⟨rfl, ?_⟩⟩
  exact ⟨by decide, by decide, rfl, rfl⟩

theorem draining_entries : ∃ es, draining.maildir.entries draftsDisk = .ok es ∧
    draftSlot.entry [] ∈ es ∧
    ∃ report d' es', draining.run draftsDisk = (.ok report, d') ∧
      draining.maildir.entries d' = .ok es' ∧
      ∀ e ∈ es, ∃ e', es'.filter (fun g => decide (g.state = e.state ∧ g.name = e.name)) = [e'] ∧
        ∃ before after, e.read draftsDisk = .ok before ∧ e'.read d' = .ok after ∧
          SameLetter before after := by
  obtain ⟨es, hes, -, hmem⟩ :=
    Maildir.exists_entries sound_draftsDisk resolve_draftsDisk (Disk.item?_nil draftsDisk)
  refine ⟨es, hes, (hmem _).2 ⟨draftSlot, ?_, ?_, ⟨_, rfl⟩, rfl⟩, ?_⟩
  · exact ⟨by decide, by decide, rfl, rfl⟩
  · unfold Slot.IsVisible
    decide
  · exact draining.run_entries draftsDisk sound_draftsDisk rfl
      (Vacuum.isApart_of_no_up (by decide) draftsDisk) routes_draftsDisk
      (fun s t hs ht _ _ => (eq_draftSlot hs).trans (eq_draftSlot ht).symm) hes

end Mailroom
