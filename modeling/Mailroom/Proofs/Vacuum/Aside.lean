import Mailroom.Proofs.Message.Roaming
import Mailroom.Proofs.Vacuum.Leaving
import Mailroom.Proofs.Vacuum.Shares

/-!
# A folder that is to be drained, while others are swept

What a vacuum does in the other folders leaves one of those alone that are to be drained, and so it
does with messages that have already come to rest.

* `Vacuum.Rests` is a message that no other folder will be drained of.
* `Vacuum.Beside` compares the disk before and after work in other folders.
* `Vacuum.sweepAll_beside` is the induction over these folders.
-/

namespace Mailroom

variable {v : Vacuum} {place r : Path} {u g : Text} {d d₁ d' : Disk} {s t : Slot} {f : File}
  {state : ReadState} {name : Text} {content : Bytes} {q : Path}

/-! ## What one message concerns -/

theorem StaysAt.apart (h : StaysAt place d t f d') : d.Apart t.state t.name d' := by
  obtain ⟨f', helse, -⟩ := h
  refine ⟨_, helse, fun q hq => ?_⟩
  simp only [List.mem_cons, List.not_mem_nil, or_false] at hq
  rcases hq with rfl | rfl
  · exact ⟨place ++ [t.folder], Or.inl (by simp [Slot.names])⟩
  · exact ⟨place ++ [t.folder], Or.inr (by simp [Slot.temporary])⟩

theorem GoesOut.apart (h : GoesOut place d t (r ++ [t.state.name, t.name]) f d') :
    d.Apart t.state t.name d' := by
  obtain ⟨f', helse, -⟩ := h
  refine ⟨_, helse, fun q hq => ?_⟩
  simp only [List.mem_cons, List.not_mem_nil, or_false] at hq
  rcases hq with rfl | rfl | rfl
  · exact ⟨place ++ [t.folder], Or.inl (by simp [Slot.names])⟩
  · exact ⟨place ++ [t.folder], Or.inr (by simp [Slot.temporary])⟩
  · exact ⟨r, Or.inl rfl⟩

/-- A message that stays leaves all slots as they are, taken or not. -/
theorem StaysAt.isTaken (h : StaysAt place d t f d')
    (hf : d.item? (place ++ t.names) = some (.file f)) : s.IsTaken place d' ↔ s.IsTaken place d := by
  obtain ⟨f', helse, hf', -⟩ := h
  by_cases hst : s = t
  · rw [hst]
    exact ⟨fun _ => ⟨f, hf⟩, fun _ => ⟨f', hf'⟩⟩
  · exact isTaken_iff_of_eq (helse.other_slot hst)

/-! ## Messages that have come to rest -/

namespace Vacuum

/-- The message of a state and a name is at a path, the same letter as some content.  There is no
other message of them at a slot, and no folder but one will be drained of it. -/
structure Rests (place : Path) (u : Text) (state : ReadState) (name : Text) (content : Bytes)
    (q : Path) (d : Disk) : Prop where
  /-- The message is there. -/
  file : ∃ f, d.item? q = some (.file f) ∧ SameLetter content f.content
  /-- The path ends in its state and its name. -/
  ends : ∃ p, q = p ++ [state.name, name]
  /-- No other slot has a message of them, and none but the folder is drained. -/
  only : ∀ s : Slot, s.IsTaken place d → s.state = state → s.name = name →
    place ++ s.names = q ∧ (isUnwanted s.folder = true → s.folder = u)

namespace Rests

variable (h : Rests place u state name content q d)

include h

/-- Work on a message of another state or another name does not concern it. -/
theorem apart (hapart : d.Apart t.state t.name d') (hne : state = t.state → name ≠ t.name) :
    Rests place u state name content q d' where
  file := by
    obtain ⟨p, hp⟩ := h.ends
    rw [hp, hapart.same (not_endsIn hne), ← hp]
    exact h.file
  ends := h.ends
  only s htaken hstate hname := by
    refine h.only s ?_ hstate hname
    refine (isTaken_iff_of_eq (hapart.same (not_endsIn_names ?_))).1 htaken
    rw [hstate, hname]
    exact hne

/-- So does the removal of folders. -/
theorem of_files (hfiles : ∀ q f, d'.item? q = some (.file f) ↔ d.item? q = some (.file f)) :
    Rests place u state name content q d' where
  file := by
    obtain ⟨f, hf, hletter⟩ := h.file
    exact ⟨f, (hfiles q f).2 hf, hletter⟩
  ends := h.ends
  only s htaken := by
    obtain ⟨f, hf⟩ := htaken
    exact h.only s ⟨f, (hfiles _ f).1 hf⟩

/-- The message itself may be written anew. -/
theorem stays (hstays : StaysAt place d t f d') (hf : d.item? (place ++ t.names) = some (.file f))
    (hq : place ++ t.names = q) : Rests place u state name content q d' where
  file := by
    obtain ⟨f₀, hf₀, hletter₀⟩ := h.file
    obtain ⟨f', -, hf', hletter⟩ := hstays
    rw [← hq, hf] at hf₀
    obtain rfl : f = f₀ := Item.file.inj (Option.some.inj hf₀)
    exact ⟨f', hq ▸ hf', hletter₀.trans hletter⟩
  ends := h.ends
  only s htaken := h.only s ((hstays.isTaken hf).1 htaken)

end Rests

/-! ## Work beside a folder -/

/-- A disk before and after work in other folders than one that is to be drained. -/
structure Beside (place : Path) (u : Text) (d d' : Disk) : Prop where
  /-- The disk is sound. -/
  sound : d'.Sound
  /-- No folder came. -/
  gone : ∀ q, d'.item? q = some .folder → d.item? q = some .folder
  /-- The folder is there if it was. -/
  folder : d'.item? (place ++ [u]) = some .folder ↔ d.item? (place ++ [u]) = some .folder
  /-- What is in it is as it was. -/
  same : ∀ ns, Maildir.IsOutOfReach place ns →
    d'.item? (place ++ u :: ns) = d.item? (place ++ u :: ns)
  /-- Messages that had come to rest do so. -/
  rests : ∀ {state name content q}, Rests place u state name content q d →
    Rests place u state name content q d'

namespace Beside

theorem refl (hd : d.Sound) : Beside place u d d :=
  ⟨hd, fun _ h => h, Iff.rfl, fun _ _ => rfl, fun h => h⟩

theorem trans (h₁ : Beside place u d d₁) (h₂ : Beside place u d₁ d') : Beside place u d d' where
  sound := h₂.sound
  gone q hq := h₁.gone q (h₂.gone q hq)
  folder := h₂.folder.trans h₁.folder
  same ns hns := (h₂.same ns hns).trans (h₁.same ns hns)
  rests h := h₂.rests (h₁.rests h)

/-- If the maildir still is anywhere, it is where it was. -/
theorem leads {root : Path} (h : Beside place u d d')
    (hroot : ∀ q, d.resolve root = .ok q → q = place) (q : Path) (hq : d'.resolve root = .ok q) :
    q = place := hroot q (Disk.walk_of_same_folders h.gone hq)

/-- A message of another folder stays where it is. -/
theorem of_stays (h : StaysAt place d t f d') (hf : d.item? (place ++ t.names) = some (.file f))
    (hne : u ≠ t.folder) : Beside place u d d' where
  sound := h.apart.sound
  gone q := (h.apart.folders q).1
  folder := h.apart.folders _
  same ns _ := by
    obtain ⟨f', helse, -⟩ := h
    refine helse.same _ ?_
    simp only [List.mem_cons, List.not_mem_nil, or_false, not_or]
    exact ⟨append_cons_ne hne _ _, append_cons_ne hne _ _⟩
  rests {state name _ _} hrests := by
    by_cases hsame : t.state = state ∧ t.name = name
    · exact hrests.stays h hf (hrests.only t ⟨f, hf⟩ hsame.1 hsame.2).1
    · exact hrests.apart h.apart fun hstate hname => hsame ⟨hstate.symm, hname.symm⟩

/-- A message of another folder goes to one that is wanted. -/
theorem of_goesOut (h : GoesOut place d t (r ++ [t.state.name, t.name]) f d')
    (hf : d.item? (place ++ t.names) = some (.file f)) (hne : u ≠ t.folder)
    (ht : isUnwanted t.folder = true)
    (haway : ∀ ns, Maildir.IsOutOfReach place ns → place ++ u :: ns ≠ r ++ [t.state.name, t.name]) :
    Beside place u d d' where
  sound := h.apart.sound
  gone q := (h.apart.folders q).1
  folder := h.apart.folders _
  same ns hns := by
    obtain ⟨f', helse, -⟩ := h
    refine helse.same _ ?_
    simp only [List.mem_cons, List.not_mem_nil, or_false, not_or]
    exact ⟨append_cons_ne hne _ _, append_cons_ne hne _ _, haway ns hns⟩
  rests {state name _ _} hrests := by
    by_cases hsame : t.state = state ∧ t.name = name
    · exact absurd ((hrests.only t ⟨f, hf⟩ hsame.1 hsame.2).2 ht).symm hne
    · exact hrests.apart h.apart fun hstate hname => hsame ⟨hstate.symm, hname.symm⟩

/-- Another folder is removed, or a part of it. -/
theorem of_shrunk (h : d.Shrunk (place ++ [g]) d') (hne : u ≠ g) : Beside place u d d' := by
  have hsame : ∀ ns, d'.item? (place ++ u :: ns) = d.item? (place ++ u :: ns) := by
    intro ns
    refine h.same _ fun hle => ?_
    rw [List.prefix_append_right_inj, List.cons_prefix_cons] at hle
    exact hne hle.1.symm
  exact ⟨h.sound, h.gone, by rw [hsame], fun ns _ => hsame ns, fun hrests => hrests.of_files h.files⟩

end Beside

/-! ## Other folders -/

/-- Whether messages are there, at slots of one folder. -/
def AllThere (root place : Path) (g : Text) (d : Disk) (es : List Entry) : Prop :=
  ∀ e ∈ es, ∃ t : Slot, t.folder = g ∧ t.IsTaken place d ∧ e = t.entry root

namespace AllThere

variable {root : Path} {es : List Entry}

/-- They are still there when one of them was written anew. -/
theorem stays (h : AllThere root place g d es) (hstays : StaysAt place d t f d')
    (hf : d.item? (place ++ t.names) = some (.file f)) : AllThere root place g d' es := by
  intro e he
  obtain ⟨s, hs, htaken, rfl⟩ := h e he
  exact ⟨s, hs, (hstays.isTaken hf).2 htaken, rfl⟩

/-- They are still there when another one went to a folder that is wanted. -/
theorem goesOut (h : AllThere v.maildir.root place t.folder d es)
    (hgoes : GoesOut place d t (r ++ [t.state.name, t.name]) f d')
    (hnot : t.entry v.maildir.root ∉ es) (hroot : d.resolve v.maildir.root = .ok place)
    (hr : d.resolve (v.maildir.folder g).path = .ok r) (hslash : '/' ∉ g)
    (hwanted : isUnwanted g = false) (ht : isUnwanted t.folder = true) :
    AllThere v.maildir.root place t.folder d' es := by
  obtain ⟨f', helse, -⟩ := hgoes
  intro e he
  obtain ⟨s, hs, htaken, rfl⟩ := h e he
  refine ⟨s, hs, (isTaken_iff_of_eq (helse.same _ ?_)).2 htaken, rfl⟩
  simp only [List.mem_cons, List.not_mem_nil, or_false, not_or]
  refine ⟨fun heq => ?_, Slot.append_names_ne_temporary place s t, fun heq => ?_⟩
  · obtain rfl : s = t := Slot.append_names_inj heq
    exact hnot he
  · have hfolder := Maildir.folder_of_target hslash hroot hr _ _ heq
    exact ne_of_wanted hwanted ht (hfolder.symm.trans hs)

end AllThere

section Steps

variable {e : Entry} {es : List Entry} {sw sw₁ sw₂ : Sweep}

/-- A folder whose messages can be listed is in a maildir that is there. -/
theorem place_of_messages {root : Path} {listing : Listing} (hname : IsName g)
    (hes : Folder.messages ⟨root, g⟩ listing d = .ok es) :
    ∃ q, d.resolve root = .ok q := by
  obtain ⟨unseen, seen, hunseen, -, -⟩ := Folder.messages_eq_ok hes
  obtain ⟨l, hlist, -⟩ := exists_of_bind_ok hunseen
  cases hroot : d.resolve root with
  | ok q => exact ⟨q, rfl⟩
  | error e =>
    rw [statePath_eq hname, Disk.list, Disk.resolve_append, hroot] at hlist
    exact absurd hlist (by simp [Except.bind, bind, ofDisk])

/-- Removing a folder takes nothing else away, and is counted if the folder has gone.  Else it is a
failure, and the folder is still there. -/
theorem remove_cases (hdry : v.dryRun = false) (hname : IsName g) (hd : d.Sound)
    (hroot : ∀ q, d.resolve v.maildir.root = .ok q → q = place) (report : VacuumReport) :
    ∃ d', d.Shrunk (place ++ [g]) d' ∧
      (v.remove g ⟨d, report⟩ = (.ok (), ⟨d', report + ⟨[g], 0, 0, 0⟩⟩) ∧
          d'.item? (place ++ [g]) = none ∨
        v.remove g ⟨d, report⟩ = (.ok (), ⟨d', report + ⟨[], 0, 0, 1⟩⟩) ∧
          d'.item? (place ++ [g]) = d.item? (place ++ [g])) := by
  obtain ⟨hshrunk, hcases⟩ := v.maildir.removeFolder_cases hname hd hroot
  have hrun : v.remove g ⟨d, report⟩ =
      (if (v.maildir.removeFolder g d).1.toBool
        then Sweeping.note fun r => { r with removed := r.removed ++ [g] }
        else Sweeping.noteFailure) ⟨(v.maildir.removeFolder g d).2, report⟩ := by
    rw [remove, hdry]
    rfl
  refine ⟨(v.maildir.removeFolder g d).2, hshrunk, ?_⟩
  rcases hcases with ⟨hok, hnone⟩ | ⟨⟨e', herror⟩, hsame⟩
  · refine Or.inl ⟨hrun.trans ?_, hnone⟩
    rw [hok]
    rfl
  · refine Or.inr ⟨hrun.trans ?_, hsame⟩
    rw [herror]
    simp only [VacuumReport.add_def, List.append_nil, Nat.add_zero]
    rfl

end Steps

section Other

variable (hu : isUnwanted u = true) (hne : u ≠ g)

include hne

/-- The messages of another folder are tidied. -/
theorem tidyAll_beside (es : List Entry) : ∀ s : Sweep, s.disk.Sound →
    s.disk.resolve v.maildir.root = .ok place → AllThere v.maildir.root place g s.disk es →
    Beside place u s.disk (v.tidyAll es s).2.disk := by
  induction es with
  | nil => exact fun s hd _ _ => .refl hd
  | cons e es ih =>
    intro s hd hroot hes
    obtain ⟨t, rfl, ⟨f, hf⟩, rfl⟩ := hes e List.mem_cons_self
    obtain ⟨result, d', hrun, hstays⟩ := tidy_onMessage (v := v) hd hroot hf s.report
    -- noting the outcome does not change the disk
    obtain ⟨s', hrest, hdisk⟩ : ∃ s', v.tidyAll (t.entry v.maildir.root :: es) s =
        v.tidyAll es s' ∧ s'.disk = d' := by
      rw [tidyAll, run_bind_ok (Sweeping.attempt_run hrun)]
      rcases result with e' | _ | _
      · exact ⟨_, rfl, rfl⟩
      · exact ⟨_, rfl, rfl⟩
      · exact ⟨_, rfl, rfl⟩
    rw [hrest]
    refine (Beside.of_stays hstays hf hne).trans ?_
    rw [← hdisk]
    have hrest : AllThere v.maildir.root place t.folder s.disk es := fun e he =>
      hes e (List.mem_cons_of_mem _ he)
    exact ih s' (hdisk ▸ hstays.apart.sound) (hdisk ▸ hstays.apart.resolve hroot)
      (hdisk ▸ hrest.stays hstays hf)

/-- Removing another folder takes nothing else away. -/
theorem remove_beside (hdry : v.dryRun = false) (hname : IsName g) {s : Sweep} (hd : s.disk.Sound)
    (hroot : ∀ q, s.disk.resolve v.maildir.root = .ok q → q = place) :
    Beside place u s.disk (v.remove g s).2.disk := by
  obtain ⟨d', hshrunk, ⟨hrun, -⟩ | ⟨hrun, -⟩⟩ := remove_cases hdry hname hd hroot s.report
  · rw [hrun]
    exact .of_shrunk hshrunk hne
  · rw [hrun]
    exact .of_shrunk hshrunk hne

include hu

/-- The messages of another drained folder are given better places. -/
theorem rehomeAll_beside (hdry : v.dryRun = false) (hg : isUnwanted g = true) (es : List Entry) :
    ∀ s : Sweep, s.disk.Sound → s.disk.resolve v.maildir.root = .ok place → es.Nodup →
      AllThere v.maildir.root place g s.disk es →
      ∃ n s', v.rehomeAll g es s = (.ok n, s') ∧ Beside place u s.disk s'.disk := by
  induction es with
  | nil => exact fun s hd _ _ _ => ⟨0, s, rfl, .refl hd⟩
  | cons e es ih =>
    intro s hd hroot hnodup hes
    obtain ⟨hnot, hnodup'⟩ := List.nodup_cons.1 hnodup
    obtain ⟨t, rfl, ⟨f, hf⟩, rfl⟩ := hes e List.mem_cons_self
    have hrest : AllThere v.maildir.root place t.folder s.disk es := fun e he =>
      hes e (List.mem_cons_of_mem _ he)
    rcases rehome_anywhere hdry hd hroot hf hg s.report with
      ⟨e, d', hrun, hstays⟩ | ⟨g, r, d', hrun, hwanted, hslash, hr, hgoes⟩
    · obtain ⟨n, s', hrun', hbeside⟩ := ih ⟨d', s.report + ⟨[], 0, 0, 1⟩⟩ hstays.apart.sound
        (hstays.apart.resolve hroot) hnodup' (hrest.stays hstays hf)
      exact ⟨n + 1, s', rehomeAll_stranded hrun hrun',
        (Beside.of_stays hstays hf hne).trans hbeside⟩
    · have haway := fun ns (hns : Maildir.IsOutOfReach place ns) =>
        Maildir.target_ne_below hslash hroot hr hwanted t.state t.name hu hns
      obtain ⟨n, s', hrun', hbeside⟩ := ih ⟨d', s.report + ⟨[], 1, 0, 0⟩⟩ hgoes.apart.sound
        (hgoes.apart.resolve hroot) hnodup' (hrest.goesOut hgoes hnot hroot hr hslash hwanted hg)
      exact ⟨n, s', (rehomeAll_moved hrun).trans hrun',
        (Beside.of_goesOut hgoes hf hne hg haway).trans hbeside⟩

/-- One other folder is gone through. -/
theorem sweep_beside (hdry : v.dryRun = false) (hname : IsName g) {s : Sweep} (hd : s.disk.Sound)
    (hroot : ∀ q, s.disk.resolve v.maildir.root = .ok q → q = place) :
    Beside place u s.disk ((if isUnwanted g then v.drain ⟨v.maildir.root, g⟩
      else v.tidy ⟨v.maildir.root, g⟩) s).2.disk := by
  cases hes : Folder.messages ⟨v.maildir.root, g⟩ v.maildir.listing s.disk with
  | error e =>
    split
    · rw [drain_of_error hes]
      exact .refl hd
    · rw [tidy_of_error hes]
      exact .refl hd
  | ok es =>
    obtain ⟨q, hq⟩ := place_of_messages hname hes
    obtain rfl := hroot q hq
    have hthere : AllThere v.maildir.root q g s.disk es := by
      intro e he
      obtain ⟨t, ht, -, htaken, rfl⟩ := (Folder.mem_messages hd hq hname hes).1 he
      exact ⟨t, ht, htaken, rfl⟩
    split
    · rename_i hg
      obtain ⟨n, s', hrun, hbeside⟩ := rehomeAll_beside hu hne hdry hg es s hd hq
        (Folder.nodup_messages hd hes) hthere
      rw [drain_of_messages hes, run_bind_ok hrun]
      split
      · exact hbeside.trans (remove_beside hne hdry hname hbeside.sound (hbeside.leads hroot))
      · exact hbeside
    · rw [tidy_of_messages hes]
      exact tidyAll_beside hne es s hd hq hthere

end Other

/-- Other folders are gone through. -/
theorem sweepAll_beside (hdry : v.dryRun = false) (hu : isUnwanted u = true) (fs : List Folder) :
    ∀ s : Sweep, (∀ f ∈ fs, f.root = v.maildir.root ∧ IsName f.name ∧ u ≠ f.name) → s.disk.Sound →
      (∀ q, s.disk.resolve v.maildir.root = .ok q → q = place) →
      Beside place u s.disk (v.sweepAll fs s).2.disk := by
  induction fs with
  | nil => exact fun s _ hd _ => .refl hd
  | cons f fs ih =>
    intro s hfs hd hroot
    obtain ⟨root, name⟩ := f
    obtain ⟨hr, hname, hne⟩ := hfs ⟨root, name⟩ List.mem_cons_self
    obtain rfl : root = v.maildir.root := hr
    have hfirst : Beside place u s.disk (v.sweepAll [⟨v.maildir.root, name⟩] s).2.disk := by
      rw [disk_sweepAll_singleton]
      exact sweep_beside hu hne hdry hname hd hroot
    rw [sweepAll_cons]
    exact hfirst.trans (ih _ (fun f hf => hfs f (List.mem_cons_of_mem _ hf)) hfirst.sound
      (hfirst.leads hroot))

end Vacuum

end Mailroom
