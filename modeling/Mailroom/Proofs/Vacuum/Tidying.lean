import Mailroom.Proofs.Vacuum.Conservation
import Mailroom.Proofs.Vacuum.Settling

/-!
# A vacuum that has nothing to drain

Where every folder is wanted, a vacuum does nothing but tidy the messages, each of them by itself.
One vacuum is enough: the next one writes nothing, and fails for the messages that the first one
failed for.

* `Vacuum.outcome` is what comes of one message, and `Vacuum.outcome_congr` says what it depends on.
* `Vacuum.Tidied` compares the disk with the one of the beginning; `Vacuum.tidy_step` takes one
  message, and `Vacuum.sweepAll_tidied` all folders.
* `Vacuum.run_tidied` is a whole vacuum, and `Vacuum.run_twice` two of them.
-/

namespace Mailroom

/-! ## Outcomes -/

namespace Vacuum

/-- What comes of tidying a message of a disk: whether it is written anew; `none` if that fails. -/
def outcome (v : Vacuum) (d : Disk) (e : Entry) : Option Bool :=
  (v.tidyMessage ⟨d, .ofEntry e⟩).1.toOption

/-- The same vacuum, that meets the messages in another order. -/
def inOrder (v : Vacuum) (listing : Listing) : Vacuum :=
  { v with maildir := { v.maildir with listing := listing } }

section Outcome

variable {v : Vacuum} {place : Path} {d d' : Disk} {s : Slot} {f f' : File}

/-- The outcome for a message whose keywords read back, as it is told by its content and by the
room for it. -/
theorem outcome_iff (hdry : v.dryRun = false) (hd : d.Sound)
    (hroot : d.resolve v.maildir.root = .ok place)
    (hf : d.item? (place ++ s.names) = some (.file f)) (hkeeps : KeepsKeywords f.content) :
    (v.outcome d (s.entry v.maildir.root) = some false ↔ IsTidy f.content) ∧
      (v.outcome d (s.entry v.maildir.root) = some true ↔
        (∃ header, readHeader f.content = .ok header) ∧ ¬ IsTidy f.content ∧ s.HasRoom place d) := by
  have hreadable : IsTidy f.content → ∃ header, readHeader f.content = .ok header := fun h =>
    h.imp fun _ h => h.1
  rw [outcome]
  rcases tidyMessage_cases hdry hd hroot hf hkeeps with ⟨hwhy, e, m', hrun⟩ | ⟨htidy, m', hrun⟩ |
    ⟨hread, huntidy, hroom, d', m', f', hrun, -⟩
  · rw [hrun]
    simp only [Except.toOption, reduceCtorEq, false_iff]
    rcases hwhy with ⟨e', hunread⟩ | ⟨huntidy, hno⟩
    · have hnot : ¬ ∃ header, readHeader f.content = .ok header := by simp [hunread]
      exact ⟨fun h => hnot (hreadable h), fun h => hnot h.1⟩
    · exact ⟨huntidy, fun h => hno h.2.2⟩
  · rw [hrun]
    simp [Except.toOption, htidy]
  · rw [hrun]
    simp [Except.toOption, hread, huntidy, hroom]

/-- The outcome is the same for the same content, where the folders are the same. -/
theorem outcome_congr (hdry : v.dryRun = false) (hd : d.Sound) (hd' : d'.Sound)
    (hroot : d.resolve v.maildir.root = .ok place) (hroot' : d'.resolve v.maildir.root = .ok place)
    (hfolders : ∀ q, d'.item? q = some .folder ↔ d.item? q = some .folder)
    (hf : d.item? (place ++ s.names) = some (.file f))
    (hf' : d'.item? (place ++ s.names) = some (.file f)) (hkeeps : KeepsKeywords f.content) :
    v.outcome d' (s.entry v.maildir.root) = v.outcome d (s.entry v.maildir.root) := by
  obtain ⟨hfalse, htrue⟩ := outcome_iff hdry hd hroot hf hkeeps
  obtain ⟨hfalse', htrue'⟩ := outcome_iff hdry hd' hroot' hf' hkeeps
  have hroom : s.HasRoom place d' ↔ s.HasRoom place d :=
    ⟨fun h => h.of_folders fun q => (hfolders q).symm, fun h => h.of_folders hfolders⟩
  rw [hroom, ← htrue] at htrue'
  rw [← hfalse] at hfalse'
  cases h : v.outcome d (s.entry v.maildir.root) with
  | some b =>
    cases b with
    | false => exact hfalse'.2 h
    | true => exact htrue'.2 h
  | none =>
    cases h' : v.outcome d' (s.entry v.maildir.root) with
    | none => rfl
    | some b =>
      cases b with
      | false => exact (h.symm.trans (hfalse'.1 h')).symm
      | true => exact (h.symm.trans (htrue'.1 h')).symm

end Outcome

end Vacuum

/-- A report with the outcomes for some more messages. -/
def VacuumReport.tidied (r : VacuumReport) (outcomes : List (Option Bool)) : VacuumReport :=
  { r with
    rewritten := r.rewritten + outcomes.count (some true)
    failures := r.failures + outcomes.count none }

namespace VacuumReport

theorem tidied_append (r : VacuumReport) (os os' : List (Option Bool)) :
    r.tidied (os ++ os') = (r.tidied os).tidied os' := by
  simp [tidied, List.count_append, Nat.add_assoc]

theorem tidied_perm (r : VacuumReport) {os os' : List (Option Bool)} (h : os.Perm os') :
    r.tidied os = r.tidied os' := by
  simp [tidied, h.count_eq]

theorem tidied_map (es : List Entry) (o : Entry → Option Bool) : empty.tidied (es.map o) =
    ⟨[], 0, es.countP (fun e => o e == some true), es.countP (fun e => o e == none)⟩ := by
  simp [tidied, empty, List.count_eq_countP, List.countP_map, Function.comp_def]

end VacuumReport

theorem Maildir.entriesOf_cons {m : Maildir} {d : Disk} {g : Folder} {fs : List Folder}
    {es : List Entry} (h : m.entriesOf d (g :: fs) = .ok es) : ∃ here rest,
      g.messages m.listing d = .ok here ∧ m.entriesOf d fs = .ok rest ∧ es = here ++ rest := by
  obtain ⟨here, hhere, h⟩ := exists_of_bind_ok h
  obtain ⟨rest, hrest, h⟩ := exists_of_bind_ok h
  exact ⟨here, rest, hhere, hrest, (Except.ok.inj h).symm⟩

/-! ## A maildir that is being tidied -/

namespace Vacuum

variable {v : Vacuum} {place : Path} {d₀ d d' : Disk} {done : List Entry} {t : Slot} {f : File}

/-- The disk after some messages were tidied.  Those that were written anew would be left alone from
now on, and all others are as they were. -/
structure Tidied (v : Vacuum) (place : Path) (d₀ : Disk) (done : List Entry) (d : Disk) : Prop where
  /-- Folders and messages are where they were. -/
  stays : Stays v.maildir.root place d₀ d
  /-- Messages that were not written anew are as they were. -/
  same : ∀ (s : Slot) f, d₀.item? (place ++ s.names) = some (.file f) →
    (s.entry v.maildir.root ∈ done → v.outcome d₀ (s.entry v.maildir.root) ≠ some true) →
    d.item? (place ++ s.names) = some (.file f)
  /-- Messages that were written anew would be left alone. -/
  tidy : ∀ s : Slot, s.entry v.maildir.root ∈ done →
    v.outcome d₀ (s.entry v.maildir.root) = some true →
    ∃ f, d.item? (place ++ s.names) = some (.file f) ∧ IsTidy f.content ∧ KeepsKeywords f.content
  /-- If there was nothing to write, the disk is the same. -/
  still : (∀ e ∈ done, v.outcome d₀ e ≠ some true) → d = d₀

namespace Tidied

theorem start (hd : d.Sound) (hroot : d.resolve v.maildir.root = .ok place) :
    v.Tidied place d [] d :=
  ⟨.refl hd hroot, fun _ _ hf _ => hf, fun _ h => absurd h List.not_mem_nil, fun _ => rfl⟩

/-- One more message is left as it was. -/
theorem left (h : v.Tidied place d₀ done d) {e : Entry} (he : v.outcome d₀ e ≠ some true) :
    v.Tidied place d₀ (done ++ [e]) d where
  stays := h.stays
  same s f hf hnot := h.same s f hf fun hmem => hnot (List.mem_append_left _ hmem)
  tidy s hmem htrue := by
    rcases List.mem_append.1 hmem with hmem | hmem
    · exact h.tidy s hmem htrue
    · rw [List.mem_singleton.1 hmem] at htrue
      exact absurd htrue he
  still hnone := h.still fun e he => hnone e (List.mem_append_left _ he)

/-- One more message is written anew. -/
theorem rewritten (h : v.Tidied place d₀ done d) (hf : d.item? (place ++ t.names) = some (.file f))
    (ht : v.outcome d₀ (t.entry v.maildir.root) = some true)
    (helse : d.Elsewhere [place ++ t.names, place ++ t.temporary] d') {f' : File}
    (hf' : d'.item? (place ++ t.names) = some (.file f')) (htidy : IsTidy f'.content)
    (hkeeps : KeepsKeywords f'.content) :
    v.Tidied place d₀ (done ++ [t.entry v.maildir.root]) d' where
  stays := h.stays.rewritten helse ⟨f, hf⟩ ⟨f', hf'⟩
  same s f hs hnot := by
    have hne : s ≠ t := by
      rintro rfl
      exact hnot (by simp) ht
    rw [helse.other_slot hne]
    exact h.same s f hs fun hmem => hnot (List.mem_append_left _ hmem)
  tidy s hmem htrue := by
    by_cases hst : s = t
    · exact ⟨f', hst ▸ hf', htidy, hkeeps⟩
    · have hne : s.entry v.maildir.root ≠ t.entry v.maildir.root := fun heq =>
        hst (Slot.entry_inj heq)
      rw [helse.other_slot hst]
      exact h.tidy s (by simpa [hne] using hmem) htrue
  still hnone := absurd ht (hnone _ (by simp))

end Tidied

/-- Whether a message is at a slot of the disk, and its keywords read back. -/
def Keepable (v : Vacuum) (place : Path) (d : Disk) (e : Entry) : Prop :=
  ∃ t f, e = Slot.entry v.maildir.root t ∧ d.item? (place ++ t.names) = some (.file f) ∧
    KeepsKeywords f.content

/-- One message is tidied, with the outcome that it had in the beginning. -/
theorem tidy_step (hdry : v.dryRun = false) (hd₀ : d₀.Sound)
    (hroot₀ : d₀.resolve v.maildir.root = .ok place) {s : Sweep} (h : v.Tidied place d₀ done s.disk)
    {e : Entry} (he : v.Keepable place d₀ e) (hnew : e ∉ done) :
    ∃ r s', (Sweeping.onMessage v.tidyMessage e).attempt s = (.ok r, s') ∧
      r.toOption = v.outcome d₀ e ∧ s'.report = s.report ∧
      v.Tidied place d₀ (done ++ [e]) s'.disk := by
  obtain ⟨t, f, rfl, hf₀, hkeeps⟩ := he
  have hf := h.same t f hf₀ fun hmem => absurd hmem hnew
  have hsame := outcome_congr hdry hd₀ h.stays.sound hroot₀ h.stays.resolve h.stays.folders hf₀ hf
    hkeeps
  rcases tidyMessage_cases hdry h.stays.sound h.stays.resolve hf hkeeps with
    ⟨-, e, m', hrun⟩ | ⟨-, m', hrun⟩ | ⟨-, -, -, d', m', f', hrun, helse, hf', htidy, hkeeps'⟩
  · refine ⟨.error e, s, Sweeping.attempt_run (by rw [Sweeping.onMessage, hrun]), ?_, rfl,
      h.left ?_⟩
    · rw [← hsame, outcome, hrun]
    · rw [← hsame, outcome, hrun]
      simp [Except.toOption]
  · refine ⟨.ok false, s, Sweeping.attempt_run (by rw [Sweeping.onMessage, hrun]), ?_, rfl,
      h.left ?_⟩
    · rw [← hsame, outcome, hrun]
    · rw [← hsame, outcome, hrun]
      simp [Except.toOption]
  · have htrue : v.outcome d₀ (t.entry v.maildir.root) = some true := by
      rw [← hsame, outcome, hrun]
      rfl
    refine ⟨.ok true, ⟨d', s.report⟩,
      Sweeping.attempt_run (by rw [Sweeping.onMessage, hrun]), htrue.symm, rfl,
      h.rewritten hf htrue helse hf' htidy hkeeps'⟩

/-! ## All messages -/

section All

variable (hdry : v.dryRun = false) (hd₀ : d₀.Sound)
  (hroot₀ : d₀.resolve v.maildir.root = .ok place)

include hdry hd₀ hroot₀

theorem tidyAll_tidied (es : List Entry) : ∀ (s : Sweep) (done : List Entry), es.Nodup →
    (∀ e ∈ es, e ∉ done ∧ v.Keepable place d₀ e) → v.Tidied place d₀ done s.disk →
    ∃ s', v.tidyAll es s = (.ok (), s') ∧
      s'.report = s.report.tidied (es.map (v.outcome d₀)) ∧
      v.Tidied place d₀ (done ++ es) s'.disk := by
  induction es with
  | nil => exact fun s done _ _ h => ⟨s, rfl, rfl, by simpa using h⟩
  | cons e es ih =>
    intro s done hnodup hes h
    obtain ⟨he, hnodup⟩ := List.nodup_cons.1 hnodup
    obtain ⟨hnew, hkeeps⟩ := hes e List.mem_cons_self
    obtain ⟨r, s₁, hrun₁, hr, hreport₁, h₁⟩ := tidy_step hdry hd₀ hroot₀ h hkeeps hnew
    -- counting the outcome changes nothing but the report
    obtain ⟨s₂, hrun₂, hdisk₂, hreport₂⟩ : ∃ s₂,
        v.tidyAll (e :: es) s = v.tidyAll es s₂ ∧ s₂.disk = s₁.disk ∧
          s₂.report = s.report.tidied [v.outcome d₀ e] := by
      rw [tidyAll, run_bind_ok hrun₁, ← hr, ← hreport₁]
      rcases r with e' | _ | _
      · exact ⟨_, rfl, rfl, rfl⟩
      · exact ⟨_, rfl, rfl, rfl⟩
      · exact ⟨_, rfl, rfl, rfl⟩
    obtain ⟨s₃, hrun₃, hreport₃, h₃⟩ := ih s₂ (done ++ [e]) hnodup (fun e' he' => by
      obtain ⟨hnew', hkeeps'⟩ := hes e' (List.mem_cons_of_mem e he')
      refine ⟨?_, hkeeps'⟩
      rw [List.mem_append, List.mem_singleton, not_or]
      exact ⟨hnew', fun heq => he (heq ▸ he')⟩) (hdisk₂ ▸ h₁)
    refine ⟨s₃, hrun₂.trans hrun₃, ?_, by simpa using h₃⟩
    rw [hreport₃, hreport₂, ← VacuumReport.tidied_append]
    rfl

/-- The messages of a folder, in the order in which they are met, are tidied. -/
theorem tidy_tidied {g : Text} (hlisted : Listed place d₀ g) {here : List Entry}
    (hhere : Folder.messages ⟨v.maildir.root, g⟩ v.maildir.listing d₀ = .ok here)
    (hes : ∀ e ∈ here, e ∉ done ∧ v.Keepable place d₀ e) {s : Sweep}
    (h : v.Tidied place d₀ done s.disk) :
    ∃ s' met, met.Perm here ∧ v.tidy ⟨v.maildir.root, g⟩ s = (.ok (), s') ∧
      s'.report = s.report.tidied (met.map (v.outcome d₀)) ∧
      v.Tidied place d₀ (done ++ met) s'.disk := by
  obtain ⟨met, hmet⟩ := Folder.exists_messages h.stays.sound h.stays.resolve v.maildir.listing
    ((h.stays.listed g).2 hlisted)
  have hperm : met.Perm here := by
    refine (List.perm_ext_iff_of_nodup (Folder.nodup_messages h.stays.sound hmet)
      (Folder.nodup_messages hd₀ hhere)).2 fun e => ?_
    rw [Folder.mem_messages h.stays.sound h.stays.resolve hlisted.1 hmet,
      Folder.mem_messages hd₀ hroot₀ hlisted.1 hhere]
    exact exists_congr fun t => by rw [h.stays.taken t]
  obtain ⟨s', hrun, hreport, h'⟩ := tidyAll_tidied hdry hd₀ hroot₀ met s done
    (Folder.nodup_messages h.stays.sound hmet) (fun e he => hes e (hperm.mem_iff.1 he)) h
  exact ⟨s', met, hperm, (tidy_of_messages hmet).trans hrun, hreport, h'⟩

/-- The messages of all folders are tidied, and nothing else is done. -/
theorem sweepAll_tidied : ∀ (fs : List Folder) (es : List Entry) (s : Sweep) (done : List Entry),
    (∀ g ∈ fs, g.root = v.maildir.root ∧ Listed place d₀ g.name ∧ isUnwanted g.name = false) →
    v.maildir.entriesOf d₀ fs = .ok es → es.Nodup →
    (∀ e ∈ es, e ∉ done ∧ v.Keepable place d₀ e) → v.Tidied place d₀ done s.disk →
    ∃ s' met, met.Perm es ∧ v.sweepAll fs s = (.ok (), s') ∧
      s'.report = s.report.tidied (met.map (v.outcome d₀)) ∧
      v.Tidied place d₀ (done ++ met) s'.disk := by
  intro fs
  induction fs with
  | nil =>
    intro es s done _ hes _ _ h
    obtain rfl : [] = es := Except.ok.inj hes
    exact ⟨s, [], .refl _, rfl, rfl, by simpa using h⟩
  | cons g fs ih =>
    intro es s done hfs hes hnodup hkeeps h
    obtain ⟨here, rest, hhere, hrest, rfl⟩ := Maildir.entriesOf_cons hes
    obtain ⟨-, hnodup, hdisjoint⟩ := List.nodup_append.1 hnodup
    obtain ⟨root, name⟩ := g
    obtain ⟨hr, hlisted, hwanted⟩ := hfs ⟨root, name⟩ List.mem_cons_self
    obtain rfl : root = v.maildir.root := hr
    obtain ⟨s₁, met, hperm, hrun, hreport, h₁⟩ := tidy_tidied hdry hd₀ hroot₀ hlisted hhere
      (fun e he => hkeeps e (List.mem_append_left _ he)) h
    obtain ⟨s₂, met', hperm', hrun', hreport', h₂⟩ := ih rest s₁ (done ++ met)
      (fun g hg => hfs g (List.mem_cons_of_mem _ hg)) hrest hnodup (fun e he => by
        obtain ⟨hnew, hkeep⟩ := hkeeps e (List.mem_append_right _ he)
        refine ⟨?_, hkeep⟩
        rw [List.mem_append, not_or]
        exact ⟨hnew, fun hmet => hdisjoint e (hperm.mem_iff.1 hmet) e he rfl⟩) h₁
    refine ⟨s₂, met ++ met', hperm.append hperm', ?_, ?_, by simpa using h₂⟩
    · have hstep : (if isUnwanted name then v.drain ⟨v.maildir.root, name⟩
          else v.tidy ⟨v.maildir.root, name⟩) s = (.ok (), s₁) := by
        rw [hwanted]
        exact hrun
      rw [sweepAll, run_bind_ok (Sweeping.attempt_run hstep)]
      exact hrun'
    · rw [hreport', hreport, ← VacuumReport.tidied_append, List.map_append]

end All

/-! ## A whole vacuum -/

/-- Where every folder is wanted, a vacuum tidies all messages and does nothing else. -/
theorem run_tidied (hdry : v.dryRun = false) (hcalled : v.calledOff = false) (hd : d.Sound)
    (hroot : d.resolve v.maildir.root = .ok place)
    (hwanted : ∀ g, Listed place d g → isUnwanted g = false) {es : List Entry}
    (hes : v.maildir.entries d = .ok es) (hkeeps : ∀ e ∈ es, v.Keepable place d e) :
    ∃ d', v.run d = (.ok (VacuumReport.empty.tidied (es.map (v.outcome d))), d') ∧
      ∃ met, met.Perm es ∧ v.Tidied place d met d' := by
  obtain ⟨fs, hfs, hes⟩ := exists_of_bind_ok hes
  have hlisted := fun g => Maildir.mem_folders (f := g) hd hroot hfs
  have hnodup := (Maildir.nodup_entriesOf hd (Maildir.nodup_folders hd hfs) hes).1
  obtain ⟨s', met, hperm, hrun, hreport, h⟩ := sweepAll_tidied hdry hd hroot fs es ⟨d, .empty⟩ []
    (fun g hg => ⟨((hlisted g).1 hg).1, ((hlisted g).1 hg).2, hwanted _ ((hlisted g).1 hg).2⟩)
    hes hnodup (fun e he => ⟨List.not_mem_nil, hkeeps e he⟩) (.start hd hroot)
  refine ⟨s'.disk, ?_, met, hperm, by simpa using h⟩
  simp only [run, hfs, hcalled, Bool.false_eq_true, if_false, hrun]
  rw [hreport, VacuumReport.tidied_perm _ (hperm.map _)]
  rfl

/-- After a vacuum the messages are where they were. -/
theorem Tidied.entries_perm (h : v.Tidied place d₀ done d) (hd₀ : d₀.Sound)
    (hroot₀ : d₀.resolve v.maildir.root = .ok place) (listing : Listing) {es : List Entry}
    (hes : v.maildir.entries d₀ = .ok es) :
    ∃ es', (v.inOrder listing).maildir.entries d = .ok es' ∧ es'.Perm es := by
  obtain ⟨place', hplace', hfolder⟩ := Maildir.place_of_entries hes
  obtain rfl : place' = place := Except.ok.inj (hplace'.symm.trans hroot₀)
  obtain ⟨es₀, hes₀, hnodup₀, hmem₀⟩ := Maildir.exists_entries hd₀ hroot₀ hfolder
  obtain rfl : es₀ = es := Except.ok.inj (hes₀.symm.trans hes)
  obtain ⟨es', hes', hnodup', hmem'⟩ := Maildir.exists_entries
    (m := (v.inOrder listing).maildir) h.stays.sound h.stays.resolve
    ((h.stays.folders _).2 hfolder)
  refine ⟨es', hes', (List.perm_ext_iff_of_nodup hnodup' hnodup₀).2 fun e => ?_⟩
  rw [hmem', hmem₀]
  exact exists_congr fun t => by rw [h.stays.listed, h.stays.taken t]; rfl

/-- What the next vacuum does to a message: it leaves alone what was written anew, and fails where
this one did. -/
theorem Tidied.outcome_again (h : v.Tidied place d₀ done d) (hdry : v.dryRun = false)
    (hd₀ : d₀.Sound) (hroot₀ : d₀.resolve v.maildir.root = .ok place) {e : Entry} (he : e ∈ done)
    (hkeeps : v.Keepable place d₀ e) :
    v.Keepable place d e ∧ v.outcome d e = (v.outcome d₀ e).map (fun _ => false) := by
  obtain ⟨s, f, rfl, hf, hkeeps⟩ := hkeeps
  by_cases htrue : v.outcome d₀ (s.entry v.maildir.root) = some true
  · obtain ⟨f', hf', htidy, hkeeps'⟩ := h.tidy s he htrue
    rw [htrue]
    exact ⟨⟨s, f', rfl, hf', hkeeps'⟩,
      (outcome_iff hdry h.stays.sound h.stays.resolve hf' hkeeps').1.2 htidy⟩
  · have hf' := h.same s f hf fun _ => htrue
    refine ⟨⟨s, f, rfl, hf', hkeeps⟩,
      (outcome_congr hdry hd₀ h.stays.sound hroot₀ h.stays.resolve h.stays.folders hf hf'
        hkeeps).trans ?_⟩
    cases hout : v.outcome d₀ (s.entry v.maildir.root) with
    | none => rfl
    | some b =>
      cases b with
      | false => rfl
      | true => exact absurd hout htrue

/-- The next vacuum finds nothing to write. -/
theorem Tidied.run_still {met : List Entry} (h : v.Tidied place d₀ met d) (hdry : v.dryRun = false)
    (hcalled : v.calledOff = false) (hd₀ : d₀.Sound)
    (hroot₀ : d₀.resolve v.maildir.root = .ok place)
    (hwanted : ∀ g, Listed place d₀ g → isUnwanted g = false) {es : List Entry}
    (hes : v.maildir.entries d₀ = .ok es) (hmet : met.Perm es)
    (hkeeps : ∀ e ∈ es, v.Keepable place d₀ e) (listing : Listing) :
    (v.inOrder listing).run d = (.ok (VacuumReport.empty.tidied
      (es.map (fun e => (v.outcome d₀ e).map (fun _ => false)))), d) := by
  obtain ⟨es', hes', hperm⟩ := h.entries_perm hd₀ hroot₀ listing hes
  have hagain : ∀ e ∈ es', v.Keepable place d e ∧
      v.outcome d e = (v.outcome d₀ e).map (fun _ => false) := fun e he =>
    h.outcome_again hdry hd₀ hroot₀ (hmet.mem_iff.2 (hperm.mem_iff.1 he))
      (hkeeps e (hperm.mem_iff.1 he))
  obtain ⟨d', hrun, met', hmet', h'⟩ := run_tidied (v := v.inOrder listing) hdry hcalled
    h.stays.sound h.stays.resolve (fun g hg => hwanted g ((h.stays.listed g).1 hg)) hes'
    (fun e he => (hagain e he).1)
  obtain rfl : d' = d := h'.still fun e he => by
    rw [show (v.inOrder listing).outcome d e = v.outcome d e from rfl,
      (hagain e (hmet'.mem_iff.1 he)).2]
    cases v.outcome d₀ e <;> simp
  rw [hrun, VacuumReport.tidied_perm _ (hperm.symm.map _), List.map_congr_left fun e he =>
    (show (v.inOrder listing).outcome d' e = _ from (hagain e he).2)]

/-- No message that is left alone has a keyword that was renamed. -/
theorem isCurrent_of_outcome (hdry : v.dryRun = false) (hd : d.Sound)
    (hroot : d.resolve v.maildir.root = .ok place) {e : Entry} (hkeeps : v.Keepable place d e)
    (hfalse : v.outcome d e = some false) :
    ∃ k, (Message.keywords d (.ofEntry e)).1 = .ok k ∧ k.IsCurrent := by
  obtain ⟨s, f, rfl, hf, hkeeps⟩ := hkeeps
  obtain ⟨header, hread, -, hcurrent⟩ := (outcome_iff hdry hd hroot hf hkeeps).1.1 hfalse
  refine ⟨_, ?_, hcurrent⟩
  rw [(Message.reads_keywords d _).1, Message.sight_ofEntry hd hroot hf]
  show seenKeywords [] (readHeader f.content) = _
  rw [hread]
  rfl

/-- Where every folder is wanted and the keywords of every message read back, one vacuum is enough.
It tidies the messages, so that none of those for which it did not fail has a keyword that was
renamed.  The next one, in whatever order it meets the messages, changes nothing, and fails for as
many. -/
theorem run_twice (v : Vacuum) (listing : Listing) {d : Disk} (hd : d.Sound)
    (hdry : v.dryRun = false) {fs : List Folder} (hfs : v.maildir.folders d = .ok fs)
    (hwanted : ∀ g ∈ fs, isUnwanted g.name = false) {es : List Entry}
    (hes : v.maildir.entries d = .ok es)
    (hkeeps : ∀ e ∈ es, ∀ content, e.read d = .ok content → KeepsKeywords content) :
    ∃ report d' report', v.run d = (.ok report, d') ∧
      (v.inOrder listing).run d' = (.ok report', d') ∧
      (report'.removed = [] ∧ report'.moved = 0 ∧ report'.rewritten = 0 ∧
        report'.failures = report.failures) ∧
      (v.calledOff = false →
        report.rewritten = es.countP (fun e => v.outcome d e == some true) ∧
        report.failures = es.countP (fun e => v.outcome d e == none) ∧
        ∀ e ∈ es, v.outcome d e ≠ none →
          ∃ k, (Message.keywords d' (.ofEntry e)).1 = .ok k ∧ k.IsCurrent) := by
  obtain ⟨place, hroot, hfolder⟩ := Maildir.place_of_folders hfs
  by_cases hcalled : v.calledOff = true
  · obtain ⟨fs', hfs'⟩ := Maildir.exists_folders (m := (v.inOrder listing).maildir) hroot hfolder
    have hcalled' : (v.inOrder listing).calledOff = true := hcalled
    refine ⟨.empty, d, .empty, ?_, ?_, ⟨rfl, rfl, rfl, rfl⟩, fun h => ?_⟩
    · simp only [run, hfs, hcalled, if_true]
      rfl
    · simp only [run, hfs', hcalled', if_true]
      rfl
    · rw [hcalled] at h
      exact absurd h (by simp)
  · rw [Bool.not_eq_true] at hcalled
    have hlisted : ∀ g, Listed place d g → isUnwanted g = false := fun g hg =>
      hwanted ⟨v.maildir.root, g⟩ ((Maildir.mem_folders hd hroot hfs).2 ⟨rfl, hg⟩)
    obtain ⟨es₀, hes₀, -, hmem⟩ := Maildir.exists_entries hd hroot hfolder
    obtain rfl : es₀ = es := Except.ok.inj (hes₀.symm.trans hes)
    have hkeepable : ∀ e ∈ es₀, v.Keepable place d e := by
      intro e he
      obtain ⟨s, -, -, ⟨f, hf⟩, rfl⟩ := (hmem e).1 he
      exact ⟨s, f, rfl, hf, hkeeps _ he _ (Message.read_entry hd hroot hf)⟩
    obtain ⟨d', hrun, met, hmet, h⟩ := run_tidied hdry hcalled hd hroot hlisted hes hkeepable
    refine ⟨_, _, _, hrun, h.run_still hdry hcalled hd hroot hlisted hes hmet hkeepable listing, ?_⟩
    simp only [VacuumReport.tidied_map]
    refine ⟨⟨trivial, trivial, ?_, ?_⟩, fun _ => ⟨trivial, trivial, fun e he hsome => ?_⟩⟩
    · simp
    · simp
    · obtain ⟨hkeep, hagain⟩ :=
        h.outcome_again hdry hd hroot (hmet.mem_iff.2 he) (hkeepable e he)
      refine isCurrent_of_outcome hdry h.stays.sound h.stays.resolve hkeep (hagain.trans ?_)
      obtain ⟨b, hb⟩ := Option.ne_none_iff_exists'.1 hsome
      rw [hb]
      rfl

end Vacuum

/-! ### One message to tidy and one without room -/

/-- A message with a keyword that was renamed. -/
def renamedLetter : Bytes := Utf8.encode "Subject: s\nKeywords: Discussion\n\nbody\n"
/-- A maildir with the message twice, once in a folder where nothing can be written. -/
def untidyDisk : Disk := (Disk.empty 0).plant [] (.folder
  [("INBOX", .folder [("new", .folder []),
      ("cur", .folder [("1.a:2,S", .file renamedLetter none)]),
      ("tmp", .folder [])]),
    ("work", .folder [("new", .folder []),
      ("cur", .folder [("1.a:2,S", .file renamedLetter none)])])])

/-- Where they are. -/
def untidySlots : List Slot := [sampleSlot, sampleSlot.within "work" (by decide)]

theorem sound_untidyDisk : untidyDisk.Sound := Disk.sound_plant 0 (by decide)

theorem keepsKeywords_renamedLetter : KeepsKeywords renamedLetter := by
  have hvalues : (readHeader renamedLetter).map (fun h => h.values Keywords.fieldName) =
      .ok ["Discussion"] := by
    decide +kernel
  intro header hheader x hx
  rw [hheader] at hvalues
  have hone : header.values Keywords.fieldName = ["Discussion"] := Except.ok.inj hvalues
  rw [hone] at hx
  rw [List.mem_singleton.1 hx]
  decide +kernel
theorem untidySlots_there : ∀ s ∈ untidySlots, Listed [] untidyDisk s.folder ∧ s.IsVisible ∧
    (s.entry []).read untidyDisk = .ok renamedLetter ∧ s.IsTaken [] untidyDisk := by
  intro s hs
  have hnames : s.folder.head? ≠ some '.' ∧ s.name.head? ≠ some '.' := by
    revert s
    decide +kernel
  simp only [untidySlots, List.mem_cons, List.not_mem_nil, or_false] at hs
  rcases hs with rfl | rfl
  · exact ⟨⟨Slot.isName_folder _, hnames.1, rfl, rfl⟩, hnames.2, rfl, _, rfl⟩
  · exact ⟨⟨Slot.isName_folder _, hnames.1, rfl, rfl⟩, hnames.2, rfl, _, rfl⟩

/-- There are no other messages. -/
theorem entries_untidyDisk : ∃ es, draining.maildir.entries untidyDisk = .ok es ∧
    es.Perm (untidySlots.map (Slot.entry [])) := by
  obtain ⟨es, hes, hnodup, hmem⟩ := Maildir.exists_entries (m := draining.maildir)
    sound_untidyDisk rfl (Disk.item?_nil untidyDisk)
  have honly : ∀ e ∈ untidyDisk.items, e.2 ≠ .folder → ∃ s ∈ untidySlots, e.1 = s.names := by
    decide +kernel
  refine ⟨es, hes, (List.perm_ext_iff_of_nodup hnodup (by decide +kernel)).2 fun e => ?_⟩
  rw [hmem, List.mem_map]
  constructor
  · rintro ⟨t, -, -, ⟨f, hf⟩, rfl⟩
    rw [Disk.item?_of_ne_nil _ (by simp [Slot.names])] at hf
    obtain ⟨s, hs, hnames⟩ := honly _ (mem_of_lookup hf) (by simp)
    exact ⟨s, hs, congrArg (Slot.entry []) (Slot.names_inj hnames).symm⟩
  · rintro ⟨s, hs, rfl⟩
    obtain ⟨hlisted, hvisible, -, htaken⟩ := untidySlots_there s hs
    exact ⟨s, hlisted, hvisible, htaken, rfl⟩

/-- One message is written anew; for the other one it fails, and fails once more. -/
theorem run_untidyDisk_twice : ∃ report d' report',
    draining.run untidyDisk = (.ok report, d') ∧ draining.run d' = (.ok report', d') ∧
      report.rewritten = 1 ∧ report.failures = 1 ∧
      report'.rewritten = 0 ∧ report'.failures = 1 := by
  obtain ⟨es, hes, hperm⟩ := entries_untidyDisk
  obtain ⟨fs, hfs⟩ := Maildir.exists_folders (m := draining.maildir) (d := untidyDisk) rfl
    (Disk.item?_nil _)
  have hwanted : ∀ e ∈ untidyDisk.items, e.1.head?.any isUnwanted = false := by decide +kernel
  have hslots : ∀ {e}, e ∈ es → ∃ s ∈ untidySlots, s.entry [] = e := fun he =>
    List.mem_map.1 (hperm.mem_iff.1 he)
  obtain ⟨report, d', report', hrun, hrun', ⟨-, -, hrewritten', hfailures'⟩, hfirst⟩ :=
    draining.run_twice .byName sound_untidyDisk rfl hfs (fun g hg => by
      obtain ⟨-, -, -, hnew, -⟩ := (Maildir.mem_folders sound_untidyDisk rfl hfs).1 hg
      rw [Disk.item?_of_ne_nil _ (by simp)] at hnew
      exact hwanted _ (mem_of_lookup hnew)) hes (fun e he content hread => by
        obtain ⟨s, hs, rfl⟩ := hslots he
        obtain ⟨-, -, hletter, -⟩ := untidySlots_there s hs
        rw [← Except.ok.inj (hletter.symm.trans hread)]
        exact keepsKeywords_renamedLetter)
  obtain ⟨hrewritten, hfailures, -⟩ := hfirst rfl
  rw [hperm.countP_eq] at hrewritten hfailures
  refine ⟨report, d', report', hrun, hrun', ?_, ?_, hrewritten', ?_⟩
  · exact hrewritten.trans (by decide +kernel)
  · exact hfailures.trans (by decide +kernel)
  · exact (hfailures'.trans hfailures).trans (by decide +kernel)

end Mailroom
