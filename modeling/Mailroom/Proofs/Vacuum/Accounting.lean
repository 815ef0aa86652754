import Mailroom.Proofs.Maildir.Matching
import Mailroom.Proofs.Vacuum.Aside
import Mailroom.Proofs.Vacuum.Conservation

/-!
# A vacuum accounts for every message

Where no two messages have one state and name, each message of a drained folder is moved to a
folder that is wanted or stays where it is, and is counted accordingly.  The folder is kept if a
message stays.

* `Vacuum.StillIn` and `Vacuum.GoneFrom` are the two things that can have become of a message.
* `Vacuum.rehome_counts` takes one message, and `Vacuum.rehomeAll_counts` is the induction over all
  of them; `Vacuum.drain_counts` adds the folder itself.
* `Vacuum.Account` is what others see of it, and `Vacuum.run_accounts` is the result for a whole
  vacuum.
-/

namespace Mailroom

namespace Vacuum

variable {v : Vacuum} {place : Path} {u : Text} {d₀ d d' : Disk} {t : Slot} {f : File} {e : Entry}

/-! ## What can have become of a message -/

/-- Whether a message is still in its folder, and the same letter as in the beginning. -/
def StillIn (v : Vacuum) (place : Path) (u : Text) (d₀ d : Disk) (e : Entry) : Prop :=
  ∃ (t : Slot) (f : File), e = t.entry v.maildir.root ∧ t.folder = u ∧
    d₀.item? (place ++ t.names) = some (.file f) ∧
    Rests place u t.state t.name f.content (place ++ t.names) d

/-- Whether a message has gone from its folder to one that is wanted, and is the same letter there
as in the beginning. -/
def GoneFrom (v : Vacuum) (place : Path) (u : Text) (d₀ d : Disk) (e : Entry) : Prop :=
  ∃ (t : Slot) (f : File), e = t.entry v.maildir.root ∧ t.folder = u ∧
    d₀.item? (place ++ t.names) = some (.file f) ∧ d.item? (place ++ t.names) = none ∧
    ∃ g q, isUnwanted g = false ∧ d₀.resolve (e.pathIn (v.maildir.folder g)) = .ok q ∧
      Rests place u t.state t.name f.content q d

/-- In the beginning each message is in its folder. -/
theorem stillIn_start (hnames : NamesDiffer place d) (hf : d.item? (place ++ t.names) = some (.file f)) :
    v.StillIn place t.folder d d (t.entry v.maildir.root) := by
  refine ⟨t, f, rfl, rfl, hf, ⟨f, hf, SameLetter.refl _⟩, ⟨place ++ [t.folder], by simp [Slot.names]⟩,
    fun s hs hstate hname => ?_⟩
  obtain rfl := hnames s t hs ⟨f, hf⟩ hstate hname
  exact ⟨rfl, fun _ => rfl⟩

/-- Work on one message of the folder does not concern the others. -/
theorem StillIn.apart (h : v.StillIn place u d₀ d e) (hapart : d.Apart t.state t.name d')
    (ht : t.folder = u) (hne : e ≠ t.entry v.maildir.root) : v.StillIn place u d₀ d' e := by
  obtain ⟨t', f, rfl, ht', hf, h⟩ := h
  refine ⟨t', f, rfl, ht', hf, h.apart hapart fun hstate hname => hne ?_⟩
  rw [Slot.eq_of_same (ht'.trans ht.symm) hstate hname]

theorem GoneFrom.apart (h : v.GoneFrom place u d₀ d e) (hapart : d.Apart t.state t.name d')
    (ht : t.folder = u) (hne : e ≠ t.entry v.maildir.root) : v.GoneFrom place u d₀ d' e := by
  obtain ⟨t', f, rfl, ht', hf, hgone, g, q, hg, hq, h⟩ := h
  have hother : t'.state = t.state → t'.name ≠ t.name := fun hstate hname => hne (by
    rw [Slot.eq_of_same (ht'.trans ht.symm) hstate hname])
  exact ⟨t', f, rfl, ht', hf, (hapart.same (not_endsIn_names hother)).trans hgone, g, q, hg, hq,
    h.apart hapart hother⟩

/-- So does work in other folders. -/
theorem StillIn.beside (h : v.StillIn place u d₀ d e) (hbeside : Beside place u d d') :
    v.StillIn place u d₀ d' e := by
  obtain ⟨t, f, he, ht, hf, h⟩ := h
  exact ⟨t, f, he, ht, hf, hbeside.rests h⟩

theorem GoneFrom.beside (h : v.GoneFrom place u d₀ d e) (hbeside : Beside place u d d') :
    v.GoneFrom place u d₀ d' e := by
  obtain ⟨t, f, he, rfl, hf, hgone, g, q, hg, hq, h⟩ := h
  exact ⟨t, f, he, rfl, hf, (hbeside.same [t.state.name, t.name] (Or.inl (by simp))).trans hgone,
    g, q, hg, hq, hbeside.rests h⟩

/-- And so does the removal of folders. -/
theorem GoneFrom.shrunk {p : Path} (h : v.GoneFrom place u d₀ d e) (hshrunk : d.Shrunk p d') :
    v.GoneFrom place u d₀ d' e := by
  obtain ⟨t, f, he, ht, hf, hgone, g, q, hg, hq, h⟩ := h
  refine ⟨t, f, he, ht, hf, ?_, g, q, hg, hq, h.of_files hshrunk.files⟩
  cases hitem : d'.item? (place ++ t.names) with
  | none => rfl
  | some i =>
    cases i with
    | folder => exact absurd (hgone.symm.trans (hshrunk.gone _ hitem)) (by simp)
    | file f' => exact absurd (hgone.symm.trans ((hshrunk.files _ f').1 hitem)) (by simp)

/-! ## One message -/

/-- A message that went out has come to rest where it is. -/
theorem Rests.goesOut {content : Bytes} {g : Text} {r : Path}
    (h : Rests place u t.state t.name content (place ++ t.names) d)
    (hf : d.item? (place ++ t.names) = some (.file f))
    (hgoes : GoesOut place d t (r ++ [t.state.name, t.name]) f d')
    (hroot : d.resolve v.maildir.root = .ok place)
    (hr : d.resolve (v.maildir.folder g).path = .ok r) (hslash : '/' ∉ g)
    (hwanted : isUnwanted g = false) :
    Rests place u t.state t.name content (r ++ [t.state.name, t.name]) d' := by
  obtain ⟨f₀, hf₀, hletter⟩ := h.file
  obtain rfl : f₀ = f := Item.file.inj (Option.some.inj (hf₀.symm.trans hf))
  obtain ⟨f', helse, hnone, hf', hletter'⟩ := hgoes
  refine ⟨⟨f', hf', hletter.trans hletter'⟩, ⟨r, rfl⟩, fun s htaken hstate hname => ?_⟩
  by_cases htarget : place ++ s.names = r ++ [t.state.name, t.name]
  · refine ⟨htarget, fun hunwanted => ?_⟩
    have hfolder := Maildir.folder_of_target hslash hroot hr _ _ htarget
    exact absurd hfolder.symm (ne_of_wanted hwanted hunwanted)
  · -- any other message of this state and name would have been there before
    have hne : s ≠ t := by
      rintro rfl
      obtain ⟨f'', hf''⟩ := htaken
      exact absurd (hnone.symm.trans hf'') (by simp)
    have hsame := helse.same (place ++ s.names) (by
      simp only [List.mem_cons, List.not_mem_nil, or_false, not_or]
      exact ⟨fun heq => hne (Slot.append_names_inj heq),
        Slot.append_names_ne_temporary place s t, htarget⟩)
    exact absurd (Slot.append_names_inj
      (h.only s ((isTaken_iff_of_eq hsame).1 htaken) hstate hname).1) hne

/-- The place that a message went to is the one that its path in the other folder leads to. -/
theorem resolve_pathIn {root r : Path} {g : Folder} (hd : d.Sound) (hr : d.resolve g.path = .ok r)
    (hthere : d.item? (r ++ [t.state.name]) = some .folder) :
    d.resolve ((t.entry root).pathIn g) = .ok (r ++ [t.state.name, t.name]) := by
  have hname : IsName (t.entry root).name := by
    rw [Slot.name_entry]
    exact t.isName_name
  have hstate : ∀ n ∈ [t.state.name], IsName n := fun n hn =>
    List.mem_singleton.1 hn ▸ t.state.isName_name
  rw [Entry.pathIn_of_isName hname, Slot.state_entry, Slot.name_entry, Disk.resolve_below hr]
  simpa using Disk.walk_of_folder hd hstate t.isName_name hthere

/-- A message of the folder stays in it, and that is a failure, or goes from it. -/
theorem rehome_counts (hdry : v.dryRun = false) (hu : isUnwanted u = true) {s : Sweep}
    (hd : s.disk.Sound) (hroot : s.disk.resolve v.maildir.root = .ok place)
    (hgone : ∀ q, s.disk.item? q = some .folder → d₀.item? q = some .folder) (hd₀ : d₀.Sound)
    (h : v.StillIn place u d₀ s.disk e) :
    ∃ (t : Slot) (result : Except Error Unit) (d' : Disk), e = t.entry v.maildir.root ∧
      t.folder = u ∧ Sweeping.onMessage (v.rehome u) e s = (result, ⟨d', s.report⟩) ∧
      s.disk.Apart t.state t.name d' ∧
      ((∃ e', result = .error e') ∧ v.StillIn place u d₀ d' e ∨
        result = .ok () ∧ v.GoneFrom place u d₀ d' e) := by
  obtain ⟨t, f₀, rfl, rfl, hf₀, h⟩ := h
  obtain ⟨f, hf, -⟩ := h.file
  rcases rehome_anywhere hdry hd hroot hf hu s.report with
    ⟨e', d', hrun, hstays⟩ | ⟨g, r, d', hrun, hwanted, hslash, hr, hgoes⟩
  · exact ⟨t, .error e', d', rfl, rfl, hrun, hstays.apart,
      Or.inl ⟨⟨e', rfl⟩, t, f₀, rfl, rfl, hf₀, h.stays hstays hf rfl⟩⟩
  · have hrests := h.goesOut hf hgoes hroot hr hslash hwanted
    have hapart := hgoes.apart
    obtain ⟨f', helse, hnone, hf', -⟩ := hgoes
    have hthere : s.disk.item? (r ++ [t.state.name]) = some .folder :=
      (helse.folders _).1 (helse.sound.parent _ t.name (by simp [hf']))
    exact ⟨t, .ok (), d', rfl, rfl, hrun, hapart, Or.inr ⟨rfl, t, f₀, rfl, rfl, hf₀, hnone, g, _,
      hwanted, resolve_pathIn hd₀ (Disk.walk_of_same_folders hgone hr) (hgone _ hthere), hrests⟩⟩

/-! ## All messages of the folder -/

/-- What has become of the messages of the folder: some were moved, the others are stranded. -/
structure Rehomed (v : Vacuum) (place : Path) (u : Text) (d₀ : Disk)
    (es moved stranded : List Entry) (d d' : Disk) : Prop where
  /-- The disk is sound. -/
  sound : d'.Sound
  /-- No folder came or went. -/
  folders : ∀ q, d'.item? q = some .folder ↔ d.item? q = some .folder
  /-- Each message is one of the moved or of the stranded ones. -/
  perm : es.Perm (moved ++ stranded)
  /-- The moved ones have gone. -/
  gone : ∀ e ∈ moved, v.GoneFrom place u d₀ d' e
  /-- The stranded ones have not. -/
  still : ∀ e ∈ stranded, v.StillIn place u d₀ d' e
  /-- With others it is as it was. -/
  others : ∀ e, e ∉ es → (v.StillIn place u d₀ d e → v.StillIn place u d₀ d' e) ∧
    (v.GoneFrom place u d₀ d e → v.GoneFrom place u d₀ d' e)

namespace Rehomed

variable {es moved stranded : List Entry} (h : v.Rehomed place u d₀ es moved stranded d d')
  {d₁ : Disk} (hapart : d₁.Apart t.state t.name d) (ht : t.folder = u)

include h hapart ht

/-- The first message does not concern others. -/
theorem others_cons (e : Entry) (he : e ∉ t.entry v.maildir.root :: es) :
    (v.StillIn place u d₀ d₁ e → v.StillIn place u d₀ d' e) ∧
      (v.GoneFrom place u d₀ d₁ e → v.GoneFrom place u d₀ d' e) := by
  rw [List.mem_cons, not_or] at he
  obtain ⟨hne, he⟩ := he
  exact ⟨fun hstill => (h.others e he).1 (hstill.apart hapart ht hne),
    fun hgone => (h.others e he).2 (hgone.apart hapart ht hne)⟩

/-- The first message is stranded. -/
theorem cons_stranded (hnot : t.entry v.maildir.root ∉ es)
    (hstill : v.StillIn place u d₀ d (t.entry v.maildir.root)) :
    v.Rehomed place u d₀ (t.entry v.maildir.root :: es) moved
      (t.entry v.maildir.root :: stranded) d₁ d' where
  sound := h.sound
  folders q := (h.folders q).trans (hapart.folders q)
  perm := (h.perm.cons _).trans List.perm_middle.symm
  gone := h.gone
  still := List.forall_mem_cons.2 ⟨(h.others _ hnot).1 hstill, h.still⟩
  others := h.others_cons hapart ht

/-- The first message is moved. -/
theorem cons_moved (hnot : t.entry v.maildir.root ∉ es)
    (hgone : v.GoneFrom place u d₀ d (t.entry v.maildir.root)) :
    v.Rehomed place u d₀ (t.entry v.maildir.root :: es) (t.entry v.maildir.root :: moved)
      stranded d₁ d' where
  sound := h.sound
  folders q := (h.folders q).trans (hapart.folders q)
  perm := h.perm.cons _
  gone := List.forall_mem_cons.2 ⟨(h.others _ hnot).2 hgone, h.gone⟩
  still := h.still
  others := h.others_cons hapart ht

end Rehomed

/-- Every message of the folder goes from it or is stranded, and that many are counted. -/
theorem rehomeAll_counts (hdry : v.dryRun = false) (hu : isUnwanted u = true) (hd₀ : d₀.Sound)
    (es : List Entry) : ∀ s : Sweep, s.disk.Sound → s.disk.resolve v.maildir.root = .ok place →
      (∀ q, s.disk.item? q = some .folder → d₀.item? q = some .folder) → es.Nodup →
      (∀ e ∈ es, v.StillIn place u d₀ s.disk e) →
      ∃ moved stranded d', v.rehomeAll u es s =
        (.ok stranded.length, ⟨d', s.report + ⟨[], moved.length, 0, stranded.length⟩⟩) ∧
        v.Rehomed place u d₀ es moved stranded s.disk d' := by
  induction es with
  | nil =>
    intro s hd _ _ _ _
    refine ⟨[], [], s.disk, ?_, hd, fun _ => Iff.rfl, .refl _, by simp, by simp,
      fun _ _ => ⟨fun h => h, fun h => h⟩⟩
    show (Except.ok 0, s) = (Except.ok 0, (⟨s.disk, s.report + .empty⟩ : Sweep))
    rw [VacuumReport.add_empty]
  | cons e es ih =>
    intro s hd hroot hgone hnodup hes
    obtain ⟨hnot, hnodup'⟩ := List.nodup_cons.1 hnodup
    obtain ⟨t, result, d₁, rfl, rfl, hrun, hapart, hresult⟩ :=
      rehome_counts hdry hu hd hroot hgone hd₀ (hes e List.mem_cons_self)
    -- the others wait
    have hwait : ∀ e ∈ es, v.StillIn place t.folder d₀ d₁ e := fun e he =>
      (hes e (List.mem_cons_of_mem _ he)).apart hapart rfl fun heq => hnot (heq ▸ he)
    have hrest := fun report => ih ⟨d₁, report⟩ hapart.sound (hapart.resolve hroot)
      (fun q hq => hgone q ((hapart.folders q).1 hq)) hnodup' hwait
    rcases hresult with ⟨⟨e', rfl⟩, hstill⟩ | ⟨rfl, hgone'⟩
    · obtain ⟨moved, stranded, d', hrun', h⟩ := hrest (s.report + ⟨[], 0, 0, 1⟩)
      refine ⟨moved, t.entry v.maildir.root :: stranded, d', ?_,
        h.cons_stranded hapart rfl hnot hstill⟩
      rw [rehomeAll_stranded hrun hrun', VacuumReport.add_assoc]
      simp [VacuumReport.add_def, Nat.add_comm]
    · obtain ⟨moved, stranded, d', hrun', h⟩ := hrest (s.report + ⟨[], 1, 0, 0⟩)
      refine ⟨t.entry v.maildir.root :: moved, stranded, d', ?_,
        h.cons_moved hapart rfl hnot hgone'⟩
      rw [rehomeAll_moved hrun, hrun', VacuumReport.add_assoc]
      simp [VacuumReport.add_def, Nat.add_comm]

/-! ## The folder itself -/

/-- What draining a folder comes to. -/
structure Drained (v : Vacuum) (place : Path) (u : Text) (d₀ d : Disk)
    (es moved stranded : List Entry) (s : Sweep) : Prop where
  /-- The disk is sound. -/
  sound : s.disk.Sound
  /-- No folder came. -/
  folders : ∀ q, s.disk.item? q = some .folder → d.item? q = some .folder
  /-- Each message is one of the moved or of the stranded ones. -/
  perm : es.Perm (moved ++ stranded)
  /-- The moved ones have gone. -/
  gone : ∀ e ∈ moved, v.GoneFrom place u d₀ s.disk e
  /-- The stranded ones have not. -/
  still : ∀ e ∈ stranded, v.StillIn place u d₀ s.disk e
  /-- If any is stranded, all folders are kept.  If none is, the folder is removed, or that fails. -/
  outcome :
    stranded ≠ [] ∧ s.report = ⟨[], moved.length, 0, stranded.length⟩ ∧
        (∀ q, s.disk.item? q = some .folder ↔ d.item? q = some .folder) ∨
      stranded = [] ∧ s.report = ⟨[], moved.length, 0, 1⟩ ∧
        s.disk.item? (place ++ [u]) = some .folder ∨
      stranded = [] ∧ s.report = ⟨[u], moved.length, 0, 0⟩ ∧ s.disk.item? (place ++ [u]) = none

/-- Then the folder is removed, if no message is stranded. -/
theorem drain_counts (hdry : v.dryRun = false) (hu : isUnwanted u = true) (hd₀ : d₀.Sound)
    (hd : d.Sound) (hroot : d.resolve v.maildir.root = .ok place)
    (hgone : ∀ q, d.item? q = some .folder → d₀.item? q = some .folder)
    (hlisted : Listed place d u) {es : List Entry}
    (hes : (v.maildir.folder u).messages v.maildir.listing d = .ok es)
    (hstill : ∀ e ∈ es, v.StillIn place u d₀ d e) :
    ∃ moved stranded s, v.drain (v.maildir.folder u) ⟨d, .empty⟩ = (.ok (), s) ∧
      v.Drained place u d₀ d es moved stranded s := by
  obtain ⟨moved, stranded, d', hrun, h⟩ := rehomeAll_counts hdry hu hd₀ es ⟨d, .empty⟩ hd hroot hgone
    (Folder.nodup_messages hd hes) hstill
  rw [VacuumReport.empty_add] at hrun
  have hdrain := drain_of_messages (v := v) (s := ⟨d, .empty⟩) hes
  rw [run_bind_ok (show v.rehomeAll (v.maildir.folder u).name es ⟨d, .empty⟩ = _ from hrun)] at hdrain
  by_cases hstranded : stranded = []
  · subst hstranded
    have hroot' : ∀ q, d'.resolve v.maildir.root = .ok q → q = place := fun q hq =>
      Except.ok.inj ((Disk.walk_of_same_folders (fun q => (h.folders q).1) hq).symm.trans hroot)
    have hthere : d'.item? (place ++ [u]) = some .folder := by
      refine h.sound.ancestor (place ++ [u]) (List.cons_ne_nil ReadState.new.name []) ?_
      have hnew := (h.folders _).2 hlisted.2.2.1
      rw [List.append_assoc, List.singleton_append, hnew]
      rfl
    obtain ⟨d'', hshrunk, hcases⟩ :=
      remove_cases hdry hlisted.1 h.sound hroot' ⟨[], moved.length, 0, 0⟩
    rcases hcases with ⟨hremove, hnone⟩ | ⟨hremove, hsame⟩
    · exact ⟨moved, [], _, hdrain.trans hremove, hshrunk.sound,
        fun q hq => (h.folders q).1 (hshrunk.gone q hq), h.perm,
        fun e he => (h.gone e he).shrunk hshrunk, by simp, Or.inr (Or.inr ⟨rfl, rfl, hnone⟩)⟩
    · exact ⟨moved, [], _, hdrain.trans hremove, hshrunk.sound,
        fun q hq => (h.folders q).1 (hshrunk.gone q hq), h.perm,
        fun e he => (h.gone e he).shrunk hshrunk, by simp,
        Or.inr (Or.inl ⟨rfl, rfl, hsame.trans hthere⟩)⟩
  · rw [if_neg fun hzero => hstranded (List.length_eq_zero_iff.1 hzero)] at hdrain
    exact ⟨moved, stranded, _, hdrain, h.sound, fun q => (h.folders q).1, h.perm, h.gone, h.still,
      Or.inl ⟨hstranded, rfl, h.folders⟩⟩

/-! ## What others see of it -/

/-- Whether a message is where it was, and the same letter. -/
def Remains (place : Path) (d d' : Disk) (e : Entry) : Prop :=
  ∃ before f, e.read d = .ok before ∧
    d'.item? (place ++ [e.folder.name, e.state.name, e.name]) = some (.file f) ∧
    SameLetter before f.content

/-- Whether a message is no longer where it was, but is the same letter in a folder that is wanted. -/
def Leaves (v : Vacuum) (place : Path) (d d' : Disk) (e : Entry) : Prop :=
  d'.item? (place ++ [e.folder.name, e.state.name, e.name]) = none ∧
    ∃ before f g q, e.read d = .ok before ∧ isUnwanted g = false ∧
      d.resolve (e.pathIn (v.maildir.folder g)) = .ok q ∧ d'.item? q = some (.file f) ∧
      SameLetter before f.content

theorem names_of_entry (t : Slot) (root : Path) :
    [(t.entry root).folder.name, (t.entry root).state.name, (t.entry root).name] = t.names := by
  rw [Slot.folder_entry, Slot.state_entry, Slot.name_entry]
  rfl

theorem StillIn.remains (hd : d.Sound) (hroot : d.resolve v.maildir.root = .ok place)
    (h : v.StillIn place u d d' e) : Remains place d d' e := by
  obtain ⟨t, f, rfl, -, hf, h⟩ := h
  obtain ⟨f', hf', hletter⟩ := h.file
  exact ⟨f.content, f', Message.read_entry hd hroot hf, by rw [names_of_entry]; exact hf', hletter⟩

theorem GoneFrom.leaves (hd : d.Sound) (hroot : d.resolve v.maildir.root = .ok place)
    (h : v.GoneFrom place u d d' e) : v.Leaves place d d' e := by
  obtain ⟨t, f, rfl, -, hf, hnone, g, q, hg, hq, h⟩ := h
  obtain ⟨f', hf', hletter⟩ := h.file
  exact ⟨by rw [names_of_entry]; exact hnone, f.content, f', g, q, Message.read_entry hd hroot hf,
    hg, hq, hf', hletter⟩

theorem Beside.listed (h : Beside place u d d') (hlisted : Listed place d u) :
    Listed place d' u :=
  ⟨hlisted.1, hlisted.2.1, (h.same [ReadState.new.name] (Or.inl (by simp))).trans hlisted.2.2.1,
    (h.same [ReadState.cur.name] (Or.inl (by simp))).trans hlisted.2.2.2⟩

/-- In a folder that is to be drained the same messages are met while others are swept. -/
theorem Beside.messages {m : Maildir} (h : Beside place u d d') (hd : d.Sound)
    (hroot : d.resolve m.root = .ok place) (hroot' : d'.resolve m.root = .ok place)
    (hlisted : Listed place d u) :
    (m.folder u).messages m.listing d' = (m.folder u).messages m.listing d := by
  have hnames : ∀ st : ReadState, d'.fileNames (place ++ [u, st.name]) =
      d.fileNames (place ++ [u, st.name]) := by
    intro st
    refine Disk.fileNames_congr hd h.sound fun n => ?_
    rw [Disk.view, Disk.view, List.append_assoc]
    exact congrArg _ (h.same [st.name, n] (Or.inl (by simp)))
  rw [Folder.messages_eq h.sound hroot' (h.listed hlisted), Folder.messages_eq hd hroot hlisted,
    hnames, hnames]

/-! ## A whole vacuum -/

/-- The account of a folder that was drained: what has become of its messages and of itself, and
what was counted for it. -/
structure Account (v : Vacuum) (place : Path) (u : Text) (d d' : Disk) (moved stranded : List Entry)
    (here report : VacuumReport) : Prop where
  /-- The messages that were moved have left the folder for one that is wanted. -/
  leaves : ∀ e ∈ moved, v.Leaves place d d' e
  /-- The other ones are where they were. -/
  remains : ∀ e ∈ stranded, Remains place d d' e
  /-- Each message that was moved is counted once. -/
  moves : here.moved = moved.length
  /-- So is each other one, as a failure.  If there is none, it is one if the folder cannot be
  removed. -/
  failures : here.failures =
    if stranded = [] ∧ u ∉ report.removed then 1 else stranded.length
  /-- The folder is kept if a message was not moved. -/
  kept : stranded ≠ [] → u ∉ report.removed ∧
    ∀ state : ReadState, d'.item? (place ++ [u, state.name]) = some .folder
  /-- If it counts as removed, it is not there any more, and else it is. -/
  removed : u ∈ report.removed ↔ d'.item? (place ++ [u]) ≠ some .folder
  /-- Nothing has come to its place since, unless the maildir is in another mail folder, among the
  messages. -/
  vanished : (∀ state : ReadState, place.getLast? ≠ some state.name) →
    (u ∈ report.removed ↔ d'.item? (place ++ [u]) = none)

/-- Once a folder was drained, the account is not changed by work in others. -/
theorem Drained.account (hd₀ : d₀.Sound) (hroot : d₀.resolve v.maildir.root = .ok place)
    (hlisted : Listed place d u) {es moved stranded : List Entry} {s : Sweep}
    (h : v.Drained place u d₀ d es moved stranded s) (hafter : Beside place u s.disk d')
    {report : VacuumReport} (hremoved : u ∈ report.removed ↔ u ∈ s.report.removed) :
    v.Account place u d₀ d' moved stranded s.report report := by
  have hstates : ∀ state : ReadState, d.item? (place ++ [u, state.name]) = some .folder := by
    intro state
    cases state
    · exact hlisted.2.2.1
    · exact hlisted.2.2.2
  -- the folder is there if it does not count as removed
  have hfolder : u ∉ s.report.removed ∧ s.disk.item? (place ++ [u]) = some .folder ∨
      u ∈ s.report.removed ∧ s.disk.item? (place ++ [u]) = none := by
    rcases h.outcome with ⟨-, hreport, hkept⟩ | ⟨-, hreport, hthere⟩ | ⟨-, hreport, hnone⟩
    · refine Or.inl ⟨by simp [hreport], h.sound.ancestor _ (List.cons_ne_nil ReadState.new.name []) ?_⟩
      rw [List.append_assoc, List.singleton_append, (hkept _).2 (hstates .new)]
      rfl
    · exact Or.inl ⟨by simp [hreport], hthere⟩
    · exact Or.inr ⟨by simp [hreport], hnone⟩
  refine ⟨fun e he => ((h.gone e he).beside hafter).leaves hd₀ hroot,
    fun e he => ((h.still e he).beside hafter).remains hd₀ hroot, ?_, ?_, fun hne => ?_, ?_,
    fun hout => ?_⟩
  · rcases h.outcome with ⟨-, hreport, -⟩ | ⟨-, hreport, -⟩ | ⟨-, hreport, -⟩ <;> rw [hreport]
  · simp only [hremoved]
    rcases h.outcome with ⟨hne, hreport, -⟩ | ⟨rfl, hreport, -⟩ | ⟨rfl, hreport, -⟩ <;> rw [hreport]
    · rw [if_neg fun hboth => hne hboth.1]
    · simp
    · simp
  · rcases h.outcome with ⟨-, hreport, hkept⟩ | ⟨hnil, -⟩ | ⟨hnil, -⟩
    · refine ⟨by simp [hremoved, hreport], fun state => ?_⟩
      rw [hafter.same [state.name] (Or.inl (by simp))]
      exact (hkept _).2 (hstates state)
    · exact absurd hnil hne
    · exact absurd hnil hne
  · rw [hremoved, ne_eq, hafter.folder]
    rcases hfolder with ⟨hin, hitem⟩ | ⟨hin, hitem⟩ <;> simp [hin, hitem]
  · rw [hremoved, hafter.same [] (Or.inr hout)]
    rcases hfolder with ⟨hin, hitem⟩ | ⟨hin, hitem⟩ <;> simp [hin, hitem]

/-- A vacuum accounts for every message of every folder that it drains. -/
theorem run_accounts (v : Vacuum) (d : Disk) (hd : d.Sound) (hdry : v.dryRun = false)
    (hcalled : v.calledOff = false)
    (hnames : ∀ s t, v.maildir.HasMessage d s → v.maildir.HasMessage d t →
      s.state = t.state → s.name = t.name → s = t)
    (hroot : d.resolve v.maildir.root = .ok place) {f : Folder} {earlier later : List Folder}
    (hfs : v.maildir.folders d = .ok (earlier ++ f :: later)) (hu : isUnwanted f.name = true)
    {es : List Entry}
    (hes : f.messages v.maildir.listing (v.through earlier d).disk = .ok es) :
    let before := v.through earlier d
    let here := v.through [f] before.disk
    let after := v.through later here.disk
    let report := before.report + here.report + after.report
    v.run d = (.ok report, after.disk) ∧ f.messages v.maildir.listing d = .ok es ∧
      ∃ moved stranded, es.Perm (moved ++ stranded) ∧
        v.Account place f.name d after.disk moved stranded here.report report := by
  intro before here after report
  obtain ⟨root, u⟩ := f
  obtain ⟨hf, hlisted⟩ := (Maildir.mem_folders hd hroot hfs (f := ⟨root, u⟩)).1 (by simp)
  obtain rfl : root = v.maildir.root := hf
  have hothers := Maildir.others_of_folders hd hroot hfs
  have hleads : ∀ q, d.resolve v.maildir.root = .ok q → q = place := fun q hq =>
    Except.ok.inj (hq.symm.trans hroot)
  -- before its turn the folder is left alone
  have hbefore : Beside place u d before.disk := sweepAll_beside hdry hu earlier ⟨d, .empty⟩
    (fun g hg => hothers g (List.mem_append_left _ hg)) hd hleads
  have hroot' : before.disk.resolve v.maildir.root = .ok place := by
    obtain ⟨q, hq⟩ := place_of_messages hlisted.1 hes
    rw [hq, hbefore.leads hleads q hq]
  have hmessages : (v.maildir.folder u).messages v.maildir.listing d = .ok es :=
    (hbefore.messages hd hroot hroot' hlisted).symm.trans hes
  have hdiffer : NamesDiffer place d := fun s t hs ht =>
    hnames s t ((Maildir.hasMessage_iff hd hroot s).2 hs) ((Maildir.hasMessage_iff hd hroot t).2 ht)
  have hstill : ∀ e ∈ es, v.StillIn place u d before.disk e := by
    intro e he
    obtain ⟨t, rfl, -, ⟨f, hf⟩, rfl⟩ := (Folder.mem_messages hd hroot hlisted.1 hmessages).1 he
    exact (stillIn_start hdiffer hf).beside hbefore
  -- its turn
  obtain ⟨moved, stranded, s, hdrain, h⟩ := drain_counts hdry hu hd hbefore.sound hroot' hbefore.gone
    (hbefore.listed hlisted) hes hstill
  have hhere : here = s := through_drained hu hdrain
  -- after its turn it is left alone again
  have hafter : Beside place u s.disk after.disk := by
    have hleads' : ∀ q, s.disk.resolve v.maildir.root = .ok q → q = place := fun q hq =>
      hbefore.leads hleads q (Disk.walk_of_same_folders h.folders hq)
    rw [← hhere] at hleads' ⊢
    exact sweepAll_beside hdry hu later ⟨here.disk, .empty⟩
      (fun g hg => hothers g (List.mem_append_right _ hg)) (hhere ▸ h.sound) hleads'
  have hremoved : u ∈ report.removed ↔ u ∈ s.report.removed := by
    have hno : u ∉ before.report.removed :=
      not_mem_removed_through fun g hg => (hothers g (List.mem_append_left _ hg)).2.2
    have hno' : u ∉ after.report.removed :=
      not_mem_removed_through fun g hg => (hothers g (List.mem_append_right _ hg)).2.2
    rw [← hhere]
    simp only [report, VacuumReport.add_def, List.mem_append]
    exact ⟨fun h => (h.resolve_right hno').resolve_left hno, fun h => Or.inl (Or.inr h)⟩
  refine ⟨run_split hcalled hfs, hmessages, moved, stranded, h.perm, ?_⟩
  rw [hhere]
  exact h.account hd hroot (hbefore.listed hlisted) hafter hremoved

end Vacuum

/-- The one message of the folder for drafts is accounted for. -/
theorem draining_accounts : ∃ es, Folder.messages ⟨[], "Drafts"⟩ .byName draftsDisk = .ok es ∧
    draftSlot.entry [] ∈ es ∧ ∃ report here d' moved stranded,
      draining.run draftsDisk = (.ok report, d') ∧ es.Perm (moved ++ stranded) ∧
      draining.Account [] "Drafts" draftsDisk d' moved stranded here report := by
  have hnames : (["Drafts", "gmail.All_Mail"] : List Text).Pairwise (· < ·) := by decide
  have hfs : draining.maildir.folders draftsDisk =
      .ok ([] ++ ⟨[], "Drafts"⟩ :: [⟨[], "gmail.All_Mail"⟩]) :=
    Maildir.folders_of_root sound_draftsDisk rfl hnames (by decide) (by decide)
  have hes : Folder.messages ⟨[], "Drafts"⟩ .byName draftsDisk = .ok [draftSlot.entry []] := by
    decide +kernel
  obtain ⟨hrun, -, moved, stranded, hperm, haccount⟩ :=
    draining.run_accounts draftsDisk sound_draftsDisk rfl rfl
      (fun s t hs ht _ _ => (eq_draftSlot hs).trans (eq_draftSlot ht).symm) resolve_draftsDisk
      hfs (by decide) hes
  exact ⟨_, hes, List.mem_singleton_self _, _, _, _, moved, stranded, hrun, hperm, haccount⟩

end Mailroom
