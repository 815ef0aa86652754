import Mailroom.Proofs.Disk.Removal
import Mailroom.Proofs.Maildir.Enumeration

/-!
# Removing a mail folder piece by piece

A mail folder is removed in four steps: its three places, as far as they exist, and the folder
itself.  The first step that fails ends the work, and what was removed before it stays removed.

* `Disk.Cleared` says that some paths lead nowhere any more, and that nothing else has changed.
* `Maildir.removeEach_outcome` says how far a removal gets.
* `Maildir.Removal` lists what it does to the disk and to the messages that the folder lists, and
  `Maildir.removeFolder_outcome` is the result.
-/

namespace Mailroom

namespace Disk

/-! ## Paths that are cleared -/

/-- Two sound disks, on the second of which some paths lead nowhere: folders at their places have
gone, and nothing else. -/
structure Cleared (ps : List Path) (d d' : Disk) : Prop where
  /-- The disk is still sound. -/
  sound : d'.Sound
  /-- No file came or went. -/
  files : ∀ q f, d'.item? q = some (.file f) ↔ d.item? q = some (.file f)
  /-- No folder came. -/
  gone : ∀ q, d'.item? q = some .folder → d.item? q = some .folder
  /-- Where none of the paths led there is what there was. -/
  same : ∀ q, (∀ p ∈ ps, d.resolve p ≠ .ok q) → d'.item? q = d.item? q
  /-- The paths lead nowhere. -/
  absent : ∀ p ∈ ps, d'.exists? p = false
  /-- If they led nowhere before, nothing has changed. -/
  untouched : (∀ p ∈ ps, d.exists? p = false) → d' = d

namespace Cleared

variable {d d₁ d' : Disk} {ps qs : List Path} {p : Path}

theorem nil (hd : d.Sound) : Cleared [] d d where
  sound := hd
  files _ _ := Iff.rfl
  gone _ h := h
  same _ _ := rfl
  absent := by simp
  untouched _ := rfl

/-- A path that leads nowhere is cleared as it is. -/
theorem of_absent (hd : d.Sound) (h : d.exists? p = false) : Cleared [p] d d where
  sound := hd
  files _ _ := Iff.rfl
  gone _ h := h
  same _ _ := rfl
  absent := by simpa using h
  untouched _ := rfl

/-- No path begins to lead anywhere. -/
theorem exists?_of_cleared (h : Cleared ps d d') (hp : d'.exists? p = true) :
    d.exists? p = true := by
  obtain ⟨q, hq, hitem⟩ := exists?_iff.1 hp
  refine exists?_iff.2 ⟨q, walk_of_same_folders h.gone hq, ?_⟩
  cases hi : d'.item? q with
  | none => simp [hi] at hitem
  | some i =>
    cases i with
    | folder => simp [h.gone q hi]
    | file f => simp [(h.files q f).1 hi]

theorem append (h₁ : Cleared ps d d₁) (h₂ : Cleared qs d₁ d') : Cleared (ps ++ qs) d d' where
  sound := h₂.sound
  files q f := (h₂.files q f).trans (h₁.files q f)
  gone q hq := h₁.gone q (h₂.gone q hq)
  same q hq := by
    have hps : ∀ p ∈ ps, d.resolve p ≠ .ok q := fun p hp => hq p (by simp [hp])
    have hqs : ∀ p ∈ qs, d₁.resolve p ≠ .ok q := fun p hp hresolve =>
      hq p (by simp [hp]) (walk_of_same_folders h₁.gone hresolve)
    exact (h₂.same q hqs).trans (h₁.same q hps)
  absent p hp := by
    rcases List.mem_append.1 hp with hp | hp
    · rw [← Bool.not_eq_true]
      intro hthere
      have hno := h₁.absent p hp
      rw [h₂.exists?_of_cleared hthere] at hno
      exact absurd hno (by simp)
    · exact h₂.absent p hp
  untouched h := by
    obtain rfl := h₁.untouched fun p hp => h p (by simp [hp])
    exact h₂.untouched fun p hp => h p (by simp [hp])

/-- An empty folder that is removed. -/
theorem of_removeFolder (hd : d.Sound) (hp : d.resolve p ≠ .ok []) (h : d.removeFolder p = .ok d') :
    Cleared [p] d d' := by
  obtain ⟨q, hq, hshrunk, hnone⟩ := Shrunk.of_removeFolder hd hp h
  obtain ⟨q', hq', hfolder, hempty, rfl⟩ := removeFolder_eq_ok h
  obtain rfl := Except.ok.inj (hq.symm.trans hq')
  have hne : q ≠ [] := by
    rintro rfl
    exact hp hq
  refine ⟨hshrunk.sound, hshrunk.files, hshrunk.gone, fun r hr => ?_, fun r hr => ?_,
    fun habsent => ?_⟩
  · have hrq : r ≠ q := by
      rintro rfl
      exact hr p (by simp) hq
    rw [item?_drop d hne, if_neg hrq]
  · rw [List.mem_singleton.1 hr, ← Bool.not_eq_true]
    intro hthere
    obtain ⟨r', hr', hitem⟩ := exists?_iff.1 hthere
    obtain rfl := Except.ok.inj (hq.symm.trans (walk_of_same_folders hshrunk.gone hr'))
    rw [hnone] at hitem
    exact absurd hitem (by simp)
  · have hthere : d.exists? p = true := exists?_iff.2 ⟨q, hq, by simp [hfolder]⟩
    rw [habsent p (by simp)] at hthere
    exact absurd hthere (by simp)

/-- Nothing has changed just if the paths led nowhere before. -/
theorem eq_iff (h : Cleared ps d d') : d' = d ↔ ∀ p ∈ ps, d.exists? p = false := by
  constructor
  · rintro rfl
    exact h.absent
  · exact h.untouched

end Cleared

/-- The root of the disk cannot be taken away. -/
theorem Sound.drop_nil {d : Disk} (hd : d.Sound) : d.drop [] = d := by
  have hitems : d.items.filter (fun e => e.1 != []) = d.items := by
    refine List.filter_eq_self.2 fun e he => ?_
    have hne : e.1 ≠ [] := fun hnil => hd.root (hnil ▸ List.mem_map_of_mem he)
    simpa using hne
  rw [Disk.drop, hitems]

end Disk

/-! ## How far a removal gets -/

namespace Maildir

variable {d : Disk} {ps : List Path}

/-- Folders are removed one after the other, up to the first that cannot be removed. -/
theorem removeEach_outcome (hps : ∀ p ∈ ps, ∀ d : Disk, d.resolve p ≠ .ok []) (hd : d.Sound) :
    (∃ d', removeEach ps d = (.ok (), d') ∧ d.Cleared ps d') ∨
      ∃ removed blocked rest fault d', ps = removed ++ blocked :: rest ∧
        removeEach ps d = (.error (.file fault), d') ∧ d.Cleared removed d' ∧
        d'.removeFolder blocked = .error fault := by
  induction ps generalizing d with
  | nil => exact Or.inl ⟨d, rfl, .nil hd⟩
  | cons p ps ih =>
    have hrest : ∀ p ∈ ps, ∀ d : Disk, d.resolve p ≠ .ok [] := fun p hp => hps p (by simp [hp])
    -- the work goes on from a disk on which the first path is cleared
    have hon : ∀ d₁, d.Cleared [p] d₁ → removeEach (p :: ps) d = removeEach ps d₁ →
        (∃ d', removeEach (p :: ps) d = (.ok (), d') ∧ d.Cleared (p :: ps) d') ∨
          ∃ removed blocked rest fault d', p :: ps = removed ++ blocked :: rest ∧
            removeEach (p :: ps) d = (.error (.file fault), d') ∧ d.Cleared removed d' ∧
            d'.removeFolder blocked = .error fault := by
      intro d₁ hfirst hrun
      rw [hrun]
      rcases ih hrest hfirst.sound with ⟨d', hthen, hcleared⟩ |
        ⟨removed, blocked, rest, fault, d', rfl, hthen, hcleared, hblocked⟩
      · exact Or.inl ⟨d', hthen, hfirst.append hcleared⟩
      · exact Or.inr ⟨p :: removed, blocked, rest, fault, d', rfl, hthen,
          hfirst.append hcleared, hblocked⟩
    cases hthere : d.exists? p with
    | false => exact hon d (.of_absent hd hthere) (by rw [removeEach, if_neg (by simp [hthere])])
    | true =>
      cases hremove : d.removeFolder p with
      | ok d₁ =>
        refine hon d₁ (.of_removeFolder hd (hps p (by simp) d) hremove) ?_
        rw [removeEach, if_pos hthere, hremove]
      | error fault =>
        refine Or.inr ⟨[], p, ps, fault, d, rfl, ?_, .nil hd, hremove⟩
        rw [removeEach, if_pos hthere, hremove]

/-- The folders that are removed with a mail folder, in this order. -/
def removals (m : Maildir) (name : Text) : List Path :=
  [ReadState.new.name, ReadState.cur.name, temporaryName].map (fun n =>
    (m.folder name).path ++ [n]) ++ [(m.folder name).path]

/-- What the removal of a mail folder does. -/
structure Removal (m : Maildir) (name : Text) (d : Disk) (r : Except Error Unit × Disk) :
    Prop where
  /-- The disk is still sound. -/
  sound : r.2.Sound
  /-- No file came or went. -/
  files : ∀ q f, r.2.item? q = some (.file f) ↔ d.item? q = some (.file f)
  /-- There is what there was but for the folder and its three places. -/
  same : ∀ q, (∀ p ∈ m.removals name, d.resolve p ≠ .ok q) → r.2.item? q = d.item? q
  /-- If it succeeds, the folder is gone, unless it is the root of the disk. -/
  done : r.1 = .ok () → d.resolve (m.folder name).path ≠ .ok [] →
    r.2.exists? (m.folder name).path = false
  /-- If it fails, it was ended by the first one of them that cannot be removed, and those before
  it are gone.  The disk is as it was just if there were none before it. -/
  failed : ∀ e, r.1 = .error e → ∃ removed blocked rest fault,
    m.removals name = removed ++ blocked :: rest ∧ e = .file fault ∧
    r.2.removeFolder blocked = .error fault ∧ d.Cleared removed r.2 ∧
    (r.2 = d ↔ ∀ p ∈ removed, d.exists? p = false)
  /-- The messages that the folder listed are still listed just if the disk is as it was. -/
  messages : ∀ e, r.1 = .error e → ∀ listing es,
    (m.folder name).messages listing d = .ok es →
      ((m.folder name).messages listing r.2 = .ok es ↔ r.2 = d)

end Maildir

/-- A folder that lists its messages has a place for the unseen ones. -/
theorem Folder.exists?_of_messages {f : Folder} {listing : Listing} {d : Disk} {es : List Entry}
    (h : f.messages listing d = .ok es) : d.exists? (f.statePath .new) = true := by
  obtain ⟨unseen, seen, hunseen, -, -⟩ := messages_eq_ok h
  cases hlist : d.list (f.statePath .new) with
  | error fault => simp [messagesOf, hlist, ofDisk, bind, Except.bind] at hunseen
  | ok l =>
    obtain ⟨q, hq, hfolder, -⟩ := Disk.list_eq_ok hlist
    exact Disk.exists?_iff.2 ⟨q, hq, by simp [hfolder]⟩

namespace Maildir

variable {d : Disk} {m : Maildir} {name : Text}

/-- A removal that was ended by something in the way. -/
theorem Removal.of_failed {removed rest : List Path} {blocked : Path} {fault : Fault} {d' : Disk}
    (hsplit : m.removals name = removed ++ blocked :: rest) (hcleared : d.Cleared removed d')
    (hblocked : d'.removeFolder blocked = .error fault) :
    m.Removal name d (.error (.file fault), d') where
  sound := hcleared.sound
  files := hcleared.files
  same q hq := hcleared.same q fun p hp => hq p (by rw [hsplit]; simp [hp])
  done h := absurd h (by simp)
  failed e he := ⟨removed, blocked, rest, fault, hsplit, (Except.error.inj he).symm, hblocked,
    hcleared, hcleared.eq_iff⟩
  messages e _ listing es hes := by
    refine ⟨fun hlisted => ?_, fun h => by rw [h]; exact hes⟩
    -- the place for unseen messages is the first to go, but it is still there
    cases removed with
    | nil => exact hcleared.eq_iff.2 (by simp)
    | cons p removed =>
      have hp : p = (m.folder name).statePath .new := (List.cons.inj hsplit).1.symm
      have hgone := hcleared.absent p (by simp)
      rw [hp, Folder.exists?_of_messages hlisted] at hgone
      exact absurd hgone (by simp)

/-- Removing a mail folder takes no file away, and either the folder goes or what is in the way
stays, with all that comes after it. -/
theorem removeFolder_outcome (m : Maildir) (name : Text) (hd : d.Sound) :
    m.Removal name d (m.removeFolder name d) := by
  have hparts : ∀ p ∈ [ReadState.new.name, ReadState.cur.name, temporaryName].map
      (fun n => (m.folder name).path ++ [n]), ∀ d : Disk, d.resolve p ≠ .ok [] := by
    intro p hp d hnil
    obtain ⟨n, hn, rfl⟩ := List.mem_map.1 hp
    have hnames : ∀ n ∈ [ReadState.new.name, ReadState.cur.name, temporaryName], IsName n := by
      decide
    obtain ⟨r, -, -, hr⟩ := Disk.resolve_concat (hnames n hn) hnil
    exact absurd hr (by simp)
  have hpath : (m.folder name).path = Path.join m.root name := rfl
  simp only [removeFolder, ← hpath]
  rcases removeEach_outcome hparts hd with ⟨d₁, heach, hcleared⟩ |
    ⟨removed, blocked, rest, fault, d', hsplit, heach, hcleared, hblocked⟩
  · rw [heach]
    dsimp only
    cases hremove : d₁.removeFolder (m.folder name).path with
    | error fault =>
      have hlast : m.removals name = [ReadState.new.name, ReadState.cur.name, temporaryName].map
          (fun n => (m.folder name).path ++ [n]) ++ (m.folder name).path :: [] := rfl
      exact .of_failed hlast hcleared hremove
    | ok d' =>
      by_cases hnil : d₁.resolve (m.folder name).path = .ok []
      · -- nothing more has gone
        obtain ⟨q, hq, -, -, rfl⟩ := Disk.removeFolder_eq_ok hremove
        obtain rfl := Except.ok.inj (hq.symm.trans hnil)
        rw [hcleared.sound.drop_nil]
        refine ⟨hcleared.sound, hcleared.files, fun q hq => hcleared.same q fun p hp =>
          hq p (List.mem_append_left _ hp), fun _ hne => ?_, by simp, by simp⟩
        exact absurd (Disk.walk_of_same_folders hcleared.gone hnil) hne
      · have hall := hcleared.append (.of_removeFolder hcleared.sound hnil hremove)
        exact ⟨hall.sound, hall.files, hall.same, fun _ _ => hall.absent _ (by simp), by simp,
          by simp⟩
  · have hall : m.removals name = removed ++ blocked :: (rest ++ [(m.folder name).path]) := by
      rw [removals, hsplit]
      simp
    rw [heach]
    exact .of_failed hall hcleared hblocked

end Maildir

/-! ### A message in the way of a removal -/

/-- A maildir of one folder, with one message. -/
def junkDisk : Disk := (Disk.empty 0).plant [] (.folder
  [("Junk", .folder [("new", .folder []),
    ("cur", .folder [("1.a:2,S", .file (Utf8.encode "body") none)]), ("tmp", .folder [])])])

theorem sound_junkDisk : junkDisk.Sound := Disk.sound_plant 0 (by decide)

/-- The message of it. -/
def junkEntry : Entry := ⟨⟨[], "Junk"⟩, "1.a", some "2,S", .cur, none⟩

/-- The folder is not removed, but its message is listed no more. -/
theorem removeFolder_junk :
    let r := Maildir.removeFolder ⟨[], .byName⟩ "Junk" junkDisk
    Maildir.Removal ⟨[], .byName⟩ "Junk" junkDisk r ∧ r.1 = .error (.file .folderNotEmpty) ∧
      Folder.messages ⟨[], "Junk"⟩ .byName junkDisk = .ok [junkEntry] ∧
      Folder.messages ⟨[], "Junk"⟩ .byName r.2 ≠ .ok [junkEntry] ∧
      r.2.read junkEntry.path = .ok (Utf8.encode "body") := by
  intro r
  have hremoval := Maildir.removeFolder_outcome ⟨[], .byName⟩ "Junk" sound_junkDisk
  have herror : r.1 = .error (.file .folderNotEmpty) := by decide +kernel
  have hlisted : Folder.messages ⟨[], "Junk"⟩ .byName junkDisk = .ok [junkEntry] := by
    decide +kernel
  refine ⟨hremoval, herror, hlisted, fun h => ?_, by decide +kernel⟩
  have hsame : r.2 = junkDisk := (hremoval.messages _ herror .byName _ hlisted).1 h
  have hgone : r.2.exists? ["Junk", "new"] = false := by decide +kernel
  rw [hsame] at hgone
  exact absurd hgone (by decide +kernel)

end Mailroom
