import Mathlib.Data.List.Nodup
import Mailroom.Proofs.Maildir.Listing

/-!
# All messages of a maildir

The messages that are met when the listed folders are gone through, one after the other.

* `Maildir.entries` is the list of them.
* `Maildir.exists_entries` says that it holds each message of each listed folder, and no message
  twice.
* `filter_eq_singleton` finds the one of a kind among messages of which none is there twice.
-/

namespace Mailroom

variable {d : Disk} {root place : Path}

/-! ## One folder -/

namespace Folder

variable {f : Folder} {listing : Listing} {es : List Entry} {e : Entry}

theorem of_mem_messagesOf {s : ReadState} (h : f.messagesOf listing d s = .ok es) (he : e ∈ es) :
    e.folder = f ∧ e.state = s := by
  cases hlist : d.list (f.statePath s) with
  | error fault => simp [messagesOf, hlist, ofDisk, bind, Except.bind] at h
  | ok l =>
    simp only [messagesOf, hlist, ofDisk, bind, Except.bind, pure, Except.pure,
      Except.ok.injEq] at h
    rw [← h] at he
    obtain ⟨n, -, rfl⟩ := List.mem_map.1 he
    exact ⟨Entry.folder_ofName f s n, Entry.state_ofName f s n⟩

theorem nodup_messagesOf (hd : d.Sound) {s : ReadState}
    (h : f.messagesOf listing d s = .ok es) : es.Nodup := by
  cases hlist : d.list (f.statePath s) with
  | error fault => simp [messagesOf, hlist, ofDisk, bind, Except.bind] at h
  | ok l =>
    obtain ⟨q, -, -, rfl⟩ := Disk.list_eq_ok hlist
    simp only [messagesOf, hlist, ofDisk, bind, Except.bind, pure, Except.pure,
      Except.ok.injEq] at h
    rw [← h]
    have hfiles := fun p => (Disk.nodup_children hd q).sublist
      ((List.filter_sublist (p := p)).map Prod.fst)
    refine List.Nodup.map ?_ (((listing.perm _ _).nodup_iff.2 (hfiles _)).filter _)
    intro n m hsame
    rw [← Entry.name_ofName f s n, hsame, Entry.name_ofName]

theorem folder_of_mem_messages (h : f.messages listing d = .ok es) (he : e ∈ es) :
    e.folder = f := by
  obtain ⟨unseen, seen, hunseen, hseen, rfl⟩ := messages_eq_ok h
  rcases List.mem_append.1 he with he | he
  · exact (of_mem_messagesOf hunseen he).1
  · exact (of_mem_messagesOf hseen he).1

/-- No message is met twice in a folder. -/
theorem nodup_messages (hd : d.Sound) (h : f.messages listing d = .ok es) : es.Nodup := by
  obtain ⟨unseen, seen, hunseen, hseen, rfl⟩ := messages_eq_ok h
  refine List.nodup_append.2 ⟨nodup_messagesOf hd hunseen, nodup_messagesOf hd hseen, ?_⟩
  rintro e he e' he' rfl
  have hstate := (of_mem_messagesOf hunseen he).2.symm.trans (of_mem_messagesOf hseen he').2
  exact absurd hstate (by decide)

end Folder

/-! ## All folders -/

namespace Maildir

variable {m : Maildir} {fs : List Folder} {es : List Entry}

/-- The messages of some folders. -/
def entriesOf (m : Maildir) (d : Disk) : List Folder → Except Error (List Entry)
  | [] => return []
  | f :: rest => do
    let here ← f.messages m.listing d
    return here ++ (← entriesOf m d rest)

/-- The messages of all folders that are listed. -/
def entries (m : Maildir) (d : Disk) : Except Error (List Entry) := do
  m.entriesOf d (← m.folders d)

/-- No folder is listed twice. -/
theorem nodup_folders (hd : d.Sound) (h : m.folders d = .ok fs) : fs.Nodup := by
  cases hlist : d.list m.root with
  | error e => simp [folders, hlist, ofDisk, bind, Except.bind] at h
  | ok l =>
    obtain ⟨q, -, -, rfl⟩ := Disk.list_eq_ok hlist
    simp only [folders, hlist, ofDisk, bind, Except.bind, pure, Except.pure, Except.ok.injEq] at h
    rw [← h]
    refine (List.Nodup.map ?_ ((Disk.nodup_children hd q).filter _)).filter _
    intro n n' hsame
    exact congrArg Folder.name hsame

/-- If one folder is listed, the others have other names. -/
theorem others_of_folders {place : Path} (hd : d.Sound) (hroot : d.resolve m.root = .ok place)
    {f : Folder} {earlier later : List Folder} (hfs : m.folders d = .ok (earlier ++ f :: later)) :
    ∀ g ∈ earlier ++ later, g.root = m.root ∧ IsName g.name ∧ f.name ≠ g.name := by
  have hmem := fun g => mem_folders (f := g) hd hroot hfs
  have hnodup := List.nodup_middle.1 (nodup_folders hd hfs)
  intro g hg
  have hf := ((hmem f).1 (by simp)).1
  obtain ⟨hg', hlisted⟩ := (hmem g).1 (by simpa using (List.mem_append.1 hg).imp_right .inr)
  refine ⟨hg', hlisted.1, fun hname => (List.nodup_cons.1 hnodup).1 ?_⟩
  obtain ⟨root, name⟩ := f
  obtain ⟨root', name'⟩ := g
  obtain rfl : root = root' := hf.trans hg'.symm
  obtain rfl : name = name' := hname
  exact hg

theorem nodup_entriesOf (hd : d.Sound) (hfs : fs.Nodup) (h : m.entriesOf d fs = .ok es) :
    es.Nodup ∧ ∀ e ∈ es, e.folder ∈ fs := by
  induction fs generalizing es with
  | nil =>
    obtain rfl : [] = es := Except.ok.inj h
    exact ⟨List.nodup_nil, fun e he => absurd he List.not_mem_nil⟩
  | cons f fs ih =>
    obtain ⟨hf, hfs⟩ := List.nodup_cons.1 hfs
    cases hhere : f.messages m.listing d with
    | error e => simp [entriesOf, hhere, bind, Except.bind] at h
    | ok here =>
      cases hrest : m.entriesOf d fs with
      | error e => simp [entriesOf, hhere, hrest, bind, Except.bind] at h
      | ok rest =>
        obtain ⟨hnodup, hfolders⟩ := ih hfs hrest
        simp only [entriesOf, hhere, hrest, bind, Except.bind, pure, Except.pure,
          Except.ok.injEq] at h
        have hfolder := fun e he => Folder.folder_of_mem_messages (e := e) hhere he
        rw [← h]
        refine ⟨List.nodup_append.2 ⟨Folder.nodup_messages hd hhere, hnodup, ?_⟩, fun e he => ?_⟩
        · rintro e he e' he' rfl
          exact hf (hfolder e he ▸ hfolders e he')
        · rcases List.mem_append.1 he with he | he
          · exact hfolder e he ▸ List.mem_cons_self
          · exact List.mem_cons_of_mem f (hfolders e he)

theorem exists_entriesOf (hd : d.Sound) (hroot : d.resolve m.root = .ok place)
    (hfs : ∀ f ∈ fs, f.root = m.root ∧ Listed place d f.name) :
    ∃ es, m.entriesOf d fs = .ok es ∧ ∀ e, e ∈ es ↔ ∃ s : Slot, m.folder s.folder ∈ fs ∧
      s.IsVisible ∧ s.IsTaken place d ∧ e = s.entry m.root := by
  induction fs with
  | nil => exact ⟨[], rfl, by simp⟩
  | cons f fs ih =>
    obtain ⟨rest, hrest, hmem⟩ := ih fun f hf => hfs f (by simp [hf])
    obtain ⟨root, name⟩ := f
    obtain ⟨hr, hlisted⟩ := hfs ⟨root, name⟩ List.mem_cons_self
    obtain rfl : root = m.root := hr
    obtain ⟨here, hhere⟩ := Folder.exists_messages hd hroot m.listing hlisted
    refine ⟨here ++ rest, by simp [entriesOf, hhere, hrest, bind, Except.bind, pure, Except.pure],
      fun e => ?_⟩
    rw [List.mem_append, Folder.mem_messages hd hroot hlisted.1 hhere, hmem]
    constructor
    · rintro (⟨s, rfl, hs⟩ | ⟨s, hfolder, hs⟩)
      · exact ⟨s, List.mem_cons_self, hs⟩
      · exact ⟨s, List.mem_cons_of_mem _ hfolder, hs⟩
    · rintro ⟨s, hfolder, hs⟩
      rcases List.mem_cons.1 hfolder with hfolder | hfolder
      · exact Or.inl ⟨s, congrArg Folder.name hfolder, hs⟩
      · exact Or.inr ⟨s, hfolder, hs⟩

/-- Where the folders can be listed, all their messages can: the files at slots of listed folders
whose names begin with no dot, each of them once. -/
theorem exists_entries (hd : d.Sound) (hroot : d.resolve m.root = .ok place)
    (hplace : d.item? place = some .folder) : ∃ es, m.entries d = .ok es ∧ es.Nodup ∧
      ∀ e, e ∈ es ↔ ∃ s : Slot, Listed place d s.folder ∧ s.IsVisible ∧ s.IsTaken place d ∧
        e = s.entry m.root := by
  obtain ⟨fs, hfs⟩ := exists_folders hroot hplace
  have hfolders := fun f => mem_folders (f := f) hd hroot hfs
  obtain ⟨es, hes, hmem⟩ := exists_entriesOf hd hroot fun f hf => (hfolders f).1 hf
  refine ⟨es, by simp [entries, hfs, hes, bind, Except.bind],
    (nodup_entriesOf hd (nodup_folders hd hfs) hes).1, fun e => (hmem e).trans ?_⟩
  refine exists_congr fun s => and_congr_left fun _ => ?_
  rw [hfolders]
  exact ⟨fun h => h.2, fun h => ⟨rfl, h⟩⟩

/-- The messages can only be listed of a maildir that is there. -/
theorem place_of_entries (h : m.entries d = .ok es) :
    ∃ place, d.resolve m.root = .ok place ∧ d.item? place = some .folder := by
  cases hfs : m.folders d with
  | error e => simp [entries, hfs, bind, Except.bind] at h
  | ok fs => exact place_of_folders hfs

end Maildir

/-- What only one member of a list is, is found once if no member is there twice. -/
theorem filter_eq_singleton {α : Type} {l : List α} {p : α → Bool} {a : α} (hl : l.Nodup)
    (ha : a ∈ l) (hp : ∀ b ∈ l, p b = true ↔ b = a) : l.filter p = [a] := by
  induction l with
  | nil => exact absurd ha List.not_mem_nil
  | cons b l ih =>
    obtain ⟨hb, hl⟩ := List.nodup_cons.1 hl
    have hrest : ∀ c ∈ l, p c = true ↔ c = a := fun c hc => hp c (List.mem_cons_of_mem _ hc)
    rcases List.mem_cons.1 ha with rfl | ha
    · rw [List.filter_cons_of_pos ((hp a List.mem_cons_self).2 rfl)]
      refine congrArg (a :: ·) (List.filter_eq_nil_iff.2 fun c hc hpc => hb ?_)
      exact (hrest c hc).1 hpc ▸ hc
    · have hne : ¬ p b = true := fun hpb => hb ((hp b List.mem_cons_self).1 hpb ▸ ha)
      rw [List.filter_cons_of_neg hne]
      exact ih hl ha hrest

end Mailroom
