import Mailroom.Proofs.Disk.View
import Mailroom.Proofs.Maildir.Listing
import Mailroom.Proofs.Message.Roaming

/-!
# Moving a message to another folder

A message is moved by one renaming, to the place of its state and its name in the other folder.
Both folders may have any names, and the two places may be one and the same.

* `Path.exists_concat_join` and `Disk.exists_parent` say that the new place is in a folder and
  under a proper name, whatever text the message has for its name.
* `Entry.IsFoundOn` says that a message was listed or found by name; then it has a file.
* `Message.Relocated` says what is where after the move: the message at the new path, and every
  other file where it was, but for one that stood at the new path and is lost.
* `Message.moveTo_outcome` is the result.
-/

namespace Mailroom

/-! ## Where a path ends -/

namespace Path

theorem isStep_of_mem_names {t n : Text} (h : n ∈ names t) : IsStep n := by
  have hkept : ∀ m ∈ (Text.pieces (· == '/') t).filter (fun p => !p.isEmpty), IsStep m := by
    intro m hm
    obtain ⟨hpiece, hne⟩ := List.mem_filter.1 hm
    refine ⟨by simpa using hne, fun hslash => ?_⟩
    exact absurd (Text.mem_pieces hpiece hslash).1 (by decide)
  simp only [names] at h
  split at h
  · rcases List.mem_append.1 h with h | h
    · exact hkept n h
    · rw [List.mem_singleton.1 h]
      exact ⟨by decide, by decide⟩
  · exact hkept n h

/-- A text that begins with a slash names at least the root. -/
theorem names_slash_ne_nil (t : Text) : names ('/' :: t) ≠ [] := by
  have hpieces : Text.pieces (· == '/') ('/' :: t) = [] :: Text.pieces (· == '/') t := rfl
  have hrest : Text.pieces (· == '/') t ≠ [] := Text.pieces_ne_nil _ _
  unfold names
  rw [hpieces]
  rcases List.eq_nil_or_concat (Text.pieces (· == '/') t) with hnil | ⟨before, p, hlast⟩
  · exact absurd hnil hrest
  · have hend : ([] :: (before ++ [p])).getLast? = some p := by
      rw [← List.cons_append, List.getLast?_concat]
    rw [hlast, List.concat_eq_append]
    by_cases hp : p = []
    · subst hp
      simp [hend]
    · simp [hend, hp]

/-- A text seen from a named place leads to a path that ends in a step. -/
theorem exists_concat_join (p : Path) {m : Text} (hm : IsName m) (t : Text) :
    ∃ a n, join (p ++ [m]) t = a ++ [n] ∧ IsStep n := by
  have hlast : ∀ u, names u ≠ [] → ∃ b n, names u = b ++ [n] ∧ IsStep n := by
    intro u hne
    refine ⟨_, _, (List.dropLast_concat_getLast hne).symm, ?_⟩
    exact isStep_of_mem_names (List.getLast_mem hne)
  unfold join
  split
  · exact hlast _ (names_slash_ne_nil _)
  · by_cases hne : names t = []
    · exact ⟨p, m, by rw [hne, List.append_nil], hm.isStep⟩
    · obtain ⟨b, n, hb, hn⟩ := hlast t hne
      exact ⟨p ++ [m] ++ b, n, by rw [hb]; simp, hn⟩

end Path

namespace Disk

variable {d : Disk}

/-- What is above a folder is one. -/
theorem Sound.folder_dropLast (hd : d.Sound) {p : Path} (hp : d.item? p = some .folder) :
    d.item? p.dropLast = some .folder := by
  rcases List.eq_nil_or_concat p with rfl | ⟨q, n, rfl⟩
  · exact hp
  · rw [List.concat_eq_append] at hp ⊢
    rw [List.dropLast_concat]
    exact hd.parent q n (by simp [hp])

/-- A path that ends in a step leads to a folder, or to a proper name in one. -/
theorem exists_parent (hd : d.Sound) {a q : Path} {n : Text} (hn : IsStep n)
    (h : d.resolve (a ++ [n]) = .ok q) (hfree : d.item? q ≠ some .folder) :
    ∃ r, q = r ++ [n] ∧ d.item? r = some .folder ∧ IsName n := by
  rw [resolve_append] at h
  cases ha : d.resolve a with
  | error e => simp [ha, Except.bind] at h
  | ok r =>
    simp only [ha, Except.bind, walk] at h
    split at h
    · exact absurd h (by simp)
    · exact absurd h (by simp)
    · rename_i hfolder
      split at h
      · exact absurd (Except.ok.inj h ▸ hfolder) hfree
      · rename_i hdot
        split at h
        · exact absurd (Except.ok.inj h ▸ hd.folder_dropLast hfolder) hfree
        · rename_i hup
          exact ⟨r, (Except.ok.inj h).symm, hfolder, hn.1, hdot, hup, hn.2⟩

end Disk

/-! ## Messages that are found -/

/-- A message that a folder lists, or that was found in one by the name of its file. -/
def Entry.IsFoundOn (d : Disk) (e : Entry) : Prop :=
  ∃ f : Folder, (∃ listing es, f.messages listing d = .ok es ∧ e ∈ es) ∨
    ∃ name, f.find d name = .ok e

section Found

variable {d : Disk} {f : Folder} {e : Entry}

theorem Folder.exists_file_of_find {name : Text} (h : f.find d name = .ok e) :
    ∃ file, d.file e.path = .ok file := by
  unfold find at h
  split at h
  · rename_i s hs
    obtain rfl := Except.ok.inj h
    have hfile := List.find?_some hs
    have hpath : (Entry.ofName f s name).path = Path.join (f.statePath s) name := by
      simp [Entry.path, Entry.pathIn]
    rw [hpath]
    unfold Disk.isFile at hfile
    split at hfile
    · rename_i file hstat
      exact ⟨file, by rw [Disk.file, hstat]; rfl⟩
    · exact absurd hfile (by simp)
  · exact absurd h (by simp)

theorem Folder.exists_file_of_messagesOf (hd : d.Sound) {listing : Listing} {s : ReadState}
    {es : List Entry} (h : f.messagesOf listing d s = .ok es) (he : e ∈ es) :
    ∃ file, d.file e.path = .ok file := by
  cases hlist : d.list (f.statePath s) with
  | error fault => simp [messagesOf, hlist, ofDisk, bind, Except.bind] at h
  | ok l =>
    obtain ⟨q, hq, hfolder, rfl⟩ := Disk.list_eq_ok hlist
    simp only [messagesOf, hlist, ofDisk, bind, Except.bind, pure, Except.pure,
      Except.ok.injEq] at h
    rw [← h] at he
    obtain ⟨n, hn, rfl⟩ := List.mem_map.1 he
    have hname : n ∈ d.fileNames q :=
      (listing.perm _ _).mem_iff.1 (List.mem_filter.1 hn).1
    obtain ⟨file, hfile⟩ := (Disk.mem_fileNames hd).1 hname
    have hisName : IsName n := hd.name q n (by simp [hfile])
    refine ⟨file, Disk.file_eq_ok.2 ⟨q ++ [n], ?_, hfile⟩⟩
    rw [Entry.path, Entry.pathIn, Entry.folder_ofName, Entry.state_ofName, Entry.name_ofName,
      Path.join_of_isName _ hisName, Disk.resolve_append, hq]
    exact Disk.walk_cons hisName [] hfolder

/-- A message that is found has a file. -/
theorem Entry.IsFoundOn.exists_file (hd : d.Sound) (h : e.IsFoundOn d) :
    ∃ file, d.file e.path = .ok file := by
  obtain ⟨f, ⟨listing, es, hes, he⟩ | ⟨name, hfind⟩⟩ := h
  · obtain ⟨unseen, seen, hunseen, hseen, rfl⟩ := Folder.messages_eq_ok hes
    rcases List.mem_append.1 he with he | he
    · exact Folder.exists_file_of_messagesOf hd hunseen he
    · exact Folder.exists_file_of_messagesOf hd hseen he
  · exact Folder.exists_file_of_find hfind

end Found

/-! ## Moving -/

/-- What is where after a message with a file was moved to a folder. -/
structure Message.Relocated (f : File) (dest : Folder) (before after : Desk) : Prop where
  /-- The message is in the other folder, with the name and the state that it had; what was known
  of its file is asked for anew. -/
  message : after.message = { before.message with
    entry := { before.message.entry with folder := dest, known := none } }
  /-- Its file is at the new path, the very same file. -/
  arrived : after.disk.file (before.message.entry.pathIn dest) = .ok f
  /-- It is at the old path as well only if both lead to one place. -/
  gone : after.disk.exists? before.message.entry.path = true ↔
    before.disk.resolve (before.message.entry.pathIn dest) =
      before.disk.resolve before.message.entry.path
  /-- Every other file is still at its path, unless it stood where the message is now. -/
  others : ∀ path g, before.disk.file path = .ok g → g ≠ f →
    (after.disk.file path = .ok g ↔
      before.disk.file (before.message.entry.pathIn dest) ≠ .ok g)
  /-- No folder came or went. -/
  folders : ∀ q, after.disk.item? q = some .folder ↔ before.disk.item? q = some .folder
  /-- The disk is still sound. -/
  sound : after.disk.Sound

namespace Disk

variable {d : Disk} {a b p q r : Path} {f : File}

theorem exists?_of_resolve (h : d.resolve a = .ok p) :
    d.exists? a = true ↔ (d.item? p).isSome := by simp [exists?_iff, h]

/-- Only paths to its place lead to a file. -/
theorem file_eq_iff (hd : d.Sound) (hp : d.item? p = some (.file f)) :
    d.file b = .ok f ↔ d.resolve b = .ok p := by
  rw [file_eq_ok]
  constructor
  · rintro ⟨q, hq, hitem⟩
    rw [hq, hd.own q p f f hitem hp rfl]
  · exact fun hb => ⟨p, hb, hp⟩

/-- Another file stays at its path, unless it stood where the renamed one is now. -/
theorem file_renamed_iff (hp : d.item? p = some (.file f)) (hq : q ≠ [])
    (helse : d.Elsewhere [p, q] (d.renamed p q f)) {g : File} (hb : d.resolve b = .ok r)
    (hr : d.item? r = some (.file g)) (hne : g ≠ f) :
    (d.renamed p q f).file b = .ok g ↔ r ≠ q := by
  have hitem := item?_renamed (d := d) (f := f) (Sound.ne_nil_of_file p hp) hq r
  have hrp : r ≠ p := by
    rintro rfl
    exact hne (by simpa [hr] using hp)
  rw [file_eq_ok]
  constructor
  · rintro ⟨r', hr', hplace⟩ rfl
    obtain rfl := Except.ok.inj (hr'.symm.trans (helse.resolve hb))
    rw [hitem, if_pos rfl] at hplace
    exact hne (by simpa using hplace.symm)
  · exact fun hrq => ⟨r, helse.resolve hb, by rw [hitem, if_neg hrq, if_neg hrp, hr]⟩

end Disk

namespace Message

variable {d : Disk} {m : Message} {f : File} {dest : Folder}

/-- Moving a message fails without a trace, or there was nothing to do, or its file is renamed. -/
theorem moveTo_by_rename (d : Disk) (m : Message) (dest : Folder) :
    (∃ e, moveTo dest ⟨d, m⟩ = (.error e, ⟨d, m⟩)) ∨
      (dest = m.entry.folder ∧ moveTo dest ⟨d, m⟩ = (.ok (), ⟨d, m⟩)) ∨
      (dest ≠ m.entry.folder ∧ ∃ d', d.rename m.entry.path (m.entry.pathIn dest) = .ok d' ∧
        moveTo dest ⟨d, m⟩ = (.ok (), ⟨d',
          { m with entry := { m.entry with folder := dest, known := none } }⟩)) := by
  by_cases hsame : dest = m.entry.folder
  · exact Or.inr (Or.inl ⟨hsame, by simp only [moveTo, Entry.moveTo, if_pos hsame]⟩)
  cases hthere : d.isFolder (dest.statePath m.entry.state) with
  | false =>
    exact Or.inl ⟨_, by simp only [moveTo, Entry.moveTo, if_neg hsame, hthere]; rfl⟩
  | true =>
    cases hrename : d.rename m.entry.path (m.entry.pathIn dest) with
    | error e =>
      refine Or.inl ⟨.file e, ?_⟩
      simp only [moveTo, Entry.moveTo, if_neg hsame, hthere, if_true, hrename, ofDisk, bind,
        Except.bind]
    | ok d' =>
      refine Or.inr (Or.inr ⟨hsame, d', rfl, ?_⟩)
      simp only [moveTo, Entry.moveTo, if_neg hsame, hthere, if_true, hrename, ofDisk, bind,
        Except.bind, pure, Except.pure]

/-- A renaming that succeeds moves the message. -/
theorem relocated_of_rename (hd : d.Sound) (hf : d.file m.entry.path = .ok f) {d' : Disk}
    (h : d.rename m.entry.path (m.entry.pathIn dest) = .ok d') :
    Relocated f dest ⟨d, m⟩
      ⟨d', { m with entry := { m.entry with folder := dest, known := none } }⟩ := by
  obtain ⟨p, hp, hfile⟩ := Disk.file_eq_ok.1 hf
  obtain ⟨q, hq, hfree, rfl⟩ := Disk.rename_eq_ok hp hfile h
  -- the new place is in a folder and under a proper name
  obtain ⟨a, n, hjoin, hstep⟩ := Path.exists_concat_join dest.path m.entry.state.isName_name
    m.entry.name
  have hpath : m.entry.pathIn dest = a ++ [n] := hjoin
  rw [hpath] at hq
  obtain ⟨r, rfl, hfolder, hn⟩ := Disk.exists_parent hd hstep hq hfree
  rw [← hpath] at hq
  have helse := Disk.elsewhere_renamed hd hfile hfolder hn hfree
  have hpne : p ≠ [] := Disk.Sound.ne_nil_of_file p hfile
  have hitem := fun q => Disk.item?_renamed (d := d) (f := f) hpne
    (show r ++ [n] ≠ [] by simp) q
  constructor
  case message => rfl
  case folders => exact helse.folders
  case sound => exact helse.sound
  case arrived =>
    exact Disk.file_eq_ok.2 ⟨_, helse.resolve hq, by rw [hitem, if_pos rfl]⟩
  case gone =>
    dsimp only
    rw [Disk.exists?_of_resolve (helse.resolve hp), hitem, hq, hp]
    by_cases hsame : p = r ++ [n]
    · simp [hsame]
    · rw [if_neg hsame, if_pos rfl]
      simpa using Ne.symm hsame
  case others =>
    intro path g hg hne
    obtain ⟨s, hs, hplace⟩ := Disk.file_eq_ok.1 hg
    dsimp only
    rw [Disk.file_renamed_iff hfile (by simp) helse hs hplace hne, Ne, Ne,
      Disk.file_eq_iff hd hplace, hq, Except.ok.injEq, eq_comm]

/-- Moving a message that has a file fails without a trace, or it moves that file and loses none
but one that stood at the new path. -/
theorem moveTo_outcome (hd : d.Sound) (hf : d.file m.entry.path = .ok f) (dest : Folder) :
    (∃ e, moveTo dest ⟨d, m⟩ = (.error e, ⟨d, m⟩)) ∨
      (dest = m.entry.folder ∧ moveTo dest ⟨d, m⟩ = (.ok (), ⟨d, m⟩)) ∨
      (dest ≠ m.entry.folder ∧ ∃ after, moveTo dest ⟨d, m⟩ = (.ok (), after) ∧
        Relocated f dest ⟨d, m⟩ after) := by
  rcases moveTo_by_rename d m dest with herror | hsame | ⟨hne, d', hrename, hmove⟩
  · exact Or.inl herror
  · exact Or.inr (Or.inl hsame)
  · exact Or.inr (Or.inr ⟨hne, _, hmove, relocated_of_rename hd hf hrename⟩)

end Message

/-! ### A message that stands in the way of another one -/

/-- A maildir of two folders, each with a message, and both of them of one name. -/
def clashDisk : Disk := (Disk.empty 0).plant [] (.folder
  [("Archive", .folder [("new", .folder []),
      ("cur", .folder [("1.a:2,S", .file (Utf8.encode "other") none)]), ("tmp", .folder [])]),
    ("INBOX", .folder [("new", .folder []),
      ("cur", .folder [("1.a:2,S", .file (Utf8.encode "mine") none)]), ("tmp", .folder [])])])

theorem sound_clashDisk : clashDisk.Sound := Disk.sound_plant 0 (by decide)

/-- The message of one of them. -/
def clashMessage : Message := .ofEntry ⟨⟨[], "INBOX"⟩, "1.a", some "2,S", .cur, none⟩

/-- When it is moved to the other folder, the message of that one is lost. -/
theorem moveTo_clash : clashMessage.entry.IsFoundOn clashDisk ∧
    ∃ f after, clashDisk.file clashMessage.entry.path = .ok f ∧
      Message.moveTo ⟨[], "Archive"⟩ ⟨clashDisk, clashMessage⟩ = (.ok (), after) ∧
      Message.Relocated f ⟨[], "Archive"⟩ ⟨clashDisk, clashMessage⟩ after ∧
      ∃ g, clashDisk.file ["Archive", "cur", "1.a:2,S"] = .ok g ∧
        after.disk.file ["Archive", "cur", "1.a:2,S"] ≠ .ok g := by
  have hfound : clashMessage.entry.IsFoundOn clashDisk :=
    ⟨⟨[], "INBOX"⟩, Or.inr ⟨"1.a:2,S", by decide⟩⟩
  obtain ⟨f, hf⟩ := hfound.exists_file sound_clashDisk
  refine ⟨hfound, f, ?_⟩
  rcases Message.moveTo_outcome sound_clashDisk hf ⟨[], "Archive"⟩ with
    ⟨e, herror⟩ | ⟨hsame, -⟩ | ⟨-, after, hmove, hrelocated⟩
  · have hok : (Message.moveTo ⟨[], "Archive"⟩ ⟨clashDisk, clashMessage⟩).1 = .ok () := by decide
    rw [herror] at hok
    exact absurd hok (by simp)
  · exact absurd hsame (by decide)
  · obtain ⟨g, hg⟩ : ∃ g, clashDisk.file ["Archive", "cur", "1.a:2,S"] = .ok g := ⟨_, rfl⟩
    have hother : clashDisk.file ["Archive", "cur", "1.a:2,S"] ≠
        clashDisk.file clashMessage.entry.path := by decide
    have hne : g ≠ f := by
      rintro rfl
      exact hother (hg.trans hf.symm)
    exact ⟨after, hf, hmove, hrelocated, g, hg, fun hkept =>
      (hrelocated.others _ g hg hne).1 hkept hg⟩

end Mailroom
