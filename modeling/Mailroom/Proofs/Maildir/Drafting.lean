import Mailroom.Proofs.Disk.View
import Mailroom.Proofs.Message.Roaming

/-!
# Messages that are being written anew

Any number of messages may be written anew at once, a piece of one and then a piece of another.
What is written for messages of one folder and one name goes to one and the same place.

* A `Studio` is a disk and the drafts that are open on it, and `Studio.step` is what an `Act` does.
* A `Site` is a name in a folder, and `Site.Confines` says that two disks differ in its files only.
* `Draft.IsAt` says that a draft is of a message at a site, and `Draft.IsAt.of_confines` that what
  is done at one site leaves the drafts of all sites where they are.
* `Entry.exists_site_of_replace`, `Draft.commit_cases` and `Draft.discard_cases` say what beginning,
  committing and giving up a draft does to the disk.
-/

namespace Mailroom

/-! ## Drafts -/

/-- A message that is being written anew. -/
structure Draft where
  /-- The message. -/
  entry : Entry
  /-- What it is written to. -/
  replacement : Replacement
  /-- All that was written so far. -/
  data : Bytes

/-- Something that is done to a draft, which is known by a number. -/
inductive Act where
  /-- A message begins to be written anew, if the number is not taken. -/
  | replace (n : Nat) (e : Entry)
  /-- Some bytes are written. -/
  | write (n : Nat) (bytes : Bytes)
  /-- What was written is put in the place of the message. -/
  | commit (n : Nat)
  /-- What was written is given up. -/
  | drop (n : Nat)

/-- A disk and the drafts that are open on it. -/
structure Studio where
  /-- The disk. -/
  disk : Disk
  /-- The draft of a number. -/
  draft? : Nat → Option Draft

namespace Studio

/-- No draft is open. -/
def ofDisk (d : Disk) : Studio := ⟨d, fun _ => none⟩

/-- The studio with another disk and another draft of a number. -/
def set (s : Studio) (d : Disk) (n : Nat) (w : Option Draft) : Studio :=
  ⟨d, fun m => if m = n then w else s.draft? m⟩

/-- What an act does. -/
def step (s : Studio) : Act → Studio
  | .replace n e =>
    match s.draft? n with
    | some _ => s
    | none =>
      match e.replace s.disk with
      | .ok (d, entry, r) => s.set d n (some ⟨entry, r, []⟩)
      | .error _ => s
  | .write n bytes =>
    match s.draft? n with
    | some w =>
      let (d, r) := w.replacement.write bytes s.disk
      s.set d n (some ⟨w.entry, r, w.data ++ bytes⟩)
    | none => s
  | .commit n =>
    match s.draft? n with
    | some w => s.set (w.replacement.commit s.disk).2 n none
    | none => s
  | .drop n =>
    match s.draft? n with
    | some w => s.set (w.replacement.discard s.disk) n none
    | none => s

theorem draft?_set_of_eq_some {s : Studio} {d : Disk} {n m : Nat} {x : Option Draft} {w : Draft}
    (h : (s.set d n x).draft? m = some w) :
    (m = n ∧ x = some w) ∨ (m ≠ n ∧ s.draft? m = some w) := by
  simp only [set] at h
  split at h
  · exact Or.inl ⟨‹_›, h⟩
  · exact Or.inr ⟨‹_›, h⟩

end Studio

/-! ## Sites -/

/-- A name in a mail folder. -/
structure Site where
  /-- Where the folder is. -/
  place : Path
  /-- The name. -/
  name : Text

namespace Site

/-- Where the messages of the site are written. -/
def temporary (s : Site) : Path := s.place ++ [temporaryName, s.name]

/-- Where the message of a state is. -/
def message (s : Site) (state : ReadState) : Path := s.place ++ [state.name, s.name]

/-- Whether a place is one of the site. -/
def Holds (s : Site) (q : Path) : Prop := q = s.temporary ∨ ∃ state, q = s.message state

theorem message_ne_temporary (s t : Site) (state : ReadState) :
    s.message state ≠ t.temporary :=
  fun h => state.name_ne_temporaryName (pair_eq_of_append h).1

theorem message_inj {s : Site} {state state' : ReadState} (h : s.message state = s.message state') :
    state = state' := ReadState.name_inj (pair_eq_of_append h).1

theorem eq_of_append {s t : Site} {a b : Text}
    (h : s.place ++ [a, s.name] = t.place ++ [b, t.name]) : s = t := by
  obtain ⟨place, name⟩ := s
  obtain ⟨place', name'⟩ := t
  obtain rfl : place = place' := (List.append_inj' h rfl).1
  obtain rfl : name = name' := (pair_eq_of_append h).2
  rfl

/-- No place is one of two sites. -/
theorem Holds.unique {s t : Site} {q : Path} (hs : s.Holds q) (ht : t.Holds q) : s = t := by
  rcases hs with rfl | ⟨state, rfl⟩ <;> rcases ht with h | ⟨state', h⟩ <;> exact eq_of_append h

/-- Two disks with the same folders that differ in files of a site only, and no file has left it or
come to it. -/
structure Confines (s : Site) (d d' : Disk) : Prop where
  /-- The disk is still sound. -/
  sound : d'.Sound
  /-- No folder came or went. -/
  folders : ∀ q, d'.item? q = some .folder ↔ d.item? q = some .folder
  /-- At every other place there is what there was. -/
  same : ∀ q, ¬ s.Holds q → d'.item? q = d.item? q
  /-- A file is where it was, or it was at another place of the site, or it is new. -/
  ids : ∀ q f, d'.item? q = some (.file f) → d.nextId ≤ f.id ∨
    ∃ r g, d.item? r = some (.file g) ∧ g.id = f.id ∧ (r = q ∨ s.Holds r ∧ s.Holds q)
  /-- Identities are not given anew. -/
  nextId : d.nextId ≤ d'.nextId

namespace Confines

variable {s : Site} {d d' : Disk}

theorem refl (s : Site) (hd : d.Sound) : s.Confines d d :=
  ⟨hd, fun _ => Iff.rfl, fun _ _ => rfl, fun q f h => Or.inr ⟨q, f, h, rfl, Or.inl rfl⟩,
    Nat.le_refl _⟩

/-- Paths lead where they led. -/
theorem resolve_iff (h : s.Confines d d') (p q : Path) :
    d'.resolve p = .ok q ↔ d.resolve p = .ok q := Disk.resolve_congr h.folders p q

/-- Taking away the file that is written concerns the site only. -/
theorem of_drop (hd : d.Sound) {g : File} (hg : d.item? s.temporary = some (.file g)) :
    s.Confines d (d.drop s.temporary) := by
  have hne : s.temporary ≠ [] := Disk.Sound.ne_nil_of_file _ hg
  have hitem := Disk.item?_drop d hne
  refine ⟨hd.drop hne (hd.no_child_of_file hg), fun q => ?_, fun q hq => ?_, fun q f hf => ?_,
    Nat.le_refl _⟩
  · rw [hitem]
    split
    · rename_i hq
      simp [hq, hg]
    · rfl
  · rw [hitem, if_neg fun h => hq (Or.inl h)]
  · rw [hitem] at hf
    split at hf
    · exact absurd hf (by simp)
    · exact Or.inr ⟨q, f, hf, rfl, Or.inl rfl⟩

/-- So does putting it in the place of a message of the site. -/
theorem of_renamed (hd : d.Sound) (hname : IsName s.name) {g : File}
    (hg : d.item? s.temporary = some (.file g)) {state : ReadState}
    (hfolder : d.item? (s.place ++ [state.name]) = some .folder)
    (hfree : d.item? (s.message state) ≠ some .folder) :
    s.Confines d (d.renamed s.temporary (s.message state) g) := by
  have helse := Disk.elsewhere_renamed_pair hd hg hfolder hname hfree
  refine ⟨helse.sound, helse.folders, fun q hq => helse.same q ?_, fun q f hf => ?_,
    Nat.le_refl _⟩
  · simp only [List.mem_cons, List.not_mem_nil, or_false, not_or]
    exact ⟨fun h => hq (Or.inl h), fun h => hq (Or.inr ⟨state, h⟩)⟩
  · rw [Disk.item?_renamed (by simp [temporary]) (by simp [message])] at hf
    split at hf
    · rename_i hq
      obtain rfl : g = f := by simpa using hf
      exact Or.inr ⟨_, g, hg, rfl, Or.inr ⟨Or.inl rfl, Or.inr ⟨state, hq⟩⟩⟩
    · split at hf
      · exact absurd hf (by simp)
      · exact Or.inr ⟨q, f, hf, rfl, Or.inl rfl⟩

/-- Writing into a file concerns the site only if the file can be nowhere else. -/
theorem of_write (hd : d.Sound) {id : FileId}
    (hown : ∀ q f, d.item? q = some (.file f) → f.id = id → s.Holds q) (place : Nat)
    (bytes : Bytes) : s.Confines d (d.write id place bytes) := by
  refine ⟨hd.write _ _ _, fun q => ?_, fun q hq => ?_, fun q f hf => ?_, Nat.le_refl _⟩
  · rw [Disk.item?_write]
    cases d.item? q with
    | none => simp
    | some i =>
      cases i with
      | folder => simp [Disk.written]
      | file f => simp only [Option.map_some, Disk.written]; split <;> simp
  · rw [Disk.item?_write]
    cases hi : d.item? q with
    | none => rfl
    | some i =>
      cases i with
      | folder => rfl
      | file f =>
        have hne : f.id ≠ id := fun h => hq (hown q f hi h)
        simp [Disk.written, hne]
  · rw [Disk.item?_write] at hf
    obtain ⟨i, hi, hif⟩ := Option.map_eq_some_iff.1 hf
    obtain ⟨g, rfl, hid⟩ := Disk.Sound.of_written hif
    exact Or.inr ⟨q, g, hi, hid, Or.inl rfl⟩

end Confines

end Site

/-! ## What an act does to the disk -/

/-- The message is one of a site. -/
structure Entry.IsAt (d : Disk) (s : Site) (e : Entry) : Prop where
  /-- The folder leads to the place. -/
  place : d.resolve e.folder.path = .ok s.place
  /-- The message has the name. -/
  name : e.name = s.name

namespace Entry

variable {d d' : Disk} {s t : Site} {e : Entry}

theorem IsAt.unique (hs : e.IsAt d s) (ht : e.IsAt d t) : s = t := by
  obtain ⟨place, name⟩ := s
  obtain ⟨place', name'⟩ := t
  obtain rfl : place = place' := Except.ok.inj (hs.place.symm.trans ht.place)
  obtain rfl : name = name' := hs.name.symm.trans ht.name
  rfl

theorem isAt_iff_of_confines (h : t.Confines d d') : e.IsAt d' s ↔ e.IsAt d s :=
  ⟨fun he => ⟨(h.resolve_iff _ _).1 he.place, he.name⟩,
    fun he => ⟨(h.resolve_iff _ _).2 he.place, he.name⟩⟩

end Entry

/-- A draft of a message at a site. -/
structure Draft.IsAt (d : Disk) (s : Site) (w : Draft) : Prop where
  /-- The message is one of the site. -/
  entry : w.entry.IsAt d s
  /-- The site has a proper name. -/
  isName : IsName s.name
  /-- The draft takes the place of the message. -/
  target : w.replacement.target = w.entry.path
  /-- It is where the messages of the site are written. -/
  temporary : d.resolve w.replacement.temporary = .ok s.temporary
  /-- No folder is there. -/
  free : d.item? s.temporary ≠ some .folder
  /-- What it is written to can be found at the site only. -/
  own : ∀ q f, d.item? q = some (.file f) → f.id = w.replacement.id → s.Holds q
  /-- It is no file that is still to be made. -/
  id_lt : w.replacement.id < d.nextId
  /-- It is as long as what was written. -/
  written : w.replacement.written = w.data.length

namespace Draft

variable {d d' : Disk} {s t : Site} {w : Draft}

/-- What is done at one site leaves the drafts of all sites where they are. -/
theorem IsAt.of_confines (hw : w.IsAt d s) (h : t.Confines d d') : w.IsAt d' s where
  entry := (Entry.isAt_iff_of_confines h).2 hw.entry
  isName := hw.isName
  target := hw.target
  temporary := (h.resolve_iff _ _).2 hw.temporary
  free hf := hw.free ((h.folders _).1 hf)
  own q f hf hid := by
    rcases h.ids q f hf with hnew | ⟨r, g, hg, hgid, rfl | ⟨hr, hq⟩⟩
    · exact absurd (hid ▸ hnew) (Nat.not_le.2 hw.id_lt)
    · exact hw.own _ g hg (hgid.trans hid)
    · obtain rfl := hr.unique (hw.own r g hg (hgid.trans hid))
      exact hq
  id_lt := Nat.lt_of_lt_of_le hw.id_lt h.nextId
  written := hw.written

/-- Giving a draft up takes away what is written at the site, or nothing. -/
theorem discard_cases (hw : w.IsAt d s) :
    w.replacement.discard d = d ∨ ∃ g, d.item? s.temporary = some (.file g) ∧
      w.replacement.discard d = d.drop s.temporary := by
  simp only [Replacement.discard, Disk.removeFile, hw.temporary, bind, Except.bind]
  cases hi : d.item? s.temporary with
  | none => exact Or.inl rfl
  | some i =>
    cases i with
    | folder => exact absurd hi hw.free
    | file g => exact Or.inr ⟨g, rfl, rfl⟩

theorem confines_discard (hd : d.Sound) (hw : w.IsAt d s) :
    s.Confines d (w.replacement.discard d) := by
  rcases discard_cases hw with h | ⟨g, hg, h⟩
  · rw [h]
    exact .refl s hd
  · rw [h]
    exact .of_drop hd hg

theorem item?_discard_message (hw : w.IsAt d s) (state : ReadState) :
    (w.replacement.discard d).item? (s.message state) = d.item? (s.message state) := by
  rcases discard_cases hw with h | ⟨g, hg, h⟩
  · rw [h]
  · rw [h, Disk.item?_drop _ (by simp [Site.temporary]), if_neg (s.message_ne_temporary s state)]

/-- Where nothing is written there is nothing to rename. -/
theorem rename_of_absent (hw : w.IsAt d s) (h : d.item? s.temporary = none) :
    ∃ e, d.rename w.replacement.temporary w.replacement.target = .error e := by
  cases htarget : d.resolve w.replacement.target with
  | error e => exact ⟨e, by simp [Disk.rename, hw.temporary, htarget, bind, Except.bind]⟩
  | ok q => exact ⟨_, by simp [Disk.rename, hw.temporary, htarget, bind, Except.bind, h]; rfl⟩

/-- The message is in the folder that the draft is in. -/
theorem eq_of_target (hw : w.IsAt d s) {q : Path} (h : d.resolve w.entry.path = .ok q) :
    q = s.message w.entry.state ∧ d.item? (s.place ++ [w.entry.state.name]) = some .folder := by
  have hpath : w.entry.path = w.entry.folder.path ++ [w.entry.state.name, s.name] := by
    rw [Entry.path, Entry.pathIn, hw.entry.name, Path.join_of_isName _ hw.isName,
      Folder.statePath]
    simp
  rw [hpath] at h
  obtain ⟨r, hr, hfolder, rfl⟩ := Disk.resolve_pair w.entry.state.isName_name hw.isName h
  obtain rfl := Except.ok.inj (hr.symm.trans hw.entry.place)
  exact ⟨rfl, hfolder⟩

/-- Committing a draft puts what is written at the site in the place of the message, or it fails
and gives the draft up. -/
theorem commit_cases (hd : d.Sound) (hw : w.IsAt d s) :
    (∃ e, w.replacement.commit d = (.error e, w.replacement.discard d)) ∨
    ∃ g, d.item? s.temporary = some (.file g) ∧
      d.resolve w.entry.path = .ok (s.message w.entry.state) ∧
      s.Confines d (d.renamed s.temporary (s.message w.entry.state) g) ∧
      w.replacement.commit d = (.ok (), d.renamed s.temporary (s.message w.entry.state) g) := by
  cases hrename : d.rename w.replacement.temporary w.replacement.target with
  | error e => exact Or.inl ⟨.file e, by simp only [Replacement.commit, hrename]⟩
  | ok d' =>
    have hcommit : w.replacement.commit d = (.ok (), d') := by
      simp only [Replacement.commit, hrename]
    cases hi : d.item? s.temporary with
    | none =>
      obtain ⟨e, herror⟩ := rename_of_absent hw hi
      exact absurd (herror.symm.trans hrename) (by simp)
    | some i =>
      cases i with
      | folder => exact absurd hi hw.free
      | file g =>
        obtain ⟨q, htarget, hfree, rfl⟩ := Disk.rename_eq_ok hw.temporary hi hrename
        rw [hw.target] at htarget
        obtain ⟨rfl, hfolder⟩ := eq_of_target hw htarget
        exact Or.inr ⟨g, rfl, htarget, .of_renamed hd hw.isName hi hfolder hfree, hcommit⟩

end Draft

/-- A file that is made has a new identity, or that of the file that was there. -/
theorem Disk.id_of_create {d d' : Disk} {a : Path} {id : FileId} (h : d.create a = .ok (id, d')) :
    ∃ q, d.resolve a = .ok q ∧ d.item? q ≠ some .folder ∧ d.nextId ≤ d'.nextId ∧
      (d.nextId ≤ id ∨ ∃ f, d.item? q = some (.file f) ∧ f.id = id) := by
  cases hq : d.resolve a with
  | error e => simp [create, hq, bind, Except.bind] at h
  | ok q =>
    simp only [create, hq, bind, Except.bind] at h
    split at h
    · exact absurd h (by simp)
    · rename_i f hf
      obtain ⟨rfl, rfl⟩ := Prod.mk.inj (Except.ok.inj h)
      exact ⟨q, rfl, by simp [hf], Nat.le_refl _, Or.inr ⟨f, hf, rfl⟩⟩
    · rename_i hnone
      obtain ⟨rfl, rfl⟩ := Prod.mk.inj (Except.ok.inj h)
      exact ⟨q, rfl, by simp [hnone], Nat.le_succ _, Or.inl (Nat.le_refl _)⟩

/-- A message that begins to be written anew gets an empty file at its site. -/
theorem Entry.exists_site_of_replace {d d' : Disk} {e e' : Entry} {r : Replacement}
    (hd : d.Sound) (hn : IsName e.name) (h : e.replace d = .ok (d', e', r)) :
    ∃ s : Site, e.IsAt d s ∧ s.Confines d d' ∧ Draft.IsAt d' s ⟨e', r, []⟩ ∧
      (∃ f, d'.item? s.temporary = some (.file f) ∧ f.id = r.id ∧ f.content = []) ∧
      ∀ q, q ≠ s.temporary → d'.item? q = d.item? q := by
  have htemporary : Path.join (e.folder.path ++ [temporaryName]) e.name =
      e.folder.path ++ [temporaryName, e.name] := by
    rw [Path.join_of_isName _ hn]
    simp
  cases hcreate : d.create (Path.join (e.folder.path ++ [temporaryName]) e.name) with
  | error fault => simp [Entry.replace, hcreate, ofDisk, bind, Except.bind] at h
  | ok made =>
    obtain ⟨id, d₁⟩ := made
    obtain ⟨rfl, rfl, rfl⟩ : d₁ = d' ∧ { e with known := none } = e' ∧
        (⟨id, 0, Path.join (e.folder.path ++ [temporaryName]) e.name, e.path⟩ : Replacement) =
          r := by
      simpa [Entry.replace, hcreate, ofDisk, bind, Except.bind, pure, Except.pure] using h
    obtain ⟨q, hq, hfree, hnext, hid⟩ := Disk.id_of_create hcreate
    have hpair := hq
    rw [htemporary] at hpair
    obtain ⟨place, hplace, hfolder, rfl⟩ := Disk.resolve_pair isName_temporaryName hn hpair
    have hsplit : place ++ [temporaryName, e.name] = (place ++ [temporaryName]) ++ [e.name] := by
      simp
    obtain ⟨id', d'', hcreate', helse, hitem⟩ :=
      Disk.create_eq_ok hd (hsplit ▸ hq) hfolder hn (hsplit ▸ hfree)
    obtain ⟨rfl, rfl⟩ := Prod.mk.inj (Except.ok.inj (hcreate.symm.trans hcreate'))
    rw [← hsplit] at helse hitem
    have hsame : ∀ q, q ≠ place ++ [temporaryName, e.name] → d₁.item? q = d.item? q :=
      fun q hq => helse.same q (by simpa using hq)
    refine ⟨⟨place, e.name⟩, ⟨hplace, rfl⟩, ?_, ?_, ⟨_, hitem, rfl, rfl⟩, hsame⟩
    · refine ⟨helse.sound, helse.folders, fun q hq => hsame q fun h => hq (Or.inl h),
        fun q f hf => ?_, hnext⟩
      by_cases hqt : q = place ++ [temporaryName, e.name]
      · rw [hqt, hitem] at hf
        obtain rfl := Item.file.inj (Option.some.inj hf)
        rcases hid with hnew | ⟨g, hg, hgid⟩
        · exact Or.inl hnew
        · exact Or.inr ⟨_, g, hg, hgid, Or.inl hqt.symm⟩
      · rw [hsame q hqt] at hf
        exact Or.inr ⟨q, f, hf, rfl, Or.inl rfl⟩
    · refine ⟨⟨helse.resolve hplace, rfl⟩, hn, rfl, helse.resolve hq, ?_, fun q f hf hfid => ?_,
        helse.sound.fresh _ _ hitem, rfl⟩
      · rw [Site.temporary, hitem]
        simp
      · exact Or.inl (helse.sound.own q _ f _ hf hitem hfid)

end Mailroom
