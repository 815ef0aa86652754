import Mailroom.Proofs.Disk.Planting
import Mailroom.Proofs.Maildir.Drafting

/-!
# Drafts that do not disturb each other

Drafts of messages of different folders or names do not meet.  Of messages of one folder and one
name only one can be written at a time: the next draft is written over it.

* `Site.Reaches` are the states that a studio comes to as long as no draft is begun at a site at
  which another one is open; `Site.Kept` is the invariant of them.
* `Site.Isolated` says that a commit leaves what was written, and that a message changes by its own
  commits only; `Site.isolated` is the result.
-/

namespace Mailroom

/-! ## What a site keeps -/

/-- An act is not one that begins a draft at a site where another one is open.  Messages that are
written anew have proper names. -/
def Studio.Admits (ws : Studio) (s : Site) : Act → Prop
  | .replace _ e => IsName e.name ∧
    (e.IsAt ws.disk s → ∀ n w, ws.draft? n = some w → ¬ w.entry.IsAt ws.disk s)
  | _ => True

namespace Site

variable {s t : Site} {ws : Studio}

/-- What a studio comes to in which no draft is begun at a site where another one is open. -/
inductive Reaches (s : Site) : Studio → Prop
  /-- At first no draft is open. -/
  | start (d : Disk) (hd : d.Sound) : Reaches s (.ofDisk d)
  /-- Then anything is done. -/
  | step {ws : Studio} {a : Act} (h : Reaches s ws) (ha : ws.Admits s a) : Reaches s (ws.step a)

/-- Of a site one draft is open at most, and what was written of it is in its file. -/
structure Kept (s : Site) (ws : Studio) : Prop where
  /-- The disk is sound. -/
  sound : ws.disk.Sound
  /-- Every draft is at some site. -/
  drafts : ∀ n w, ws.draft? n = some w → ∃ t, w.IsAt ws.disk t
  /-- Two drafts at the site are one. -/
  alone : ∀ n m v w, ws.draft? n = some v → ws.draft? m = some w → v.entry.IsAt ws.disk s →
    w.entry.IsAt ws.disk s → n = m
  /-- What was written is there. -/
  full : ∀ n w, ws.draft? n = some w → w.entry.IsAt ws.disk s → ∃ f,
    ws.disk.item? s.temporary = some (.file f) ∧ f.id = w.replacement.id ∧ f.content = w.data

/-- What an act does to the messages of a site. -/
structure Isolated (s : Site) (ws : Studio) (a : Act) : Prop where
  /-- A commit that succeeds leaves in the place of the message what was written of the draft. -/
  committed : ∀ n w, a = .commit n → ws.draft? n = some w → w.entry.IsAt ws.disk s →
    (w.replacement.commit ws.disk).1 = .ok () → w.replacement.target = w.entry.path ∧
      (ws.step a).disk.read w.entry.path = .ok w.data
  /-- Only a commit that succeeds changes a message, and it changes its own message only. -/
  changed : ∀ state,
    (ws.step a).disk.item? (s.message state) ≠ ws.disk.item? (s.message state) →
      ∃ n w, a = .commit n ∧ ws.draft? n = some w ∧ w.entry.IsAt ws.disk s ∧
        w.entry.state = state ∧ (w.replacement.commit ws.disk).1 = .ok ()

theorem Isolated.of_same {a : Act} (ha : ∀ n, a ≠ .commit n)
    (h : ∀ state, (ws.step a).disk.item? (s.message state) = ws.disk.item? (s.message state)) :
    s.Isolated ws a :=
  ⟨fun n _ hn => absurd hn (ha n), fun state hne => absurd (h state) hne⟩

theorem not_holds_of_ne (hts : t ≠ s) {q : Path} (hq : s.Holds q) : ¬ t.Holds q :=
  fun ht => hts (ht.unique hq)

namespace Kept

variable {d' : Disk} {n : Nat} {x : Option Draft} {w : Draft}

/-- Drafts are at some site after something was done at one. -/
theorem drafts_set (h : s.Kept ws) (hc : t.Confines ws.disk d')
    (hx : ∀ w, x = some w → ∃ u, w.IsAt d' u) :
    ∀ m v, (ws.set d' n x).draft? m = some v → ∃ u, v.IsAt d' u := by
  intro m v hv
  rcases Studio.draft?_set_of_eq_some hv with ⟨-, hnew⟩ | ⟨-, hold⟩
  · exact hx v hnew
  · obtain ⟨u, hu⟩ := h.drafts m v hold
    exact ⟨u, hu.of_confines hc⟩

/-- What is done at another site leaves this one alone. -/
theorem of_other (h : s.Kept ws) (hts : t ≠ s) (hc : t.Confines ws.disk d')
    (hx : ∀ w, x = some w → w.IsAt d' t) : s.Kept (ws.set d' n x) := by
  -- a draft at this site was there before
  have hold : ∀ m v, (ws.set d' n x).draft? m = some v → v.entry.IsAt d' s →
      ws.draft? m = some v ∧ v.entry.IsAt ws.disk s := by
    intro m v hv hat
    rcases Studio.draft?_set_of_eq_some hv with ⟨-, hnew⟩ | ⟨-, hold⟩
    · exact absurd ((hx v hnew).entry.unique hat) hts
    · exact ⟨hold, (Entry.isAt_iff_of_confines hc).1 hat⟩
  refine ⟨hc.sound, h.drafts_set hc fun w hw => ⟨t, hx w hw⟩, fun m m' v v' hv hv' hat hat' => ?_,
    fun m v hv hat => ?_⟩
  · obtain ⟨hm, hm_at⟩ := hold m v hv hat
    obtain ⟨hm', hm'_at⟩ := hold m' v' hv' hat'
    exact h.alone m m' v v' hm hm' hm_at hm'_at
  · obtain ⟨hm, hm_at⟩ := hold m v hv hat
    have hsame := hc.same s.temporary (not_holds_of_ne hts (Or.inl rfl))
    obtain ⟨f, hf, hid, hdata⟩ := h.full m v hm hm_at
    exact ⟨f, hsame.trans hf, hid, hdata⟩

/-- When the draft of a site is closed, none is left there. -/
theorem of_closed (h : s.Kept ws) (hw : ws.draft? n = some w) (hat : w.entry.IsAt ws.disk s)
    (hc : s.Confines ws.disk d') : s.Kept (ws.set d' n none) := by
  have hnone : ∀ m v, (ws.set d' n none).draft? m = some v → ¬ v.entry.IsAt d' s := by
    intro m v hv hat'
    rcases Studio.draft?_set_of_eq_some hv with ⟨-, hnew⟩ | ⟨hne, hold⟩
    · exact absurd hnew (by simp)
    · exact hne (h.alone m n v w hold hw ((Entry.isAt_iff_of_confines hc).1 hat') hat)
  exact ⟨hc.sound, h.drafts_set hc (by simp), fun m _ v _ hv _ hat' => absurd hat' (hnone m v hv),
    fun m v hv hat' => absurd hat' (hnone m v hv)⟩

/-- When a draft is at a site alone, and its file holds what was written, the site is kept. -/
theorem of_open (h : s.Kept ws) (hc : s.Confines ws.disk d') (hw : w.IsAt d' s)
    (hfull : ∃ f, d'.item? s.temporary = some (.file f) ∧ f.id = w.replacement.id ∧
      f.content = w.data)
    (halone : ∀ m v, ws.draft? m = some v → v.entry.IsAt ws.disk s → m = n) :
    s.Kept (ws.set d' n (some w)) := by
  have honly : ∀ m v, (ws.set d' n (some w)).draft? m = some v → v.entry.IsAt d' s →
      m = n ∧ v = w := by
    intro m v hv hat
    rcases Studio.draft?_set_of_eq_some hv with ⟨hm, hnew⟩ | ⟨hne, hold⟩
    · exact ⟨hm, (Option.some.inj hnew).symm⟩
    · exact absurd (halone m v hold ((Entry.isAt_iff_of_confines hc).1 hat)) hne
  refine ⟨hc.sound, h.drafts_set hc fun v hv => ⟨s, Option.some.inj hv ▸ hw⟩,
    fun m m' v v' hv hv' hat hat' => ?_, fun m v hv hat => ?_⟩
  · exact (honly m v hv hat).1.trans (honly m' v' hv' hat').1.symm
  · obtain ⟨-, rfl⟩ := honly m v hv hat
    exact hfull

/-- What is done at another site leaves the messages of this one alone. -/
theorem item?_message_of_other (hts : t ≠ s) (hc : t.Confines ws.disk d') (state : ReadState) :
    d'.item? (s.message state) = ws.disk.item? (s.message state) :=
  hc.same _ (not_holds_of_ne hts (Or.inr ⟨state, rfl⟩))

end Kept

/-! ### One lemma for each act -/

/-- An act that does nothing. -/
theorem Kept.idle (h : s.Kept ws) {a : Act} (hstep : ws.step a = ws)
    (hopen : ∀ n, a = .commit n → ws.draft? n = none) :
    s.Kept (ws.step a) ∧ s.Isolated ws a := by
  refine ⟨hstep.symm ▸ h, fun n w ha hw => ?_, fun state hne => absurd (by rw [hstep]) hne⟩
  exact absurd hw (by simp [hopen n ha])

theorem step_replace (h : s.Kept ws) {n : Nat} {e : Entry} (ha : ws.Admits s (.replace n e)) :
    s.Kept (ws.step (.replace n e)) ∧ s.Isolated ws (.replace n e) := by
  cases hn : ws.draft? n with
  | some w => exact h.idle (by simp only [Studio.step, hn]) (by simp)
  | none =>
    cases hreplace : e.replace ws.disk with
    | error fault => exact h.idle (by simp only [Studio.step, hn, hreplace]) (by simp)
    | ok made =>
      obtain ⟨d', e', r⟩ := made
      obtain ⟨hname, hfree⟩ := ha
      obtain ⟨t, hat, hc, hdraft, hfull, hsame⟩ :=
        Entry.exists_site_of_replace h.sound hname hreplace
      have hstep : ws.step (.replace n e) = ws.set d' n (some ⟨e', r, []⟩) := by
        simp only [Studio.step, hn, hreplace]
      rw [hstep]
      refine ⟨?_, .of_same (by simp) fun state => ?_⟩
      · by_cases hts : t = s
        · subst hts
          exact h.of_open hc hdraft hfull fun m v hv hvat => absurd hvat (hfree hat m v hv)
        · exact h.of_other hts hc fun w hw => Option.some.inj hw ▸ hdraft
      · rw [hstep]
        exact hsame _ (s.message_ne_temporary t state)

theorem step_write (h : s.Kept ws) (n : Nat) (bytes : Bytes) :
    s.Kept (ws.step (.write n bytes)) ∧ s.Isolated ws (.write n bytes) := by
  cases hn : ws.draft? n with
  | none => exact h.idle (by simp only [Studio.step, hn]) (by simp)
  | some w =>
    obtain ⟨t, hw⟩ := h.drafts n w hn
    have hc := Confines.of_write h.sound hw.own w.replacement.written bytes
    have hstep : ws.step (.write n bytes) = ws.set
        (ws.disk.write w.replacement.id w.replacement.written bytes) n
        (some ⟨w.entry, { w.replacement with
          written := w.replacement.written + bytes.length }, w.data ++ bytes⟩) := by
      simp only [Studio.step, hn]
      rfl
    have hdraft : Draft.IsAt (ws.disk.write w.replacement.id w.replacement.written bytes) t
        ⟨w.entry, { w.replacement with written := w.replacement.written + bytes.length },
          w.data ++ bytes⟩ := by
      have hkept := hw.of_confines hc
      exact { hkept with written := by simp [hw.written] }
    by_cases hts : t = s
    · subst hts
      obtain ⟨f, hf, hid, hdata⟩ := h.full n w hn hw.entry
      refine ⟨hstep ▸ h.of_open hc hdraft ?_ fun m v hv hvat => h.alone m n v w hv hn hvat hw.entry,
        .of_same (by simp) fun state => ?_⟩
      · refine ⟨⟨f.id, Disk.splice f.content w.replacement.written bytes, ws.disk.clock⟩, ?_, hid,
          ?_⟩
        · rw [Disk.item?_write, hf]
          simp [Disk.written, hid]
        · simp [Disk.splice, hdata, hw.written]
      · -- the file is where the draft is written, so it is no message
        rw [hstep]
        simp only [Studio.set, Disk.item?_write]
        cases hi : ws.disk.item? (t.message state) with
        | none => rfl
        | some i =>
          cases i with
          | folder => rfl
          | file g =>
            have hne : g.id ≠ w.replacement.id := fun hg =>
              t.message_ne_temporary t state (h.sound.own _ _ g f hi hf (hg.trans hid.symm))
            simp [Disk.written, hne]
    · refine ⟨hstep ▸ h.of_other hts hc fun v hv => Option.some.inj hv ▸ hdraft,
        .of_same (by simp) fun state => ?_⟩
      rw [hstep]
      exact Kept.item?_message_of_other hts hc state

/-- When a draft is given up, no message changes. -/
theorem Kept.discard (h : s.Kept ws) {n : Nat} {w : Draft} (hn : ws.draft? n = some w) :
    s.Kept (ws.set (w.replacement.discard ws.disk) n none) ∧
      ∀ state, (w.replacement.discard ws.disk).item? (s.message state) =
        ws.disk.item? (s.message state) := by
  obtain ⟨t, hw⟩ := h.drafts n w hn
  have hc := Draft.confines_discard h.sound hw
  by_cases hts : t = s
  · subst hts
    exact ⟨h.of_closed hn hw.entry hc, Draft.item?_discard_message hw⟩
  · exact ⟨h.of_other hts hc (by simp), Kept.item?_message_of_other hts hc⟩

theorem step_drop (h : s.Kept ws) (n : Nat) :
    s.Kept (ws.step (.drop n)) ∧ s.Isolated ws (.drop n) := by
  cases hn : ws.draft? n with
  | none => exact h.idle (by simp only [Studio.step, hn]) (by simp)
  | some w =>
    have hstep : ws.step (.drop n) = ws.set (w.replacement.discard ws.disk) n none := by
      simp only [Studio.step, hn]
    obtain ⟨hkept, hsame⟩ := h.discard hn
    exact ⟨hstep ▸ hkept, .of_same (by simp) fun state => by rw [hstep]; exact hsame state⟩

/-- When a draft of the site takes the place of its message, this holds what was written, and no
other message of the site changes. -/
theorem Kept.renamed (h : s.Kept ws) {n : Nat} {w : Draft} {g : File}
    (hn : ws.draft? n = some w) (hw : w.entry.IsAt ws.disk s)
    (hg : ws.disk.item? s.temporary = some (.file g))
    (htarget : ws.disk.resolve w.entry.path = .ok (s.message w.entry.state))
    (hc : s.Confines ws.disk (ws.disk.renamed s.temporary (s.message w.entry.state) g)) :
    (ws.disk.renamed s.temporary (s.message w.entry.state) g).read w.entry.path = .ok w.data ∧
      ∀ state, state ≠ w.entry.state →
        (ws.disk.renamed s.temporary (s.message w.entry.state) g).item? (s.message state) =
          ws.disk.item? (s.message state) := by
  obtain ⟨f, hf, -, hdata⟩ := h.full n w hn hw
  obtain rfl : g = f := by simpa [hg] using hf
  have hitem := Disk.item?_renamed (d := ws.disk) (f := g) (p := s.temporary)
    (q := s.message w.entry.state) (by simp [temporary]) (by simp [message])
  refine ⟨?_, fun state hne => ?_⟩
  · have hfile : (ws.disk.renamed s.temporary (s.message w.entry.state) g).file w.entry.path =
        .ok g :=
      Disk.file_eq_ok.2 ⟨_, (hc.resolve_iff _ _).2 htarget, by rw [hitem, if_pos rfl]⟩
    rw [Disk.read, hfile, ← hdata]
    rfl
  · rw [hitem, if_neg fun heq => hne (message_inj heq),
      if_neg (s.message_ne_temporary s state)]

theorem step_commit (h : s.Kept ws) (n : Nat) :
    s.Kept (ws.step (.commit n)) ∧ s.Isolated ws (.commit n) := by
  cases hn : ws.draft? n with
  | none => exact h.idle (by simp only [Studio.step, hn]) fun m hm => Act.commit.inj hm ▸ hn
  | some w =>
    obtain ⟨t, hw⟩ := h.drafts n w hn
    have hstep : ws.step (.commit n) = ws.set (w.replacement.commit ws.disk).2 n none := by
      simp only [Studio.step, hn]
    have hmine : ∀ {m v}, Act.commit n = .commit m → ws.draft? m = some v → v = w := by
      intro m v hm hv
      obtain rfl := Act.commit.inj hm
      exact Option.some.inj (hv.symm.trans hn)
    rcases Draft.commit_cases h.sound hw with ⟨e, hcommit⟩ | ⟨g, hg, htarget, hc, hcommit⟩
    · -- what was written is given up
      obtain ⟨hkept, hsame⟩ := h.discard hn
      rw [hcommit] at hstep
      refine ⟨hstep ▸ hkept, fun m v hm hv _ hok => ?_, fun state hne => absurd ?_ hne⟩
      · obtain rfl := hmine hm hv
        rw [hcommit] at hok
        exact absurd hok (by simp)
      · rw [hstep]
        exact hsame state
    · rw [hcommit] at hstep
      by_cases hts : t = s
      · subst hts
        obtain ⟨hread, hsame⟩ := h.renamed hn hw.entry hg htarget hc
        refine ⟨hstep ▸ h.of_closed hn hw.entry hc, fun m v hm hv hat hok => ?_,
          fun state hne => ⟨n, w, rfl, hn, hw.entry, ?_, by rw [hcommit]⟩⟩
        · obtain rfl := hmine hm hv
          rw [hstep]
          exact ⟨hw.target, hread⟩
        · rw [hstep] at hne
          exact Classical.byContradiction fun hstate => hne (hsame state (Ne.symm hstate))
      · refine ⟨hstep ▸ h.of_other hts hc (by simp), fun m v hm hv hat => ?_,
          fun state hne => absurd ?_ hne⟩
        · obtain rfl := hmine hm hv
          exact absurd (hw.entry.unique hat) hts
        · rw [hstep]
          exact Kept.item?_message_of_other hts hc state

/-- Every act keeps what a site keeps, and leaves its messages to their own drafts. -/
theorem Kept.step (h : s.Kept ws) {a : Act} (ha : ws.Admits s a) :
    s.Kept (ws.step a) ∧ s.Isolated ws a := by
  cases a with
  | replace n e => exact step_replace h ha
  | write n bytes => exact step_write h n bytes
  | commit n => exact step_commit h n
  | drop n => exact step_drop h n

theorem Kept.of_reaches (h : s.Reaches ws) : s.Kept ws := by
  induction h with
  | start d hd =>
    exact ⟨hd, by simp [Studio.ofDisk], by simp [Studio.ofDisk], by simp [Studio.ofDisk]⟩
  | step h ha ih => exact (ih.step ha).1

/-- Whatever was done before, as long as no draft is begun at a site where another one is open, a
commit leaves what was written, and a message of the site changes by its own commits only. -/
theorem isolated (h : s.Reaches ws) {a : Act} (ha : ws.Admits s a) : s.Isolated ws a :=
  ((Kept.of_reaches h).step ha).2

end Site

/-! ### Two drafts -/

/-- What acts do, one after the other. -/
def Studio.run (ws : Studio) (acts : List Act) : Studio := acts.foldl Studio.step ws

/-- A maildir of two folders, each with a message, and both of them of one name. -/
def twinDisk : Disk := (Disk.empty 0).plant [] (.folder
  [("Archive", .folder [("new", .folder []),
      ("cur", .folder [("1.a:2,S", .file (Utf8.encode "filed") none)]), ("tmp", .folder [])]),
    ("INBOX", .folder [("new", .folder []),
      ("cur", .folder [("1.a:2,S", .file (Utf8.encode "old") none)]), ("tmp", .folder [])])])

theorem sound_twinDisk : twinDisk.Sound := Disk.sound_plant 0 (by decide)

/-- The message of a folder. -/
def twinEntry (folder : Text) : Entry := .ofName ⟨[], folder⟩ .cur "1.a:2,S"

/-- Both messages are being written, a piece of one and then a piece of the other. -/
def twinStudio : Studio := (Studio.ofDisk twinDisk).run
  [.replace 0 (twinEntry "INBOX"), .write 0 (Utf8.encode "fir"), .replace 1 (twinEntry "Archive"),
    .write 1 (Utf8.encode "other"), .write 0 (Utf8.encode "st")]

/-- The place of one of them. -/
def twinSite : Site := ⟨["INBOX"], "1.a:2,S"⟩

theorem reaches_twinStudio : twinSite.Reaches twinStudio := by
  have hname : ∀ folder, IsName (twinEntry folder).name := fun folder => by
    rw [twinEntry, Entry.name_ofName]
    decide
  have hfirst : (Studio.ofDisk twinDisk).Admits twinSite (.replace 0 (twinEntry "INBOX")) :=
    ⟨hname _, fun _ n w hw => absurd hw (by simp [Studio.ofDisk])⟩
  have hreaches := ((Site.Reaches.start twinDisk sound_twinDisk).step hfirst).step
    (a := .write 0 (Utf8.encode "fir")) trivial
  -- the other message is of another site
  have hsecond : ((Studio.ofDisk twinDisk).run [.replace 0 (twinEntry "INBOX"),
      .write 0 (Utf8.encode "fir")]).Admits twinSite (.replace 1 (twinEntry "Archive")) :=
    ⟨hname _, fun hat => absurd hat.place (by decide +kernel)⟩
  exact ((hreaches.step hsecond).step (a := .write 1 (Utf8.encode "other")) trivial).step
    (a := .write 0 (Utf8.encode "st")) trivial

/-- The message of one folder gets what was written for it, and the commit of the other one leaves
it alone. -/
theorem commit_twins :
    (twinStudio.step (.commit 0)).disk.read (twinEntry "INBOX").path = .ok (Utf8.encode "first") ∧
      ∀ state, ((twinStudio.step (.commit 0)).step (.commit 1)).disk.item?
        (twinSite.message state) = (twinStudio.step (.commit 0)).disk.item?
          (twinSite.message state) := by
  constructor
  · obtain ⟨w, hw, hentry, hdata, hok⟩ : ∃ w, twinStudio.draft? 0 = some w ∧
        w.entry = twinEntry "INBOX" ∧ w.data = Utf8.encode "first" ∧
        (w.replacement.commit twinStudio.disk).1 = .ok () := ⟨_, rfl, by decide +kernel,
      by decide +kernel, by decide +kernel⟩
    have hat : w.entry.IsAt twinStudio.disk twinSite := by
      rw [hentry]
      exact ⟨by decide +kernel, by decide⟩
    rw [← hentry, ← hdata]
    exact ((Site.isolated reaches_twinStudio (a := .commit 0) trivial).committed 0 w rfl hw hat
      hok).2
  · intro state
    refine Classical.byContradiction fun hne => ?_
    obtain ⟨n, w, hn, hw, hat, -⟩ := (Site.isolated (reaches_twinStudio.step (a := .commit 0)
      trivial) (a := .commit 1) trivial).changed state hne
    obtain rfl := Act.commit.inj hn
    have hfolder : ((twinStudio.step (.commit 0)).draft? 1).map (·.entry.folder.path) =
        some (["Archive"] : Path) := by decide +kernel
    rw [hw] at hfolder
    have hplace := hat.place
    rw [show w.entry.folder.path = (["Archive"] : Path) from Option.some.inj hfolder] at hplace
    exact absurd hplace (by decide +kernel)

/-- If both drafts are of one message, the one that is committed leaves what was written for the
other. -/
example : ((Studio.ofDisk twinDisk).run [.replace 0 (twinEntry "INBOX"),
    .write 0 (Utf8.encode "first"), .replace 1 (twinEntry "INBOX"), .write 1 (Utf8.encode "2"),
    .commit 0]).disk.read (twinEntry "INBOX").path = .ok (Utf8.encode "2") := by
  decide +kernel

end Mailroom
