import Mailroom.Proofs.Vacuum.Conservation
import Mailroom.Proofs.Vacuum.Settling
import Mailroom.Proofs.Verdict.Meaning

/-!
# Keywords and the places they lead to

A message of a drained folder follows one of its keywords to a better place, and loses the keyword
of the folder that it comes from.  The folder may bear a label of the mail system in label form,
as `\Inbox` does; then the keyword that is lost is the folder form, which the message can have
followed.

* `Keywords.current` has the present names, and `Keywords.exchange_renamings` says that renaming
  one keyword after the other comes to it.
* `Follows` says which keyword leads a message where.
* `Message.save_settles` says what a saved message has for keywords.
* `Vacuum.rehome_follows` is the result.
-/

namespace Mailroom

variable {v : Vacuum} {d : Disk} {m : Message} {k : Keywords} {e : Entry} {f : File} {r : Path}
  {drained : Text}

/-! ## Present names -/

namespace Keywords

/-- Keywords with the present name for each that was renamed. -/
def current (k : Keywords) : Keywords := .ofList (k.toList.map fun n => (replacement? n).getD n)

variable {pairs : List (Text × Text)} {n : Text}

/-- A keyword that is no old name stays. -/
theorem mem_exchange_of_mem (hn : n ∈ k.toList) (hnot : ∀ p ∈ pairs, n ≠ resolveFolder p.1) :
    n ∈ (k.exchange pairs).toList := by
  induction pairs generalizing k with
  | nil => exact hn
  | cons p pairs ih =>
    refine ih (mem_insertAll.2 (.inl (mem_eraseAll.2 ⟨hn, fun l hl => ?_⟩)))
      fun q hq => hnot q (List.mem_cons_of_mem p hq)
    rw [List.mem_singleton.1 hl]
    exact hnot p List.mem_cons_self

/-- A new name comes in, and stays if it is no old one. -/
theorem mem_exchange_of_present {p : Text × Text} (hp : p ∈ pairs)
    (hapart : ∀ q ∈ pairs, resolveFolder p.2 ≠ resolveFolder q.1) :
    resolveFolder p.2 ∈ (k.exchange pairs).toList := by
  induction pairs generalizing k with
  | nil => exact absurd hp List.not_mem_nil
  | cons q pairs ih =>
    have hrest := fun q' hq => hapart q' (List.mem_cons_of_mem q hq)
    rcases List.mem_cons.1 hp with rfl | hp
    · have hnew : resolveFolder p.2 ∈ ((k.eraseAll [p.1]).1.insertAll [p.2]).1.toList :=
        mem_insertAll.2 (.inr ⟨p.2, List.mem_cons_self, rfl⟩)
      have hkept := mem_exchange_of_mem hnew hrest
      exact hkept
    · exact ih hp hrest

/-- Renaming the keywords one after the other gives all of them their present names. -/
theorem exchange_renamings (hform : ∀ n ∈ k.toList, resolveFolder n = n) :
    k.exchange (renamings k) = k.current := by
  have hnames : ∀ p ∈ renamedKeywords, ∀ q ∈ renamedKeywords,
      resolveFolder p.2 ≠ resolveFolder q.1 := by decide +kernel
  refine ext_of_mem fun z => ?_
  rw [current, mem_ofList]
  constructor
  · intro hz
    rcases mem_exchange hz with ⟨hmem, hnot⟩ | ⟨⟨old, present⟩, hp, rfl⟩
    · refine ⟨_, List.mem_map.2 ⟨z, hmem, rfl⟩, ?_⟩
      cases hrenamed : replacement? z with
      | none => exact (hform z hmem).symm
      | some present =>
        exact absurd (hform z hmem).symm (hnot (z, present) (mem_renamings.2 ⟨hmem, hrenamed⟩))
    · obtain ⟨hold, hrenamed⟩ := mem_renamings.1 hp
      exact ⟨_, List.mem_map.2 ⟨old, hold, rfl⟩, by rw [hrenamed]; rfl⟩
  · rintro ⟨w, hw, rfl⟩
    obtain ⟨n, hn, rfl⟩ := List.mem_map.1 hw
    cases hrenamed : replacement? n with
    | none =>
      rw [Option.getD_none, hform n hn]
      refine mem_exchange_of_mem hn fun p hp hsame => ?_
      -- an old name is in folder form, so that it would be the keyword itself
      obtain ⟨hold, hpresent⟩ := mem_renamings.1 hp
      rw [hform p.1 hold] at hsame
      rw [← hsame, hrenamed] at hpresent
      exact nomatch hpresent
    | some present =>
      exact mem_exchange_of_present (p := (n, present)) (mem_renamings.2 ⟨hn, hrenamed⟩)
        fun q hq => hnames _ (mem_renamedKeywords hrenamed) _
          (mem_renamedKeywords (mem_renamings.1 hq).2)

/-- Keywords that were read, and of which none looks like an encoded word, are clean. -/
theorem isClean_of_seen {content : Bytes}
    (hk : seenKeywords [] (readHeader content) = .ok k)
    (hopening : ∀ n ∈ k.toList, ¬ HasOpening n) :
    k.IsClean ∧ ∃ header, readHeader content = .ok header := by
  obtain ⟨header, hread, rfl⟩ := seenKeywords_eq_ok.1 hk
  refine ⟨fun n hn => ?_, header, hread⟩
  have hplain := hopening n hn
  obtain ⟨w, hw, rfl⟩ := mem_parse.1 hn
  refine ⟨resolveFolder_resolveFolder w, ?_⟩
  rcases resolveFolder_cases w with ⟨l, hl, hform⟩ | hform
  · have hsystem : ∀ l ∈ Label.system, IsToken l.folderForm := by decide +kernel
    exact hform ▸ hsystem l hl
  · rw [hform] at hplain ⊢
    exact ⟨(Text.isWord_of_mem_words hw).1, hplain⟩

end Keywords

/-! ## The keyword that is followed -/

/-- Which keyword leads a message away from a drained folder, and where to: one that tells of a
social network, or else the least one; or none does. -/
inductive Follows (drained : Text) (k : Keywords) : Option Text → Text → Prop where
  /-- A keyword tells of a social network. -/
  | social {n : Text} (hmem : n ∈ k.toList) (hother : n ≠ drained) (hmark : socialMark <:+: n) :
      Follows drained k (some n) socialFolder
  /-- No keyword does, and one is the least. -/
  | least {n : Text} (hno : ∀ x ∈ k.toList, x ≠ drained → ¬ socialMark <:+: x)
      (hmem : n ∈ k.toList) (hother : n ≠ drained)
      (hleast : ∀ x ∈ k.toList, x ≠ drained → ¬ x < n) :
      Follows drained k (some n) (Text.replace '/' '.' n)
  /-- There is no other keyword. -/
  | none (hno : ∀ x ∈ k.toList, x = drained) : Follows drained k none fallbackFolder

namespace Follows

variable {n? : Option Text} {better : Text}

theorem any_social_iff : (k.toList.filter (· != drained)).any (occurs socialMark) = true ↔
    ∃ x ∈ k.toList, x ≠ drained ∧ socialMark <:+: x := by
  simp [List.any_eq_true, occurs_iff]

theorem any_social_eq_false (h : ∀ x ∈ k.toList, x ≠ drained → ¬ socialMark <:+: x) :
    (k.toList.filter (· != drained)).any (occurs socialMark) = false := by
  rw [Bool.eq_false_iff, Ne, any_social_iff]
  rintro ⟨x, hx, hne, hmark⟩
  exact h x hx hne hmark

/-- The first text of an increasing list is the least. -/
theorem head?_of_increasing {l : List Text} (h : l.Pairwise (· < ·)) {n : Text} :
    l.head? = some n ↔ n ∈ l ∧ ∀ x ∈ l, ¬ x < n := by
  cases l with
  | nil => simp
  | cons a l =>
    obtain ⟨hfirst, -⟩ := List.pairwise_cons.1 h
    rw [List.head?_cons, Option.some.injEq]
    constructor
    · rintro rfl
      refine ⟨List.mem_cons_self, fun x hx hlt => ?_⟩
      rcases List.mem_cons.1 hx with rfl | hx
      · exact List.lt_irrefl _ hlt
      · exact List.lt_irrefl _ (List.lt_trans hlt (hfirst x hx))
    · rintro ⟨hn, hleast⟩
      rcases List.mem_cons.1 hn with rfl | hn
      · rfl
      · exact absurd (hfirst n hn) (hleast a List.mem_cons_self)

theorem head?_eq_some_iff {n : Text} : (k.toList.filter (· != drained)).head? = some n ↔
    n ∈ k.toList ∧ n ≠ drained ∧ ∀ x ∈ k.toList, x ≠ drained → ¬ x < n := by
  have hincreasing : (k.toList.filter (· != drained)).Pairwise (· < ·) :=
    k.names.increasing.filter _
  rw [head?_of_increasing hincreasing]
  simp [and_assoc]

/-- The better place is where the followed keyword leads. -/
theorem alternativeOf_eq (h : Follows drained k n? better) : alternativeOf drained k = better := by
  cases h with
  | social hmem hother hmark =>
    rw [alternativeOf, if_pos (any_social_iff.2 ⟨_, hmem, hother, hmark⟩)]
  | least hno hmem hother hleast =>
    rw [alternativeOf, any_social_eq_false hno,
      head?_eq_some_iff.2 ⟨hmem, hother, hleast⟩]
    rfl
  | none hno =>
    have hnone : k.toList.filter (· != drained) = [] :=
      List.filter_eq_nil_iff.2 fun x hx => by simp [hno x hx]
    rw [alternativeOf, hnone]
    rfl

theorem exists_of (drained : Text) (k : Keywords) : ∃ n? better, Follows drained k n? better := by
  by_cases hsocial : ∃ x ∈ k.toList, x ≠ drained ∧ socialMark <:+: x
  · obtain ⟨x, hx, hne, hmark⟩ := hsocial
    exact ⟨some x, _, .social hx hne hmark⟩
  · have hno : ∀ x ∈ k.toList, x ≠ drained → ¬ socialMark <:+: x := fun x hx hne hmark =>
      hsocial ⟨x, hx, hne, hmark⟩
    cases hfirst : (k.toList.filter (· != drained)).head? with
    | none =>
      rw [List.head?_eq_none_iff, List.filter_eq_nil_iff] at hfirst
      exact ⟨.none, _, .none fun x hx => by simpa using hfirst x hx⟩
    | some n =>
      obtain ⟨hmem, hother, hleast⟩ := head?_eq_some_iff.1 hfirst
      exact ⟨some n, _, .least hno hmem hother hleast⟩

end Follows

/-! ## What is written and moved -/

/-- What a message that is taken up anew has for keywords. -/
theorem Message.keywords_ofEntry (hd : d.Sound) (h : e.Stands r f d) :
    (Message.keywords d (.ofEntry e)).1 = seenKeywords [] (readHeader f.content) := by
  rw [(Message.reads_keywords d _).1, Message.sight_ofEntry_of_stands hd h]
  rfl

/-- A message that was saved has the keywords in its file that it was to get, and stands where it
stood. -/
theorem Message.save_settles (hd : d.Sound) (h : m.entry.Stands r f d)
    (hcontent : (m.sight d).content = .ok f.content)
    (hheader : (m.sight d).header = readHeader f.content) (hstaged : (m.sight d).IsStaged k)
    (hclean : k.IsClean) {changed : Bool} {desk : Desk}
    (hsave : Message.save ⟨d, m⟩ = (.ok changed, desk)) :
    desk.disk.Sound ∧ (∃ known, desk.message.entry = { m.entry with known }) ∧
      ∃ f', desk.message.entry.Stands r f' desk.disk ∧
        seenKeywords [] (readHeader f'.content) = .ok k := by
  rcases Message.save_of_stands hd h with ⟨hedits, hrun⟩ | ⟨e, m', hrun, -⟩ |
    ⟨bytes, header, d', m', id, hbytes, hread, hrun, helse, hentry, hstands, -, -, -, -, -, hdirty⟩
  · obtain rfl := (Prod.mk.inj (hrun.symm.trans hsave)).2
    refine ⟨hd, ⟨m.entry.known, rfl⟩, f, h, ?_⟩
    rcases hstaged.edits with ⟨-, hseen⟩ | hwritten
    · exact hheader ▸ hseen
    · exact absurd (hwritten.symm.trans hedits) (by simp)
  · exact nomatch congrArg Prod.fst (hrun.symm.trans hsave)
  · obtain rfl := (Prod.mk.inj (hrun.symm.trans hsave)).2
    obtain rfl : f.content = bytes := Except.ok.inj (hcontent.symm.trans hbytes)
    obtain ⟨header', hread', -, hparse, -⟩ :=
      exists_written hstaged hclean (hheader.symm.trans hread) hheader hdirty
    have hwritten : readHeader (revise f.content header.bodyOffset m.edits) = .ok header' := hread'
    refine ⟨helse.sound, ⟨none, hentry⟩, _, hstands, ?_⟩
    rw [hwritten, seenKeywords_ok, hparse]

namespace Vacuum

variable {fs : List Folder} {g : Folder} {es : List Entry}

/-- A listed message stands somewhere, under a proper name. -/
theorem exists_stands_of_listed (hd : d.Sound) (hfs : v.maildir.folders d = .ok fs) (hg : g ∈ fs)
    (hes : g.messages v.maildir.listing d = .ok es) (he : e ∈ es) :
    g = v.maildir.folder g.name ∧ e.folder = g ∧ ∃ r f, e.Stands r f d := by
  obtain ⟨place, hroot, -⟩ := Maildir.place_of_folders hfs
  obtain ⟨hgroot, hlisted⟩ := (Maildir.mem_folders hd hroot hfs).1 hg
  obtain ⟨root, name⟩ := g
  obtain rfl : root = v.maildir.root := hgroot
  obtain ⟨s, hfolder, -, ⟨f, hf⟩, rfl⟩ := (Folder.mem_messages hd hroot hlisted.1 hes).1 he
  have hname : IsName (s.entry v.maildir.root).name := by
    rw [Slot.name_entry]
    exact s.isName_name
  have hfile : d.file (s.entry v.maildir.root).path = .ok f := by
    rw [Slot.path_entry]
    exact (Disk.file_below hd hroot s.isName_of_mem_names).2 hf
  obtain ⟨r, hstands⟩ := Entry.exists_stands hname hfile
  exact ⟨rfl, by rw [Slot.folder_entry, hfolder], r, f, hstands⟩

/-- The place that is found depends on the present names, and these are to be written. -/
theorem route_settles (v : Vacuum) (drained : Text) (hd : d.Sound) (h : e.Stands r f d)
    (hk : (Message.keywords d (.ofEntry e)).1 = .ok k) (hopening : ∀ n ∈ k.toList, ¬ HasOpening n) :
    ∃ m, v.route drained ⟨d, .ofEntry e⟩ =
        (.ok (v.goalOf d drained (alternativeOf drained k.current)), ⟨d, m⟩) ∧
      ((Message.ofEntry e).sight d).Relabels (m.sight d) ∧ (m.sight d).IsStaged k.current ∧
      k.current.IsClean := by
  let m₀ : Message := .ofEntry e
  have hsight : m₀.sight d = .ofFile e f.content := Message.sight_ofEntry_of_stands hd h
  have hseen : seenKeywords [] (readHeader f.content) = .ok k :=
    (Message.keywords_ofEntry hd h).symm.trans hk
  obtain ⟨hclean, -⟩ := Keywords.isClean_of_seen hseen hopening
  have hcurrent := Keywords.exchange_renamings fun n hn => (hclean n hn).1
  have hstaged : (m₀.sight d).IsStaged k := by
    rw [hsight]
    exact ⟨hseen, .inl ⟨rfl, hseen⟩⟩
  -- the keywords get their present names
  obtain ⟨m₁, hrun₁, hstaged₁⟩ := renameKeywords_staged hstaged
  have hrelabels := relabels_renameKeywords d m₀
  rw [hrun₁] at hrelabels
  rw [hcurrent] at hstaged₁
  have hlook : (Reading.toEditing renameKeywords) ⟨d, m₀⟩ = (.ok (), ⟨d, m₁⟩) := by
    rw [Message.toEditing_run, hrun₁]
  -- the place is looked up
  obtain ⟨m₂, hrun₂, hsight₂⟩ := destination_run (v := v) drained hstaged₁.keywords
  refine ⟨m₂, (run_bind_ok hlook).trans hrun₂, hrelabels.trans (.of_eq hsight₂), ?_, ?_⟩
  · rw [hsight₂]
    exact hstaged₁
  · exact hcurrent ▸ hclean.renamed

/-- What happens after the place was found: the keyword of the folder goes, the message is saved,
and it is moved. -/
theorem exists_of_rehome (hdry : v.dryRun = false) {m₀ : Message} {name : Text}
    (hroute : v.route drained ⟨d, m₀⟩ = (.ok name, ⟨d, m⟩)) (hk : (m.sight d).keywords = .ok k)
    {desk : Desk} (hrun : v.rehome drained ⟨d, m₀⟩ = (.ok (), desk)) :
    ∃ m' changed desk', m'.sight d = (m.sight d).withKeywords (k.eraseAll [drained]) ∧
      Message.save ⟨d, m'⟩ = (.ok changed, desk') ∧
      Message.moveTo (v.maildir.folder name) desk' = (.ok (), desk) := by
  obtain ⟨m', hremove, hsight⟩ := Message.changeKeywords_run (·.eraseAll [drained]) hk
  have hlook : (Message.removeKeywords [drained]).toEditing ⟨d, m⟩ =
      (.ok (k.eraseAll [drained]).2, ⟨d, m'⟩) := by
    rw [Message.toEditing_run]
    exact congrArg (fun x : Except Error Bool × Message => (x.1, (⟨d, x.2⟩ : Desk))) hremove
  rw [rehome_eq hdry, run_bind_ok hroute] at hrun
  have hwork : ((discard (Reading.toEditing (Message.removeKeywords [drained])) : Editing Unit) >>=
      fun _ => discard Message.save) ⟨d, m⟩ = (discard Message.save : Editing Unit) ⟨d, m'⟩ :=
    run_bind_ok (run_discard_ok hlook)
  cases hsave : Message.save ⟨d, m'⟩ with
  | mk result desk' =>
    cases result with
    | error e =>
      have hdiscard : (discard Message.save : Editing Unit) ⟨d, m'⟩ = (.error e, desk') :=
        run_bind_error hsave
      rw [run_bind_error (hwork.trans hdiscard)] at hrun
      exact nomatch congrArg Prod.fst hrun
    | ok changed =>
      rw [run_bind_ok (hwork.trans (run_discard_ok hsave))] at hrun
      exact ⟨m', changed, desk', hsight, hsave, hrun⟩

/-- A message of a drained folder that was given a better place went to the one where a keyword
leads, or where messages go if that place is the folder itself, unwanted or not there.  Its keywords
have their present names then, and that of the folder is gone.  The keyword that it followed is
still among them, unless it is the folder form of the name of the folder. -/
theorem rehome_follows (hdry : v.dryRun = false) (hd : d.Sound)
    (hfs : v.maildir.folders d = .ok fs) (hg : g ∈ fs) (hunwanted : isUnwanted g.name = true)
    (hes : g.messages v.maildir.listing d = .ok es) (he : e ∈ es)
    (hk : (Message.keywords d (.ofEntry e)).1 = .ok k) (hopening : ∀ n ∈ k.toList, ¬ HasOpening n)
    {desk : Desk} (hrun : v.rehome g.name ⟨d, .ofEntry e⟩ = (.ok (), desk)) :
    (∃ n? better, Follows g.name k.current n? better) ∧
      ∃ k', (Message.keywords desk.disk (.ofEntry desk.message.entry)).1 = .ok k' ∧
        (∀ n, n ∈ k'.toList ↔ n ∈ k.current.toList ∧ n ≠ resolveFolder g.name) ∧
        ∀ n? better, Follows g.name k.current n? better →
          desk.message.entry =
            { e with folder := v.maildir.folder (v.goalOf d g.name better), known := none } ∧
          ∀ n ∈ n?, (n ∈ k'.toList ↔ n ≠ resolveFolder g.name) := by
  obtain ⟨hfolder, hefolder, r, f, hstands⟩ := exists_stands_of_listed hd hfs hg hes he
  obtain ⟨m, hroute, hrelabels, hstaged, hclean⟩ :=
    route_settles v g.name hd hstands hk hopening
  obtain ⟨m', changed, ⟨d', m''⟩, hsight', hsave, hmove⟩ :=
    exists_of_rehome hdry hroute hstaged.keywords hrun
  have hfile := Message.sight_ofEntry_of_stands hd hstands
  -- it is saved where it stands
  have hentry' : m'.entry = e := by
    have h : (m'.sight d).entry = ((Message.ofEntry e).sight d).entry := by
      rw [hsight']
      exact hrelabels.entry
    exact h
  have hcontent' : (m'.sight d).content = .ok f.content := by
    rw [hsight']
    exact hrelabels.content.trans (congrArg Sight.content hfile)
  have hheader' : (m'.sight d).header = readHeader f.content := by
    rw [hsight']
    exact hrelabels.header.trans (congrArg Sight.header hfile)
  have hstaged' : (m'.sight d).IsStaged (k.current.eraseAll [g.name]).1 := by
    rw [hsight']
    exact hstaged.withKeywords (Keywords.eraseAll_eq_self _ _)
  obtain ⟨hd', ⟨known, hentry''⟩, f', hstands', hseen⟩ := Message.save_settles hd
    (by rw [hentry']; exact hstands) hcontent' hheader' hstaged' (hclean.eraseAll _) hsave
  -- and then it is moved to another folder, as that one is wanted
  generalize hgoal : v.goalOf d g.name (alternativeOf g.name k.current) = goal at hmove
  have hne : v.maildir.folder goal ≠ m''.entry.folder := by
    have hwanted : isUnwanted goal = false := hgoal ▸ wanted_goalOf (v := v) (d := d) g.name _
    have hold : m''.entry.folder = g := by
      rw [hentry'', hentry']
      exact hefolder
    rw [hold]
    exact fun hsame => ne_of_wanted hwanted hunwanted (congrArg Folder.name hsame)
  obtain ⟨r', hmessage, hd'', hstands''⟩ := Message.moveTo_of_ok hd' hstands' hne hmove
  have hentry : desk.message.entry = { e with folder := v.maildir.folder goal, known := none } := by
    rw [hmessage, hentry'', hentry']
  have hmem : ∀ n, n ∈ (k.current.eraseAll [g.name]).1.toList ↔
      n ∈ k.current.toList ∧ n ≠ resolveFolder g.name := by
    intro n
    rw [Keywords.mem_eraseAll]
    simp
  refine ⟨Follows.exists_of _ _, _, ?_, hmem, fun n? better hfollows => ⟨?_, fun n hn => ?_⟩⟩
  · rw [hmessage]
    exact (Message.keywords_ofEntry hd'' hstands'').trans hseen
  · rw [hentry, ← hgoal, hfollows.alternativeOf_eq]
  · obtain rfl := Option.mem_def.1 hn
    have hthere : n ∈ k.current.toList := by
      cases hfollows with
      | social hmem => exact hmem
      | least _ hmem => exact hmem
    rw [hmem, and_iff_right hthere]

end Vacuum

/-! ### A folder of the name of a label -/

/-- A message in the inbox. -/
def inboxLetter : Bytes := Utf8.encode "Subject: s\nKeywords: INBOX\n\nbody\n"

/-- A maildir in which a folder bears the label of the inbox, and holds such a message. -/
def labelDisk : Disk := (Disk.empty 0).plant [] (.folder
  [("INBOX", .folder [("new", .folder []), ("cur", .folder []), ("tmp", .folder [])]),
    ("\\Inbox", .folder [("new", .folder []),
      ("cur", .folder [("1.a:2,S", .file inboxLetter none)]), ("tmp", .folder [])]),
    ("gmail.All_Mail", .folder [("new", .folder []), ("cur", .folder []), ("tmp", .folder [])])])

theorem sound_labelDisk : labelDisk.Sound := Disk.sound_plant 0 (by decide)

/-- Where the message is. -/
def labelSlot : Slot := sampleSlot.within "\\Inbox" (by decide)

/-- The message goes to the inbox by its keyword, and loses it. -/
theorem label_follows : ∃ fs es desk, draining.maildir.folders labelDisk = .ok fs ∧
    draining.maildir.folder "\\Inbox" ∈ fs ∧
    (draining.maildir.folder "\\Inbox").messages draining.maildir.listing labelDisk = .ok es ∧
    labelSlot.entry [] ∈ es ∧
    draining.rehome "\\Inbox" ⟨labelDisk, .ofEntry (labelSlot.entry [])⟩ = (.ok (), desk) ∧
    Follows "\\Inbox" (Keywords.ofList ["INBOX"]).current (some "INBOX") "INBOX" ∧
    desk.message.entry.folder.name = "INBOX" ∧
    ∃ k', (Message.keywords desk.disk (.ofEntry desk.message.entry)).1 = .ok k' ∧
      "INBOX".toList ∉ k'.toList := by
  have hroot : labelDisk.resolve draining.maildir.root = .ok [] := rfl
  have hlisted : Listed [] labelDisk "\\Inbox" := ⟨by decide, by decide, rfl, rfl⟩
  obtain ⟨fs, hfs⟩ := Maildir.exists_folders hroot (Disk.item?_nil labelDisk)
  have hg : draining.maildir.folder "\\Inbox" ∈ fs :=
    (Maildir.mem_folders sound_labelDisk hroot hfs).2 ⟨rfl, hlisted⟩
  obtain ⟨es, hes⟩ :=
    Folder.exists_messages sound_labelDisk hroot draining.maildir.listing hlisted
  have he : labelSlot.entry [] ∈ es := by
    refine (Folder.mem_messages sound_labelDisk hroot hlisted.1 hes).2
      ⟨labelSlot, rfl, ?_, ⟨_, rfl⟩, rfl⟩
    unfold Slot.IsVisible
    decide
  have hk : (Message.keywords labelDisk (.ofEntry (labelSlot.entry []))).1 =
      .ok (.ofList ["INBOX"]) := by decide +kernel
  obtain ⟨desk, hrun⟩ : ∃ desk, draining.rehome "\\Inbox"
      ⟨labelDisk, .ofEntry (labelSlot.entry [])⟩ = (.ok (), desk) :=
    ⟨_, Prod.ext (by decide +kernel) rfl⟩
  have hfollows : Follows "\\Inbox" (Keywords.ofList ["INBOX"]).current (some "INBOX") "INBOX" :=
    .least (by decide) (by decide) (by decide) (by decide)
  obtain ⟨-, k', hk', -, hplace⟩ := Vacuum.rehome_follows (v := draining) rfl sound_labelDisk hfs hg
    (by decide) hes he hk (by decide) hrun
  obtain ⟨hentry, hkept⟩ := hplace _ _ hfollows
  refine ⟨fs, es, desk, hfs, hg, hes, he, hrun, hfollows, ?_, k', hk', ?_⟩
  · rw [hentry]
    decide +kernel
  · rw [hkept _ rfl]
    decide

end Mailroom
