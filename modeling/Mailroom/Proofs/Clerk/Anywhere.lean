import Mailroom.Proofs.Clerk.Foretelling
import Mailroom.Proofs.Clerk.Recognition
import Mailroom.Proofs.Message.Standing

/-!
# A rule that is carried out in any folder

A message whose folder is written in any way is found at one place.  Carrying out a rule for it
keeps all fields but the two that a clerk writes, and the values of those are written on one line.
The one exception is a file that stops in a line without a colon: what is put behind this line may
take the field of its name away.

* `Case.IsFound` says that the message at hand is found at a place.
* `HangsIn` is the exception, and `Sight.KeepsForeign` compares what is seen of the other fields.
* `Clerk.relabel_found` to `Clerk.move_found` take the steps of a rule, and `Clerk.apply_found` is
  for the whole of it.
-/

namespace Mailroom

/-! ## Fields that are kept -/

/-- Whether a file stops within its header block in a line that is nothing but a name, so that a
line break of two bytes that is put after it gets into the name. -/
def HangsIn (name : Text) (content : Bytes) : Prop :=
  ∃ fields body key, readFields content = .ok (fields, body) ∧
    Hangs (lineBreak (content.take (content.length - body.length))) content body key ∧
      Text.sameName (Charset.latin key) name = true

/-- What is seen of the fields that no clerk writes is as it was, but that the empty value of a
line that hangs may have gone. -/
def Sight.KeepsForeign (content : Bytes) (v v' : Sight) : Prop :=
  ∀ name, IsPlainName name → IsForeign name → v'.values name = v.values name ∨
    HangsIn name content ∧ ∃ vs, v.values name = .ok (vs ++ [[]]) ∧ v'.values name = .ok vs

theorem Sight.KeepsForeign.congr {content : Bytes} {v v' w w' : Sight}
    (h : v.KeepsForeign content v') (hw : ∀ name, IsForeign name → w.values name = v.values name)
    (hw' : ∀ name, IsForeign name → w'.values name = v'.values name) :
    w.KeepsForeign content w' := by
  intro name hname hforeign
  rw [hw name hforeign, hw' name hforeign]
  exact h name hname hforeign

/-- Nothing is to be written but the fields that a clerk writes. -/
def Sight.WritesNoForeign (v : Sight) : Prop :=
  ∀ e ∈ v.edits, e.name = Keywords.fieldName ∨ e.name = forwardedField

namespace Sight

variable {content : Bytes} {v v' w : Sight} {r : Rule}

theorem WritesNoForeign.withField (h : v.WritesNoForeign) {name : Text} (value : Text)
    (hname : name = Keywords.fieldName ∨ name = forwardedField) :
    (v.withField name value).WritesNoForeign := by
  intro e he
  rcases mem_withField he with he | rfl
  · exact h e he
  · exact hname

theorem WritesNoForeign.withKeywords (h : v.WritesNoForeign) (change : Keywords × Bool) :
    (v.withKeywords change).WritesNoForeign := by
  intro e he
  simp only [Sight.withKeywords] at he
  split at he
  · exact h.withField _ (.inl rfl) e he
  · exact h e he

theorem WritesNoForeign.find?_eq_none (h : v.WritesNoForeign) {name : Text}
    (hname : IsForeign name) : v.edits.find? (fun e => Text.sameName e.name name) = none := by
  refine List.find?_eq_none.2 fun e he => ?_
  rcases h e he with hown | hown
  · simp [hown, hname.1]
  · simp [hown, hname.2]

/-- When new values of a clerk are written, the other fields are kept. -/
theorem WritesNoForeign.exists_saved (h : v.WritesNoForeign) (hplain : v.IsPlain) {header : Header}
    (hread : readHeader content = .ok header) :
    ∃ header', readHeader (revise content header.bodyOffset v.edits) = .ok header' ∧
      ∀ name, IsPlainName name → IsForeign name → header'.values name = header.values name ∨
        HangsIn name content ∧ header.values name = header'.values name ++ [[]] := by
  obtain ⟨fields, body, hfields, rfl⟩ := Header.read_eq_ok (readHeader_eq_ok_iff.1 hread)
  obtain ⟨fields', hrevised, hvalues⟩ := valuesOf_revise hfields
    (fun e he => (hplain.edits e he).isOneLine)
    (fun e he c hc => ((hplain.names e he).2 c hc).1) hplain.distinct
  refine ⟨_, by rw [readHeader, Header.read, hrevised], fun name hname hforeign => ?_⟩
  have hnone := h.find?_eq_none hforeign
  have hkept := hvalues name hname.isTrimmedName fun e he hsame =>
    absurd hsame (List.find?_eq_none.1 hnone e he)
  rw [hnone] at hkept
  rcases hkept with hsame | ⟨⟨key, hhangs, hsame⟩, hlost⟩
  · exact .inl hsame
  · exact .inr ⟨⟨fields, body, key, hfields, hhangs, hsame⟩, hlost⟩

end Sight

/-! ## Messages at hand -/

/-- A message at hand that is found at a place, whatever its folder is called, and of which
nothing is remembered that is not so. -/
structure Case.IsFound (place : Path) (f : File) (c : Case) : Prop where
  /-- The disk is sound. -/
  sound : c.office.disk.Sound
  /-- The file of the message is there. -/
  stands : c.message.entry.Stands place f c.office.disk
  /-- The content is that of the file. -/
  content : c.sight.content = .ok f.content
  /-- The header block is that of the file. -/
  header : c.sight.header = readHeader f.content
  /-- New values are written on one line each. -/
  plain : c.sight.IsPlain
  /-- Nothing is to be written but the fields that a clerk writes. -/
  own : c.sight.WritesNoForeign

variable {place : Path} {f : File} {c c' : Case} {k : Keywords}

/-- A message that was just taken up is found where its file is. -/
theorem Case.isFound_ofEntry {o : Office} {e : Entry} (hd : o.disk.Sound)
    (he : e.Stands place f o.disk) : IsFound place f ⟨o, .ofEntry e⟩ := by
  have hsight := Message.sight_ofEntry_of_stands hd he
  refine ⟨hd, he, congrArg Sight.content hsight, congrArg Sight.header hsight, ?_, ?_⟩
  · show ((Message.ofEntry e).sight o.disk).IsPlain
    rw [hsight]
    exact .ofFile _ _
  · exact fun x hx => absurd hx List.not_mem_nil

/-- The message is found there with other new values as well, and when more was counted or sent. -/
theorem Case.IsFound.of_sight (h : c.IsFound place f) (hdisk : c'.office.disk = c.office.disk)
    (hentry : c'.sight.entry = c.sight.entry) (hcontent : c'.sight.content = c.sight.content)
    (hheader : c'.sight.header = c.sight.header) (hplain : c'.sight.IsPlain)
    (hown : c'.sight.WritesNoForeign) : c'.IsFound place f := by
  have hsame : c'.message.entry = c.message.entry := hentry
  refine ⟨hdisk ▸ h.sound, ?_, hcontent.trans h.content, hheader.trans h.header, hplain, hown⟩
  rw [hsame, hdisk]
  exact h.stands

namespace Clerk

variable {clerk : Clerk} {r : Rule}

/-! ## The steps of a rule -/

/-- Adding and removing labels leaves all other fields alone. -/
theorem relabel_found (h : c.IsFound place f) (hk : c.sight.keywords = .ok k)
    (hlabel : ∀ l ∈ r.label, '\n' ∉ l) : ∃ c',
    (do addLabels r.label; removeLabels r.clear : Handling Unit) c = (.ok (), c') ∧
      c'.IsFound place f ∧ c'.sight = c.sight.relabeled r k := by
  obtain ⟨m, hrun, hsight⟩ := relabel_run r hk
  have hplain : (c.sight.relabeled r k).IsPlain := (h.plain.insertAll hk hlabel).eraseAll _ rfl
  have hown : (c.sight.relabeled r k).WritesNoForeign :=
    (h.own.withKeywords _).withKeywords _
  refine ⟨_, hrun, h.of_sight rfl ?_ ?_ ?_ ?_ ?_, hsight⟩
  all_goals
    have hsame : Case.sight ⟨{ c.office with summary := r.countLabels c.office.summary }, m⟩ =
      c.sight.relabeled r k := hsight
    rw [hsame]
  · rfl
  · rfl
  · rfl
  · exact hplain
  · exact hown

/-- So does passing on. -/
theorem passOn_found (hdry : clerk.dryRun = false) {destinations : List Mailbox}
    (hdestinations : ∀ m ∈ destinations, '\n' ∉ m.email) (h : c.IsFound place f) :
    ∃ c', clerk.passOn destinations c = (.ok (), c') ∧ c'.IsFound place f ∧
      c'.sight.entry = c.sight.entry ∧
      ∀ name, IsForeign name → c'.sight.values name = c.sight.values name := by
  obtain ⟨c', hrun, hdisk, hsight | ⟨done, hdone, hsight⟩⟩ := passOn_run hdry destinations c
  · refine ⟨c', hrun, h.of_sight hdisk ?_ ?_ ?_ ?_ ?_, ?_, fun name _ => ?_⟩
    all_goals rw [hsight]
    · exact h.plain
    · exact h.own
  · refine ⟨c', hrun, h.of_sight hdisk ?_ ?_ ?_ ?_ ?_, ?_, fun name hname => ?_⟩
    all_goals rw [hsight]
    · rfl
    · rfl
    · rfl
    · exact h.plain.passedOn hdone hdestinations
    · exact h.own.withField _ (.inr rfl)
    · rfl
    · exact values_withField_of_ne _ hname.2

/-- Saving with success keeps all other fields, but for a line that hangs. -/
theorem save_found (hdry : clerk.dryRun = false) (h : c.IsFound place f) (hk : c.Knows k)
    (hrun : clerk.save c = (.ok (), c')) : ∃ f', c'.IsFound place f' ∧ c'.Knows k ∧
      c'.message.entry.folder = c.message.entry.folder ∧
      c.sight.KeepsForeign f.content c'.sight := by
  rw [save_eq_discard hdry] at hrun
  have hknows := knows_save ⟨c.office.disk, c.message⟩ hk
  rcases Message.save_of_stands h.sound h.stands with ⟨-, hsave⟩ | ⟨e, m', hsave, -⟩ |
    ⟨bytes, header, d', m', id, hcontent, hheader, hsave, helse, hentry, hstands, hedits, hcontent',
      hheader', -⟩
  · rw [run_discard_ok (liftM_run hsave)] at hrun
    obtain rfl := (Prod.mk.inj hrun).2
    exact ⟨f, h, hk, rfl, fun _ _ _ => .inl rfl⟩
  · have hstop : (discard (liftM Message.save : Handling Bool)) c = (.error e, ⟨_, m'⟩) :=
      run_bind_error (liftM_run hsave)
    rw [hstop] at hrun
    exact absurd (congrArg Prod.fst hrun) (by simp)
  · rw [run_discard_ok (liftM_run hsave)] at hrun
    obtain rfl := (Prod.mk.inj hrun).2
    obtain rfl : f.content = bytes := Except.ok.inj (h.content.symm.trans hcontent)
    have hread : readHeader f.content = .ok header := h.header.symm.trans hheader
    rw [hsave] at hknows
    have hknows : m'.Knows k := hknows
    obtain ⟨header', hread', hvalues⟩ := h.own.exists_saved h.plain hread
    have hseen : (m'.sight d').header = .ok header' := hheader'.trans hread'
    have hkeywords : (m'.sight d').keywords = c.sight.keywords ∨
        (m'.sight d').keywords = seenKeywords [] (.ok header') :=
      .inl ((hknows.keywords d').trans (hk.keywords c.office.disk).symm)
    have hplain : (m'.sight d').IsPlain := h.plain.saved hedits hkeywords
    refine ⟨_, ⟨helse.sound, hstands, hcontent', hheader', hplain, ?_⟩, hknows, ?_, ?_⟩
    · intro e he
      have hnone : (m'.sight d').edits = [] := hedits
      rw [show Case.sight ⟨{ c.office with disk := d' }, m'⟩ = m'.sight d' from rfl, hnone] at he
      exact absurd he List.not_mem_nil
    · rw [hentry]
    · intro name hname hforeign
      have hold : c.sight.values name = .ok (header.values name) := by
        rw [Sight.values_of_unedited (h.own.find?_eq_none hforeign), h.header, hread]
        rfl
      have hnew : (m'.sight d').values name = .ok (header'.values name) := by
        have hnone : (m'.sight d').edits = [] := hedits
        rw [Sight.values, hnone, hseen, seenValues_ok]
      rcases hvalues name hname hforeign with hsame | ⟨hhangs, hlost⟩
      · exact .inl (hnew.trans (hsame ▸ hold.symm))
      · exact .inr ⟨hhangs, _, hlost ▸ hold, hnew⟩

/-- Moving to another folder with success keeps what is seen of the message. -/
theorem move_found (hdry : clerk.dryRun = false) (h : c.IsFound place f) {target : Text}
    (hne : c.message.entry.folder.name ≠ target)
    (hrun : clerk.move (some target) c = (.ok (), c')) : ∃ place', c'.IsFound place' f ∧
      c'.message.keywordSet = c.message.keywordSet ∧
      c'.message.entry.folder = clerk.maildir.folder target ∧
      ∀ name, c'.sight.values name = c.sight.values name := by
  have hdest : clerk.maildir.folder target ≠ c.message.entry.folder := by
    intro heq
    exact hne (heq ▸ rfl)
  have hmove : clerk.move (some target) =
      (liftM (Message.moveTo (clerk.maildir.folder target)) : Handling Unit) >>=
        fun _ => Handling.record ("Moved " ++ target) := by
    simp only [Clerk.move, hdry, Bool.not_false, if_true]
  rw [hmove] at hrun
  cases hmoved : Message.moveTo (clerk.maildir.folder target) ⟨c.office.disk, c.message⟩ with
  | mk result desk =>
    cases result with
    | error e =>
      rw [run_bind_error (liftM_run hmoved)] at hrun
      exact absurd (congrArg Prod.fst hrun) (by simp)
    | ok u =>
      rw [run_bind_ok (liftM_run hmoved)] at hrun
      obtain rfl := (Prod.mk.inj hrun).2
      obtain ⟨place', hmessage, hd', hstands⟩ :=
        Message.moveTo_of_ok h.sound h.stands hdest hmoved
      have hread := (hstands.read hd').trans (h.stands.read h.sound).symm
      have hsight : desk.message.sight desk.disk =
          { c.sight with entry := desk.message.entry } := by
        rw [hmessage]
        exact Message.sight_with_entry hread
      refine ⟨place', ⟨hd', ?_, ?_, ?_, ?_, ?_⟩, ?_, ?_, fun name => ?_⟩
      · show desk.message.entry.Stands place' f desk.disk
        rw [hmessage]
        exact hstands
      · exact (congrArg Sight.content hsight).trans h.content
      · exact (congrArg Sight.header hsight).trans h.header
      · show (desk.message.sight desk.disk).IsPlain
        rw [hsight]
        exact h.plain.moved _
      · show (desk.message.sight desk.disk).WritesNoForeign
        rw [hsight]
        exact h.own
      · show desk.message.keywordSet = _
        rw [hmessage]
      · show desk.message.entry.folder = _
        rw [hmessage]
      · show (desk.message.sight desk.disk).values name = _
        rw [hsight]
        rfl

/-! ## The whole rule -/

/-- A rule that moves a message to another folder and is carried out with success leaves the
message there, with its fields kept and its keywords remembered. -/
theorem apply_found (hdry : clerk.dryRun = false) (h : c.IsFound place f) (hk : c.Knows k)
    (hlabel : ∀ l ∈ r.label, '\n' ∉ l) (hforward : ∀ m ∈ r.forward, '\n' ∉ m.email)
    {target : Text} (htarget : r.moveTo = some target)
    (hne : c.message.entry.folder.name ≠ target) (hrun : clerk.apply r c = (.ok (), c')) :
    ∃ place' f', c'.IsFound place' f' ∧ c'.Knows (r.relabel k) ∧
      c'.message.entry.folder = clerk.maildir.folder target ∧
      c.sight.KeepsForeign f.content c'.sight := by
  obtain ⟨c₁, hrelabel, hfound₁, hsight₁⟩ := relabel_found h (hk.keywords _) hlabel
  have hknows₁ := knows_relabel hk hrelabel
  obtain ⟨c₂, hpass, hfound₂, hentry₂, hvalues₂⟩ := passOn_found hdry hforward hfound₁
  have hknows₂ : c₂.Knows (r.relabel k) := by
    have hkept := keeps_passOn clerk r.forward c₁ hknows₁
    rw [hpass] at hkept
    exact hkept
  rw [apply_eq, run_bind_ok hrelabel, run_bind_ok hpass, htarget] at hrun
  cases hsave : clerk.save c₂ with
  | mk result c₃ =>
    cases result with
    | error e =>
      rw [run_bind_error hsave] at hrun
      exact absurd (congrArg Prod.fst hrun) (by simp)
    | ok u =>
      rw [run_bind_ok hsave] at hrun
      obtain ⟨f', hfound₃, hknows₃, hfolder₃, hkept⟩ := save_found hdry hfound₂ hknows₂ hsave
      have hfolder : c₃.message.entry.folder = c.message.entry.folder := by
        have hentry₁ : c₁.message.entry = c.message.entry := congrArg Sight.entry hsight₁
        have hentry₂ : c₂.message.entry = c₁.message.entry := hentry₂
        rw [hfolder₃, hentry₂, hentry₁]
      obtain ⟨place', hfound', hset, hfolder', hvalues'⟩ :=
        move_found hdry hfound₃ (hfolder ▸ hne) hrun
      refine ⟨place', f', hfound', hset.trans hknows₃, hfolder', ?_⟩
      refine hkept.congr (fun name hname => ?_) fun name _ => hvalues' name
      rw [hvalues₂ name hname, hsight₁, values_relabeled hname.1]

end Clerk

end Mailroom
