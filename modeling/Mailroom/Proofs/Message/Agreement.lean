import Mailroom.Proofs.Clerk.Recognition
import Mailroom.Proofs.Message.Standing

/-!
# Keywords in memory and on the disk

The keywords of a message are remembered apart from its header block and from the new values that
are to be written, and saving does not forget them.  Whatever was done to them before, and whether
or not it succeeded, they are those that the file gives when the message was saved.

* `KeywordSession` are the states that a message and the disk come to while keywords are changed,
  the message is saved and moved, and others change anything but its file.
* `KeywordSession.Keeps` is what such steps keep: `keeps_run` takes any step.
* `KeywordSession.keywords_agree` compares what is remembered with what is read.
-/

namespace Mailroom

/-! ## Steps -/

/-- What may be done to a message whose keywords are worked on. -/
inductive KeywordStep where
  /-- Keywords are added. -/
  | add (names : List Text)
  /-- Keywords are removed. -/
  | remove (names : List Text)
  /-- The keyword field is brought into the form in which it is written. -/
  | tidy
  /-- The message is saved. -/
  | save
  /-- The message is moved. -/
  | move (dest : Folder)

namespace KeywordStep

/-- Takes a step. -/
def run : KeywordStep → Editing Unit
  | add names => discard (Reading.toEditing (Message.addKeywords names))
  | remove names => discard (Reading.toEditing (Message.removeKeywords names))
  | tidy => discard (Reading.toEditing Message.tidyKeywords)
  | save => discard Message.save
  | move dest => Message.moveTo dest

/-- Whether every keyword of a step is one token. -/
def IsClean : KeywordStep → Prop
  | add names | remove names => ∀ n ∈ names, IsToken n
  | tidy | save | move _ => True

end KeywordStep

/-- The states of a message that was taken up and of the disk, while its keywords are worked on
and nobody else changes its file.  A step may fail. -/
inductive KeywordSession (d : Disk) (e : Entry) : Desk → Prop where
  /-- The message is taken up. -/
  | start : KeywordSession d e ⟨d, .ofEntry e⟩
  /-- A step is taken. -/
  | step {desk : Desk} (s : KeywordStep) (h : KeywordSession d e desk) (hs : s.IsClean) :
      KeywordSession d e (s.run desk).2
  /-- Others change the disk, but not the file of the message. -/
  | others {desk : Desk} {d' : Disk} (h : KeywordSession d e desk) (hd' : d'.Sound)
      (hread : desk.message.entry.read d' = desk.message.entry.read desk.disk) :
      KeywordSession d e ⟨d', desk.message⟩

/-! ## Tidying -/

namespace Message

variable {d : Disk} {m : Message} {k : Keywords}

/-- Keywords that were asked for are remembered. -/
theorem keywords_run (hk : (m.sight d).keywords = .ok k) :
    ∃ m', keywords d m = (.ok k, m') ∧ m'.sight d = m.sight d ∧ m'.keywordSet = some k := by
  obtain ⟨hvalue, hsight⟩ := reads_keywords d m
  rw [hk] at hvalue
  cases hset : m.keywordSet with
  | some k' =>
    have hrun := keywords_of_remembered hset d
    rw [hrun] at hvalue
    obtain rfl := Except.ok.inj hvalue
    exact ⟨m, hrun, rfl, hset⟩
  | none =>
    have hrun := keywords_of_unread hset d
    cases htext : keywordText d m with
    | mk result m₁ =>
      cases result with
      | error e =>
        rw [hrun, run_bind_error htext] at hvalue
        exact absurd hvalue (by simp)
      | ok t =>
        rw [run_bind_ok htext] at hrun
        rw [hrun] at hvalue hsight
        obtain rfl := Except.ok.inj hvalue
        exact ⟨_, hrun, hsight, rfl⟩

/-- Staging keywords that are remembered gives the field the value that is written for them. -/
theorem sight_stageKeywords (hk : m.keywordSet = some k) :
    (stageKeywords m).sight d = (m.sight d).withKeywords (k, true) := by
  simp only [stageKeywords, setField, sight, Sight.withKeywords, hk]
  rfl

/-- Whether keywords stand in their field as they are written. -/
def IsCanonical (vs : List Text) (k : Keywords) : Prop :=
  Text.trim (Text.join ", " vs) = k.render ∧ vs.length ≤ 1

instance (vs : List Text) (k : Keywords) : Decidable (IsCanonical vs k) :=
  inferInstanceAs (Decidable (_ ∧ _))

/-- Tidying keywords that can be read changes nothing that is seen, if they stand in their field as
they are written, and else gives the field the value that is written for them. -/
theorem tidyKeywords_run (hk : (m.sight d).keywords = .ok k) {vs : List Text}
    (hvs : (m.sight d).values Keywords.fieldName = .ok vs) :
    ∃ changed m', tidyKeywords d m = (.ok changed, m') ∧
      ((IsCanonical vs k ∧ m'.sight d = m.sight d) ∨
        (¬ IsCanonical vs k ∧ m'.sight d = (m.sight d).withKeywords (k, true))) := by
  obtain ⟨htext, hsight₁⟩ := reads_keywordText d m
  simp only [hvs, bind, Except.bind] at htext
  cases hrun₁ : keywordText d m with
  | mk result m₁ =>
    rw [hrun₁] at htext hsight₁
    obtain rfl : result = .ok (Text.join ", " vs) := htext
    obtain ⟨m₂, hrun₂, hsight₂, hset⟩ := keywords_run (d := d) (m := m₁) (hsight₁ ▸ hk)
    have hseen₂ := hsight₂.trans hsight₁
    have hsplit : tidyKeywords d m = (if Text.trim (Text.join ", " vs) == k.render then do
          if (← fieldValues Keywords.fieldName).length ≤ 1 then return false
          modify stageKeywords
          return true
        else do
          modify stageKeywords
          return true : Reading Bool) d m₂ := by
      refine (run_bind_ok hrun₁).trans ((run_bind_ok hrun₂).trans ?_)
      dsimp only
      split <;> rfl
    rw [hsplit]
    split
    · -- the field is in its form, but there may be several of them
      rename_i hform
      obtain ⟨hvalues, hsight₃⟩ := reads_fieldValues Keywords.fieldName d m₂
      have hkept := keeps_fieldValues (I := fun x => x.keywordSet = some k) (fun _ _ h => h)
        (fun _ _ h => h) d Keywords.fieldName m₂ hset
      cases hrun₃ : fieldValues Keywords.fieldName d m₂ with
      | mk result m₃ =>
        rw [hrun₃] at hvalues hsight₃ hkept
        rw [hseen₂] at hvalues
        obtain rfl : result = .ok vs := hvalues.trans hvs
        by_cases hone : vs.length ≤ 1
        · refine ⟨false, m₃, (run_bind_ok hrun₃).trans ?_,
            Or.inl ⟨⟨beq_iff_eq.1 hform, hone⟩, hsight₃.trans hseen₂⟩⟩
          simp only [if_pos hone]
          rfl
        · refine ⟨true, stageKeywords m₃, (run_bind_ok hrun₃).trans ?_,
            Or.inr ⟨fun hcanonical => hone hcanonical.2, (sight_stageKeywords hkept).trans ?_⟩⟩
          · simp only [if_neg hone]
            rfl
          · rw [hsight₃, hseen₂]
    · rename_i hform
      refine ⟨true, stageKeywords m₂, rfl, Or.inr ⟨fun hcanonical => hform ?_,
        (sight_stageKeywords hset).trans ?_⟩⟩
      · exact beq_iff_eq.2 hcanonical.1
      · rw [hseen₂]

end Message

/-! ## What a session keeps -/

/-- A message with a file, whose keywords are those of the file or are to be written. -/
structure KeywordSession.Keeps (desk : Desk) : Prop where
  /-- The disk is sound. -/
  sound : desk.disk.Sound
  /-- The message stands somewhere, and is seen as it is in its file. -/
  file : ∃ r f, desk.message.entry.Stands r f desk.disk ∧
    (desk.message.sight desk.disk).content = .ok f.content ∧
    (desk.message.sight desk.disk).header = readHeader f.content ∧
    KeepsKeywords f.content ∧ ∃ header, readHeader f.content = .ok header
  /-- The keywords read back, and are to be written if they are not those of the file. -/
  staged : ∃ k : Keywords, k.IsClean ∧ (desk.message.sight desk.disk).IsStaged k

namespace KeywordSession.Keeps

variable {desk : Desk}

/-- Steps that change nothing of the disk, of the entry and of the file in sight. -/
theorem of_sight (h : Keeps desk) {m' : Message} {k : Keywords}
    (hentry : (m'.sight desk.disk).entry = (desk.message.sight desk.disk).entry)
    (hcontent : (m'.sight desk.disk).content = (desk.message.sight desk.disk).content)
    (hheader : (m'.sight desk.disk).header = (desk.message.sight desk.disk).header)
    (hclean : k.IsClean) (hstaged : (m'.sight desk.disk).IsStaged k) :
    Keeps ⟨desk.disk, m'⟩ := by
  obtain ⟨r, f, hstands, hc, hh, hkeeps, hparses⟩ := h.file
  have hstands' : m'.entry.Stands r f desk.disk := by
    have heq : m'.entry = desk.message.entry := hentry
    rw [heq]
    exact hstands
  exact ⟨h.sound, ⟨r, f, hstands', hcontent.trans hc, hheader.trans hh, hkeeps, hparses⟩,
    k, hclean, hstaged⟩

/-- A message that is seen as before. -/
theorem of_same (h : Keeps desk) {m' : Message}
    (hsight : m'.sight desk.disk = desk.message.sight desk.disk) : Keeps ⟨desk.disk, m'⟩ := by
  obtain ⟨k, hclean, hstaged⟩ := h.staged
  exact h.of_sight (congrArg Sight.entry hsight) (congrArg Sight.content hsight)
    (congrArg Sight.header hsight) hclean (hsight ▸ hstaged)

/-- A message of which nothing is seen to change but the keywords. -/
theorem of_withKeywords (h : Keeps desk) {m' : Message} {change : Keywords × Bool}
    (hsight : m'.sight desk.disk = (desk.message.sight desk.disk).withKeywords change)
    (hclean : change.1.IsClean)
    (hstaged : ((desk.message.sight desk.disk).withKeywords change).IsStaged change.1) :
    Keeps ⟨desk.disk, m'⟩ := by
  refine h.of_sight ?_ ?_ ?_ hclean (hsight ▸ hstaged)
  · rw [hsight]
    rfl
  · rw [hsight]
    rfl
  · rw [hsight]
    rfl

/-- The values of the keyword field can be read. -/
theorem exists_values (h : Keeps desk) :
    ∃ vs, (desk.message.sight desk.disk).values Keywords.fieldName = .ok vs := by
  obtain ⟨r, f, -, -, hheader, -, header, hread⟩ := h.file
  simp only [Sight.values, seenValues, hheader, hread]
  cases (desk.message.sight desk.disk).edits.find? _ with
  | some e => exact ⟨_, rfl⟩
  | none => exact ⟨_, rfl⟩

theorem changeKeywords (h : Keeps desk) (change : Keywords → Keywords × Bool)
    (hsame : ∀ k, (change k).2 = false → (change k).1 = k)
    (hclean : ∀ k : Keywords, k.IsClean → (change k).1.IsClean) :
    Keeps ((discard (Reading.toEditing (Message.changeKeywords change)) : Editing Unit) desk).2 := by
  obtain ⟨k, hk, hstaged⟩ := h.staged
  obtain ⟨m', hrun, hsight⟩ := Message.changeKeywords_run change hstaged.keywords
  have hlook : (Message.changeKeywords change).toEditing desk =
      (.ok (change k).2, ⟨desk.disk, m'⟩) := by
    rw [Message.toEditing_run, hrun]
  rw [run_discard_ok hlook]
  exact h.of_withKeywords hsight (hclean k hk) (hstaged.withKeywords (hsame k))

theorem tidy (h : Keeps desk) :
    Keeps ((discard (Reading.toEditing Message.tidyKeywords) : Editing Unit) desk).2 := by
  obtain ⟨k, hk, hstaged⟩ := h.staged
  obtain ⟨vs, hvs⟩ := h.exists_values
  obtain ⟨changed, m', hrun, hsight⟩ := Message.tidyKeywords_run hstaged.keywords hvs
  have hlook : Message.tidyKeywords.toEditing desk = (.ok changed, ⟨desk.disk, m'⟩) := by
    rw [Message.toEditing_run, hrun]
  rw [run_discard_ok hlook]
  rcases hsight with ⟨-, hsight⟩ | ⟨-, hsight⟩
  · exact h.of_same hsight
  · exact h.of_withKeywords hsight hk (hstaged.withKeywords fun hno => absurd hno (by simp))

/-- Saving fails and changes nothing that is seen, or what is seen is kept with nothing left to be
written. -/
theorem save (h : Keeps desk) :
    (∃ e desk', Message.save desk = (.error e, desk') ∧ Keeps desk') ∨
    ∃ changed desk', Message.save desk = (.ok changed, desk') ∧ Keeps desk' ∧
      desk'.message.edits = [] := by
  obtain ⟨d, m⟩ := desk
  obtain ⟨r, f, hstands, hc, hh, -⟩ := h.file
  rcases Message.save_of_stands h.sound hstands with ⟨hedits, hsave⟩ | ⟨e, m', hsave, hsight, -⟩ |
    ⟨bytes, header, d', m', id, hcontent, hheader, hsave, helse, -, hstands', hedits, hcontent',
      hheader', hkeywords, -, hdirty⟩
  · exact Or.inr ⟨false, _, hsave, h, hedits⟩
  · exact Or.inl ⟨e, _, hsave, h.of_same hsight⟩
  -- the keywords read back from what was written
  obtain rfl : f.content = bytes := Except.ok.inj (hc.symm.trans hcontent)
  have hread : readHeader f.content = .ok header := hh.symm.trans hheader
  obtain ⟨k, hk, hstaged⟩ := h.staged
  obtain ⟨header', hread', hopening, hparse, -⟩ := exists_written (f := f) hstaged hk hread hh hdirty
  have hwritten : readHeader (revise f.content header.bodyOffset m.edits) = .ok header' := hread'
  have hseen : seenKeywords [] (readHeader (revise f.content header.bodyOffset m.edits)) =
      .ok k := by
    rw [hwritten, seenKeywords_ok, hparse]
  refine Or.inr ⟨true, _, hsave, ⟨helse.sound, ⟨r, _, hstands', hcontent', hheader', ?_, header',
    hwritten⟩, k, hk, ?_, Or.inl ⟨hedits, ?_⟩⟩, hedits⟩
  · intro header'' hread''
    obtain rfl := Except.ok.inj (hwritten.symm.trans hread'')
    exact hopening
  · rcases hkeywords with hsame | hsame
    · exact hsame.trans hstaged.keywords
    · exact hsame.trans hseen
  · rw [hheader']
    exact hseen

theorem move (h : Keeps desk) (dest : Folder) : Keeps (Message.moveTo dest desk).2 := by
  obtain ⟨d, m⟩ := desk
  obtain ⟨r, f, hstands, hc, hh, hkeeps, hparses⟩ := h.file
  obtain ⟨r', d', entry, hmoved, hd', hstands'⟩ := Message.moveTo_stands h.sound hstands dest
  rw [hmoved]
  -- what is read of the file is what was read of it before
  have hsight : { m with entry := entry }.sight d' = { m.sight d with entry := entry } :=
    Message.sight_with_entry ((hstands'.read hd').trans (hstands.read h.sound).symm)
  obtain ⟨k, hk, hstaged⟩ := h.staged
  refine ⟨hd', ⟨r', f, hstands', ?_, ?_, hkeeps, hparses⟩, k, hk, ?_⟩
  · rw [hsight]
    exact hc
  · rw [hsight]
    exact hh
  · rw [hsight]
    exact ⟨hstaged.keywords, hstaged.edits⟩

/-- Every step keeps it, whether or not it succeeds. -/
theorem keeps_run (h : Keeps desk) {s : KeywordStep} (hs : s.IsClean) : Keeps (s.run desk).2 := by
  cases s with
  | add names =>
    exact h.changeKeywords (·.insertAll names) (fun k => Keywords.insertAll_eq_self k names)
      fun k hk => hk.insertAll hs
  | remove names =>
    exact h.changeKeywords (·.eraseAll names) (fun k => Keywords.eraseAll_eq_self k names)
      fun k hk => hk.eraseAll names
  | tidy => exact h.tidy
  | save =>
    rcases h.save with ⟨e, desk', hsave, hkept⟩ | ⟨changed, desk', hsave, hkept, -⟩
    · have hdiscard : (discard Message.save : Editing Unit) desk = (.error e, desk') :=
        run_bind_error hsave
      rw [KeywordStep.run, hdiscard]
      exact hkept
    · rw [KeywordStep.run, run_discard_ok hsave]
      exact hkept
  | move dest => exact h.move dest

/-- Others may do anything that leaves the file as it is. -/
theorem others (h : Keeps desk) {d' : Disk} (hd' : d'.Sound)
    (hread : desk.message.entry.read d' = desk.message.entry.read desk.disk) :
    Keeps ⟨d', desk.message⟩ := by
  obtain ⟨r, f, hstands, hc, hh, hkeeps, hparses⟩ := h.file
  have hsight : desk.message.sight d' = desk.message.sight desk.disk := Message.sight_congr hread
  obtain ⟨r', g, hstands', hcontent⟩ := hstands.of_read h.sound hread
  obtain ⟨k, hk, hstaged⟩ := h.staged
  refine ⟨hd', ⟨r', g, hstands', ?_⟩, k, hk, ?_⟩
  · rw [hsight, hcontent]
    exact ⟨hc, hh, hkeeps, hparses⟩
  · show (desk.message.sight d').IsStaged k
    rw [hsight]
    exact hstaged

/-- It holds of a message that was just taken up. -/
theorem ofEntry {d : Disk} {e : Entry} (hd : d.Sound) (hname : IsName e.name) {content : Bytes}
    (hread : d.read e.path = .ok content) {header : Header}
    (hheader : Header.read content = .ok header) (hkeeps : KeepsKeywords content) :
    Keeps ⟨d, .ofEntry e⟩ := by
  obtain ⟨r, f, hstands, rfl⟩ := Entry.exists_stands_of_read hname hread
  have hparses : readHeader f.content = .ok header := readHeader_eq_ok_iff.2 hheader
  have hsight := Message.sight_ofEntry_of_stands hd hstands
  have hseen : ∃ k, seenKeywords [] (readHeader f.content) = .ok k :=
    ⟨_, by rw [hparses]; rfl⟩
  obtain ⟨k, hk⟩ := hseen
  refine ⟨hd, ⟨r, f, hstands, ?_⟩, k, (hkeeps.exists_header hk).1, ?_⟩
  · rw [hsight]
    exact ⟨rfl, rfl, hkeeps, header, hparses⟩
  · rw [hsight]
    exact ⟨hk, Or.inl ⟨rfl, hk⟩⟩

end KeywordSession.Keeps

/-! ## The sessions -/

namespace KeywordSession

variable {d : Disk} {e : Entry} {desk desk' : Desk}

/-- Any number of steps may be taken. -/
theorem steps (h : KeywordSession d e desk) {ss : List KeywordStep} (hss : ∀ s ∈ ss, s.IsClean) :
    KeywordSession d e (ss.foldl (fun desk s => (s.run desk).2) desk) := by
  induction ss generalizing desk with
  | nil => exact h
  | cons s ss ih => exact ih (h.step s (hss s (by simp))) fun s hs => hss s (by simp [hs])

theorem keeps (h : KeywordSession d e desk) (hstart : Keeps ⟨d, .ofEntry e⟩) : Keeps desk := by
  induction h with
  | start => exact hstart
  | step s _ hs ih => exact ih.keeps_run hs
  | others _ hd' hread ih => exact ih.others hd' hread

/-- Right after a message was saved, its keywords are those that it gives when it is taken up anew
at its place, and nothing is left to be written. -/
theorem keywords_agree (hd : d.Sound) (hname : IsName e.name) {content : Bytes}
    (hread : d.read e.path = .ok content) {header : Header}
    (hheader : Header.read content = .ok header) (hkeeps : KeepsKeywords content)
    (h : KeywordSession d e desk) {changed : Bool}
    (hsave : Message.save desk = (.ok changed, desk')) :
    ∃ k, (Message.keywords desk'.disk desk'.message).1 = .ok k ∧
      (∀ x : Entry, x.path = desk'.message.entry.path →
        (Message.keywords desk'.disk (.ofEntry x)).1 = .ok k) ∧
      desk'.message.isDirty = false := by
  rcases (h.keeps (.ofEntry hd hname hread hheader hkeeps)).save with
    ⟨e', x, hfails, -⟩ | ⟨changed', x, hsaves, hkept, hedits⟩
  · exact absurd (congrArg Prod.fst (hfails.symm.trans hsave)) (by simp)
  obtain rfl : x = desk' := congrArg Prod.snd (hsaves.symm.trans hsave)
  obtain ⟨r, f, hstands, hc, hh, -⟩ := hkept.file
  obtain ⟨k, -, hstaged⟩ := hkept.staged
  refine ⟨k, ?_, fun y hy => ?_, ?_⟩
  · rw [(Message.reads_keywords _ _).1]
    exact hstaged.keywords
  · -- nothing is to be written, so the keywords are those of the header block
    have hseen : seenKeywords [] (readHeader f.content) = .ok k := by
      rcases hstaged.edits with ⟨-, hseen⟩ | hwritten
      · rw [← hh]
        exact hseen
      · exact absurd (hwritten.symm.trans hedits) (by simp)
    have hfile : y.read x.disk = .ok f.content := by
      rw [Entry.read, hy]
      exact hstands.read hkept.sound
    rw [(Message.reads_keywords _ _).1]
    simp only [Message.ofEntry, Message.sight, hfile]
    exact hseen
  · rw [Message.isDirty, hedits]
    rfl

end KeywordSession

/-! ### A message that could not be saved at first -/

/-- A message gets a label, is moved to a folder where nothing can be written, cannot be saved
there, and is moved back. -/
def returnedSteps : List KeywordStep :=
  [.add ["a"], .move ⟨[], "work"⟩, .save, .move ⟨[], "INBOX"⟩]

/-- The message and the disk after that. -/
def returnedDesk : Desk :=
  returnedSteps.foldl (fun desk s => (s.run desk).2)
    ⟨sampleDisk, .ofEntry (sampleSlot.entry [])⟩

theorem returned_keywords_agree : ∃ desk', Message.save returnedDesk = (.ok true, desk') ∧
    (Message.keywords desk'.disk (.ofEntry desk'.message.entry)).1 = .ok (.ofList ["a"]) ∧
    desk'.message.isDirty = false := by
  have hparses : (Header.read sampleLetter).toBool = true := by decide +kernel
  have hsaves : (Message.save returnedDesk).1.toOption = some true := by decide +kernel
  have hremembered : (Message.keywords (Message.save returnedDesk).2.disk
      (Message.save returnedDesk).2.message).1 = .ok (.ofList ["a"]) := by decide +kernel
  have hsession : KeywordSession sampleDisk (sampleSlot.entry []) returnedDesk := by
    refine KeywordSession.start.steps fun s hs => ?_
    simp only [returnedSteps, List.mem_cons, List.not_mem_nil, or_false] at hs
    have htoken : ∀ n ∈ [("a" : Text)], IsToken n := by decide
    rcases hs with rfl | rfl | rfl | rfl
    · exact htoken
    · trivial
    · trivial
    · trivial
  cases hread : Header.read sampleLetter with
  | error e => simp [hread, Except.toBool] at hparses
  | ok header =>
    cases hsave : Message.save returnedDesk with
    | mk result desk' =>
      rw [hsave] at hsaves hremembered
      cases result with
      | error e => exact absurd hsaves (by simp [Except.toOption])
      | ok changed =>
        obtain rfl : changed = true := Option.some.inj hsaves
        have hfile : sampleDisk.read (sampleSlot.entry []).path = .ok sampleLetter := by
          rw [Slot.path_entry]
          exact read_sampleDisk
        obtain ⟨k, hk, hfresh, hclean⟩ := KeywordSession.keywords_agree sound_sampleDisk
          (by rw [Slot.name_entry]; exact sampleSlot.isName_name) hfile hread
          keepsKeywords_sampleLetter hsession hsave
        obtain rfl := Except.ok.inj (hk.symm.trans hremembered)
        exact ⟨desk', rfl, hfresh _ rfl, hclean⟩

end Mailroom
