import Mailroom.Proofs.Message.Agreement

/-!
# Keywords that are up to date

The keywords of a message are remembered once they were asked for, and the keyword field can be
given a new value apart from that.  Whatever is done to a message, the keywords are those that its
keyword field gives, if the field gets no other keywords while some are remembered, and if every new
value is written on a line that is taken for the field that it is meant for.

* `MessageStep` is anything that can be done to a message, and `Message.Admits` says which new
  values may be given.
* `Sight.IsUpToDate` is what every step keeps: `MessageSession.keeps_run`.
* `Message.keywords_setField_iff` says when giving a new value leaves the keywords behind, and
  `MessageSession.keywords_up_to_date` is the result.
-/

namespace Mailroom

/-! ## Steps -/

/-- What may be done to a message. -/
inductive MessageStep where
  /-- The first value of a field is asked for. -/
  | field (name : Text)
  /-- All values of a field are asked for. -/
  | values (name : Text)
  /-- The keywords are asked for. -/
  | keywords
  /-- It is asked whether all of some keywords are present. -/
  | hasAll (names : List Text)
  /-- It is asked whether none of some keywords is present. -/
  | hasNone (names : List Text)
  /-- A field is given a new value. -/
  | set (name value : Text)
  /-- The keywords are worked on, or the message is saved or moved. -/
  | work (s : KeywordStep)

/-- Whether a message may be given a new value of a field. -/
structure Message.Admits (m : Message) (e : Field) : Prop where
  /-- It is written on a line of its own. -/
  line : e.IsLine
  /-- This is the line of a keyword field only if the value is meant for one. -/
  found : Text.sameName e.foundName Keywords.fieldName = true →
    Text.sameName e.name Keywords.fieldName = true
  /-- A value for the keyword field reads back. -/
  back : Text.sameName e.name Keywords.fieldName = true → ReadsBack e.value
  /-- It gives the keywords that are remembered, if there are any. -/
  keywords : Text.sameName e.name Keywords.fieldName = true →
    ∀ k, m.keywordSet = some k → Keywords.parse e.value = k

namespace MessageStep

/-- Takes a step. -/
def run : MessageStep → Editing Unit
  | field name => discard (Reading.toEditing (Message.field? name))
  | values name => discard (Reading.toEditing (Message.fieldValues name))
  | keywords => discard (Reading.toEditing Message.keywords)
  | hasAll names => discard (Reading.toEditing (Message.hasAll names))
  | hasNone names => discard (Reading.toEditing (Message.hasNone names))
  | set name value => modifyThe Desk fun desk =>
      { desk with message := desk.message.setField name value }
  | work s => s.run

/-- Whether a step may be taken with a message. -/
def MayFollow (m : Message) : MessageStep → Prop
  | set name value => m.Admits ⟨name, value⟩
  | work s => s.IsClean
  | field _ | values _ | keywords | hasAll _ | hasNone _ => True

end MessageStep

/-- The states of a message that was taken up and of the disk, while anything is done to the message
and nobody else changes its file.  A step may fail. -/
inductive MessageSession (d : Disk) (e : Entry) : Desk → Prop where
  /-- The message is taken up. -/
  | start : MessageSession d e ⟨d, .ofEntry e⟩
  /-- A step is taken. -/
  | step {desk : Desk} (s : MessageStep) (h : MessageSession d e desk)
      (hs : s.MayFollow desk.message) : MessageSession d e (s.run desk).2
  /-- Others change the disk, but not the file of the message. -/
  | others {desk : Desk} {d' : Disk} (h : MessageSession d e desk) (hd' : d'.Sound)
      (hread : desk.message.entry.read d' = desk.message.entry.read desk.disk) :
      MessageSession d e ⟨d', desk.message⟩

/-! ## What is seen of the keywords -/

/-- An empty value more or less makes no difference to the keywords. -/
theorem Keywords.parse_of_settlesTo {vs vs' : List Text} (h : SettlesTo vs vs') :
    Keywords.parse (Text.join ", " vs') = Keywords.parse (Text.join ", " vs) := by
  have hwords : ∀ ts : List Text, keywordTokens (Text.join ", " ts) =
      ts.flatMap (Text.words isTokenBreak) := fun ts => Text.words_join (by decide) (by decide) ts
  rcases h with rfl | rfl
  · rfl
  · rw [Keywords.parse, Keywords.parse, hwords, hwords, List.flatMap_append]
    simp

/-- A new value is the only one that is seen of its field. -/
theorem seenValues_withField {name other : Text} (hname : Text.sameName name other = true)
    (edits : List Field) (value : Text) (header : Except Error Header) :
    seenValues (withField edits name value) header other =
      .ok (if value.isEmpty then [] else [value]) := by
  have hsame : (fun e : Field => Text.sameName e.name other) =
      fun e => Text.sameName e.name name := by
    funext e
    exact (sameName_congr hname e.name).symm
  rw [seenValues, hsame, find?_withField_self]

theorem seenKeywords_withField {name : Text} (hname : Text.sameName name Keywords.fieldName = true)
    (edits : List Field) (value : Text) (header : Except Error Header) :
    seenKeywords (withField edits name value) header = .ok (Keywords.parse value) := by
  rw [seenKeywords, seenValues_withField hname, Except.map, join_values]

/-- After the keyword field was given a new value, the keywords are those that it gives exactly if
none are remembered, or these. -/
theorem Message.keywords_setField_iff {d : Disk} {m : Message} {name : Text}
    (hname : Text.sameName name Keywords.fieldName = true) (value : Text) :
    (keywords d (m.setField name value)).1 = .ok (Keywords.parse value) ↔
      ∀ k, m.keywordSet = some k → Keywords.parse value = k := by
  have hedits : (m.setField name value).edits = withField m.edits name value := rfl
  have hset : (m.setField name value).keywordSet = m.keywordSet := rfl
  rw [(reads_keywords _ _).1]
  simp only [sight, hset]
  cases m.keywordSet with
  | none =>
    simp only [hedits, seenKeywords_withField hname]
    simp
  | some k => simp [eq_comm]

/-- What is seen of a message whose keywords are those that its keyword field gives, and stay so
when the new values are written. -/
structure Sight.IsUpToDate (f : File) (v : Sight) : Prop where
  /-- The content is that of the file. -/
  content : v.content = .ok f.content
  /-- The header block is that of the file. -/
  header : v.header = readHeader f.content
  /-- It can be read. -/
  parses : ∃ header, readHeader f.content = .ok header
  /-- Nothing in the keyword fields of the file looks like an encoded word. -/
  keeps : KeepsKeywords f.content
  /-- Every new value is written on a line of its own. -/
  lines : ∀ e ∈ v.edits, e.IsLine
  /-- This is the line of a keyword field only if the value is meant for one. -/
  found : ∀ e ∈ v.edits, Text.sameName e.foundName Keywords.fieldName = true →
    Text.sameName e.name Keywords.fieldName = true
  /-- A new value of the keyword field reads back. -/
  back : ∀ e ∈ v.edits, Text.sameName e.name Keywords.fieldName = true → ReadsBack e.value
  /-- No field gets two new values. -/
  distinct : v.edits.Pairwise (fun a b => Text.sameName a.name b.name = false)
  /-- The keywords are those that the keyword field gives. -/
  keywords : v.keywords = seenKeywords v.edits v.header

namespace Sight.IsUpToDate

variable {f : File} {v v' : Sight}

/-- Nothing looks like an encoded word in what is seen of the keyword field, and the keywords are
what it gives. -/
theorem exists_values (h : v.IsUpToDate f) : ∃ vs, v.values Keywords.fieldName = .ok vs ∧
    (∀ x ∈ vs, ¬ HasOpening x) ∧ v.keywords = .ok (Keywords.parse (Text.join ", " vs)) := by
  obtain ⟨header, hread⟩ := h.parses
  have hkeywords := h.keywords
  rw [h.header, hread] at hkeywords
  simp only [Sight.values, seenKeywords, seenValues, h.header, hread] at hkeywords ⊢
  cases hfind : v.edits.find? (fun e => Text.sameName e.name Keywords.fieldName) with
  | none =>
    rw [hfind] at hkeywords
    exact ⟨_, rfl, h.keeps header hread, hkeywords⟩
  | some e =>
    rw [hfind] at hkeywords
    refine ⟨_, rfl, fun x hx => ?_, hkeywords⟩
    have hback := h.back e (List.mem_of_find?_eq_some hfind)
      (List.find?_some (p := fun e : Field => Text.sameName e.name Keywords.fieldName) hfind)
    split at hx
    · exact absurd hx List.not_mem_nil
    · rw [List.mem_singleton.1 hx]
      exact hback.opening

theorem exists_keywords (h : v.IsUpToDate f) : ∃ k : Keywords, v.keywords = .ok k ∧ k.IsClean := by
  obtain ⟨vs, -, hopening, hk⟩ := h.exists_values
  exact ⟨_, hk, .parse hopening⟩

/-- A message that was just taken up. -/
theorem ofFile (entry : Entry) (hparses : ∃ header, readHeader f.content = .ok header)
    (hkeeps : KeepsKeywords f.content) : (Sight.ofFile entry f.content).IsUpToDate f :=
  ⟨rfl, rfl, hparses, hkeeps, by simp [Sight.ofFile], by simp [Sight.ofFile],
    by simp [Sight.ofFile], List.Pairwise.nil, rfl⟩

/-- A message that is seen with another entry. -/
theorem moved (h : v.IsUpToDate f) (entry : Entry) : { v with entry := entry }.IsUpToDate f :=
  ⟨h.content, h.header, h.parses, h.keeps, h.lines, h.found, h.back, h.distinct, h.keywords⟩

/-- A new value may be given if the keywords are those that the keyword field gives then. -/
theorem of_edits (h : v.IsUpToDate f) {name value : Text}
    (hedits : v'.edits = Mailroom.withField v.edits name value)
    (hcontent : v'.content = v.content) (hheader : v'.header = v.header)
    (hline : Field.IsLine ⟨name, value⟩)
    (hfound : Text.sameName (Field.foundName ⟨name, value⟩) Keywords.fieldName = true →
      Text.sameName name Keywords.fieldName = true)
    (hback : Text.sameName name Keywords.fieldName = true → ReadsBack value)
    (hkeywords : v'.keywords = seenKeywords v'.edits v'.header) : v'.IsUpToDate f := by
  refine ⟨hcontent.trans h.content, hheader.trans h.header, h.parses, h.keeps, fun e he => ?_,
    fun e he => ?_, fun e he => ?_, ?_, hkeywords⟩
  · rw [hedits] at he
    rcases mem_withField he with he | rfl
    · exact h.lines e he
    · exact hline
  · rw [hedits] at he
    rcases mem_withField he with he | rfl
    · exact h.found e he
    · exact hfound
  · rw [hedits] at he
    rcases mem_withField he with he | rfl
    · exact h.back e he
    · exact hback
  · rw [hedits]
    exact pairwise_withField _ _ h.distinct

/-- Changing the keywords gives the field what is written for them, or changes none. -/
theorem withKeywords (h : v.IsUpToDate f) {change : Keywords × Bool} (hclean : change.1.IsClean)
    (hsame : change.2 = false → v.keywords = .ok change.1) :
    (v.withKeywords change).IsUpToDate f := by
  obtain ⟨k, changed⟩ := change
  cases changed with
  | false =>
    have heq : v.withKeywords (k, false) = v := by
      simp only [Sight.withKeywords, Bool.false_eq_true, if_false, ← hsame rfl]
    rw [heq]
    exact h
  | true =>
    have hown : Text.sameName Keywords.fieldName Keywords.fieldName = true := sameName_self _
    have hedits : (v.withKeywords (k, true)).edits =
        Mailroom.withField v.edits Keywords.fieldName k.render := by
      simp [Sight.withKeywords]
    have hback : ReadsBack k.render := hclean.readsBack
    refine h.of_edits hedits rfl rfl ?_ (fun _ => hown) (fun _ => hback) ?_
    · have hname : ∀ c ∈ Keywords.fieldName, c ≠ ':' ∧ isBlank c = false :=
        fun c hc => (isPlainName_keywords.2 c hc).2
      exact Field.IsOneLine.isLine ⟨hname, hback.lineFeed⟩
    · rw [hedits, seenKeywords_withField hown, hclean.parse_render]
      rfl

/-- When the new values were written, the keywords are those that the file gives. -/
theorem saved (h : v.IsUpToDate f) {header : Header} (hread : readHeader f.content = .ok header)
    {g : File} (hg : g.content = revise f.content header.bodyOffset v.edits)
    (hcontent : v'.content = .ok g.content) (hheader : v'.header = readHeader g.content)
    (hedits : v'.edits = [])
    (hkeywords : v'.keywords = v.keywords ∨
      v'.keywords = seenKeywords [] (readHeader g.content)) : v'.IsUpToDate g := by
  obtain ⟨fields, body, hfields, rfl⟩ := Header.read_eq_ok (readHeader_eq_ok_iff.1 hread)
  obtain ⟨fields', hrevised, hvalues⟩ := valuesOf_revise_lines hfields h.lines h.distinct
  generalize hheader' : (⟨fields'.map RawField.decode,
    (revise f.content (f.content.length - body.length) v.edits).length - body.length⟩ : Header) =
      header'
  have hread' : readHeader g.content = .ok header' := by
    rw [hg, readHeader, Header.read, hrevised, ← hheader']
  obtain ⟨vs, hvs, hopening, hk⟩ := h.exists_values
  -- the file has what was seen before, but that an empty value may have gone
  have hsettles : SettlesTo vs (header'.values Keywords.fieldName) := by
    have hname := hvalues _ isPlainName_keywords h.found h.back
    have hnew : header'.values Keywords.fieldName = valuesOf fields' Keywords.fieldName := by
      rw [← hheader']
      rfl
    rw [Sight.values, seenValues, h.header, hread] at hvs
    rw [hnew]
    cases hfind : v.edits.find? (fun e => Text.sameName e.name Keywords.fieldName) with
    | none =>
      rw [hfind] at hname hvs
      obtain rfl := Except.ok.inj hvs
      exact hname.settlesTo
    | some e =>
      rw [hfind] at hname hvs
      obtain rfl := Except.ok.inj hvs
      exact .inl hname
  have hseen : seenKeywords [] (readHeader g.content) = v.keywords := by
    rw [hk, ← Keywords.parse_of_settlesTo hsettles, hread']
    rfl
  refine ⟨hcontent, hheader, ⟨header', hread'⟩, ?_, by simp [hedits], by simp [hedits],
    by simp [hedits], by simp [hedits], ?_⟩
  · intro header'' hread'' x hx
    obtain rfl := Except.ok.inj (hread'.symm.trans hread'')
    exact hopening x (hsettles.mem hx)
  · rw [hedits, hheader]
    rcases hkeywords with hsame | hsame
    · rw [hsame, hseen]
    · exact hsame

end Sight.IsUpToDate

/-! ## What a session keeps -/

/-- A message with a file whose keywords are up to date. -/
structure MessageSession.Keeps (desk : Desk) : Prop where
  /-- The disk is sound. -/
  sound : desk.disk.Sound
  /-- The message stands somewhere, and its keywords are up to date. -/
  file : ∃ r f, desk.message.entry.Stands r f desk.disk ∧
    (desk.message.sight desk.disk).IsUpToDate f

namespace MessageSession.Keeps

variable {desk : Desk}

/-- A message that stands where it stood, and is still up to date. -/
theorem of_sight (h : Keeps desk) {m' : Message}
    (hentry : (m'.sight desk.disk).entry = (desk.message.sight desk.disk).entry)
    (hcurrent : ∀ f, (desk.message.sight desk.disk).IsUpToDate f →
      (m'.sight desk.disk).IsUpToDate f) : Keeps ⟨desk.disk, m'⟩ := by
  obtain ⟨r, f, hstands, hv⟩ := h.file
  have heq : m'.entry = desk.message.entry := hentry
  exact ⟨h.sound, r, f, heq.symm ▸ hstands, hcurrent f hv⟩

/-- Looking at a message leaves it as it is. -/
theorem look {α : Type} {r : Reading α} (hr : Quiet r) (h : Keeps desk) :
    Keeps ((discard (Reading.toEditing r) : Editing Unit) desk).2 := by
  have hsight := hr desk.disk desk.message
  rw [run_discard_snd]
  exact h.of_sight (congrArg Sight.entry hsight) fun f hv => hsight.symm ▸ hv

theorem set (h : Keeps desk) {name value : Text} (hadmits : desk.message.Admits ⟨name, value⟩) :
    Keeps ⟨desk.disk, desk.message.setField name value⟩ := by
  refine h.of_sight rfl fun f hv => ?_
  cases hname : Text.sameName name Keywords.fieldName with
  | false =>
    rw [Message.sight_setField value hname]
    refine hv.of_edits rfl rfl rfl hadmits.line hadmits.found (fun hown => ?_) ?_
    · exact hadmits.back hown
    · have hother : ∀ header,
          seenKeywords (withField (desk.message.sight desk.disk).edits name value) header =
            seenKeywords (desk.message.sight desk.disk).edits header := by
        intro header
        simp only [seenKeywords, seenValues, find?_withField_of_ne _ value hname]
      exact hv.keywords.trans (hother _).symm
  | true =>
    have hedits : ((desk.message.setField name value).sight desk.disk).edits =
        withField (desk.message.sight desk.disk).edits name value := rfl
    refine hv.of_edits hedits rfl rfl hadmits.line hadmits.found (fun hown => hadmits.back hown) ?_
    rw [hedits, seenKeywords_withField hname, ← (Message.reads_keywords _ _).1]
    exact (Message.keywords_setField_iff hname value).2 (hadmits.keywords hname)

theorem changeKeywords (h : Keeps desk) (change : Keywords → Keywords × Bool)
    (hsame : ∀ k, (change k).2 = false → (change k).1 = k)
    (hclean : ∀ k : Keywords, k.IsClean → (change k).1.IsClean) :
    Keeps ((discard (Reading.toEditing (Message.changeKeywords change)) : Editing Unit)
      desk).2 := by
  obtain ⟨r, f, -, hv⟩ := h.file
  obtain ⟨k, hk, hkclean⟩ := hv.exists_keywords
  obtain ⟨m', hrun, hsight⟩ := Message.changeKeywords_run change hk
  rw [run_discard_snd, Message.toEditing_run, hrun]
  refine h.of_sight (by rw [hsight]; rfl) fun g hg => ?_
  rw [hsight]
  exact hg.withKeywords (hclean k hkclean) fun hno => by rw [hsame k hno, hk]

theorem tidy (h : Keeps desk) :
    Keeps ((discard (Reading.toEditing Message.tidyKeywords) : Editing Unit) desk).2 := by
  obtain ⟨r, f, -, hv⟩ := h.file
  obtain ⟨k, hk, hkclean⟩ := hv.exists_keywords
  obtain ⟨vs, hvs, -⟩ := hv.exists_values
  obtain ⟨changed, m', hrun, hsight⟩ := Message.tidyKeywords_run hk hvs
  rw [run_discard_snd, Message.toEditing_run, hrun]
  rcases hsight with ⟨-, hsight⟩ | ⟨-, hsight⟩
  · exact h.of_sight (congrArg Sight.entry hsight) fun g hg => hsight.symm ▸ hg
  · refine h.of_sight (by rw [hsight]; rfl) fun g hg => ?_
    rw [hsight]
    exact hg.withKeywords hkclean fun hno => absurd hno (by simp)

theorem save (h : Keeps desk) : Keeps ((discard Message.save : Editing Unit) desk).2 := by
  obtain ⟨d, m⟩ := desk
  obtain ⟨r, f, hstands, hv⟩ := h.file
  rw [run_discard_snd]
  rcases Message.save_of_stands h.sound hstands with ⟨-, hsave⟩ | ⟨e, m', hsave, hsight, -⟩ |
    ⟨bytes, header, d', m', id, hcontent, hheader, hsave, helse, -, hstands', hedits, hcontent',
      hheader', hkeywords, -⟩
  · rw [hsave]
    exact h
  · rw [hsave]
    exact h.of_sight (congrArg Sight.entry hsight) fun g hg => hsight.symm ▸ hg
  · rw [hsave]
    obtain rfl : f.content = bytes := Except.ok.inj (hv.content.symm.trans hcontent)
    exact ⟨helse.sound, r, _, hstands', hv.saved (hv.header.symm.trans hheader) rfl hcontent' hheader'
      hedits hkeywords⟩

theorem move (h : Keeps desk) (dest : Folder) : Keeps (Message.moveTo dest desk).2 := by
  obtain ⟨d, m⟩ := desk
  obtain ⟨r, f, hstands, hv⟩ := h.file
  obtain ⟨r', d', entry, hmoved, hd', hstands'⟩ := Message.moveTo_stands h.sound hstands dest
  rw [hmoved]
  refine ⟨hd', r', f, hstands', ?_⟩
  have hsight : { m with entry := entry }.sight d' = { m.sight d with entry := entry } :=
    Message.sight_with_entry ((hstands'.read hd').trans (hstands.read h.sound).symm)
  rw [hsight]
  exact hv.moved entry

/-- Every step keeps it, whether or not it succeeds. -/
theorem keeps_run (h : Keeps desk) {s : MessageStep} (hs : s.MayFollow desk.message) :
    Keeps (s.run desk).2 := by
  cases s with
  | field name => exact h.look (Message.reads_field? name).quiet
  | values name => exact h.look (Message.reads_fieldValues name).quiet
  | keywords => exact h.look Message.reads_keywords.quiet
  | hasAll names => exact h.look (Message.reads_hasAll names).quiet
  | hasNone names => exact h.look (Message.reads_hasNone names).quiet
  | set name value => exact h.set hs
  | work s =>
    cases s with
    | add names =>
      exact h.changeKeywords (·.insertAll names) (fun k => Keywords.insertAll_eq_self k names)
        fun k hk => hk.insertAll hs
    | remove names =>
      exact h.changeKeywords (·.eraseAll names) (fun k => Keywords.eraseAll_eq_self k names)
        fun k hk => hk.eraseAll names
    | tidy => exact h.tidy
    | save => exact h.save
    | move dest => exact h.move dest

/-- Others may do anything that leaves the file as it is. -/
theorem others (h : Keeps desk) {d' : Disk} (hd' : d'.Sound)
    (hread : desk.message.entry.read d' = desk.message.entry.read desk.disk) :
    Keeps ⟨d', desk.message⟩ := by
  obtain ⟨r, f, hstands, hv⟩ := h.file
  obtain ⟨r', g, hstands', hcontent⟩ := hstands.of_read h.sound hread
  refine ⟨hd', r', g, hstands', ?_⟩
  show (desk.message.sight d').IsUpToDate g
  rw [Message.sight_congr hread]
  refine ⟨?_, ?_, ?_, ?_, hv.lines, hv.found, hv.back, hv.distinct, hv.keywords⟩
  all_goals rw [hcontent]
  · exact hv.content
  · exact hv.header
  · exact hv.parses
  · exact hv.keeps

/-- It holds of a message that was just taken up. -/
theorem ofEntry {d : Disk} {e : Entry} (hd : d.Sound) (hname : IsName e.name) {content : Bytes}
    (hread : d.read e.path = .ok content) {header : Header}
    (hheader : Header.read content = .ok header) (hkeeps : KeepsKeywords content) :
    Keeps ⟨d, .ofEntry e⟩ := by
  obtain ⟨r, f, hstands, rfl⟩ := Entry.exists_stands_of_read hname hread
  refine ⟨hd, r, f, hstands, ?_⟩
  show ((Message.ofEntry e).sight d).IsUpToDate f
  rw [Message.sight_ofEntry_of_stands hd hstands]
  exact .ofFile e ⟨header, readHeader_eq_ok_iff.2 hheader⟩ hkeeps

end MessageSession.Keeps

/-! ## The sessions -/

namespace MessageSession

variable {d : Disk} {e : Entry} {desk : Desk}

theorem keeps (h : MessageSession d e desk) (hstart : Keeps ⟨d, .ofEntry e⟩) : Keeps desk := by
  induction h with
  | start => exact hstart
  | step s _ hs ih => exact ih.keeps_run hs
  | others _ hd' hread ih => exact ih.others hd' hread

/-- At every point the keywords are those that the values of the keyword field give.  They would be
left behind by a new value of the field exactly if other keywords are remembered. -/
theorem keywords_up_to_date (hd : d.Sound) (hname : IsName e.name) {content : Bytes}
    (hread : d.read e.path = .ok content) {header : Header}
    (hheader : Header.read content = .ok header) (hkeeps : KeepsKeywords content)
    (h : MessageSession d e desk) :
    (∃ vs, (Message.fieldValues Keywords.fieldName desk.disk desk.message).1 = .ok vs ∧
      (Message.keywords desk.disk desk.message).1 =
        .ok (Keywords.parse (Text.join ", " vs))) ∧
    ∀ name value, Text.sameName name Keywords.fieldName = true →
      ((Message.keywords desk.disk (desk.message.setField name value)).1 =
          .ok (Keywords.parse value) ↔
        ∀ k, desk.message.keywordSet = some k → Keywords.parse value = k) := by
  refine ⟨?_, fun name value hown => Message.keywords_setField_iff hown value⟩
  obtain ⟨r, f, -, hv⟩ := (h.keeps (.ofEntry hd hname hread hheader hkeeps)).file
  obtain ⟨vs, hvs, -, hk⟩ := hv.exists_values
  exact ⟨vs, (Message.reads_fieldValues _ _ _).1.trans hvs, (Message.reads_keywords _ _).1.trans hk⟩

end MessageSession

/-! ### A keyword field that is written before and after the keywords are asked for -/

/-- The keyword field gets a value, the keywords are asked for and one is added; a field with a
colon in its name gets a value, and the message is saved. -/
def taggedSteps : List MessageStep :=
  [.set "keywords" "b", .keywords, .work (.add ["a"]), .set "X:y" "v", .work .save]

/-- The message and the disk after that. -/
def taggedDesk : Desk :=
  taggedSteps.foldl (fun desk s => (s.run desk).2) ⟨sampleDisk, .ofEntry (sampleSlot.entry [])⟩

theorem tagged_session : MessageSession sampleDisk (sampleSlot.entry []) taggedDesk := by
  have hfirst : (Message.ofEntry (sampleSlot.entry [])).Admits ⟨"keywords", "b"⟩ := by
    have hline : Field.IsLine ⟨"keywords", "b"⟩ := by decide
    have hback : ReadsBack ("b" : Text) := by decide
    exact ⟨hline, fun _ => rfl, fun _ => hback, fun _ k hk => nomatch hk⟩
  have hother : ∀ m : Message, m.Admits ⟨"X:y", "v"⟩ := by
    intro m
    have hline : Field.IsLine ⟨"X:y", "v"⟩ := by decide
    have hfound : Text.sameName (Field.foundName ⟨"X:y", "v"⟩) Keywords.fieldName = false := by
      decide
    have hname : Text.sameName ("X:y" : Text) Keywords.fieldName = false := by decide
    refine ⟨hline, fun h => ?_, fun h => ?_, fun h => ?_⟩
    · exact absurd (h.symm.trans hfound) (by simp)
    · exact absurd (h.symm.trans hname) (by simp)
    · exact absurd (h.symm.trans hname) (by simp)
  have htoken : ∀ n ∈ [("a" : Text)], IsToken n := by decide
  exact ((((MessageSession.start.step (.set "keywords" "b") hfirst).step .keywords trivial).step
    (.work (.add ["a"])) htoken).step (.set "X:y" "v") (hother _)).step (.work .save) trivial

theorem tagged_keywords_up_to_date :
    (Message.fieldValues Keywords.fieldName taggedDesk.disk taggedDesk.message).1 = .ok ["a, b"] ∧
      (Message.keywords taggedDesk.disk taggedDesk.message).1 = .ok (.ofList ["a", "b"]) ∧
      (Message.keywords taggedDesk.disk (taggedDesk.message.setField "Keywords" "c")).1 ≠
        .ok (Keywords.parse "c") := by
  have hparses : (Header.read sampleLetter).toBool = true := by decide +kernel
  have hvalues : (Message.fieldValues Keywords.fieldName taggedDesk.disk taggedDesk.message).1 =
      .ok ["a, b"] := by decide +kernel
  have hset : taggedDesk.message.keywordSet = some (.ofList ["a", "b"]) := by decide +kernel
  cases hread : Header.read sampleLetter with
  | error e => simp [hread, Except.toBool] at hparses
  | ok header =>
    have hfile : sampleDisk.read (sampleSlot.entry []).path = .ok sampleLetter := by
      rw [Slot.path_entry]
      exact read_sampleDisk
    obtain ⟨⟨vs, hvs, hk⟩, hnew⟩ := MessageSession.keywords_up_to_date sound_sampleDisk
      (by rw [Slot.name_entry]; exact sampleSlot.isName_name) hfile hread
      keepsKeywords_sampleLetter tagged_session
    obtain rfl := Except.ok.inj (hvalues.symm.trans hvs)
    refine ⟨hvalues, hk.trans ?_, fun hfollows => ?_⟩
    · decide +kernel
    · have hsame := (hnew "Keywords" "c" rfl).1 hfollows _ hset
      exact absurd hsame (by decide +kernel)

end Mailroom
