import Mailroom.Header.Field
import Mailroom.Proofs.Header.Written
import Mailroom.Proofs.Text.Pieces
import Mailroom.Proofs.Text.Trim

/-!
# Values that read back

A new value that was written into a header block reads as itself, if nothing in it looks like an
encoded word and it begins and ends with characters that are no blanks.  The values of all other
fields read as before.

* `HasOpening` is what makes a value look like one with encoded words.
* `ReadsBack.decodeFieldText` says that a value of the other kind is taken as it is.
* `values_revise` is the result for all fields of a header block at once.
-/

namespace Mailroom

/-! ## Texts without encoded words -/

/-- Whether the beginning of an encoded word is in a text. -/
def HasOpening (t : Text) : Prop := ['=', '?'] <:+: t

instance (t : Text) : Decidable (HasOpening t) :=
  List.instDecidableIsInfixOfDecidableEq ['=', '?'] t

theorem not_hasOpening_nil : ¬ HasOpening [] := by
  simp [HasOpening]

theorem hasOpening_cons {c : Char} {t : Text} :
    HasOpening (c :: t) ↔ (c = '=' ∧ ∃ u, t = '?' :: u) ∨ HasOpening t := by
  unfold HasOpening
  rw [List.infix_cons_iff, List.cons_prefix_cons]
  constructor
  · rintro (⟨rfl, u, rfl⟩ | h)
    · exact Or.inl ⟨rfl, u, rfl⟩
    · exact Or.inr h
  · rintro (⟨rfl, u, rfl⟩ | h)
    · exact Or.inl ⟨rfl, u, rfl⟩
    · exact Or.inr h

/-- Between two texts stands a character that is no part of an opening. -/
theorem not_hasOpening_append {t u : Text} {c : Char} (ht : ¬ HasOpening t) (hu : ¬ HasOpening u)
    (h₁ : c ≠ '=') (h₂ : c ≠ '?') : ¬ HasOpening (t ++ c :: u) := by
  induction t with
  | nil =>
    intro h
    rcases hasOpening_cons.1 h with ⟨rfl, -⟩ | h
    · exact h₁ rfl
    · exact hu h
  | cons x t ih =>
    rw [hasOpening_cons, not_or] at ht
    intro h
    rcases hasOpening_cons.1 h with ⟨rfl, v, hv⟩ | h
    · cases t with
      | nil => exact h₂ (List.cons.inj hv).1
      | cons y t => exact ht.1 ⟨rfl, t, by rw [(List.cons.inj hv).1]⟩
    · exact ih ht.2 h

theorem not_hasOpening_join {ts : List Text} (h : ∀ t ∈ ts, ¬ HasOpening t) :
    ¬ HasOpening (Text.join ", " ts) := by
  induction ts with
  | nil => exact not_hasOpening_nil
  | cons t ts ih =>
    have hrest := ih fun u hu => h u (by simp [hu])
    by_cases hts : ts = []
    · rw [hts, Text.join_singleton]
      exact h t (by simp)
    · rw [Text.join_cons _ t hts, List.append_assoc]
      refine not_hasOpening_append (h t (by simp)) ?_ (by decide) (by decide)
      exact not_hasOpening_append not_hasOpening_nil hrest (by decide) (by decide)

/-- What is a part of a text without openings has none. -/
theorem HasOpening.mono {t u : Text} (h : HasOpening t) (htu : t <:+: u) : HasOpening u :=
  List.IsInfix.trans h htu

theorem cutOpening_eq_none {t : Text} (h : ¬ HasOpening t) : EncodedWord.cutOpening t = none := by
  fun_induction EncodedWord.cutOpening t with
  | case1 => rfl
  | case2 rest => exact absurd (hasOpening_cons.2 (Or.inl ⟨rfl, rest, rfl⟩)) h
  | case3 c rest _ ih =>
    rw [hasOpening_cons, not_or] at h
    rw [ih h.2]
    rfl

/-! ## Values that read back -/

/-- Whether a written value reads as it is. -/
structure ReadsBack (v : Text) : Prop where
  /-- It is a single line. -/
  lineFeed : '\n' ∉ v
  /-- Nothing in it looks like an encoded word. -/
  opening : ¬ HasOpening v
  /-- It begins with no blank. -/
  first : ∀ c ∈ v.head?, isBlank c = false
  /-- It ends with no blank. -/
  last : ∀ c ∈ v.getLast?, isBlank c = false

instance (v : Text) : Decidable (ReadsBack v) :=
  decidable_of_iff ('\n' ∉ v ∧ ¬ HasOpening v ∧ v.head?.any isBlank = false ∧
      v.getLast?.any isBlank = false)
    ⟨fun ⟨h₁, h₂, h₃, h₄⟩ =>
        ⟨h₁, h₂, Text.any_isBlank_eq_false.1 h₃, Text.any_isBlank_eq_false.1 h₄⟩,
      fun h => ⟨h.lineFeed, h.opening, Text.any_isBlank_eq_false.2 h.first,
        Text.any_isBlank_eq_false.2 h.last⟩⟩

theorem decodeFieldText_nil : decodeFieldText [] = [] := by decide +kernel

theorem ReadsBack.decodeFieldText {v : Text} (h : ReadsBack v) : decodeFieldText v = v := by
  by_cases hv : v = []
  · rw [hv, decodeFieldText_nil]
  have hlines : Text.lines v = [v] := by
    have hpieces : Text.pieces (· == '\n') v = [v] := by
      refine Text.pieces_of_none fun c hc => ?_
      rw [beq_eq_false_iff_ne]
      rintro rfl
      exact h.lineFeed hc
    rw [Text.lines, hpieces]
    cases v with
    | nil => exact absurd rfl hv
    | cons c v => rfl
  have htrim : Text.trimLeft v = v := by
    cases v with
    | nil => rfl
    | cons c v => exact List.dropWhile_cons_of_neg (by simp [h.first c (by simp)])
  have hpieces : EncodedWord.piecesFrom v 0 v = [EncodedWord.Piece.between v] := by
    rw [EncodedWord.piecesFrom]
    split
    · rfl
    · rename_i heq
      rw [cutOpening_eq_none h.opening] at heq
      exact absurd heq (by simp)
  rw [Mailroom.decodeFieldText, EncodedWord.pieces, hlines]
  simp only [List.map_cons, List.map_nil, htrim, hpieces, List.intercalate_singleton]
  unfold EncodedWord.Piece.between
  split <;> simp [EncodedWord.assemble]

/-- A byte of a character that is no blank is no blank. -/
theorem ne_of_mem_encodeChar {c : Char} (hc : isBlank c = false) {b : UInt8}
    (h : b ∈ String.utf8EncodeChar c) {n : UInt8} (hn : n.toNat < 0x80)
    (hblank : isBlank (Char.ofNat n.toNat) = true) : b ≠ n := by
  rintro rfl
  have hmem : b ∈ Utf8.encode [c] := by simpa [Utf8.encode] using h
  have heq := List.mem_singleton.1 (Utf8.mem_encode_of_ascii hn hmem)
  rw [heq, hc] at hblank
  exact absurd hblank (by simp)

theorem dropWhile_encode {v : Text} (h : ∀ c ∈ v.head?, isBlank c = false) :
    (Utf8.encode v).dropWhile (· == 32) = Utf8.encode v := by
  cases v with
  | nil => rfl
  | cons c v =>
    refine List.dropWhile_beq_eq_self_of_head?_ne fun hhead => ?_
    rw [Utf8.encode_cons] at hhead
    cases hbytes : String.utf8EncodeChar c with
    | nil => exact String.utf8EncodeChar_ne_nil hbytes
    | cons b bs =>
      rw [hbytes] at hhead
      have hb : b ≠ 32 := ne_of_mem_encodeChar (h c (by simp)) (by simp [hbytes]) (by decide)
        (by decide)
      exact hb (Option.some.inj hhead)

theorem dropLineBreaks_encode {v : Text} (h : ∀ c ∈ v.getLast?, isBlank c = false) :
    dropLineBreaks (Utf8.encode v) = Utf8.encode v := by
  rcases List.eq_nil_or_concat v with rfl | ⟨t, c, rfl⟩
  · rfl
  have hc := h c (by simp)
  rcases List.eq_nil_or_concat (String.utf8EncodeChar c) with hbytes | ⟨bs, b, hbytes⟩
  · exact absurd hbytes String.utf8EncodeChar_ne_nil
  have hmem : b ∈ String.utf8EncodeChar c := by simp [hbytes]
  have h13 : b ≠ 13 := ne_of_mem_encodeChar hc hmem (by decide) (by decide)
  have h10 : b ≠ 10 := ne_of_mem_encodeChar hc hmem (by decide) (by decide)
  have hencode : Utf8.encode (t ++ [c]) = Utf8.encode t ++ bs ++ [b] := by
    rw [Utf8.encode_append, Utf8.encode_cons, hbytes]
    simp [Utf8.encode]
  rw [List.concat_eq_append, hencode, dropLineBreaks, List.reverse_append, List.reverse_singleton,
    List.singleton_append, List.dropWhile_cons_of_neg (by simp [h13, h10]), List.reverse_cons,
    List.reverse_reverse]

/-- A new field is found by its name. -/
theorem Field.name_written {e : Field} (h : ∀ c ∈ e.name, c.toNat < 0x80) :
    Charset.latin e.written.key = e.name := latin_encode h

/-- The value of a new field reads as it is. -/
theorem Field.value_written {e : Field} (h : ReadsBack e.value) :
    Mailroom.decodeFieldText e.written.text = e.value := by
  have hvalue : e.written.value = Utf8.encode e.value := by
    rw [Field.written, dropWhile_encode h.first, dropLineBreaks_encode h.last]
  have htext : e.written.text = e.value := by
    rw [RawField.text, hvalue, Utf8.decode?_encode]
    rfl
  rw [htext, h.decodeFieldText]

/-! ## The values of a revised header block -/

/-- The values of the fields of a name. -/
def valuesOf (fields : List RawField) (name : Text) : List Text :=
  ((fields.map RawField.decode).filter (fun f => Text.sameName f.name name)).map Field.value

@[simp] theorem valuesOf_nil (name : Text) : valuesOf [] name = [] := rfl

theorem valuesOf_append (fs gs : List RawField) (name : Text) :
    valuesOf (fs ++ gs) name = valuesOf fs name ++ valuesOf gs name := by
  simp [valuesOf]

theorem valuesOf_cons (f : RawField) (fs : List RawField) (name : Text) :
    valuesOf (f :: fs) name = (if Text.sameName (Charset.latin f.key) name then
      [decodeFieldText f.text] else []) ++ valuesOf fs name := by
  unfold valuesOf
  rw [List.map_cons, List.filter_cons]
  split
  · rename_i h
    have h' : Text.sameName (Charset.latin f.key) name = true := h
    rw [if_pos h']
    rfl
  · rename_i h
    have h' : ¬ Text.sameName (Charset.latin f.key) name = true := h
    rw [if_neg h']
    rfl

/-- All values of an edited field are dropped, and those of all others are kept. -/
theorem valuesOf_keptFields {name : Text} (hname : IsTrimmedName name) (edits : List Field)
    (dropping : Bool) {fields : List RawField} (hkeys : ∀ f ∈ fields, IsKey f.key) :
    valuesOf (keptFields edits dropping fields) name =
      if isEdited edits name then [] else valuesOf fields name := by
  induction fields generalizing dropping with
  | nil => simp [keptFields, valuesOf]
  | cons f fields ih =>
    rw [keptFields, valuesOf_append, ih _ fun f hf => hkeys f (by simp [hf]), valuesOf_cons]
    cases hsame : Text.sameName (Charset.latin f.key) name with
    | false =>
      have hnone : valuesOf (if dropsField edits dropping f then [] else [f]) name = [] := by
        split
        · rfl
        · rw [valuesOf_cons, hsame]
          rfl
      rw [hnone]
      simp
    | true =>
      -- the field is dropped by the name that it is found by
      obtain ⟨hline, hfolded⟩ := lineName_of_sameName (hkeys f (by simp)).not_mem.1 hname hsame
      have hdrops : dropsField edits dropping f = isEdited edits name := by
        rw [dropsField, hfolded, hline]
        simp only [Bool.false_eq_true, if_false, isEdited]
        congr 1
        funext e
        exact sameName_congr hsame e.name
      rw [hdrops]
      cases isEdited edits name with
      | true => rfl
      | false => simp only [Bool.false_eq_true, if_false, valuesOf_cons, hsame, valuesOf_nil,
          List.append_nil]

/-- Whether values are those of before, but that an empty one at the end may have gone. -/
def SettlesTo (vs vs' : List Text) : Prop := vs' = vs ∨ vs = vs' ++ [[]]

theorem SettlesTo.mem {vs vs' : List Text} (h : SettlesTo vs vs') {v : Text} (hv : v ∈ vs') :
    v ∈ vs := by
  rcases h with rfl | rfl
  · exact hv
  · exact List.mem_append_left _ hv

/-- The values of a name are those of before, but that the empty one of a line that hangs has
gone. -/
def KeepsValues (eol raw body : Bytes) (name : Text) (vs vs' : List Text) : Prop :=
  vs' = vs ∨ (∃ key, Hangs eol raw body key ∧ Text.sameName (Charset.latin key) name = true) ∧
    vs = vs' ++ [[]]

theorem KeepsValues.settlesTo {eol raw body : Bytes} {name : Text} {vs vs' : List Text}
    (h : KeepsValues eol raw body name vs vs') : SettlesTo vs vs' :=
  h.imp id And.right

theorem Settles.valuesOf {eol raw body : Bytes} {fs fs' : List RawField}
    (h : Settles eol raw body fs fs') {name : Text} (hname : IsTrimmedName name) :
    KeepsValues eol raw body name (valuesOf fs name) (valuesOf fs' name) := by
  rcases h with rfl | ⟨init, key, hhangs, rfl, rfl⟩
  · exact Or.inl rfl
  · -- with a carriage return at its end, the name is no trimmed one
    have hreturn : Text.sameName (Charset.latin (key ++ [13])) name = false := by
      rw [← Bool.not_eq_true]
      intro hsame
      have hlast := (hname.of_sameName hsame).last (Char.ofNat 13) (by simp [Charset.latin])
      exact absurd hlast (by decide)
    rw [valuesOf_append, valuesOf_append, valuesOf_cons, valuesOf_cons, hreturn]
    cases hsame : Text.sameName (Charset.latin key) name with
    | false => exact Or.inl (by simp)
    | true =>
      refine Or.inr ⟨⟨key, hhangs, hsame⟩, ?_⟩
      have hempty : decodeFieldText (RawField.text ⟨key, []⟩) = [] :=
        decodeFieldText_nil
      simp [hempty]

/-- The values that new fields give to a name, if no two of them have one name and those of the name
read as they are. -/
theorem valuesOf_new {edits : List Field} {name : Text} (read : Field → RawField)
    (hfound : ∀ e ∈ edits,
      Text.sameName (Charset.latin (read e).key) name = Text.sameName e.name name)
    (hvalue : ∀ e ∈ edits, Text.sameName e.name name = true →
      decodeFieldText (read e).text = e.value)
    (hdistinct : edits.Pairwise (fun a b => Text.sameName a.name b.name = false)) :
    valuesOf ((edits.filter (fun e => !e.value.isEmpty)).map read) name =
      match edits.find? (fun e => Text.sameName e.name name) with
      | some e => if e.value.isEmpty then [] else [e.value]
      | none => [] := by
  induction edits with
  | nil => rfl
  | cons e edits ih =>
    obtain ⟨hfirst, hrest⟩ := List.pairwise_cons.1 hdistinct
    have ih := ih (fun x hx => hfound x (by simp [hx])) (fun x hx => hvalue x (by simp [hx])) hrest
    have hkey := hfound e (by simp)
    cases hsame : Text.sameName e.name name with
    | false =>
      rw [List.find?_cons_of_neg (by simp [hsame]), ← ih, List.filter_cons]
      split
      · rw [List.map_cons, valuesOf_cons, hkey, hsame]
        rfl
      · rfl
    | true =>
      -- no other new field has the name
      have hnone : edits.find? (fun e => Text.sameName e.name name) = none := by
        refine List.find?_eq_none.2 fun x hx hxname => ?_
        have hxe := hfirst x hx
        rw [sameName_congr hxname, hsame] at hxe
        exact absurd hxe (by simp)
      rw [hnone] at ih
      have hread := hvalue e (by simp) hsame
      rw [List.find?_cons_of_pos (by simp [hsame]), List.filter_cons]
      cases hempty : e.value.isEmpty with
      | true => simpa [hempty] using ih
      | false =>
        simp only [Bool.not_false, if_true, List.map_cons, valuesOf_cons, hkey, hsame, hread, ih]
        simp only [hempty]
        rfl

/-- New fields with names of ASCII are found by these names. -/
theorem valuesOf_written {edits : List Field} (hnames : ∀ e ∈ edits, ∀ c ∈ e.name, c.toNat < 0x80)
    (hdistinct : edits.Pairwise (fun a b => Text.sameName a.name b.name = false)) {name : Text}
    (hback : ∀ e ∈ edits, Text.sameName e.name name = true → ReadsBack e.value) :
    valuesOf ((edits.filter (fun e => !e.value.isEmpty)).map Field.written) name =
      match edits.find? (fun e => Text.sameName e.name name) with
      | some e => if e.value.isEmpty then [] else [e.value]
      | none => [] :=
  valuesOf_new Field.written (fun e he => by rw [Field.name_written (hnames e he)])
    (fun e he hsame => Field.value_written (hback e he hsame)) hdistinct

/-- A plain name finds the new fields that have it, whatever the names of the others are like, if no
other one has it up to a colon. -/
theorem valuesOf_asRead {edits : List Field} {name : Text} (hname : IsPlainName name)
    (hfound : ∀ e ∈ edits, Text.sameName e.foundName name = true →
      Text.sameName e.name name = true)
    (hdistinct : edits.Pairwise (fun a b => Text.sameName a.name b.name = false))
    (hback : ∀ e ∈ edits, Text.sameName e.name name = true → ReadsBack e.value) :
    valuesOf ((edits.filter (fun e => !e.value.isEmpty)).map Field.asRead) name =
      match edits.find? (fun e => Text.sameName e.name name) with
      | some e => if e.value.isEmpty then [] else [e.value]
      | none => [] := by
  have hcolon : ∀ e : Field, Text.sameName e.name name = true → ':' ∉ e.name := by
    intro e hsame hmem
    exact (hname.2 _ (mem_of_sameName hsame hmem (isFixed_of_toNat (by decide)))).2.1 rfl
  refine valuesOf_new Field.asRead (fun e he => ?_) (fun e he hsame => ?_) hdistinct
  · rw [Field.asRead, sameName_latin_encode fun c hc => (hname.2 c hc).1, Bool.eq_iff_iff]
    refine ⟨hfound e he, fun hsame => ?_⟩
    rwa [Field.foundName_of_not_mem (hcolon e hsame)]
  · rw [Field.asRead_of_not_mem (hcolon e hsame)]
    exact Field.value_written (hback e he hsame)

theorem Header.read_eq_ok {raw : Bytes} {h : Header} (hread : Header.read raw = .ok h) :
    ∃ fields body, readFields raw = .ok (fields, body) ∧
      h = ⟨fields.map RawField.decode, raw.length - body.length⟩ := by
  unfold Header.read at hread
  split at hread
  · rename_i fields body hfields
    exact ⟨fields, body, hfields, (Except.ok.inj hread).symm⟩
  · exact absurd hread (by simp)

section Revise

variable {raw body : Bytes} {fields kept new : List RawField} {edits : List Field} {name : Text}

/-- Behind what is kept of a header block, new fields give the new value to a name if there is one,
and the values of before if there is none. -/
theorem valuesOf_append_new (hread : readFields raw = .ok (fields, body)) (hname : IsTrimmedName name)
    (hkept : Settles (lineBreak (raw.take (raw.length - body.length))) raw body
      (keptFields edits false fields) kept)
    (hnew : valuesOf new name = match edits.find? (fun e => Text.sameName e.name name) with
      | some e => if e.value.isEmpty then [] else [e.value]
      | none => []) :
    match edits.find? (fun e => Text.sameName e.name name) with
    | some e => valuesOf (kept ++ new) name = if e.value.isEmpty then [] else [e.value]
    | none => KeepsValues (lineBreak (raw.take (raw.length - body.length))) raw body name
        (valuesOf fields name) (valuesOf (kept ++ new) name) := by
  have hold := hkept.valuesOf hname
  rw [valuesOf_keptFields hname edits false (isKey_of_readFields hread)] at hold
  rw [valuesOf_append, hnew]
  cases hfind : edits.find? (fun e => Text.sameName e.name name) with
  | none =>
    have hedited : isEdited edits name = false := by
      rw [isEdited, List.any_eq_false]
      exact List.find?_eq_none.1 hfind
    rw [hedited] at hold
    simpa using hold
  | some e =>
    have hsame := List.find?_some hfind
    have hedited : isEdited edits name = true :=
      List.any_eq_true.2 ⟨e, List.mem_of_find?_eq_some hfind, hsame⟩
    rw [hedited] at hold
    rcases hold with hold | ⟨-, hold⟩
    · rw [hold]
      rfl
    · exact absurd hold.symm (by simp)

/-- A revised header block gives to every name the new value if there is one, and the values of
before if there is none; the body stays what it was. -/
theorem valuesOf_revise (hread : readFields raw = .ok (fields, body))
    (hedits : ∀ e ∈ edits, e.IsOneLine) (hnames : ∀ e ∈ edits, ∀ c ∈ e.name, c.toNat < 0x80)
    (hdistinct : edits.Pairwise (fun a b => Text.sameName a.name b.name = false)) :
    ∃ fields', readFields (revise raw (raw.length - body.length) edits) = .ok (fields', body) ∧
      ∀ name, IsTrimmedName name →
        (∀ e ∈ edits, Text.sameName e.name name = true → ReadsBack e.value) →
        match edits.find? (fun e => Text.sameName e.name name) with
        | some e => valuesOf fields' name = if e.value.isEmpty then [] else [e.value]
        | none => KeepsValues (lineBreak (raw.take (raw.length - body.length))) raw body name
            (valuesOf fields name) (valuesOf fields' name) := by
  obtain ⟨kept, hkept, hrevised⟩ := readFields_revise hread hedits
  exact ⟨_, hrevised, fun name hname hback =>
    valuesOf_append_new hread hname hkept (valuesOf_written hnames hdistinct hback)⟩

/-- So it does for a plain name if other new fields have names of any kind, as long as each is
written on a line of its own and none has the name up to a colon. -/
theorem valuesOf_revise_lines (hread : readFields raw = .ok (fields, body))
    (hedits : ∀ e ∈ edits, e.IsLine)
    (hdistinct : edits.Pairwise (fun a b => Text.sameName a.name b.name = false)) :
    ∃ fields', readFields (revise raw (raw.length - body.length) edits) = .ok (fields', body) ∧
      ∀ name, IsPlainName name →
        (∀ e ∈ edits, Text.sameName e.foundName name = true → Text.sameName e.name name = true) →
        (∀ e ∈ edits, Text.sameName e.name name = true → ReadsBack e.value) →
        match edits.find? (fun e => Text.sameName e.name name) with
        | some e => valuesOf fields' name = if e.value.isEmpty then [] else [e.value]
        | none => KeepsValues (lineBreak (raw.take (raw.length - body.length))) raw body name
            (valuesOf fields name) (valuesOf fields' name) := by
  obtain ⟨kept, hkept, hrevised⟩ := readFields_revise_lines hread hedits
  exact ⟨_, hrevised, fun name hname hfound hback =>
    valuesOf_append_new hread hname.isTrimmedName hkept
      (valuesOf_asRead hname hfound hdistinct hback)⟩

end Revise

/-- The same of the header block as it is read for a message. -/
theorem values_revise {raw : Bytes} {h : Header} {edits : List Field}
    (hread : Header.read raw = .ok h) (hedits : ∀ e ∈ edits, e.IsPlain)
    (hnames : ∀ e ∈ edits, IsPlainName e.name)
    (hdistinct : edits.Pairwise (fun a b => Text.sameName a.name b.name = false)) :
    ∃ h', Header.read (revise raw h.bodyOffset edits) = .ok h' ∧
      ∀ name, IsPlainName name →
        (∀ e ∈ edits, Text.sameName e.name name = true → ReadsBack e.value) → SettlesTo
        (match edits.find? (fun e => Text.sameName e.name name) with
          | some e => if e.value.isEmpty then [] else [e.value]
          | none => h.values name) (h'.values name) := by
  obtain ⟨fields, body, hfields, rfl⟩ := Header.read_eq_ok hread
  obtain ⟨fields', hrevised, hvalues⟩ := valuesOf_revise hfields (fun e he => (hedits e he).isOneLine)
    (fun e he c hc => ((hnames e he).2 c hc).1) hdistinct
  refine ⟨_, by rw [Header.read, hrevised], fun name hname hback => ?_⟩
  have hname' := hvalues name hname.isTrimmedName hback
  have hsame : ∀ (fs : List RawField) (n : Nat),
      Header.values ⟨fs.map RawField.decode, n⟩ name = valuesOf fs name := fun _ _ => rfl
  rw [hsame, hsame]
  cases hfind : edits.find? (fun e => Text.sameName e.name name) with
  | none =>
    rw [hfind] at hname'
    exact hname'.settlesTo
  | some e =>
    rw [hfind] at hname'
    exact Or.inl hname'

end Mailroom
