import Mailroom.Letter.Copy
import Mailroom.Proofs.Text.Pieces

/-!
# The citation in a page

What a message says about itself is shown in a page, and none of it can end up as a tag.  A reader
of pages finds in the citation the tags that its form asks for, with the characters of fixed texts
and of escaped values between them, and goes on behind it as if it were not there.

* `Markup.tokens` reads a page.
* `Markup.tokens_write` gets back what sound pieces were written for.
* `Citation.pieces` are the pieces of a citation, and `Citation.tags` the tags among them.
* `Citation.admits_no_markup` says that the page of a citation reads as its pieces do, and that it
  is put into a page in one piece.
-/

namespace Mailroom

namespace Markup

/-! ## Reading a page -/

/-- The attributes of a tag, each with its value as it is written. -/
abbrev Attributes := List (Text × Text)

/-- What a reader of a page finds. -/
inductive Token where
  /-- A character between tags. -/
  | char (c : Char)
  /-- A tag; the name of one that closes something begins with a slash. -/
  | tag (name : Text) (attributes : Attributes)
  deriving DecidableEq, Repr

/-- Where a reader of a page is, with what it has of the tag so far. -/
inductive Place where
  /-- Between tags. -/
  | between
  /-- In the name of a tag. -/
  | name (n : Text)
  /-- Between attributes. -/
  | gap (n : Text) (before : Attributes)
  /-- In the name of an attribute. -/
  | key (n : Text) (before : Attributes) (k : Text)
  /-- Behind the equals sign of an attribute. -/
  | equals (n : Text) (before : Attributes) (k : Text)
  /-- In a value between quotes. -/
  | quotes (n : Text) (before : Attributes) (k v : Text)
  /-- In a value without quotes. -/
  | bare (n : Text) (before : Attributes) (k v : Text)

/-- What a character does to a reader, and what it finds with it. -/
def step : Place → Char → Place × Option Token
  | .between, c => if c = '<' then (.name [], none) else (.between, some (.char c))
  | .name n, c =>
    if c = '>' then (.between, some (.tag n []))
    else if isBlank c then (.gap n [], none)
    else (.name (n ++ [c]), none)
  | .gap n before, c =>
    if c = '>' then (.between, some (.tag n before))
    else if isBlank c then (.gap n before, none)
    else (.key n before [c], none)
  | .key n before k, c =>
    if c = '>' then (.between, some (.tag n (before ++ [(k, [])])))
    else if c = '=' then (.equals n before k, none)
    else if isBlank c then (.gap n (before ++ [(k, [])]), none)
    else (.key n before (k ++ [c]), none)
  | .equals n before k, c =>
    if c = '>' then (.between, some (.tag n (before ++ [(k, [])])))
    else if c = '"' then (.quotes n before k [], none)
    else if isBlank c then (.equals n before k, none)
    else (.bare n before k [c], none)
  | .quotes n before k v, c =>
    if c = '"' then (.gap n (before ++ [(k, v)]), none)
    else (.quotes n before k (v ++ [c]), none)
  | .bare n before k v, c =>
    if c = '>' then (.between, some (.tag n (before ++ [(k, v)])))
    else if isBlank c then (.gap n (before ++ [(k, v)]), none)
    else (.bare n before k (v ++ [c]), none)

/-- What a reader finds from a place on; a tag that does not end is dropped. -/
def tokensFrom : Place → Text → List Token
  | _, [] => []
  | p, c :: t => (step p c).2.toList ++ tokensFrom (step p c).1 t

/-- What a reader finds in a page. -/
def tokens (t : Text) : List Token := tokensFrom .between t

/-- The tag, if a token is one. -/
def Token.tag? : Token → Option (Text × Attributes)
  | .char _ => none
  | .tag name attributes => some (name, attributes)

/-- Whatever follows, a text leads a reader from a place to another and gives it some tokens. -/
def Reads (p : Place) (t : Text) (found : List Token) (q : Place) : Prop :=
  ∀ rest, tokensFrom p (t ++ rest) = found ++ tokensFrom q rest

namespace Reads

variable {p q r : Place} {t u : Text} {found more : List Token}

theorem nil (p : Place) : Reads p [] [] p := fun _ => rfl

theorem append (h : Reads p t found q) (h' : Reads q u more r) :
    Reads p (t ++ u) (found ++ more) r := by
  intro rest
  rw [List.append_assoc, h, h', List.append_assoc]

theorem cons {c : Char} {o : Option Token} (h : step p c = (q, o)) (h' : Reads q t found r) :
    Reads p (c :: t) (o.toList ++ found) r := by
  intro rest
  rw [List.cons_append, tokensFrom, h, h', List.append_assoc]

theorem single {c : Char} {o : Option Token} (h : step p c = (q, o)) :
    Reads p [c] o.toList q := by
  simpa using cons h (nil q)

/-- A text of which every character is collected is collected. -/
theorem collect (place : Text → Place)
    (h : ∀ c ∈ t, ∀ w, step (place w) c = (place (w ++ [c]), none)) (w : Text) :
    Reads (place w) t [] (place (w ++ t)) := by
  induction t generalizing w with
  | nil => simpa using nil (place w)
  | cons c t ih =>
    have hrest := ih (fun x hx => h x (List.mem_cons_of_mem c hx)) (w ++ [c])
    rw [List.append_assoc] at hrest
    exact cons (h c List.mem_cons_self w) hrest

/-- What holds nothing that opens a tag is read as it is. -/
theorem chars (h : '<' ∉ t) : Reads .between t (t.map .char) .between := by
  induction t with
  | nil => exact nil _
  | cons c t ih =>
    rw [List.mem_cons, not_or] at h
    have hstep : step .between c = (.between, some (.char c)) := if_neg (Ne.symm h.1)
    exact cons hstep (ih h.2)

end Reads

/-! ## Pieces -/

/-- What is written into a page. -/
inductive Piece where
  /-- A fixed text, written as it is. -/
  | fixed (t : Text)
  /-- A value, shown as it is. -/
  | shown (value : Text)
  /-- A tag, with the values of its attributes as they are written. -/
  | tag (name : Text) (attributes : Attributes)

/-- An attribute as it is written, with the blank in front. -/
def writeAttribute (a : Text × Text) : Text := [' '] ++ a.1 ++ ['=', '"'] ++ a.2 ++ ['"']

namespace Piece

/-- A piece as it is written. -/
def write : Piece → Text
  | fixed t => t
  | shown value => Markup.text value
  | tag name attributes => ['<'] ++ name ++ attributes.flatMap writeAttribute ++ ['>']

/-- What a reader is to find for a piece. -/
def tokens : Piece → List Token
  | fixed t => t.map .char
  | shown value => (Markup.text value).map .char
  | tag name attributes => [.tag name attributes]

/-- The tag, if a piece is one. -/
def tag? : Piece → Option (Text × Attributes)
  | tag name attributes => some (name, attributes)
  | _ => none

end Piece

/-- Whether a text has none of the characters that begin or end something in a tag. -/
def IsClean (t : Text) : Prop := ∀ c ∈ t, c ≠ '<' ∧ c ≠ '>' ∧ c ≠ '"'

/-- A name that ends at a blank, at an equals sign or at the end of its tag. -/
def IsTagName (t : Text) : Prop := t ≠ [] ∧ ∀ c ∈ t, c ≠ '>' ∧ c ≠ '=' ∧ isBlank c = false

instance : DecidablePred IsClean := fun t => List.decidableBAll _ t

instance (t : Text) : Decidable (IsTagName t) :=
  @instDecidableAnd _ _ inferInstance (List.decidableBAll _ t)

/-- Whether a piece reads as what it is.  A value does in any case. -/
def Piece.IsSound : Piece → Prop
  | .fixed t => IsClean t
  | .shown _ => True
  | .tag name attributes => IsTagName name ∧ ∀ a ∈ attributes, IsTagName a.1 ∧ IsClean a.2

/-- Whether a token has nothing of a tag in it but the tag itself. -/
def Token.IsClean : Token → Prop
  | .char c => c ≠ '<' ∧ c ≠ '>'
  | .tag _ attributes => ∀ a ∈ attributes, Markup.IsClean a.2

/-! ### Escaping -/

/-- What an escaped text is made of: characters that are not in the table, and what the table
puts for the others. -/
theorem mem_escape {table : List (Char × Text)} {t : Text} {c : Char} (h : c ∈ escape table t) :
    table.lookup c = none ∨ ∃ e ∈ table, c ∈ e.2 := by
  obtain ⟨x, -, hc⟩ := List.mem_flatMap.1 h
  cases hx : table.lookup x with
  | none =>
    rw [hx, Option.getD_none, List.mem_singleton] at hc
    exact .inl (hc ▸ hx)
  | some w =>
    rw [hx, Option.getD_some] at hc
    obtain ⟨before, after, rfl, -⟩ := List.lookup_eq_some_iff.1 hx
    exact .inr ⟨(x, w), by simp, hc⟩

theorem mem_text {t : Text} {c : Char} (h : c ∈ text t) : c ≠ '<' ∧ c ≠ '>' := by
  rcases mem_escape h with h | ⟨e, he, hc⟩
  · constructor <;> rintro rfl <;> exact absurd h (by decide)
  · have htable : (inText.all fun e => e.2.all fun c => c != '<' && c != '>') = true := rfl
    simp only [List.all_eq_true, Bool.and_eq_true, bne_iff_ne] at htable
    exact htable e he c hc

theorem isClean_quoted (t : Text) : IsClean (quoted t) := by
  intro c h
  rcases mem_escape h with h | ⟨e, he, hc⟩
  · refine ⟨?_, ?_, ?_⟩ <;> rintro rfl <;> exact absurd h (by decide)
  · have htable : (inQuotes.all fun e => e.2.all fun c => c != '<' && (c != '>' && c != '"')) =
        true := rfl
    simp only [List.all_eq_true, Bool.and_eq_true, bne_iff_ne] at htable
    exact htable e he c hc

theorem IsClean.append {t u : Text} (h : IsClean t) (h' : IsClean u) : IsClean (t ++ u) := by
  intro c hc
  rcases List.mem_append.1 hc with hc | hc
  · exact h c hc
  · exact h' c hc

/-! ### Reading pieces back -/

theorem reads_attribute {a : Text × Text} (hkey : IsTagName a.1) (hvalue : IsClean a.2) (n : Text)
    (before : Attributes) :
    Reads (.gap n before) (writeAttribute a) [] (.gap n (before ++ [a])) := by
  obtain ⟨k, v⟩ := a
  obtain ⟨hne, hk⟩ := hkey
  cases k with
  | nil => exact absurd rfl hne
  | cons c k =>
    have hfirst : step (.gap n before) c = (.key n before [c], none) := by
      obtain ⟨hclose, -, hblank⟩ := hk c List.mem_cons_self
      simp [step, hclose, hblank]
    have hname : Reads (.key n before [c]) k [] (.key n before ([c] ++ k)) := by
      refine Reads.collect (Place.key n before) (fun x hx w => ?_) [c]
      obtain ⟨hclose, hequals, hblank⟩ := hk x (List.mem_cons_of_mem c hx)
      simp [step, hclose, hequals, hblank]
    have hquotes : Reads (.quotes n before (c :: k) []) v [] (.quotes n before (c :: k) v) := by
      refine Reads.collect (Place.quotes n before (c :: k)) (fun x hx w => ?_) []
      simp [step, (hvalue x hx).2.2]
    have hblank : step (.gap n before) ' ' = (.gap n before, none) := rfl
    have hopen : Reads (.key n before (c :: k)) ['=', '"'] [] (.quotes n before (c :: k) []) :=
      fun _ => rfl
    have hclose : step (.quotes n before (c :: k) v) '"' =
        (.gap n (before ++ [(c :: k, v)]), none) := rfl
    exact (((Reads.single hblank).append (.cons hfirst hname)).append hopen |>.append hquotes
      |>.append (.single hclose))

theorem reads_attributes {more : Attributes} (h : ∀ a ∈ more, IsTagName a.1 ∧ IsClean a.2)
    (n : Text) (before : Attributes) :
    Reads (.gap n before) (more.flatMap writeAttribute) [] (.gap n (before ++ more)) := by
  induction more generalizing before with
  | nil => simpa using Reads.nil _
  | cons a more ih =>
    have hfirst := reads_attribute (h a List.mem_cons_self).1 (h a List.mem_cons_self).2 n before
    have hrest := ih (fun b hb => h b (List.mem_cons_of_mem a hb)) (before ++ [a])
    rw [List.append_assoc] at hrest
    exact hfirst.append hrest

theorem reads_tag {n : Text} {attributes : Attributes} (hname : IsTagName n)
    (h : ∀ a ∈ attributes, IsTagName a.1 ∧ IsClean a.2) :
    Reads .between (Piece.write (.tag n attributes)) [.tag n attributes] .between := by
  have hopen : step .between '<' = (.name [], none) := rfl
  have hcollect : Reads (.name []) n [] (.name n) := by
    refine Reads.collect Place.name (fun c hc w => ?_) []
    obtain ⟨hclose, -, hblank⟩ := hname.2 c hc
    simp [step, hclose, hblank]
  have hbegin := (Reads.single hopen).append hcollect
  cases attributes with
  | nil =>
    have hclose : step (.name n) '>' = (.between, some (.tag n [])) := rfl
    simpa [Piece.write] using hbegin.append (.single hclose)
  | cons a more =>
    have hclose : step (.gap n (a :: more)) '>' = (.between, some (.tag n (a :: more))) := rfl
    -- the blank in front of the first attribute ends the name
    have hattributes :
        Reads (.name n) ((a :: more).flatMap writeAttribute) [] (.gap n (a :: more)) :=
      fun rest => reads_attributes h n [] rest
    simpa [Piece.write] using (hbegin.append hattributes).append (.single hclose)

/-- A sound piece is read back. -/
theorem reads_write {i : Piece} (h : i.IsSound) : Reads .between i.write i.tokens .between := by
  cases i with
  | fixed t => exact Reads.chars fun hc => (h _ hc).1 rfl
  | shown value => exact Reads.chars fun hc => (mem_text hc).1 rfl
  | tag name attributes => exact reads_tag h.1 h.2

/-- Sound pieces are read back, whatever follows them. -/
theorem tokens_write {pieces : List Piece} (h : ∀ i ∈ pieces, i.IsSound) (rest : Text) :
    tokens (pieces.flatMap Piece.write ++ rest) = pieces.flatMap Piece.tokens ++ tokens rest := by
  have hreads :
      Reads .between (pieces.flatMap Piece.write) (pieces.flatMap Piece.tokens) .between := by
    induction pieces with
    | nil => exact Reads.nil _
    | cons i pieces ih =>
      exact (reads_write (h i List.mem_cons_self)).append
        (ih fun j hj => h j (List.mem_cons_of_mem i hj))
  exact hreads rest

theorem Piece.tags_tokens (p : Piece) : p.tokens.filterMap Token.tag? = p.tag?.toList := by
  have hchars : ∀ t : Text, (t.map Token.char).filterMap Token.tag? = [] := by
    intro t
    rw [List.filterMap_map]
    exact List.filterMap_eq_nil_iff.2 fun _ _ => rfl
  cases p with
  | fixed t => exact hchars t
  | shown value => exact hchars _
  | tag name attributes => rfl

theorem tags_tokens (pieces : List Piece) :
    (pieces.flatMap Piece.tokens).filterMap Token.tag? = pieces.filterMap Piece.tag? := by
  induction pieces with
  | nil => rfl
  | cons p pieces ih =>
    rw [List.flatMap_cons, List.filterMap_append, ih, Piece.tags_tokens]
    cases htag : p.tag? <;> simp [htag]

theorem Piece.IsSound.isClean {i : Piece} (h : i.IsSound) : ∀ x ∈ i.tokens, x.IsClean := by
  intro x hx
  cases i with
  | fixed t =>
    obtain ⟨c, hc, rfl⟩ := List.mem_map.1 hx
    exact ⟨(h c hc).1, (h c hc).2.1⟩
  | shown value =>
    obtain ⟨c, hc, rfl⟩ := List.mem_map.1 hx
    exact mem_text hc
  | tag name attributes =>
    obtain rfl := List.mem_singleton.1 hx
    exact fun a ha => (h.2 a ha).2

end Markup

/-! ## The pieces of a citation -/

namespace Citation

open Markup

/-- The tag around a citation. -/
def frameTag : Text × Attributes := ("div", [("class", "forwarded")])

/-- The tag that opens the link to an address. -/
def linkTag (m : Mailbox) : Text × Attributes :=
  ("a", [("href", "mailto:" ++ Markup.quoted m.email)])

/-- A tag without attributes. -/
def plainTag (name : Text) : Text × Attributes := (name, [])

/-- A tag as a piece. -/
def tagPiece (t : Text × Attributes) : Piece := .tag t.1 t.2

/-- The link to an address. -/
def linkPieces (m : Mailbox) : List Piece :=
  [tagPiece (linkTag m), .shown m.email, tagPiece (plainTag "/a")]

/-- The pieces of a mailbox. -/
def mailboxPieces (m : Mailbox) : List Piece :=
  match m.name with
  | none | some [] => linkPieces m
  | some name =>
    [tagPiece (plainTag "strong"), .shown name, tagPiece (plainTag "/strong"), .fixed " &lt;"] ++
      linkPieces m ++ [.fixed "&gt;"]

/-- The pieces of a list of mailboxes. -/
def mailboxesPieces (ms : List Mailbox) : List Piece :=
  [Piece.fixed ", "].intercalate (ms.map mailboxPieces)

/-- The pieces of a line. -/
def linePieces (name : Text) (value : List Piece) : List Piece :=
  [.fixed name, .fixed ": "] ++ value ++ [tagPiece (plainTag "br"), .fixed crlf]

/-- The pieces of a citation. -/
def pieces (c : Citation) : List Piece :=
  [tagPiece frameTag, .fixed banner, tagPiece (plainTag "br"), .fixed crlf] ++
    linePieces "From" (mailboxesPieces c.authors) ++
    linePieces "Date" [.shown c.date] ++
    linePieces "Subject" [.shown c.subject] ++
    linePieces "To" (mailboxesPieces c.recipients) ++
    (if c.copies.isEmpty then [] else linePieces "Cc" (mailboxesPieces c.copies)) ++
    [tagPiece (plainTag "/div"), tagPiece (plainTag "br"), .fixed crlf]

/-- The tags of a mailbox: those around the name, if there is one, and those of the link. -/
def mailboxTags (m : Mailbox) : List (Text × Attributes) :=
  (if m.name.getD [] = [] then [] else [plainTag "strong", plainTag "/strong"]) ++
    [linkTag m, plainTag "/a"]

/-- The tags of a citation. -/
def tags (c : Citation) : List (Text × Attributes) :=
  [frameTag, plainTag "br"] ++
    c.authors.flatMap mailboxTags ++ [plainTag "br", plainTag "br", plainTag "br"] ++
    c.recipients.flatMap mailboxTags ++ [plainTag "br"] ++
    (if c.copies = [] then [] else c.copies.flatMap mailboxTags ++ [plainTag "br"]) ++
    [plainTag "/div", plainTag "br"]

/-- The texts that are the same in every citation. -/
def fixedTexts : List Text :=
  [banner, crlf, ": ", ", ", " &lt;", "&gt;", "From", "Date", "Subject", "To", "Cc"]

/-- The values of a citation. -/
def values (c : Citation) : List Text :=
  [c.date, c.subject] ++
    (c.authors ++ c.recipients ++ c.copies).flatMap fun m => m.email :: m.name.toList

/-! ### They are what is written -/

theorem write_mailboxPieces (m : Mailbox) :
    (mailboxPieces m).flatMap Piece.write = mailboxInPage m := by
  obtain ⟨_ | _ | ⟨x, name⟩, email⟩ := m <;>
    simp [mailboxPieces, mailboxInPage, linkPieces, linkTag, plainTag, tagPiece, Piece.write,
      writeAttribute]

theorem write_mailboxesPieces (ms : List Mailbox) :
    (mailboxesPieces ms).flatMap Piece.write = mailboxesInPage ms := by
  unfold mailboxesPieces mailboxesInPage Text.join
  induction ms with
  | nil => rfl
  | cons m ms ih =>
    cases ms with
    | nil => simp [write_mailboxPieces]
    | cons m' ms =>
      simp only [List.map_cons, List.intercalate_cons_cons, List.flatMap_append] at ih ⊢
      rw [ih, write_mailboxPieces]
      simp [Piece.write]

theorem write_linePieces (name : Text) (value : List Piece) :
    (linePieces name value).flatMap Piece.write =
      name ++ ": " ++ value.flatMap Piece.write ++ "<br>" ++ crlf := by
  simp [linePieces, tagPiece, plainTag, Piece.write]

/-- The pieces of a citation are written as its page. -/
theorem write_pieces (c : Citation) : c.pieces.flatMap Piece.write = c.asPage := by
  unfold pieces asPage
  simp only [List.flatMap_append, write_linePieces, write_mailboxesPieces]
  cases c.copies.isEmpty <;>
    simp [frameTag, plainTag, tagPiece, Piece.write, writeAttribute, write_linePieces,
      write_mailboxesPieces]

/-! ### Where they come from -/

theorem tags_mailboxPieces (m : Mailbox) :
    (mailboxPieces m).filterMap Piece.tag? = mailboxTags m := by
  obtain ⟨_ | _ | ⟨x, name⟩, email⟩ := m <;> rfl

theorem tags_mailboxesPieces (ms : List Mailbox) :
    (mailboxesPieces ms).filterMap Piece.tag? = ms.flatMap mailboxTags := by
  unfold mailboxesPieces
  induction ms with
  | nil => rfl
  | cons m ms ih =>
    cases ms with
    | nil => simp [tags_mailboxPieces]
    | cons m' ms =>
      simp only [List.map_cons, List.intercalate_cons_cons, List.filterMap_append] at ih ⊢
      rw [ih, tags_mailboxPieces, List.flatMap_cons]
      exact congrArg (· ++ _) (List.append_nil _)

theorem tags_linePieces (name : Text) (value : List Piece) :
    (linePieces name value).filterMap Piece.tag? =
      value.filterMap Piece.tag? ++ [plainTag "br"] := by
  simp [linePieces, tagPiece, plainTag, List.filterMap_cons, Piece.tag?]

/-- The tags among the pieces of a citation. -/
theorem tags_pieces (c : Citation) : c.pieces.filterMap Piece.tag? = c.tags := by
  unfold pieces tags
  cases hcopies : c.copies <;>
    simp [tags_linePieces, tags_mailboxesPieces, tagPiece, List.filterMap_cons, Piece.tag?]

/-- Whether a piece is a tag, or else one of some texts as it is or one of some values. -/
def IsFrom (fixed values : List Text) : Piece → Prop
  | .fixed t => t ∈ fixed
  | .shown value => value ∈ values
  | .tag _ _ => True

variable {values : List Text}

theorem isFrom_linkPieces {m : Mailbox} (h : m.email ∈ values) :
    ∀ p ∈ linkPieces m, IsFrom fixedTexts values p := by
  simp only [linkPieces, List.forall_mem_cons]
  exact ⟨trivial, h, trivial, nofun⟩

theorem isFrom_mailboxPieces {m : Mailbox} (h : ∀ v ∈ m.email :: m.name.toList, v ∈ values) :
    ∀ p ∈ mailboxPieces m, IsFrom fixedTexts values p := by
  obtain ⟨hemail, hname⟩ := List.forall_mem_cons.1 h
  have hlink := isFrom_linkPieces hemail
  obtain ⟨_ | _ | ⟨x, name⟩, email⟩ := m
  · exact hlink
  · exact hlink
  · simp only [mailboxPieces, List.forall_mem_append, List.forall_mem_cons]
    have hless : " &lt;".toList ∈ fixedTexts := by decide
    have hgreater : "&gt;".toList ∈ fixedTexts := by decide
    exact ⟨⟨⟨trivial, hname _ List.mem_cons_self, trivial, hless, nofun⟩, hlink⟩, hgreater, nofun⟩

theorem isFrom_mailboxesPieces {ms : List Mailbox}
    (h : ∀ m ∈ ms, ∀ v ∈ m.email :: m.name.toList, v ∈ values) :
    ∀ p ∈ mailboxesPieces ms, IsFrom fixedTexts values p := by
  unfold mailboxesPieces
  induction ms with
  | nil => exact fun p hp => absurd hp List.not_mem_nil
  | cons m ms ih =>
    have hfirst := isFrom_mailboxPieces (h m List.mem_cons_self)
    have hrest := ih fun m' hm => h m' (List.mem_cons_of_mem m hm)
    cases ms with
    | nil => simpa using hfirst
    | cons m' ms =>
      have hcomma : IsFrom fixedTexts values (.fixed ", ") := show ", ".toList ∈ _ by decide
      rw [List.map_cons, List.map_cons, List.intercalate_cons_cons, List.forall_mem_append,
        List.forall_mem_append]
      exact ⟨⟨hfirst, List.forall_mem_singleton.2 hcomma⟩, hrest⟩

theorem isFrom_linePieces {name : Text} (hname : name ∈ fixedTexts) {value : List Piece}
    (h : ∀ p ∈ value, IsFrom fixedTexts values p) :
    ∀ p ∈ linePieces name value, IsFrom fixedTexts values p := by
  have hcolon : IsFrom fixedTexts values (.fixed ": ") := show ": ".toList ∈ _ by decide
  have hend : IsFrom fixedTexts values (.fixed crlf) := show crlf ∈ _ by decide
  rw [linePieces, List.forall_mem_append, List.forall_mem_append]
  refine ⟨⟨?_, h⟩, ?_⟩
  · exact List.forall_mem_cons.2 ⟨hname, List.forall_mem_singleton.2 hcolon⟩
  · exact List.forall_mem_cons.2 ⟨trivial, List.forall_mem_singleton.2 hend⟩

/-- Every piece of a citation is a tag, a fixed text or a value of the citation. -/
theorem isFrom_pieces (c : Citation) : ∀ p ∈ c.pieces, IsFrom fixedTexts c.values p := by
  have hmailboxes (ms : List Mailbox) (hms : ∀ m ∈ ms, m ∈ c.authors ++ c.recipients ++ c.copies) :
      ∀ p ∈ mailboxesPieces ms, IsFrom fixedTexts c.values p :=
    isFrom_mailboxesPieces fun m hm v hv =>
      List.mem_append_right _ (List.mem_flatMap.2 ⟨m, hms m hm, hv⟩)
  have hshown (v : Text) (hv : v ∈ c.values) :
      ∀ p ∈ [Piece.shown v], IsFrom fixedTexts c.values p :=
    List.forall_mem_singleton.2 hv
  have hend : IsFrom fixedTexts c.values (.fixed crlf) := show crlf ∈ _ by decide
  simp only [pieces, List.forall_mem_append]
  refine ⟨⟨⟨⟨⟨⟨?_, ?_⟩, ?_⟩, ?_⟩, ?_⟩, ?_⟩, ?_⟩
  · have hbanner : IsFrom fixedTexts c.values (.fixed banner) := show banner ∈ _ by decide
    simpa [tagPiece, IsFrom] using ⟨hbanner, hend⟩
  · exact isFrom_linePieces (by decide) (hmailboxes c.authors (by simp +contextual))
  · exact isFrom_linePieces (by decide) (hshown c.date (by simp [Citation.values]))
  · exact isFrom_linePieces (by decide) (hshown c.subject (by simp [Citation.values]))
  · exact isFrom_linePieces (by decide) (hmailboxes c.recipients (by simp +contextual))
  · split
    · exact fun p hp => absurd hp List.not_mem_nil
    · exact isFrom_linePieces (by decide) (hmailboxes c.copies (by simp +contextual))
  · simpa [tagPiece, IsFrom] using hend

/-! ### They are sound -/

theorem isSound_plainTag {name : Text} (h : IsTagName name) : (tagPiece (plainTag name)).IsSound :=
  ⟨h, fun _ ha => absurd ha List.not_mem_nil⟩

theorem isSound_linkTag (m : Mailbox) : (tagPiece (linkTag m)).IsSound := by
  have hvalue : IsClean ("mailto:" ++ Markup.quoted m.email) :=
    IsClean.append (by decide) (isClean_quoted m.email)
  exact ⟨show IsTagName "a" by decide,
    List.forall_mem_singleton.2 ⟨show IsTagName "href" by decide, hvalue⟩⟩

theorem isSound_mailboxTags (m : Mailbox) : ∀ t ∈ mailboxTags m, (tagPiece t).IsSound := by
  have hstrong : ∀ t ∈ [plainTag "strong", plainTag "/strong"], (tagPiece t).IsSound :=
    List.forall_mem_cons.2 ⟨isSound_plainTag (by decide),
      List.forall_mem_singleton.2 (isSound_plainTag (by decide))⟩
  rw [mailboxTags, List.forall_mem_append]
  constructor
  · split
    · exact fun t ht => absurd ht List.not_mem_nil
    · exact hstrong
  · exact List.forall_mem_cons.2 ⟨isSound_linkTag m,
      List.forall_mem_singleton.2 (isSound_plainTag (by decide))⟩

theorem isSound_tags (c : Citation) : ∀ t ∈ c.tags, (tagPiece t).IsSound := by
  have hlist (ms : List Mailbox) : ∀ t ∈ ms.flatMap mailboxTags, (tagPiece t).IsSound := by
    intro t ht
    obtain ⟨m, -, ht⟩ := List.mem_flatMap.1 ht
    exact isSound_mailboxTags m t ht
  have hbr : (tagPiece (plainTag "br")).IsSound := isSound_plainTag (by decide)
  have hframe : (tagPiece frameTag).IsSound :=
    ⟨by decide, List.forall_mem_singleton.2 ⟨by decide, by decide⟩⟩
  have hend : (tagPiece (plainTag "/div")).IsSound := isSound_plainTag (by decide)
  have hcopies : ∀ t ∈ (if c.copies = [] then [] else
      c.copies.flatMap mailboxTags ++ [plainTag "br"]), (tagPiece t).IsSound := by
    split
    · exact fun t ht => absurd ht List.not_mem_nil
    · exact List.forall_mem_append.2 ⟨hlist c.copies, List.forall_mem_singleton.2 hbr⟩
  simp only [tags, List.forall_mem_append, List.forall_mem_cons]
  exact ⟨⟨⟨⟨⟨⟨⟨hframe, hbr, nofun⟩, hlist c.authors⟩, hbr, hbr, hbr, nofun⟩, hlist c.recipients⟩,
    hbr, nofun⟩, hcopies⟩, hend, hbr, nofun⟩

theorem isSound_pieces (c : Citation) : ∀ p ∈ c.pieces, p.IsSound := by
  intro p hp
  cases p with
  | fixed t =>
    have hfixed : ∀ t ∈ fixedTexts, IsClean t := by decide
    exact hfixed t (isFrom_pieces c _ hp)
  | shown value => trivial
  | tag name attributes =>
    refine isSound_tags c (name, attributes) ?_
    rw [← tags_pieces]
    exact List.mem_filterMap.2 ⟨_, hp, rfl⟩

end Citation

/-! ## Where the citation is put -/

theorem offsetOf?_eq_some {needle t : Text} {n : Nat} (h : offsetOf? needle t = some n) :
    ∃ a b, t = a ++ needle ++ b ∧ a.length = n := by
  induction t generalizing n with
  | nil =>
    simp only [offsetOf?] at h
    split at h
    · rename_i hempty
      obtain rfl := List.isEmpty_iff.1 hempty
      exact ⟨[], [], rfl, Option.some.inj h⟩
    · exact nomatch h
  | cons c t ih =>
    simp only [offsetOf?] at h
    split at h
    · rename_i hstart
      obtain ⟨b, hb⟩ := List.isPrefixOf_iff_prefix.1 hstart
      exact ⟨[], b, hb.symm, Option.some.inj h⟩
    · obtain ⟨k, hk, rfl⟩ := Option.map_eq_some_iff.1 h
      obtain ⟨a, b, rfl, rfl⟩ := ih hk
      exact ⟨c :: a, b, rfl, rfl⟩

/-- What stands in front of the citation ends with a tag that opens a body. -/
def EndsAtBody (before : Text) : Prop :=
  ∃ a b, Text.asciiLower before = a ++ "<body" ++ b ++ ['>']

theorem endsAtBody_of_bodyStart? {page : Text} {n : Nat} (h : bodyStart? page = some n) :
    EndsAtBody (page.take n) := by
  obtain ⟨start, hstart, h⟩ := Option.bind_eq_some_iff.1 h
  obtain ⟨length, hlength, h⟩ := Option.bind_eq_some_iff.1 h
  obtain rfl := Option.some.inj h
  obtain ⟨a, b, hlower, rfl⟩ := offsetOf?_eq_some hstart
  obtain ⟨inside, after, hrest, rfl⟩ := offsetOf?_eq_some hlength
  rw [hlower, List.append_assoc, List.drop_left, List.append_assoc] at hrest
  have hbody : ∃ b', inside = "<body" ++ b' := by
    rcases List.append_eq_append_iff.1 hrest with ⟨b', hinside, -⟩ | ⟨c, hname, hclose⟩
    · exact ⟨b', hinside⟩
    · cases c with
      | nil => exact ⟨[], by simpa using hname.symm⟩
      | cons x c =>
        -- the name of the tag has no bracket that closes a tag
        obtain ⟨rfl, -⟩ := List.cons.inj hclose
        have hmem : '>' ∈ "<body".toList := hname ▸ List.mem_append_right inside List.mem_cons_self
        exact absurd hmem (by decide)
  obtain ⟨b', rfl⟩ := hbody
  refine ⟨a, b', ?_⟩
  have hpage : Text.asciiLower page = a ++ "<body" ++ b' ++ ['>'] ++ after := by
    rw [hlower, List.append_assoc, hrest]
    simp only [List.append_assoc]
  have hlength : a.length + ("<body".toList ++ b').length + 1 =
      (a ++ "<body" ++ b' ++ ['>']).length := by
    simp only [List.length_append, List.length_singleton]
    omega
  rw [Text.asciiLower, List.map_take, ← Text.asciiLower, hpage, hlength, List.take_left]

/-- A block is put into a page in one piece, behind the tag that opens the body or in front. -/
theorem insertIntoPage_eq (block page : Text) : ∃ before after, page = before ++ after ∧
    insertIntoPage block page = before ++ block ++ after ∧ (before = [] ∨ EndsAtBody before) := by
  refine ⟨page.take ((bodyStart? page).getD 0), page.drop ((bodyStart? page).getD 0),
    (List.take_append_drop _ page).symm, rfl, ?_⟩
  cases hstart : bodyStart? page with
  | none => exact .inl rfl
  | some n => exact .inr (endsAtBody_of_bodyStart? hstart)

/-- The page of a citation reads as its pieces do, whatever follows it: its tags are those that
the form asks for, the other pieces are fixed texts and escaped values, and nothing between the
tags, nor in the value of an attribute, begins or ends anything.  It is put into a page in one
piece, and so it is into the part for the first page of a letter. -/
theorem Citation.admits_no_markup (c : Citation) :
    (∀ rest, Markup.tokens (c.asPage ++ rest) =
        c.pieces.flatMap Markup.Piece.tokens ++ Markup.tokens rest) ∧
      (Markup.tokens c.asPage).filterMap Markup.Token.tag? = c.tags ∧
      (∀ p ∈ c.pieces, Citation.IsFrom Citation.fixedTexts c.values p) ∧
      (∀ x ∈ Markup.tokens c.asPage, x.IsClean) ∧
      (∀ page, ∃ before after, page = before ++ after ∧
        insertIntoPage c.asPage page = before ++ c.asPage ++ after ∧
        (before = [] ∨ EndsAtBody before)) ∧
      ∀ (leaf : Part) (cited : Cited) (page : Text), leaf.isInline = true →
        leaf.type.mimeType = "text/html".toList → cited.page = false → leaf.text? = some page →
        ∃ before after, page = before ++ after ∧
          Enclosure.ofLeaf c cited leaf =
            .ok (⟨"text/html; charset=\"utf-8\"", Enclosure.dispositionOf leaf,
              Utf8.encode (before ++ c.asPage ++ after)⟩, { cited with page := true }) := by
  have hsound := Citation.isSound_pieces c
  have hread (rest : Text) : Markup.tokens (c.asPage ++ rest) =
      c.pieces.flatMap Markup.Piece.tokens ++ Markup.tokens rest := by
    rw [← Citation.write_pieces]
    exact Markup.tokens_write hsound rest
  have hpage : Markup.tokens c.asPage = c.pieces.flatMap Markup.Piece.tokens := by
    have h := hread []
    rwa [List.append_nil, show Markup.tokens [] = [] from rfl, List.append_nil] at h
  refine ⟨hread, ?_, Citation.isFrom_pieces c, ?_, insertIntoPage_eq c.asPage, ?_⟩
  · rw [hpage, Markup.tags_tokens, Citation.tags_pieces]
  · intro x hx
    rw [hpage] at hx
    obtain ⟨p, hp, hx⟩ := List.mem_flatMap.1 hx
    exact (hsound p hp).isClean x hx
  · intro leaf cited page hinline htype hcited htext
    obtain ⟨before, after, hsplit, hinsert, -⟩ := insertIntoPage_eq c.asPage page
    refine ⟨before, after, hsplit, ?_⟩
    have hnotText : ("text/html".toList == "text/plain".toList) = false := by decide
    simp only [Enclosure.ofLeaf, hinline, htype, hcited, htext, hnotText, Enclosure.ofCoding,
      ← hinsert]
    rfl

/-! ### A citation that is full of tags -/

/-- What a message says about itself that would open a script wherever it can. -/
def scriptCitation : Citation where
  authors := [⟨some "<script>", "\"><script>@x.com"⟩, ⟨none, "a@b.com"⟩]
  date := "</div><script>"
  subject := "\" onclick=\"x()"
  recipients := []
  copies := [⟨some [], "c@b.com"⟩]

/-- The first page of a letter. -/
def greetingPage : Part :=
  .mk [] ⟨"text/html", "us-ascii", .empty⟩ (Utf8.encode "<html><BODY>hello") []

/-- The citation is put behind the tag that opens the body. -/
theorem scriptCitation_in_page : ∃ before after, "<html><BODY>hello".toList = before ++ after ∧
    Enclosure.ofLeaf scriptCitation ⟨false, false⟩ greetingPage =
      .ok (⟨"text/html; charset=\"utf-8\"", Enclosure.dispositionOf greetingPage,
        Utf8.encode (before ++ scriptCitation.asPage ++ after)⟩, ⟨false, true⟩) :=
  (Citation.admits_no_markup scriptCitation).2.2.2.2.2 greetingPage ⟨false, false⟩ _
    (by decide) rfl rfl (by decide +kernel)

end Mailroom
