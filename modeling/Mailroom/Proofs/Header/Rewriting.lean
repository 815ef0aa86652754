import Mailroom.Proofs.Header.Groups

/-!
# Reading what is kept of a header block

What is kept of a header block when it is revised reads back as the fields that are kept, whatever
follows it.

* `Group` gathers what is to be known of the lines that a field is read from;
  `group_readField` shows it for the first field of any bytes.
* `readFields_induct` goes through a header block field by field, and `readFields_keptLines` through
  what is kept of it.
-/

namespace Mailroom

/-! ## Groups -/

/-- Whether a field is dropped; `dropping` tells so of the field before. -/
def dropsField (edits : List Field) (dropping : Bool) (f : RawField) : Bool :=
  if beginsFolded f.key then dropping else isEdited edits (lineName f.key)

/-- The lines `g` that a field is read from, where `rest` follows. -/
structure Group (f : RawField) (g rest : Bytes) : Prop where
  /-- The lines begin with a byte that does not end the header block. -/
  first : ∃ c l, g = c :: l ∧ c ≠ 10 ∧ c ≠ 13
  /-- Only the last line of all may lack its end. -/
  ended : endsLine g = true ∨ rest = []
  /-- The lines begin as the name does. -/
  folded : beginsFolded g = beginsFolded f.key
  /-- The lines are kept or dropped together. -/
  kept : ∀ eol edits dropping h, (endsLine g = true ∨ h = []) →
    keptLines eol edits dropping (linesInclusive (g ++ h)) =
      (if dropsField edits dropping f then [] else g ++ finish eol g) ++
        keptLines eol edits (dropsField edits dropping f) (linesInclusive h)
  /-- In front of other bytes the lines read as the same field; a line without its end and
  without a colon may get a carriage return into its name. -/
  read : ∀ eol x, IsLineBreak eol → (beginsFolded x = false ∨ beginsFolded rest = true) →
    ∃ f', readField (g ++ finish eol g ++ x) = (f', x) ∧
      (f' = f ∨ eol = [13, 10] ∧ rest = [] ∧ g = f.key ∧ IsKey f.key ∧ f.value = [] ∧
        f' = ⟨f.key ++ [13], []⟩)

section Group

variable {c : UInt8} {key : Bytes}

theorem group_of_key (h13 : c ≠ 13) (hkey : IsKey (c :: key)) :
    Group ⟨c :: key, []⟩ (c :: key) [] := by
  have h10 : 10 ∉ c :: key := hkey.not_mem.2
  have hends := endsLine_of_not_mem h10
  refine ⟨⟨c, key, rfl, fun h => h10 (by simp [h]), h13⟩, Or.inr rfl, rfl, ?_, ?_⟩
  · intro eol edits dropping h hend
    obtain rfl : h = [] := by simpa [hends] using hend
    rw [List.append_nil, keptLines_last h10 (by simp), finish, hends]
    simp [linesInclusive, keptLines, dropsLine, dropsField]
  · intro eol x heol _
    rw [finish, hends]
    rcases heol with rfl | rfl
    · refine ⟨⟨c :: key, []⟩, ?_, Or.inl rfl⟩
      have := readField_of_lineFeed hkey x
      simpa using this
    · refine ⟨⟨c :: key ++ [13], []⟩, ?_, Or.inr ⟨rfl, rfl, rfl, hkey, rfl, rfl⟩⟩
      have hkey' : IsKey (c :: key ++ [13]) := by
        intro b hb
        rcases List.mem_append.1 hb with hb | hb
        · exact hkey b hb
        · rw [List.mem_singleton.1 hb]
          rfl
      have := readField_of_lineFeed hkey' x
      simpa using this

theorem group_of_lineFeed (h13 : c ≠ 13) (hkey : IsKey (c :: key)) (r : Bytes) :
    Group ⟨c :: key, []⟩ (c :: key ++ [10]) r := by
  have h10 : 10 ∉ c :: key := hkey.not_mem.2
  have hends : endsLine (c :: key ++ [10]) = true := endsLine_append _
  refine ⟨⟨c, key ++ [10], rfl, fun h => h10 (by simp [h]), h13⟩, Or.inl hends, rfl, ?_, ?_⟩
  · intro eol edits dropping h _
    rw [List.append_assoc, List.singleton_append, keptLines_append h10 h13, finish, hends]
    simp [dropsLine, dropsField]
  · intro eol x _ _
    refine ⟨⟨c :: key, []⟩, ?_, Or.inl rfl⟩
    rw [finish, hends]
    have := readField_of_lineFeed hkey x
    simpa using this

theorem blank_of_mem_takeWhile (r : Bytes) : ∀ b ∈ r.takeWhile (· == 32), (b == 32) = true :=
  List.all_eq_true.1 List.all_takeWhile

theorem head?_dropWhile_blank (r : Bytes) : (r.dropWhile (· == 32)).head? ≠ some 32 := by
  have hnot := List.head?_dropWhile_not (fun b : UInt8 => b == 32) r
  intro hhead
  rw [hhead] at hnot
  simp at hnot

theorem dropWhile_blank_append {sp y : Bytes} (hsp : ∀ b ∈ sp, (b == 32) = true)
    (hy : y.head? ≠ some 32) : (sp ++ y).dropWhile (· == 32) = y := by
  rw [List.dropWhile_append_of_pos hsp]
  exact List.dropWhile_beq_eq_self_of_head?_ne hy

section Colon

variable {key sp v : Bytes} (hkey : IsKey key) (hsp : ∀ b ∈ sp, (b == 32) = true)

theorem beginsFolded_colon (key t : Bytes) : beginsFolded (key ++ 58 :: t) = beginsFolded key := by
  cases key <;> rfl

include hkey

theorem lineName_colon (t : Bytes) : lineName (key ++ 58 :: t) = lineName key := by
  have hcolon : ∀ b ∈ key, (b != 58) = true := by
    intro b hb
    simp only [bne_iff_ne]
    rintro rfl
    exact hkey.not_mem.1 hb
  have hself : key.takeWhile (· != 58) = key := List.takeWhile_eq_self_iff.2 hcolon
  rw [lineName, lineName, hself, List.takeWhile_append_of_pos hcolon]
  simp

/-- Whether the line of a field is dropped does not depend on what follows the colon. -/
theorem dropsLine_colon (edits : List Field) (dropping : Bool) (t value : Bytes) :
    dropsLine edits dropping (key ++ 58 :: t) = dropsField edits dropping ⟨key, value⟩ := by
  rw [dropsLine, beginsFolded_colon, lineName_colon hkey]
  rfl

include hsp

theorem lineFeed_not_mem_colon {t : Bytes} (ht : 10 ∉ t) : 10 ∉ key ++ 58 :: (sp ++ t) := by
  intro h
  simp only [List.mem_append, List.mem_cons] at h
  rcases h with h | h | h | h
  · exact hkey.not_mem.2 h
  · simp at h
  · simpa using hsp 10 h
  · exact ht h

theorem endsLine_colon (v : Bytes) : endsLine (key ++ 58 :: (sp ++ v)) = endsLine v := by
  cases v with
  | nil => exact endsLine_of_not_mem (lineFeed_not_mem_colon hkey hsp (by simp))
  | cons b v =>
    rw [show key ++ 58 :: (sp ++ b :: v) = (key ++ 58 :: sp) ++ b :: v by simp]
    exact endsLine_append_of_ne_nil _ (by simp)

/-- The lines of a field are kept or dropped together: the one with the name, and those that
continue the value. -/
theorem keptLines_colon {c : UInt8} {g : Bytes} (hg : key ++ 58 :: (sp ++ v) = c :: g)
    (h13 : c ≠ 13) (hvalue : IsValue v) (eol : Bytes) (edits : List Field) (dropping : Bool)
    {h : Bytes} (hh : endsLine (c :: g) = true ∨ h = []) :
    keptLines eol edits dropping (linesInclusive (c :: g ++ h)) =
      (if dropsField edits dropping ⟨key, dropLineBreaks v⟩ then [] else
        c :: g ++ finish eol (c :: g)) ++
        keptLines eol edits (dropsField edits dropping ⟨key, dropLineBreaks v⟩)
          (linesInclusive h) := by
  rcases line_cases v with hv | ⟨l, r, hl, rfl⟩
  · have hg10 : 10 ∉ c :: g := hg ▸ lineFeed_not_mem_colon hkey hsp hv
    have hfalse := endsLine_of_not_mem hg10
    obtain rfl : h = [] := by simpa [hfalse] using hh
    rw [List.append_nil, keptLines_last hg10 (by simp), finish, hfalse, ← hg,
      dropsLine_colon hkey _ _ _ (dropLineBreaks v)]
    simp [linesInclusive, keptLines]
  · have hsplit : c :: g = (key ++ 58 :: (sp ++ l)) ++ 10 :: r := by
      rw [← hg]
      simp
    obtain ⟨l', hl'⟩ : ∃ l', key ++ 58 :: (sp ++ l) = c :: l' := by
      cases key with
      | nil => exact ⟨sp ++ l, by rw [(List.cons.inj hg).1.symm]; rfl⟩
      | cons k key => exact ⟨key ++ 58 :: (sp ++ l), by rw [(List.cons.inj hg).1.symm]; rfl⟩
    have hl10 : 10 ∉ c :: l' := hl' ▸ lineFeed_not_mem_colon hkey hsp hl
    have hdrops : dropsLine edits dropping (c :: l') =
        dropsField edits dropping ⟨key, dropLineBreaks (l ++ 10 :: r)⟩ := by
      rw [← hl', dropsLine_colon hkey _ _ _ (dropLineBreaks (l ++ 10 :: r))]
    rw [hsplit, hl', List.append_assoc, show 10 :: r ++ h = 10 :: (r ++ h) from rfl,
      keptLines_append hl10 h13, hdrops]
    cases r with
    | nil =>
      rw [finish, endsLine_append]
      simp
    | cons y r =>
      have hvalue' : IsValue (10 :: y :: r) := hvalue.of_append
      have hsame : endsLine (c :: l' ++ 10 :: y :: r) = endsLine (y :: r) := by
        rw [endsLine_append_of_ne_nil _ (by simp)]
        exact endsLine_append_of_ne_nil [10] (by simp)
      rw [hsplit, hl', hsame] at hh
      rw [keptLines_continued hvalue'.folded hvalue'.tail hh, finish, finish, hsame]
      cases dropsField edits dropping ⟨key, dropLineBreaks (l ++ 10 :: y :: r)⟩ <;> simp

/-- In front of bytes that do not continue them the lines of a field read as it. -/
theorem readField_colon_append (hvalue : IsValue v) (hhead : v.head? ≠ some 32) {eol x : Bytes}
    (heol : IsLineBreak eol) (hx : beginsFolded x = false) :
    readField (key ++ 58 :: (sp ++ v) ++ finish eol (key ++ 58 :: (sp ++ v)) ++ x) =
      (⟨key, dropLineBreaks v⟩, x) := by
  cases hv : endsLine v with
  | true =>
    have hhead' : (v ++ x).head? ≠ some 32 := by
      cases v with
      | nil => simp [endsLine] at hv
      | cons a v => exact hhead
    have hform : key ++ 58 :: (sp ++ v) ++ (if true then [] else eol) ++ x =
        key ++ 58 :: (sp ++ (v ++ x)) := by simp
    rw [finish, endsLine_colon hkey hsp, hv, hform, readField_of_colon hkey,
      dropWhile_blank_append hsp hhead', spanValue_append hvalue (by simpa [endsLine] using hv) hx]
  | false =>
    have hhead' : (v ++ (eol ++ x)).head? ≠ some 32 := by
      cases v with
      | nil => rcases heol with rfl | rfl <;> simp
      | cons a v => exact hhead
    have hform : key ++ 58 :: (sp ++ v) ++ (if false then [] else eol) ++ x =
        key ++ 58 :: (sp ++ (v ++ (eol ++ x))) := by simp
    rw [finish, endsLine_colon hkey hsp, hv, hform, readField_of_colon hkey,
      dropWhile_blank_append hsp hhead',
      spanValue_append_open hvalue (by simpa [endsLine] using hv), spanValue_lineBreak heol hx,
      dropLineBreaks_append heol]

/-- The lines of a field with a value: the name, a colon, blanks and the value. -/
theorem group_of_colon {c : UInt8} {rest g : Bytes} (hg : key ++ 58 :: (sp ++ v) = c :: g)
    (h10 : c ≠ 10) (h13 : c ≠ 13) (hvalue : IsValue v) (hhead : v.head? ≠ some 32)
    (hend : endsLine v = true ∨ rest = []) (hrest : beginsFolded rest = false) :
    Group ⟨key, dropLineBreaks v⟩ (c :: g) rest := by
  refine ⟨⟨c, g, rfl, h10, h13⟩, ?_, ?_, fun eol edits dropping h hh =>
    keptLines_colon hkey hsp hg h13 hvalue eol edits dropping hh, fun eol x heol hx =>
    ⟨_, ?_, Or.inl rfl⟩⟩
  · rwa [← hg, endsLine_colon hkey hsp]
  · rw [← hg]
    exact beginsFolded_colon key _
  · rw [← hg]
    exact readField_colon_append hkey hsp hvalue hhead heol (by simpa [hrest] using hx)

end Colon

/-- The first field of some bytes is read from a group of lines. -/
theorem group_readField {c : UInt8} (bs : Bytes) (h10 : c ≠ 10) (h13 : c ≠ 13) :
    ∃ g, c :: bs = g ++ (readField (c :: bs)).2 ∧
      Group (readField (c :: bs)).1 g (readField (c :: bs)).2 := by
  obtain ⟨key, hkey, hform | ⟨r, hform⟩ | ⟨r, hform⟩⟩ := readField_cases (c :: bs)
  · rw [← hform] at hkey
    rw [readField_of_key hkey]
    exact ⟨c :: bs, by simp, group_of_key h13 hkey⟩
  · have hsplit := List.takeWhile_append_dropWhile (p := fun b : UInt8 => b == 32) (l := r)
    have hspan := spanValue_append_snd (r.dropWhile (· == 32))
    have hfull : c :: bs = key ++ 58 :: (r.takeWhile (· == 32) ++
        (spanValue (r.dropWhile (· == 32))).1) ++ (spanValue (r.dropWhile (· == 32))).2 := by
      rw [hform, List.append_assoc, List.cons_append, List.append_assoc, hspan, hsplit]
    rw [hform, readField_of_colon hkey]
    refine ⟨_, by rw [← hform, hfull], ?_⟩
    cases hg : key ++ 58 :: (r.takeWhile (· == 32) ++
        (spanValue (r.dropWhile (· == 32))).1) with
    | nil => simp at hg
    | cons c' g =>
      obtain rfl : c = c' := by
        rw [hg] at hfull
        exact (List.cons.inj hfull).1
      refine group_of_colon hkey (blank_of_mem_takeWhile r) hg h10 h13 (isValue_spanValue _)
        ?_ ?_ (beginsFolded_spanValue _)
      · have hnot := head?_dropWhile_blank r
        cases hv : (spanValue (r.dropWhile (· == 32))).1 with
        | nil => simp
        | cons a v =>
          rw [hv] at hspan
          rwa [← hspan] at hnot
      · by_cases hrest : (spanValue (r.dropWhile (· == 32))).2 = []
        · exact Or.inr hrest
        · refine Or.inl ?_
          simp [endsLine, getLast?_spanValue hrest]
  · rw [hform, readField_of_lineFeed hkey]
    cases key with
    | nil => exact absurd (List.cons.inj hform).1 h10
    | cons k key =>
      obtain rfl : c = k := (List.cons.inj hform).1
      exact ⟨c :: key ++ [10], by simp, group_of_lineFeed h13 hkey r⟩

end Group

/-! ## The fields that are kept -/

/-- The fields that revising keeps; `dropping` tells whether the field before is dropped. -/
def keptFields (edits : List Field) (dropping : Bool) : List RawField → List RawField
  | [] => []
  | f :: fs =>
    (if dropsField edits dropping f then [] else [f]) ++
      keptFields edits (dropsField edits dropping f) fs

/-- Whether some bytes end, within the header block, in a line that holds nothing but a name and
is not ended, so that a line break of two bytes that is put after it gets into the name. -/
structure Hangs (eol bs body key : Bytes) : Prop where
  /-- The line break has two bytes. -/
  lineBreak : eol = [13, 10]
  /-- The header block is not ended. -/
  body : body = []
  /-- The line is a name. -/
  isKey : IsKey key
  /-- There is such a line. -/
  key_ne : key ≠ []
  /-- It is the last one. -/
  line : ∃ init, bs = init ++ key ∧ (init = [] ∨ endsLine init = true)

theorem Hangs.append {eol g bs body key : Bytes} (h : Hangs eol bs body key)
    (hg : endsLine g = true ∨ bs = []) : Hangs eol (g ++ bs) body key := by
  obtain ⟨init, rfl, hinit⟩ := h.line
  refine ⟨h.lineBreak, h.body, h.isKey, h.key_ne, g ++ init, by simp, Or.inr ?_⟩
  rcases hinit with rfl | hinit
  · rw [List.append_nil]
    exact hg.resolve_right (by simp [h.key_ne])
  · rw [endsLine_append_of_ne_nil, hinit]
    rintro rfl
    simp [endsLine] at hinit

/-- The same fields, but that the last one, read from a line that hangs, may have got a carriage
return into its name. -/
def Settles (eol bs body : Bytes) (fs fs' : List RawField) : Prop :=
  fs' = fs ∨ ∃ init key, Hangs eol bs body key ∧ fs = init ++ [⟨key, []⟩] ∧
    fs' = init ++ [⟨key ++ [13], []⟩]

namespace Settles

variable {eol g bs body : Bytes} {fs fs' : List RawField}

theorem append (h : Settles eol bs body fs fs') (hg : endsLine g = true ∨ bs = []) :
    Settles eol (g ++ bs) body fs fs' := by
  rcases h with rfl | ⟨init, key, hhangs, hfs, hfs'⟩
  · exact Or.inl rfl
  · exact Or.inr ⟨init, key, hhangs.append hg, hfs, hfs'⟩

theorem cons (f : RawField) (h : Settles eol bs body fs fs') :
    Settles eol bs body (f :: fs) (f :: fs') := by
  rcases h with rfl | ⟨init, key, hhangs, rfl, rfl⟩
  · exact Or.inl rfl
  · exact Or.inr ⟨f :: init, key, hhangs, rfl, rfl⟩

/-- A line that hangs and is all that there is. -/
theorem of_hanging (heol : eol = [13, 10]) {f : RawField} (hkey : IsKey f.key) (hne : f.key ≠ [])
    (hvalue : f.value = []) : Settles eol f.key [] [f] [⟨f.key ++ [13], []⟩] := by
  refine Or.inr ⟨[], f.key, ⟨heol, rfl, hkey, hne, [], rfl, Or.inl rfl⟩, ?_, rfl⟩
  rw [← hvalue, List.nil_append]

theorem eq_nil (h : Settles eol bs body [] fs) : fs = [] := by
  rcases h with rfl | ⟨init, key, -, h, -⟩
  · rfl
  · simp at h

end Settles

theorem readFields_cons {c : UInt8} {bs : Bytes} (h10 : c ≠ 10) (h13 : c ≠ 13) (h32 : c ≠ 32) :
    readFields (c :: bs) = match readFields (readField (c :: bs)).2 with
      | .ok r => .ok ((readField (c :: bs)).1 :: r.1, r.2)
      | .error e => .error e := by
  refine (readFields.eq_def (c :: bs)).trans ?_
  dsimp only
  refine (if_neg h10).trans ((if_neg h13).trans ((if_neg h32).trans ?_))
  cases readFields (readField (c :: bs)).2 <;> rfl

/-- No name holds a colon or a line feed. -/
theorem isKey_readField (bs : Bytes) : IsKey (readField bs).1.key := by
  have hkey : (readField bs).1.key = bs.takeWhile (fun b => !endsKey b) := by
    unfold readField
    split
    · rfl
    · dsimp only
      split <;> rfl
  rw [hkey]
  intro b hb
  have hall := List.all_eq_true.1 (List.all_takeWhile (p := fun b => !endsKey b) (l := bs)) b hb
  simpa using hall

theorem readFields_lineFeed (bs : Bytes) : readFields (10 :: bs) = .ok ([], bs) := by
  rw [readFields.eq_def]
  rfl

theorem readFields_return (bs : Bytes) : readFields (13 :: bs) = match bs with
    | 10 :: rest => .ok ([], rest)
    | _ => .error .loneReturn := by
  rw [readFields.eq_def]
  rfl

theorem readFields_blank (bs : Bytes) : readFields (32 :: bs) = .error .leadingBlank := by
  rw [readFields.eq_def]
  rfl

/-! ## Through a header block -/

/-- Whether some bytes end a header block in front of a body. -/
def IsStop (stop body : Bytes) : Prop := stop = [] ∧ body = [] ∨ stop = [10] ∨ stop = [13, 10]

/-- What holds of a header block without fields, and of one with a field more than one of which it
holds, holds of all that can be read. -/
theorem readFields_induct {body : Bytes} {motive : Bytes → List RawField → Prop}
    (stop : ∀ stop, IsStop stop body → motive (stop ++ body) [])
    (field : ∀ f g rest fields, readField (g ++ rest) = (f, rest) → Group f g rest →
      readFields (g ++ rest) = .ok (f :: fields, body) ∧ readFields rest = .ok (fields, body) →
      motive rest fields → motive (g ++ rest) (f :: fields))
    {bs : Bytes} {fields : List RawField} (h : readFields bs = .ok (fields, body)) :
    motive bs fields := by
  induction hn : bs.length using Nat.strongRecOn generalizing bs fields with
  | _ n ih =>
    cases bs with
    | nil =>
      simp only [readFields, Except.ok.injEq, Prod.mk.injEq] at h
      rw [← h.1]
      have := stop [] (Or.inl ⟨rfl, h.2.symm⟩)
      rwa [← h.2] at this
    | cons c bs =>
      by_cases h10 : c = 10
      · subst h10
        simp only [readFields_lineFeed, Except.ok.injEq, Prod.mk.injEq] at h
        rw [← h.1, h.2]
        exact stop [10] (Or.inr (Or.inl rfl))
      by_cases h13 : c = 13
      · subst h13
        rw [readFields_return] at h
        split at h
        · simp only [Except.ok.injEq, Prod.mk.injEq] at h
          rw [← h.1, h.2]
          exact stop [13, 10] (Or.inr (Or.inr rfl))
        · simp at h
      by_cases h32 : c = 32
      · subst h32
        rw [readFields_blank] at h
        simp at h
      have hwhole := h
      rw [readFields_cons h10 h13 h32] at h
      cases hrest : readFields (readField (c :: bs)).2 with
      | error e => simp [hrest] at h
      | ok r =>
        simp only [hrest, Except.ok.injEq, Prod.mk.injEq] at h
        obtain ⟨rfl, rfl⟩ := h
        obtain ⟨g, hg, hgroup⟩ := group_readField bs h10 h13
        have hstep := field _ g _ r.1 (by rw [← hg]) hgroup ⟨by rw [← hg]; exact hwhole, hrest⟩
          (ih _ (hn ▸ length_readField_lt c bs) hrest rfl)
        rwa [← hg] at hstep

theorem isKey_of_readFields {bs body : Bytes} {fields : List RawField}
    (h : readFields bs = .ok (fields, body)) : ∀ f ∈ fields, IsKey f.key := by
  refine readFields_induct (motive := fun _ fields => ∀ f ∈ fields, IsKey f.key) ?_ ?_ h
  · simp
  · intro f g rest fields hread _ _ ih f' hf'
    rcases List.mem_cons.1 hf' with rfl | hf'
    · have hkey := isKey_readField (g ++ rest)
      rwa [hread] at hkey
    · exact ih f' hf'

namespace Group

variable {f : RawField} {g rest : Bytes} (h : Group f g rest)

include h

theorem ne_nil : g ≠ [] := by
  obtain ⟨c, l, rfl, -, -⟩ := h.first
  simp

theorem beginsFolded_append (x : Bytes) : beginsFolded (g ++ x) = beginsFolded f.key := by
  rw [← h.folded]
  obtain ⟨c, l, rfl, -, -⟩ := h.first
  rfl

/-- The lines of a field that were read in one block are read in another one, whatever follows. -/
theorem readFields_append {r r' : List RawField × Bytes} (hwhole : readFields (g ++ rest) = .ok r)
    {f' : RawField} {x y : Bytes} (hread : readField (g ++ y) = (f', x))
    (hx : readFields x = .ok r') : readFields (g ++ y) = .ok (f' :: r'.1, r'.2) := by
  obtain ⟨c, l, rfl, h10, h13⟩ := h.first
  have h32 : c ≠ 32 := by
    rintro rfl
    rw [List.cons_append, readFields_blank] at hwhole
    simp at hwhole
  rw [List.cons_append] at hread ⊢
  rw [readFields_cons h10 h13 h32, hread, hx]

end Group

/-- What is kept of a header block reads as the fields that are kept, whatever fields follow. -/
theorem readFields_keptLines (edits : List Field) {eol tail body' : Bytes} {new : List RawField}
    (heol : IsLineBreak eol) (htail : readFields tail = .ok (new, body'))
    (hfolded : beginsFolded tail = false) {bs body : Bytes} {fields : List RawField}
    (dropping : Bool) (h : readFields bs = .ok (fields, body)) :
    ∃ head kept, bs = head ++ body ∧
      Settles eol bs body (keptFields edits dropping fields) kept ∧
      readFields (keptLines eol edits dropping (linesInclusive head) ++ tail) =
        .ok (kept ++ new, body') ∧
      (beginsFolded (keptLines eol edits dropping (linesInclusive head) ++ tail) = true →
        dropping = false ∧ beginsFolded bs = true) := by
  -- along the fields; that no group begins with a blank unless the bytes did carries the proof
  refine readFields_induct (motive := fun bs fields => ∀ dropping, ∃ head kept, bs = head ++ body ∧
    Settles eol bs body (keptFields edits dropping fields) kept ∧
    readFields (keptLines eol edits dropping (linesInclusive head) ++ tail) =
      .ok (kept ++ new, body') ∧
    (beginsFolded (keptLines eol edits dropping (linesInclusive head) ++ tail) = true →
      dropping = false ∧ beginsFolded bs = true)) ?_ ?_ h dropping
  · intro stop hstop dropping
    have hnone : keptLines eol edits dropping (linesInclusive stop) = [] := by
      rcases hstop with ⟨rfl, -⟩ | rfl | rfl <;> rfl
    refine ⟨stop, [], rfl, Or.inl rfl, by simpa [hnone] using htail, ?_⟩
    simp [hnone, hfolded]
  · intro f g rest fields _ hgroup ⟨hwhole, hrest⟩ ih dropping
    obtain ⟨head, kept, hsplit, hkept, hread, hfold⟩ := ih (dropsField edits dropping f)
    have hhead : endsLine g = true ∨ head = [] := by
      rcases hgroup.ended with hends | rfl
      · exact Or.inl hends
      · exact Or.inr (List.append_eq_nil_iff.1 hsplit.symm).1
    have hbs : g ++ rest = g ++ head ++ body := by rw [List.append_assoc, ← hsplit]
    have hkept' := hkept.append hgroup.ended
    refine ⟨g ++ head, ?_⟩
    rw [hgroup.kept eol edits dropping head hhead, keptFields]
    by_cases hdrop : dropsField edits dropping f = true
    · rw [hdrop] at hkept' hread hfold ⊢
      refine ⟨kept, hbs, hkept', hread, ?_⟩
      intro hx
      exact absurd (hfold hx).1 (by decide)
    · rw [Bool.not_eq_true] at hdrop
      rw [hdrop] at hkept hkept' hread hfold ⊢
      simp only [Bool.false_eq_true, if_false, List.append_assoc, List.singleton_append]
      -- the group is read again in front of what is kept after it
      obtain ⟨f', hf', hsame⟩ := hgroup.read eol _ heol (by
        cases hx : beginsFolded (keptLines eol edits false (linesInclusive head) ++ tail) with
        | false => exact Or.inl rfl
        | true => exact Or.inr (hfold hx).2)
      rw [List.append_assoc] at hf'
      refine ⟨f' :: kept, by simpa using hbs, ?_, hgroup.readFields_append hwhole hf' hread, ?_⟩
      · rcases hsame with rfl | ⟨heol', rfl, hgkey, hkey, hvalue, rfl⟩
        · exact hkept'.cons _
        · -- nothing comes after a line that hangs
          obtain ⟨rfl, rfl⟩ : fields = [] ∧ body = [] := by
            simp only [readFields, Except.ok.injEq, Prod.mk.injEq] at hrest
            exact ⟨hrest.1.symm, hrest.2.symm⟩
          obtain rfl := hkept.eq_nil
          rw [List.append_nil, hgkey]
          exact .of_hanging heol' hkey (hgkey ▸ hgroup.ne_nil) hvalue
      · intro hx
        rw [hgroup.beginsFolded_append] at hx
        rw [hgroup.beginsFolded_append, hx]
        exact ⟨by simpa [dropsField, hx] using hdrop, rfl⟩

end Mailroom
