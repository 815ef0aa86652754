import Mailroom.Proofs.Mailbox.Reading

/-!
# Mailboxes that read back

A list of mailboxes that was read, and is written again, reads back as it was if and only if all of
its mailboxes are plain.

The reader loses the characters that mean something to it.  Three of these are counted here: the
bracket before an address, the colon of a group and the backslash in a quoted name.  What is written
for a list has one bracket of its own for each name, and no colon and no backslash.  So if the same
list is read again no group was opened, nothing was escaped, and brackets stood behind names only.

* `Mailbox.Reader.marks` counts what a reader still has of these characters, and
  `Mailbox.Reader.run_tight` follows it through a text of which no other ones are lost.
* `Mailbox.Reader.IsBare.step` is for addresses without a name, and
  `Mailbox.Reader.NamesNext.step` for names.
* `Mailbox.reads_back` is the result.
-/

namespace Mailroom

namespace Mailbox

/-! ## Marks -/

/-- Whether a character is one of those that are counted. -/
def isMark (c : Char) : Bool := c == '<' || c == ':' || c == '\\'

/-- How many of them a text has. -/
def textMarks (t : Text) : Nat := t.countP isMark

@[simp, grind =] theorem textMarks_nil : textMarks [] = 0 := rfl

@[grind =] theorem textMarks_cons (c : Char) (t : Text) :
    textMarks (c :: t) = textMarks t + if isMark c then 1 else 0 := List.countP_cons

@[simp, grind =] theorem textMarks_append (t u : Text) :
    textMarks (t ++ u) = textMarks t + textMarks u := List.countP_append

/-- How many a mailbox has, together with the bracket before its address if it has a name. -/
def marks (m : Mailbox) : Nat :=
  textMarks (m.name.getD []) + textMarks m.email + if m.name.isSome then 1 else 0

/-- How many the mailboxes of a list have. -/
def listMarks (l : List Mailbox) : Nat := l.foldr (fun m n => m.marks + n) 0

@[simp, grind =] theorem listMarks_nil : listMarks [] = 0 := rfl

@[simp, grind =] theorem listMarks_cons (m : Mailbox) (l : List Mailbox) :
    listMarks (m :: l) = m.marks + listMarks l := rfl

@[simp, grind =] theorem listMarks_append (l l' : List Mailbox) :
    listMarks (l ++ l') = listMarks l + listMarks l' := by
  induction l with
  | nil => exact (Nat.zero_add _).symm
  | cons m l ih =>
    rw [List.cons_append, listMarks_cons, listMarks_cons, ih]
    omega

/-- How many there are in what a reader is inside of. -/
def Stage.marks : Stage → Nat
  | .between | .groupOpened | .afterBracket => 0
  | .quotedName t | .escaped t | .afterName t | .bare t => textMarks t
  | .bracketed name email => Mailbox.marks ⟨name, email⟩
  | .comment soFar => textMarks (soFar.getD [])

theorem textMarks_trimRight_le (t : Text) : textMarks (Text.trimRight t) ≤ textMarks t :=
  (Text.trimRight_prefix t).sublist.countP_le

namespace Reader

variable {r r' : Reader} {c : Char} {t : Text} {l : List Mailbox}

/-- How many marks a reader has. -/
def marks (r : Reader) : Nat :=
  listMarks r.read + r.stage.marks + textMarks r.blanks + textMarks (r.group.getD [])

/-- None comes in that was not in the text. -/
theorem marks_step_le (h : r.step c = .ok r') : r'.marks ≤ r.marks + textMarks [c] := by
  obtain ⟨stage, read, blanks, group⟩ := r
  cases stage <;> grind [step, begin, add, openGroup, closeGroup, Except.map, marks,
    Stage.marks, Mailbox.marks, textMarks_trimRight_le, isMark]

theorem marks_run_le (h : r.run t = .ok r') : r'.marks ≤ r.marks + textMarks t := by
  induction t generalizing r with
  | nil => exact Nat.le_of_eq (congrArg marks (Except.ok.inj h).symm)
  | cons c t ih =>
    obtain ⟨r₁, hstep, hrest⟩ := exists_of_run_cons h
    have hfirst := marks_step_le hstep
    have hall := ih hrest
    rw [← List.singleton_append, textMarks_append]
    omega

theorem marks_finish_le (h : r.finish = .ok l) : listMarks l ≤ r.marks := by
  rcases finish_eq_ok h with rfl | ⟨soFar, hstage, -, rfl⟩
  · rw [marks]
    omega
  · have hle := textMarks_trimRight_le soFar
    simp only [marks, hstage, Stage.marks, listMarks_append, listMarks_cons, listMarks_nil,
      Mailbox.marks, Option.getD_none, textMarks_nil, Option.isSome_none, Bool.false_eq_true,
      if_false]
    omega

/-! ### Texts of which no mark is lost -/

/-- What every step keeps that loses no mark is kept by a text of which none is lost. -/
theorem run_tight {I : Reader → Prop}
    (hstep : ∀ c r r', I r → r.step c = .ok r' → r.marks + textMarks [c] ≤ r'.marks → I r')
    (hr : I r) (h : r.run t = .ok r') (htight : r.marks + textMarks t ≤ r'.marks) : I r' := by
  induction t generalizing r with
  | nil => exact Except.ok.inj h ▸ hr
  | cons c t ih =>
    obtain ⟨r₁, hfirst, hrest⟩ := exists_of_run_cons h
    -- the rest brings in no more than it has, so that the first character loses none
    have hle := marks_step_le hfirst
    have hle' := marks_run_le hrest
    rw [← List.singleton_append, textMarks_append] at htight
    exact ih (hstep c r r₁ hr hfirst (by omega)) hrest (by omega)

end Reader

/-! ## Addresses without a name -/

/-- Whether a text is the beginning of a bare address. -/
def IsBareStart : Text → Prop
  | [] => False
  | c :: t => opensOther c = false ∧ t.any breaksBare = false

theorem IsBareStart.append {t : Text} {c : Char} (h : IsBareStart t) (hc : breaksBare c = false) :
    IsBareStart (t ++ [c]) := by
  cases t with
  | nil => exact h.elim
  | cons x t => exact ⟨h.1, by simp [h.2, hc]⟩

theorem IsBareStart.isBareEmail {t : Text} (h : IsBareStart t) :
    IsBareEmail (Text.trimRight t) := by
  obtain ⟨u, hu⟩ := Text.trimRight_prefix t
  cases htrim : Text.trimRight t with
  | nil => exact ⟨rfl, rfl, rfl⟩
  | cons c v =>
    rw [← hu, htrim, List.cons_append] at h
    obtain ⟨hfirst, hrest⟩ := h
    rw [List.any_append, Bool.or_eq_false_iff] at hrest
    exact ⟨hfirst, hrest.1, htrim ▸ Text.getLast?_trimRight t⟩

namespace Reader

variable {r r' : Reader} {c : Char} {t : Text} {l : List Mailbox}

/-- Whether all addresses without a name are bare ones. -/
structure IsBare (r : Reader) : Prop where
  /-- Those that were read are. -/
  read : ∀ m ∈ r.read, m.name = none → IsBareEmail m.email
  /-- None is in brackets. -/
  unbracketed : ∀ email, r.stage ≠ .bracketed none email
  /-- What may become one is the beginning of one. -/
  soFar : ∀ t, r.stage = .bare t ∨ r.stage = .comment (some t) → IsBareStart t

/-- A bracket that no name stands before is lost. -/
theorem IsBare.step (h : r.IsBare) (hstep : r.step c = .ok r')
    (htight : r.marks + textMarks [c] ≤ r'.marks) : r'.IsBare := by
  constructor
  · rcases step_read hstep with hread | ⟨name, email, hread, -, hfrom⟩
    · rw [hread]
      exact h.read
    · rw [hread, List.forall_mem_append, List.forall_mem_singleton]
      refine ⟨h.read, fun hname => ?_⟩
      rcases hfrom with hbracketed | ⟨soFar, hbare, -, rfl⟩
      · obtain rfl : name = none := hname
        exact absurd hbracketed (h.unbracketed email)
      · exact (h.soFar soFar (.inl hbare)).isBareEmail
  · obtain ⟨stage, read, blanks, group⟩ := r
    have hunbracketed := h.unbracketed
    cases stage <;> grind [Reader.step, begin, add, openGroup, closeGroup, Except.map, marks,
      Stage.marks, Mailbox.marks, isMark]
  · obtain ⟨stage, read, blanks, group⟩ := r
    have hsoFar := h.soFar
    have hstart : opensOther c = false → IsBareStart [c] := fun hc => ⟨hc, rfl⟩
    cases stage <;> grind [Reader.step, begin, add, openGroup, closeGroup, Except.map, opensOther,
      breaksBare, IsBareStart.append]

theorem IsBare.finish (h : r.IsBare) (hfinish : r.finish = .ok l) :
    ∀ m ∈ l, m.name = none → IsBareEmail m.email := by
  rcases finish_eq_ok hfinish with rfl | ⟨soFar, hstage, -, rfl⟩
  · exact h.read
  · rw [List.forall_mem_append, List.forall_mem_singleton]
    exact ⟨h.read, fun _ => (h.soFar soFar (.inl hstage)).isBareEmail⟩

end Reader

/-! ## Names -/

namespace Reader

variable {r r' : Reader} {c : Char} {t name email : Text} {l ms : List Mailbox}

/-- Whether no quote is remembered among the blanks. -/
def QuoteFree (r : Reader) : Prop := '"' ∉ r.blanks ∧ '"' ∉ r.group.getD []

theorem QuoteFree.step (h : r.QuoteFree) (hstep : r.step c = .ok r') : r'.QuoteFree := by
  obtain ⟨stage, read, blanks, group⟩ := r
  have hblank : isBlank '"' = false := rfl
  cases stage <;> grind [QuoteFree, Reader.step, begin, add, openGroup, closeGroup, Except.map]

/-- What was read stays. -/
theorem read_prefix_of_step (h : r.step c = .ok r') : r.read <+: r'.read := by
  rcases step_read h with hread | ⟨name, email, hread, -⟩
  · exact hread ▸ List.prefix_rfl
  · rw [hread]
    exact List.prefix_append _ _

/-- Whether a reader is inside of a mailbox whose name has no quote. -/
def IsNaming (r : Reader) : Prop :=
  match r.stage with
  | .quotedName name | .afterName name | .bracketed (some name) _ => '"' ∉ name
  | _ => False

/-- Whether the mailbox after some others has a name without a quote. -/
def NamesNext (l : List Mailbox) (r : Reader) : Prop :=
  r.read = l ∧ r.IsNaming ∧ r.QuoteFree ∨
    ∃ name email, '"' ∉ name ∧ l ++ [⟨some name, email⟩] <+: r.read

/-- A quote in a name would have been escaped, or would stand behind the colon of a group. -/
theorem NamesNext.step (h : r.NamesNext l) (hstep : r.step c = .ok r')
    (htight : r.marks + textMarks [c] ≤ r'.marks) : r'.NamesNext l := by
  rcases h with ⟨hread, hnaming, hfree⟩ | ⟨name, email, hname, hprefix⟩
  · have hfree' := hfree.step hstep
    obtain ⟨stage, read, blanks, group⟩ := r
    cases stage <;> grind [NamesNext, IsNaming, QuoteFree, Reader.step, add, openGroup, marks,
      Stage.marks, Mailbox.marks, isMark]
  · exact .inr ⟨name, email, hname, hprefix.trans (read_prefix_of_step hstep)⟩

/-- The name of the next mailbox has no quote when the text ends. -/
theorem NamesNext.finish (h : r.NamesNext l)
    (hfinish : r.finish = .ok (l ++ ⟨some name, email⟩ :: ms)) : '"' ∉ name := by
  rcases h with ⟨-, hnaming, -⟩ | ⟨name', email', hname, hprefix⟩
  · -- the text ends inside of the mailbox
    obtain ⟨stage, read, blanks, group⟩ := r
    cases stage <;> grind [IsNaming, Reader.finish]
  · have hall : l ++ [⟨some name', email'⟩] <+: l ++ ⟨some name, email⟩ :: ms := by
      rcases finish_eq_ok hfinish with hread | ⟨soFar, -, -, hread⟩
      · exact hread ▸ hprefix
      · exact hread ▸ hprefix.trans (List.prefix_append _ _)
    have hhead := (List.prefix_append_right_inj l).1 hall
    have hsame : (⟨some name', email'⟩ : Mailbox) = ⟨some name, email⟩ :=
      (List.cons_prefix_cons.1 hhead).1
    obtain rfl : name' = name := Option.some.inj (congrArg Mailbox.name hsame)
    exact hname

/-- A name that reads back has no quote and no backslash. -/
theorem IsReady.not_mem_name (hready : r.IsReady l) (hfree : r.QuoteFree)
    (h : r.run ('"' :: (name ++ t)) = .ok r')
    (htight : r.marks + textMarks ('"' :: (name ++ t)) ≤ r'.marks)
    (hfinish : r'.finish = .ok (l ++ ⟨some name, email⟩ :: ms)) : '"' ∉ name ∧ '\\' ∉ name := by
  obtain ⟨stage, read, blanks, group⟩ := r
  obtain ⟨rfl, rfl, rfl⟩ := hready
  have hname : run ⟨.quotedName [], read, blanks, none⟩ (name ++ t) = .ok r' := h
  have hnext : NamesNext read ⟨.quotedName [], read, blanks, none⟩ :=
    .inl ⟨rfl, List.not_mem_nil, hfree⟩
  have hquote : '"' ∉ name :=
    (run_tight (fun _ _ _ => NamesNext.step) hnext hname htight).finish hfinish
  refine ⟨hquote, fun hescape => ?_⟩
  -- the first backslash is lost
  obtain ⟨before, after, rfl, hbefore⟩ := List.eq_append_cons_of_mem hescape
  rw [List.append_assoc, List.cons_append] at hname htight
  obtain ⟨r₁, hrun, hrest⟩ := exists_of_run_append hname
  obtain rfl : ⟨.quotedName before, read, blanks, none⟩ = r₁ := by
    have hplain := run_quotedName (r := ⟨.between, read, blanks, none⟩)
      (fun hmem => hquote (List.mem_append_left _ hmem)) hbefore []
    exact Except.ok.inj (hplain.symm.trans hrun)
  obtain ⟨r₂, hstep, hlast⟩ := exists_of_run_cons hrest
  obtain rfl : ⟨.escaped before, read, blanks, none⟩ = r₂ := Except.ok.inj hstep
  have hle := marks_run_le hlast
  have hmark : isMark '\\' = true := rfl
  simp only [marks, Stage.marks, textMarks_append, textMarks_cons, hmark, if_true] at hle htight
  omega

end Reader

/-! ## Lists that were read -/

theorem textMarks_render (m : Mailbox) : textMarks m.render = m.withoutEmptyName.marks := by
  obtain ⟨_ | _ | ⟨c, name⟩, email⟩ := m
  · exact (Nat.zero_add _).symm
  · exact (Nat.zero_add _).symm
  · have hquote : textMarks ['"'] = 0 := rfl
    have hopen : textMarks "\" <" = 1 := rfl
    have hclose : textMarks ['>'] = 0 := rfl
    have hmarks : (withoutEmptyName ⟨some (c :: name), email⟩).marks =
        textMarks (c :: name) + textMarks email + 1 := rfl
    rw [hmarks]
    simp only [render, textMarks_append, hquote, hopen, hclose]
    omega

/-- What is written for a list has the marks of its mailboxes. -/
theorem textMarks_renderList (l : List Mailbox) :
    textMarks (renderList l) = listMarks (l.map withoutEmptyName) := by
  induction l with
  | nil => rfl
  | cons m l ih =>
    have hglue : textMarks ", " = 0 := rfl
    cases l with
    | nil => simp [textMarks_render]
    | cons m' l =>
      rw [renderList_cons_cons, textMarks_append, textMarks_append, hglue, ih, textMarks_render]
      simp

theorem marks_withoutEmptyName_le (m : Mailbox) : m.withoutEmptyName.marks ≤ m.marks := by
  obtain ⟨_ | _ | ⟨c, name⟩, email⟩ := m
  · exact Nat.le.refl
  · exact Nat.le_succ _
  · exact Nat.le.refl

theorem listMarks_withoutEmptyName_le (l : List Mailbox) :
    listMarks (l.map withoutEmptyName) ≤ listMarks l := by
  induction l with
  | nil => exact Nat.le.refl
  | cons m l ih => exact Nat.add_le_add (marks_withoutEmptyName_le m) ih

/-- A name that is there and empty would come with a bracket of its own. -/
theorem map_withoutEmptyName_eq_self {l : List Mailbox}
    (h : listMarks l ≤ listMarks (l.map withoutEmptyName)) :
    l.map withoutEmptyName = l := by
  induction l with
  | nil => rfl
  | cons m l ih =>
    have hfirst := marks_withoutEmptyName_le m
    have hrest := listMarks_withoutEmptyName_le l
    simp only [List.map_cons, listMarks_cons] at h
    rw [List.map_cons, ih (by omega)]
    have hsame : m.marks ≤ m.withoutEmptyName.marks := by omega
    congr 1
    obtain ⟨_ | _ | ⟨c, name⟩, email⟩ := m
    · rfl
    · exact absurd hsame (Nat.not_succ_le_self _)
    · rfl

/-- If the list is read again, no mark was lost, and this makes its mailboxes plain. -/
theorem Reader.IsReady.isPlain {r r' : Reader} {l ms : List Mailbox} (hready : r.IsReady l)
    (hfree : r.QuoteFree) (hproper : ∀ m ∈ ms, m.IsProper)
    (hbare : ∀ m ∈ ms, m.withoutEmptyName.name = none → IsBareEmail m.email)
    (h : r.run (renderList ms) = .ok r')
    (htight : r.marks + textMarks (renderList ms) ≤ r'.marks)
    (hfinish : r'.finish = .ok (l ++ ms.map withoutEmptyName)) : ∀ m ∈ ms, m.IsPlain := by
  induction ms generalizing r l with
  | nil => exact nofun
  | cons m ms ih =>
    have hplain : m.IsPlain := by
      obtain ⟨tail, htail⟩ : ∃ tail, renderList (m :: ms) = m.render ++ tail := by
        cases ms with
        | nil => exact ⟨[], by simp⟩
        | cons m' ms => exact ⟨_, (renderList_cons_cons m m' ms).trans (List.append_assoc _ _ _)⟩
      obtain ⟨_ | _ | ⟨c, name⟩, email⟩ := m
      · exact hbare _ List.mem_cons_self rfl
      · exact hbare _ List.mem_cons_self rfl
      · have htext : renderList (⟨some (c :: name), email⟩ :: ms) =
            '"' :: (c :: name ++ ("\" <" ++ email ++ ['>'] ++ tail)) := by simp [htail, render]
        rw [htext] at h htight
        exact hready.not_mem_name hfree h htight hfinish
    rw [List.forall_mem_cons] at hproper hbare
    refine List.forall_mem_cons.2 ⟨hplain, ?_⟩
    cases ms with
    | nil => exact nofun
    | cons m' ms =>
      -- a plain mailbox is read as it stands, so that the next one is at its place
      obtain ⟨r₁, hrun, hholds⟩ := hready.run_render hproper.1 hplain
      obtain ⟨r₂, hglue, hready'⟩ := hholds.glue
      have hbefore := run_trans hrun hglue
      have hle := marks_run_le hbefore
      rw [renderList_cons_cons, textMarks_append] at htight
      rw [renderList_cons_cons, run_append hbefore] at h
      have hfree' := run_keeps (fun _ _ _ => QuoteFree.step) hfree hbefore
      exact ih hready' hfree' hproper.2 hbare.2 h (by omega) (by simpa using hfinish)

variable {t : Text} {l : List Mailbox}

/-- Only a list of plain mailboxes reads back, whether or not empty names are told from none. -/
theorem isPlain_of_parseList_renderList {l' : List Mailbox} (hproper : ∀ m ∈ l, m.IsProper)
    (h : parseList (renderList l) = .ok l')
    (hsame : l'.map withoutEmptyName = l.map withoutEmptyName) : ∀ m ∈ l, m.IsPlain := by
  obtain ⟨r, hrun, hfinish⟩ := exists_of_parseList h
  have hin := Reader.marks_run_le hrun
  have hout := Reader.marks_finish_le hfinish
  rw [show Reader.start.marks = 0 from rfl, Nat.zero_add, textMarks_renderList, ← hsame] at hin
  rw [map_withoutEmptyName_eq_self (Nat.le_trans hout hin)] at hsame
  subst hsame
  have htight : Reader.start.marks + textMarks (renderList l) ≤ r.marks := by
    rwa [show Reader.start.marks = 0 from rfl, Nat.zero_add, textMarks_renderList]
  have hstart : Reader.start.IsBare := ⟨nofun, nofun, nofun⟩
  have hbare := (Reader.run_tight (fun _ _ _ => Reader.IsBare.step) hstart hrun htight).finish
    hfinish
  exact Reader.isReady_start.isPlain ⟨List.not_mem_nil, List.not_mem_nil⟩ hproper
    (fun m hm => hbare m.withoutEmptyName (List.mem_map_of_mem hm)) hrun htight hfinish

/-- A list that was read reads back when it is written again if all of its mailboxes are plain, and
in no other case.  An empty name counts as none. -/
theorem reads_back (h : parseList t = .ok l) :
    ((∀ m ∈ l, m.IsPlain) → parseList (renderList l) = .ok (l.map withoutEmptyName)) ∧
      ∀ l', parseList (renderList l) = .ok l' →
        l'.map withoutEmptyName = l.map withoutEmptyName → ∀ m ∈ l, m.IsPlain :=
  ⟨parseList_renderList (isProper_of_parseList h),
    fun _ => isPlain_of_parseList_renderList (isProper_of_parseList h)⟩

end Mailbox

/-- A list that reads back, and one that does not: the quote in the name, which was escaped where
it was read, ends the name where it is written. -/
theorem staff_reads_back :
    Mailbox.parseList (Mailbox.renderList [⟨some "Ann, Jr.", "ann@x"⟩, ⟨none, "bob@y"⟩]) =
        .ok [⟨some "Ann, Jr.", "ann@x"⟩, ⟨none, "bob@y"⟩] ∧
      Mailbox.parseList "\"a\\\"b\" <x@y>" = .ok [⟨some "a\"b", "x@y"⟩] ∧
      Mailbox.parseList (Mailbox.renderList [⟨some "a\"b", "x@y"⟩]) ≠
        .ok [⟨some "a\"b", "x@y"⟩] := by
  have hread : Mailbox.parseList "team: \"Ann, Jr.\" <ann@x>, bob@y;" =
      .ok [⟨some "Ann, Jr.", "ann@x"⟩, ⟨none, "bob@y"⟩] := rfl
  have hescaped : Mailbox.parseList "\"a\\\"b\" <x@y>" = .ok [⟨some "a\"b", "x@y"⟩] := rfl
  refine ⟨(Mailbox.reads_back hread).1 (by decide), hescaped, fun hback => ?_⟩
  exact absurd ((Mailbox.reads_back hescaped).2 _ hback rfl) (by decide)

end Mailroom
