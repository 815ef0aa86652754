import Mailroom.Mailbox
import Mailroom.Proofs.Text.Pieces
import Mailroom.Proofs.Text.Trim

/-!
# Reading address lists

What the reader of an address list can come to, character by character, and how it reads what was
written for mailboxes.  A name is written between quotes as it is, and an address without a name
stands by itself, so that not every mailbox reads back.

* `Mailbox.Reader.run` reads a text, and `Mailbox.Reader.step_read` says when a step adds a mailbox.
* `Mailbox.isProper_of_parseList` says what is known of every mailbox that was read.
* `Mailbox.IsPlain` says which of them have nothing in them that means something to the reader.
* `Mailbox.parseList_renderList` reads a list of plain mailboxes back.
-/

namespace Mailroom

namespace Mailbox

/-! ## Runs -/

namespace Reader

variable {r r' : Reader} {c : Char} {t u : Text}

/-- Reads a text. -/
def run (r : Reader) (t : Text) : Except ListFault Reader := t.foldlM step r

@[simp] theorem run_nil (r : Reader) : r.run [] = .ok r := rfl

theorem run_cons (h : r.step c = .ok r') (t : Text) : r.run (c :: t) = r'.run t := by
  rw [run, List.foldlM_cons, h]
  rfl

theorem exists_of_run_cons (h : r.run (c :: t) = .ok r') :
    ∃ r₁, r.step c = .ok r₁ ∧ r₁.run t = .ok r' := by
  cases hstep : r.step c with
  | error f =>
    rw [run, List.foldlM_cons, hstep] at h
    exact nomatch h
  | ok r₁ => exact ⟨r₁, rfl, (run_cons hstep t).symm.trans h⟩

theorem run_append (h : r.run t = .ok r') (u : Text) : r.run (t ++ u) = r'.run u := by
  rw [run, List.foldlM_append, ← run, h]
  rfl

theorem run_trans {r'' : Reader} (h : r.run t = .ok r') (h' : r'.run u = .ok r'') :
    r.run (t ++ u) = .ok r'' := (run_append h u).trans h'

theorem exists_of_run_append (h : r.run (t ++ u) = .ok r') :
    ∃ r₁, r.run t = .ok r₁ ∧ r₁.run u = .ok r' := by
  cases hrun : r.run t with
  | error f =>
    rw [run, List.foldlM_append, ← run, hrun] at h
    exact nomatch h
  | ok r₁ => exact ⟨r₁, rfl, (run_append hrun u).symm.trans h⟩

/-- What every step keeps is kept by a text. -/
theorem run_keeps {I : Reader → Prop} (hstep : ∀ c r r', I r → r.step c = .ok r' → I r')
    (hr : I r) (h : r.run t = .ok r') : I r' := by
  induction t generalizing r with
  | nil => exact Except.ok.inj h ▸ hr
  | cons c t ih =>
    obtain ⟨r₁, hfirst, hrest⟩ := exists_of_run_cons h
    exact ih (hstep c r r₁ hr hfirst) hrest

end Reader

theorem parseList_of_run {t : Text} {r : Reader} (h : Reader.start.run t = .ok r) :
    parseList t = r.finish := congrArg (· >>= Reader.finish) h

theorem exists_of_parseList {t : Text} {l : List Mailbox} (h : parseList t = .ok l) :
    ∃ r, Reader.start.run t = .ok r ∧ r.finish = .ok l := by
  cases hrun : Reader.start.run t with
  | error f => exact nomatch (congrArg (· >>= Reader.finish) hrun).symm.trans h
  | ok r => exact ⟨r, rfl, (parseList_of_run hrun).symm.trans h⟩

/-! ## What is known of a mailbox that was read -/

/-- An address has an `@`, and behind a name it has nothing that ends its brackets. -/
def IsProper (m : Mailbox) : Prop := '@' ∈ m.email ∧ (m.name ≠ none → '>' ∉ m.email)

namespace Reader

variable {r r' : Reader} {c : Char}

/-- What stands in brackets was put there character by character. -/
theorem step_bracketed (h : r.step c = .ok r') {name : Option Text} {email : Text}
    (hs : r'.stage = .bracketed name email) :
    email = [] ∨ ∃ before, r.stage = .bracketed name before ∧ email = before ++ [c] ∧ c ≠ '>' := by
  obtain ⟨stage, read, blanks, group⟩ := r
  cases stage <;> grind [step, begin, add, openGroup, closeGroup, Except.map]

/-- A mailbox comes from brackets, or from a bare text. -/
theorem step_read (h : r.step c = .ok r') : r'.read = r.read ∨ ∃ name email,
    r'.read = r.read ++ [⟨name, email⟩] ∧ '@' ∈ email ∧
      (r.stage = .bracketed name email ∨ ∃ soFar, r.stage = .bare soFar ∧ name = none ∧
        email = Text.trimRight soFar) := by
  obtain ⟨stage, read, blanks, group⟩ := r
  cases stage <;> grind [step, begin, add, openGroup, closeGroup, Except.map]

/-- The text may end where a mailbox may end, and a bare text is the last mailbox. -/
theorem finish_eq_ok {l : List Mailbox} (h : r.finish = .ok l) : l = r.read ∨ ∃ soFar,
    r.stage = .bare soFar ∧ '@' ∈ Text.trimRight soFar ∧
      l = r.read ++ [⟨none, Text.trimRight soFar⟩] := by
  obtain ⟨stage, read, blanks, group⟩ := r
  cases stage <;> grind [finish, add, Except.map]

/-- Whether a reader has read proper mailboxes only, and has none but such at hand. -/
structure IsSound (r : Reader) : Prop where
  /-- The mailboxes are proper. -/
  read : ∀ m ∈ r.read, m.IsProper
  /-- What stands in brackets does not end them. -/
  bracketed : ∀ name email, r.stage = .bracketed name email → '>' ∉ email

theorem IsSound.step (h : r.IsSound) (hstep : r.step c = .ok r') : r'.IsSound := by
  constructor
  · rcases step_read hstep with hread | ⟨name, email, hread, hat, hfrom⟩
    · rw [hread]
      exact h.read
    · rw [hread, List.forall_mem_append, List.forall_mem_singleton]
      refine ⟨h.read, hat, fun hname => ?_⟩
      rcases hfrom with hbracketed | ⟨-, -, hnone, -⟩
      · exact h.bracketed name email hbracketed
      · exact absurd hnone hname
  · intro name email hs
    rcases step_bracketed hstep hs with rfl | ⟨before, hbefore, rfl, hc⟩
    · exact List.not_mem_nil
    · rw [List.mem_append, List.mem_singleton, not_or]
      exact ⟨h.bracketed name before hbefore, hc.symm⟩

end Reader

/-- Every mailbox that was read is proper. -/
theorem isProper_of_parseList {t : Text} {l : List Mailbox} (h : parseList t = .ok l) :
    ∀ m ∈ l, m.IsProper := by
  obtain ⟨r, hrun, hfinish⟩ := exists_of_parseList h
  have hstart : Reader.start.IsSound := ⟨nofun, nofun⟩
  have hsound := Reader.run_keeps (fun _ _ _ => Reader.IsSound.step) hstart hrun
  rcases Reader.finish_eq_ok hfinish with rfl | ⟨soFar, -, hat, rfl⟩
  · exact hsound.read
  · rw [List.forall_mem_append, List.forall_mem_singleton]
    exact ⟨hsound.read, hat, fun hname => absurd rfl hname⟩

/-! ## Plain mailboxes -/

/-- Whether a character begins something else than a bare address. -/
def opensOther (c : Char) : Bool := isBlank c || c == '"' || c == '<' || c == ';'

/-- Whether a character ends a bare address, or makes something else of it. -/
def breaksBare (c : Char) : Bool := c == '<' || c == ',' || c == ';' || c == ':' || c == '('

/-- Whether a bare address is read as it stands. -/
def IsBareEmail (t : Text) : Prop :=
  t.head?.any opensOther = false ∧ t.tail.any breaksBare = false ∧ t.getLast?.any isBlank = false

instance (t : Text) : Decidable (IsBareEmail t) := inferInstanceAs (Decidable (_ ∧ _))

/-- Whether a mailbox has nothing in it that means something to the reader: a name no quote and no
backslash, and an address without a name nothing that would not be read as it stands. -/
def IsPlain (m : Mailbox) : Prop :=
  match m.name with
  | some (c :: name) => '"' ∉ c :: name ∧ '\\' ∉ c :: name
  | _ => IsBareEmail m.email

instance (m : Mailbox) : Decidable m.IsPlain := by
  unfold IsPlain
  split <;> infer_instance

/-- A mailbox for which an empty name is none. -/
def withoutEmptyName (m : Mailbox) : Mailbox :=
  { m with name := m.name.filter fun name => !name.isEmpty }

/-! ## Reading back what was written -/

namespace Reader

variable {r : Reader} {t : Text} {l : List Mailbox}

/-- A text of which every character is collected is collected. -/
theorem run_collect (stage : Text → Stage)
    (h : ∀ c ∈ t, ∀ w,
      { r with stage := stage w }.step c = .ok { r with stage := stage (w ++ [c]) })
    (w : Text) : { r with stage := stage w }.run t = .ok { r with stage := stage (w ++ t) } := by
  induction t generalizing w with
  | nil => rw [run_nil, List.append_nil]
  | cons c t ih =>
    rw [run_cons (h c List.mem_cons_self w), ih fun x hx => h x (List.mem_cons_of_mem c hx)]
    simp

theorem run_quotedName (hquote : '"' ∉ t) (hescape : '\\' ∉ t) (w : Text) :
    { r with stage := .quotedName w }.run t = .ok { r with stage := .quotedName (w ++ t) } := by
  refine run_collect Stage.quotedName (fun c hc w => ?_) w
  have hc₁ : c ≠ '"' := fun h => hquote (h ▸ hc)
  have hc₂ : c ≠ '\\' := fun h => hescape (h ▸ hc)
  simp [step, hc₁, hc₂]

theorem run_bracketed (h : '>' ∉ t) (name : Option Text) (w : Text) :
    { r with stage := .bracketed name w }.run t =
      .ok { r with stage := .bracketed name (w ++ t) } := by
  refine run_collect (Stage.bracketed name) (fun c hc w => ?_) w
  have hc₁ : c ≠ '>' := fun heq => h (heq ▸ hc)
  simp [step, hc₁]

theorem run_bare (h : t.any breaksBare = false) (w : Text) :
    { r with stage := .bare w }.run t = .ok { r with stage := .bare (w ++ t) } := by
  refine run_collect Stage.bare (fun c hc w => ?_) w
  have hc₁ := List.any_eq_false.1 h c hc
  simp only [breaksBare, Bool.or_eq_true, beq_iff_eq, not_or] at hc₁
  simp [step, hc₁]

/-- A reader between mailboxes, in no group, which has read a list. -/
structure IsReady (l : List Mailbox) (r : Reader) : Prop where
  /-- It is before a mailbox. -/
  stage : r.stage = .between
  /-- It is in no group. -/
  group : r.group = none
  /-- It has read the list. -/
  read : r.read = l

/-- A reader that has read a list if the text ends, and also if a comma follows. -/
structure Holds (l : List Mailbox) (r : Reader) : Prop where
  /-- The text may end. -/
  finish : r.finish = .ok l
  /-- A comma may follow. -/
  comma : ∃ r', r.step ',' = .ok r' ∧ r'.IsReady l

theorem IsReady.blank (h : r.IsReady l) : ∃ r', r.step ' ' = .ok r' ∧ r'.IsReady l := by
  obtain ⟨hstage, hgroup, hread⟩ := h
  have hstep : r.step ' ' = .ok { r with stage := .between } := by
    simp [step, hstage, begin, show isBlank ' ' = true from rfl]
  exact ⟨_, hstep, rfl, hgroup, hread⟩

/-- After a mailbox the next one may follow. -/
theorem Holds.glue (h : r.Holds l) : ∃ r', r.run ", " = .ok r' ∧ r'.IsReady l := by
  obtain ⟨r₁, hcomma, hready⟩ := h.comma
  obtain ⟨r₂, hblank, hready'⟩ := hready.blank
  exact ⟨r₂, (run_cons hcomma _).trans (run_cons hblank []), hready'⟩

theorem IsReady.finish (h : r.IsReady l) : r.finish = .ok l := by
  obtain ⟨hstage, hgroup, rfl⟩ := h
  simp [Reader.finish, hstage, hgroup]

theorem holds_afterBracket (l : List Mailbox) (blanks : Text) :
    Holds l ⟨.afterBracket, l, blanks, none⟩ := ⟨rfl, _, rfl, rfl, rfl, rfl⟩

/-- What is written for a mailbox with a name reads back. -/
theorem IsReady.run_named (h : r.IsReady l) {name email : Text} (hquote : '"' ∉ name)
    (hescape : '\\' ∉ name) (hat : '@' ∈ email) (hclose : '>' ∉ email) :
    ∃ r', r.run (['"'] ++ name ++ "\" <" ++ email ++ ['>']) = .ok r' ∧
      r'.Holds (l ++ [⟨some name, email⟩]) := by
  obtain ⟨stage, read, blanks, group⟩ := r
  obtain ⟨rfl, rfl, rfl⟩ := h
  have hopen : run ⟨.between, read, blanks, none⟩ ['"'] =
      .ok ⟨.quotedName [], read, blanks, none⟩ := rfl
  have hname : run ⟨.quotedName [], read, blanks, none⟩ name =
      .ok ⟨.quotedName name, read, blanks, none⟩ :=
    run_quotedName (r := ⟨.between, read, blanks, none⟩) hquote hescape []
  have hbetween : run ⟨.quotedName name, read, blanks, none⟩ "\" <" =
      .ok ⟨.bracketed (some name) [], read, blanks ++ [' '], none⟩ := rfl
  have hemail : run ⟨.bracketed (some name) [], read, blanks ++ [' '], none⟩ email =
      .ok ⟨.bracketed (some name) email, read, blanks ++ [' '], none⟩ :=
    run_bracketed (r := ⟨.between, read, blanks ++ [' '], none⟩) hclose (some name) []
  have hend : run ⟨.bracketed (some name) email, read, blanks ++ [' '], none⟩ ['>'] =
      .ok ⟨.afterBracket, read ++ [⟨some name, email⟩], blanks ++ [' '], none⟩ := by
    refine run_cons ?_ []
    simp [step, add, hat]
  exact ⟨_, run_trans (run_trans (run_trans (run_trans hopen hname) hbetween) hemail) hend,
    holds_afterBracket _ _⟩

/-- What is written for a mailbox without a name reads back. -/
theorem IsReady.run_bare (h : r.IsReady l) {email : Text} (hemail : IsBareEmail email)
    (hat : '@' ∈ email) : ∃ r', r.run email = .ok r' ∧ r'.Holds (l ++ [⟨none, email⟩]) := by
  obtain ⟨stage, read, blanks, group⟩ := r
  obtain ⟨rfl, rfl, rfl⟩ := h
  obtain ⟨hfirst, hrest, hlast⟩ := hemail
  cases email with
  | nil => exact absurd hat List.not_mem_nil
  | cons c t =>
    have htrim : Text.trimRight (c :: t) = c :: t := Text.trimRight_eq_self hlast
    have hopen : step ⟨.between, read, blanks, none⟩ c = .ok ⟨.bare [c], read, blanks, none⟩ := by
      have hc : opensOther c = false := hfirst
      simp only [opensOther, Bool.or_eq_false_iff, beq_eq_false_iff_ne] at hc
      simp [step, begin, hc]
    have htext : run ⟨.bare [c], read, blanks, none⟩ t = .ok ⟨.bare (c :: t), read, blanks, none⟩ :=
      Reader.run_bare (r := ⟨.between, read, blanks, none⟩) hrest [c]
    refine ⟨_, (run_cons hopen t).trans htext, ?_,
      ⟨.between, read ++ [⟨none, c :: t⟩], blanks, none⟩, ?_, rfl, rfl, rfl⟩
    · simp [Reader.finish, add, htrim, hat, Except.map]
    · simp [step, add, htrim, hat]

end Reader

/-- What is written for a plain mailbox reads back. -/
theorem Reader.IsReady.run_render {r : Reader} {l : List Mailbox} (h : r.IsReady l) {m : Mailbox}
    (hproper : m.IsProper) (hplain : m.IsPlain) :
    ∃ r', r.run m.render = .ok r' ∧ r'.Holds (l ++ [m.withoutEmptyName]) := by
  obtain ⟨hat, hclose⟩ := hproper
  obtain ⟨_ | _ | ⟨c, name⟩, email⟩ := m
  · exact h.run_bare hplain hat
  · exact h.run_bare hplain hat
  · exact h.run_named hplain.1 hplain.2 hat (hclose (by simp))

@[simp] theorem renderList_singleton (m : Mailbox) : renderList [m] = m.render :=
  Text.join_singleton _ _

theorem renderList_cons_cons (m m' : Mailbox) (ms : List Mailbox) :
    renderList (m :: m' :: ms) = m.render ++ ", " ++ renderList (m' :: ms) :=
  Text.join_cons _ _ (List.cons_ne_nil _ _)

/-- What is written for plain mailboxes in a row reads back. -/
theorem Reader.IsReady.run_renderList {r : Reader} {l : List Mailbox} (h : r.IsReady l)
    {ms : List Mailbox} (hproper : ∀ m ∈ ms, m.IsProper) (hplain : ∀ m ∈ ms, m.IsPlain) :
    ∃ r', r.run (renderList ms) = .ok r' ∧ r'.finish = .ok (l ++ ms.map withoutEmptyName) := by
  induction ms generalizing r l with
  | nil => exact ⟨r, rfl, by simpa using h.finish⟩
  | cons m ms ih =>
    rw [List.forall_mem_cons] at hproper hplain
    obtain ⟨r₁, hrun, hholds⟩ := h.run_render hproper.1 hplain.1
    cases ms with
    | nil => exact ⟨r₁, by simpa using hrun, by simpa using hholds.finish⟩
    | cons m' ms =>
      obtain ⟨r₂, hglue, hready⟩ := hholds.glue
      obtain ⟨r₃, hrest, hfinish⟩ := ih hready hproper.2 hplain.2
      rw [renderList_cons_cons]
      exact ⟨r₃, run_trans (run_trans hrun hglue) hrest, by simpa using hfinish⟩

theorem Reader.isReady_start : start.IsReady [] := ⟨rfl, rfl, rfl⟩

/-- A list of plain mailboxes reads back. -/
theorem parseList_renderList {ms : List Mailbox} (hproper : ∀ m ∈ ms, m.IsProper)
    (hplain : ∀ m ∈ ms, m.IsPlain) :
    parseList (renderList ms) = .ok (ms.map withoutEmptyName) := by
  obtain ⟨r, hrun, hfinish⟩ := Reader.isReady_start.run_renderList hproper hplain
  exact (parseList_of_run hrun).trans hfinish

end Mailbox
end Mailroom
