import Mailroom.Proofs.Message.Plain
import Mailroom.Proofs.Rulebook
import Mailroom.Vacuum

/-!
# What a vacuum does to keywords

Before a vacuum saves a message it does nothing but look at it and change its keywords.

* `Relabels` says that of a look: the message is the one it was, and new values stay on one line.
* `relabels_renameKeywords` and `relabels_tidyKeywords` are the two looks that a vacuum takes.
* `renameKeywords_run` says which keywords come of the first one.
-/

namespace Mailroom

/-! ## Sights with other keywords -/

/-- A sight of the same message, with new values on one line if they were. -/
structure Sight.Relabels (v v' : Sight) : Prop where
  /-- The message is where it was. -/
  entry : v'.entry = v.entry
  /-- Its content is the same. -/
  content : v'.content = v.content
  /-- So is its header block. -/
  header : v'.header = v.header
  /-- New values stay on one line. -/
  plain : v.IsPlain → v'.IsPlain

namespace Sight.Relabels

variable {v v' v'' : Sight}

theorem of_eq (h : v' = v) : v.Relabels v' := by
  rw [h]
  exact ⟨rfl, rfl, rfl, id⟩

theorem trans (h : v.Relabels v') (h' : v'.Relabels v'') : v.Relabels v'' :=
  ⟨h'.entry.trans h.entry, h'.content.trans h.content, h'.header.trans h.header,
    fun hv => h'.plain (h.plain hv)⟩

theorem at_slot {root place : Path} {s : Slot} {f : File} {d : Disk} (h : v.Relabels v')
    (hv : Message.At root place s f d v) : Message.At root place s f d v' :=
  ⟨hv.sound, hv.resolve, h.entry.trans hv.entry, hv.file, h.content.trans hv.content,
    h.header.trans hv.header⟩

end Sight.Relabels

/-! ## Looks that change keywords only -/

/-- A look that changes nothing but keywords. -/
def Relabels {α : Type} (r : Reading α) : Prop :=
  ∀ (d : Disk) (m : Message), (m.sight d).Relabels ((r d m).2.sight d)

section Relabels

variable {α β : Type}

theorem Quiet.relabels {r : Reading α} (h : Quiet r) : Relabels r := fun d m => .of_eq (h d m)

theorem Relabels.bind {r : Reading α} {g : α → Reading β} (hr : Relabels r)
    (hg : ∀ a, Relabels (g a)) : Relabels (r >>= g) := by
  intro d m
  have hfirst := hr d m
  show (m.sight d).Relabels (((r d >>= fun a => g a d) m).2.sight d)
  cases hrun : r d m with
  | mk result m' =>
    rw [hrun] at hfirst
    cases result with
    | error e =>
      rw [run_bind_error hrun]
      exact hfirst
    | ok a =>
      rw [run_bind_ok hrun]
      exact hfirst.trans (hg a d m')

theorem Relabels.discard {r : Reading α} (h : Relabels r) : Relabels (discard r) :=
  h.bind fun _ => (Quiet.pure _).relabels

/-- A change of keywords that brings in no line feed. -/
theorem relabels_changeKeywords {change : Keywords → Keywords × Bool}
    (h : ∀ k, (∀ n ∈ k.toList, '\n' ∉ n) → ∀ n ∈ (change k).1.toList, '\n' ∉ n) :
    Relabels (Message.changeKeywords change) := by
  intro d m
  cases hk : (m.sight d).keywords with
  | error e =>
    obtain ⟨m', hrun, hsight⟩ := Message.changeKeywords_error change hk
    rw [hrun]
    exact .of_eq hsight
  | ok k =>
    obtain ⟨m', hrun, hsight⟩ := Message.changeKeywords_run change hk
    rw [hrun, hsight]
    exact ⟨rfl, rfl, rfl, fun hplain => hplain.withKeywords (h k (hplain.keywords k hk))⟩

theorem relabels_removeKeywords (names : List Text) : Relabels (Message.removeKeywords names) :=
  relabels_changeKeywords fun _ h n hn => h n (Keywords.mem_eraseAll.1 hn).1

theorem relabels_addKeywords {names : List Text} (hnames : ∀ n ∈ names, '\n' ∉ n) :
    Relabels (Message.addKeywords names) := by
  refine relabels_changeKeywords fun k h n hn => ?_
  rcases Keywords.mem_insertAll.1 hn with hn | ⟨l, hl, rfl⟩
  · exact h n hn
  · exact lineFeed_not_mem_resolveFolder (hnames l hl)

/-- Giving the keyword field the value of the keywords that are remembered. -/
theorem relabels_stageKeywords : Relabels (modify Message.stageKeywords) := by
  intro d m
  show (m.sight d).Relabels ((m.stageKeywords).sight d)
  cases hk : m.keywordSet with
  | some k =>
    have hsight : (m.stageKeywords).sight d = (m.sight d).withKeywords (k, true) := by
      simp [Message.sight, Message.stageKeywords, Message.setField, hk, Sight.withKeywords,
        withField]
    rw [hsight]
    refine ⟨rfl, rfl, rfl, fun hplain => hplain.withKeywords (hplain.keywords k ?_)⟩
    simp [Message.sight, hk]
  | none =>
    refine ⟨rfl, rfl, rfl, fun hplain => ?_⟩
    have hempty : '\n' ∉ ([] : Text) := List.not_mem_nil
    have hfield := hplain.withField isPlainName_keywords hempty
    have hedits : ((m.stageKeywords).sight d).edits =
        ((m.sight d).withField Keywords.fieldName []).edits := by
      show (m.setField Keywords.fieldName ((m.keywordSet.map Keywords.render).getD [])).edits = _
      rw [hk]
      rfl
    refine ⟨hedits ▸ hfield.edits, hedits ▸ hfield.names, hedits ▸ hfield.distinct,
      fun k hkeywords => ?_⟩
    simp only [Message.sight, Message.stageKeywords, Message.setField, hk] at hkeywords
    exact lineFeed_not_mem_seenKeywords hkeywords

/-! ## The two looks of a vacuum -/

theorem relabels_exchangeKeywords {pairs : List (Text × Text)}
    (hpairs : ∀ p ∈ pairs, '\n' ∉ p.2) : Relabels (exchangeKeywords pairs) := by
  induction pairs with
  | nil => exact (Quiet.pure ()).relabels
  | cons p pairs ih =>
    have hpresent : ∀ n ∈ [p.2], '\n' ∉ n := by
      intro n hn
      rw [List.mem_singleton.1 hn]
      exact hpairs p (by simp)
    refine Relabels.bind (relabels_removeKeywords [p.1]).discard fun _ => ?_
    refine Relabels.bind (relabels_addKeywords hpresent).discard fun _ => ?_
    exact ih fun q hq => hpairs q (by simp [hq])

/-- The pairs of a keyword that was renamed and its present name. -/
def renamings (k : Keywords) : List (Text × Text) :=
  k.toList.filterMap fun n => (replacement? n).map fun present => (n, present)

theorem lineFeed_not_mem_renamings {k : Keywords} : ∀ p ∈ renamings k, '\n' ∉ p.2 := by
  intro p hp
  obtain ⟨n, -, hn⟩ := List.mem_filterMap.1 hp
  obtain ⟨present, hpresent, rfl⟩ := Option.map_eq_some_iff.1 hn
  have hall : ∀ e ∈ renamedKeywords, '\n' ∉ e.2 := by decide
  obtain ⟨e, he, rfl⟩ := mem_of_lookup_eq_some hpresent
  exact hall e he

theorem relabels_renameKeywords : Relabels renameKeywords :=
  Message.reads_keywords.quiet.relabels.bind fun _ =>
    relabels_exchangeKeywords lineFeed_not_mem_renamings

theorem relabels_tidyKeywords : Relabels Message.tidyKeywords := by
  refine Relabels.bind Message.reads_keywordText.quiet.relabels fun stored => ?_
  refine Relabels.bind Message.reads_keywords.quiet.relabels fun k => ?_
  have hstage : Relabels (do modify Message.stageKeywords; return true) :=
    relabels_stageKeywords.bind fun _ => (Quiet.pure true).relabels
  dsimp only
  split
  · refine Relabels.bind (Message.reads_fieldValues _).quiet.relabels fun values => ?_
    split
    · exact (Quiet.pure false).relabels
    · exact hstage
  · exact hstage

end Relabels

/-! ## Which keywords come of it -/

/-- The keywords after the second one of each pair was put for the first one. -/
def Keywords.exchange (k : Keywords) (pairs : List (Text × Text)) : Keywords :=
  pairs.foldl (fun k p => ((k.eraseAll [p.1]).1.insertAll [p.2]).1) k

/-- What every change of the keywords keeps is kept while keywords are exchanged. -/
theorem exchangeKeywords_maintains {I : Sight → Keywords → Prop}
    (hkeywords : ∀ v k, I v k → v.keywords = .ok k)
    (hchange : ∀ v k (change : Keywords × Bool), I v k → (change.2 = false → change.1 = k) →
      I (v.withKeywords change) change.1)
    (pairs : List (Text × Text)) {d : Disk} {m : Message} {k : Keywords} (h : I (m.sight d) k) :
    ∃ m', exchangeKeywords pairs d m = (.ok (), m') ∧ I (m'.sight d) (k.exchange pairs) := by
  induction pairs generalizing m k with
  | nil => exact ⟨m, rfl, h⟩
  | cons p pairs ih =>
    obtain ⟨m₁, hrun₁, hsight₁⟩ :=
      Message.changeKeywords_run (·.eraseAll [p.1]) (hkeywords _ _ h)
    have h₁ := hchange _ _ _ h (Keywords.eraseAll_eq_self k [p.1])
    rw [← hsight₁] at h₁
    obtain ⟨m₂, hrun₂, hsight₂⟩ :=
      Message.changeKeywords_run (·.insertAll [p.2]) (hkeywords _ _ h₁)
    have h₂ := hchange _ _ _ h₁ (Keywords.insertAll_eq_self _ [p.2])
    rw [← hsight₂] at h₂
    obtain ⟨m', hrun, h'⟩ := ih h₂
    refine ⟨m', ?_, h'⟩
    have hfirst : (discard (Message.removeKeywords [p.1]) : Reading Unit) d m = (.ok (), m₁) :=
      run_discard_ok hrun₁
    have hsecond : (discard (Message.addKeywords [p.2]) : Reading Unit) d m₁ = (.ok (), m₂) :=
      run_discard_ok hrun₂
    exact (run_bind_ok hfirst).trans ((run_bind_ok hsecond).trans hrun)

/-- The keywords that are renamed are those that are seen. -/
theorem renameKeywords_split {d : Disk} {m : Message} {k : Keywords}
    (hk : (m.sight d).keywords = .ok k) : ∃ m', m'.sight d = m.sight d ∧
      renameKeywords d m = exchangeKeywords (renamings k) d m' := by
  obtain ⟨hvalue, hsight⟩ := Message.reads_keywords d m
  rw [hk] at hvalue
  cases hrun : Message.keywords d m with
  | mk result m₁ =>
    rw [hrun] at hvalue hsight
    obtain rfl : result = .ok k := hvalue
    exact ⟨m₁, hsight, run_bind_ok hrun⟩

/-- What every change of the keywords keeps is kept while keywords are renamed. -/
theorem renameKeywords_maintains {I : Sight → Keywords → Prop}
    (hkeywords : ∀ v k, I v k → v.keywords = .ok k)
    (hchange : ∀ v k (change : Keywords × Bool), I v k → (change.2 = false → change.1 = k) →
      I (v.withKeywords change) change.1)
    {d : Disk} {m : Message} {k : Keywords} (h : I (m.sight d) k) :
    ∃ m', renameKeywords d m = (.ok (), m') ∧ I (m'.sight d) (k.exchange (renamings k)) := by
  obtain ⟨m₁, hsight, hrun⟩ := renameKeywords_split (hkeywords _ _ h)
  obtain ⟨m', hrun', h'⟩ :=
    exchangeKeywords_maintains hkeywords hchange (renamings k) (d := d) (m := m₁) (hsight ▸ h)
  exact ⟨m', hrun.trans hrun', h'⟩

theorem renameKeywords_run {d : Disk} {m : Message} {k : Keywords}
    (hk : (m.sight d).keywords = .ok k) : ∃ m', renameKeywords d m = (.ok (), m') ∧
      (m'.sight d).keywords = .ok (k.exchange (renamings k)) :=
  renameKeywords_maintains (I := fun v k => v.keywords = .ok k) (fun _ _ h => h)
    (fun _ _ _ _ _ => rfl) hk

/-- Keywords that cannot be read cannot be renamed. -/
theorem renameKeywords_error {d : Disk} {m : Message} {e : Error}
    (hk : (m.sight d).keywords = .error e) : ∃ m', renameKeywords d m = (.error e, m') := by
  have hvalue := (Message.reads_keywords d m).1
  rw [hk] at hvalue
  cases hrun : Message.keywords d m with
  | mk result m₁ =>
    rw [hrun] at hvalue
    obtain rfl : result = .error e := hvalue
    exact ⟨m₁, run_bind_error hrun⟩

end Mailroom
