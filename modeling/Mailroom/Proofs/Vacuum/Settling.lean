import Mailroom.Proofs.Message.Agreement
import Mailroom.Proofs.Vacuum.Rehoming

/-!
# Tidying one message

A message whose keywords read back is tidied once and for all: what is written then needs no
tidying, and what could not be written cannot be written later, as long as the folders are the same.

* `Keywords.isCurrent_exchange` says that no renamed keyword is left, and none comes in, when the
  present names are put for the old ones.
* `IsTidy` is a message that is left alone.
* `Vacuum.tidyMessage_cases` says what becomes of a message, and in which case each of it does.
-/

namespace Mailroom

variable {v : Vacuum} {root place : Path} {d : Disk} {m : Message} {s : Slot} {f : File}
  {k : Keywords}

/-! ## Keywords that were renamed -/

namespace Keywords

/-- No keyword has been renamed. -/
def IsCurrent (k : Keywords) : Prop := ∀ n ∈ k.toList, replacement? n = none

instance (k : Keywords) : Decidable k.IsCurrent :=
  inferInstanceAs (Decidable (∀ n ∈ k.toList, replacement? n = none))

theorem renamings_eq_nil (h : k.IsCurrent) : renamings k = [] :=
  List.filterMap_eq_nil_iff.2 fun n hn => by rw [h n hn]; rfl

/-- What is there after an exchange was there before and is no old name, or is a present one. -/
theorem mem_exchange {pairs : List (Text × Text)} {n : Text}
    (h : n ∈ (k.exchange pairs).toList) :
    (n ∈ k.toList ∧ ∀ p ∈ pairs, n ≠ resolveFolder p.1) ∨ ∃ p ∈ pairs, n = resolveFolder p.2 := by
  induction pairs generalizing k with
  | nil => exact Or.inl ⟨h, by simp⟩
  | cons p pairs ih =>
    rcases ih h with ⟨hmem, hrest⟩ | ⟨q, hq, hn⟩
    · rcases mem_insertAll.1 hmem with hmem | ⟨l, hl, hn⟩
      · obtain ⟨hthere, hne⟩ := mem_eraseAll.1 hmem
        exact Or.inl ⟨hthere, List.forall_mem_cons.2 ⟨hne p.1 (by simp), hrest⟩⟩
      · rw [List.mem_singleton.1 hl] at hn
        exact Or.inr ⟨p, by simp, hn⟩
    · exact Or.inr ⟨q, by simp [hq], hn⟩

theorem mem_renamedKeywords {n present : Text} (h : replacement? n = some present) :
    (n, present) ∈ renamedKeywords := mem_of_lookup h

theorem mem_renamings {n present : Text} :
    (n, present) ∈ renamings k ↔ n ∈ k.toList ∧ replacement? n = some present := by
  simp [renamings, List.mem_filterMap]

theorem isCurrent_exchange (k : Keywords) : (k.exchange (renamings k)).IsCurrent := by
  have hforms : ∀ p ∈ renamedKeywords,
      resolveFolder p.1 = p.1 ∧ replacement? (resolveFolder p.2) = none := by decide +kernel
  intro n hn
  rcases mem_exchange hn with ⟨hmem, hnot⟩ | ⟨⟨old, present⟩, hp, rfl⟩
  · cases hrenamed : replacement? n with
    | none => rfl
    | some present =>
      -- an old name has been taken away
      have hsame := (hforms _ (mem_renamedKeywords hrenamed)).1
      exact absurd hsame.symm (hnot (n, present) (mem_renamings.2 ⟨hmem, hrenamed⟩))
  · exact (hforms _ (mem_renamedKeywords (mem_renamings.1 hp).2)).2

theorem IsClean.renamed (h : k.IsClean) : (k.exchange (renamings k)).IsClean := by
  have htokens : ∀ p ∈ renamedKeywords, IsToken p.2 := by decide +kernel
  intro n hn
  rcases mem_exchange hn with ⟨hmem, -⟩ | ⟨⟨old, present⟩, hp, rfl⟩
  · exact h n hmem
  · have htoken := htokens _ (mem_renamedKeywords (mem_renamings.1 hp).2)
    exact ⟨resolveFolder_resolveFolder _, isToken_resolveFolder htoken⟩

end Keywords

/-- A look at keywords none of which has been renamed changes nothing that is seen. -/
theorem renameKeywords_of_isCurrent (hk : (m.sight d).keywords = .ok k) (hcurrent : k.IsCurrent) :
    ∃ m', renameKeywords d m = (.ok (), m') ∧ m'.sight d = m.sight d := by
  obtain ⟨m', hsight, hrun⟩ := renameKeywords_split hk
  rw [Keywords.renamings_eq_nil hcurrent] at hrun
  exact ⟨m', hrun, hsight⟩

theorem renameKeywords_staged (h : (m.sight d).IsStaged k) :
    ∃ m', renameKeywords d m = (.ok (), m') ∧ (m'.sight d).IsStaged (k.exchange (renamings k)) :=
  renameKeywords_maintains (fun _ _ h => h.keywords)
    (fun _ _ _ h hsame => h.withKeywords hsame) h

/-! ## Fields that are left alone -/

/-- Whether the values of a keyword field are left as they are: if they do not conform they are
written in the one way, and no keyword has been renamed. -/
def IsTidyField (vs : List Text) : Prop :=
  (hasNonconforming (Text.join ", " vs) = true →
      Message.IsCanonical vs (Keywords.parse (Text.join ", " vs))) ∧
    (Keywords.parse (Text.join ", " vs)).IsCurrent

instance (vs : List Text) : Decidable (IsTidyField vs) := inferInstanceAs (Decidable (_ ∧ _))

/-- Whether a message is left as it is. -/
def IsTidy (content : Bytes) : Prop :=
  ∃ header, readHeader content = .ok header ∧ IsTidyField (header.values Keywords.fieldName)

theorem isTidy_iff {content : Bytes} {header : Header} (hread : readHeader content = .ok header) :
    IsTidy content ↔ IsTidyField (header.values Keywords.fieldName) := by
  simp [IsTidy, hread]

theorem ReadsBack.trim {t : Text} (h : ReadsBack t) : Text.trim t = t :=
  Text.trim_eq_self ⟨h.first, h.last⟩

/-- What is written for keywords is left alone, if none of them has been renamed. -/
theorem isTidyField_written (hclean : k.IsClean) (hcurrent : k.IsCurrent) :
    IsTidyField (if k.render.isEmpty then [] else [k.render]) := by
  rw [IsTidyField, join_values, hclean.parse_render]
  refine ⟨fun _ => ⟨?_, ?_⟩, hcurrent⟩
  · rw [join_values]
    exact hclean.readsBack.trim
  · split <;> simp

/-! ## Looking at a message -/

theorem reads_hasNonconformingKeywords : Reads Message.hasNonconformingKeywords
    (fun s => s.values Keywords.fieldName >>= fun vs =>
      .ok (hasNonconforming (Text.join ", " vs))) :=
  (Reads.bind Message.reads_keywordText fun _ => Reads.pure _).congr fun s => by
    cases s.values Keywords.fieldName <;> rfl

/-- What a vacuum does to a message in memory: its keywords are brought into the form in which they
are written, if they do not conform, and renamed. -/
def tidying : Reading Unit := do
  if ← Message.hasNonconformingKeywords then discard Message.tidyKeywords
  renameKeywords

theorem tidying_of_unreadable {e : Error}
    (hvalues : (m.sight d).values Keywords.fieldName = .error e) :
    ∃ m', tidying d m = (.error e, m') := by
  have hlook := (reads_hasNonconformingKeywords d m).1
  simp only [hvalues, bind, Except.bind] at hlook
  cases hrun : Message.hasNonconformingKeywords d m with
  | mk result m' =>
    rw [hrun] at hlook
    obtain rfl : result = .error e := hlook
    exact ⟨m', run_bind_error hrun⟩

/-- The first step changes nothing that is seen, or gives the keyword field the value that is
written for the keywords. -/
theorem tidying_split {vs : List Text} (hvalues : (m.sight d).values Keywords.fieldName = .ok vs)
    (hk : (m.sight d).keywords = .ok k) :
    ∃ m', tidying d m = renameKeywords d m' ∧
      (((hasNonconforming (Text.join ", " vs) = true → Message.IsCanonical vs k) ∧
          m'.sight d = m.sight d) ∨
        (¬ (hasNonconforming (Text.join ", " vs) = true → Message.IsCanonical vs k) ∧
          m'.sight d = (m.sight d).withKeywords (k, true))) := by
  obtain ⟨hlook, hsight₁⟩ := reads_hasNonconformingKeywords d m
  simp only [hvalues, bind, Except.bind] at hlook
  cases hrun₁ : Message.hasNonconformingKeywords d m with
  | mk result m₁ =>
    rw [hrun₁] at hlook hsight₁
    obtain rfl : result = .ok (hasNonconforming (Text.join ", " vs)) := hlook
    cases hnonconforming : hasNonconforming (Text.join ", " vs) with
    | false =>
      rw [hnonconforming] at hrun₁
      exact ⟨m₁, run_bind_ok hrun₁, Or.inl ⟨by simp, hsight₁⟩⟩
    | true =>
      rw [hnonconforming] at hrun₁
      obtain ⟨changed, m₂, hrun₂, hcases⟩ :=
        Message.tidyKeywords_run (d := d) (m := m₁) (hsight₁ ▸ hk) (hsight₁ ▸ hvalues)
      have hdiscard : (discard Message.tidyKeywords : Reading Unit) d m₁ = (.ok (), m₂) :=
        run_discard_ok hrun₂
      rw [hsight₁] at hcases
      refine ⟨m₂, (run_bind_ok hrun₁).trans (run_bind_ok hdiscard), ?_⟩
      simpa using hcases

/-- Keywords that are those of the fields are left alone, or are to be written and none of them has
been renamed. -/
theorem tidying_run {vs : List Text} (hvalues : (m.sight d).values Keywords.fieldName = .ok vs)
    (hseen : seenKeywords [] (m.sight d).header = .ok (Keywords.parse (Text.join ", " vs)))
    (hk : (m.sight d).keywords = .ok (Keywords.parse (Text.join ", " vs)))
    (hedits : m.edits = []) (hclean : (Keywords.parse (Text.join ", " vs)).IsClean) :
    ∃ m', tidying d m = (.ok (), m') ∧ (m.sight d).Relabels (m'.sight d) ∧
      ((IsTidyField vs ∧ m'.edits = []) ∨ (¬ IsTidyField vs ∧ m'.edits ≠ [] ∧
        ∃ k : Keywords, (m'.sight d).IsStaged k ∧ k.IsClean ∧ k.IsCurrent)) := by
  rw [IsTidyField]
  generalize Keywords.parse (Text.join ", " vs) = k at hseen hk hclean ⊢
  have hstaged : (m.sight d).IsStaged k := ⟨hk, Or.inl ⟨hedits, hseen⟩⟩
  obtain ⟨m₁, hsplit, hcases⟩ := tidying_split hvalues hk
  have hstaged₁ : (m₁.sight d).IsStaged k := by
    rcases hcases with ⟨-, hsight⟩ | ⟨-, hsight⟩
    · exact hsight ▸ hstaged
    · exact hsight ▸ hstaged.withKeywords (by simp)
  have hrelabels : (m.sight d).Relabels (m₁.sight d) := by
    rcases hcases with ⟨-, hsight⟩ | ⟨-, hsight⟩
    · exact .of_eq hsight
    · rw [hsight]
      exact ⟨rfl, rfl, rfl, fun hplain =>
        hplain.withKeywords fun n hn => (hclean n hn).2.lineFeed⟩
  rw [hsplit]
  by_cases hcurrent : k.IsCurrent
  · obtain ⟨m', hrun, hsight'⟩ := renameKeywords_of_isCurrent hstaged₁.keywords hcurrent
    refine ⟨m', hrun, hrelabels.trans (.of_eq hsight'), ?_⟩
    have hedits' : m'.edits = m₁.edits := congrArg Sight.edits hsight'
    rw [hedits', hsight']
    rcases hcases with ⟨hform, hsight⟩ | ⟨hform, hsight⟩
    · exact Or.inl ⟨⟨hform, hcurrent⟩, (congrArg Sight.edits hsight).trans hedits⟩
    · refine Or.inr ⟨fun h => hform h.1, ?_, k, hstaged₁, hclean, hcurrent⟩
      have hset : m₁.edits = ((m.sight d).withKeywords (k, true)).edits :=
        congrArg Sight.edits hsight
      rw [hset]
      simp [Sight.withKeywords, withField]
  · obtain ⟨m', hrun, hstaged'⟩ := renameKeywords_staged hstaged₁
    have hrename : (m₁.sight d).Relabels (m'.sight d) := by
      have h := relabels_renameKeywords d m₁
      rw [hrun] at h
      exact h
    refine ⟨m', hrun, hrelabels.trans hrename, Or.inr ⟨fun h => hcurrent h.2, fun hnone => ?_,
      _, hstaged', hclean.renamed, k.isCurrent_exchange⟩⟩
    -- with nothing to be written the keywords would be those of the fields, renamed ones included
    have hheader := (hrelabels.trans hrename).header
    rcases hstaged'.edits with ⟨-, hseen'⟩ | hwritten
    · rw [hheader] at hseen'
      rw [Except.ok.inj (hseen.symm.trans hseen')] at hcurrent
      exact hcurrent k.isCurrent_exchange
    · exact absurd (hwritten.symm.trans hnone) (by simp)

/-! ## What becomes of a message -/

theorem toEditing_bind {α β : Type} (r : Reading α) (g : α → Reading β) :
    (r >>= g).toEditing = r.toEditing >>= fun a => (g a).toEditing := by
  funext desk
  obtain ⟨d, m⟩ := desk
  rw [Message.toEditing_run]
  cases hrun : r d m with
  | mk result m' =>
    have hfirst : r.toEditing ⟨d, m⟩ = (result, ⟨d, m'⟩) := by rw [Message.toEditing_run, hrun]
    cases result with
    | error e =>
      have hwhole : (r >>= g) d m = (.error e, m') := run_bind_error hrun
      rw [hwhole, run_bind_error hfirst]
    | ok a =>
      have hwhole : (r >>= g) d m = g a d m' := run_bind_ok hrun
      rw [hwhole, run_bind_ok hfirst, Message.toEditing_run]

theorem toEditing_discard {α : Type} (r : Reading α) :
    (discard r).toEditing = discard r.toEditing := toEditing_bind r fun _ => pure ()

/-- Saving clean keywords of which none was renamed brings the message to rest, if there is room. -/
theorem Message.save_settled {header : Header} (h : Message.At root place s f d (m.sight d))
    (hread : readHeader f.content = .ok header) (hedits : m.edits ≠ [])
    (hstaged : (m.sight d).IsStaged k) (hclean : k.IsClean) (hcurrent : k.IsCurrent) :
    (¬ s.HasRoom place d ∧ ∃ e m', save ⟨d, m⟩ = (.error e, ⟨d, m'⟩)) ∨
    (s.HasRoom place d ∧ ∃ d' m' f', save ⟨d, m⟩ = (.ok true, ⟨d', m'⟩) ∧
      d.Elsewhere [place ++ s.names, place ++ s.temporary] d' ∧
      d'.item? (place ++ s.names) = some (.file f') ∧ IsTidy f'.content ∧
      KeepsKeywords f'.content) := by
  rcases save_cases h with ⟨hnone, -⟩ | ⟨-, e, m', hsave, -, hwhy⟩ |
    ⟨-, header', d', m', id, hread', hsave, helse, hfile, -, -, -, hroom⟩
  · exact absurd hnone hedits
  · have hreads : ¬ ∃ e', readHeader f.content = .error e' := by simp [hread]
    exact Or.inl ⟨hwhy.resolve_left hreads, e, m', hsave⟩
  · obtain rfl : header = header' := Except.ok.inj (hread.symm.trans hread')
    obtain ⟨written, hwritten, hvalues, -⟩ :=
      values_written hstaged hclean hread h.header hedits
    have hwritten' : readHeader (revise f.content header.bodyOffset m.edits) = .ok written :=
      hwritten
    refine Or.inr ⟨hroom, d', m', _, hsave, helse, hfile, (isTidy_iff hwritten').2 ?_, ?_⟩
    · rw [hvalues]
      exact isTidyField_written hclean hcurrent
    · intro header'' hread'' x hx
      obtain rfl := Except.ok.inj (hwritten'.symm.trans hread'')
      exact hclean.not_hasOpening_values (Or.inl hvalues) x hx

namespace Vacuum

theorem tidyMessage_eq (hdry : v.dryRun = false) :
    v.tidyMessage = tidying.toEditing >>= fun _ => do
      if !(← getThe Desk).message.isDirty then return false
      discard Message.save
      return true := by
  rw [tidying, toEditing_bind, bind_assoc, tidyMessage]
  refine bind_congr fun nonconforming => ?_
  cases nonconforming with
  | false => simp [hdry]
  | true =>
    simp only [if_true, toEditing_bind, toEditing_discard, bind_assoc, hdry, Bool.not_false]

/-- What becomes of a message whose keywords read back.

* It cannot be tidied, and stays as it was: its header block cannot be read, or there is something
  to be written and no room for it.
* It is left alone.
* It is written anew, and is such that it would be left alone from now on. -/
theorem tidyMessage_cases (hdry : v.dryRun = false) (hd : d.Sound)
    (hroot : d.resolve root = .ok place) (hf : d.item? (place ++ s.names) = some (.file f))
    (hkeeps : KeepsKeywords f.content) :
    (((∃ e, readHeader f.content = .error e) ∨ ¬ IsTidy f.content ∧ ¬ s.HasRoom place d) ∧
      ∃ e m', v.tidyMessage ⟨d, .ofEntry (s.entry root)⟩ = (.error e, ⟨d, m'⟩)) ∨
    (IsTidy f.content ∧
      ∃ m', v.tidyMessage ⟨d, .ofEntry (s.entry root)⟩ = (.ok false, ⟨d, m'⟩)) ∨
    ((∃ header, readHeader f.content = .ok header) ∧ ¬ IsTidy f.content ∧ s.HasRoom place d ∧
      ∃ d' m' f', v.tidyMessage ⟨d, .ofEntry (s.entry root)⟩ = (.ok true, ⟨d', m'⟩) ∧
        d.Elsewhere [place ++ s.names, place ++ s.temporary] d' ∧
        d'.item? (place ++ s.names) = some (.file f') ∧ IsTidy f'.content ∧
        KeepsKeywords f'.content) := by
  rw [tidyMessage_eq hdry]
  have hsight := Message.sight_ofEntry hd hroot hf
  have hat : Message.At root place s f d ((Message.ofEntry (s.entry root)).sight d) :=
    hsight ▸ .ofFile hd hroot hf
  have hvalues : ((Message.ofEntry (s.entry root)).sight d).values Keywords.fieldName =
      (readHeader f.content).map (fun h => h.values Keywords.fieldName) := by
    rw [hsight]
    rfl
  cases hread : readHeader f.content with
  | error e =>
    rw [hread] at hvalues
    obtain ⟨m', hrun⟩ := tidying_of_unreadable hvalues
    refine Or.inl ⟨Or.inl ⟨e, rfl⟩, e, m', run_bind_error ?_⟩
    rw [Message.toEditing_run, hrun]
  | ok header =>
    rw [hread] at hvalues
    have hseen : seenKeywords [] (readHeader f.content) =
        .ok (Keywords.parse (Text.join ", " (header.values Keywords.fieldName))) := by
      rw [hread]
      rfl
    have hclean := (hkeeps.exists_header hseen).1
    obtain ⟨m', hrun, hrelabels, hcases⟩ := tidying_run hvalues (hat.header ▸ hseen)
      (hsight ▸ hseen) rfl hclean
    have hfirst : tidying.toEditing ⟨d, .ofEntry (s.entry root)⟩ = (.ok (), ⟨d, m'⟩) := by
      rw [Message.toEditing_run, hrun]
    have hget : (getThe Desk : Editing Desk) ⟨d, m'⟩ = (.ok ⟨d, m'⟩, ⟨d, m'⟩) := rfl
    rw [run_bind_ok hfirst, run_bind_ok hget, isTidy_iff hread]
    rcases hcases with ⟨htidy, hedits⟩ | ⟨huntidy, hedits, k, hstaged, hclean', hcurrent⟩
    · refine Or.inr (Or.inl ⟨htidy, m', ?_⟩)
      simp [Message.isDirty, hedits]
      rfl
    · have hat' := hrelabels.at_slot hat
      have hdirty : m'.isDirty = true := by simp [Message.isDirty, hedits]
      simp only [hdirty, Bool.not_true]
      rcases Message.save_settled hat' hread hedits hstaged hclean' hcurrent with
        ⟨hroom, e, m'', hsave⟩ | ⟨hroom, d', m'', f', hsave, helse, hfile, htidy', hkeeps'⟩
      · have hdiscard : (discard Message.save : Editing Unit) ⟨d, m'⟩ = (.error e, ⟨d, m''⟩) :=
          run_bind_error hsave
        exact Or.inl ⟨Or.inr ⟨huntidy, hroom⟩, e, m'', run_bind_error hdiscard⟩
      · exact Or.inr (Or.inr ⟨⟨header, rfl⟩, huntidy, hroom, d', m'', f',
          run_bind_ok (run_discard_ok hsave), helse, hfile, htidy', hkeeps'⟩)

end Vacuum

end Mailroom
