import Mailroom.Proofs.Header.Lists
import Mailroom.Proofs.Message.Plain
import Mailroom.Proofs.Message.Retesting

/-!
# Labels that stay

Labels that were added and removed, and written, are read back as they were.  A rule that did so
is for the message no more, and neither is a rule that was not for it before.

* `Keywords.IsClean` is for keywords that read back: `Keywords.IsClean.parse_values`.
* `Sight.IsStaged` says that the keyword field is to get the value of the keywords.
* `Sight.not_applies_relabeled` and `Sight.applies_of_relabeled` are the two results.
-/

namespace Mailroom

/-! ## Keywords that read back -/

/-- Whether keywords read back when they were written. -/
def Keywords.IsClean (k : Keywords) : Prop := ∀ n ∈ k.toList, resolveFolder n = n ∧ IsToken n

/-- The values of a field that is written for a text, if that is not empty, and removed for an
empty one. -/
theorem eq_of_settlesTo {t : Text} {vs : List Text}
    (h : SettlesTo (if t.isEmpty then [] else [t]) vs) : vs = if t.isEmpty then [] else [t] := by
  rcases h with heq | heq
  · exact heq
  · -- no empty value was written that could have gone
    split at heq
    · simp at heq
    · rename_i hne
      cases vs with
      | nil => simp [(List.cons.inj heq).1] at hne
      | cons v vs => simp at heq

theorem join_values (t : Text) : Text.join ", " (if t.isEmpty then [] else [t]) = t := by
  split
  · rename_i hempty
    exact (List.isEmpty_iff.1 hempty).symm
  · exact Text.join_singleton _ _

theorem isToken_resolveFolder {t : Text} (h : IsToken t) : IsToken (resolveFolder t) :=
  holds_resolveFolder h (by decide +kernel)

namespace Keywords.IsClean

variable {k : Keywords}

/-- Keywords that are read from values in which nothing looks like an encoded word are clean. -/
theorem parse {vs : List Text} (h : ∀ v ∈ vs, ¬ HasOpening v) :
    (Keywords.parse (Text.join ", " vs)).IsClean := by
  intro n hn
  obtain ⟨w, hw, rfl⟩ := Keywords.mem_parse.1 hn
  have hopening : ¬ HasOpening (Text.join ", " vs) := not_hasOpening_join h
  exact ⟨resolveFolder_resolveFolder w, isToken_resolveFolder (isToken_of_mem_words hopening hw)⟩

theorem insertAll {labels : List Text} (h : k.IsClean) (hlabels : ∀ l ∈ labels, IsToken l) :
    (k.insertAll labels).1.IsClean := by
  intro n hn
  rcases Keywords.mem_insertAll.1 hn with hn | ⟨l, hl, rfl⟩
  · exact h n hn
  · exact ⟨resolveFolder_resolveFolder l, isToken_resolveFolder (hlabels l hl)⟩

theorem eraseAll (h : k.IsClean) (labels : List Text) : (k.eraseAll labels).1.IsClean :=
  fun n hn => h n (Keywords.mem_eraseAll.1 hn).1

theorem readsBack (h : k.IsClean) : ReadsBack k.render := readsBack_join fun n hn => (h n hn).2

/-- Nothing in a field that was written for clean keywords looks like an encoded word. -/
theorem not_hasOpening_values (h : k.IsClean) {vs : List Text}
    (hvs : SettlesTo (if k.render.isEmpty then [] else [k.render]) vs) :
    ∀ v ∈ vs, ¬ HasOpening v := by
  intro v hv
  have hmem : v ∈ (if k.render.isEmpty then [] else [k.render]) := hvs.mem hv
  split at hmem
  · simp at hmem
  · rw [List.mem_singleton.1 hmem]
    exact h.readsBack.opening

theorem parse_render (h : k.IsClean) : Keywords.parse k.render = k :=
  Keywords.parse_render (fun n hn => (h n hn).1) fun n hn => (h n hn).2.1

/-- Clean keywords are read back from the field that was written for them. -/
theorem parse_values (h : k.IsClean) {vs : List Text}
    (hvs : SettlesTo (if k.render.isEmpty then [] else [k.render]) vs) :
    Keywords.parse (Text.join ", " vs) = k := by
  rw [eq_of_settlesTo hvs, join_values]
  exact h.parse_render

end Keywords.IsClean

/-! ## What a rule makes of the keywords -/

/-- The keywords after a rule was carried out. -/
def Rule.relabel (r : Rule) (k : Keywords) : Keywords := ((k.insertAll r.label).1.eraseAll r.clear).1

/-- Whether one rule removes no label that another one adds. -/
def Rule.Spares (r r' : Rule) : Prop :=
  ∀ l ∈ r'.label, ∀ c ∈ r.clear, resolveFolder l ≠ resolveFolder c

theorem contains_relabel {r : Rule} {k : Keywords} {n : Text} :
    (r.relabel k).contains n = true ↔
      (k.contains n = true ∨ ∃ l ∈ r.label, resolveFolder n = resolveFolder l) ∧
        ∀ c ∈ r.clear, resolveFolder n ≠ resolveFolder c := by
  rw [Rule.relabel, Keywords.contains_iff, Keywords.mem_eraseAll, Keywords.mem_insertAll,
    ← Keywords.contains_iff]

namespace Sight

variable {v v' : Sight} {r r' : Rule} {k : Keywords}

/-- A rule that was carried out is for the message no more. -/
theorem not_applies_relabeled (hk : v.keywords = .ok (r.relabel k)) (hspares : r.Spares r)
    (hacts : r.label ≠ [] ∨ r.clear ≠ []) : (v.verdict r).applies = false := by
  rw [← Bool.not_eq_true, applies_iff, skips_iff_of_keywords hk]
  rintro ⟨⟨hlabel, hclear, -⟩, -⟩
  by_cases hnil : r.label = []
  · -- none of the labels that it removes is there
    obtain ⟨c, hc, hthere⟩ := hclear (hacts.resolve_left (fun h => h hnil))
    exact (contains_relabel.1 hthere).2 c hc rfl
  · -- all of the labels that it adds are there
    obtain ⟨l, hl, hmissing⟩ := hlabel hnil
    have hthere : (r.relabel k).contains l = true :=
      contains_relabel.2 ⟨Or.inr ⟨l, hl, rfl⟩, hspares l hl⟩
    rw [hthere] at hmissing
    exact absurd hmissing (by simp)

/-- A rule that is for a message after another one was carried out was for it before, if neither
removes what the other one adds. -/
theorem applies_of_relabeled (h : v.KeepsFields v') (hk : v.keywords = .ok k)
    (hk' : v'.keywords = .ok (r.relabel k)) (hr : (v.verdict r).applies = true)
    (hspares : r.Spares r') (hspares' : r'.Spares r) (hlooks : r'.LooksAtFields)
    (hr' : (v'.verdict r').applies = true) : (v.verdict r').applies = true := by
  rw [applies_iff, skips_iff_of_keywords hk'] at hr'
  obtain ⟨⟨hlabel, hclear, hmove, -⟩, htests, hasks⟩ := hr'
  rw [applies_iff, skips_iff_of_keywords hk] at hr ⊢
  obtain ⟨⟨-, -, -, hstarred⟩, -⟩ := hr
  refine ⟨⟨fun hne => ?_, fun hne => ?_, h.entry ▸ hmove, hstarred⟩, fun t ht => ?_, hasks⟩
  · -- a label that is missing now was missing before
    obtain ⟨l, hl, hmissing⟩ := hlabel hne
    refine ⟨l, hl, ?_⟩
    rw [← Bool.not_eq_true] at hmissing ⊢
    exact fun hthere => hmissing (contains_relabel.2 ⟨Or.inl hthere, hspares l hl⟩)
  · -- a label to be removed that is there now was there before
    obtain ⟨c, hc, hthere⟩ := hclear hne
    refine ⟨c, hc, (contains_relabel.1 hthere).1.resolve_right ?_⟩
    rintro ⟨l, hl, heq⟩
    exact hspares' l hl c hc heq.symm
  · exact h.passes hlooks (htests t ht)

end Sight

end Mailroom
