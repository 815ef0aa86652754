import Mailroom.Proofs.Forwarding
import Mailroom.Proofs.Header.ReadBack
import Mailroom.Proofs.Text.Lower

/-!
# New values on one line

The new values that a message is to get are written on one line each, if the labels of the rules
and the addresses that letters go to hold no line feed.

* `Sight.IsPlain` says so of what is seen of a message.
* `IsPlain.insertAll` to `IsPlain.moved` keep it, step by step.
* `IsPlain.values_saved` compares what is seen before and after the values were written.
-/

namespace Mailroom

/-- The values that a message is to get are written on one line. -/
structure Sight.IsPlain (v : Sight) : Prop where
  /-- Every new value is plain. -/
  edits : ∀ e ∈ v.edits, e.IsPlain
  /-- Every field can be asked for. -/
  names : ∀ e ∈ v.edits, IsPlainName e.name
  /-- No field gets two new values. -/
  distinct : v.edits.Pairwise (fun a b => Text.sameName a.name b.name = false)
  /-- No keyword holds a line feed. -/
  keywords : ∀ k, v.keywords = .ok k → ∀ n ∈ k.toList, '\n' ∉ n

theorem lineFeed_not_mem_resolveFolder {t : Text} (h : '\n' ∉ t) : '\n' ∉ resolveFolder t :=
  holds_resolveFolder (P := fun t => '\n' ∉ t) h (by decide)

theorem lineFeed_not_mem_word {t w : Text} (h : w ∈ Text.words isTokenBreak t) : '\n' ∉ w := by
  intro hmem
  have hbreak := (Text.isWord_of_mem_words h).1.2 _ hmem
  exact absurd hbreak (by decide)

theorem lineFeed_not_mem_seenKeywords {edits : List Field} {header : Except Error Header}
    {k : Keywords} (h : seenKeywords edits header = .ok k) : ∀ n ∈ k.toList, '\n' ∉ n := by
  intro n hn
  unfold seenKeywords at h
  cases hvalues : seenValues edits header Keywords.fieldName with
  | error e => simp [hvalues, Except.map] at h
  | ok values =>
    simp only [hvalues, Except.map, Except.ok.injEq] at h
    rw [← h, Keywords.mem_parse] at hn
    obtain ⟨w, hw, rfl⟩ := hn
    exact lineFeed_not_mem_resolveFolder (lineFeed_not_mem_word hw)

theorem mem_withField {edits : List Field} {name value : Text} {e : Field}
    (h : e ∈ withField edits name value) : e ∈ edits ∨ e = ⟨name, value⟩ := by
  rcases List.mem_append.1 h with h | h
  · exact Or.inl (List.mem_filter.1 h).1
  · exact Or.inr (List.mem_singleton.1 h)

theorem lineFeed_not_mem_join {ts : List Text} (h : ∀ t ∈ ts, '\n' ∉ t) :
    '\n' ∉ Text.join ", " ts := by
  intro hmem
  rcases Text.mem_join hmem with hglue | ⟨t, ht, hin⟩
  · exact absurd hglue (by decide)
  · exact h t ht hin

theorem isPlainName_keywords : IsPlainName Keywords.fieldName := by decide

theorem isPlainName_forwarded : IsPlainName forwardedField := by decide

theorem pairwise_withField {edits : List Field} (name value : Text)
    (h : edits.Pairwise (fun a b => Text.sameName a.name b.name = false)) :
    (withField edits name value).Pairwise (fun a b => Text.sameName a.name b.name = false) := by
  refine List.pairwise_append.2 ⟨h.sublist List.filter_sublist, List.pairwise_singleton _ _, ?_⟩
  intro a ha b hb
  obtain rfl := List.mem_singleton.1 hb
  simpa using (List.mem_filter.1 ha).2

theorem lineFeed_not_mem_lower {t : Text} (h : '\n' ∉ t) : '\n' ∉ Text.lower t :=
  fun hmem => h (Text.sign_of_mem_lower hmem (Or.inl (by decide)))

theorem lineFeed_not_mem_forwarded {v : Sight} {done : TextSet} (h : v.forwarded = .ok done) :
    ∀ a ∈ done.toList, '\n' ∉ a := by
  intro a ha
  unfold Sight.forwarded at h
  cases hvalues : v.values forwardedField with
  | error e => simp [hvalues, bind, Except.bind] at h
  | ok values =>
    simp only [hvalues, bind, Except.bind, Except.ok.injEq] at h
    rw [← h, forwardedIn, TextSet.mem_ofList, List.mem_map] at ha
    obtain ⟨w, hw, rfl⟩ := ha
    obtain ⟨value, -, hvalue⟩ := List.mem_flatMap.1 hw
    exact lineFeed_not_mem_lower (lineFeed_not_mem_word hvalue)

namespace Sight.IsPlain

variable {v v' : Sight}

theorem ofFile (e : Entry) (content : Bytes) : (Sight.ofFile e content).IsPlain :=
  ⟨by simp [Sight.ofFile], by simp [Sight.ofFile], List.Pairwise.nil,
    fun _ hk => lineFeed_not_mem_seenKeywords hk⟩

theorem withField {name value : Text} (h : v.IsPlain) (hname : IsPlainName name)
    (hvalue : '\n' ∉ value) : (v.withField name value).IsPlain := by
  refine ⟨fun e he => ?_, fun e he => ?_, pairwise_withField _ _ h.distinct, h.keywords⟩
  · rcases mem_withField he with he | rfl
    · exact h.edits e he
    · exact ⟨hname.1, fun c hc => (hname.2 c hc).2, hvalue⟩
  · rcases mem_withField he with he | rfl
    · exact h.names e he
    · exact hname

theorem withKeywords {change : Keywords × Bool} (h : v.IsPlain)
    (hchange : ∀ n ∈ change.1.toList, '\n' ∉ n) : (v.withKeywords change).IsPlain := by
  have hvalue : '\n' ∉ change.1.render := lineFeed_not_mem_join hchange
  have hfield := h.withField isPlainName_keywords hvalue
  refine ⟨?_, ?_, ?_, fun k hk => ?_⟩
  · simp only [Sight.withKeywords]
    split
    · exact hfield.edits
    · exact h.edits
  · simp only [Sight.withKeywords]
    split
    · exact hfield.names
    · exact h.names
  · simp only [Sight.withKeywords]
    split
    · exact hfield.distinct
    · exact h.distinct
  · obtain rfl : change.1 = k := by simpa [Sight.withKeywords] using hk
    exact hchange

theorem insertAll {k : Keywords} {labels : List Text} (h : v.IsPlain) (hk : v.keywords = .ok k)
    (hlabels : ∀ l ∈ labels, '\n' ∉ l) : (v.withKeywords (k.insertAll labels)).IsPlain := by
  refine h.withKeywords fun n hn => ?_
  rcases Keywords.mem_insertAll.1 hn with hn | ⟨l, hl, rfl⟩
  · exact h.keywords k hk n hn
  · exact lineFeed_not_mem_resolveFolder (hlabels l hl)

theorem eraseAll {k : Keywords} (labels : List Text) (h : v.IsPlain) (hk : v.keywords = .ok k) :
    (v.withKeywords (k.eraseAll labels)).IsPlain :=
  h.withKeywords fun n hn => h.keywords k hk n (Keywords.mem_eraseAll.1 hn).1

theorem passedOn {done : TextSet} {destinations : List Mailbox} (h : v.IsPlain)
    (hdone : v.forwarded = .ok done) (hdestinations : ∀ m ∈ destinations, '\n' ∉ m.email) :
    (v.withField forwardedField
      (Text.join ", " (done.insertAll (pendingOf done destinations)).toList)).IsPlain := by
  refine h.withField isPlainName_forwarded (lineFeed_not_mem_join fun a ha => ?_)
  rcases TextSet.mem_insertAll.1 ha with ha | ha
  · exact lineFeed_not_mem_forwarded hdone a ha
  · obtain ⟨⟨m, hm, rfl⟩, -⟩ := mem_pendingOf.1 ha
    exact lineFeed_not_mem_lower (hdestinations m hm)

theorem saved {header : Except Error Header} (h : v.IsPlain) (hedits : v'.edits = [])
    (hkeywords : v'.keywords = v.keywords ∨ v'.keywords = seenKeywords [] header) :
    v'.IsPlain := by
  refine ⟨by simp [hedits], by simp [hedits], by simp [hedits], fun k hk => ?_⟩
  rcases hkeywords with heq | heq
  · exact h.keywords k (heq ▸ hk)
  · exact lineFeed_not_mem_seenKeywords (heq ▸ hk)

theorem moved (entry : Entry) (h : v.IsPlain) : { v with entry := entry }.IsPlain :=
  ⟨h.edits, h.names, h.distinct, h.keywords⟩

end Sight.IsPlain

/-! ## What is seen after saving -/

theorem readHeader_eq_ok_iff {content : Bytes} {header : Header} :
    readHeader content = .ok header ↔ Header.read content = .ok header := by
  unfold readHeader
  cases Header.read content <;> simp

/-- What was seen of a field is seen when the new values were written, if they read back. -/
theorem Sight.IsPlain.values_saved {v : Sight} (h : v.IsPlain) {content : Bytes} {header : Header}
    (hread : readHeader content = .ok header) (hheader : v.header = .ok header) :
    ∃ header', readHeader (revise content header.bodyOffset v.edits) = .ok header' ∧
      ∀ name, IsPlainName name →
        (∀ e ∈ v.edits, Text.sameName e.name name = true → ReadsBack e.value) →
        ∃ vs, v.values name = .ok vs ∧ SettlesTo vs (header'.values name) := by
  obtain ⟨header', hread', hvalues⟩ :=
    values_revise (readHeader_eq_ok_iff.1 hread) h.edits h.names h.distinct
  refine ⟨header', readHeader_eq_ok_iff.2 hread', fun name hname hback => ?_⟩
  have hsettles := hvalues name hname hback
  rw [Sight.values, seenValues, hheader]
  cases hfind : v.edits.find? (fun e => Text.sameName e.name name) with
  | none =>
    rw [hfind] at hsettles
    exact ⟨_, rfl, hsettles⟩
  | some e =>
    rw [hfind] at hsettles
    exact ⟨_, rfl, hsettles⟩

end Mailroom
