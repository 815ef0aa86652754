import Mailroom.Proofs.Message.Plain
import Mailroom.Proofs.Message.Retesting

/-!
# Messages that look alike to rules

A clerk writes two fields of a message, that of the keywords and that of the addresses that the
message was passed on to.  No test of a rule asks for them, unless it looks at the whole message.

* `Sight.Resembles` says that the tests see two messages alike; `Resembles.verdict` says that a
  rule then comes to the same for both, if the keywords are the same.
* `resembles_withKeywords` and `resembles_withField` are for the two fields.
* `Sight.WritesOwn` says that nothing else is to be written; `WritesOwn.keepsFields_saved` compares
  what is seen before and after that is saved, and `KeepsFields.resembles` says that it looks alike.
-/

namespace Mailroom

variable {v v' v'' : Sight} {r : Rule}

/-! ## Verdicts -/

/-- Two messages of which the tests of rules see the same, but for the content. -/
structure Sight.Resembles (v v' : Sight) : Prop where
  /-- They are the same file. -/
  entry : v'.entry = v.entry
  /-- The mailboxes in the fields that are asked for. -/
  mailboxes : ∀ name ∈ addressFields, v'.mailboxes name = v.mailboxes name
  /-- The subject. -/
  subject : v'.subject = v.subject
  /-- The date. -/
  date : v'.date = v.date

theorem Sight.skips_congr (hentry : v'.entry = v.entry) (hk : v'.keywords = v.keywords) (s : Skip) :
    v'.skips r s = v.skips r s := by
  cases s <;> simp only [skips, hasAll, hasNone, hk, hentry]

theorem Sight.firstSkip_congr (h : ∀ s, v'.skips r s = v.skips r s) (ss : List Skip) :
    v'.firstSkip r ss = v.firstSkip r ss := by
  induction ss with
  | nil => rfl
  | cons s ss ih => simp only [firstSkip, h, ih]

theorem Sight.firstFailure_congr (h : ∀ t, v'.passes r t = v.passes r t) (ts : List Test) :
    v'.firstFailure r ts = v.firstFailure r ts := by
  induction ts with
  | nil => rfl
  | cons t ts ih => simp only [firstFailure, h, ih]

namespace Sight.Resembles

theorem refl (v : Sight) : v.Resembles v := ⟨rfl, fun _ _ => rfl, rfl, rfl⟩

theorem symm (h : v.Resembles v') : v'.Resembles v :=
  ⟨h.entry.symm, fun name hname => (h.mailboxes name hname).symm, h.subject.symm, h.date.symm⟩

theorem trans (h : v.Resembles v') (h' : v'.Resembles v'') : v.Resembles v'' :=
  ⟨h'.entry.trans h.entry,
    fun name hname => (h'.mailboxes name hname).trans (h.mailboxes name hname),
    h'.subject.trans h.subject, h'.date.trans h.date⟩

theorem passes (h : v.Resembles v') (hr : v'.content = v.content ∨ r.LooksAtFields) (t : Test) :
    v'.passes r t = v.passes r t := by
  cases t with
  | folder => simp only [Sight.passes, h.entry]
  | age => simp only [Sight.passes, h.date]
  | text t =>
    cases hoperand : r.criteria.operand t with
    | none => simp only [Sight.passes, hoperand]
    | some operand =>
      simp only [Sight.passes, hoperand]
      refine Sight.agrees_congr h.mailboxes h.subject (fun hlooks => ?_) operand
      rcases hr with hsame | ⟨hpart, hpartAnyCase⟩
      · exact hsame
      · rcases hlooks with rfl | rfl
        · exact absurd (hoperand.symm.trans hpart) (by simp)
        · exact absurd (hoperand.symm.trans hpartAnyCase) (by simp)

/-- A rule comes to the same for messages that look alike and have the same keywords, if they have
the same content or it does not look at that. -/
theorem verdict (h : v.Resembles v') (hk : v'.keywords = v.keywords)
    (hr : v'.content = v.content ∨ r.LooksAtFields) : v'.verdict r = v.verdict r := by
  simp only [Sight.verdict, Sight.firstSkip_congr (Sight.skips_congr h.entry hk),
    Sight.firstFailure_congr (h.passes hr)]

end Sight.Resembles

/-! ## The fields that a clerk writes -/

/-- A field that no clerk writes. -/
def IsForeign (name : Text) : Prop :=
  Text.sameName Keywords.fieldName name = false ∧ Text.sameName forwardedField name = false

instance (name : Text) : Decidable (IsForeign name) :=
  inferInstanceAs (Decidable (_ ∧ _))

theorem isForeign_of_mem_addressFields : ∀ name ∈ addressFields, IsForeign name := by decide

/-- Messages of one file, with the same foreign fields, look alike. -/
theorem resembles_of_values (hentry : v'.entry = v.entry)
    (h : ∀ name, IsForeign name → v'.values name = v.values name) : v.Resembles v' where
  entry := hentry
  mailboxes name hname := by
    simp only [Sight.mailboxes, h name (isForeign_of_mem_addressFields name hname)]
  subject := by simp only [Sight.subject, h "Subject" (by decide)]
  date := by simp only [Sight.date, h "Date" (by decide), hentry]

theorem values_withField_of_ne {name other : Text} (value : Text)
    (h : Text.sameName name other = false) : (v.withField name value).values other =
      v.values other := by
  simp only [Sight.values, seenValues, Sight.withField, find?_withField_of_ne v.edits value h]

theorem values_withKeywords_of_ne {change : Keywords × Bool} {name : Text}
    (h : Text.sameName Keywords.fieldName name = false) :
    (v.withKeywords change).values name = v.values name := by
  cases hchange : change.2 with
  | false => simp only [Sight.values, Sight.withKeywords, hchange, Bool.false_eq_true, if_false]
  | true =>
    simp only [Sight.values, seenValues, Sight.withKeywords, hchange, if_true,
      find?_withField_of_ne v.edits _ h]

theorem resembles_withKeywords (v : Sight) (change : Keywords × Bool) :
    v.Resembles (v.withKeywords change) :=
  resembles_of_values rfl fun _ hname => values_withKeywords_of_ne hname.1

theorem resembles_withField (v : Sight) (value : Text) :
    v.Resembles (v.withField forwardedField value) :=
  resembles_of_values rfl fun _ hname => values_withField_of_ne value hname.2

/-! ## What was saved -/

/-- The first date of a message, if there is any, is not empty. -/
def Sight.HasNoEmptyDate (v : Sight) : Prop :=
  ∀ vs, v.values "Date" = .ok vs → vs.head? ≠ some []

namespace Sight.KeepsFields

variable (h : v.KeepsFields v') (hdate : v.HasNoEmptyDate)

include h hdate

theorem head?_date : ∃ vs vs', v.values "Date" = .ok vs ∧ v'.values "Date" = .ok vs' ∧
    vs'.head? = vs.head? := by
  obtain ⟨vs, vs', hvs, hvs', hsettles⟩ := h.values "Date" (by decide) (by decide)
  refine ⟨vs, vs', hvs, hvs', ?_⟩
  rcases hsettles with rfl | rfl
  · rfl
  · cases vs' with
    | nil => exact absurd rfl (hdate _ hvs)
    | cons value vs' => rfl

theorem hasNoEmptyDate : v'.HasNoEmptyDate := by
  obtain ⟨vs, vs', hvs, hvs', hhead⟩ := h.head?_date hdate
  intro us hus
  obtain rfl := Except.ok.inj (hvs'.symm.trans hus)
  rw [hhead]
  exact hdate vs hvs

/-- What is kept of the fields looks alike, if no empty date may have gone. -/
theorem resembles : v.Resembles v' where
  entry := h.entry
  mailboxes name hname :=
    have hplain := isPlainName_of_mem_addressFields name hname
    h.mailboxes name hplain.1 hplain.2
  subject := h.subject
  date := by
    obtain ⟨vs, vs', hvs, hvs', hhead⟩ := h.head?_date hdate
    simp only [Sight.date, hvs, hvs', h.entry, hhead, bind, Except.bind]

end Sight.KeepsFields

/-- Nothing is to be written but the fields that a clerk writes, and what he writes about letters
can be read back. -/
def Sight.WritesOwn (v : Sight) : Prop :=
  ∀ e ∈ v.edits, Text.sameName e.name Keywords.fieldName = true ∨
    Text.sameName e.name forwardedField = true ∧ ReadsBack e.value

namespace Sight.WritesOwn

theorem of_no_edits (h : v.edits = []) : v.WritesOwn := by simp [Sight.WritesOwn, h]

theorem withKeywords (h : v.WritesOwn) (change : Keywords × Bool) :
    (v.withKeywords change).WritesOwn := by
  intro e he
  simp only [Sight.withKeywords] at he
  split at he
  · rcases mem_withField he with he | rfl
    · exact h e he
    · exact Or.inl (sameName_self _)
  · exact h e he

theorem withField (h : v.WritesOwn) {value : Text} (hvalue : ReadsBack value) :
    (v.withField forwardedField value).WritesOwn := by
  intro e he
  rcases mem_withField he with he | rfl
  · exact h e he
  · exact Or.inr ⟨sameName_self _, hvalue⟩

/-- Whatever is to be written of a field other than that of the keywords can be read back. -/
theorem readsBack (h : v.WritesOwn) {name : Text}
    (hother : Text.sameName Keywords.fieldName name = false) :
    ∀ e ∈ v.edits, Text.sameName e.name name = true → ReadsBack e.value := by
  intro e he hname
  rcases h e he with hkeywords | ⟨-, hback⟩
  · -- a field of this name has not that of the keywords
    have hsame : Text.sameName Keywords.fieldName name = true :=
      sameName_iff.2 ((sameName_iff.1 hkeywords).symm.trans (sameName_iff.1 hname))
    exact absurd (hother.symm.trans hsame) (by simp)
  · exact hback

/-- When it is written, all other fields are kept. -/
theorem keepsFields_saved (h : v.WritesOwn) (hplain : v.IsPlain) {content : Bytes} {header : Header}
    (hread : readHeader content = .ok header) (hheader : v.header = .ok header)
    (hentry : v'.entry = v.entry) (hedits : v'.edits = [])
    (hheader' : v'.header = readHeader (revise content header.bodyOffset v.edits)) :
    v.KeepsFields v' := by
  obtain ⟨header', hread', hvalues⟩ := hplain.values_saved hread hheader
  rw [hread'] at hheader'
  refine ⟨hentry, fun name hname hother => ?_⟩
  obtain ⟨vs, hvs, hsettles⟩ := hvalues name hname (h.readsBack hother)
  refine ⟨vs, header'.values name, hvs, ?_, hsettles⟩
  rw [Sight.values, seenValues, hedits, hheader']
  rfl

end Sight.WritesOwn

end Mailroom
