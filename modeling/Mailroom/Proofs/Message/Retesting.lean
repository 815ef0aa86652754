import Mailroom.Proofs.Header.ReadBack
import Mailroom.Proofs.Verdict

/-!
# Tests after keywords were written

Writing keywords leaves the other fields alone, but that an empty one at the end may go.  A test
that is passed then was passed before, unless it looks at the whole message.

* `Sight.KeepsFields` compares what is seen before and after.
* `Sight.KeepsFields.passes` is the result.
-/

namespace Mailroom

/-- What is seen of a message is as it was, but for the content, the keywords, and empty values at
the end, which may have gone. -/
structure Sight.KeepsFields (v v' : Sight) : Prop where
  /-- The message is where it was. -/
  entry : v'.entry = v.entry
  /-- The fields other than that of the keywords. -/
  values : ∀ name, IsPlainName name → Text.sameName Keywords.fieldName name = false →
    ∃ vs vs', v.values name = .ok vs ∧ v'.values name = .ok vs' ∧ SettlesTo vs vs'

/-- Whether a rule looks at fields only. -/
def Rule.LooksAtFields (r : Rule) : Prop :=
  r.criteria.operand .part = none ∧ r.criteria.operand .partAnyCase = none

theorem mailboxesOf_settles {vs vs' : List Text} (h : SettlesTo vs vs') :
    Message.mailboxesOf vs' = Message.mailboxesOf vs := by
  rcases h with rfl | rfl
  · rfl
  have hempty : Mailbox.parseList [] = .ok [] := by decide
  induction vs' with
  | nil => simp [Message.mailboxesOf, hempty, bind, Except.bind, pure, Except.pure]
  | cons v vs ih => simp only [List.cons_append, Message.mailboxesOf, ← ih]

/-- The address fields that rules ask for. -/
def addressFields : List Text := ["From", "To", "Sender", "Delivered-To"]

theorem isPlainName_of_mem_addressFields : ∀ name ∈ addressFields,
    IsPlainName name ∧ Text.sameName Keywords.fieldName name = false := by decide

section Settling

variable {v v' : Sight} {vs vs' : List Text}

theorem Sight.mailboxes_of_settles {name : Text} (hvs : v.values name = .ok vs)
    (hvs' : v'.values name = .ok vs') (h : SettlesTo vs vs') :
    v'.mailboxes name = v.mailboxes name := by
  simp only [Sight.mailboxes, hvs, hvs', bind, Except.bind, mailboxesOf_settles h]

theorem Sight.subject_of_settles (hvs : v.values "Subject" = .ok vs)
    (hvs' : v'.values "Subject" = .ok vs') (h : SettlesTo vs vs') : v'.subject = v.subject := by
  simp only [Sight.subject, hvs, hvs', bind, Except.bind]
  rcases h with rfl | rfl
  · rfl
  · cases vs' <;> rfl

end Settling

/-- What a test of a text gives depends on the mailboxes and the subject, unless it looks at the
whole message. -/
theorem Sight.agrees_congr {v v' : Sight} {t : TextTest}
    (hmailboxes : ∀ name ∈ addressFields, v'.mailboxes name = v.mailboxes name)
    (hsubject : v'.subject = v.subject)
    (hcontent : t = .part ∨ t = .partAnyCase → v'.content = v.content) (operand : Text) :
    v'.agrees operand t = v.agrees operand t := by
  cases t with
  | author => simp only [agrees, hmailboxes "From" (by decide)]
  | authorDomain => simp only [agrees, hmailboxes "From" (by decide)]
  | recipient => simp only [agrees, hmailboxes "To" (by decide)]
  | recipientDomain => simp only [agrees, hmailboxes "To" (by decide)]
  | sender => simp only [agrees, hmailboxes "Sender" (by decide)]
  | deliveredTo => simp only [agrees, hmailboxes "Delivered-To" (by decide)]
  | subject => simp only [agrees, hsubject]
  | subjectAnyCase => simp only [agrees, hsubject]
  | subjectPart => simp only [agrees, hsubject]
  | subjectPartAnyCase => simp only [agrees, hsubject]
  | part => simp only [agrees, hcontent (Or.inl rfl)]
  | partAnyCase => simp only [agrees, hcontent (Or.inr rfl)]

namespace Sight.KeepsFields

variable {v v' : Sight} (h : v.KeepsFields v')

include h

theorem mailboxes (name : Text) (hname : IsPlainName name)
    (hother : Text.sameName Keywords.fieldName name = false) :
    v'.mailboxes name = v.mailboxes name := by
  obtain ⟨vs, vs', hvs, hvs', hsettles⟩ := h.values name hname hother
  exact Sight.mailboxes_of_settles hvs hvs' hsettles

theorem subject : v'.subject = v.subject := by
  obtain ⟨vs, vs', hvs, hvs', hsettles⟩ := h.values "Subject" (by decide) (by decide)
  exact Sight.subject_of_settles hvs hvs' hsettles

/-- A date that can be read now could be read before. -/
theorem date {t : Time} (ht : v'.date = .ok t) : v.date = .ok t := by
  obtain ⟨vs, vs', hvs, hvs', hsettles⟩ := h.values "Date" (by decide) (by decide)
  obtain ⟨value, rest, hvalue, hread⟩ := Sight.date_eq_ok.1 ht
  obtain rfl := Except.ok.inj (hvs'.symm.trans hvalue)
  rcases hsettles with rfl | rfl
  · exact Sight.date_eq_ok.2 ⟨value, rest, hvs, hread⟩
  · exact Sight.date_eq_ok.2 ⟨value, rest ++ [[]], by simpa using hvs, hread⟩

/-- A test of a text gives what it gave, unless it looks at the whole message. -/
theorem agrees {t : TextTest} (ht : t ≠ .part ∧ t ≠ .partAnyCase) (operand : Text) :
    v'.agrees operand t = v.agrees operand t :=
  agrees_congr (fun name hname =>
    have hplain := isPlainName_of_mem_addressFields name hname
    h.mailboxes name hplain.1 hplain.2) h.subject (fun hlooks => absurd hlooks (by simp [ht])) operand

/-- A test of a rule that looks at fields only was passed before, if it is passed now. -/
theorem passes {r : Rule} (hr : r.LooksAtFields) {t : Test} (ht : v'.passes r t = .ok true) :
    v.passes r t = .ok true := by
  cases t with
  | folder =>
    rw [Sight.passes, h.entry] at ht
    exact ht
  | age =>
    cases hokay : r.okayDate with
    | none => simp [Sight.passes, hokay]
    | some okay =>
      simp only [Sight.passes, hokay] at ht ⊢
      cases hdate : v'.date with
      | error e => simp [hdate, bind, Except.bind] at ht
      | ok now =>
        rw [hdate] at ht
        rw [h.date hdate]
        exact ht
  | text t =>
    cases hoperand : r.criteria.operand t with
    | none => simp [Sight.passes, hoperand]
    | some operand =>
      have hlooks : t ≠ .part ∧ t ≠ .partAnyCase := by
        constructor
        · rintro rfl
          simp [hr.1] at hoperand
        · rintro rfl
          simp [hr.2] at hoperand
      simp only [Sight.passes, hoperand] at ht ⊢
      rw [← h.agrees hlooks]
      exact ht

end Sight.KeepsFields

end Mailroom
