import Mathlib.Logic.Equiv.Basic
import Mailroom.Proofs.Header.Written
import Mailroom.Proofs.Maildir.Listing
import Mailroom.Proofs.Message.Placing
import Mailroom.Proofs.Message.Sight

/-!
# Letters that are carried about

Messages are written anew and moved, one after the other.  Where each of them has come to is kept
as a permutation of all slots, and what has become of its content as `SameLetter`.

* `SameLetter` compares the content of a message before and after its header block was rewritten.
* `Carried` compares two disks; `Carried.rewritten` and `Carried.moved` go one step further.
-/

namespace Mailroom

/-! ## The content of a message -/

/-- Whether the second content is the first one with another header block; a content whose header
block cannot be read stays the same. -/
def SameLetter (before after : Bytes) : Prop :=
  match readFields before with
  | .error _ => after = before
  | .ok (_, body) => ∃ fields, readFields after = .ok (fields, body)

theorem sameLetter_iff_of_error {before after : Bytes} {e : HeaderFault}
    (h : readFields before = .error e) : SameLetter before after ↔ after = before := by
  simp only [SameLetter, h]

theorem sameLetter_iff_of_ok {before after body : Bytes} {fields : List RawField}
    (h : readFields before = .ok (fields, body)) :
    SameLetter before after ↔ ∃ fields', readFields after = .ok (fields', body) := by
  simp only [SameLetter, h]

namespace SameLetter

theorem refl (content : Bytes) : SameLetter content content := by
  cases h : readFields content with
  | error e => rw [sameLetter_iff_of_error h]
  | ok r =>
    rw [sameLetter_iff_of_ok h]
    exact ⟨r.1, h⟩

theorem trans {a b c : Bytes} (hab : SameLetter a b) (hbc : SameLetter b c) :
    SameLetter a c := by
  cases ha : readFields a with
  | error e =>
    obtain rfl := (sameLetter_iff_of_error ha).1 hab
    exact hbc
  | ok r =>
    obtain ⟨fields, hb⟩ := (sameLetter_iff_of_ok ha).1 hab
    exact (sameLetter_iff_of_ok ha).2 ((sameLetter_iff_of_ok hb).1 hbc)

end SameLetter

theorem readHeader_eq_ok {content : Bytes} {header : Header} (h : readHeader content = .ok header) :
    ∃ fields body, readFields content = .ok (fields, body) ∧
      header = ⟨fields.map RawField.decode, content.length - body.length⟩ := by
  cases hread : readFields content with
  | error e => simp [readHeader, Header.read, hread] at h
  | ok r =>
    simp only [readHeader, Header.read, hread, Except.ok.injEq] at h
    exact ⟨r.1, r.2, rfl, h.symm⟩

/-- Rewriting the header block changes nothing else of a letter. -/
theorem sameLetter_revise {content : Bytes} {header : Header} {edits : List Field}
    (h : readHeader content = .ok header) (hedits : ∀ e ∈ edits, e.IsPlain) :
    SameLetter content (revise content header.bodyOffset edits) := by
  obtain ⟨fields, body, hread, rfl⟩ := readHeader_eq_ok h
  obtain ⟨kept, -, hrevised⟩ := readFields_revise hread fun e he => (hedits e he).isOneLine
  exact (sameLetter_iff_of_ok hread).2 ⟨_, hrevised⟩

/-! ## All messages -/

/-- Whether no two message files of one state have one name. -/
def NamesDiffer (place : Path) (d : Disk) : Prop :=
  ∀ s t : Slot, s.IsTaken place d → t.IsTaken place d → s.state = t.state → s.name = t.name →
    s = t

/-- Where the messages of one disk are on another one: every message is at the slot that a
permutation gives to its old one, under the same state and name. -/
structure Carried (place : Path) (π : Equiv.Perm Slot) (d d' : Disk) : Prop where
  /-- Every message keeps its state. -/
  state : ∀ s, (π s).state = s.state
  /-- Every message keeps its name. -/
  name : ∀ s, (π s).name = s.name
  /-- No message comes or goes. -/
  taken : ∀ s, (π s).IsTaken place d' ↔ s.IsTaken place d
  /-- Every message stays the same letter. -/
  letter : ∀ s f f', d.item? (place ++ s.names) = some (.file f) →
    d'.item? (place ++ (π s).names) = some (.file f') → SameLetter f.content f'.content

section Steps

variable {place : Path} {π : Equiv.Perm Slot} {d₀ d d' : Disk} {s : Slot} {f f' : File}

theorem isTaken_iff_of_eq {s : Slot} (h : d'.item? (place ++ s.names) = d.item? (place ++ s.names)) :
    s.IsTaken place d' ↔ s.IsTaken place d := by
  rw [Slot.IsTaken, Slot.IsTaken, h]

/-- What two slots have in common is kept when they are exchanged. -/
theorem swap_same {α : Type} {t : Slot} (g : Slot → α) (h : g t = g s) (u : Slot) :
    g (Equiv.swap s t u) = g u := by
  by_cases hus : u = s
  · rw [hus, Equiv.swap_apply_left, h]
  by_cases hut : u = t
  · rw [hut, Equiv.swap_apply_right, h]
  rw [Equiv.swap_apply_of_ne_of_ne hus hut]

namespace Carried

theorem refl (place : Path) (d : Disk) : Carried place (Equiv.refl Slot) d d := by
  refine ⟨fun _ => rfl, fun _ => rfl, fun _ => Iff.rfl, fun s f f' hf hf' => ?_⟩
  obtain rfl : f = f' := by simpa using hf.symm.trans hf'
  exact SameLetter.refl f.content

/-- The names of the messages still differ. -/
theorem namesDiffer (h : Carried place π d₀ d) (hd : NamesDiffer place d₀) :
    NamesDiffer place d := by
  intro s t hs ht hstate hname
  have key : ∀ u : Slot, u.IsTaken place d → (π.symm u).IsTaken place d₀ := by
    intro u hu
    rw [← h.taken, π.apply_symm_apply]
    exact hu
  have hst : ∀ u : Slot, (π.symm u).state = u.state := by
    intro u
    rw [← h.state, π.apply_symm_apply]
  have hnm : ∀ u : Slot, (π.symm u).name = u.name := by
    intro u
    rw [← h.name, π.apply_symm_apply]
  refine π.symm.injective (hd _ _ (key s hs) (key t ht) ?_ ?_)
  · rw [hst, hst, hstate]
  · rw [hnm, hnm, hname]

/-- The message at a slot was rewritten. -/
theorem rewritten (h : Carried place π d₀ d)
    (hsame : ∀ t : Slot, t ≠ s → d'.item? (place ++ t.names) = d.item? (place ++ t.names))
    (hf : d.item? (place ++ s.names) = some (.file f))
    (hf' : d'.item? (place ++ s.names) = some (.file f'))
    (hletter : SameLetter f.content f'.content) : Carried place π d₀ d' := by
  refine ⟨h.state, h.name, fun t => ?_, fun t g g' hg hg' => ?_⟩
  · rw [← h.taken]
    by_cases ht : π t = s
    · rw [ht]
      exact ⟨fun _ => ⟨f, hf⟩, fun _ => ⟨f', hf'⟩⟩
    · exact isTaken_iff_of_eq (hsame _ ht)
  · by_cases ht : π t = s
    · rw [ht, hf'] at hg'
      obtain rfl : f' = g' := by simpa using hg'
      exact (h.letter t g f hg (ht ▸ hf)).trans hletter
    · rw [hsame _ ht] at hg'
      exact h.letter t g g' hg hg'

/-- No file came, went or was written. -/
theorem same_files (h : Carried place π d₀ d)
    (hfiles : ∀ q f, d'.item? q = some (.file f) ↔ d.item? q = some (.file f)) :
    Carried place π d₀ d' := by
  refine ⟨h.state, h.name, fun s => ?_, fun s f f' hf hf' => ?_⟩
  · rw [← h.taken]
    exact exists_congr fun f => hfiles _ f
  · exact h.letter s f f' hf ((hfiles _ f').1 hf')

/-- The message at a slot was moved to another one, where none was. -/
theorem moved {t : Slot} (h : Carried place π d₀ d) (hstate : t.state = s.state)
    (hname : t.name = s.name)
    (hsame : ∀ u : Slot, u ≠ s → u ≠ t → d'.item? (place ++ u.names) = d.item? (place ++ u.names))
    (hf : d.item? (place ++ s.names) = some (.file f)) (hfree : ¬ t.IsTaken place d)
    (hgone : d'.item? (place ++ s.names) = none)
    (hthere : d'.item? (place ++ t.names) = some (.file f'))
    (hletter : SameLetter f.content f'.content) :
    Carried place (π.trans (Equiv.swap s t)) d₀ d' := by
  have hgone' : ¬ s.IsTaken place d' := by
    rintro ⟨g, hg⟩
    rw [hgone] at hg
    exact absurd hg (by simp)
  -- the three places that a slot can be at before the move
  have key : ∀ u : Slot, (Equiv.swap s t u).IsTaken place d' ↔ u.IsTaken place d := by
    intro u
    by_cases hus : u = s
    · rw [hus, Equiv.swap_apply_left]
      exact ⟨fun _ => ⟨f, hf⟩, fun _ => ⟨f', hthere⟩⟩
    by_cases hut : u = t
    · rw [hut, Equiv.swap_apply_right]
      exact ⟨fun h => absurd h hgone', fun h => absurd h hfree⟩
    rw [Equiv.swap_apply_of_ne_of_ne hus hut]
    exact isTaken_iff_of_eq (hsame u hus hut)
  refine ⟨fun u => (swap_same Slot.state hstate (π u)).trans (h.state u),
    fun u => (swap_same Slot.name hname (π u)).trans (h.name u), fun u => ?_,
    fun u g g' hg hg' => ?_⟩
  · rw [Equiv.trans_apply, key, h.taken]
  · rw [Equiv.trans_apply] at hg'
    by_cases hus : π u = s
    · rw [hus, Equiv.swap_apply_left, hthere] at hg'
      obtain rfl : f' = g' := by simpa using hg'
      exact (h.letter u g f hg (hus ▸ hf)).trans hletter
    by_cases hut : π u = t
    · rw [hut, Equiv.swap_apply_right, hgone] at hg'
      exact absurd hg' (by simp)
    rw [Equiv.swap_apply_of_ne_of_ne hus hut, hsame _ hus hut] at hg'
    exact h.letter u g g' hg hg'

end Carried

end Steps

end Mailroom
