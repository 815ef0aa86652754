import Mathlib.Data.List.TakeWhile
import Mailroom.Header.Revision
import Mailroom.Proofs.Text.Lower
import Mailroom.Proofs.Text.Trim
import Mailroom.Proofs.Text.Utf8

/-!
# Names of fields

Names compare without regard to the case of ASCII letters, and a name that is asked for is one of
plain ASCII.  Where a line gives such a name to its field, the two readings of the line agree: the
one by which fields are dropped and the one by which their values are found.

* `IsPlainName` is what every name is that the mailroom asks for.
* `lineName_of_sameName` compares the two readings.
-/

namespace Mailroom

/-! ## Equality of names -/

theorem sameName_iff {a b : Text} : Text.sameName a b = true ↔ Text.asciiLower a = Text.asciiLower b :=
  beq_iff_eq

theorem sameName_self (name : Text) : Text.sameName name name = true := sameName_iff.2 rfl

/-- Two names of which one is the same as a third are the same as the third together. -/
theorem sameName_congr {a b : Text} (h : Text.sameName a b = true) (c : Text) :
    Text.sameName c a = Text.sameName c b := by
  unfold Text.sameName
  rw [sameName_iff.1 h]

/-- Whether a character is no letter of ASCII. -/
def IsFixed (c : Char) : Prop := ∀ d : Char, d.toLower = c.toLower → d = c

theorem isFixed_of_toNat {c : Char} (h : c.toNat < 65 ∨ 122 < c.toNat) : IsFixed c := by
  intro d hd
  have hc := toNat_toLower c
  have hd' := toNat_toLower d
  rw [hd, hc] at hd'
  refine Char.toNat_inj.1 ?_
  split at hd' <;> split at hd' <;> omega

theorem exists_of_mem_of_sameName {a b : Text} (h : Text.sameName a b = true) {c : Char}
    (hc : c ∈ a) : ∃ d ∈ b, d.toLower = c.toLower := by
  have hmem : c.toLower ∈ Text.asciiLower b := by
    rw [← sameName_iff.1 h]
    exact List.mem_map_of_mem hc
  exact List.mem_map.1 hmem

/-- A character that is no letter is in both of two names that are the same. -/
theorem mem_of_sameName {a b : Text} (h : Text.sameName a b = true) {c : Char} (hc : c ∈ a)
    (hfixed : IsFixed c) : c ∈ b := by
  obtain ⟨d, hd, hlower⟩ := exists_of_mem_of_sameName h hc
  exact hfixed d hlower ▸ hd

/-! ## Plain names -/

/-- A name that can be asked for: of ASCII, without a colon and without blanks. -/
def IsPlainName (name : Text) : Prop :=
  name ≠ [] ∧ ∀ c ∈ name, c.toNat < 0x80 ∧ c ≠ ':' ∧ isBlank c = false

instance (name : Text) : Decidable (IsPlainName name) :=
  @instDecidableAnd _ _ inferInstance (List.decidableBAll _ name)

theorem isBlank_toNat {c : Char} (h : isBlank c = true) : c.toNat < 65 ∨ 122 < c.toNat := by
  simp only [isBlank, Bool.or_eq_true, Bool.and_eq_true, decide_eq_true_eq, beq_iff_eq] at h
  omega

/-- The bytes of a plain name are the numbers of its characters. -/
theorem encode_of_isPlainName {name : Text} (h : ∀ c ∈ name, c.toNat < 0x80) :
    Utf8.encode name = name.map (fun c => UInt8.ofNat c.toNat) := by
  induction name with
  | nil => rfl
  | cons c name ih =>
    have hc := h c (by simp)
    rw [Utf8.encode_cons, Utf8.encodeChar_eq, if_pos (by omega), ih fun x hx => h x (by simp [hx])]
    rfl

theorem latin_encode {name : Text} (h : ∀ c ∈ name, c.toNat < 0x80) :
    Charset.latin (Utf8.encode name) = name := by
  rw [encode_of_isPlainName h, Charset.latin, List.map_map]
  refine (List.map_congr_left fun c hc => ?_).trans (List.map_id name)
  have hlt : c.toNat < 256 := Nat.lt_trans (h c hc) (by decide)
  simp only [Function.comp, Utf8.toNat_ofNat_lt hlt, Char.ofNat_toNat, id]

/-! ## Names without blanks around them -/

/-- A name of ASCII that neither begins nor ends with a blank. -/
structure IsTrimmedName (name : Text) : Prop where
  /-- It is of ASCII. -/
  ascii : ∀ c ∈ name, c.toNat < 0x80
  /-- It begins with no blank. -/
  first : ∀ c ∈ name.head?, isBlank c = false
  /-- It ends with no blank. -/
  last : ∀ c ∈ name.getLast?, isBlank c = false

theorem isTrimmedName_of_not_blank {name : Text}
    (h : ∀ c ∈ name, c.toNat < 0x80 ∧ isBlank c = false) : IsTrimmedName name :=
  ⟨fun c hc => (h c hc).1, fun c hc => (h c (List.mem_of_head? hc)).2,
    fun c hc => (h c (List.mem_of_getLast? hc)).2⟩

theorem IsPlainName.isTrimmedName {name : Text} (h : IsPlainName name) : IsTrimmedName name :=
  isTrimmedName_of_not_blank fun c hc => ⟨(h.2 c hc).1, (h.2 c hc).2.2⟩

/-- A character that is the same as one that is no blank is no blank. -/
theorem not_isBlank_of_toLower {c d : Char} (h : d.toLower = c.toLower)
    (hd : isBlank d = false) : isBlank c = false := by
  rw [← Bool.not_eq_true]
  intro hc
  rw [isFixed_of_toNat (isBlank_toNat hc) d h, hc] at hd
  exact absurd hd (by simp)

/-- What is the same as a name of ASCII is one. -/
theorem ascii_of_sameName {a b : Text} (hb : ∀ c ∈ b, c.toNat < 0x80)
    (h : Text.sameName a b = true) : ∀ c ∈ a, c.toNat < 0x80 := by
  intro c hc
  refine Classical.byContradiction fun hlarge => ?_
  have hmem := mem_of_sameName h hc (isFixed_of_toNat (by omega))
  exact hlarge (hb c hmem)

/-- A name that was written is found as a name of ASCII exactly if it is the same. -/
theorem sameName_latin_encode {a b : Text} (hb : ∀ c ∈ b, c.toNat < 0x80) :
    Text.sameName (Charset.latin (Utf8.encode a)) b = Text.sameName a b := by
  rw [Bool.eq_iff_iff]
  constructor
  · intro h
    have hbytes : ∀ x ∈ Utf8.encode a, x.toNat < 0x80 := by
      intro x hx
      have hc := ascii_of_sameName hb h (Char.ofNat x.toNat) (List.mem_map.2 ⟨x, hx, rfl⟩)
      rwa [toNat_ofNat_byte] at hc
    rwa [latin_encode (Utf8.ascii_of_encode hbytes)] at h
  · intro h
    rwa [latin_encode (ascii_of_sameName hb h)]

theorem IsTrimmedName.of_sameName {a b : Text} (hb : IsTrimmedName b)
    (h : Text.sameName a b = true) : IsTrimmedName a := by
  have hlower : a.map Char.toLower = b.map Char.toLower := sameName_iff.1 h
  refine ⟨ascii_of_sameName hb.ascii h, fun c hc => ?_, fun c hc => ?_⟩
  · have hhead : a.head?.map Char.toLower = b.head?.map Char.toLower := by
      rw [← List.head?_map, ← List.head?_map, hlower]
    rw [Option.mem_def.1 hc] at hhead
    obtain ⟨d, hd, hcd⟩ := Option.map_eq_some_iff.1 hhead.symm
    exact not_isBlank_of_toLower hcd (hb.first d hd)
  · have hlast : a.getLast?.map Char.toLower = b.getLast?.map Char.toLower := by
      rw [← List.getLast?_map, ← List.getLast?_map, hlower]
    rw [Option.mem_def.1 hc] at hlast
    obtain ⟨d, hd, hcd⟩ := Option.map_eq_some_iff.1 hlast.symm
    exact not_isBlank_of_toLower hcd (hb.last d hd)

theorem IsTrimmedName.trim {name : Text} (h : IsTrimmedName name) : Text.trim name = name :=
  Text.trim_eq_self ⟨h.first, h.last⟩

/-- Where the bytes before a colon read as a name without blanks around it, the line gives that
name to its field, and it continues no other line. -/
theorem lineName_of_sameName {key : Bytes} {name : Text} (hkey : 58 ∉ key)
    (hname : IsTrimmedName name) (h : Text.sameName (Charset.latin key) name = true) :
    lineName key = Charset.latin key ∧ beginsFolded key = false := by
  have htrimmed := hname.of_sameName h
  have hascii : ∀ b ∈ key, b.toNat < 0x80 := by
    intro b hb
    have hmem := htrimmed.ascii (Char.ofNat b.toNat) (List.mem_map.2 ⟨b, hb, rfl⟩)
    rwa [toNat_ofNat_byte] at hmem
  refine ⟨?_, ?_⟩
  · have hself : key.takeWhile (· != 58) = key := by
      refine List.takeWhile_eq_self_iff.2 fun b hb => ?_
      simp only [bne_iff_ne]
      rintro rfl
      exact hkey hb
    rw [lineName, hself, Utf8.decodeLossy_of_ascii hascii]
    exact htrimmed.trim
  · cases key with
    | nil => rfl
    | cons b key =>
      have hblank : isBlank (Char.ofNat b.toNat) = false := htrimmed.first _ rfl
      rw [beginsFolded, Bool.or_eq_false_iff]
      refine ⟨?_, ?_⟩
      · rw [beq_eq_false_iff_ne]
        rintro rfl
        exact absurd hblank (by decide)
      · rw [beq_eq_false_iff_ne]
        rintro rfl
        exact absurd hblank (by decide)

end Mailroom
