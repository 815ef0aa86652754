import Mailroom.Text.Blank
import Mailroom.Text.LowerCase

/-!
# What small letters are made of

Writing a text in small letters works on its characters one by one.  Blanks and the signs and
digits of ASCII stay, and come from nothing but themselves; what is written in small letters stays
as it is when it is written so again.

* `lowerTable_apart` says that no small letter of the table has a small letter itself.
* `Text.sign_of_mem_lower` finds the sign that a sign comes from.
* `Text.lower_lower` is idempotence.
-/

namespace Mailroom

/-! ## The table -/

/-- Whether the small letters of one row of the table have no small letters in another row. -/
def rowsApart (r q : Nat × Nat × Nat × Nat) : Bool :=
  Nat.blt (r.2.2.2 + (r.2.1 - r.1)) q.1 || Nat.blt q.2.1 r.2.2.2 ||
    (Nat.beq q.2.2.1 2 && (Nat.beq r.2.2.1 2 || Nat.beq r.1 r.2.1) &&
      Nat.beq ((r.2.2.2 + q.1) % 2) 1)

/-- Whether the rows of a table give small letters that are characters, beyond the signs of ASCII
and apart from the two characters that are treated on their own. -/
def rowFits (r : Nat × Nat × Nat × Nat) : Bool :=
  Nat.ble r.1 r.2.1 && Nat.ble 97 r.2.2.2 &&
    (Nat.blt (r.2.2.2 + (r.2.1 - r.1)) 0xD800 ||
      Nat.blt 0xDFFF r.2.2.2 && Nat.blt (r.2.2.2 + (r.2.1 - r.1)) 0x110000) &&
    (Nat.blt (r.2.2.2 + (r.2.1 - r.1)) 304 || Nat.blt 304 r.2.2.2) &&
    (Nat.blt (r.2.2.2 + (r.2.1 - r.1)) 931 || Nat.blt 931 r.2.2.2) &&
    (Nat.beq r.2.2.1 1 || Nat.beq r.2.2.1 2)

/-- The numbers of the blanks beyond ASCII, range by range. -/
def blankRanges : List (Nat × Nat) :=
  [(0x85, 0x85), (0xA0, 0xA0), (0x1680, 0x1680), (0x2000, 0x200A), (0x2028, 0x2029),
   (0x202F, 0x202F), (0x205F, 0x205F), (0x3000, 0x3000)]

/-- Whether no small letter of a row is a blank. -/
def rowShows (r : Nat × Nat × Nat × Nat) : Bool :=
  blankRanges.all fun b => Nat.blt (r.2.2.2 + (r.2.1 - r.1)) b.1 || Nat.blt b.2 r.2.2.2

theorem lowerTable_apart : lowerTable.all (fun r => lowerTable.all (rowsApart r)) = true := by
  decide +kernel

theorem lowerTable_fits : lowerTable.all rowFits = true := by decide +kernel

theorem lowerTable_shows : lowerTable.all rowShows = true := by decide +kernel

theorem mem_blankRanges {c : Char} (h : isBlank c = true) (hc : 128 ≤ c.toNat) :
    ∃ b ∈ blankRanges, b.1 ≤ c.toNat ∧ c.toNat ≤ b.2 := by
  simp only [isBlank, Bool.or_eq_true, Bool.and_eq_true, decide_eq_true_eq, beq_iff_eq] at h
  simp only [blankRanges, List.mem_cons, List.not_mem_nil, or_false, exists_eq_or_imp,
    exists_eq_left]
  omega

/-! ## Single characters -/

/-- Whether a row of the table gives the small letter of a number. -/
def rowGives (n : Nat) (r : Nat × Nat × Nat × Nat) : Bool :=
  decide (r.1 ≤ n) && decide (n ≤ r.2.1) && (n - r.1) % r.2.2.1 == 0

theorem lowerChar_eq (c : Char) : lowerChar c =
    if c.toNat < 128 then c.toLower
    else match lowerTable.find? (rowGives c.toNat) with
      | some r => Char.ofNat (r.2.2.2 + (c.toNat - r.1))
      | none => c := rfl

theorem toNat_toLower (c : Char) :
    c.toLower.toNat = if 65 ≤ c.toNat ∧ c.toNat ≤ 90 then c.toNat + 32 else c.toNat := by
  unfold Char.toLower
  split
  · rename_i h
    have hle : 65 ≤ c.toNat ∧ c.toNat ≤ 90 := h
    rw [if_pos hle]
    change (c.val + 32).toNat = c.val.toNat + 32
    have : c.val.toNat ≤ 90 := hle.2
    rw [UInt32.toNat_add]
    exact Nat.mod_eq_of_lt (by simp; omega)
  · rename_i h
    have hle : ¬ (65 ≤ c.toNat ∧ c.toNat ≤ 90) := h
    rw [if_neg hle]

theorem toLower_of_toNat {c : Char} (h : ¬ (65 ≤ c.toNat ∧ c.toNat ≤ 90)) : c.toLower = c := by
  have := toNat_toLower c
  rw [if_neg h] at this
  exact Char.toNat_inj.1 this

/-- What is known of a small letter that the table gives. -/
theorem row_spec {c : Char} {r : Nat × Nat × Nat × Nat}
    (h : lowerTable.find? (rowGives c.toNat) = some r) :
    (Char.ofNat (r.2.2.2 + (c.toNat - r.1))).toNat = r.2.2.2 + (c.toNat - r.1) ∧
      97 ≤ r.2.2.2 + (c.toNat - r.1) ∧ r.2.2.2 + (c.toNat - r.1) ≠ 304 ∧
      r.2.2.2 + (c.toNat - r.1) ≠ 931 ∧
      lowerTable.find? (rowGives (r.2.2.2 + (c.toNat - r.1))) = none := by
  have hmem := List.mem_of_find?_eq_some h
  have hgives := List.find?_some h
  have hfits := List.all_eq_true.1 lowerTable_fits r hmem
  simp only [rowGives, Bool.and_eq_true, decide_eq_true_eq, beq_iff_eq] at hgives
  simp only [rowFits, Bool.and_eq_true, Bool.or_eq_true, Nat.ble_eq, Nat.blt_eq, Nat.beq_eq]
    at hfits
  obtain ⟨⟨hfirst, hlast⟩, hstep⟩ := hgives
  obtain ⟨⟨⟨⟨⟨_, h97⟩, hvalid⟩, h304⟩, h931⟩, hsteps⟩ := hfits
  refine ⟨?_, by omega, by omega, by omega, ?_⟩
  · have hchar : (r.2.2.2 + (c.toNat - r.1)).isValidChar := by
      rcases hvalid with hv | ⟨hv, hv'⟩
      · exact Or.inl (by omega)
      · exact Or.inr ⟨by omega, by omega⟩
    rw [Char.ofNat, dif_pos hchar]
    rfl
  · refine List.find?_eq_none.2 fun q hq hgives' => ?_
    have hapart := List.all_eq_true.1 (List.all_eq_true.1 lowerTable_apart r hmem) q hq
    simp only [rowGives, Bool.and_eq_true, decide_eq_true_eq, beq_iff_eq] at hgives'
    simp only [rowsApart, Bool.and_eq_true, Bool.or_eq_true, Nat.blt_eq, Nat.beq_eq] at hapart
    obtain ⟨⟨hfirst', hlast'⟩, hstep'⟩ := hgives'
    rcases hapart with (hlt | hlt) | ⟨⟨hq2, hr2⟩, hodd⟩
    · omega
    · omega
    · rw [hq2] at hstep'
      rcases hr2 with hr2 | hr1
      · rw [hr2] at hstep
        omega
      · omega

/-- No small letter of the table is a blank. -/
theorem not_isBlank_of_row {c : Char} {r : Nat × Nat × Nat × Nat}
    (h : lowerTable.find? (rowGives c.toNat) = some r) {x : Char}
    (hx : x.toNat = r.2.2.2 + (c.toNat - r.1)) (hlarge : 128 ≤ x.toNat) : isBlank x = false := by
  rw [← Bool.not_eq_true]
  intro hblank
  obtain ⟨b, hb, hlow, hhigh⟩ := mem_blankRanges hblank hlarge
  have hgives := List.find?_some h
  have hshows := List.all_eq_true.1 (List.all_eq_true.1 lowerTable_shows r
    (List.mem_of_find?_eq_some h)) b hb
  simp only [rowGives, Bool.and_eq_true, decide_eq_true_eq, beq_iff_eq] at hgives
  simp only [Bool.or_eq_true, Nat.blt_eq] at hshows
  omega

/-- Whether a character stays when it is written in small letters. -/
def IsSmall (c : Char) : Prop := lowerChar c = c ∧ c ≠ 'Σ' ∧ c ≠ 'İ'

theorem isSmall_lowerChar {c : Char} (h₁ : c ≠ 'Σ') (h₂ : c ≠ 'İ') : IsSmall (lowerChar c) := by
  have hsigma : ∀ {x : Char}, x.toNat ≠ 931 → x ≠ 'Σ' := fun h hx => h (by rw [hx]; rfl)
  have hdot : ∀ {x : Char}, x.toNat ≠ 304 → x ≠ 'İ' := fun h hx => h (by rw [hx]; rfl)
  rw [lowerChar_eq]
  split
  · rename_i hc
    have hnat := toNat_toLower c
    have hlt : c.toLower.toNat < 128 := by
      rw [hnat]
      split <;> omega
    refine ⟨?_, hsigma (by omega), hdot (by omega)⟩
    rw [lowerChar_eq, if_pos hlt]
    refine toLower_of_toNat ?_
    rw [hnat]
    split <;> omega
  · rename_i hc
    split
    · rename_i r hr
      obtain ⟨hnat, h97, h304, h931, hnone⟩ := row_spec hr
      refine ⟨?_, hsigma (by omega), hdot (by omega)⟩
      rw [lowerChar_eq, hnat]
      split
      · exact toLower_of_toNat (by omega)
      · rw [hnone]
    · rename_i hnone
      refine ⟨?_, h₁, h₂⟩
      rw [lowerChar_eq, if_neg hc, hnone]

/-- Whether a character is a sign or digit of ASCII in front of the letters, or a blank. -/
def IsSign (c : Char) : Prop := c.toNat < 65 ∨ isBlank c = true

theorem IsSign.toNat {c : Char} (h : IsSign c) : c.toNat < 65 ∨ 128 ≤ c.toNat := by
  rcases h with h | h
  · exact Or.inl h
  · simp only [isBlank, Bool.or_eq_true, Bool.and_eq_true, decide_eq_true_eq, beq_iff_eq] at h
    omega

/-- Signs are the small letters of nothing else. -/
theorem eq_of_lowerChar {c x : Char} (h : lowerChar c = x) (hx : IsSign x) : c = x := by
  have hrange := hx.toNat
  rw [lowerChar_eq] at h
  split at h
  · have hnat := toNat_toLower c
    rw [h] at hnat
    rw [← h]
    refine (toLower_of_toNat ?_).symm
    split at hnat <;> omega
  · split at h
    · rename_i r hr
      obtain ⟨hnat, h97, -⟩ := row_spec hr
      rw [h] at hnat
      have hblank := not_isBlank_of_row hr hnat (by omega)
      rcases hx with hx | hx
      · omega
      · rw [hblank] at hx
        exact absurd hx (by simp)
    · exact h

namespace Text

/-! ## Whole texts -/

/-- The small letters that one character of a text may become. -/
def smallForms (c : Char) : List Text :=
  if c = 'Σ' then [['ς'], ['σ']] else if c = 'İ' then [['i', '\u0307']] else [[lowerChar c]]

theorem lowerAfter_cons (before : Text) (c : Char) (cs : Text) :
    ∃ small ∈ smallForms c, lowerAfter before (c :: cs) = small ++ lowerAfter (c :: before) cs := by
  simp only [lowerAfter, smallForms]
  split
  · split
    · exact ⟨['ς'], by simp, rfl⟩
    · exact ⟨['σ'], by simp, rfl⟩
  · split
    · exact ⟨['i', '\u0307'], by simp, rfl⟩
    · exact ⟨[lowerChar c], by simp, rfl⟩

theorem isSmall_of_mem_smallForms {c x : Char} {small : Text} (h : small ∈ smallForms c)
    (hx : x ∈ small) : IsSmall x := by
  have h1 : IsSmall 'ς' := ⟨by decide +kernel, by decide, by decide⟩
  have h2 : IsSmall 'σ' := ⟨by decide +kernel, by decide, by decide⟩
  have h3 : IsSmall 'i' := ⟨by decide +kernel, by decide, by decide⟩
  have h4 : IsSmall '\u0307' := ⟨by decide +kernel, by decide, by decide⟩
  simp only [smallForms] at h
  split at h
  · simp only [List.mem_cons, List.not_mem_nil, or_false] at h
    rcases h with rfl | rfl
    · rw [List.mem_singleton.1 hx]
      exact h1
    · rw [List.mem_singleton.1 hx]
      exact h2
  · rename_i hsigma
    split at h
    · rw [List.mem_singleton.1 h] at hx
      simp only [List.mem_cons, List.not_mem_nil, or_false] at hx
      rcases hx with rfl | rfl
      · exact h3
      · exact h4
    · rename_i hdot
      rw [List.mem_singleton.1 h] at hx
      rw [List.mem_singleton.1 hx]
      exact isSmall_lowerChar hsigma hdot

theorem eq_of_sign_mem_smallForms {c x : Char} {small : Text} (h : small ∈ smallForms c)
    (hx : x ∈ small) (hsign : IsSign x) : c = x := by
  have h1 : ¬ IsSign 'ς' := by unfold IsSign; decide
  have h2 : ¬ IsSign 'σ' := by unfold IsSign; decide
  have h3 : ¬ IsSign 'i' := by unfold IsSign; decide
  have h4 : ¬ IsSign '\u0307' := by unfold IsSign; decide
  simp only [smallForms] at h
  split at h
  · simp only [List.mem_cons, List.not_mem_nil, or_false] at h
    rcases h with rfl | rfl
    · exact absurd (List.mem_singleton.1 hx ▸ hsign) h1
    · exact absurd (List.mem_singleton.1 hx ▸ hsign) h2
  · split at h
    · rw [List.mem_singleton.1 h] at hx
      simp only [List.mem_cons, List.not_mem_nil, or_false] at hx
      rcases hx with rfl | rfl
      · exact absurd hsign h3
      · exact absurd hsign h4
    · rw [List.mem_singleton.1 h] at hx
      exact eq_of_lowerChar (List.mem_singleton.1 hx).symm hsign

/-- A sign among small letters was there before. -/
theorem sign_of_mem_lower {t : Text} {c : Char} (h : c ∈ lower t) (hc : IsSign c) :
    c ∈ t := by
  suffices hall : ∀ before, c ∈ lowerAfter before t → c ∈ t from hall [] h
  clear h
  intro before
  induction t generalizing before with
  | nil => simp [lowerAfter]
  | cons x t ih =>
    obtain ⟨small, hsmall, heq⟩ := lowerAfter_cons before x t
    intro h
    rw [heq, List.mem_append] at h
    rcases h with h | h
    · simp [eq_of_sign_mem_smallForms hsmall h hc]
    · exact List.mem_cons_of_mem x (ih (x :: before) h)

theorem isSmall_of_mem_lower {t : Text} {c : Char} (h : c ∈ lower t) : IsSmall c := by
  suffices hall : ∀ before, ∀ c ∈ lowerAfter before t, IsSmall c from hall [] c h
  clear h
  intro before
  induction t generalizing before with
  | nil => simp [lowerAfter]
  | cons x t ih =>
    obtain ⟨small, hsmall, heq⟩ := lowerAfter_cons before x t
    intro c hc
    rw [heq, List.mem_append] at hc
    rcases hc with hc | hc
    · exact isSmall_of_mem_smallForms hsmall hc
    · exact ih (x :: before) c hc

theorem lower_of_isSmall {t : Text} (h : ∀ c ∈ t, IsSmall c) : lower t = t := by
  suffices hall : ∀ before, lowerAfter before t = t from hall []
  intro before
  induction t generalizing before with
  | nil => rfl
  | cons c t ih =>
    obtain ⟨hlower, hsigma, hdot⟩ := h c (by simp)
    have := ih (fun x hx => h x (by simp [hx])) (c :: before)
    simp [lowerAfter, hsigma, hdot, hlower, this]

/-- A text in small letters stays as it is when it is written so again. -/
theorem lower_lower (t : Text) : lower (lower t) = lower t :=
  lower_of_isSmall fun _ h => isSmall_of_mem_lower h

end Text

end Mailroom
