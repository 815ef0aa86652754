import Mailroom.Coding.Charset
import Mailroom.Text.Blank

/-!
# Text as UTF-8

What is written as UTF-8 reads back, and bytes of ASCII stand for themselves on both sides.

* `Utf8.decode?_encode` is the round trip.
* `Utf8.mem_encode_of_ascii` finds the character of an ASCII byte.
* `Utf8.decodeLossy_append_ascii` and `Utf8.decodeLossy_of_ascii` read ASCII bytes one by one, and
  `Utf8.ascii_of_decodeLossy` says that no other bytes read as text of ASCII.
-/

namespace Mailroom

theorem toNat_ofNat_byte (b : UInt8) : (Char.ofNat b.toNat).toNat = b.toNat := by
  have hvalid : b.toNat.isValidChar := Or.inl (Nat.lt_of_lt_of_le b.toNat_lt (by decide))
  rw [Char.ofNat, dif_pos hvalid]
  rfl

namespace Utf8

/-! ## The first byte of a character -/

section First

variable {n : Nat}

theorem toNat_ofNat_lt (h : n < 256) : (UInt8.ofNat n).toNat = n := by
  rw [UInt8.toNat_ofNat']
  exact Nat.mod_eq_of_lt h

/-- The first byte, by its number. -/
theorem first_ofNat (h : n < 256) : first (UInt8.ofNat n) =
    if n < 0x80 then ([some (Char.ofNat n)], .start)
    else if 0xC2 ≤ n ∧ n ≤ 0xDF then ([], .inside 0 0x80 0xBF (n - 0xC0))
    else if n = 0xE0 then ([], .inside 1 0xA0 0xBF 0)
    else if n = 0xED then ([], .inside 1 0x80 0x9F (n - 0xE0))
    else if 0xE1 ≤ n ∧ n ≤ 0xEF then ([], .inside 1 0x80 0xBF (n - 0xE0))
    else if n = 0xF0 then ([], .inside 2 0x90 0xBF 0)
    else if 0xF1 ≤ n ∧ n ≤ 0xF3 then ([], .inside 2 0x80 0xBF (n - 0xF0))
    else if n = 0xF4 then ([], .inside 2 0x80 0x8F (n - 0xF0))
    else ([none], .start) := by
  unfold first
  simp only [UInt8.lt_iff_toNat_lt, UInt8.le_iff_toNat_le, ← UInt8.toNat_inj, toNat_ofNat_lt h]
  rfl

theorem first_two (h₁ : 0xC2 ≤ n) (h₂ : n ≤ 0xDF) :
    first (UInt8.ofNat n) = ([], .inside 0 0x80 0xBF (n - 0xC0)) := by
  rw [first_ofNat (by omega), if_neg (by omega), if_pos (by omega)]

theorem first_three (h₁ : 0xE0 ≤ n) (h₂ : n ≤ 0xEF) :
    first (UInt8.ofNat n) = ([], .inside 1 (if n = 0xE0 then 0xA0 else 0x80)
      (if n = 0xED then 0x9F else 0xBF) (n - 0xE0)) := by
  rw [first_ofNat (by omega), if_neg (by omega), if_neg (by omega)]
  by_cases hE0 : n = 0xE0
  · subst hE0
    rfl
  · rw [if_neg hE0, if_neg hE0]
    by_cases hED : n = 0xED
    · subst hED
      rfl
    · rw [if_neg hED, if_neg hED, if_pos (by omega)]

theorem first_four (h₁ : 0xF0 ≤ n) (h₂ : n ≤ 0xF4) :
    first (UInt8.ofNat n) = ([], .inside 2 (if n = 0xF0 then 0x90 else 0x80)
      (if n = 0xF4 then 0x8F else 0xBF) (n - 0xF0)) := by
  rw [first_ofNat (by omega), if_neg (by omega), if_neg (by omega), if_neg (by omega),
    if_neg (by omega), if_neg (by omega)]
  by_cases hF0 : n = 0xF0
  · subst hF0
    rfl
  · rw [if_neg hF0, if_neg hF0]
    by_cases hF4 : n = 0xF4
    · subst hF4
      rfl
    · rw [if_pos (by omega), if_neg hF4]

end First

/-! ## The bytes that follow -/

theorem unitsFrom_inside_zero {low high : UInt8} {acc k : Nat} (hk : k < 0x40)
    (h₁ : low.toNat ≤ k + 0x80) (h₂ : k + 0x80 ≤ high.toNat) (bs : Bytes) :
    unitsFrom (.inside 0 low high acc) (UInt8.ofNat (k + 0x80) :: bs) =
      some (Char.ofNat (acc * 64 + k)) :: unitsFrom .start bs := by
  have hn := toNat_ofNat_lt (n := k + 0x80) (by omega)
  simp only [unitsFrom, step, UInt8.le_iff_toNat_le, hn]
  rw [if_pos ⟨h₁, h₂⟩]
  simp

theorem unitsFrom_inside_succ {low high : UInt8} {m acc k : Nat} (hk : k < 0x40)
    (h₁ : low.toNat ≤ k + 0x80) (h₂ : k + 0x80 ≤ high.toNat) (bs : Bytes) :
    unitsFrom (.inside (m + 1) low high acc) (UInt8.ofNat (k + 0x80) :: bs) =
      unitsFrom (.inside m 0x80 0xBF (acc * 64 + k)) bs := by
  have hn := toNat_ofNat_lt (n := k + 0x80) (by omega)
  simp only [unitsFrom, step, UInt8.le_iff_toNat_le, hn]
  rw [if_pos ⟨h₁, h₂⟩]
  simp

/-! ## The round trip -/

theorem char_range (c : Char) : c.toNat < 0xD800 ∨ (0xDFFF < c.toNat ∧ c.toNat < 0x110000) := c.valid

/-- The bytes of a character, by its number. -/
theorem encodeChar_eq (c : Char) : String.utf8EncodeChar c =
    if c.toNat ≤ 0x7f then [UInt8.ofNat c.toNat]
    else if c.toNat ≤ 0x7ff then
      [UInt8.ofNat (c.toNat / 64 % 0x20 + 0xC0), UInt8.ofNat (c.toNat % 0x40 + 0x80)]
    else if c.toNat ≤ 0xffff then
      [UInt8.ofNat (c.toNat / 4096 % 0x10 + 0xE0), UInt8.ofNat (c.toNat / 64 % 0x40 + 0x80),
       UInt8.ofNat (c.toNat % 0x40 + 0x80)]
    else
      [UInt8.ofNat (c.toNat / 262144 % 0x08 + 0xF0), UInt8.ofNat (c.toNat / 4096 % 0x40 + 0x80),
       UInt8.ofNat (c.toNat / 64 % 0x40 + 0x80), UInt8.ofNat (c.toNat % 0x40 + 0x80)] := rfl

/-- The bytes of a character are read as that character, whatever follows. -/
theorem unitsFrom_encodeChar (c : Char) (bs : Bytes) :
    unitsFrom .start (String.utf8EncodeChar c ++ bs) = some c :: unitsFrom .start bs := by
  have hrange := char_range c
  have hc : Char.ofNat c.toNat = c := Char.ofNat_toNat c
  have hstart : ∀ b bs, unitsFrom .start (b :: bs) =
      (first b).1 ++ unitsFrom (first b).2 bs := fun _ _ => rfl
  rw [encodeChar_eq]
  split
  · rename_i h₁
    rw [List.singleton_append, hstart, first_ofNat (by omega), if_pos (by omega)]
    simp [hc]
  split
  · rename_i h₁ h₂
    simp only [List.cons_append, List.nil_append]
    rw [hstart, first_two (by omega) (by omega), List.nil_append,
      unitsFrom_inside_zero (by omega) (by simp) (by simp; omega)]
    rw [show (c.toNat / 64 % 32 + 192 - 192) * 64 + c.toNat % 64 = c.toNat by omega, hc]
  split
  · rename_i h₁ h₂ h₃
    simp only [List.cons_append, List.nil_append]
    rw [hstart, first_three (by omega) (by omega), List.nil_append,
      unitsFrom_inside_succ (by omega) (by split <;> simp; omega) (by split <;> simp <;> omega),
      unitsFrom_inside_zero (by omega) (by simp) (by simp; omega)]
    rw [show ((c.toNat / 4096 % 16 + 224 - 224) * 64 + c.toNat / 64 % 64) * 64 + c.toNat % 64 =
      c.toNat by omega, hc]
  · rename_i h₁ h₂ h₃
    simp only [List.cons_append, List.nil_append]
    rw [hstart, first_four (by omega) (by omega), List.nil_append,
      unitsFrom_inside_succ (by omega) (by split <;> simp; omega) (by split <;> simp <;> omega),
      unitsFrom_inside_succ (by omega) (by simp) (by simp; omega),
      unitsFrom_inside_zero (by omega) (by simp) (by simp; omega)]
    rw [show (((c.toNat / 262144 % 8 + 240 - 240) * 64 + c.toNat / 4096 % 64) * 64 +
      c.toNat / 64 % 64) * 64 + c.toNat % 64 = c.toNat by omega, hc]

theorem units_encode (t : Text) : units (encode t) = t.map some := by
  induction t with
  | nil => rfl
  | cons c t ih =>
    rw [encode, List.flatMap_cons, units, unitsFrom_encodeChar, List.map_cons]
    exact congrArg (some c :: ·) ih

/-- What is written as UTF-8 reads back. -/
theorem decode?_encode (t : Text) : decode? (encode t) = some t := by
  rw [decode?, units_encode]
  induction t with
  | nil => rfl
  | cons c t ih =>
    simp only [List.map_cons, List.mapM_cons, ih]
    rfl

/-! ## Bytes of ASCII -/

/-- A byte of ASCII is written for its own character only. -/
theorem mem_encode_of_ascii {t : Text} {b : UInt8} (hb : b.toNat < 0x80) (h : b ∈ encode t) :
    Char.ofNat b.toNat ∈ t := by
  simp only [encode, List.mem_flatMap] at h
  obtain ⟨c, hct, hbc⟩ := h
  suffices hcb : c = Char.ofNat b.toNat by
    rw [← hcb]
    exact hct
  have hlt : ∀ n, n < 256 → b = UInt8.ofNat n → b.toNat = n := by
    intro n hn heq
    rw [heq, toNat_ofNat_lt hn]
  rw [encodeChar_eq] at hbc
  split at hbc
  · rename_i h₁
    rw [hlt c.toNat (by omega) (List.mem_singleton.1 hbc)]
    exact (Char.ofNat_toNat c).symm
  split at hbc
  · simp only [List.mem_cons, List.not_mem_nil, or_false] at hbc
    rcases hbc with h | h <;> have := hlt _ (by omega) h <;> omega
  split at hbc
  · simp only [List.mem_cons, List.not_mem_nil, or_false] at hbc
    rcases hbc with h | h | h <;> have := hlt _ (by omega) h <;> omega
  · simp only [List.mem_cons, List.not_mem_nil, or_false] at hbc
    rcases hbc with h | h | h | h <;> have := hlt _ (by omega) h <;> omega

theorem encode_append (t u : Text) : encode (t ++ u) = encode t ++ encode u := by
  simp [encode]

theorem encode_cons (c : Char) (t : Text) : encode (c :: t) = String.utf8EncodeChar c ++ encode t :=
  rfl

theorem first_of_ascii {b : UInt8} (hb : b.toNat < 0x80) :
    first b = ([some (Char.ofNat b.toNat)], .start) := by
  have := first_ofNat (n := b.toNat) b.toNat_lt
  rw [UInt8.ofNat_toNat, if_pos hb] at this
  exact this

/-- Bytes of ASCII are read one by one. -/
theorem units_of_ascii {bs : Bytes} (h : ∀ b ∈ bs, b.toNat < 0x80) :
    units bs = bs.map (fun b => some (Char.ofNat b.toNat)) := by
  induction bs with
  | nil => rfl
  | cons b bs ih =>
    have hstep : units (b :: bs) = (first b).1 ++ unitsFrom (first b).2 bs := rfl
    rw [hstep, first_of_ascii (h b (by simp)), List.map_cons]
    exact congrArg (some (Char.ofNat b.toNat) :: ·) (ih fun x hx => h x (by simp [hx]))

/-- A text that is written in bytes of ASCII is one of ASCII. -/
theorem ascii_of_encode {t : Text} (h : ∀ b ∈ encode t, b.toNat < 0x80) :
    ∀ c ∈ t, c.toNat < 0x80 := by
  intro c hc
  have hmem : some c ∈ units (encode t) := by
    rw [units_encode]
    exact List.mem_map_of_mem hc
  rw [units_of_ascii h] at hmem
  obtain ⟨b, hb, heq⟩ := List.mem_map.1 hmem
  rw [← Option.some.inj heq, toNat_ofNat_byte]
  exact h b hb

theorem decodeLossy_of_ascii {bs : Bytes} (h : ∀ b ∈ bs, b.toNat < 0x80) :
    decodeLossy bs = Charset.latin bs := by
  rw [decodeLossy, units_of_ascii h, Charset.latin, List.map_map]
  rfl

theorem decodeLossy_cons_ascii {b : UInt8} (hb : b.toNat < 0x80) (bs : Bytes) :
    decodeLossy (b :: bs) = Char.ofNat b.toNat :: decodeLossy bs := by
  have hstep : units (b :: bs) = (first b).1 ++ unitsFrom (first b).2 bs := rfl
  rw [decodeLossy, hstep, first_of_ascii hb]
  rfl

/-- Whether a reader inside a character takes no byte of ASCII for a part of it. -/
def State.IsWide : State → Prop
  | .start => True
  | .inside _ low _ _ => 0x80 ≤ low.toNat

theorem isWide_first (b : UInt8) : (first b).2.IsWide := by
  have := first_ofNat (n := b.toNat) b.toNat_lt
  rw [UInt8.ofNat_toNat] at this
  rw [this]
  repeat' split
  all_goals simp [State.IsWide]

theorem isWide_step {s : State} (b : UInt8) : (step s b).2.IsWide := by
  cases s with
  | start => exact isWide_first b
  | inside more low high acc =>
    simp only [step]
    split
    · cases more with
      | zero => trivial
      | succ m => simp [State.IsWide]
    · exact isWide_first b

theorem unitsFrom_append_ascii {s : State} (hs : s.IsWide) (bs : Bytes) {b : UInt8}
    (hb : b.toNat < 0x80) :
    unitsFrom s (bs ++ [b]) = unitsFrom s bs ++ [some (Char.ofNat b.toNat)] := by
  induction bs generalizing s with
  | nil =>
    cases s with
    | start =>
      change (first b).1 ++ unitsFrom (first b).2 [] = _
      rw [first_of_ascii hb]
      rfl
    | inside more low high acc =>
      have hlow : ¬ (low ≤ b ∧ b ≤ high) := by
        rw [UInt8.le_iff_toNat_le]
        simp only [State.IsWide] at hs
        omega
      simp only [List.nil_append, unitsFrom, step, if_neg hlow, first_of_ascii hb]
      rfl
  | cons c bs ih =>
    have hcons : ∀ xs, unitsFrom s (c :: xs) = (step s c).1 ++ unitsFrom (step s c).2 xs := by
      intro xs
      cases s <;> rfl
    rw [List.cons_append, hcons, hcons, ih (isWide_step c), List.append_assoc]

theorem decodeLossy_append_ascii (bs : Bytes) {b : UInt8} (hb : b.toNat < 0x80) :
    decodeLossy (bs ++ [b]) = decodeLossy bs ++ [Char.ofNat b.toNat] := by
  rw [decodeLossy, units, unitsFrom_append_ascii (s := .start) trivial bs hb, List.map_append]
  rfl

/-! ## Text of ASCII -/

theorem le_toNat_ofNat {n : Nat} (h : 0x80 ≤ n) (hvalid : n.isValidChar) :
    0x80 ≤ (Char.ofNat n).toNat := by
  rw [Char.ofNat, dif_pos hvalid]
  exact h

/-- Whether a reader inside a character reads, whatever bytes end it, a character beyond ASCII. -/
def EndsWide : Nat → UInt8 → UInt8 → Nat → Prop
  | 0, low, high, acc => ∀ b : UInt8, low ≤ b ∧ b ≤ high →
      0x80 ≤ (Char.ofNat (acc * 64 + (b.toNat - 0x80))).toNat
  | more + 1, low, high, acc => ∀ b : UInt8, low ≤ b ∧ b ≤ high →
      EndsWide more 0x80 0xBF (acc * 64 + (b.toNat - 0x80))

/-- Whether a reader, wherever it stands, is not about to read a character of ASCII. -/
def State.IsBeyond : State → Prop
  | .start => True
  | .inside more low high acc => EndsWide more low high acc

theorem isBeyond_first (b : UInt8) : (first b).2.IsBeyond := by
  have hfirst := first_ofNat (n := b.toNat) b.toNat_lt
  rw [UInt8.ofNat_toNat] at hfirst
  rw [hfirst]
  repeat' split
  all_goals
    simp only [State.IsBeyond, EndsWide, UInt8.le_iff_toNat_le, UInt8.reduceToNat]
  all_goals
    intros
    refine le_toNat_ofNat ?_ ?_
    · omega
    · unfold Nat.isValidChar
      omega

/-- A byte beyond ASCII that leaves the reader between characters begins none. -/
theorem first_of_wide {b : UInt8} (hb : 0x80 ≤ b.toNat) (h : (first b).2 = .start) :
    (first b).1 = [none] := by
  have hfirst := first_ofNat (n := b.toNat) b.toNat_lt
  rw [UInt8.ofNat_toNat, if_neg (by omega)] at hfirst
  rw [hfirst] at h ⊢
  repeat' split
  all_goals simp_all

/-- Bytes that are read as ASCII are of ASCII, and are read from between characters. -/
theorem ascii_of_unitsFrom {s : State} (hs : s.IsBeyond) {bs : Bytes}
    (h : ∀ u ∈ unitsFrom s bs, ∃ c : Char, u = some c ∧ c.toNat < 0x80) :
    s = .start ∧ ∀ b ∈ bs, b.toNat < 0x80 := by
  induction bs generalizing s with
  | nil =>
    cases s with
    | start => exact ⟨rfl, by simp⟩
    | inside more low high acc =>
      obtain ⟨c, hc, -⟩ := h none (by simp [unitsFrom])
      simp at hc
  | cons b bs ih =>
    -- no unit is missing, and the last byte of a wide character would give a wide one
    have hcons : unitsFrom s (b :: bs) = (step s b).1 ++ unitsFrom (step s b).2 bs := by
      cases s <;> rfl
    rw [hcons] at h
    have hrest := fun hs' => ih (s := (step s b).2) hs' fun u hu => h u (by simp [hu])
    cases s with
    | start =>
      obtain ⟨hstart, hbs⟩ := hrest (isBeyond_first b)
      refine ⟨rfl, ?_⟩
      have hb : b.toNat < 0x80 := by
        refine Classical.byContradiction fun hb => ?_
        have hnone := first_of_wide (by omega) hstart
        obtain ⟨c, hc, -⟩ := h none (by simp [step, hnone])
        simp at hc
      exact List.forall_mem_cons.2 ⟨hb, hbs⟩
    | inside more low high acc =>
      exfalso
      by_cases hin : low ≤ b ∧ b ≤ high
      · cases more with
        | zero =>
          obtain ⟨c, hc, hlt⟩ := h (some (Char.ofNat (acc * 64 + (b.toNat - 0x80))))
            (by simp [step, hin])
          have hwide : 0x80 ≤ (Char.ofNat (acc * 64 + (b.toNat - 0x80))).toNat := hs b hin
          rw [Option.some.inj hc] at hwide
          omega
        | succ more =>
          have hstep : (step (.inside (more + 1) low high acc) b).2 =
              .inside more 0x80 0xBF (acc * 64 + (b.toNat - 0x80)) := by simp [step, hin]
          rw [hstep] at hrest
          exact absurd (hrest (hs b hin)).1 (by simp)
      · obtain ⟨c, hc, -⟩ := h none (by simp [step, hin])
        simp at hc

/-- Only bytes of ASCII are read as text of ASCII. -/
theorem ascii_of_decodeLossy {bs : Bytes} (h : ∀ c ∈ decodeLossy bs, c.toNat < 0x80) :
    ∀ b ∈ bs, b.toNat < 0x80 := by
  refine (ascii_of_unitsFrom (s := .start) trivial fun u hu => ?_).2
  have hmem : u.getD '\uFFFD' ∈ decodeLossy bs := List.mem_map_of_mem hu
  cases u with
  | none => exact absurd (h _ hmem) (by decide)
  | some c => exact ⟨c, rfl, h c hmem⟩

end Utf8
end Mailroom
