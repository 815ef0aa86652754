import Mailroom.Coding.Base64
import Mailroom.Proofs.Text.Utf8

/-!
# Reading base 64 back

What is written in base 64 is read back as it was, and it holds letters of the alphabet only.

* `Base64.group?_signs` reads one group of four letters.
* `Base64.decode?_encode` puts the groups together.
* `Base64.mem_encode` says which characters there can be.
-/

namespace Mailroom
namespace Base64

/-! ## One letter -/

/-- The byte of the letter of a value. -/
def sign (n : Nat) : UInt8 := UInt8.ofNat (letter n).toNat

theorem encode_letter : ∀ n < 64, String.utf8EncodeChar (letter n) = [sign n] := by decide +kernel

theorem value?_sign : ∀ n < 64, value? (sign n) = some n := by decide +kernel

theorem sign_ne_filler : ∀ n < 64, sign n ≠ 61 := by decide +kernel

theorem encode_filler : String.utf8EncodeChar '=' = [61] := by decide +kernel

/-! ## One group -/

section Group

variable {x y z w : Nat} (hx : x < 64) (hy : y < 64)

include hx hy

theorem group?_signs (hz : z < 64) (hw : w < 64) :
    group? (sign x) (sign y) (sign z) (sign w) =
      some [UInt8.ofNat (x * 4 + y / 16), UInt8.ofNat (y % 16 * 16 + z / 4),
        UInt8.ofNat (z % 4 * 64 + w)] := by
  simp [group?, value?_sign x hx, value?_sign y hy, value?_sign z hz, value?_sign w hw,
    sign_ne_filler z hz, sign_ne_filler w hw]

theorem group?_of_two (hz : z < 64) : group? (sign x) (sign y) (sign z) 61 =
    some [UInt8.ofNat (x * 4 + y / 16), UInt8.ofNat (y % 16 * 16 + z / 4)] := by
  simp [group?, value?_sign x hx, value?_sign y hy, value?_sign z hz, sign_ne_filler z hz]

theorem group?_of_one : group? (sign x) (sign y) 61 61 = some [UInt8.ofNat (x * 4 + y / 16)] := by
  simp [group?, value?_sign x hx, value?_sign y hy]

end Group

/-! ## All groups -/

theorem decode?_cons {a b c d : UInt8} {g : Bytes} (h : group? a b c d = some g) (rest : Bytes) :
    decode? (a :: b :: c :: d :: rest) = (decode? rest).map (g ++ ·) := by
  simp only [decode?, h, Option.bind_eq_bind, Option.bind_some, Option.pure_def]
  cases decode? rest <;> rfl

/-- Three bytes are four letters. -/
theorem group?_three (a b c : UInt8) {n : Nat}
    (hn : a.toNat * 65536 + b.toNat * 256 + c.toNat = n) :
    group? (sign (n / 262144)) (sign (n / 4096 % 64)) (sign (n / 64 % 64)) (sign (n % 64)) =
      some [a, b, c] := by
  have ha := a.toNat_lt
  have hb := b.toNat_lt
  have hc := c.toNat_lt
  rw [group?_signs (by omega) (by omega) (by omega) (by omega),
    show n / 262144 * 4 + n / 4096 % 64 / 16 = a.toNat by omega,
    show n / 4096 % 64 % 16 * 16 + n / 64 % 64 / 4 = b.toNat by omega,
    show n / 64 % 64 % 4 * 64 + n % 64 = c.toNat by omega]
  simp only [UInt8.ofNat_toNat]

/-- Two bytes are three letters and a filler. -/
theorem group?_two (a b : UInt8) {n : Nat} (hn : a.toNat * 65536 + b.toNat * 256 = n) :
    group? (sign (n / 262144)) (sign (n / 4096 % 64)) (sign (n / 64 % 64)) 61 = some [a, b] := by
  have ha := a.toNat_lt
  have hb := b.toNat_lt
  rw [group?_of_two (by omega) (by omega) (by omega),
    show n / 262144 * 4 + n / 4096 % 64 / 16 = a.toNat by omega,
    show n / 4096 % 64 % 16 * 16 + n / 64 % 64 / 4 = b.toNat by omega]
  simp only [UInt8.ofNat_toNat]

/-- One byte is two letters and two fillers. -/
theorem group?_one (a : UInt8) {n : Nat} (hn : a.toNat * 65536 = n) :
    group? (sign (n / 262144)) (sign (n / 4096 % 64)) 61 61 = some [a] := by
  have ha := a.toNat_lt
  rw [group?_of_one (by omega) (by omega),
    show n / 262144 * 4 + n / 4096 % 64 / 16 = a.toNat by omega]
  simp only [UInt8.ofNat_toNat]

/-- What is written in base 64 is read back as it was. -/
theorem decode?_encode (bytes : Bytes) : decode? (Utf8.encode (encode bytes)) = some bytes := by
  induction bytes using encode.induct with
  | case1 a b c rest ih =>
    have ha := a.toNat_lt
    have hb := b.toNat_lt
    have hc := c.toNat_lt
    rw [encode]
    generalize hn : a.toNat * 65536 + b.toNat * 256 + c.toNat = n
    simp only [Utf8.encode_cons]
    rw [encode_letter (n / 262144) (by omega), encode_letter (n / 4096 % 64) (by omega),
      encode_letter (n / 64 % 64) (by omega), encode_letter (n % 64) (by omega)]
    simp only [List.singleton_append]
    rw [decode?_cons (group?_three a b c hn), ih]
    rfl
  | case2 a b =>
    have ha := a.toNat_lt
    have hb := b.toNat_lt
    rw [encode]
    generalize hn : a.toNat * 65536 + b.toNat * 256 = n
    simp only [Utf8.encode_cons]
    rw [encode_letter (n / 262144) (by omega), encode_letter (n / 4096 % 64) (by omega),
      encode_letter (n / 64 % 64) (by omega), encode_filler]
    simp only [List.singleton_append]
    rw [decode?_cons (group?_two a b hn)]
    rfl
  | case3 a =>
    have ha := a.toNat_lt
    rw [encode]
    generalize hn : a.toNat * 65536 = n
    simp only [Utf8.encode_cons]
    rw [encode_letter (n / 262144) (by omega), encode_letter (n / 4096 % 64) (by omega),
      encode_filler]
    simp only [List.singleton_append]
    rw [decode?_cons (group?_one a hn)]
    rfl
  | case4 => rfl

/-- What is written in base 64 holds letters of the alphabet and fillers. -/
theorem mem_encode {bytes : Bytes} {c : Char} (h : c ∈ encode bytes) :
    (∃ n < 64, c = letter n) ∨ c = '=' := by
  induction bytes using encode.induct with
  | case1 a b c' rest ih =>
    have ha := a.toNat_lt
    have hb := b.toNat_lt
    have hc := c'.toNat_lt
    simp only [encode, List.mem_cons] at h
    rcases h with h | h | h | h | h
    · exact Or.inl ⟨_, by omega, h⟩
    · exact Or.inl ⟨_, by omega, h⟩
    · exact Or.inl ⟨_, by omega, h⟩
    · exact Or.inl ⟨_, by omega, h⟩
    · exact ih h
  | case2 a b =>
    have ha := a.toNat_lt
    have hb := b.toNat_lt
    simp only [encode, List.mem_cons, List.not_mem_nil, or_false] at h
    rcases h with h | h | h | h
    · exact Or.inl ⟨_, by omega, h⟩
    · exact Or.inl ⟨_, by omega, h⟩
    · exact Or.inl ⟨_, by omega, h⟩
    · exact Or.inr h
  | case3 a =>
    have ha := a.toNat_lt
    simp only [encode, List.mem_cons, List.not_mem_nil, or_false] at h
    rcases h with h | h | h | h
    · exact Or.inl ⟨_, by omega, h⟩
    · exact Or.inl ⟨_, by omega, h⟩
    · exact Or.inr h
    · exact Or.inr h
  | case4 => simp [encode] at h

theorem letter_plain : ∀ n < 64, letter n ≠ '-' ∧ letter n ≠ '\r' ∧ letter n ≠ '\n' := by
  decide +kernel

/-- So it holds neither a hyphen nor the end of a line. -/
theorem plain_of_mem_encode {bytes : Bytes} {c : Char} (h : c ∈ encode bytes) :
    c ≠ '-' ∧ c ≠ '\r' ∧ c ≠ '\n' := by
  rcases mem_encode h with ⟨n, hn, rfl⟩ | rfl
  · exact letter_plain n hn
  · decide

end Base64
end Mailroom
