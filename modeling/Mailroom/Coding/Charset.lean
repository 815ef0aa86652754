import Mailroom.Text.Utf8

/-!
# Character sets

The character sets that messages name, and how bytes become text in each.  What is ill-formed
becomes U+FFFD.
-/

namespace Mailroom

/-- A character set. -/
inductive Charset where
  /-- Unicode in bytes. -/
  | utf8
  /-- Unicode in pairs of bytes, the low byte first. -/
  | utf16Little
  /-- Unicode in pairs of bytes, the high byte first. -/
  | utf16Big
  /-- The Western European set, which also stands for ASCII and Latin-1. -/
  | western
  deriving DecidableEq, Repr

namespace Charset

/-- The labels of each character set, in small letters. -/
def labels : List (Charset × List Text) :=
  [(utf8, ["utf-8", "utf8", "unicode-1-1-utf-8", "unicode11utf8", "unicode20utf8",
      "x-unicode20utf8"]),
   (western, ["us-ascii", "ascii", "iso-8859-1", "windows-1252", "latin1", "l1", "cp1252",
      "x-cp1252", "ansi_x3.4-1968", "cp819", "csisolatin1", "ibm819", "iso-ir-100", "iso8859-1",
      "iso88591", "iso_8859-1", "iso_8859-1:1987"]),
   (utf16Big, ["utf-16be", "unicodefffe"]),
   (utf16Little, ["utf-16", "utf-16le", "csunicode", "iso-10646-ucs-2", "ucs-2", "unicode",
      "unicodefeff"])]

/-- Whether a character is a blank of ASCII. -/
def isLabelBlank (c : Char) : Bool :=
  c == ' ' || c == '\t' || c == '\n' || c == '\x0c' || c == '\r'

/-- The character set that a label names; case and blanks around it do not count. -/
def ofLabel? (label : Text) : Option Charset :=
  let name := Text.asciiLower (Text.dropEndWhile isLabelBlank (label.dropWhile isLabelBlank))
  (labels.find? (fun e => e.2.contains name)).map Prod.fst

/-! ## The Western European set -/

/-- The characters of the bytes from 0x80 to 0x9F. -/
def westernHigh : List Nat :=
  [0x20AC, 0x81, 0x201A, 0x192, 0x201E, 0x2026, 0x2020, 0x2021, 0x2C6, 0x2030, 0x160, 0x2039,
   0x152, 0x8D, 0x17D, 0x8F, 0x90, 0x2018, 0x2019, 0x201C, 0x201D, 0x2022, 0x2013, 0x2014, 0x2DC,
   0x2122, 0x161, 0x203A, 0x153, 0x9D, 0x17E, 0x178]

/-- The character of a byte. -/
def westernChar (b : UInt8) : Char :=
  let n := b.toNat
  if 0x80 ≤ n ∧ n < 0xA0 then Char.ofNat (westernHigh.getD (n - 0x80) n) else Char.ofNat n

/-! ## Pairs of bytes -/

/-- The sixteen-bit units of a byte sequence; `none` stands for a byte without its pair. -/
def pairs (big : Bool) : Bytes → List (Option Nat)
  | [] => []
  | [_] => [none]
  | a :: b :: rest =>
    some (if big then a.toNat * 256 + b.toNat else b.toNat * 256 + a.toNat) :: pairs big rest

/-- The text of a sequence of sixteen-bit units; `high` is a high surrogate that awaits its low
one. -/
def ofPairs (high : Option Nat) : List (Option Nat) → Text
  | [] => if high.isSome then ['\uFFFD'] else []
  | u :: us =>
    match high, u with
    | none, none => '\uFFFD' :: ofPairs none us
    | some _, none => '\uFFFD' :: ofPairs none us
    | none, some n =>
      if 0xD800 ≤ n ∧ n < 0xDC00 then ofPairs (some n) us
      else if 0xDC00 ≤ n ∧ n < 0xE000 then '\uFFFD' :: ofPairs none us
      else Char.ofNat n :: ofPairs none us
    | some h, some n =>
      if 0xDC00 ≤ n ∧ n < 0xE000 then
        Char.ofNat (0x10000 + (h - 0xD800) * 1024 + (n - 0xDC00)) :: ofPairs none us
      else if 0xD800 ≤ n ∧ n < 0xDC00 then '\uFFFD' :: ofPairs (some n) us
      else '\uFFFD' :: Char.ofNat n :: ofPairs none us

/-! ## Decoding -/

/-- The text of a byte sequence in a character set. -/
def decode : Charset → Bytes → Text
  | utf8, bs => Utf8.decodeLossy bs
  | western, bs => bs.map westernChar
  | utf16Little, bs => ofPairs none (pairs false bs)
  | utf16Big, bs => ofPairs none (pairs true bs)

/-- The text of a byte sequence in a character set, unless a byte order mark tells another one;
the mark is no part of the text. -/
def decodeMarked (charset : Charset) : Bytes → Text
  | 0xEF :: 0xBB :: 0xBF :: rest => utf8.decode rest
  | 0xFF :: 0xFE :: rest => utf16Little.decode rest
  | 0xFE :: 0xFF :: rest => utf16Big.decode rest
  | bs => charset.decode bs

/-- The text of a byte sequence whose character set is unknown: what is not ASCII becomes
U+FFFD. -/
def decodeUnknown (bs : Bytes) : Text :=
  bs.map (fun b => if b < 0x80 then Char.ofNat b.toNat else '\uFFFD')

/-- The text of a byte sequence, each byte standing for the code point of its value. -/
def latin (bs : Bytes) : Text := bs.map (fun b => Char.ofNat b.toNat)

end Charset
end Mailroom
