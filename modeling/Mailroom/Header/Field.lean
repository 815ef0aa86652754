import Mailroom.Header.Block
import Mailroom.Header.EncodedWord

/-!
# Fields as text

`Header.read` reads the header block of a message into fields of text and tells where the body
begins.  Names compare without regard to the case of ASCII letters.
-/

namespace Mailroom

/-- A header field. -/
structure Field where
  /-- The name. -/
  name : Text
  /-- The value, on one line and with encoded words read. -/
  value : Text
  deriving DecidableEq, Repr

/-- The value of a field as it is written: UTF-8, or one byte per character if it is not. -/
def RawField.text (f : RawField) : Text := (Utf8.decode? f.value).getD (Charset.latin f.value)

/-- The text of a field. -/
def RawField.decode (f : RawField) : Field := ⟨Charset.latin f.key, decodeFieldText f.text⟩

/-- The header block of a message. -/
structure Header where
  /-- The fields in order. -/
  fields : List Field
  /-- How many bytes precede the body. -/
  bodyOffset : Nat
  deriving DecidableEq, Repr

namespace Header

/-- Reads the header block of a message. -/
def read (raw : Bytes) : Except HeaderFault Header :=
  match readFields raw with
  | .ok (fields, body) => .ok ⟨fields.map RawField.decode, raw.length - body.length⟩
  | .error e => .error e

/-- The values of all fields of a name. -/
def values (h : Header) (name : Text) : List Text :=
  (h.fields.filter (fun f => Text.sameName f.name name)).map Field.value

/-- The value of the first field of a name. -/
def first? (h : Header) (name : Text) : Option Text := (h.values name).head?

end Header

end Mailroom
