import Mailroom.Header.Field
import Mailroom.Mime.Parameter

/-!
# The parts of a message

A message, and every part of it, is a header block and a body.  The body of a part of type
`multipart` is split at the lines that begin with its boundary.

* `Part.read` reads a message into a tree of parts, and `Part.leaves` lists the parts that are
  not split, in the order of the message.
* `Part.content` undoes the transfer coding of a body, and `Part.text` its character set as well.
-/

namespace Mailroom

/-! ## Splitting a body -/

/-- Cuts before and after the first occurrence of `key` at the beginning of a line; at least one
byte must follow it.  `fresh` tells whether the bytes begin a line. -/
def cutAtLine (key : Bytes) (fresh : Bool) : Bytes → Option (Bytes × Bytes)
  | [] => none
  | b :: bs =>
    if fresh && key.isPrefixOf (b :: bs) && decide (key.length < bs.length + 1) then
      some ([], (b :: bs).drop key.length)
    else (cutAtLine key (b == 10) bs).map (fun p => (b :: p.1, p.2))

/-- What follows the first line feed, if anything does. -/
def afterLine : Bytes → Option Bytes
  | [] => none
  | b :: bs => if b == 10 && !bs.isEmpty then some bs else afterLine bs

theorem length_cutAtLine_le {key : Bytes} {fresh : Bool} {bs p q : Bytes}
    (h : cutAtLine key fresh bs = some (p, q)) : p.length + q.length ≤ bs.length := by
  induction bs generalizing fresh p q with
  | nil => simp [cutAtLine] at h
  | cons b bs ih =>
    simp only [cutAtLine] at h
    split at h
    · simp only [Option.some.injEq, Prod.mk.injEq] at h
      rw [← h.1, ← h.2, List.length_drop]
      simp
    · obtain ⟨r, hr, heq⟩ := Option.map_eq_some_iff.1 h
      have := ih (p := r.1) (q := r.2) hr
      simp only [Prod.mk.injEq] at heq
      rw [← heq.1, ← heq.2, List.length_cons, List.length_cons]
      omega

theorem length_cutAtLine_lt {key : Bytes} {fresh : Bool} {bs p q : Bytes} (hk : key ≠ [])
    (h : cutAtLine key fresh bs = some (p, q)) : q.length < bs.length := by
  induction bs generalizing fresh p q with
  | nil => simp [cutAtLine] at h
  | cons b bs ih =>
    have hk' := List.length_pos_iff.2 hk
    simp only [cutAtLine] at h
    split at h
    · simp only [Option.some.injEq, Prod.mk.injEq] at h
      rw [← h.2, List.length_drop, List.length_cons]
      omega
    · obtain ⟨r, hr, heq⟩ := Option.map_eq_some_iff.1 h
      have := ih (p := r.1) (q := r.2) hr
      simp only [Prod.mk.injEq] at heq
      rw [← heq.2, List.length_cons]
      omega

theorem length_afterLine_lt {bs r : Bytes} (h : afterLine bs = some r) :
    r.length < bs.length := by
  induction bs with
  | nil => simp [afterLine] at h
  | cons b bs ih =>
    simp only [afterLine] at h
    split at h
    · simp only [Option.some.injEq] at h
      simp [h]
    · have := ih h
      simp only [List.length_cons]
      omega

/-- Whether no part follows a boundary: it is the last one, or the data ends there. -/
def isLastBoundary : Bytes → Bool
  | a :: b :: _ => a == 45 && b == 45
  | _ => true

/-- The parts that follow a boundary line with `after` on it and after it. -/
def splitParts (key : Bytes) (after : Bytes) : List Bytes :=
  match h : afterLine after with
  | none => []
  | some rest =>
    match h' : cutAtLine key true rest with
    | none => [rest]
    | some (part, next) =>
      have := length_afterLine_lt h
      have := length_cutAtLine_le h'
      part :: if isLastBoundary next then [] else splitParts key next
termination_by after.length

theorem length_mem_splitParts {key after p : Bytes} (h : p ∈ splitParts key after) :
    p.length < after.length := by
  fun_induction splitParts key after with
  | case1 => simp at h
  | case2 after rest hl _ =>
    have := length_afterLine_lt hl
    simp only [List.mem_singleton] at h
    subst h
    exact this
  | case3 after rest hl part next hc h1 h2 ih =>
    rcases List.mem_cons.1 h with rfl | h
    · omega
    · split at h
      · simp at h
      · have := ih h
        omega

/-! ## Content types -/

/-- What a part holds. -/
structure ContentType where
  /-- The type, in small letters. -/
  mimeType : Text
  /-- The label of the character set. -/
  charset : Text
  /-- All parameters. -/
  params : Dictionary Text

namespace ContentType

/-- Reads the value of a `Content-Type` field. -/
def parse (t : Text) : ContentType :=
  let p := Parameters.parse t
  ⟨Text.lower p.value, (p.params.find? "charset").getD "us-ascii", p.params⟩

/-- The type of a part without the field. -/
def default (inDigest : Bool) : ContentType :=
  ⟨if inDigest then "message/rfc822" else "text/plain", "us-ascii", .empty⟩

/-- The line that begins a part, if the type is split into parts at all. -/
def boundaryLine? (c : ContentType) : Option Bytes :=
  if ("multipart/" : Text).isPrefixOf c.mimeType then
    (c.params.find? "boundary").map (fun b => 45 :: 45 :: Utf8.encode b)
  else none

theorem boundaryLine_ne_nil {c : ContentType} {key : Bytes} (h : c.boundaryLine? = some key) :
    key ≠ [] := by
  unfold boundaryLine? at h
  split at h
  · obtain ⟨b, _, rfl⟩ := Option.map_eq_some_iff.1 h
    simp
  · simp at h

end ContentType

/-! ## Parts -/

/-- A message or a part of one. -/
inductive Part where
  /-- A part with its fields, its type, the body before its first inner part, and those parts. -/
  | mk (fields : List Field) (type : ContentType) (body : Bytes) (parts : List Part)

namespace Part

/-- The fields of the header block. -/
def fields : Part → List Field
  | mk fields _ _ _ => fields

/-- The type. -/
def type : Part → ContentType
  | mk _ type _ _ => type

/-- The body as it is written. -/
def body : Part → Bytes
  | mk _ _ body _ => body

/-- The inner parts. -/
def parts : Part → List Part
  | mk _ _ _ parts => parts

/-- The value of the first field of a name. -/
def field? (p : Part) (name : Text) : Option Text := (Header.mk p.fields 0).first? name

theorem length_body_le {raw : Bytes} {r : List RawField × Bytes} (h : readFields raw = .ok r) :
    r.2.length ≤ raw.length := by
  fun_induction readFields raw generalizing r with
  | case1 => simp only [Except.ok.injEq] at h; simp [← h]
  | case2 => simp only [Except.ok.injEq] at h; simp [← h]
  | case3 => simp only [Except.ok.injEq] at h; simp [← h]; omega
  | case4 => simp at h
  | case5 => simp at h
  | case6 b bs _ _ _ hlt r' _ ih =>
    simp only [Except.ok.injEq] at h
    have := ih (r := r') (by assumption)
    rw [← h]
    simp only
    omega
  | case7 => simp at h

/-- Reads a message or a part of one; `inDigest` tells whether it stands in a digest. -/
def readWithin (inDigest : Bool) (raw : Bytes) : Except HeaderFault Part :=
  match hr : readFields raw with
  | .error e => .error e
  | .ok (rawFields, body) =>
    let fields := rawFields.map RawField.decode
    let type := match (Header.mk fields 0).first? "Content-Type" with
      | some value => ContentType.parse value
      | none => ContentType.default inDigest
    match hk : type.boundaryLine? with
    | none => .ok (mk fields type body [])
    | some key =>
      match hc : cutAtLine key true body with
      | none => .ok (mk fields type body [])
      | some (preamble, after) => do
        let parts ← (splitParts key after).attach.mapM fun p =>
          have := length_mem_splitParts p.property
          have := length_cutAtLine_lt (ContentType.boundaryLine_ne_nil hk) hc
          have : body.length ≤ raw.length := length_body_le hr
          readWithin (type.mimeType == "multipart/digest".toList) p.val
        return mk fields type preamble parts
termination_by raw.length

/-- Reads a message. -/
def read (raw : Bytes) : Except HeaderFault Part := readWithin false raw

mutual

/-- The parts that are not split, in the order of the message. -/
def leaves : Part → List Part
  | mk fields type body [] => [mk fields type body []]
  | mk _ _ _ (p :: ps) => leaves p ++ leavesOfAll ps

/-- The parts that are not split among the parts of a list. -/
def leavesOfAll : List Part → List Part
  | [] => []
  | p :: ps => leaves p ++ leavesOfAll ps

end

/-! ## Content -/

/-- The body without its transfer coding; `none` if it is no base64 though it claims to be. -/
def content? (p : Part) : Option Bytes :=
  let coding := ((p.field? "Content-Transfer-Encoding").map Text.lower).getD []
  if coding = "base64".toList then
    Base64.decode? (p.body.filter (fun b => !Base64.isAsciiBlank b))
  else if coding = "quoted-printable".toList then some (QuotedPrintable.decode p.body)
  else some p.body

/-- The text of the body. -/
def text? (p : Part) : Option Text :=
  p.content?.map fun bytes =>
    match Charset.ofLabel? p.type.charset with
    | some charset => charset.decodeMarked bytes
    | none => Charset.decodeUnknown bytes

/-- How a part is to be shown, and the parameters of that. -/
def disposition (p : Part) : Parameters :=
  match p.field? "Content-Disposition" with
  | some value =>
    let d := Parameters.parse value
    { d with value := Text.lower d.value }
  | none => ⟨"inline", .empty⟩

/-- Whether a part is to be shown with the message. -/
def isInline (p : Part) : Bool := p.disposition.value == "inline".toList

/-- Whether a part is an attachment. -/
def isAttachment (p : Part) : Bool := p.disposition.value == "attachment".toList

end Part

end Mailroom
