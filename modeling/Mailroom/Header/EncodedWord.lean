import Mailroom.Coding.Base64
import Mailroom.Coding.Charset
import Mailroom.Coding.QuotedPrintable

/-!
# Encoded words

A field value may hold words such as `=?utf-8?q?Caf=C3=A9?=`, which name a character set and a
coding.  `decodeFieldText` unfolds a value and puts the text in place of every encoded word that
can be read; blanks and line joins between two of them do not count.

* A word stands at the edge of a line, or next to a blank, a quote, a parenthesis, an angle
  bracket or a comma.
* The character next to a word is looked up by counting the bytes of the line up to it, as if
  every character had one byte.  Where that leads past the end of the line, the word stands at an
  edge.
-/

namespace Mailroom
namespace EncodedWord

/-- A piece of a field value. -/
inductive Piece where
  /-- Text as it stands. -/
  | plain (t : Text)
  /-- Blanks, or the join of two lines. -/
  | gap (t : Text)
  /-- The text of an encoded word. -/
  | word (t : Text)
  deriving DecidableEq, Repr

/-- Whether an encoded word may stand next to a character. -/
def isEdge (c : Char) : Bool :=
  isBlank c || c == '"' || c == '(' || c == ')' || c == '<' || c == '>' || c == ','

/-- Whether a word may stand next to what is at a place of the line. -/
def edgeAt (whole : Text) (place : Nat) : Bool := (whole[place]?.map isEdge).getD true

/-- The number of bytes of a text. -/
def width (t : Text) : Nat := (Utf8.encode t).length

/-- Reads the inside of an encoded word: character set, coding and letters. -/
def decode? (inside : Text) : Option Text := do
  let (label, rest) ← Text.cut '?' inside
  let (coding, letters) ← Text.cut '?' rest
  let bytes ←
    if coding = ['B'] ∨ coding = ['b'] then Base64.decode? (Utf8.encode letters)
    else if coding = ['Q'] ∨ coding = ['q'] then
      let spaced := Text.replace '_' ' ' letters
      let trimmed := Text.trimRight spaced
      some (QuotedPrintable.decode (Utf8.encode trimmed) ++
        Utf8.encode (spaced.drop trimmed.length))
    else none
  let charset ← Charset.ofLabel? label
  return charset.decode bytes

/-- Cuts at the first `=?`, which belongs to neither side. -/
def cutOpening : Text → Option (Text × Text)
  | [] => none
  | '=' :: '?' :: rest => some ([], rest)
  | c :: rest => (cutOpening rest).map (fun p => (c :: p.1, p.2))

/-- Cuts at the first `?=` with an edge after it.  `place` counts the bytes of the line before
the text. -/
def cutClosing (line : Text) (place : Nat) : Text → Option (Text × Text)
  | [] => none
  | '?' :: '=' :: rest =>
    if edgeAt line (place + 2) then some ([], rest)
    else (cutClosing line (place + 2) rest).map (fun p => ('?' :: '=' :: p.1, p.2))
  | c :: rest => (cutClosing line (place + c.utf8Size) rest).map (fun p => (c :: p.1, p.2))

theorem length_cutOpening {t a b : Text} (h : cutOpening t = some (a, b)) :
    b.length < t.length := by
  fun_induction cutOpening t generalizing a b with
  | case1 => simp at h
  | case2 rest =>
    simp only [Option.some.injEq, Prod.mk.injEq] at h
    rw [← h.2, List.length_cons, List.length_cons]
    omega
  | case3 c rest _ ih =>
    obtain ⟨p, hp, heq⟩ := Option.map_eq_some_iff.1 h
    have := ih (a := p.1) (b := p.2) hp
    simp only [Prod.mk.injEq] at heq
    rw [← heq.2, List.length_cons]
    omega

theorem length_cutClosing {line t a b : Text} {place : Nat}
    (h : cutClosing line place t = some (a, b)) : b.length < t.length := by
  fun_induction cutClosing line place t generalizing a b with
  | case1 => simp at h
  | case2 place rest _ =>
    simp only [Option.some.injEq, Prod.mk.injEq] at h
    rw [← h.2, List.length_cons, List.length_cons]
    omega
  | case3 place rest _ ih =>
    obtain ⟨p, hp, heq⟩ := Option.map_eq_some_iff.1 h
    have := ih (a := p.1) (b := p.2) hp
    simp only [Prod.mk.injEq] at heq
    rw [← heq.2, List.length_cons, List.length_cons]
    omega
  | case4 place c rest _ ih =>
    obtain ⟨p, hp, heq⟩ := Option.map_eq_some_iff.1 h
    have := ih (a := p.1) (b := p.2) hp
    simp only [Prod.mk.injEq] at heq
    rw [← heq.2, List.length_cons]
    omega

/-- Text without encoded words. -/
def Piece.between (t : Text) : Piece := if Text.allBlank t then .gap t else .plain t

/-- The pieces of the rest of a line.  `place` counts the bytes of the line before it. -/
def piecesFrom (line : Text) (place : Nat) (rest : Text) : List Piece :=
  match h : cutOpening rest with
  | none => [Piece.between rest]
  | some (before, after) =>
    have := length_cutOpening h
    let opened := place + width before + 2
    if opened ≤ 2 || edgeAt line (opened - 3) then
      Piece.between before ::
        match h' : cutClosing line opened after with
        | none => [.plain ("=?" ++ after)]
        | some (inside, next) =>
          have := length_cutClosing h'
          (match decode? inside with
            | some w => Piece.word w
            | none => Piece.plain ("=?" ++ inside ++ "?=")) ::
          piecesFrom line (opened + width inside + 2) next
    else .plain (before ++ "=?") :: piecesFrom line opened after
termination_by rest.length

/-- The pieces of a field value, its lines joined by single blanks. -/
def pieces (value : Text) : List Piece :=
  List.intercalate [.gap [' ']]
    ((Text.lines value).map fun l => let l := Text.trimLeft l; piecesFrom l 0 l)

/-- The text of some pieces; `held` are the gaps since an encoded word, if only gaps follow it. -/
def assemble (held : Option Text) : List Piece → Text
  | [] => held.getD []
  | .plain t :: ps => held.getD [] ++ t ++ assemble none ps
  | .gap t :: ps =>
    match held with
    | some g => assemble (some (g ++ t)) ps
    | none => t ++ assemble none ps
  | .word t :: ps => t ++ assemble (some []) ps

end EncodedWord

/-- The text of a field value: unfolded, and encoded words read. -/
def decodeFieldText (value : Text) : Text := EncodedWord.assemble none (EncodedWord.pieces value)

end Mailroom
