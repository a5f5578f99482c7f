import StructuralModel.Span
import StructuralModel.Text.Split

/-!
# Statements

A statement is what is left of a part of the source text when its layout (blanks, line breaks and
comments) is taken out. Its characters are thus not one stretch of the source, and each of them
keeps the byte offset it had there. With these offsets any range of the statement's bytes has a
span in the source (`Statement.spanOf`): from the origin of its first byte to the origin of its
last one. The span of a range without bytes is empty and lies where the range starts, or at the
last byte if the range starts behind it.

A *piece* is a part of a statement that knows where it starts. Pieces are split as texts are, and
stay located; `Statement.spanOfPiece` is the span of a piece.
-/

namespace StructuralModel

/-- A part of the source text without its layout. -/
structure Statement where
  /-- The characters, each with the byte offset of its place in the source. -/
  chars : List (Char × Nat) := []
  deriving DecidableEq, Repr

/-- A part of a statement. -/
structure Piece where
  /-- The byte of the statement at which the part starts. -/
  start : Nat
  /-- Its characters. -/
  chars : List Char
  deriving DecidableEq, Repr

namespace Statement

/-- The characters of a text with their byte offsets, if the text starts at byte `start`. -/
def locate (start : Nat) : List Char → List (Char × Nat)
  | [] => []
  | c :: cs => (c, start) :: locate (start + c.utf8Size) cs

/-- A statement that stands in the source as it is, from the first byte on. -/
def ofText (text : String) : Statement :=
  ⟨locate 0 text.toList⟩

/-- The characters of a statement. -/
def text (s : Statement) : List Char :=
  s.chars.map Prod.fst

/-- The text of a statement. -/
def render (s : Statement) : String :=
  String.ofList s.text

/-- The places in the source of the bytes of a statement. -/
def origins (s : Statement) : List Nat :=
  s.chars.flatMap fun (c, origin) => List.range' origin c.utf8Size

/-- The span in the source of the bytes of a statement from `start` up to, and without, `stop`.
    Of the range only what lies within the statement counts. -/
def spanOf (s : Statement) (start stop : Nat) : Span :=
  let origins := s.origins
  let stop := min stop origins.length
  let start := min start stop
  -- Behind the last byte there is no origin, and the last byte stands in.
  let first := (origins[start]?.or origins.getLast?).getD 0
  match origins[stop - 1]? with
  | some last => if start < stop then .ofBounds first (last + 1) else .empty first
  | none => .empty first

/-- The span in the source of a whole statement. -/
def span (s : Statement) : Span :=
  s.spanOf 0 (Text.byteSize s.text)

/-- The whole of a statement as a piece of it. -/
def whole (s : Statement) : Piece :=
  ⟨0, s.text⟩

/-- The span in the source of a piece. -/
def spanOfPiece (s : Statement) (p : Piece) : Span :=
  s.spanOf p.start (p.start + Text.byteSize p.chars)

end Statement

namespace Piece

/-- The text of a piece. -/
def render (p : Piece) : String :=
  String.ofList p.chars

/-- Whether a piece has no characters. -/
def isEmpty (p : Piece) : Bool :=
  p.chars.isEmpty

/-- Splits a piece at the first place outside of braces where `pattern` occurs. -/
def splitOnce (pattern : List Char) (p : Piece) : Option (Piece × Piece) :=
  (Text.splitOnce pattern p.chars).map fun (before, after) =>
    (⟨p.start, before⟩, ⟨p.start + Text.byteSize before + Text.byteSize pattern, after⟩)

/-- Texts as pieces that stand one behind the other, with `gap` bytes between them. -/
def chain (gap start : Nat) : List (List Char) → List Piece
  | [] => []
  | cs :: rest => ⟨start, cs⟩ :: chain gap (start + Text.byteSize cs + gap) rest

/-- Splits a piece at all places outside of braces where `delimiter` occurs. -/
def splitAll (delimiter : List Char) (p : Piece) : List Piece :=
  chain (Text.byteSize delimiter) p.start (Text.splitAll delimiter p.chars)

end Piece

end StructuralModel
