import StructuralModel.Diagnostic.Finding
import StructuralModel.Statement.Form
import StructuralModel.Text.Basic

/-!
# Terms

The right side of a relation is a sum of terms, and each term stands for a relation of its own:
`f =~ x + a*y` is `f =~ x` and `f =~ a*y`. A term is a variable, or a modifier and a variable with a
`*` between them. The modifier fixes the parameter if it is a numeral and names it otherwise.

`Term.read` reads one term, `Term.readAll` a sum of them.
-/

namespace StructuralModel

/-- One summand of the right side of a relation. -/
structure Term where
  /-- What stands before the `*`. -/
  modifier : Option Piece
  /-- The name of the variable. -/
  name : Piece
  deriving DecidableEq, Repr

/-- A text as a modifier: a value if it is a numeral, a label otherwise. -/
def Modifier.ofPiece (p : Piece) : Modifier :=
  if Text.isNumeral p.chars then fixed p.render else label p.render

namespace Term

/-- Reads the term `term` of the right side `rhs` of a statement. -/
def read (s : Statement) (rhs term : Piece) : Except Finding Term :=
  let parts := term.splitAll ['*']
  if parts.any Piece.isEmpty then
    .error (.emptyTerm s.render (s.spanOfPiece (if term.isEmpty then rhs else term)))
  else
    match parts with
    | [name] => .ok { modifier := none, name }
    | [modifier, name] => .ok { modifier := some modifier, name }
    | _ => .error (.ambiguousTerm term.render (s.spanOfPiece term))

/-- The remarks on a term: a modifier `NA` is nothing special, though it may be meant to be. -/
def remarks (s : Statement) (t : Term) : List Finding :=
  (t.modifier.filter fun p => p.chars == ['N', 'A']).toList.map fun p =>
    .missingValueLabel (s.spanOfPiece p)

/-- Reads the terms of a right side in turn, up to the first one that is malformed. Gives the
    remarks and the fault, and the terms if there is no fault. -/
def readEach (s : Statement) (rhs : Piece) : List Piece → List Finding × Option (List Term)
  | [] => ([], some [])
  | p :: rest =>
    match read s rhs p with
    | .error fault => ([fault], none)
    | .ok t =>
      let (findings, terms) := readEach s rhs rest
      (t.remarks s ++ findings, terms.map (t :: ·))

/-- Reads the right side of a relation. -/
def readAll (s : Statement) (rhs : Piece) : List Finding × Option (List Term) :=
  readEach s rhs (rhs.splitAll ['+'])

/-- The relation that a term stands for, in a statement at `span` with the left side `lhs`. -/
def relation (span : Span) (lhs : Piece) (op : Operator) (t : Term) : Relation where
  lhs := lhs.render
  op := op
  rhs := t.name.render
  modifier := t.modifier.map Modifier.ofPiece
  span := some span

end Term

end StructuralModel
