import StructuralModel.Text.Basic

/-!
# Headings

The source of a model may start with a heading, `=== name ===`, in a line of its own. Only blank
lines and comments may stand before it. The name is what the line holds beside spaces, tabs and
equals signs; it may be empty, and then the model has no name. What stands behind the heading is
the body of the source. A source without heading is all body.
-/

namespace StructuralModel

/-- A source text, taken apart. -/
structure Heading where
  /-- The name of the model. -/
  name : Option String
  /-- The text of the model itself. -/
  body : List Char
  /-- The byte of the source at which the body starts. -/
  offset : Nat
  deriving DecidableEq, Repr

namespace Heading

/-- The name in a heading. -/
def nameOf? (line : List Char) : Option String :=
  match line.filter fun c => c != ' ' && c != '\t' && c != '=' with
  | [] => none
  | name => some (String.ofList name)

/-- Whether a line, without the blanks around it, is empty or a comment. -/
def isSkipped (line : List Char) : Bool :=
  line.isEmpty || line.head? == some '#'

/-- Whether a line, without the blanks around it, is a heading. -/
def isHeading (line : List Char) : Bool :=
  ['=', '=', '='].isPrefixOf line

/-- Looks for the heading in the lines of a source, of which the first starts at byte `offset`. -/
def find? (offset : Nat) : List (List Char) → Option Heading
  | [] => none
  | line :: rest =>
    let content := Text.trim line
    let next := offset + Text.byteSize line
    if isSkipped content then find? next rest
    else if isHeading content then
      some { name := nameOf? content, body := rest.flatten, offset := next }
    else none

/-- Takes the heading off a source text. -/
def ofSource (source : List Char) : Heading :=
  (find? 0 (Text.lines source)).getD { name := none, body := source, offset := 0 }

end Heading

end StructuralModel
