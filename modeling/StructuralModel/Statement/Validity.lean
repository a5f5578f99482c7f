import StructuralModel.Diagnostic.Finding
import StructuralModel.Statement.Form
import StructuralModel.Text.Letter

/-!
# Valid statements

A statement is *valid* if it starts with a letter, `_`, `!` or `{`, and has outside of braces only
letters, digits and the characters of operators and numerals. What else it may have depends on its
form: a bound has its sign anywhere, a declaration its mark at the start, and in a definition only
the name is looked at. A block may have anything.

`Statement.invalid?` is the first thing that makes a statement invalid. Validity is decided before
a statement is taken apart, so a valid statement may still lack a name or a value.
-/

namespace StructuralModel

/-- The part of a statement that is looked at, and the character it may have beside the ordinary
    ones. -/
def Form.checked (p : Piece) : Option Form → Piece × Option Char
  | some (definition name _) => (name, none)
  | some (declaration name) => (name, none)
  | some (bound side _ _) => (p, some side.symbol)
  | _ => (p, none)

namespace Statement

/-- Whether a statement may start with a character. -/
def isStart (c : Char) : Bool :=
  Text.isLetter c || c == '_' || c == '!' || c == '{'

/-- Whether a character may stand outside of braces in a statement of any form. -/
def isOrdinary (c : Char) : Bool :=
  Text.isLetter c || Text.isNumber c || c == '_' || c == '=' || c == '~' || c == '*' || c == '+' ||
    c == '-' || c == '.'

/-- The first character outside of braces that is neither ordinary nor the `extra` one, and its
    byte offset, in a text that starts at byte `start` and brace depth `depth`. -/
def firstUnordinary? (extra : Option Char) (start depth : Nat) : List Char → Option (Nat × Char)
  | [] => none
  | c :: cs =>
    if c = '{' ∨ c = '}' ∨ depth > 0 ∨ isOrdinary c ∨ extra = some c then
      firstUnordinary? extra (start + c.utf8Size) (Text.nest depth c) cs
    else some (start, c)

/-- The span in the source of the character `c` that starts at byte `offset` of a statement. -/
def spanOfChar (s : Statement) (offset : Nat) (c : Char) : Span :=
  s.spanOf offset (offset + c.utf8Size)

/-- What makes a statement invalid, if anything does. -/
def invalid? (s : Statement) : Option Finding :=
  match s.text with
  | [] => none
  | c :: _ =>
    if !isStart c then some (.invalidStart s.render (s.spanOfChar 0 c))
    -- A block may hold anything.
    else if s.form? = some .block then none
    else
      let (part, extra) := Form.checked s.whole s.form?
      (firstUnordinary? extra part.start 0 part.chars).map fun (offset, c) =>
        .invalidCharacter c (s.spanOfChar offset c) s.span

/-- Checks that all statements are valid, and gives what is wrong with each of the others. -/
def validate (statements : List Statement) : Except (List Finding) Unit :=
  match statements.filterMap invalid? with
  | [] => .ok ()
  | findings => .error findings

end Statement

end StructuralModel
