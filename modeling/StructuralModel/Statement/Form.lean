import StructuralModel.Relation
import StructuralModel.Statement

/-!
# Forms of statements

A statement has one of five forms:

* a *block* `{...}`, which is kept verbatim;
* a *relation* `lhs op terms` with one of the operators `=~`, `~~` and `~`;
* a *definition* `name := expression`;
* a *bound* `label > value` or `label < value`;
* a *declaration* `!name`.

The form is decided by what occurs in the statement outside of braces, in this order: a relation
wins over a definition, a definition over a bound, a lower bound over an upper one, and any of them
over a declaration (`Form.ofPiece?`). A text in which nothing of this occurs has no form.
-/

namespace StructuralModel

/-- The form of a statement, with its parts. -/
inductive Form where
  /-- A block, kept verbatim. -/
  | block
  /-- A relation: what stands before and behind its operator. -/
  | relation (op : Operator) (lhs rhs : Piece)
  /-- A definition: the name and how it is computed. -/
  | definition (name expression : Piece)
  /-- A bound: the label and the value. -/
  | bound (side : Bound) (target value : Piece)
  /-- A declaration: the name. -/
  | declaration (name : Piece)
  deriving DecidableEq, Repr

/-- The form of a statement, without its parts. -/
inductive Form.Kind where
  /-- A block. -/
  | block
  /-- A relation with an operator. -/
  | relation (op : Operator)
  /-- A definition. -/
  | definition
  /-- A bound on a side. -/
  | bound (side : Bound)
  /-- A declaration. -/
  | declaration
  deriving DecidableEq, Repr

/-- The kind of a statement in words. -/
def Form.Kind.render : Form.Kind → String
  | block => "opaque block"
  | relation op => "relation `" ++ op.symbol ++ "`"
  | definition => "definition"
  | bound side => "bound `" ++ side.symbol.toString ++ "`"
  | declaration => "declaration"

namespace Form

/-- A form without its parts. -/
def kind : Form → Kind
  | block => .block
  | relation op _ _ => .relation op
  | definition _ _ => .definition
  | bound side _ _ => .bound side
  | declaration _ => .declaration

/-- The split of a text at its operator: at the first one, in the order of the operators, that
    occurs in it. -/
def atOperator? (p : Piece) : Option Form :=
  Operator.all.findSome? fun op =>
    (p.splitOnce op.symbol.toList).map fun (left, right) =>
      match op with
      | .define => definition left right
      | op => relation op left right

/-- The split of a text at the sign of a bound. -/
def atBound? (p : Piece) : Option Form :=
  [Bound.lower, Bound.upper].findSome? fun side =>
    (p.splitOnce [side.symbol]).map fun (target, value) => bound side target value

/-- A text that starts with the mark of a declaration. -/
def atMark? (p : Piece) : Option Form :=
  match p.chars with
  | '!' :: name => some (declaration ⟨p.start + 1, name⟩)
  | _ => none

/-- The form of a text. -/
def ofPiece? (p : Piece) : Option Form :=
  if Text.isBlock p.chars then some block
  else (atOperator? p).or ((atBound? p).or (atMark? p))

/-- The kind of statement that a text is. -/
def Kind.ofText? (cs : List Char) : Option Kind :=
  (ofPiece? ⟨0, cs⟩).map kind

end Form

/-- The form of a statement. -/
def Statement.form? (s : Statement) : Option Form :=
  Form.ofPiece? s.whole

end StructuralModel
