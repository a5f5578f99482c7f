import StructuralModel.Heading
import StructuralModel.Model
import StructuralModel.Statement.Layout
import StructuralModel.Statement.Term
import StructuralModel.Statement.Validity

/-!
# Reading a model

A model text is read in steps, each of which needs the ones before it to succeed: the heading is
taken off, the layout is taken out of the body, the statements are checked for their characters,
and the model is built. So the faults of a text are all of one step (`Model.parse`).

A model is built from the forms of its statements, and statements of different kinds may stand in
any order: a bound or a definition may come before the relation with its label. Every form has a
part of the model that it adds to or changes, and a condition under which it may:

* a relation adds a row for each of its terms, if its left side is a name and all terms are well
  formed;
* a bound bounds the rows with its label, if it has a value and some relation has the label;
* a declaration declares a name, and a definition defines one and marks the rows with that label as
  computed, if the name is a name and the definition has an expression;
* a block is kept as it is.

All conditions are checked first, on all statements, and what was found is collected in groups: the
statements without form, the relations, the bounds, the declarations, the definitions. With a fault
there is no model (`Model.build`).
-/

namespace StructuralModel

/-- The characters, beside the space, that the left side of a relation and a declared name must not
    hold. -/
def nameMarks : String := "!+*=~:"

/-- The characters, beside the space, that a defined name must not hold. -/
def definedNameMarks : String := "+*=~:"

namespace Statement

/-- What is wrong with a name that must hold neither a space nor one of the `marks`. -/
def nameFault? (s : Statement) (marks : String) (name : Piece) : Option Finding :=
  if name.isEmpty then some (.noName (s.spanOfPiece name) s.span)
  else
    (name.chars.find? fun c => c == ' ' || marks.toList.contains c).map fun c =>
      .invalidName name.render c marks (s.spanOfPiece name)

/-- What is wrong with a statement that has no form. -/
def formFault? (s : Statement) : Option Finding :=
  match s.form? with
  | some _ => none
  | none => some (.noOperator s.render s.span)

end Statement

namespace Form

/-! ## What may be wrong with a form -/

/-- The findings on a relation and the rows that it adds. -/
def readRelation (s : Statement) : Form → List Finding × List Relation
  | relation op lhs rhs =>
    match s.nameFault? nameMarks lhs with
    -- The terms are not looked at if there is no name on the left.
    | some fault => ([fault], [])
    | none =>
      let (findings, terms) := Term.readAll s rhs
      (findings, (terms.getD []).map (Term.relation s.span lhs op))
  | _ => ([], [])

/-- What is wrong with a bound, in a model with the rows of `t`. -/
def boundFault? (t : Table) (s : Statement) : Form → Option Finding
  | bound side target value =>
    if value.isEmpty then some (.emptyBound target.render side s.span)
    else if t.hasLabel target.render then none
    else some (.unknownLabel target.render (s.spanOfPiece target) s.span)
  | _ => none

/-- What is wrong with a declaration. -/
def declarationFault? (s : Statement) : Form → Option Finding
  | declaration name => s.nameFault? nameMarks name
  | _ => none

/-- What is wrong with a definition. -/
def definitionFault? (s : Statement) : Form → Option Finding
  | definition name expression =>
    (s.nameFault? definedNameMarks name).or
      (if expression.isEmpty then some (.emptyDefinition name.render s.span) else none)
  | _ => none

/-! ## What a form does -/

/-- Sets a bound. -/
def applyBound (t : Table) : Form → Table
  | bound side target value => t.setBound target.render side value.render
  | _ => t

/-- Marks the rows that a definition computes. -/
def applyDefinition (t : Table) : Form → Table
  | definition name _ => t.markComputed name.render
  | _ => t

/-- Adds a declaration. -/
def declare (a : Algebra) : Form → Algebra
  | declaration name => a.declare name.render
  | _ => a

/-- Adds a definition. -/
def define (a : Algebra) : Form → Algebra
  | definition name expression => a.define ⟨name.render, expression.render⟩
  | _ => a

/-- Keeps a block. -/
def verbatim? (s : Statement) : Form → Option String
  | block => some s.render
  | _ => none

end Form

namespace Model

/-- The statements that have a form, with their forms. -/
def formed (statements : List Statement) : List (Statement × Form) :=
  statements.filterMap fun s => s.form?.map (s, ·)

/-- The rows that the relations of a model add. -/
def relationTable (statements : List Statement) : Table :=
  ⟨(formed statements).flatMap fun (s, form) => (form.readRelation s).2⟩

/-- All that is found on the statements of a model, by groups. -/
def findings (statements : List Statement) : List Finding :=
  let formed := formed statements
  let table := relationTable statements
  statements.filterMap Statement.formFault? ++
    (formed.flatMap fun (s, form) => (form.readRelation s).1) ++
    (formed.filterMap fun (s, form) => form.boundFault? table s) ++
    (formed.filterMap fun (s, form) => form.declarationFault? s) ++
    formed.filterMap fun (s, form) => form.definitionFault? s

/-- The model that well-formed statements describe. -/
def ofStatements (statements : List Statement) : Model :=
  let forms := (formed statements).map Prod.snd
  { table := forms.foldl Form.applyDefinition
      (forms.foldl Form.applyBound (relationTable statements))
    algebra := forms.foldl Form.define (forms.foldl Form.declare {})
    blocks := (formed statements).filterMap fun (s, form) => form.verbatim? s
    remarks := findings statements }

/-- Builds a model from its statements; with a fault, all that was found. -/
def build (statements : List Statement) : Except (List Finding) Model :=
  if (findings statements).any Finding.isFault then .error (findings statements)
  else .ok (ofStatements statements)

/-- Reads a model text; with faults, all that was found in the step that failed. -/
def parse (source : String) : Except (List Finding) Model := do
  let heading := Heading.ofSource source.toList
  let statements ← (Statement.ofSource heading.offset heading.body).mapError ([·])
  if statements.isEmpty then
    throw [.noStatements (.ofBounds heading.offset (Text.byteSize source.toList))]
  Statement.validate statements
  let model ← build statements
  return { model with name := heading.name }

end Model

end StructuralModel
