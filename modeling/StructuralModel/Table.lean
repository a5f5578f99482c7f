import StructuralModel.Relation

/-!
# Parameter tables

A parameter table is a list of relations in a fixed order: rows are appended, and later steps
change the modifier, the bounds or the free flag of a row, but never its place.

The table in the syntax of models (`Table.render`) is one relation a line, followed by the bounds
of every label. Rows with one label share one parameter, so the bounds are those of the first row
that has the label.
-/

namespace StructuralModel

/-- A list of relations in a fixed order. -/
structure Table where
  /-- The relations. -/
  rows : List Relation := []
  deriving DecidableEq, Repr

namespace Table

/-- Appends rows. -/
def append (t : Table) (rows : List Relation) : Table :=
  ⟨t.rows ++ rows⟩

/-- Whether some row has the label `name`. -/
def hasLabel (name : String) (t : Table) : Bool :=
  t.rows.any (Relation.hasLabel name)

/-- Changes every row with the label `name`. -/
def updateLabelled (name : String) (change : Relation → Relation) (t : Table) : Table :=
  ⟨t.rows.map fun r => if r.hasLabel name then change r else r⟩

/-- Bounds the parameter with the label `name`. -/
def setBound (name : String) (side : Bound) (value : String) (t : Table) : Table :=
  t.updateLabelled name (Relation.setBound side value)

/-- Marks the parameter with the label `name` as computed by a definition. -/
def markComputed (name : String) (t : Table) : Table :=
  t.updateLabelled name Relation.markComputed

/-- Gives a new modifier to the row at `index`, if there is one. -/
def setModifier (index : Nat) (modifier : Option Modifier) (t : Table) : Table :=
  ⟨t.rows.modify index fun r => { r with modifier }⟩

/-- Gives a new modifier to the first row with the property `p`. -/
def setFirstModifier (p : Relation → Bool) (modifier : Option Modifier) (t : Table) : Table :=
  ⟨go t.rows⟩
where
  /-- Goes along the rows up to the first one with the property. -/
  go : List Relation → List Relation
    | [] => []
    | r :: rows => if p r then { r with modifier } :: rows else r :: go rows

/-- The relations of variables. -/
def edges (t : Table) : List Relation :=
  t.rows.filter fun r => r.op.isEdge

/-- The variables, each once: those on the left sides in order of appearance, then those that are
    on right sides only. The mark of an intercept is no variable. -/
def variableNames (t : Table) : List String :=
  ((t.edges.map Relation.lhs ++ t.edges.map Relation.rhs).filter (· != intercept)).eraseDups

/-- Whether no row predicts `name`. -/
def isExogenous (t : Table) (name : String) : Bool :=
  !t.rows.any (Relation.predicts name)

/-! ## The written form -/

/-- The labels, each once, in order of appearance. -/
def labels (t : Table) : List String :=
  (t.rows.filterMap Relation.label?).eraseDups

/-- The bounds of a label: those of the first row that has it, one a line. -/
def renderBounds (t : Table) (label : String) : String :=
  match t.rows.find? (Relation.hasLabel label) with
  | none => ""
  | some r =>
    (match r.lower with
      | some value => label ++ " > " ++ value ++ "\n"
      | none => "") ++
    (match r.upper with
      | some value => label ++ " < " ++ value ++ "\n"
      | none => "")

/-- The table in the syntax of models: the relations, then the bounds of every label. -/
def render (t : Table) : String :=
  String.join (t.rows.map fun r => r.render ++ "\n") ++
    String.join (t.labels.map t.renderBounds)

end Table

end StructuralModel
