import StructuralModel.Algebra
import StructuralModel.Diagnostic.Finding
import StructuralModel.Table
import StructuralModel.Variables

/-!
# Models

A model is what its text says: a table of relations, an algebra of declared and defined parameters,
blocks of text that are passed on verbatim, perhaps a name, and the remarks that were made on it.
A *compiled* model has a table that is completed and identified; its variables are those that the
text named.

A model has a written form again (`Model.render`), which is a model text.
-/

namespace StructuralModel

/-- A model. -/
structure Model where
  /-- The name in the heading of the text. -/
  name : Option String := none
  /-- The relations. -/
  table : Table := {}
  /-- The declared and the defined parameters. -/
  algebra : Algebra := {}
  /-- The texts of the blocks. -/
  blocks : List String := []
  /-- What was remarked, none of it a fault. -/
  remarks : List Finding := []
  deriving DecidableEq, Repr

/-- A model with a completed and identified table. -/
structure CompiledModel extends Model where
  /-- The variables of the model by class, before its table was completed. -/
  classes : Variables := {}
  deriving DecidableEq, Repr

/-- The model as a model text: the heading, the table, the algebra and the blocks. -/
def Model.render (m : Model) : String :=
  (match m.name with
    | some name => "=== " ++ name ++ " ===\n"
    | none => "") ++
  m.table.render ++ m.algebra.render ++ String.join (m.blocks.map fun block => block ++ "\n")

end StructuralModel
