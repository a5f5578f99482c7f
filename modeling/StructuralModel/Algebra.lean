/-!
# Algebra

Next to its relations a model may declare parameters of its own, `!total`, and define parameters by
expressions, `total := a*b`. Expressions are kept as they are written. A declared parameter starts
free and stops being free when a definition of it is added.
-/

namespace StructuralModel

/-- A parameter that is declared without a relation. -/
structure Parameter where
  /-- Its name. -/
  name : String
  /-- False if a definition computes it. -/
  free : Bool := true
  deriving DecidableEq, Repr

/-- A parameter computed from others. -/
structure Definition where
  /-- The name of the parameter. -/
  name : String
  /-- How it is computed. -/
  expression : String
  deriving DecidableEq, Repr

/-- The definition in the syntax of models. -/
def Definition.render (d : Definition) : String :=
  d.name ++ " := " ++ d.expression

/-- The declared parameters and the definitions of a model. -/
structure Algebra where
  /-- The declared parameters, in order of declaration. -/
  parameters : List Parameter := []
  /-- The definitions, in order of appearance. -/
  definitions : List Definition := []
  deriving DecidableEq, Repr

namespace Algebra

/-- Whether nothing is declared or defined. -/
def isEmpty (a : Algebra) : Bool :=
  a.parameters.isEmpty && a.definitions.isEmpty

/-- Whether a declared parameter is free; nothing if it is not declared. -/
def isFree? (name : String) (a : Algebra) : Option Bool :=
  (a.parameters.find? (·.name == name)).map Parameter.free

/-- Declares a free parameter; a second declaration of one name changes nothing. -/
def declare (name : String) (a : Algebra) : Algebra :=
  if a.parameters.any (·.name == name) then a
  else { a with parameters := a.parameters ++ [{ name }] }

/-- Adds a definition; if its name is declared, that parameter is no longer free. -/
def define (d : Definition) (a : Algebra) : Algebra where
  parameters := a.parameters.map fun p => if p.name == d.name then { p with free := false } else p
  definitions := a.definitions ++ [d]

/-- The algebra in the syntax of models: the declarations, then the definitions, one a line. -/
def render (a : Algebra) : String :=
  String.join (a.parameters.map fun p => "!" ++ p.name ++ "\n") ++
    String.join (a.definitions.map fun d => d.render ++ "\n")

end Algebra

end StructuralModel
