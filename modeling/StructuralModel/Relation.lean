import StructuralModel.Span

/-!
# Relations

A structural equation model is a list of *relations* between variables. A relation joins a left
and a right variable by an operator:

* a *loading* `f =~ x`: the latent variable `f` is measured by the indicator `x`;
* a *covariance* `x ~~ y`, which is the variance of `x` if both sides are `x`;
* a *regression* `y ~ x` of `y` on `x`, which is the intercept of `y` if the right side is `1`.

Each relation stands for a parameter of the model. Its *modifier* fixes the parameter to a value,
or names it by a label: relations with the same label share one parameter. A labelled parameter
may have bounds, and it is not free if a definition computes it.

Main definitions: `Operator`, `Modifier`, `Bound`, `Relation` and its written form,
`Relation.render`.
-/

namespace StructuralModel

/-- What joins the two sides of a relation. -/
inductive Operator where
  /-- The left variable is measured by the right one. -/
  | loading
  /-- The two variables covary. -/
  | covariance
  /-- The left variable is regressed on the right one. -/
  | regression
  /-- The left parameter is computed by the expression on the right: no relation of variables. -/
  | define
  deriving DecidableEq, Repr

namespace Operator

/-- All operators. An operator stands before the ones that its symbol contains, so that the first
    one found in a text is the one that was written. -/
def all : List Operator :=
  [loading, covariance, regression, define]

/-- The operator in the syntax of models. -/
def symbol : Operator → String
  | loading => "=~"
  | covariance => "~~"
  | regression => "~"
  | define => ":="

/-- The operator with a given symbol. -/
def ofSymbol? (symbol : String) : Option Operator :=
  all.find? fun op => op.symbol == symbol

/-- Whether the operator relates variables. -/
def isEdge (op : Operator) : Bool :=
  op != define

end Operator

/-- The side on which a parameter is bounded. -/
inductive Bound where
  /-- The parameter is at least the bound. -/
  | lower
  /-- The parameter is at most the bound. -/
  | upper
  deriving DecidableEq, Repr

/-- The sign between a label and its bound. -/
def Bound.symbol : Bound → Char
  | lower => '>'
  | upper => '<'

/-- What a relation says about its parameter. -/
inductive Modifier where
  /-- The name of the parameter. -/
  | label (name : String)
  /-- The value of the parameter, a numeral kept as it was written. -/
  | fixed (value : String)
  deriving DecidableEq, Repr

namespace Modifier

/-- The modifier as it is written in front of a variable. -/
def text : Modifier → String
  | label name => name
  | fixed value => value

/-- Whether the modifier fixes the parameter. -/
def isFixed : Modifier → Bool
  | label _ => false
  | fixed _ => true

/-- The label, if the modifier is one. -/
def label? : Modifier → Option String
  | label name => some name
  | fixed _ => none

end Modifier

/-- The right side of a regression that is an intercept. -/
def intercept : String := "1"

/-- A relation between two variables, with its parameter. -/
structure Relation where
  /-- The left variable. -/
  lhs : String
  /-- The operator. -/
  op : Operator
  /-- The right variable. -/
  rhs : String
  /-- The value or the label of the parameter. -/
  modifier : Option Modifier := none
  /-- The lower bound of the parameter. -/
  lower : Option String := none
  /-- The upper bound of the parameter. -/
  upper : Option String := none
  /-- False if a definition computes the parameter. -/
  free : Bool := true
  /-- Where the relation was written; nothing if it was added to complete the model. -/
  span : Option Span := none
  deriving DecidableEq, Repr

namespace Relation

/-- The label of the parameter. -/
def label? (r : Relation) : Option String :=
  r.modifier.bind Modifier.label?

/-- Whether the parameter has the label `name`. -/
def hasLabel (name : String) (r : Relation) : Bool :=
  r.label? == some name

/-- Whether the relation fixes its parameter. -/
def isFixed (r : Relation) : Bool :=
  r.modifier.any Modifier.isFixed

/-- Whether the relation is the variance of `name`. -/
def isVarianceOf (name : String) (r : Relation) : Bool :=
  r.op == .covariance && r.lhs == name && r.rhs == name

/-- Whether the relation is the intercept of `name`. -/
def isInterceptOf (name : String) (r : Relation) : Bool :=
  r.op == .regression && r.lhs == name && r.rhs == intercept

/-- Whether the relation is a loading of the latent variable `name`. -/
def isLoadingOf (name : String) (r : Relation) : Bool :=
  r.op == .loading && r.lhs == name

/-- Whether the relation is a covariance of `a` and `b`, on whichever sides they stand. -/
def connects (a b : String) (r : Relation) : Bool :=
  r.op == .covariance && (r.lhs == a && r.rhs == b || r.lhs == b && r.rhs == a)

/-- Whether the relation predicts `name`: as an indicator, or as the outcome of a regression on a
    variable. An intercept predicts nothing. -/
def predicts (name : String) (r : Relation) : Bool :=
  match r.op with
  | .loading => r.rhs == name
  | .regression => r.lhs == name && r.rhs != intercept
  | .covariance | .define => false

/-- Sets the bound of the parameter on one side. -/
def setBound (side : Bound) (value : String) (r : Relation) : Relation :=
  match side with
  | .lower => { r with lower := some value }
  | .upper => { r with upper := some value }

/-- Marks the parameter as computed by a definition. -/
def markComputed (r : Relation) : Relation :=
  { r with free := false }

/-- The relation in the syntax of models: `f =~ 1.0*x`. -/
def render (r : Relation) : String :=
  r.lhs ++ " " ++ r.op.symbol ++ " " ++
    (match r.modifier with
      | some m => m.text ++ "*"
      | none => "") ++ r.rhs

end Relation

end StructuralModel
