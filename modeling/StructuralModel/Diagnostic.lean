import StructuralModel.Span

/-!
# Diagnostics

A diagnostic is a message about a model: how severe it is, a code for its kind, its text, labelled
places in the source text, and perhaps a hint. Among the labels, *primary* ones mark what the
message is about and *secondary* ones its surroundings. Codes are grouped: `E0` for the layout of
the text, `E1` for its characters, `E2` for the parts of a statement, `E3` for references between
statements, `W1` and `W2` for warnings and notes.

Main definitions: `Severity`, `Code`, `Label`, `Diagnostic`, and their written forms
(`Diagnostic.render` for one line, `Diagnostic.summarise` for a list of them).
-/

namespace StructuralModel

/-- How severe a diagnostic is. -/
inductive Severity where
  /-- The model is refused. -/
  | error
  /-- The model is accepted, but perhaps not as it was meant. -/
  | warning
  /-- The model is accepted; a step was left out, for a good reason. -/
  | note
  deriving DecidableEq, Repr

/-- The severity in words. -/
def Severity.render : Severity → String
  | error => "error"
  | warning => "warning"
  | note => "note"

/-- The kind of a diagnostic. -/
inductive Code where
  /-- A brace without its partner. -/
  | unbalancedBraces
  /-- A statement that ends behind an operator. -/
  | danglingContinuation
  /-- A text without statements. -/
  | missingModel
  /-- A statement that starts with a wrong character. -/
  | invalidStart
  /-- A character that is not allowed in a statement. -/
  | invalidCharacter
  /-- A name that is empty or holds a character it must not hold. -/
  | invalidName
  /-- A term with more than one modifier. -/
  | ambiguousModifier
  /-- A statement without operator. -/
  | missingOperator
  /-- A part of a statement that is empty. -/
  | emptyPart
  /-- A bound on a label that no relation has. -/
  | unknownLabel
  /-- A modifier that looks like a missing value. -/
  | missingValueLabel
  /-- A latent variable that has its scale already. -/
  | alreadyScaled
  /-- A parameter that was to be fixed and has a label. -/
  | scalingConflict
  /-- A latent variable that cannot be given a scale. -/
  | unidentified
  deriving DecidableEq, Repr

namespace Code

/-- All codes, in the order of their names. -/
def all : List Code :=
  [unbalancedBraces, danglingContinuation, missingModel, invalidStart, invalidCharacter,
    invalidName, ambiguousModifier, missingOperator, emptyPart, unknownLabel, missingValueLabel,
    alreadyScaled, scalingConflict, unidentified]

/-- The name of a code. -/
def name : Code → String
  | unbalancedBraces => "E001"
  | danglingContinuation => "E002"
  | missingModel => "E003"
  | invalidStart => "E100"
  | invalidCharacter => "E101"
  | invalidName => "E200"
  | ambiguousModifier => "E201"
  | missingOperator => "E202"
  | emptyPart => "E203"
  | unknownLabel => "E300"
  | missingValueLabel => "W100"
  | alreadyScaled => "W200"
  | scalingConflict => "W201"
  | unidentified => "W202"

/-- The code with a given name. -/
def ofName? (name : String) : Option Code :=
  all.find? fun code => code.name == name

/-- The kind of diagnostic that a code stands for, in words. -/
def description : Code → String
  | unbalancedBraces => "unbalanced braces"
  | danglingContinuation => "dangling continuation"
  | missingModel => "missing model"
  | invalidStart => "invalid statement start"
  | invalidCharacter => "invalid character"
  | invalidName => "invalid left-hand side"
  | ambiguousModifier => "ambiguous modifier"
  | missingOperator => "operator not found"
  | emptyPart => "empty term"
  | unknownLabel => "unknown bound target"
  | missingValueLabel => "NA used as modifier"
  | alreadyScaled => "scaling already manual"
  | scalingConflict => "scaling conflict"
  | unidentified => "identification failed"

end Code

/-- A place in the source text, with a remark. -/
structure Label where
  /-- The place. -/
  span : Span
  /-- The remark. -/
  message : String
  /-- Whether the diagnostic is about this very place. -/
  primary : Bool := true
  deriving DecidableEq, Repr

/-- A message about a model. -/
structure Diagnostic where
  /-- How severe it is. -/
  severity : Severity
  /-- Its kind. -/
  code : Option Code := none
  /-- What it says. -/
  message : String
  /-- The places it is about. -/
  labels : List Label := []
  /-- What to do about it. -/
  help : Option String := none
  deriving DecidableEq, Repr

namespace Diagnostic

/-- Whether the diagnostic refuses the model. -/
def isError (d : Diagnostic) : Bool :=
  d.severity == .error

/-- The place of the first primary label. -/
def primarySpan? (d : Diagnostic) : Option Span :=
  (d.labels.find? Label.primary).map Label.span

/-- The diagnostic in one line, without its labels and its hint. -/
def render (d : Diagnostic) : String :=
  d.severity.render ++
    (match d.code with
      | some code => "[" ++ code.name ++ "]"
      | none => "") ++ ": " ++ d.message

/-- Several diagnostics in one line: the first one, and how many follow. -/
def summarise : List Diagnostic → String
  | [] => ""
  | [d] => d.render
  | d :: rest => d.render ++ " (+" ++ toString rest.length ++ " more)"

end Diagnostic

end StructuralModel
