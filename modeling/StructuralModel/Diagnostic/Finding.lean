import StructuralModel.Diagnostic
import StructuralModel.Relation

/-!
# Findings

A finding is what a step of the compiler has found out about a model: a fault of its text, or a
remark on how it is identified. It holds the facts (the texts and the places involved); the
severity, the code and all wording are those of its diagnostic (`Finding.diagnostic`), so that
every message of the compiler is written here.

A finding is a *fault* if its diagnostic is an error (`Finding.isFault`); a model with a fault is
refused.
-/

namespace StructuralModel

/-- What was found out about a model. -/
inductive Finding where
  /-- A brace at `brace` is opened and never closed. -/
  | unclosedBrace (brace : Span)
  /-- A brace at `brace` closes nothing. -/
  | unmatchedBrace (brace : Span)
  /-- A semicolon ends a statement that an operator leaves open. -/
  | danglingOperator (semicolon statement : Span)
  /-- There are no statements. -/
  | noStatements (body : Span)
  /-- The first character of a statement starts no statement. -/
  | invalidStart (statement : String) (first : Span)
  /-- A character of a statement is not allowed there. -/
  | invalidCharacter (character : Char) (place statement : Span)
  /-- A statement has no operator. -/
  | noOperator (text : String) (statement : Span)
  /-- The name on the left of a statement is empty. -/
  | noName (place statement : Span)
  /-- The name on the left holds a character that is not allowed in names. -/
  | invalidName (name : String) (character : Char) (forbidden : String) (place : Span)
  /-- A term, or one of its parts, is empty. -/
  | emptyTerm (text : String) (place : Span)
  /-- A term has more than one modifier. -/
  | ambiguousTerm (term : String) (place : Span)
  /-- A bound has no value. -/
  | emptyBound (target : String) (side : Bound) (statement : Span)
  /-- No relation has the label that is bounded. -/
  | unknownLabel (target : String) (place statement : Span)
  /-- A definition has no expression. -/
  | emptyDefinition (name : String) (statement : Span)
  /-- The modifier `NA` is a label like any other. -/
  | missingValueLabel (modifier : Span)
  /-- There is no variance that could be fixed. -/
  | noVariance (latent : String)
  /-- The variance is fixed already. -/
  | fixedVariance (latent value : String) (row : Option Span)
  /-- The variance has a label and is not fixed. -/
  | labelledVariance (latent label : String) (row : Option Span)
  /-- A loading is fixed already. -/
  | fixedLoading (latent indicator : String) (row : Option Span)
  /-- All loadings have labels, so none is fixed. -/
  | labelledLoadings (latent : String) (row : Option Span)
  deriving DecidableEq, Repr

namespace Finding

/-- A text between the marks of verbatim text. -/
def quote (text : String) : String :=
  "`" ++ text ++ "`"

/-- A primary label on the place where a row was written, if it was. -/
def rowLabel (row : Option Span) (message : String) : List Label :=
  row.toList.map fun span => { span, message }

/-- The message about a finding: its severity, its code and its wording. -/
def diagnostic : Finding → Diagnostic
  | unclosedBrace brace => {
      severity := .error, code := some .unbalancedBraces
      message := "unclosed `\x7b`"
      labels := [{ span := brace, message := "this `\x7b` is never closed" }]
      help := some "add the missing `\x7d`" }
  | unmatchedBrace brace => {
      severity := .error, code := some .unbalancedBraces
      message := "unmatched `\x7d`"
      labels := [{ span := brace, message := "no `\x7b` to close" }] }
  | danglingOperator semicolon statement => {
      severity := .error, code := some .danglingContinuation
      message := "statement ends with an operator before `;`"
      labels := [
        { span := semicolon, message := "statement cannot continue past `;`" },
        { span := statement, message := "incomplete statement", primary := false }]
      help := some "complete the statement or continue it on the next line" }
  | noStatements body => {
      severity := .error, code := some .missingModel
      message := "found no model in the source"
      labels := [{ span := body, message := "expected model statements" }]
      help := some "add relations such as `f =~ x1 + x2`" }
  | invalidStart statement first => {
      severity := .error, code := some .invalidStart
      message := "statement " ++ quote statement ++ " has an invalid start"
      labels := [{ span := first, message := "unexpected character" }]
      help := some
        "statements start with a variable or parameter name, e.g. `y1 ~ x` or `a > .4`" }
  | invalidCharacter character place statement => {
      severity := .error, code := some .invalidCharacter
      message := "unsupported character " ++ quote character.toString
      labels := [
        { span := place, message := "not allowed here" },
        { span := statement, message := "in this statement", primary := false }]
      help := some "wrap verbatim text in `\x7b...\x7d`" }
  | noOperator text statement => {
      severity := .error, code := some .missingOperator
      message := "statement " ++ quote text ++ " contains no operator"
      labels := [
        { span := statement, message := "expected `=~`, `~~`, `~`, `:=`, `>`, `<` or `!`" }]
      help := some "did you forget the operator?" }
  | noName place statement => {
      severity := .error, code := some .invalidName
      message := "missing left-hand side"
      labels := [
        { span := place, message := "expected a name here" },
        { span := statement, message := "in this statement", primary := false }] }
  | invalidName name character forbidden place => {
      severity := .error, code := some .invalidName
      message := "left-hand side " ++ quote name ++ " contains " ++ quote character.toString
      labels := [{ span := place, message := "invalid name" }]
      help := some ("names must not contain spaces or any of " ++ quote forbidden) }
  | emptyTerm text place => {
      severity := .error, code := some .emptyPart
      message := "empty term in " ++ quote text
      labels := [{ span := place, message := "expected `variable` or `modifier*variable`" }] }
  | ambiguousTerm term place => {
      severity := .error, code := some .ambiguousModifier
      message := "term " ++ quote term ++ " has more than one modifier"
      labels := [{ span := place, message := "expected `modifier*variable`" }]
      help := some "use a single label or value per term" }
  | emptyBound target side statement => {
      severity := .error, code := some .emptyPart
      message := "bound on " ++ quote target ++ " has no value"
      labels := [
        { span := statement
          message := "expected a value after " ++ quote side.symbol.toString }] }
  | unknownLabel target place statement => {
      severity := .error, code := some .unknownLabel
      message := "no relation carries the label " ++ quote target
      labels := [
        { span := place, message := "bound on unknown parameter" },
        { span := statement, message := "in this statement", primary := false }]
      help := some
        ("attach the label to a relation, e.g. " ++ quote ("f =~ " ++ target ++ "*x1")) }
  | emptyDefinition name statement => {
      severity := .error, code := some .emptyPart
      message := "definition of " ++ quote name ++ " is empty"
      labels := [{ span := statement, message := "expected an expression after `:=`" }] }
  | missingValueLabel modifier => {
      severity := .warning, code := some .missingValueLabel
      message := "`NA` used as modifier"
      labels := [{ span := modifier, message := "treated as a label named `NA`" }]
      help := some ("`NA` does not free a parameter; disable scale_loadings to estimate " ++
        "every loading and enable scale_latent_variances instead") }
  | noVariance latent => {
      severity := .warning, code := some .unidentified
      message := "latent " ++ quote latent ++ " has no variance to fix"
      help := some "enable add_variances or add `f ~~ f` to the model" }
  | fixedVariance latent value row => {
      severity := .note, code := some .alreadyScaled
      message := "variance of " ++ quote latent ++ " is already fixed to " ++ value
      labels := rowLabel row "scaled here" }
  | labelledVariance latent label row => {
      severity := .warning, code := some .scalingConflict
      message := "variance of " ++ quote latent ++ " carries the label " ++ quote label ++
        " and cannot be fixed"
      labels := rowLabel row "labelled here"
      help := some "use a numeric value such as `1*f` or disable scale_latent_variances" }
  | fixedLoading latent indicator row => {
      severity := .note, code := some .alreadyScaled
      message := quote latent ++ " already has a fixed loading on " ++ quote indicator
      labels := rowLabel row "scaled here" }
  | labelledLoadings latent row => {
      severity := .warning, code := some .unidentified
      message := "every loading of " ++ quote latent ++ " is labelled"
      labels := rowLabel row "no free loading to fix"
      help := some "fix one loading, e.g. `f =~ 1*x1`, or scale the latent variance" }

/-- Whether the finding refuses the model. -/
def isFault (f : Finding) : Bool :=
  f.diagnostic.isError

end Finding

end StructuralModel
