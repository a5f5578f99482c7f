import StructuralModel.Diagnostic.Finding
import StructuralModel.FileTree
import StructuralModel.Options

/-!
# Failures and reports

A run fails because of its files, its settings or its model. A *report* is what the user is shown of
a failure or of a remark: a text, and beside it, where they exist, a code, a severity, a hint, and
the labelled places with the source text that they point into. A faulty model has a report for each
diagnostic, any other failure has one report without places.
-/

namespace StructuralModel

/-- Why a run fails. -/
inductive Failure where
  /-- A file cannot be read or written. -/
  | file (fault : FileFault)
  /-- There are no settings. -/
  | settings (fault : SettingsFault)
  /-- The text of the model is refused. -/
  | model (findings : List Finding) (source : String)
  deriving DecidableEq, Repr

/-- What a failure of the settings says, for a reason given in words. -/
def configurationMessage (reason : String) : String :=
  "Configuration error: " ++ reason

/-- The failure in one line. -/
def Failure.message : Failure → String
  | file fault => "I/O error: " ++ fault.message
  | settings fault => configurationMessage fault.message
  | model findings _ => Diagnostic.summarise (findings.map Finding.diagnostic)

/-- What the user is shown of a failure or a remark. -/
structure Report where
  /-- What happened. -/
  text : String
  /-- Its code. -/
  code : Option String := none
  /-- How severe it is. -/
  severity : Option Severity := none
  /-- What to do about it. -/
  help : Option String := none
  /-- The places it is about. -/
  labels : List Label := []
  /-- The text that the places are in. -/
  source : Option String := none
  deriving DecidableEq, Repr

namespace Report

/-- The report of a diagnostic on a model with the given text. -/
def ofDiagnostic (source : String) (d : Diagnostic) : Report where
  text := d.message
  code := d.code.map Code.name
  severity := some d.severity
  help := d.help
  labels := d.labels
  source := some source

/-- The report of settings that could not be had, for a reason given in words. -/
def ofConfiguration (reason : String) : Report where
  text := configurationMessage reason
  code := some "semtab::config"

/-- The reports of a failure. -/
def ofFailure (f : Failure) : List Report :=
  match f with
  | .file _ => [{ text := f.message, code := some "semtab::io" }]
  | .settings fault => [ofConfiguration fault.message]
  | .model findings source => findings.map fun finding => ofDiagnostic source finding.diagnostic

/-- The reports of the remarks on a model with the given text. -/
def ofRemarks (source : String) (remarks : List Finding) : List Report :=
  remarks.map fun finding => ofDiagnostic source finding.diagnostic

/-- The byte offset and the number of bytes of the place of a label, as they are shown. -/
def place (l : Label) : Nat × Nat :=
  (l.span.start, l.span.size)

end Report

end StructuralModel
