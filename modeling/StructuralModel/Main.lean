import StructuralModel.CommandLine.Run
import StructuralModel.Settings.Toml

/-!
# The program

The command line program: it reads its arguments, runs in the files of the system, with settings
that are written in TOML, and shows the reports of remarks and failures on the standard error.
-/

namespace StructuralModel

/-- Whether an error code of the system is a number: some calls give its negative. -/
def hasNumber (number code : UInt32) : Bool :=
  code == number || code == 0 - number

/-- The reason why the system could not do something with a file. -/
def faultOfSystem (e : IO.Error) : FileFault :=
  match e with
  | .noFileOrDirectory .. => .notFound
  | .inappropriateType _ code _ => if hasNumber 20 code then .notADirectory else .isADirectory
  | .invalidArgument _ code _ =>
    if hasNumber 36 code then .nameTooLong
    else if hasNumber 22 code then .invalidPath
    else .other (toString e)
  | _ => .other (toString e)

/-- Does something with a file of the system. -/
def onFile {α : Type} (action : IO α) : IO (Except FileFault α) := do
  match ← action.toBaseIO with
  | .ok a => return .ok a
  | .error e => return .error (faultOfSystem e)

/-- The surroundings of the program. -/
def systemSurroundings : Surroundings IO where
  pathExists path := do
    match ← onFile (IO.FS.Handle.mk path .read) with
    | .error .notFound | .error .notADirectory | .error .nameTooLong | .error .invalidPath =>
      return false
    | _ => return true
  readFile path := onFile (IO.FS.readBinFile path)
  writeFile path bytes := onFile (IO.FS.writeBinFile path bytes)
  print text := do
    let out ← IO.getStdout
    out.putStr text
    out.flush
  parseSettings := Settings.ofToml

/-- Where settings are looked for. -/
def systemPlaces : IO (List String) := do
  match ← IO.getEnv "HOME" with
  | some home => return [Settings.localPath, Settings.systemPath home]
  | none => return [Settings.localPath]

/-- Shows a report. -/
def showReport (r : Report) : IO Unit := do
  let severity := (r.severity.map Severity.render).getD "error"
  let code := (r.code.map fun code => "[" ++ code ++ "]").getD ""
  IO.eprintln (severity ++ code ++ ": " ++ r.text)
  for label in r.labels do
    IO.eprintln ("  " ++ label.span.render ++ ": " ++ label.message)
  for help in r.help do
    IO.eprintln ("  help: " ++ help)

/-- How the program is called. -/
def usage : String :=
  "usage: [-o FILE | --output FILE] [-c FILE | --config FILE] [--log-level LEVEL] INPUT"

/-- Runs with arguments that were understood. -/
def runWith (arguments : Arguments) : IO UInt32 := do
  match ← (systemSurroundings.run (← systemPlaces) arguments).run with
  | .ok model =>
    for finding in model.remarks do
      showReport (.ofDiagnostic "" finding.diagnostic)
    return 0
  | .error failure =>
    for r in Report.ofFailure failure do
      showReport r
    return 1

end StructuralModel

open StructuralModel in
/-- Runs the program. -/
def main (arguments : List String) : IO UInt32 := do
  match Arguments.read arguments with
  | .ok arguments => runWith arguments
  | .error .help =>
    IO.println usage
    return 0
  | .error .version =>
    IO.println "0.1.0"
    return 0
  | .error _ =>
    IO.eprintln usage
    return 2
