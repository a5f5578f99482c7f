import StructuralModel.CommandLine.Arguments
import StructuralModel.Diagnostic.Report
import StructuralModel.Model.Compile

/-!
# Runs

A run finds its settings, reads the file of the model, compiles it, and writes or prints the
compiled model, in this order. Whatever fails ends the run before anything is written: writing is
its last step, and the only one that changes a file.

A run does not say what files are, or how settings are written. It works in any *surroundings*,
which say how a file is looked up, read and written, how text is printed and which options a text of
settings sets. The surroundings of a program are those of its system. A `Session`, which is a file
tree and what was printed so far, gives others, and in them a run is a function (`Session.run`).
-/

namespace StructuralModel

/-- What a run needs of the system around it. -/
structure Surroundings (m : Type → Type) where
  /-- Whether there is a file or a directory at a path. -/
  pathExists : String → m Bool
  /-- The bytes of the file at a path. -/
  readFile : String → m (Except FileFault ByteArray)
  /-- Replaces the file at a path, or makes a new one. -/
  writeFile : String → ByteArray → m (Except FileFault Unit)
  /-- Prints a text. -/
  print : String → m Unit
  /-- Reads settings. -/
  parseSettings : Settings.Reader

namespace Surroundings

variable {m : Type → Type} [Monad m]

/-- The text of the file at a path. -/
def readText (w : Surroundings m) (path : String) : ExceptT Failure m String := do
  match ← w.readFile path with
  | .error fault => throw (.file fault)
  | .ok bytes =>
    match String.fromUTF8? bytes with
    | some text => return text
    | none => throw (.file .notText)

/-- The options in the settings file at a path. -/
def readSettings (w : Surroundings m) (path : String) : ExceptT Failure m Options := do
  if ← w.pathExists path then
    match w.parseSettings (← w.readText path) with
    | .ok options => return options
    | .error reason => throw (.settings (.malformed reason))
  else throw (.settings (.missingFile path))

/-- The options of a run: those at the path that was asked for, or at the first one of the other
    `places` where there is something, or the defaults. -/
def findOptions (w : Surroundings m) (asked : Option String) (places : List String) :
    ExceptT Failure m Options := do
  match asked with
  | some path => w.readSettings path
  | none => go places
where
  /-- Looks at one place after the other. -/
  go : List String → ExceptT Failure m Options
    | [] => return {}
    | path :: places => do
      if ← w.pathExists path then w.readSettings path else go places

/-- Compiles the model in the file at a path. -/
def compileFile (w : Surroundings m) (options : Options) (path : String) :
    ExceptT Failure m CompiledModel := do
  let source ← w.readText path
  match compile options source with
  | .ok model => return model
  | .error findings => throw (.model findings source)

/-- Puts out a text: to the file at a path, or printed without one. -/
def putOut (w : Surroundings m) (path : Option String) (text : String) :
    ExceptT Failure m Unit := do
  match path with
  | none => w.print text
  | some path =>
    match ← w.writeFile path text.toUTF8 with
    | .ok () => return ()
    | .error fault => throw (.file fault)

/-- Compiles the model that the arguments name, and puts it out. Settings are looked for in
    `places` unless the arguments name a file. -/
def run (w : Surroundings m) (places : List String) (arguments : Arguments) :
    ExceptT Failure m CompiledModel := do
  let options ← w.findOptions arguments.config places
  let model ← w.compileFile options arguments.input
  w.putOut arguments.output model.render
  return model

end Surroundings

/-! ## Runs in a file tree -/

/-- A file tree, and what was printed so far. -/
structure Session where
  /-- The files. -/
  tree : FileTree
  /-- The text that was printed. -/
  printed : String := ""

namespace Session

/-- Replaces a file of the tree, or makes a new one. -/
def write (path : String) (bytes : ByteArray) (s : Session) : Except FileFault Unit × Session :=
  match s.tree.write path bytes with
  | .ok tree => (.ok (), { s with tree })
  | .error fault => (.error fault, s)

/-- The surroundings that a file tree is, with a reader of settings. -/
def surroundings (reader : Settings.Reader) : Surroundings (StateM Session) where
  pathExists path := return (← get).tree.exists? path
  readFile path := return (← get).tree.read path
  writeFile path bytes := modifyGet (write path bytes)
  print text := modify fun s => { s with printed := s.printed ++ text }
  parseSettings := reader

/-- A run in a file tree: its result, and what is there afterwards. -/
def run (reader : Settings.Reader) (places : List String) (arguments : Arguments) (s : Session) :
    Except Failure CompiledModel × Session :=
  (((surroundings reader).run places arguments).run).run s

end Session

end StructuralModel
