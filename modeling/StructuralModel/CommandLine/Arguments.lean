/-!
# Arguments

The command line names the file of a model, and may name a file for the output and a file with
settings:

    [-o FILE | --output FILE] [-c FILE | --config FILE] [--log-level LEVEL] INPUT

A value may also be joined to its option: `--output=FILE`, `-oFILE`, `-o=FILE`. Behind `--` all
arguments are names of files. Arguments are read from left to right. An option is *pending* until
the argument behind it is seen, so that a fault of an option may be reported only when the next
argument is understood; a next argument that is not understood is reported first.
-/

namespace StructuralModel

/-- What the command line says. -/
structure Arguments where
  /-- The file of the model. -/
  input : String
  /-- The file for the output; without one it is printed. -/
  output : Option String := none
  /-- The file with the settings. -/
  config : Option String := none
  /-- How much is logged. -/
  logLevel : String := "info"
  deriving DecidableEq, Repr

namespace Arguments

/-- Why the arguments are not those of a run. -/
inductive Usage where
  /-- There is no input. -/
  | missingInput
  /-- An option that does not exist, or a second input. -/
  | unknownArgument
  /-- An option without its value. -/
  | missingValue
  /-- An option that is given twice. -/
  | repeatedOption
  /-- A value for an option that takes none. -/
  | unexpectedValue
  /-- The user asks for help. -/
  | help
  /-- The user asks for the version. -/
  | version
  deriving DecidableEq, Repr

/-- The options with a value. -/
inductive Setting where
  /-- The output file. -/
  | output
  /-- The file with settings. -/
  | config
  /-- The log level. -/
  | logLevel
  deriving DecidableEq, Repr

/-- What an option stands for. -/
inductive Switch where
  /-- It takes a value. -/
  | setting (s : Setting)
  /-- It ends the run at once. -/
  | stop (reason : Usage)
  deriving DecidableEq, Repr

/-- The option with a long name. -/
def Switch.ofLong? : String → Option Switch
  | "output" => some (.setting .output)
  | "config" => some (.setting .config)
  | "log-level" => some (.setting .logLevel)
  | "help" => some (.stop .help)
  | "version" => some (.stop .version)
  | _ => none

/-- The option with a one-letter name. -/
def Switch.ofShort? : Char → Option Switch
  | 'o' => some (.setting .output)
  | 'c' => some (.setting .config)
  | 'h' => some (.stop .help)
  | 'V' => some (.stop .version)
  | _ => none

/-- What an argument looks like. -/
inductive Shape where
  /-- The mark behind which there are no options. -/
  | endOfOptions
  /-- An option and perhaps a value joined to it; nothing for an option that does not exist. -/
  | switch (switch : Option Switch) (long : Bool) (value : Option String)
  /-- A value or a name. -/
  | plain (text : String)
  deriving DecidableEq, Repr

/-- The shape of an argument. -/
def Shape.of (argument : String) : Shape :=
  match argument.toList with
  | ['-', '-'] => .endOfOptions
  | '-' :: '-' :: rest =>
    let name := rest.takeWhile (· != '=')
    .switch (Switch.ofLong? (String.ofList name)) true
      (if name.length < rest.length then some (String.ofList (rest.drop (name.length + 1)))
        else none)
  | '-' :: letter :: rest =>
    .switch (Switch.ofShort? letter) false
      (match rest with
        | [] => none
        | '=' :: value => some (String.ofList value)
        | value => some (String.ofList value))
  | _ => .plain argument

/-- What was understood so far. -/
structure Reading where
  /-- The input. -/
  input : Option String := none
  /-- The values of options. -/
  values : List (Setting × String) := []
  /-- The option that was seen last, with its value if that was seen too. -/
  pending : Option (Setting × Option String) := none

/-- Takes over the pending option: it needs a value, and it must be the first of its kind. -/
def Reading.settle (r : Reading) : Except Usage Reading :=
  match r.pending with
  | none => .ok r
  | some (_, none) => .error .missingValue
  | some (s, some value) =>
    if r.values.any (·.1 == s) then .error .repeatedOption
    else .ok { r with values := r.values ++ [(s, value)], pending := none }

/-- Takes over an argument that is no option. -/
def Reading.addName (r : Reading) (text : String) : Except Usage Reading :=
  match r.input with
  | some _ => .error .unknownArgument
  | none => do return { ← r.settle with input := some text }

/-- Takes over an option. -/
def Reading.addSwitch (r : Reading) (switch : Option Switch) (long : Bool)
    (value : Option String) : Except Usage Reading :=
  match switch with
  | none => .error .unknownArgument
  | some (.setting s) => do
    -- A joined value completes the option, so it is settled with the argument itself.
    let r := { ← r.settle with pending := some (s, value) }
    if value.isSome then r.settle else return r
  | some (.stop reason) =>
    if long && value.isSome then .error .unexpectedValue
    else do
      let _ ← r.settle
      throw reason

/-- Takes over an argument before the end of options; the flag tells whether they end there. -/
def Reading.add (r : Reading) (argument : String) : Except Usage (Reading × Bool) :=
  match Shape.of argument, r.pending with
  | .endOfOptions, _ => .ok (r, true)
  | .switch s long value, _ => (r.addSwitch s long value).map (·, false)
  | .plain text, some (s, none) => .ok ({ r with pending := some (s, some text) }, false)
  | .plain text, _ => (r.addName text).map (·, false)

/-- Takes over the arguments one by one. -/
def Reading.addAll (r : Reading) (ended : Bool) : List String → Except Usage Reading
  | [] => r.settle
  | argument :: rest => do
    if ended then (← r.addName argument).addAll true rest
    else
      let (r, ended) ← r.add argument
      r.addAll ended rest

/-- Reads the arguments of a command line. -/
def read (arguments : List String) : Except Usage Arguments := do
  let r ← Reading.addAll {} false arguments
  match r.input with
  | none => throw .missingInput
  | some input =>
    return {
      input
      output := r.values.lookup .output
      config := r.values.lookup .config
      logLevel := (r.values.lookup .logLevel).getD "info" }

end Arguments

end StructuralModel
