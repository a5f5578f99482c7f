/-!
# Options and settings

The steps that complete and identify a model can be switched on and off one by one. Without further
notice a model is completed, and its latent variables get their scales from their loadings.

*Settings* are a text that sets options. How the text is written is not said here: a reader
(`Settings.Reader`) takes a text and gives the options that it sets, or the reason, in words, why it
refuses the text.
-/

namespace StructuralModel

/-- Which steps run after a model is read. -/
structure Options where
  /-- Give every manifest variable an intercept. -/
  addIntercepts : Bool := true
  /-- Give every variable a variance. -/
  addVariances : Bool := true
  /-- Let all latent variables that nothing predicts covary. -/
  addExogenousLatentCovariances : Bool := true
  /-- Let all manifest variables that nothing predicts covary. -/
  addExogenousManifestCovariances : Bool := true
  /-- Fix the variance of every latent variable. -/
  scaleLatentVariances : Bool := false
  /-- Fix the first free loading of every latent variable. -/
  scaleLoadings : Bool := true
  deriving DecidableEq, Repr

namespace Options

/-- No step runs. -/
def parseOnly : Options where
  addIntercepts := false
  addVariances := false
  addExogenousLatentCovariances := false
  addExogenousManifestCovariances := false
  scaleLatentVariances := false
  scaleLoadings := false

/-- The names of the options in settings. -/
def names : List String :=
  ["add_intercepts", "add_variances", "add_exogenous_latent_covariances",
    "add_exogenous_manifest_covariances", "scale_latent_variances", "scale_loadings"]

/-- Sets the option with a given name, if there is one. -/
def set? (name : String) (value : Bool) (o : Options) : Option Options :=
  match name with
  | "add_intercepts" => some { o with addIntercepts := value }
  | "add_variances" => some { o with addVariances := value }
  | "add_exogenous_latent_covariances" => some { o with addExogenousLatentCovariances := value }
  | "add_exogenous_manifest_covariances" =>
    some { o with addExogenousManifestCovariances := value }
  | "scale_latent_variances" => some { o with scaleLatentVariances := value }
  | "scale_loadings" => some { o with scaleLoadings := value }
  | _ => none

/-- The options that differ from the defaults as given by name; nothing if a name is unknown or a
    value is missing. -/
def ofFields? (fields : List (String × Option Bool)) : Option Options :=
  fields.foldlM (fun o (name, value) => do o.set? name (← value)) {}

end Options

/-! ## Settings -/

/-- Why there are no settings. -/
inductive SettingsFault where
  /-- There is no file at the path that was asked for. -/
  | missingFile (path : String)
  /-- The reader refuses the text. -/
  | malformed (reason : String)
  deriving DecidableEq, Repr

/-- The fault in words. -/
def SettingsFault.message : SettingsFault → String
  | missingFile path => "Missing configuration file: " ++ path
  | malformed reason => "Failed to parse TOML configuration: " ++ reason

namespace Settings

/-- A reader of settings: the options that a text sets, or the reason why it is refused. -/
abbrev Reader := String → Except String Options

/-- The path of the settings of a project, from its directory. -/
def localPath : String := "semtab/config.toml"

/-- The path of the settings of a user, given the home directory. -/
def systemPath (home : String) : String :=
  home ++ "/.config/semtab/config.toml"

end Settings

end StructuralModel
