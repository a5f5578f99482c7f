import StructuralModel.Model.Build
import StructuralModel.Model.Completion
import StructuralModel.Model.Identification
import StructuralModel.Options

/-!
# Compiling a model

A model text is read, its table is completed and its latent variables are given their scales, as
the options say. Which variables are latent and which manifest is decided once, by the table as it
was read.
-/

namespace StructuralModel

/-- Runs a step if an option is on. -/
def applyIf {α : Type} (on : Bool) (step : α → α) (a : α) : α :=
  if on then step a else a

namespace Table

/-- Completes a table whose variables are `v`. -/
def complete (o : Options) (v : Variables) (t : Table) : Table :=
  applyIf o.addExogenousManifestCovariances (addCovariances v.manifests) <|
    applyIf o.addExogenousLatentCovariances (addCovariances v.latents) <|
      applyIf o.addIntercepts (addIntercepts v.manifests) <|
        applyIf o.addVariances addVariances t

/-- Gives scales to the latent variables of a table. -/
def identify (o : Options) (latents : List String) (t : Table) : Table × List Finding :=
  let (t, variances) := if o.scaleLatentVariances then t.scaleLatentVariances latents else (t, [])
  let (t, loadings) := if o.scaleLoadings then t.scaleLoadings latents else (t, [])
  (t, variances ++ loadings)

end Table

/-- Completes and identifies a model. -/
def Model.compiled (o : Options) (m : Model) : CompiledModel :=
  let v := m.table.classify
  let (table, remarks) := (m.table.complete o v).identify o v.latents
  { m with table, remarks := m.remarks ++ remarks, classes := v }

/-- Compiles a model text; with faults, all that was found in the step that failed. -/
def compile (o : Options) (source : String) : Except (List Finding) CompiledModel :=
  (Model.parse source).map (Model.compiled o)

end StructuralModel
