import StructuralModel.Diagnostic.Finding
import StructuralModel.Table

/-!
# Identifying a table

A latent variable has no scale of its own. It gets one if its variance is fixed
(`scaleLatentVariances`), or if one of its loadings is (`scaleLoadings`). The parameter that is
fixed must be without modifier: what the text fixes or names is left alone and remarked on. Every
latent variable is dealt with on its own, in the given order.
-/

namespace StructuralModel.Table

/-- The value that a scale is fixed to. -/
def scalingValue : String := "1.0"

/-- Fixes the first row with the property `p`. -/
def fixFirst (p : Relation → Bool) (t : Table) : Table :=
  t.setFirstModifier p (some (.fixed scalingValue))

/-- Fixes the variance of a latent variable, that is, the first row that is its variance. -/
def scaleLatentVariance (t : Table) (latent : String) : Table × List Finding :=
  match t.rows.find? (Relation.isVarianceOf latent) with
  | none => (t, [.noVariance latent])
  | some r =>
    match r.modifier with
    | none => (t.fixFirst (Relation.isVarianceOf latent), [])
    | some (.fixed value) => (t, [.fixedVariance latent value r.span])
    | some (.label label) => (t, [.labelledVariance latent label r.span])

/-- Fixes the first loading of a latent variable that has no modifier, unless some loading of it is
    fixed. -/
def scaleLoading (t : Table) (latent : String) : Table × List Finding :=
  match t.rows.find? fun r => r.isLoadingOf latent && r.isFixed with
  | some r => (t, [.fixedLoading latent r.rhs r.span])
  | none =>
    if t.rows.any fun r => r.isLoadingOf latent && r.modifier.isNone then
      (t.fixFirst fun r => r.isLoadingOf latent && r.modifier.isNone, [])
    else
      (t, [.labelledLoadings latent
        ((t.rows.find? (Relation.isLoadingOf latent)).bind Relation.span)])

/-- Scales latent variables one after the other and collects the remarks. -/
def scaleEach (scale : Table → String → Table × List Finding) (t : Table) :
    List String → Table × List Finding
  | [] => (t, [])
  | latent :: rest =>
    let (t, remarks) := scale t latent
    let (t, more) := scaleEach scale t rest
    (t, remarks ++ more)

/-- Fixes the variances of the given latent variables. -/
def scaleLatentVariances (latents : List String) (t : Table) : Table × List Finding :=
  scaleEach scaleLatentVariance t latents

/-- Fixes a loading of each of the given latent variables. -/
def scaleLoadings (latents : List String) (t : Table) : Table × List Finding :=
  scaleEach scaleLoading t latents

end StructuralModel.Table
