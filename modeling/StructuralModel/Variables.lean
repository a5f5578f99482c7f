import StructuralModel.Table

/-!
# Variables of a model

The variables of a model fall in two classes. A variable is *latent* if it is the left side of some
loading: it is not observed, but measured by indicators. All other variables are *manifest*. The
classes are always computed from a table.
-/

namespace StructuralModel

/-- The variables of a model by class, each name once, in order of appearance. -/
structure Variables where
  /-- The variables that are measured by others. -/
  latents : List String := []
  /-- The variables that are observed. -/
  manifests : List String := []
  deriving DecidableEq, Repr

namespace Variables

/-- Whether a name is a latent variable. -/
def isLatent (name : String) (v : Variables) : Bool :=
  v.latents.contains name

/-- Whether a name is a manifest variable. -/
def isManifest (name : String) (v : Variables) : Bool :=
  v.manifests.contains name

end Variables

/-- The latent variables of a table, in the order of their first loadings. -/
def Table.latents (t : Table) : List String :=
  ((t.rows.filter fun r => r.op == .loading).map Relation.lhs).eraseDups

/-- The variables of a table by class. -/
def Table.classify (t : Table) : Variables where
  latents := t.latents
  manifests := t.variableNames.filter fun name => !t.latents.contains name

end StructuralModel
