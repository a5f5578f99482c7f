import StructuralModel.Table

/-!
# Completing a table

A model text leaves out relations that every model has. Completion appends them:

* a variance for every variable without one (`addVariances`);
* an intercept for every given variable without one (`addIntercepts`);
* a covariance for every two of the given variables that nothing predicts and that no covariance
  joins yet (`addCovariances`).

The rows that are there stay as they are, and a completed table has nothing left to append. A step
of completion (`Step`) also tells how many rows it has appended.
-/

namespace StructuralModel.Table

/-- The variances that a table lacks. -/
def missingVariances (t : Table) : List Relation :=
  (t.variableNames.filter fun name => !t.rows.any (Relation.isVarianceOf name)).map fun name =>
    { lhs := name, op := .covariance, rhs := name }

/-- Appends the variances that a table lacks. -/
def addVariances (t : Table) : Table :=
  t.append t.missingVariances

/-- The intercepts that a table lacks for the variables `names`. -/
def missingIntercepts (names : List String) (t : Table) : List Relation :=
  (names.filter fun name => !t.rows.any (Relation.isInterceptOf name)).map fun name =>
    { lhs := name, op := .regression, rhs := intercept }

/-- Appends the intercepts that a table lacks for the variables `names`. -/
def addIntercepts (names : List String) (t : Table) : Table :=
  t.append (t.missingIntercepts names)

/-- All pairs of two members of a list, in the order of the list. -/
def pairs {α : Type} : List α → List (α × α)
  | [] => []
  | a :: rest => rest.map (a, ·) ++ pairs rest

/-- The covariances that a table lacks between the exogenous ones of the variables `names`. -/
def missingCovariances (names : List String) (t : Table) : List Relation :=
  ((pairs (names.filter t.isExogenous)).filter fun (a, b) =>
    !t.rows.any (Relation.connects a b)).map fun (a, b) =>
      { lhs := a, op := .covariance, rhs := b }

/-- Appends the covariances that a table lacks between the exogenous ones of the variables
    `names`. -/
def addCovariances (names : List String) (t : Table) : Table :=
  t.append (t.missingCovariances names)

/-! ## Steps -/

/-- A step of completion. -/
inductive Step where
  /-- Variances are appended. -/
  | variances
  /-- Intercepts of the given variables are appended. -/
  | intercepts (names : List String)
  /-- Covariances between the exogenous ones of the given variables are appended. -/
  | covariances (names : List String)
  deriving DecidableEq, Repr

/-- The covariance of a pair of variables. -/
def covarianceOf (p : String × String) : Relation :=
  { lhs := p.1, op := .covariance, rhs := p.2 }

/-- Appends the covariance of a pair of variables and counts it, unless some row joins the two. -/
def countCovariance (done : Table × Nat) (p : String × String) : Table × Nat :=
  if done.1.rows.any (Relation.connects p.1 p.2) then done
  else (done.1.append [covarianceOf p], done.2 + 1)

/-- Runs a step. It returns the table with the number of rows that were appended. Covariances are
    appended one after the other, each one looked for in the table that has the earlier ones. -/
def Step.run (t : Table) : Step → Table × Nat
  | variances => (t.addVariances, t.missingVariances.length)
  | intercepts names => (t.addIntercepts names, (t.missingIntercepts names).length)
  | covariances names => (pairs (names.filter t.isExogenous)).foldl countCovariance (t, 0)

end StructuralModel.Table
