import StructuralModel.Proofs.Model.Permuted

/-!
# What a step of completion appends

A step of completion appends the rows that a table lacks and returns how many there are (`run_eq`).
Variances and intercepts are looked for in the table that the step was given. Covariances are looked
for in the table that has those that were appended for earlier pairs, one after the other
(`countCovariance`); as no pair comes twice, none of them is found.

A step is *done* on a table if the table lacks nothing that the step appends (`Step.Done`). Then it
appends nothing (`run_of_done`), and on the table that it returns it is done (`done_run`).
-/

namespace StructuralModel.Table

variable {t : Table}

/-! ## One covariance after the other -/

theorem fst_countCovariance (done : Table × Nat) (p : String × String) :
    (countCovariance done p).1 = done.1.addCovariance p := by
  rw [countCovariance, addCovariance]
  split <;> rfl

theorem fst_foldl_countCovariance (ps : List (String × String)) (done : Table × Nat) :
    (ps.foldl countCovariance done).1 = ps.foldl addCovariance done.1 := by
  induction ps generalizing done with
  | nil => rfl
  | cons p ps ih => rw [List.foldl_cons, ih, fst_countCovariance, List.foldl_cons]

/-- The number of rows grows as the table does. -/
theorem length_rows_countCovariance (done : Table × Nat) (p : String × String) :
    (countCovariance done p).1.rows.length + done.2 =
      done.1.rows.length + (countCovariance done p).2 := by
  rw [countCovariance]
  split
  case isTrue => rfl
  case isFalse =>
    show (done.1.rows ++ [covarianceOf p]).length + done.2 = done.1.rows.length + (done.2 + 1)
    rw [List.length_append, List.length_singleton]
    omega

theorem length_rows_foldl_countCovariance (ps : List (String × String)) (done : Table × Nat) :
    (ps.foldl countCovariance done).1.rows.length + done.2 =
      done.1.rows.length + (ps.foldl countCovariance done).2 := by
  induction ps generalizing done with
  | nil => rfl
  | cons p ps ih =>
    have hfirst := length_rows_countCovariance done p
    have hrest := ih (countCovariance done p)
    rw [List.foldl_cons]
    omega

theorem prefix_foldl_addCovariance (ps : List (String × String)) (t : Table) :
    t.rows <+: (ps.foldl addCovariance t).rows := by
  induction ps generalizing t with
  | nil => exact List.prefix_rfl
  | cons p ps ih =>
    have hfirst : t.rows <+: (t.addCovariance p).rows := by
      rw [addCovariance]
      split
      case isTrue => exact List.prefix_rfl
      case isFalse => exact List.prefix_append _ _
    exact hfirst.trans (ih _)

namespace Step

variable {s : Step}

/-- The variables that a step is given. -/
def names : Step → List String
  | variances => []
  | intercepts names => names
  | covariances names => names

/-- The rows that a table lacks, of those that a step appends. -/
def missing (t : Table) : Step → List Relation
  | variances => t.missingVariances
  | intercepts names => t.missingIntercepts names
  | covariances names => t.missingCovariances names

/-- A step appends what the table lacks, and returns the number of the rows that it appends. -/
theorem run_eq (hs : s.names.Nodup) (t : Table) :
    s.run t = (t.append (s.missing t), (s.missing t).length) := by
  cases s with
  | variances => rfl
  | intercepts => rfl
  | covariances names =>
    have htable : ((covariances names).run t).1 = t.append (t.missingCovariances names) :=
      (fst_foldl_countCovariance _ _).trans (foldl_addCovariance hs t)
    have hlength : ((covariances names).run t).1.rows.length + 0 =
        t.rows.length + ((covariances names).run t).2 := length_rows_foldl_countCovariance _ _
    rw [htable, append, List.length_append] at hlength
    exact Prod.ext htable (by rw [missing]; omega)

/-- A step only appends rows, whatever variables it is given. -/
theorem prefix_run (s : Step) (t : Table) : t.rows <+: (s.run t).1.rows := by
  cases s with
  | variances => exact List.prefix_append _ _
  | intercepts => exact List.prefix_append _ _
  | covariances =>
    rw [run, fst_foldl_countCovariance]
    exact prefix_foldl_addCovariance _ _

/-! ## Steps that are done -/

/-- The table lacks nothing that the step appends. -/
def Done (t : Table) : Step → Prop
  | variances => ∀ name ∈ t.variableNames, t.rows.any (Relation.isVarianceOf name) = true
  | intercepts names => ∀ name ∈ names, t.rows.any (Relation.isInterceptOf name) = true
  | covariances names => t.Covary names

/-- A step that is done appends nothing. -/
theorem run_of_done (hs : s.names.Nodup) (h : s.Done t) : s.run t = (t, 0) := by
  have hsame : t.append (s.missing t) = t := by
    cases s with
    | variances => exact addVariances_eq_self h
    | intercepts => exact addIntercepts_eq_self h
    | covariances => exact addCovariances_eq_self hs h
  have hnil : s.missing t = [] := List.append_right_eq_self.1 (congrArg Table.rows hsame)
  rw [run_eq hs, hnil, append_nil]
  rfl

/-- A step is done on the table that it returns. -/
theorem done_run (hs : s.names.Nodup) (t : Table) : s.Done (s.run t).1 := by
  rw [run_eq hs]
  cases s with
  | variances =>
    exact fun name hname => any_addVariances ((Extends.addVariances t).mem_variableNames hname)
  | intercepts => exact fun name hname => any_addIntercepts hname
  | covariances names => exact covary_addCovariances names t

/-! ## Several steps -/

/-- Runs steps in turn and adds up the numbers of rows that they append. -/
def runAll (t : Table) : List Step → Table × Nat
  | [] => (t, 0)
  | s :: steps => ((runAll (s.run t).1 steps).1, (s.run t).2 + (runAll (s.run t).1 steps).2)

/-- Steps only append rows. -/
theorem prefix_runAll (steps : List Step) (t : Table) : t.rows <+: (runAll t steps).1.rows := by
  induction steps generalizing t with
  | nil => exact List.prefix_rfl
  | cons s steps ih => exact (s.prefix_run t).trans (ih _)

/-- Steps that are done append nothing. -/
theorem runAll_of_done {steps : List Step} (h : ∀ s ∈ steps, s.names.Nodup ∧ s.Done t) :
    runAll t steps = (t, 0) := by
  induction steps with
  | nil => rfl
  | cons s steps ih =>
    obtain ⟨hs, hdone⟩ := h s List.mem_cons_self
    have hrest := ih fun s hmem => h s (List.mem_cons_of_mem _ hmem)
    simp only [runAll, run_of_done hs hdone, hrest, Nat.add_zero]

end Step

end StructuralModel.Table
