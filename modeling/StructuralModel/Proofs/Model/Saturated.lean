import StructuralModel.Proofs.Model.Appended
import StructuralModel.Proofs.Model.Classes

/-!
# Saturated tables

Of the steps of completion for the variables of a table (`Step.all`), each one is done on the table
that it returns. The rows that another step appends do not undo this: they name no new variable that
could lack a variance, and nothing that is there is taken away (`Done.mono`). So once all steps have
been run, in whatever order, all of them are done, and the table is *saturated*: whichever of them
are run again, and in whatever order, nothing is appended.

* `appendsEach_variances`, `appendsEach_intercepts`: which rows these steps append;
* `Extends.runAll`: each of the steps that are run is done in the end;
* `saturated_runAll`: a table on which all steps have been run is saturated.
-/

namespace StructuralModel.Table

variable {t t' t'' : Table} {names : List String} {s : Step}

/-! ## Variances and intercepts -/

/-- The variance of a variable. -/
def varianceOf (name : String) : Relation :=
  { lhs := name, op := .covariance, rhs := name }

/-- The intercept of a variable. -/
def interceptOf (name : String) : Relation :=
  { lhs := name, op := .regression, rhs := intercept }

/-- A step appends one row for each name that lacks one, in the order of a list of names, and it
    counts the rows. -/
def Step.AppendsEach (s : Step) (t : Table) (names : List String) (lacks : String → Prop)
    (row : String → Relation) : Prop :=
  ∃ lacking : List String, lacking.Nodup ∧ lacking.Sublist names ∧
    (∀ name, name ∈ lacking ↔ lacks name) ∧
    s.run t = (t.append (lacking.map row), lacking.length)

/-- It does if the rows that the table lacks are those of a filtered list. -/
theorem Step.appendsEach_of_filter {p : String → Bool} {lacks : String → Prop}
    {row : String → Relation} (hs : s.names.Nodup) (hnames : names.Nodup)
    (hmissing : s.missing t = (names.filter p).map row)
    (hlacks : ∀ name, name ∈ names ∧ p name = true ↔ lacks name) :
    s.AppendsEach t names lacks row := by
  refine ⟨names.filter p, hnames.filter p, List.filter_sublist, fun name => ?_, ?_⟩
  · rw [List.mem_filter, hlacks]
  · rw [run_eq hs, hmissing, List.length_map]

/-- A variance is appended for each variable that lacks one. -/
theorem appendsEach_variances (t : Table) :
    Step.variances.AppendsEach t t.variableNames (fun name => name ≠ intercept ∧
      (∃ r ∈ t.rows, r.op.isEdge = true ∧ (r.lhs = name ∨ r.rhs = name)) ∧
      ∀ r ∈ t.rows, r.isVarianceOf name = false) varianceOf := by
  refine Step.appendsEach_of_filter .nil (nodup_eraseDups _) rfl fun name => ?_
  rw [any_eq_false_iff]
  constructor
  · rintro ⟨hname, hlacks⟩
    obtain ⟨⟨r, hr, hedge, hside⟩, hne⟩ := mem_variableNames.1 hname
    exact ⟨hne, ⟨r, hr, hedge, hside.imp_right And.left⟩, hlacks⟩
  · rintro ⟨hne, ⟨r, hr, hedge, hside⟩, hlacks⟩
    exact ⟨mem_variableNames.2 ⟨⟨r, hr, hedge, hside.imp_right fun h => ⟨h, hne⟩⟩, hne⟩, hlacks⟩

/-- An intercept is appended for each of the given variables that lacks one. -/
theorem appendsEach_intercepts (hnames : names.Nodup) (t : Table) :
    (Step.intercepts names).AppendsEach t names
      (fun name => name ∈ names ∧ ∀ r ∈ t.rows, r.isInterceptOf name = false) interceptOf :=
  Step.appendsEach_of_filter hnames hnames rfl fun _ => and_congr_right' any_eq_false_iff

/-! ## All steps -/

/-- The steps of completion for the variables of a table. -/
def Step.all (v : Variables) : List Step :=
  [variances, intercepts v.manifests, covariances v.latents, covariances v.manifests]

theorem Step.nodup_names (hs : s ∈ Step.all t.classify) : s.names.Nodup := by
  simp only [Step.all, List.mem_cons, List.not_mem_nil, or_false] at hs
  rcases hs with rfl | rfl | rfl | rfl
  · exact .nil
  · exact t.nodup_manifests
  · exact t.nodup_latents
  · exact t.nodup_manifests

/-- The steps for the variables of a table name no new variables and append no loadings. -/
theorem Extends.run (h : t.Extends t') (hs : s ∈ Step.all t.classify) :
    t.Extends (s.run t').1 := by
  have hrun := congrArg Prod.fst (Step.run_eq (Step.nodup_names hs) t')
  rw [hrun]
  simp only [Step.all, List.mem_cons, List.not_mem_nil, or_false] at hs
  rcases hs with rfl | rfl | rfl | rfl
  · refine h.append fun r hr => ?_
    obtain ⟨name, hname, rfl⟩ := List.mem_map.1 hr
    have hvariable := h.mem_variableNames (List.mem_filter.1 hname).1
    exact .variance (Table.mem_variableNames.1 hvariable).1
  · exact h.addIntercepts fun _ h => mentions_of_mem_manifests h
  · exact h.addCovariances fun _ h => mentions_of_mem_latents h
  · exact h.addCovariances fun _ h => mentions_of_mem_manifests h

/-- A step that is done stays done when rows are appended that name no new variables. -/
theorem Step.Done.mono (h : s.Done t') (hext : t.Extends t') (hext' : t.Extends t'')
    (hrows : t'.rows <+: t''.rows) : s.Done t'' := by
  cases s with
  | variances =>
    intro name hname
    have hvariable := hext.mem_variableNames_iff.2 (hext'.mem_variableNames hname)
    exact any_mono hrows (h name hvariable)
  | intercepts => exact fun name hname => any_mono hrows (h name hname)
  | covariances => exact Covary.mono h hrows

/-- Each step that is run, or was done before, is done when all of them have been run. -/
theorem Extends.runAll {steps : List Step} (h : t.Extends t')
    (hsteps : ∀ s ∈ steps, s ∈ Step.all t.classify) :
    t.Extends (Step.runAll t' steps).1 ∧
      ∀ s, s ∈ steps ∨ s.Done t' → s.Done (Step.runAll t' steps).1 := by
  induction steps generalizing t' with
  | nil => exact ⟨h, fun s hs => hs.resolve_left List.not_mem_nil⟩
  | cons first steps ih =>
    have hfirst := hsteps first List.mem_cons_self
    have hrun := h.run hfirst
    obtain ⟨hext, hdone⟩ := ih hrun fun s hs => hsteps s (List.mem_cons_of_mem _ hs)
    refine ⟨hext, fun s hs => hdone s ?_⟩
    rcases hs with hs | hs
    · rcases List.mem_cons.1 hs with rfl | hs
      · exact .inr (Step.done_run (Step.nodup_names hfirst) t')
      · exact .inl hs
    · exact .inr (hs.mono h hrun (first.prefix_run t'))

/-- Variances and intercepts are appended just for the variables that lack them. Once all steps of
    completion for the variables of a table have been run on it, in whatever order, any of them can
    be run again, in any sequence, and nothing is appended. -/
theorem saturated_runAll (t : Table) :
    Step.variances.AppendsEach t t.variableNames (fun name => name ≠ intercept ∧
        (∃ r ∈ t.rows, r.op.isEdge = true ∧ (r.lhs = name ∨ r.rhs = name)) ∧
        ∀ r ∈ t.rows, r.isVarianceOf name = false) varianceOf ∧
      (∀ names : List String, names.Nodup → (Step.intercepts names).AppendsEach t names
        (fun name => name ∈ names ∧ ∀ r ∈ t.rows, r.isInterceptOf name = false) interceptOf) ∧
      ∀ order further : List Step, order.Perm (Step.all t.classify) →
        (∀ s ∈ further, s ∈ Step.all t.classify) →
        Step.runAll (Step.runAll t order).1 further = ((Step.runAll t order).1, 0) := by
  refine ⟨appendsEach_variances t, fun names hnames => appendsEach_intercepts hnames t, ?_⟩
  intro order further horder hfurther
  obtain ⟨-, hdone⟩ := (Extends.refl t).runAll fun s hs => horder.mem_iff.1 hs
  refine Step.runAll_of_done fun s hs => ⟨Step.nodup_names (hfurther s hs), hdone s (.inl ?_)⟩
  exact horder.mem_iff.2 (hfurther s hs)

/-- A factor of the second order, and a variable with two predictors. -/
def secondOrder : Table :=
  ⟨[{ lhs := "f", op := .loading, rhs := "x" }, { lhs := "g", op := .loading, rhs := "f" },
    { lhs := "y", op := .regression, rhs := "a" }, { lhs := "y", op := .regression, rhs := "b" }]⟩

/-- It is saturated when the steps have been run from the last one to the first one. -/
theorem saturated_runAll_secondOrder :
    (Step.all secondOrder.classify).reverse.Perm (Step.all secondOrder.classify) ∧
      (Step.runAll secondOrder (Step.all secondOrder.classify).reverse).2 = 11 ∧
      Step.runAll (Step.runAll secondOrder (Step.all secondOrder.classify).reverse).1
          (Step.all secondOrder.classify) =
        ((Step.runAll secondOrder (Step.all secondOrder.classify).reverse).1, 0) ∧
      ["y", "x"].Nodup ∧ (Step.intercepts ["y", "x"]).AppendsEach secondOrder ["y", "x"]
        (fun name => name ∈ ["y", "x"] ∧ ∀ r ∈ secondOrder.rows, r.isInterceptOf name = false)
        interceptOf := by
  have hperm := List.reverse_perm (Step.all secondOrder.classify)
  obtain ⟨-, hintercepts, hsaturated⟩ := saturated_runAll secondOrder
  exact ⟨hperm, by decide +kernel, hsaturated _ _ hperm fun _ hs => hs, by decide,
    hintercepts _ (by decide)⟩

end StructuralModel.Table
