import StructuralModel.Proofs.Appearance
import StructuralModel.Proofs.Model.Grounded

/-!
# How many clauses a model has

The model of clauses that add at most one row each has at most as many clauses as it was made of
(`length_clauses_ofClauses_le`): rows, declarations, definitions and blocks come from clauses one by
one, and of the bounds of a label on a side only the last one is left. If all of these clauses are
there again as rows, each of them added one row (`eq_map_relations`).
-/

namespace StructuralModel

/-- The clauses that bound labels are different from one another. -/
theorem Table.nodup_boundClauses (t : Table) : (t.labels.flatMap t.boundClauses).Nodup := by
  rw [List.nodup_iff_pairwise_ne, List.pairwise_flatMap]
  constructor
  · intro label _
    rw [boundClauses]
    split
    case h_1 => exact .nil
    case h_2 r _ =>
      cases hl : r.bound? .lower <;> cases hu : r.bound? .upper <;> simp [hl, hu]
  · refine List.Pairwise.imp ?_ (List.nodup_iff_pairwise_ne.1 (nodup_eraseDups _))
    intro label label' hne c hc c' hc' heq
    obtain ⟨r, side, value, -, -, rfl⟩ := mem_boundClauses.1 hc
    obtain ⟨r', side', value', -, -, rfl⟩ := mem_boundClauses.1 hc'
    cases heq
    exact hne rfl

/-- Whether a clause bounds a parameter. -/
def Clause.isBound : Clause → Bool
  | bound _ _ _ => true
  | _ => false

namespace Model

/-- Every clause is of one kind. -/
theorem length_kinds_le {clauses : List Clause} (h : ∀ c ∈ clauses, c.rows.length ≤ 1) :
    (clauses.flatMap Clause.rows).length + (clauses.filter Clause.isBound).length +
      (clauses.filterMap Clause.declared?).length + (clauses.filterMap Clause.definition?).length +
      (clauses.filterMap Clause.block?).length ≤ clauses.length := by
  induction clauses with
  | nil => exact Nat.le_refl 0
  | cons c clauses ih =>
    have ih := ih fun c hc => h c (List.mem_cons_of_mem _ hc)
    have hc := h c List.mem_cons_self
    have hrows : ((c :: clauses).flatMap Clause.rows).length =
        c.rows.length + (clauses.flatMap Clause.rows).length := by
      rw [List.flatMap_cons, List.length_append]
    rw [hrows]
    cases c with
    | relations rows =>
      simp only [List.filter_cons, List.filterMap_cons, Clause.isBound, Clause.declared?,
        Clause.definition?, Clause.block?, List.length_cons, Bool.false_eq_true, if_false]
      omega
    | _ =>
      simp only [List.filter_cons, List.filterMap_cons, Clause.isBound, Clause.declared?,
        Clause.definition?, Clause.block?, List.length_cons, Bool.false_eq_true, if_true, if_false,
        Clause.rows, List.length_nil]
      omega

/-- The model of clauses that add at most one row each has at most as many clauses. -/
theorem length_clauses_ofClauses_le {clauses : List Clause}
    (hbare : ∀ c ∈ clauses, ∀ r ∈ c.rows, r.bare = r)
    (h : ∀ c ∈ clauses, c.rows.length ≤ 1) :
    (ofClauses clauses).clauses.length ≤ clauses.length := by
  refine Nat.le_trans ?_ (length_kinds_le h)
  have hrows : (ofClauses clauses).table.rows.length = (clauses.flatMap Clause.rows).length :=
    List.length_map _
  have hblocks : (ofClauses clauses).blocks = clauses.filterMap Clause.block? := rfl
  have hdefinitions : (ofClauses clauses).algebra.definitions =
      clauses.filterMap Clause.definition? := by
    rw [ofClauses, Clause.foldl_define, Algebra.foldl_define, Clause.foldl_declare,
      (Algebra.fresh_empty.foldl_declare _).undefined, List.nil_append]
  have hparameters : (ofClauses clauses).algebra.parameters.length ≤
      (clauses.filterMap Clause.declared?).length := by
    have hcoherent := coherent_ofClauses hbare
    have hdeclared : (ofClauses clauses).algebra.parameters.map Parameter.name ⊆
        clauses.filterMap Clause.declared? := by
      intro name hname
      obtain ⟨p, hp, rfl⟩ := List.mem_map.1 hname
      exact List.mem_filterMap.2 ⟨_, (from_ofClauses hbare).declarations p hp, rfl⟩
    have hlength := hcoherent.nodup.length_le_of_subset hdeclared
    rwa [List.length_map] at hlength
  -- The bounds that are written differ from one another, and clauses have set them.
  have hbounds : ((ofClauses clauses).table.labels.flatMap
      (ofClauses clauses).table.boundClauses).length ≤ (clauses.filter Clause.isBound).length := by
    refine (Table.nodup_boundClauses _).length_le_of_subset fun c hc => ?_
    obtain ⟨label, -, hc⟩ := List.mem_flatMap.1 hc
    obtain ⟨r, side, value, hr, hvalue, rfl⟩ := Table.mem_boundClauses.1 hc
    refine List.mem_filter.2 ⟨?_, rfl⟩
    exact (from_ofClauses hbare).bounds r (List.mem_of_find?_eq_some hr) label
      (Relation.hasLabel_iff.1 (List.find?_some hr)) side value hvalue
  simp only [Model.clauses, List.length_append, List.length_map, hrows, hblocks, hdefinitions]
  omega

/-- If clauses that add at most one row each add as many rows as there are clauses, each of them
    adds one. -/
theorem eq_map_relations {clauses : List Clause} {rows : List Relation}
    (h : ∀ c ∈ clauses, c.rows.length ≤ 1) (hrows : clauses.flatMap Clause.rows = rows)
    (hlength : clauses.length = rows.length) :
    clauses = rows.map fun r => .relations [r] := by
  induction clauses generalizing rows with
  | nil =>
    obtain rfl : rows = [] := List.length_eq_zero_iff.1 hlength.symm
    rfl
  | cons c clauses ih =>
    have hrest := fun c hc => h c (List.mem_cons_of_mem _ hc)
    -- The other clauses add no more rows than there are of them, so the first one adds its own.
    have hle : (clauses.flatMap Clause.rows).length ≤ clauses.length := by
      have := length_kinds_le hrest
      omega
    rw [List.flatMap_cons] at hrows
    rw [← hrows, List.length_append, List.length_cons] at hlength
    have hc := h c List.mem_cons_self
    have hone : c.rows.length = 1 := by omega
    obtain ⟨r, hr⟩ := List.length_eq_one_iff.1 hone
    have hclause : c = .relations [r] := by
      cases c with
      | relations rows => rw [show rows = [r] from hr]
      | _ => cases hr
    rw [← hrows, hr, List.singleton_append, List.map_cons, ← hclause, ← ih hrest rfl (by omega)]

end Model

end StructuralModel
