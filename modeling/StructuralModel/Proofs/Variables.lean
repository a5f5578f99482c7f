import Mathlib.Data.List.Sort
import StructuralModel.Proofs.Model.Complete

/-!
# Order of variables

The variables of a table are listed in the order in which they appear on its *sides*: first along
the left sides of its relations, then along the right sides (`Table.sides`). The two classes part
them (`Variables.Parts`), and the manifest variables are listed in the same order.

The latent variables need not be. They are listed in the order of their first loadings, and a
variable may be the left side of another relation before it is that of a loading. The order is the
same just if the variables that have loadings come first on the left sides of relations in the order
in which they come first on those of loadings (`Table.LoadedInOrder`).

* `pairwise_variableNames`: the variables are in order of first appearance;
* `latents_sublist_iff`: when the latent variables are listed in the order of all variables;
* `parts_classify`: the classes of the variables of a table;
* `not_latents_sublist`: a table with its latent variables in another order.
-/

namespace StructuralModel

namespace Table

variable {t : Table}

/-- The left sides of the relations of variables, and behind them the right sides. -/
def sides (t : Table) : List String :=
  t.edges.map Relation.lhs ++ t.edges.map Relation.rhs

/-- The left sides of the loadings. -/
def loaded (t : Table) : List String :=
  (t.rows.filter fun r => r.op == .loading).map Relation.lhs

/-- Of two latent variables, the one that comes first on the left sides of loadings comes first on
    the sides of relations. -/
def LoadedInOrder (t : Table) : Prop :=
  ∀ a ∈ t.latents, ∀ b ∈ t.latents, t.loaded.idxOf a < t.loaded.idxOf b →
    t.sides.idxOf a < t.sides.idxOf b

theorem mem_latents {name : String} :
    name ∈ t.latents ↔ ∃ r ∈ t.rows, r.isLoadingOf name = true := by
  rw [latents, List.mem_eraseDups, List.mem_map]
  constructor
  · rintro ⟨r, hr, rfl⟩
    obtain ⟨hr, hop⟩ := List.mem_filter.1 hr
    exact ⟨r, hr, by rw [Relation.isLoadingOf, hop, beq_self_eq_true, Bool.and_self]⟩
  · rintro ⟨r, hr, hloading⟩
    rw [Relation.isLoadingOf, Bool.and_eq_true, beq_iff_eq (a := r.lhs)] at hloading
    exact ⟨r, List.mem_filter.2 ⟨hr, hloading.1⟩, hloading.2⟩

/-- The variables are listed in the order in which they appear on the sides of relations. -/
theorem pairwise_variableNames (t : Table) :
    t.variableNames.Pairwise fun a b => t.sides.idxOf a < t.sides.idxOf b := by
  refine (pairwise_idxOf_eraseDups _).imp_of_mem fun {a b} ha hb hlt => ?_
  -- The mark of an intercept is left out.
  have hkept {name : String} (h : name ∈ t.variableNames) : (name != intercept) = true :=
    (List.mem_filter.1 (List.mem_eraseDups.1 h)).2
  exact (idxOf_filter_lt_iff (p := (· != intercept)) t.sides (hkept ha) (hkept hb)).1 hlt

/-- The latent variables are listed in the order in which they appear in loadings. -/
theorem pairwise_latents (t : Table) :
    t.latents.Pairwise fun a b => t.loaded.idxOf a < t.loaded.idxOf b :=
  pairwise_idxOf_eraseDups t.loaded

/-- The latent variables are listed in the order of all variables iff they come first in loadings in
    the order in which they come first in relations. -/
theorem latents_sublist_iff (h : ∀ r ∈ t.rows, r.op = .loading → r.lhs ≠ intercept) :
    t.latents.Sublist t.variableNames ↔ t.LoadedInOrder := by
  constructor
  · intro hsublist a ha b hb
    have hsides := t.pairwise_variableNames.sublist hsublist
    -- Both orders are those of the places in one list.
    obtain ⟨i, hi, rfl⟩ := List.getElem_of_mem ha
    obtain ⟨j, hj, rfl⟩ := List.getElem_of_mem hb
    intro hlt
    rcases Nat.lt_trichotomy i j with hij | rfl | hji
    · exact List.pairwise_iff_getElem.1 hsides i j hi hj hij
    · exact absurd hlt (Nat.lt_irrefl _)
    · exact absurd (List.pairwise_iff_getElem.1 t.pairwise_latents j i hj hi hji)
        (Nat.lt_asymm hlt)
  · intro hordered
    have hsides : t.latents.Pairwise fun a b => t.sides.idxOf a < t.sides.idxOf b :=
      t.pairwise_latents.imp_of_mem fun {a b} ha hb hlt => hordered a ha b hb hlt
    have hsubset : t.latents ⊆ t.variableNames := by
      intro name hname
      obtain ⟨r, hr, hloading⟩ := mem_latents.1 hname
      rw [Relation.isLoadingOf, Bool.and_eq_true, beq_iff_eq, beq_iff_eq] at hloading
      refine mem_variableNames.2 ⟨mentions_of_mem_latents hname, ?_⟩
      exact hloading.2 ▸ h r hr hloading.1
    have : Std.Antisymm fun a b => t.sides.idxOf a < t.sides.idxOf b :=
      ⟨fun _ _ hab hba => absurd hba (Nat.lt_asymm hab)⟩
    exact List.sublist_of_subperm_of_pairwise
      (List.subperm_of_subset t.nodup_latents hsubset) hsides t.pairwise_variableNames

end Table

/-- The variables of a table are parted into two classes. -/
structure Variables.Parts (v : Variables) (t : Table) : Prop where
  /-- A variable is latent iff it is the left side of a loading. -/
  mem_latents : ∀ name, name ∈ v.latents ↔ ∃ r ∈ t.rows, r.isLoadingOf name = true
  /-- All other names on the sides of relations are manifest, but not the mark of an intercept. -/
  mem_manifests : ∀ name, name ∈ v.manifests ↔ name ≠ intercept ∧ name ∉ v.latents ∧
    ∃ r ∈ t.rows, r.op.isEdge = true ∧ (r.lhs = name ∨ r.rhs = name)
  /-- No variable is in both classes. -/
  disjoint : ∀ name ∈ v.latents, name ∉ v.manifests
  /-- The variables are those of the two classes. -/
  mem_variableNames : ∀ name, name ∈ t.variableNames ↔ name ∈ v.latents ∨ name ∈ v.manifests
  /-- They are listed in the order in which they appear on the sides of relations. -/
  ordered : t.variableNames.Pairwise fun a b => t.sides.idxOf a < t.sides.idxOf b
  /-- The manifest ones are listed in this order. -/
  manifests_sublist : v.manifests.Sublist t.variableNames

namespace Table

variable {t : Table}

/-- The classes of the variables of a table part them. The manifest ones are listed in the order of
    all variables, and the latent ones are just if they are loaded in this order. -/
theorem parts_classify (h : ∀ r ∈ t.rows, r.op = .loading → r.lhs ≠ intercept) :
    t.classify.Parts t ∧ (t.classify.latents.Sublist t.variableNames ↔ t.LoadedInOrder) := by
  have hnot {name : String} : (!t.latents.contains name) = true ↔ name ∉ t.latents := by
    rw [Bool.not_eq_true', ← Bool.not_eq_true, List.contains_iff_mem]
  have hmentions {name : String} (hne : name ≠ intercept) : t.Mentions name ↔
      ∃ r ∈ t.rows, r.op.isEdge = true ∧ (r.lhs = name ∨ r.rhs = name) := by
    simp only [Mentions, hne, ne_eq, not_false_eq_true, and_true]
  refine ⟨⟨fun name => mem_latents, fun name => ?_, fun name => not_mem_manifests, fun name => ?_,
    t.pairwise_variableNames, List.filter_sublist⟩, latents_sublist_iff h⟩
  · rw [classify, List.mem_filter, hnot, Table.mem_variableNames]
    constructor
    · rintro ⟨⟨hname, hne⟩, hlatent⟩
      exact ⟨hne, hlatent, (hmentions hne).1 hname⟩
    · rintro ⟨hne, hlatent, hname⟩
      exact ⟨⟨(hmentions hne).2 hname, hne⟩, hlatent⟩
  · rw [classify, List.mem_filter, hnot]
    by_cases hlatent : name ∈ t.latents
    · -- A latent variable is the left side of a loading, which is no intercept.
      obtain ⟨r, hr, hloading⟩ := mem_latents.1 hlatent
      rw [Relation.isLoadingOf, Bool.and_eq_true, beq_iff_eq, beq_iff_eq] at hloading
      have hne : name ≠ intercept := hloading.2 ▸ h r hr hloading.1
      exact iff_of_true (Table.mem_variableNames.2 ⟨mentions_of_mem_latents hlatent, hne⟩)
        (.inl hlatent)
    · simp [hlatent]

/-- Two latent variables, one of which is regressed on the other one. -/
def regressedFactors : Table :=
  ⟨[{ lhs := "f", op := .loading, rhs := "x" }, { lhs := "g", op := .loading, rhs := "y" },
    { lhs := "g", op := .regression, rhs := "f" }]⟩

/-- If the regression is the last row, the latent variables are loaded in order. -/
theorem parts_classify_regressedFactors :
    (∀ r ∈ regressedFactors.rows, r.op = .loading → r.lhs ≠ intercept) ∧
      regressedFactors.classify.Parts regressedFactors ∧
      regressedFactors.LoadedInOrder ∧
      regressedFactors.classify.latents.Sublist regressedFactors.variableNames := by
  have h : ∀ r ∈ regressedFactors.rows, r.op = .loading → r.lhs ≠ intercept := by decide
  have hordered : regressedFactors.LoadedInOrder := by
    unfold LoadedInOrder
    decide +kernel
  obtain ⟨hparts, hiff⟩ := parts_classify h
  exact ⟨h, hparts, hordered, hiff.2 hordered⟩

/-- If `g` is the left side of a regression before it has a loading, it may be the first variable
    and the second latent one. -/
theorem not_latents_sublist : ¬∀ t : Table, (∀ r ∈ t.rows, r.op = .loading → r.lhs ≠ intercept) →
    t.classify.Parts t ∧ t.classify.latents.Sublist t.variableNames := by
  intro h
  have hsublist := (h ⟨[{ lhs := "g", op := .regression, rhs := "f" },
    { lhs := "f", op := .loading, rhs := "x" }, { lhs := "g", op := .loading, rhs := "y" }]⟩
    (by decide)).2
  exact absurd hsublist (by decide +kernel)

end Table

end StructuralModel
