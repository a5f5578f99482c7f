import StructuralModel.Proofs.Model.Identified
import StructuralModel.Proofs.Model.RoundTrip

/-!
# Classes of the variables of a compiled table

The variables of a model are classed by the table that was read, before a row is appended to it, and
every step of compilation is given these classes. They are those of the table that comes out as
well: an appended row is no loading, names no new variable and predicts nothing, and fixing a
parameter does not touch the sides of a row. Only the order of the manifest variables can change, as
a variable that stood on right sides only may be the left side of an appended row.

* `Extends.latents_eq`, `Extends.perm_manifests`: completion keeps the classes;
* `Extends.isExogenous_eq`: completion keeps what nothing predicts;
* `Scales.classify_eq`, `Scales.isExogenous_eq`: identification keeps both.
-/

namespace StructuralModel

namespace Table

variable {t t' : Table} {name : String}

/-! ## Completion -/

/-- A row that completes a table predicts nothing. -/
theorem Added.predicts_eq_false {r : Relation} (h : t.Added r) (name : String) :
    r.predicts name = false := by
  cases h with
  | variance => rfl
  | intercept => rw [Relation.predicts, bne_self_eq_false, Bool.and_false]
  | covariance => rfl

/-- Completion keeps what nothing predicts. -/
theorem Extends.isExogenous_eq (h : t.Extends t') (name : String) :
    t'.isExogenous name = t.isExogenous name := by
  obtain ⟨added, hadded, hall⟩ := h
  have hnone : added.any (Relation.predicts name) = false :=
    List.any_eq_false.2 fun r hr => Bool.eq_false_iff.1 ((hall r hr).predicts_eq_false name)
  rw [isExogenous, isExogenous, hadded, List.any_append, hnone, Bool.or_false]

/-- What a table mentions, a longer table mentions. -/
theorem Mentions.mono (h : t.Mentions name) (hrows : t.rows <+: t'.rows) : t'.Mentions name := by
  obtain ⟨r, hr, hside⟩ := h
  exact ⟨r, hrows.subset hr, hside⟩

/-- Completion keeps the variables. -/
theorem Extends.mem_variableNames_iff (h : t.Extends t') :
    name ∈ t'.variableNames ↔ name ∈ t.variableNames := by
  refine ⟨h.mem_variableNames, fun hname => ?_⟩
  obtain ⟨hmentions, hne⟩ := Table.mem_variableNames.1 hname
  exact Table.mem_variableNames.2 ⟨hmentions.mono h.prefix_rows, hne⟩

/-- Completion keeps the manifest variables, but perhaps not their order. -/
theorem Extends.perm_manifests (h : t.Extends t') :
    t'.classify.manifests.Perm t.classify.manifests := by
  refine (List.perm_ext_iff_of_nodup t'.nodup_manifests t.nodup_manifests).2 fun name => ?_
  rw [classify, classify, List.mem_filter, List.mem_filter, h.mem_variableNames_iff, h.latents_eq]

/-! ## Identification -/

theorem Scales.classify_eq (h : t.Scales t') : t'.classify = t.classify := by
  rw [← classify_outline, h.outline_eq, classify_outline]

theorem Scales.isExogenous_eq (h : t.Scales t') : t'.isExogenous = t.isExogenous := by
  rw [← isExogenous_outline, h.outline_eq, isExogenous_outline]

end Table

/-! ## Compiled models -/

/-- The classes of the variables of a compiled model are those of the table that was read, and its
    own table has the same latent variables in the same order and the same manifest variables. A
    name is predicted by the one table just when it is predicted by the other one. -/
theorem classes_compile {o : Options} {source : String} {m : CompiledModel}
    (h : compile o source = .ok m) :
    m.table.classify.latents = m.classes.latents ∧
      m.table.classify.manifests.Perm m.classes.manifests ∧
      ∃ p, Model.parse source = .ok p ∧ m.classes = p.table.classify ∧
        ∀ name, m.table.isExogenous name = p.table.isExogenous name := by
  obtain ⟨p, hp, rfl⟩ := compile_eq_ok_iff.1 h
  have hextends := Table.Extends.complete o p.table
  have hscales := Table.Scales.identify o p.table.latents (p.table.complete o p.table.classify)
  have hclassify : (p.compiled o).table.classify =
      (p.table.complete o p.table.classify).classify := hscales.classify_eq
  refine ⟨?_, ?_, p, hp, rfl, fun name => ?_⟩
  · rw [hclassify]
    exact hextends.latents_eq
  · rw [hclassify]
    exact hextends.perm_manifests
  · exact (congrFun hscales.isExogenous_eq name).trans (hextends.isExogenous_eq name)

/-- Here `x` comes behind `a` in the table that was read, and is the left side of a covariance in
    the table that comes out. -/
theorem classes_compile_reordered :
    ∃ m, compile { addVariances := false, addIntercepts := false } "f =~ x; y ~ a + b" = .ok m ∧
      m.classes.manifests = ["y", "x", "a", "b"] ∧
      m.table.classify.manifests = ["y", "a", "x", "b"] ∧
      m.table.classify.latents = m.classes.latents ∧
      m.table.classify.manifests.Perm m.classes.manifests ∧
      ∃ p, Model.parse "f =~ x; y ~ a + b" = .ok p ∧ m.classes = p.table.classify ∧
        ∀ name, m.table.isExogenous name = p.table.isExogenous name := by
  obtain ⟨m, hm, hparsed, hcompiled⟩ :
      ∃ m, (compile { addVariances := false, addIntercepts := false }
          "f =~ x; y ~ a + b").toOption = some m ∧
        m.classes.manifests = ["y", "x", "a", "b"] ∧
        m.table.classify.manifests = ["y", "a", "x", "b"] := by
    refine ⟨_, Option.eq_some_of_isSome (by decide +kernel), ?_, ?_⟩
    · decide +kernel
    · decide +kernel
  have hcompile := CompiledModel.eq_ok_of_toOption hm
  exact ⟨m, hcompile, hparsed, hcompiled, classes_compile hcompile⟩

end StructuralModel
