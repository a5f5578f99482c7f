import StructuralModel.Proofs.Model.RoundTrip

/-!
# Shared parameters

Rows with one label share one parameter (`Table.Shares`): they have the same bounds, and are free or
computed together, while a row without label has a parameter of its own, which is free and without
bounds. Nothing in the type of tables says so, but every table that is compiled is like this. That
is why a model can be written with the bounds of a label once, as those of the first row that has
it.

* `shares_compile`: rows of compiled tables share their parameters, and the lines that bound a label
  in the written form are the bounds of all its rows.
-/

namespace StructuralModel

/-- Rows with one label share one parameter, and other parameters are free and without bounds. -/
structure Table.Shares (t : Table) : Prop where
  lower_eq : ∀ r ∈ t.rows, ∀ s ∈ t.rows, ∀ label, r.label? = some label → s.label? = some label →
    r.lower = s.lower
  upper_eq : ∀ r ∈ t.rows, ∀ s ∈ t.rows, ∀ label, r.label? = some label → s.label? = some label →
    r.upper = s.upper
  free_eq : ∀ r ∈ t.rows, ∀ s ∈ t.rows, ∀ label, r.label? = some label → s.label? = some label →
    r.free = s.free
  unlabelled : ∀ r ∈ t.rows, r.label? = none → r.lower = none ∧ r.upper = none ∧ r.free = true

namespace Model

variable {m : Model}

/-- In a coherent model parameters are shared. -/
theorem Coherent.shares (h : m.Coherent) : m.table.Shares := by
  -- Whether a row is computed depends on its label only.
  have hfree {r s : Relation} (hr : r ∈ m.table.rows) (hs : s ∈ m.table.rows)
      (hlabel : r.label? = s.label?) : r.free = s.free := by
    rw [h.free r hr, h.free s hs]
    simp only [Relation.hasLabel, hlabel]
  refine ⟨fun r hr s hs label hlabel hlabel' => ?_, fun r hr s hs label hlabel hlabel' => ?_,
    fun r hr s hs label hlabel hlabel' => ?_, fun r hr hlabel => ?_⟩
  · exact h.bounds_eq r hr s hs (hlabel.trans hlabel'.symm) .lower
  · exact h.bounds_eq r hr s hs (hlabel.trans hlabel'.symm) .upper
  · exact hfree hr hs (hlabel.trans hlabel'.symm)
  · refine ⟨h.unbounded r hr hlabel .lower, h.unbounded r hr hlabel .upper, ?_⟩
    rw [h.free r hr]
    simp [Relation.hasLabel, hlabel]

/-- The bounds among the clauses of a coherent model are those of its rows with labels. -/
theorem Coherent.bound_mem_clauses_iff (h : m.Coherent) {label value : String} {side : Bound} :
    Clause.bound label side value ∈ m.clauses ↔
      ∃ r ∈ m.table.rows, r.label? = some label ∧ r.bound? side = some value := by
  rw [bound_mem_clauses]
  constructor
  · rintro ⟨r, hfind, hvalue⟩
    exact ⟨r, List.mem_of_find?_eq_some hfind,
      Relation.hasLabel_iff.1 (List.find?_some hfind), hvalue⟩
  · rintro ⟨r, hr, hlabel, hvalue⟩
    obtain ⟨first, hfind, hbound⟩ := h.exists_first hr hlabel side
    exact ⟨first, hfind, hbound.trans hvalue⟩

/-- No bound is written twice. -/
theorem nodup_isBound (m : Model) : (m.clauses.filter Clause.isBound).Nodup := by
  have hfilter : m.clauses.filter Clause.isBound = m.table.labels.flatMap m.table.boundClauses := by
    have hbound : ∀ c ∈ m.table.labels.flatMap m.table.boundClauses, c.isBound = true := by
      intro c hc
      obtain ⟨label, -, hc⟩ := List.mem_flatMap.1 hc
      obtain ⟨r, side, value, -, -, rfl⟩ := Table.mem_boundClauses.1 hc
      rfl
    simp only [clauses, List.filter_append, List.filter_map, List.filter_eq_self.2 hbound]
    simp [Function.comp_def, Clause.isBound]
  rw [hfilter]
  exact m.table.nodup_boundClauses

end Model

/-- Rows of a compiled table share their parameters. The written form of the model is its heading
    and the lines of its clauses, and the bounds among them are, each once, those of all rows with
    labels, though only the first row with each label is asked for them. -/
theorem shares_compile {o : Options} {source : String} {m : CompiledModel}
    (h : compile o source = .ok m) :
    m.table.Shares ∧
      m.render.toList = m.headingLine ++ breakLines (m.clauses.map Clause.line) ∧
      (m.clauses.filter Clause.isBound).Nodup ∧
      ∀ label side value, Clause.bound label side value ∈ m.clauses ↔
        ∃ r ∈ m.table.rows, r.label? = some label ∧ r.bound? side = some value := by
  obtain ⟨statements, -, hgrounded⟩ := exists_grounded h
  have hcoherent := hgrounded.coherent
  exact ⟨hcoherent.shares, m.toList_render, m.nodup_isBound,
    fun _ _ _ => hcoherent.bound_mem_clauses_iff⟩

/-- A model with a bound on a label of two rows, and with a parameter that is computed from it. -/
theorem shares_compile_labels :
    ∃ m, compile {} "a > .2; f =~ a*x + a*y + c*z; b := 2*a; c < 1; g =~ b*x + w" = .ok m ∧
      m.table.Shares ∧
      m.render.toList = m.headingLine ++ breakLines (m.clauses.map Clause.line) ∧
      (m.clauses.filter Clause.isBound).Nodup ∧
      ∀ label side value, Clause.bound label side value ∈ m.clauses ↔
        ∃ r ∈ m.table.rows, r.label? = some label ∧ r.bound? side = some value := by
  obtain ⟨m, hm⟩ : ∃ m, (compile {}
      "a > .2; f =~ a*x + a*y + c*z; b := 2*a; c < 1; g =~ b*x + w").toOption = some m :=
    Option.isSome_iff_exists.1 (by decide +kernel)
  have h := CompiledModel.eq_ok_of_toOption hm
  exact ⟨m, h, shares_compile h⟩

end StructuralModel
