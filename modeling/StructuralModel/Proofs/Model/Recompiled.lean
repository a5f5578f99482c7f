import StructuralModel.Proofs.Model.Identified
import StructuralModel.Proofs.Model.RoundTrip

/-!
# Models compiled again

The written form of a compiled model is compiled to the same model if nothing in it can be taken for
something else: names start as statements do, neither names nor labels hold spaces or marks, and the
source does not end open. The table that is read is complete and identified then, so that no row is
appended to it and no modifier is changed.

* `complete_compiled`: compiled tables are complete and identified;
* `Grounded.rereadable`, `Grounded.closed`: rows with such names are rereadable, and no line of the
  written form ends open;
* `exists_recompiled`: compiling the written form gives the model again, and the same written form.
-/

namespace StructuralModel

/-! ## Compiled tables -/

/-- Compiled tables are complete and identified. -/
theorem Table.complete_compiled (o : Options) (m : Model) :
    (m.compiled o).table.Complete o ∧ (m.compiled o).table.Identified o := by
  have hlatents := (Extends.complete o m.table).latents_eq
  have htable : (m.compiled o).table = ((m.table.complete o m.table.classify).identify o
      (m.table.complete o m.table.classify).latents).1 := by
    rw [hlatents]
    rfl
  rw [htable]
  exact ⟨(complete_complete o m.table).of_outline (Scales.identify o _ _).outline_eq,
    identified_identify o _⟩

namespace Model

variable {m : Model} {o : Options} {texts : List (List Char)}

/-- A model whose table is complete and identified is compiled as it is. -/
theorem table_compiled_eq (hcomplete : m.table.Complete o) (hidentified : m.table.Identified o) :
    (m.compiled o).table = m.table := by
  show ((m.table.complete o m.table.classify).identify o m.table.latents).1 = m.table
  rw [hcomplete.complete_eq, hidentified.identify_eq]

/-- The written form of a model does not depend on places and remarks. -/
theorem render_unplaced (m : Model) : m.unplaced.render = m.render := by
  refine String.toList_injective ?_
  rw [toList_render, toList_render, clauses_unplaced]
  rfl

/-! ## Plain names -/

/-- The sides of the rows of a grounded model are its variables, and intercepts on the right. -/
theorem Grounded.mem_variableNames (h : m.Grounded texts) {r : Relation} (hr : r ∈ m.table.rows) :
    r.lhs ∈ m.table.variableNames ∧ (r.rhs ∈ m.table.variableNames ∨ r.rhs = intercept) := by
  have hedge : r.op.isEdge = true := bne_iff_ne.2 (h.sound r hr).isEdge
  refine ⟨Table.mem_variableNames.2 ⟨⟨r, hr, hedge, .inl rfl⟩, h.ne_intercept r hr⟩, ?_⟩
  by_cases hne : r.rhs = intercept
  · exact .inr hne
  · exact .inl (Table.mem_variableNames.2 ⟨⟨r, hr, hedge, .inr ⟨rfl, hne⟩⟩, hne⟩)

/-- No mark is on the right side of a row. -/
theorem Grounded.not_mem_nameMarks (h : m.Grounded texts)
    (hmarks : ∀ name ∈ m.table.variableNames, ∀ c ∈ name.toList, c ≠ ' ' ∧ c ∉ nameMarks.toList)
    {r : Relation} (hr : r ∈ m.table.rows) : ∀ c ∈ r.rhs.toList, c ∉ nameMarks.toList := by
  rcases (h.mem_variableNames hr).2 with hmem | hone
  · exact fun c hc => (hmarks _ hmem c hc).2
  · intro c hc
    rw [hone] at hc
    obtain rfl := List.mem_singleton.1 hc
    decide

theorem head?_ne_of_isNumeral {cs : List Char} (h : Text.isNumeral cs = true) :
    cs.head? ≠ some '~' := by
  intro hhead
  cases cs with
  | nil => cases hhead
  | cons c rest =>
    obtain rfl := Option.some.inj hhead
    cases h

/-- If names start as statements do, and no mark is in a name or a label, rows are rereadable. -/
theorem Grounded.rereadable (h : m.Grounded texts)
    (hstart : ∀ name ∈ m.table.variableNames,
      ∃ c ∈ name.toList.head?, Statement.isStart c = true)
    (hmarks : ∀ name ∈ m.table.variableNames, ∀ c ∈ name.toList, c ≠ ' ' ∧ c ∉ nameMarks.toList)
    (hlabels : ∀ label ∈ m.table.labels, ∀ c ∈ label.toList, c ∉ nameMarks.toList)
    {r : Relation} (hr : r ∈ m.table.rows) : r.Rereadable := by
  obtain ⟨hlhs, -⟩ := h.mem_variableNames hr
  have hsound := h.sound r hr
  refine ⟨isName_iff.2 ⟨hsound.lhs.ne_nil, hmarks _ hlhs⟩, hstart _ hlhs, ?_⟩
  -- The term starts with the right side, or with the label or the value in front of it.
  rintro ⟨-, hhead⟩
  rw [Relation.term] at hhead
  cases hmod : r.modifier with
  | none =>
    rw [hmod] at hhead
    exact h.not_mem_nameMarks hmarks hr '~' (List.mem_of_mem_head? hhead) (by decide)
  | some modifier =>
    obtain ⟨hpart, hread⟩ := hsound.modifier modifier hmod
    have hhead : modifier.text.toList.head? = some '~' := by
      rw [hmod, List.append_assoc] at hhead
      cases htext : modifier.text.toList with
      | nil => exact absurd htext hpart.ne_nil
      | cons c rest =>
        simp only [htext] at hhead
        exact hhead
    cases modifier with
    | label label =>
      have hlabel : label ∈ m.table.labels :=
        Table.mem_labels.2 ⟨r, hr, by rw [Relation.label?, hmod]; rfl⟩
      exact hlabels label hlabel '~' (List.mem_of_mem_head? hhead) (by decide)
    | fixed value =>
      rw [Modifier.ofPiece] at hread
      split at hread
      case isTrue hnumeral => exact head?_ne_of_isNumeral hnumeral hhead
      case isFalse => cases hread

/-- If no mark is in a name, and no statement of the source ends open, no line does. -/
theorem Grounded.closed (h : m.Grounded texts)
    (hmarks : ∀ name ∈ m.table.variableNames, ∀ c ∈ name.toList, c ≠ ' ' ∧ c ∉ nameMarks.toList)
    (htexts : ∀ text ∈ texts, endsOpen text = false) {c : Clause} (hc : c ∈ m.clauses) :
    endsOpen c.text = false := by
  cases hrel : c.isRelations with
  | false => exact htexts _ (h.others c hc hrel).2
  | true =>
    obtain ⟨r, hr, rfl⟩ := exists_row_of_isRelations hc hrel
    have hne := (h.sound r hr).rhs.ne_nil
    rw [Clause.text_row, Relation.text, Relation.term, ← List.append_assoc, endsOpen_append _ hne]
    have hnot {x : Char} (hx : x ∈ nameMarks.toList) : x ∉ r.rhs.toList := fun hmem =>
      h.not_mem_nameMarks hmarks hr x hmem hx
    exact endsOpen_eq_false ⟨hnot (by decide), hnot (by decide), hnot (by decide),
      hnot (by decide), hnot (by decide)⟩

end Model

/-! ## Compiling again -/

/-- No statement of a text ends open if its last one does not. -/
theorem closed_of_ofSource {start : Nat} {cs : List Char} {statements : List Statement}
    (h : Statement.ofSource start cs = .ok statements)
    (hlast : ∀ s ∈ statements.getLast?, endsOpen s.text = false) :
    ∀ s ∈ statements, endsOpen s.text = false := by
  intro s hs
  have hne : statements ≠ [] := List.ne_nil_of_mem hs
  rw [← List.dropLast_concat_getLast hne, List.mem_append, List.mem_singleton] at hs
  rcases hs with hs | rfl
  · exact (compact_of_ofSource h).2 s hs
  · exact hlast _ (List.getLast?_eq_some_getLast hne)

/-- If the variables of a compiled model start with a letter, `_` or `{`, its variables and labels
    hold neither spaces nor marks, and the last statement of its source does not end open, then
    its written form is compiled with the same options: no row is appended to the table that is
    read, no modifier is changed, and the result is the model again, places and remarks aside, with
    the same written form. -/
theorem CompiledModel.exists_recompiled {o : Options} {source : String} {m : CompiledModel}
    (h : compile o source = .ok m)
    (hstart : ∀ name ∈ m.table.variableNames, ∃ c ∈ name.toList.head?,
      Text.isLetter c = true ∨ c = '_' ∨ c = '{')
    (hmarks : ∀ name ∈ m.table.variableNames ++ m.table.labels, ∀ c ∈ name.toList,
      c ∉ [' ', '!', '+', '*', '=', '~', ':'])
    (hlast : ∀ statements, Statement.ofSource (Heading.ofSource source.toList).offset
        (Heading.ofSource source.toList).body = .ok statements →
      ∀ s ∈ statements.getLast?, endsOpen s.text = false) :
    ∃ p m', Model.parse m.render = .ok p ∧ compile o m.render = .ok m' ∧ m'.table = p.table ∧
      m'.toModel.unplaced = m.toModel.unplaced ∧ m'.render = m.render := by
  obtain ⟨statements, hs, hgrounded⟩ := exists_grounded h
  have hnames : ∀ name ∈ m.table.variableNames ++ m.table.labels, ∀ c ∈ name.toList,
      c ≠ ' ' ∧ c ∉ nameMarks.toList := by
    intro name hname c hc
    have hnot := hmarks name hname c hc
    exact ⟨List.ne_of_not_mem_cons hnot, List.not_mem_of_not_mem_cons hnot⟩
  have hvariables := fun name hname => hnames name (List.mem_append_left _ hname)
  have hlabels := fun label hlabel => hnames label (List.mem_append_right _ hlabel)
  -- A statement may start with `!` too, but no name does.
  have hstarts : ∀ name ∈ m.table.variableNames,
      ∃ c ∈ name.toList.head?, Statement.isStart c = true := by
    intro name hname
    obtain ⟨c, hc, hstart⟩ := hstart name hname
    refine ⟨c, hc, ?_⟩
    rw [Statement.isStart]
    rcases hstart with h | rfl | rfl
    · rw [h]
      rfl
    · simp
    · simp
  have htexts : ∀ text ∈ statements.map Statement.text, endsOpen text = false := by
    intro text htext
    obtain ⟨s, hsmem, rfl⟩ := List.mem_map.1 htext
    exact closed_of_ofSource hs (hlast _ hs) s hsmem
  obtain ⟨p, hp, heq⟩ := hgrounded.exists_parse_render
    (fun r hr => hgrounded.rereadable hstarts hvariables
      (fun label hlabel c hc => (hlabels label hlabel c hc).2) hr)
    fun c hc => hgrounded.closed hvariables htexts (List.dropLast_subset _ hc)
  -- What is read is complete and identified, since the compiled table is.
  have hunplaced : p.table.unplaced = m.table.unplaced := congrArg Model.table heq
  have hcompiled : m.table.Complete o ∧ m.table.Identified o := by
    obtain ⟨q, -, rfl⟩ := compile_eq_ok_iff.1 h
    exact Table.complete_compiled o q
  have houtline : p.table.outline = m.table.outline := by
    rw [← Table.outline_unplaced, hunplaced, Table.outline_unplaced]
  have htable : (p.compiled o).table = p.table :=
    Model.table_compiled_eq (hcompiled.1.of_outline houtline) (hcompiled.2.of_unplaced hunplaced)
  have hsame : (p.compiled o).toModel.unplaced = m.toModel.unplaced := by
    rw [← heq, Model.unplaced, htable]
    rfl
  refine ⟨p, p.compiled o, hp, compile_eq_ok_iff.2 ⟨p, hp, rfl⟩, htable, hsame, ?_⟩
  rw [← Model.render_unplaced, hsame, Model.render_unplaced]

/-- A model with a bounded loading is compiled again. -/
theorem CompiledModel.recompiled_loadings : ∃ m, compile {} "f =~ x + a*y; a < 2" = .ok m ∧
    ∃ p m', Model.parse m.render = .ok p ∧ compile {} m.render = .ok m' ∧ m'.table = p.table ∧
      m'.toModel.unplaced = m.toModel.unplaced ∧ m'.render = m.render := by
  obtain ⟨m, hm⟩ : ∃ m, (compile {} "f =~ x + a*y; a < 2").toOption = some m :=
    Option.isSome_iff_exists.1 (by decide +kernel)
  have hnames : (compile {} "f =~ x + a*y; a < 2").toOption.map (fun m =>
      (m.table.variableNames, m.table.labels)) = some (["f", "x", "y"], ["a"]) := by
    decide +kernel
  rw [hm, Option.map_some, Option.some.injEq, Prod.mk.injEq] at hnames
  have hopen : (Statement.ofSource (Heading.ofSource "f =~ x + a*y; a < 2".toList).offset
      (Heading.ofSource "f =~ x + a*y; a < 2".toList).body).toOption.all (fun statements =>
        statements.getLast?.all fun s => !endsOpen s.text) = true := by
    decide +kernel
  have h := eq_ok_of_toOption hm
  refine ⟨m, h, exists_recompiled h (fun name hname => ?_) ?_ fun statements hs s hlast => ?_⟩
  · rw [hnames.1] at hname
    simp only [List.mem_cons, List.not_mem_nil, or_false] at hname
    rcases hname with rfl | rfl | rfl
    · exact ⟨'f', rfl, .inl (by decide +kernel)⟩
    · exact ⟨'x', rfl, .inl (by decide +kernel)⟩
    · exact ⟨'y', rfl, .inl (by decide +kernel)⟩
  · have hmarks : (["f", "x", "y"] ++ ["a"]).all (fun name => name.toList.all fun c =>
        decide (c ∉ [' ', '!', '+', '*', '=', '~', ':'])) = true := by decide
    rw [hnames.1, hnames.2]
    intro name hname c hc
    exact of_decide_eq_true (List.all_eq_true.1 (List.all_eq_true.1 hmarks name hname) c hc)
  · rw [hs] at hopen
    have hclosed := (Option.all_eq_true _ _).1 hopen statements rfl
    simpa using (Option.all_eq_true _ _).1 hclosed s hlast

end StructuralModel
