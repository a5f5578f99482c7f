import StructuralModel.Proofs.Model.RoundTrip

/-!
# Sums written apart

A relation whose right side is a sum stands for one relation for each of its terms, and it may as
well be written as these relations, one a line (`writtenApart`). Each term comes to stand behind the
operator then, where another operator may arise. Within a term there is none that wins, or it would
have been found in the sum; and an operator and a term make a new one only if a term that starts
with `~` stands behind the `~` of a regression. The first term stood there in the sum already.

* `exists_rows_of_sum`: the rows of a sum are its terms, each with the left side and the operator;
* `parse_spread_iff`: lines of rows are read as these rows iff each line alone is;
* `parse_writtenApart_iff`: so a sum means the same as its terms written apart iff it is no
  regression of which a term after the first one starts with `~`.
-/

namespace StructuralModel

open Text (splitAll)

/-- A sum written apart: for each term a line with the left side, the operator and the term, and
    `gap` on both sides of the operator. -/
def writtenApart (gap lhs : List Char) (op : Operator) (terms : List (List Char)) : List Char :=
  breakLines (terms.map fun term => lhs ++ (gap ++ (op.symbol.toList ++ (gap ++ term))))

/-! ## The rows of a sum -/

namespace Relation

/-- The rows of terms have these terms. -/
theorem map_term_of_map_ofTerm? {lhs : String} {op : Operator} {terms : List (List Char)}
    {rows : List Relation} (h : terms.map (Relation.ofTerm? lhs op) = rows.map some) :
    rows.map term = terms := by
  induction terms generalizing rows with
  | nil =>
    rw [List.map_eq_nil_iff.1 h.symm]
    rfl
  | cons cs terms ih =>
    cases rows with
    | nil => cases h
    | cons r rows =>
      obtain ⟨hrow, hrows⟩ := List.cons.inj h
      obtain ⟨-, -, -, hterm, -⟩ := of_ofTerm? hrow
      rw [List.map_cons, hterm, ih hrows]

/-- The first term of a sum stands right behind its operator already, so it does not make another
    one with it. -/
theorem not_tilde_of_splitAll {cs term : List Char} {terms : List (List Char)} {lhs rhs : Piece}
    (h : Form.ofPiece? ⟨0, cs⟩ = some (.relation .regression lhs rhs)) (hb : Text.Balanced cs)
    (hterms : splitAll ['+'] rhs.chars = term :: terms) : term.head? ≠ some '~' := by
  intro hhead
  obtain ⟨hcs, hlhs, -⟩ := Form.parts_of_relation h hb
  obtain ⟨rest, hrest⟩ : ∃ rest, rhs.chars = '~' :: rest := by
    obtain ⟨more, hmore⟩ := Text.prefix_of_splitAll hterms
    cases term with
    | nil => cases hhead
    | cons c term =>
      obtain rfl := Option.some.inj hhead
      exact ⟨term ++ more, hmore.symm⟩
  cases Form.ofPiece?_eq_some_iff.1 h with
  | relation _ _ _ hbefore =>
    have hnone := (Text.splitOnce_eq_none_iff (List.cons_ne_nil '~' ['~'])).1
      (hbefore .covariance (by decide))
    refine hnone lhs.chars rest ?_ hlhs.depth_eq
    rw [hrest] at hcs
    rw [hcs, List.append_assoc, List.append_assoc]
    rfl

/-- A row that was read is read from its own text unless a `~` at the start of its term makes
    another operator with the one of a regression. -/
theorem Read.ofText?_text_iff {r : Relation} (h : r.Read) :
    Clause.ofText? r.text = some (.relations [r]) ↔
      ¬(r.op = .regression ∧ r.term.head? = some '~') := by
  have hiff := h.toSound.ofText?_text_iff
  rw [h.bare, and_iff_right h.isName, and_iff_right h.start] at hiff
  exact hiff.trans (h.clear.splitOnce_symbol_term_iff h.isEdge)

end Relation

/-- The rows of a source that is one relation are the terms of its right side, each one with the
    left side and the operator. -/
theorem exists_rows_of_sum {source : String} {m : Model} {s : Statement} {op : Operator}
    {lhs rhs : Piece} (hm : Model.parse source = .ok m)
    (hs : Statement.ofSource (Heading.ofSource source.toList).offset
      (Heading.ofSource source.toList).body = .ok [s])
    (hform : s.form? = some (.relation op lhs rhs)) :
    ∃ rows, m.table.rows.map Relation.bare = rows ∧ rows ≠ [] ∧
      (∀ r ∈ rows, r.Read ∧ r.lhs.toList = lhs.chars ∧ r.op = op) ∧
      rows.map Relation.term = splitAll ['+'] rhs.chars := by
  obtain ⟨statements, clauses, hs', -, hclauses, -, hunplaced⟩ :=
    Model.parse_eq_ok_iff.1 ⟨m, hm, rfl⟩
  obtain rfl : [s] = statements := Except.ok.inj (hs.symm.trans hs')
  have hb : Text.Balanced s.text :=
    ((compact_of_ofSource hs).1 s (List.mem_singleton_self s)).2.balanced
  -- The one statement makes one clause, and that adds the rows of its terms.
  obtain ⟨c, rfl⟩ : ∃ c, clauses = [c] := by
    have hlength := congrArg List.length hclauses
    rw [List.length_map, List.length_map] at hlength
    exact List.length_eq_one_iff.1 hlength.symm
  have hclause : Clause.ofText? s.text = some c := (List.cons.inj hclauses).1
  obtain ⟨-, form, hform', hsays⟩ := Clause.ofText?_eq_some_iff.1 hclause
  obtain rfl : form = .relation op lhs rhs := Option.some.inj (hform'.symm.trans hform)
  cases hsays with
  | @relation _ _ _ rows hname hrows =>
    have hread := Relation.read_of_ofText? hclause hb
    refine ⟨rows, ?_, Relation.rows_ne_nil_of_ofText? hclause, fun r hr => ⟨hread r hr, ?_⟩,
      Relation.map_term_of_map_ofTerm? hrows⟩
    · have hbare : ∀ c ∈ [Clause.relations rows], ∀ r ∈ c.rows, r.bare = r := by
        intro c hc r hr
        obtain rfl := List.mem_singleton.1 hc
        exact (hread r hr).bare
      rw [Model.map_bare_of_unplaced hunplaced, Model.map_bare_ofClauses hbare]
      exact List.append_nil rows
    · have hmem : some r ∈ (splitAll ['+'] rhs.chars).map (Relation.ofTerm? lhs.render op) :=
        hrows ▸ List.mem_map_of_mem hr
      obtain ⟨term, -, hrow⟩ := List.mem_map.1 hmem
      obtain ⟨hlhs, hop, -⟩ := Relation.of_ofTerm? hrow
      rw [hlhs, Piece.render, String.toList_ofList]
      exact ⟨rfl, hop⟩

/-! ## Rows line by line -/

section

variable {rows : List Relation} {gap : List Char} {source : String}

/-- The statements of lines of rows make what the texts of the rows make, if none of them ends
    open. -/
theorem exists_ofSource_spread (hne : rows ≠ []) (hread : ∀ r ∈ rows, r.Read)
    (hgap : ∀ c ∈ gap, Token.isGap c = true) (hclosed : ∀ r ∈ rows, endsOpen r.term = false)
    (hsource : source.toList = breakLines (rows.map (Relation.spread gap))) :
    ∃ statements, Statement.ofSource (Heading.ofSource source.toList).offset
        (Heading.ofSource source.toList).body = .ok statements ∧
      statements.map Statement.clause? = rows.map fun r => Clause.ofText? r.text := by
  have hterm : ∀ r ∈ rows, r.term ≠ [] := fun r hr hnil =>
    (hread r hr).rhs.ne_nil (List.append_eq_nil_iff.1 hnil).2
  have htext : ∀ r ∈ rows, r.text ≠ [] := fun r hr hnil =>
    hterm r hr (List.append_eq_nil_iff.1 hnil).2
  -- The first line starts as a statement does, so there is no heading.
  have hheading : Heading.ofSource source.toList =
      { name := none, body := source.toList, offset := 0 } := by
    obtain ⟨r, more, rfl⟩ := List.exists_cons_of_ne_nil hne
    obtain ⟨c, hc, hstart⟩ := (hread r List.mem_cons_self).start
    refine Heading.ofSource_of_isStart (c := c) ?_ hstart
    rw [hsource, List.map_cons, breakLines, List.flatMap_cons, Relation.spread, List.append_assoc,
      List.append_assoc, List.head?_append, hc]
    rfl
  have hlines : ∀ l ∈ rows.map fun r => (r.spread gap, r.text), Keeps l.1 l.2 ∧ l.2 ≠ [] := by
    intro l hl
    obtain ⟨r, hr, rfl⟩ := List.mem_map.1 hl
    exact ⟨(hread r hr).keeps_spread hgap, htext r hr⟩
  have hjoin : joinOpen [] (rows.map Relation.text) = rows.map Relation.text := by
    refine joinOpen_eq_self (fun text hmem => ?_) fun text hmem => ?_
    · obtain ⟨r, hr, rfl⟩ := List.mem_map.1 hmem
      exact htext r hr
    · obtain ⟨r, hr, rfl⟩ := List.mem_map.1 (List.dropLast_subset _ hmem)
      exact (endsOpen_append _ (hterm r hr)).trans (hclosed r hr)
  obtain ⟨statements, hs, htexts⟩ := ofSource_lines hlines 0
  rw [List.map_map] at hs htexts
  rw [hheading, hsource]
  refine ⟨statements, hs, ?_⟩
  have hclauses := congrArg (List.map Clause.ofText?) (htexts.trans hjoin)
  rwa [List.map_map, List.map_map] at hclauses

/-- If texts of rows make clauses that add these rows, each text makes its own row: no text makes
    more than one, and there are as many texts as rows. -/
theorem makes_of_flatMap_rows {clauses : List Clause} (hread : ∀ r ∈ rows, r.Read)
    (hclauses : (rows.map fun r => Clause.ofText? r.text) = clauses.map some)
    (hrows : (Model.ofClauses clauses).table.rows.map Relation.bare = rows) :
    ∀ r ∈ rows, Clause.ofText? r.text = some (.relations [r]) := by
  have hmakes : ∀ c ∈ clauses, ∃ r ∈ rows, Clause.ofText? r.text = some c := fun c hc =>
    List.mem_map.1 (hclauses ▸ List.mem_map_of_mem hc)
  have hone : ∀ c ∈ clauses, c.rows.length ≤ 1 := by
    intro c hc
    obtain ⟨r, hr, hclause⟩ := hmakes c hc
    exact Relation.length_rows_le_one hclause (hread r hr).text.1 (hread r hr).text.2.2
  have hbare : ∀ c ∈ clauses, ∀ r ∈ c.rows, r.bare = r := by
    intro c hc r' hr'
    obtain ⟨r, hr, hclause⟩ := hmakes c hc
    exact (Relation.read_of_mem_rows hclause (hread r hr).text.1 r' hr').bare
  have hflat : clauses.flatMap Clause.rows = rows :=
    (Model.map_bare_ofClauses hbare).symm.trans hrows
  have hlength : clauses.length = rows.length := by
    have := congrArg List.length hclauses
    rwa [List.length_map, List.length_map, eq_comm] at this
  rw [Model.eq_map_relations hone hflat hlength, List.map_map] at hclauses
  exact List.map_inj_left.1 hclauses

/-- If every statement of a source makes one row, the source is read, and these are its rows. -/
theorem exists_parse_of_rows {statements : List Statement} (hne : rows ≠ [])
    (hbare : ∀ r ∈ rows, r.bare = r)
    (hs : Statement.ofSource (Heading.ofSource source.toList).offset
      (Heading.ofSource source.toList).body = .ok statements)
    (hclauses : statements.map Statement.clause? = rows.map fun r => some (.relations [r])) :
    ∃ m, Model.parse source = .ok m ∧ m.table.rows.map Relation.bare = rows := by
  let clauses := rows.map fun r => Clause.relations [r]
  have hbare : ∀ c ∈ clauses, ∀ r ∈ c.rows, r.bare = r := by
    intro c hc r' hr'
    obtain ⟨r, hr, rfl⟩ := List.mem_map.1 hc
    rw [List.mem_singleton.1 hr']
    exact hbare r hr
  have hknown : ∀ c ∈ clauses, c.Known ⟨clauses.flatMap Clause.rows⟩ := by
    intro c hc
    obtain ⟨r, -, rfl⟩ := List.mem_map.1 hc
    trivial
  obtain ⟨m, hm, hunplaced⟩ := Model.parse_eq_ok_iff.2 ⟨statements, clauses, hs,
    fun hnil => hne (List.map_eq_nil_iff.1 hnil), hclauses.trans List.map_map.symm, hknown, rfl⟩
  refine ⟨m, hm, ?_⟩
  rw [Model.map_bare_of_unplaced hunplaced, Model.map_bare_ofClauses hbare, List.flatMap_map]
  exact List.flatMap_singleton' rows

/-- Lines of rows are read as these rows iff the text of each row is read as this row. -/
theorem parse_spread_iff (hne : rows ≠ []) (hread : ∀ r ∈ rows, r.Read)
    (hgap : ∀ c ∈ gap, Token.isGap c = true) (hclosed : ∀ r ∈ rows, endsOpen r.term = false)
    (hsource : source.toList = breakLines (rows.map (Relation.spread gap))) :
    (∃ m, Model.parse source = .ok m ∧ m.table.rows.map Relation.bare = rows) ↔
      ∀ r ∈ rows, Clause.ofText? r.text = some (.relations [r]) := by
  obtain ⟨statements, hs, hmade⟩ := exists_ofSource_spread hne hread hgap hclosed hsource
  constructor
  · rintro ⟨m, hm, hrows⟩
    obtain ⟨statements', clauses, hs', -, hclauses, -, hunplaced⟩ :=
      Model.parse_eq_ok_iff.1 ⟨m, hm, rfl⟩
    obtain rfl : statements = statements' := Except.ok.inj (hs.symm.trans hs')
    refine makes_of_flatMap_rows hread (hmade.symm.trans hclauses) ?_
    rw [← Model.map_bare_of_unplaced hunplaced, hrows]
  · intro hmakes
    exact exists_parse_of_rows hne (fun r hr => (hread r hr).bare) hs
      (hmade.trans (List.map_congr_left hmakes))

end

/-! ## Sums -/

/-- A source that is one relation, and of which no term ends open, means the same as its terms
    written apart, with whichever layout around the operator, iff it is no regression of which a
    term after the first one starts with `~`. -/
theorem parse_writtenApart_iff {source : String} {m : Model} {s : Statement} {op : Operator}
    {lhs rhs : Piece} {gap : List Char} (hm : Model.parse source = .ok m)
    (hs : Statement.ofSource (Heading.ofSource source.toList).offset
      (Heading.ofSource source.toList).body = .ok [s])
    (hform : s.form? = some (.relation op lhs rhs))
    (hclosed : ∀ term ∈ splitAll ['+'] rhs.chars, endsOpen term = false)
    (hgap : ∀ c ∈ gap, Token.isGap c = true) :
    (∃ m', Model.parse (String.ofList
        (writtenApart gap lhs.chars op (splitAll ['+'] rhs.chars))) = .ok m' ∧
        m'.table.rows.map Relation.bare = m.table.rows.map Relation.bare) ↔
      ¬(op = .regression ∧ ∃ term ∈ (splitAll ['+'] rhs.chars).tail, term.head? = some '~') := by
  have hb : Text.Balanced s.text :=
    ((compact_of_ofSource hs).1 s (List.mem_singleton_self s)).2.balanced
  obtain ⟨rows, hbare, hne, hrows, hterms⟩ := exists_rows_of_sum hm hs hform
  have hread : ∀ r ∈ rows, r.Read := fun r hr => (hrows r hr).1
  have hlines : writtenApart gap lhs.chars op (splitAll ['+'] rhs.chars) =
      breakLines (rows.map (Relation.spread gap)) := by
    rw [writtenApart, ← hterms, List.map_map]
    refine congrArg breakLines (List.map_congr_left fun r hr => ?_)
    obtain ⟨-, hlhs, hop⟩ := hrows r hr
    rw [Relation.spread, hlhs, hop]
    rfl
  have hclosed : ∀ r ∈ rows, endsOpen r.term = false := fun r hr =>
    hclosed r.term (hterms ▸ List.mem_map_of_mem hr)
  rw [hbare, parse_spread_iff hne hread hgap hclosed (String.toList_ofList.trans hlines)]
  obtain ⟨first, more, rfl⟩ := List.exists_cons_of_ne_nil hne
  rw [← hterms]
  constructor
  · rintro hmakes ⟨rfl, term, hterm, hhead⟩
    obtain ⟨r, hr, rfl⟩ := List.mem_map.1 hterm
    have hr := List.mem_cons_of_mem first hr
    exact (hread r hr).ofText?_text_iff.1 (hmakes r hr) ⟨(hrows r hr).2.2, hhead⟩
  · intro hnot r hr
    rw [(hread r hr).ofText?_text_iff]
    rintro ⟨hregression, hhead⟩
    obtain rfl : op = .regression := (hrows r hr).2.2.symm.trans hregression
    rcases List.mem_cons.1 hr with rfl | hmore
    · exact Relation.not_tilde_of_splitAll hform hb hterms.symm hhead
    · exact hnot ⟨rfl, r.term, List.mem_map_of_mem hmore, hhead⟩

/-- A regression on two terms, one with a label and one with a value, means the same as two. -/
theorem parse_writtenApart_regression :
    ∃ m m', Model.parse "y ~ a*x + -.5*z" = .ok m ∧ Model.parse "y ~ a*x\ny ~ -.5*z\n" = .ok m' ∧
      m'.table.rows.map Relation.bare = m.table.rows.map Relation.bare := by
  obtain ⟨m, hm⟩ : ∃ m, (Model.parse "y ~ a*x + -.5*z").toOption = some m :=
    Option.isSome_iff_exists.1 (by decide +kernel)
  let s : Statement := ⟨[('y', 0), ('~', 2), ('a', 4), ('*', 5), ('x', 6), ('+', 8), ('-', 10),
    ('.', 11), ('5', 12), ('*', 13), ('z', 14)]⟩
  have hs : Statement.ofSource (Heading.ofSource "y ~ a*x + -.5*z".toList).offset
      (Heading.ofSource "y ~ a*x + -.5*z".toList).body = .ok [s] :=
    CompiledModel.eq_ok_of_toOption (by decide +kernel)
  have hform : s.form? = some (.relation .regression ⟨0, ['y']⟩ ⟨2, "a*x+-.5*z".toList⟩) := by
    decide +kernel
  have hgap : ∀ c ∈ [' '], Token.isGap c = true := List.all_eq_true.1 (by decide)
  have hlines : String.ofList (writtenApart [' '] ['y'] .regression
      (splitAll ['+'] "a*x+-.5*z".toList)) = "y ~ a*x\ny ~ -.5*z\n" := by decide +kernel
  have hparse := CompiledModel.eq_ok_of_toOption hm
  obtain ⟨m', hm', hrows⟩ :=
    (parse_writtenApart_iff hparse hs hform (by decide +kernel) hgap).2 (by decide +kernel)
  exact ⟨m, m', hparse, hlines ▸ hm', hrows⟩

/-- Not every sum means the same as its terms written apart: the second term of `f~x+~y` is written
    as `f ~ ~y`, which is read as a covariance. -/
theorem not_parse_writtenApart :
    ¬∀ (source : String) (m : Model) (s : Statement) (op : Operator) (lhs rhs : Piece),
      Model.parse source = .ok m →
      Statement.ofSource (Heading.ofSource source.toList).offset
        (Heading.ofSource source.toList).body = .ok [s] →
      s.form? = some (.relation op lhs rhs) → 2 ≤ (splitAll ['+'] rhs.chars).length →
      (∀ term ∈ splitAll ['+'] rhs.chars, endsOpen term = false) →
      ∃ m', Model.parse (String.ofList
          (writtenApart [' '] lhs.chars op (splitAll ['+'] rhs.chars))) = .ok m' ∧
        m'.table.rows.map Relation.bare = m.table.rows.map Relation.bare := by
  intro h
  have hm : Model.parse "f~x+~y" = .ok {
      table := ⟨[
        { lhs := "f", op := .regression, rhs := "x", span := some (.ofBounds 0 6) },
        { lhs := "f", op := .regression, rhs := "~y", span := some (.ofBounds 0 6) }]⟩ } :=
    CompiledModel.eq_ok_of_toOption (by decide +kernel)
  have hs : Statement.ofSource (Heading.ofSource "f~x+~y".toList).offset
      (Heading.ofSource "f~x+~y".toList).body =
        .ok [⟨[('f', 0), ('~', 1), ('x', 2), ('+', 3), ('~', 4), ('y', 5)]⟩] :=
    CompiledModel.eq_ok_of_toOption (by decide +kernel)
  obtain ⟨m', hm', hrows⟩ := h _ _ _ .regression ⟨0, ['f']⟩ ⟨2, "x+~y".toList⟩ hm hs
    (by decide +kernel) (by decide +kernel) (by decide +kernel)
  have hread := congrArg (fun x => x.toOption.map fun m => m.table.rows.map Relation.bare) hm'
  rw [show (Except.ok m' : Except (List Finding) Model).toOption.map
    (fun m => m.table.rows.map Relation.bare) = some (m'.table.rows.map Relation.bare) from rfl,
    hrows] at hread
  exact absurd hread (by decide +kernel)

end StructuralModel
