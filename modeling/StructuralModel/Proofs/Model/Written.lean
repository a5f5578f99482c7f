import StructuralModel.Proofs.Heading
import StructuralModel.Proofs.Model.Clauses
import StructuralModel.Proofs.Statement.Lines
import StructuralModel.Proofs.Statement.Row

/-!
# Written models

The written form of a model is its heading, if it has a name, and one line for each of its clauses
(`toList_render`). When it is read, every line keeps the text of its clause, so that its statements
are these texts, joined where they end open (`exists_ofSource_render`).

A clause is *stable* if its text makes this clause again (`Clause.Stable`).

* `Stable.keeps`: the line of a stable clause that adds no rows keeps its text;
* `exists_parse_render`: a coherent model with stable clauses, of which only the last one may end
  open, is read back from its written form, places and remarks aside.
-/

namespace StructuralModel

open Text (outside)

/-! ## Lines of clauses -/

namespace Relation

/-- Bounds and marks are not written with a relation. -/
@[simp] theorem render_bare (r : Relation) : r.bare.render = r.render := rfl

theorem toList_render (r : Relation) :
    r.render.toList =
      r.lhs.toList ++ ([' '] ++ (r.op.symbol.toList ++ ([' '] ++ r.term))) := by
  rw [render, term]
  cases r.modifier <;> simp [String.toList_append]

end Relation

namespace Clause

/-- A clause as it is written. -/
def line : Clause → List Char
  | relations rows => rows.flatMap fun r => r.render.toList
  | bound label side value => label.toList ++ [' ', side.symbol, ' '] ++ value.toList
  | declaration name => '!' :: name.toList
  | definition d => d.render.toList
  | block text => text.toList

/-- A clause without layout. -/
def text : Clause → List Char
  | relations rows => rows.flatMap Relation.text
  | bound label side value => label.toList ++ [side.symbol] ++ value.toList
  | declaration name => '!' :: name.toList
  | definition d => d.name.toList ++ [':', '='] ++ d.expression.toList
  | block text => text.toList

/-- The text of a row is that of its clause. -/
theorem text_row (r : Relation) : (relations [r.bare]).text = r.text :=
  List.append_nil r.text

/-- The text of a clause makes this clause. -/
structure Stable (c : Clause) : Prop where
  makes : ofText? c.text = some c
  compact : Compact c.text

end Clause

/-- The heading of a written model. -/
def Model.headingLine (m : Model) : List Char :=
  match m.name with
  | some name => Heading.line name.toList
  | none => []

theorem breakLines_append (lines more : List (List Char)) :
    breakLines (lines ++ more) = breakLines lines ++ breakLines more :=
  List.flatMap_append

theorem Table.toList_renderBounds (t : Table) (label : String) :
    (t.renderBounds label).toList = breakLines ((t.boundClauses label).map Clause.line) := by
  rw [renderBounds, boundClauses]
  cases t.rows.find? (Relation.hasLabel label) with
  | none => rfl
  | some r =>
    cases hl : r.lower <;> cases hu : r.upper <;>
      simp [Relation.bound?, hl, hu, breakLines, Clause.line, Bound.symbol]

theorem Table.toList_render (t : Table) :
    t.render.toList = breakLines (t.rows.map fun r => r.render.toList) ++
      breakLines ((t.labels.flatMap t.boundClauses).map Clause.line) := by
  rw [render, String.toList_append, String.toList_join, String.toList_join, List.flatMap_map,
    List.flatMap_map]
  congr 1
  · rw [breakLines, List.flatMap_map]
    simp
  · induction t.labels with
    | nil => rfl
    | cons label labels ih =>
      rw [List.flatMap_cons, List.flatMap_cons, List.map_append, breakLines_append, ih,
        toList_renderBounds]

theorem Algebra.toList_render (a : Algebra) :
    a.render.toList = breakLines (a.parameters.map fun p => '!' :: p.name.toList) ++
      breakLines (a.definitions.map fun d => d.render.toList) := by
  rw [render, String.toList_append, String.toList_join, String.toList_join, breakLines, breakLines]
  simp [List.flatMap_map]

/-- A written model is its heading and the lines of its clauses. -/
theorem Model.toList_render (m : Model) :
    m.render.toList = m.headingLine ++ breakLines (m.clauses.map Clause.line) := by
  have hbody : (m.table.render ++ m.algebra.render ++
      String.join (m.blocks.map fun block => block ++ "\n")).toList =
        breakLines (m.clauses.map Clause.line) := by
    rw [String.toList_append, String.toList_append, Table.toList_render, Algebra.toList_render,
      String.toList_join, clauses]
    simp only [List.map_append, breakLines_append, List.append_assoc]
    simp [breakLines, List.flatMap_map, Clause.line]
  rw [← hbody, render, headingLine]
  cases m.name <;> simp [Heading.line, Heading.content]

/-! ## Clauses that are no rows -/

namespace Clause

variable {c : Clause}

/-- What is read, other than rows, has the text that it is read from. -/
theorem text_of_ofText? {cs : List Char} (h : ofText? cs = some c) (hc : c.isRelations = false) :
    c.text = cs := by
  obtain ⟨-, form, hform, hsays⟩ := ofText?_eq_some_iff.1 h
  have hcut := Form.ofPiece?_eq_some_iff.1 hform
  cases hsays with
  | relation => cases hc
  | block => exact String.toList_ofList
  | bound =>
    cases hcut with
    | bound _ _ hsplit _ =>
      have := Text.append_of_splitOnce (Piece.splitOnce_eq_some_iff.1 hsplit).1
      simpa [text, Piece.render] using this
  | declaration =>
    cases hcut with
    | declaration _ _ _ hname =>
      rw [text, Piece.render, String.toList_ofList]
      exact hname.symm
  | definition =>
    cases hcut with
    | definition _ hsplit _ =>
      have := Text.append_of_splitOnce (Piece.splitOnce_eq_some_iff.1 hsplit).1
      simpa [text, Piece.render, Operator.symbol] using this

theorem isBlock_of_ofText? {cs : List Char} {text : String}
    (h : ofText? cs = some (block text)) : Text.isBlock cs = true := by
  obtain ⟨-, form, hform, hsays⟩ := ofText?_eq_some_iff.1 h
  cases hsays with
  | block =>
    cases Form.ofPiece?_eq_some_iff.1 hform with
    | block hblock => exact hblock

/-- A stable bound is cut at its sign. -/
theorem Stable.parts_of_bound {label value : String} {side : Bound}
    (h : (bound label side value).Stable) : Compact label.toList ∧ Compact value.toList := by
  obtain ⟨-, form, hform, hsays⟩ := ofText?_eq_some_iff.1 h.makes
  have hcut := Form.ofPiece?_eq_some_iff.1 hform
  have hcompact := h.compact
  cases hsays with
  | @bound _ target value =>
    cases hcut with
    | bound _ _ hsplit _ =>
      obtain ⟨-, hd, -⟩ := (Text.splitOnce_eq_some_iff (List.cons_ne_nil _ _)).1
        (Piece.splitOnce_eq_some_iff.1 hsplit).1
      rw [Piece.render, Piece.render, String.toList_ofList, String.toList_ofList]
      rw [text, Piece.render, Piece.render, String.toList_ofList, String.toList_ofList,
        List.append_assoc] at hcompact
      obtain ⟨htarget, hrest⟩ := hcompact.of_append hd
      exact ⟨htarget, (hrest.of_append (by cases side <;> rfl)).2⟩

/-- A stable definition is cut at its operator. -/
theorem Stable.parts_of_definition {d : Definition} (h : (definition d).Stable) :
    Compact d.name.toList ∧ Compact d.expression.toList := by
  obtain ⟨-, form, hform, hsays⟩ := ofText?_eq_some_iff.1 h.makes
  have hcut := Form.ofPiece?_eq_some_iff.1 hform
  have hcompact := h.compact
  cases hsays with
  | definition =>
    cases hcut with
    | definition _ hsplit _ =>
      obtain ⟨-, hd, -⟩ := (Text.splitOnce_eq_some_iff (List.cons_ne_nil _ _)).1
        (Piece.splitOnce_eq_some_iff.1 hsplit).1
      simp only [Piece.render, String.toList_ofList]
      simp only [text, Piece.render, String.toList_ofList, List.append_assoc] at hcompact
      obtain ⟨hname, hrest⟩ := hcompact.of_append hd
      exact ⟨hname, (hrest.of_append rfl).2⟩

/-- The line of a stable clause that adds no rows keeps its text. -/
theorem Stable.keeps (h : c.Stable) (hc : c.isRelations = false) : Keeps c.line c.text := by
  cases c with
  | relations => cases hc
  | bound label side value =>
    obtain ⟨hlabel, hvalue⟩ := h.parts_of_bound
    have hsign : Compact [side.symbol] := .of_words (List.all_eq_true.1 (by cases side <;> decide))
    have := (Keeps.of_compact hlabel).append
      ((Keeps.space.append ((Keeps.of_compact hsign).append Keeps.space)).append
        (.of_compact hvalue))
    simpa [line, text] using this
  | declaration => exact .of_compact h.compact
  | definition d =>
    obtain ⟨hname, hexpression⟩ := h.parts_of_definition
    have hsign : Compact [':', '='] := .of_words (List.all_eq_true.1 (by decide))
    have := (Keeps.of_compact hname).append
      ((Keeps.space.append ((Keeps.of_compact hsign).append Keeps.space)).append
        (.of_compact hexpression))
    simpa [line, text, Definition.render] using this
  | block => exact .of_compact h.compact

/-- A stable clause that adds no rows has nothing outside of braces, or some character that is not
    ordinary. -/
theorem Stable.outside_text (h : c.Stable) (hc : c.isRelations = false) :
    outside 0 c.text = [] ∨ ∃ x ∈ outside 0 c.text, Statement.isOrdinary x = false := by
  cases c with
  | relations => cases hc
  | bound label side value =>
    obtain ⟨hlabel, -⟩ := h.parts_of_bound
    refine .inr ⟨side.symbol, Text.mem_outside.2 ⟨?_, ?_, label.toList, value.toList, ?_, ?_⟩, ?_⟩
    · cases side <;> decide
    · cases side <;> decide
    · simp [text]
    · exact hlabel.balanced.depth_eq
    · cases side <;> decide +kernel
  | declaration name => exact .inr ⟨'!', by simp [text, outside], by decide +kernel⟩
  | definition d =>
    obtain ⟨hname, -⟩ := h.parts_of_definition
    refine .inr ⟨':', Text.mem_outside.2 ⟨by decide, by decide, d.name.toList,
      '=' :: d.expression.toList, ?_, hname.balanced.depth_eq⟩, by decide +kernel⟩
    simp [text]
  | block => exact .inl (Text.balanced_of_isBlock (isBlock_of_ofText? h.makes)).2

/-- A line starts as its text does, if that starts a statement. -/
theorem head?_line (h : ∃ x ∈ c.text.head?, Statement.isStart x = true) :
    c.line.head? = c.text.head? := by
  obtain ⟨x, hx, hstart⟩ := h
  -- What the text starts with is no sign, so its first part is not empty.
  have first {part sign rest : List Char} (hsign : sign.head?.any Statement.isStart = false)
      (hne : sign ≠ []) (hx : x ∈ (part ++ (sign ++ rest)).head?) : part ≠ [] := by
    rintro rfl
    cases sign with
    | nil => exact hne rfl
    | cons y sign =>
      obtain rfl : y = x := Option.some.inj hx
      exact absurd hstart (Bool.eq_false_iff.1 hsign)
  have same {part rest more : List Char} (hne : part ≠ []) :
      (part ++ rest).head? = (part ++ more).head? := by
    cases part with
    | nil => exact absurd rfl hne
    | cons => rfl
  cases c with
  | relations rows =>
    cases rows with
    | nil => rfl
    | cons r rows =>
      simp only [text, line, List.flatMap_cons, Relation.text, Relation.toList_render,
        List.append_assoc] at hx ⊢
      have hsign : r.op.symbol.toList.head?.any Statement.isStart = false := by
        cases r.op <;> decide +kernel
      exact same (first hsign (by cases r.op <;> decide) hx)
  | bound label side value =>
    simp only [text, line, List.append_assoc] at hx ⊢
    exact same (first (by cases side <;> decide +kernel) (List.cons_ne_nil _ _) hx)
  | declaration => rfl
  | definition d =>
    have hline : d.render.toList = d.name.toList ++ (" := ".toList ++ d.expression.toList) := by
      simp [Definition.render]
    simp only [text, line, List.append_assoc, hline] at hx ⊢
    exact same (first (by decide +kernel) (List.cons_ne_nil _ _) hx)
  | block => rfl

end Clause

/-! ## Reading a written model -/

/-- A source that starts as statements do has no heading. -/
theorem Heading.ofSource_of_isStart {cs : List Char} {c : Char} (hhead : cs.head? = some c)
    (hstart : Statement.isStart c = true) :
    ofSource cs = { name := none, body := cs, offset := 0 } := by
  cases cs with
  | nil => cases hhead
  | cons x rest =>
    obtain rfl : x = c := Option.some.inj hhead
    exact ofSource_unnamed (Statement.isBlank_of_isStart hstart)
      (Statement.ne_of_isStart hstart (by decide +kernel))
      (Statement.ne_of_isStart hstart (by decide +kernel)) rest

namespace Model

variable {m : Model}

/-- When a written model is read, its heading is taken off, and its statements are the texts of its
    clauses, joined where they end open. -/
theorem exists_ofSource_render (hname : ∀ name, m.name = some name → Heading.IsName name.toList)
    (hstart : ∃ c ∈ m.clauses.head?, ∃ x ∈ c.text.head?, Statement.isStart x = true)
    (hkeeps : ∀ c ∈ m.clauses, Keeps c.line c.text ∧ c.text ≠ []) :
    (Heading.ofSource m.render.toList).name = m.name ∧
      ∃ statements, Statement.ofSource (Heading.ofSource m.render.toList).offset
          (Heading.ofSource m.render.toList).body = .ok statements ∧
        statements.map Statement.text = joinOpen [] (m.clauses.map Clause.text) := by
  have hheading : (Heading.ofSource m.render.toList).name = m.name ∧
      (Heading.ofSource m.render.toList).body = breakLines (m.clauses.map Clause.line) := by
    rw [toList_render, headingLine]
    cases hm : m.name with
    | some name =>
      simp only
      rw [Heading.ofSource_named (hname name hm)]
      exact ⟨rfl, rfl⟩
    -- Without a heading the text starts as its first line does, which is no heading.
    | none =>
      obtain ⟨c, hc, x, hx, hxstart⟩ := hstart
      have hhead : (breakLines (m.clauses.map Clause.line)).head? = some x := by
        cases hclauses : m.clauses with
        | nil => rw [hclauses] at hc; cases hc
        | cons first rest =>
          rw [hclauses] at hc
          obtain rfl := Option.some.inj hc
          rw [List.map_cons, breakLines, List.flatMap_cons, List.append_assoc, List.head?_append,
            Clause.head?_line ⟨x, hx, hxstart⟩, hx]
          rfl
      rw [List.nil_append, Heading.ofSource_of_isStart hhead hxstart]
      exact ⟨rfl, rfl⟩
  refine ⟨hheading.1, ?_⟩
  rw [hheading.2]
  have hlines : ∀ l ∈ m.clauses.map fun c => (c.line, c.text), Keeps l.1 l.2 ∧ l.2 ≠ [] := by
    intro l hl
    obtain ⟨c, hc, rfl⟩ := List.mem_map.1 hl
    exact hkeeps c hc
  have hread := ofSource_lines hlines (Heading.ofSource m.render.toList).offset
  rwa [List.map_map, List.map_map] at hread

/-- If no text but the last one ends open, none are joined. -/
theorem joinOpen_texts (hne : ∀ c ∈ m.clauses, c.text ≠ [])
    (hclosed : ∀ c ∈ m.clauses.dropLast, endsOpen c.text = false) :
    joinOpen [] (m.clauses.map Clause.text) = m.clauses.map Clause.text := by
  refine joinOpen_eq_self (fun text h => ?_) fun text h => ?_
  · obtain ⟨c, hc, rfl⟩ := List.mem_map.1 h
    exact hne c hc
  · rw [← List.map_dropLast] at h
    obtain ⟨c, hc, rfl⟩ := List.mem_map.1 h
    exact hclosed c hc

/-- A coherent model whose clauses are stable, and of which only the last one may end open, is read
    back from its written form. -/
theorem exists_parse_render (hname : ∀ name, m.name = some name → Heading.IsName name.toList)
    (hne : m.clauses ≠ []) (hm : m.Coherent) (hstable : ∀ c ∈ m.clauses, c.Stable)
    (hkeeps : ∀ c ∈ m.clauses, Keeps c.line c.text)
    (hclosed : ∀ c ∈ m.clauses.dropLast, endsOpen c.text = false) :
    ∃ m', parse m.render = .ok m' ∧ m'.unplaced = m.unplaced := by
  have hhead : ∀ c ∈ m.clauses, ∃ x ∈ c.text.head?, Statement.isStart x = true := by
    intro c hc
    obtain ⟨x, rest, htext, hx⟩ := Statement.exists_start_of_isValid
      (Clause.ofText?_eq_some_iff.1 (hstable c hc).makes).1
    exact ⟨x, by rw [htext]; rfl, hx⟩
  have htext : ∀ c ∈ m.clauses, c.text ≠ [] := by
    intro c hc hnil
    obtain ⟨x, hx, -⟩ := hhead c hc
    rw [hnil] at hx
    cases hx
  have hstart : ∃ c ∈ m.clauses.head?, ∃ x ∈ c.text.head?, Statement.isStart x = true := by
    cases hclauses : m.clauses with
    | nil => exact absurd hclauses hne
    | cons c rest => exact ⟨c, rfl, hhead c (hclauses ▸ List.mem_cons_self)⟩
  obtain ⟨hheading, statements, hs, htexts⟩ :=
    exists_ofSource_render hname hstart fun c hc => ⟨hkeeps c hc, htext c hc⟩
  have hclauses : statements.map Statement.clause? = m.clauses.map some := by
    have : statements.map Statement.clause? =
        (statements.map Statement.text).map Clause.ofText? := by rw [List.map_map]; rfl
    rw [this, htexts, joinOpen_texts htext hclosed, List.map_map]
    exact List.map_congr_left fun c hc => (hstable c hc).makes
  refine parse_eq_ok_iff.2 ⟨statements, m.clauses, hs, hne, hclauses,
    fun c hc => known_of_mem_clauses hc, ?_⟩
  rw [hheading, ofClauses_clauses hm]

end Model

end StructuralModel
