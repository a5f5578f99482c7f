import Mathlib.Data.List.Forall2
import StructuralModel.Proofs.Model.Described
import StructuralModel.Proofs.Statement.Row

/-!
# Rows and the text of their relation

The operator of a relation is chosen by its rank and not by its place, and then the text is split
three times: at the operator, at each `+`, and at the `*` of each term. Nothing is lost on the way:
the rows that a relation adds spell its text (`Statement.Spells`). The left side must be a name, and
a name holds no character of an operator, so the operator that was chosen is the one that comes
first in the text after all.

* `Relation.term_ofTerm`: the row of a term is written as the term;
* `spells_rows`: the rows of a relation spell its text;
* `adds_build`: the rows of a model, statement by statement.
-/

namespace StructuralModel

/-- The characters that operators start with, and those that divide a right side. -/
def isSign (c : Char) : Bool :=
  c == '=' || c == '~' || c == ':' || c == '+' || c == '*'

namespace Relation

/-- The row of a term is written as the term. -/
theorem term_ofTerm (lhs : String) (op : Operator) (cs : List Char) :
    (Relation.ofTerm lhs op cs).term = cs := by
  rw [Relation.ofTerm]
  split
  case h_1 => rw [term, List.nil_append, String.toList_ofList]
  case h_2 modifier name h =>
    rw [term, String.toList_ofList, ← Text.append_of_splitOnce h]
    dsimp only
    split <;> rw [Modifier.text, String.toList_ofList]

/-- Bounds and free flags are not written in a row. -/
theorem term_settled (clauses : List Clause) (r : Relation) :
    (Model.settled clauses r).term = r.term := by
  rw [Model.settled_eq]
  rfl

end Relation

namespace Statement

variable {s : Statement} {op : Operator}

/-- The text of a statement, written with its rows. -/
structure Spells (s : Statement) (op : Operator) (rows : List Relation) (lhs : String) : Prop where
  /-- There is a row. -/
  ne_nil : rows ≠ []
  /-- The rows share their left side and the operator, and are where the statement is. -/
  shared : ∀ r ∈ rows, r.lhs = lhs ∧ r.op = op ∧ r.span = some s.span
  /-- The left side, the operator, and the terms with `+` between them are the text. -/
  text : s.text = lhs.toList ++ op.symbol.toList ++ ['+'].intercalate (rows.map Relation.term)
  /-- The left side has no sign. -/
  unsigned : ∀ c ∈ lhs.toList, isSign c = false
  /-- The left side is what stands in front of the first sign, so the operator stands there. -/
  first : lhs.toList = s.text.takeWhile fun c => !isSign c

/-- What a statement adds to the rows of a model: a relation some rows that spell it, and any other
    statement none. -/
inductive Adds (s : Statement) : List Relation → Prop
  | relation {op : Operator} {rows : List Relation} {lhs : String} :
      Form.Kind.ofText? s.text = some (.relation op) → Spells s op rows lhs → Adds s rows
  | other : (∀ op, Form.Kind.ofText? s.text ≠ some (.relation op)) → Adds s []

/-- The rows that a statement says. -/
def addedRows (s : Statement) : List Relation :=
  s.form?.elim [] fun form => (form.clause s).rows

/-- Names have no sign. -/
theorem not_isSign_of_isName {name : List Char} (h : isName nameMarks name = true) :
    ∀ c ∈ name, isSign c = false := by
  intro c hc
  have hmarks := ((isName_iff.1 h).2 c hc).2
  rw [Bool.eq_false_iff]
  intro hsign
  simp only [isSign, Bool.or_eq_true, beq_iff_eq] at hsign
  rcases hsign with (((rfl | rfl) | rfl) | rfl) | rfl <;> exact hmarks (by decide)

/-- The rows of a relation spell its text, also when they are settled. -/
theorem spells_rows {lhs rhs : Piece} {t : Table} (clauses : List Clause)
    (h : s.form? = some (.relation op lhs rhs)) (hf : (Form.relation op lhs rhs).Faultless t s) :
    Spells s op (s.addedRows.map (Model.settled clauses)) lhs.render := by
  obtain ⟨c, hsays, -⟩ := Form.faultless_iff.1 hf
  have hname : isName nameMarks lhs.chars = true := by cases hsays; assumption
  have hrows : s.addedRows = (Text.splitAll ['+'] rhs.chars).map fun term =>
      { Relation.ofTerm lhs.render op term with span := some s.span } := by
    rw [addedRows, h]
    rfl
  have hterms : (s.addedRows.map (Model.settled clauses)).map Relation.term =
      Text.splitAll ['+'] rhs.chars := by
    rw [List.map_map, hrows, List.map_map]
    refine (List.map_congr_left fun term _ => ?_).trans (List.map_id _)
    exact (Relation.term_settled ..).trans (Relation.term_ofTerm lhs.render op term)
  have htext : s.text = lhs.chars ++ op.symbol.toList ++ rhs.chars := by
    cases Form.ofPiece?_eq_some_iff.1 h with
    | relation _ _ hsplit _ =>
      exact (Text.append_of_splitOnce (Piece.splitOnce_eq_some_iff.1 hsplit).1).symm
  have hunsigned := not_isSign_of_isName hname
  rw [← String.toList_ofList (l := lhs.chars), ← Piece.render] at hunsigned htext
  refine ⟨?_, ?_, ?_, hunsigned, ?_⟩
  · intro hnil
    rw [hnil] at hterms
    exact Text.splitAll_ne_nil _ _ hterms.symm
  · intro r hr
    rw [hrows, List.map_map] at hr
    obtain ⟨term, -, rfl⟩ := List.mem_map.1 hr
    rw [Function.comp_apply, Model.settled_eq, Relation.ofTerm]
    split <;> exact ⟨rfl, rfl, rfl⟩
  · rw [hterms, Text.intercalate_splitAll, htext]
  · obtain ⟨sign, rest, hsymbol, hsign⟩ : ∃ sign rest, op.symbol.toList = sign :: rest ∧
        isSign sign = true := by
      cases op <;> exact ⟨_, _, rfl, rfl⟩
    rw [htext, List.append_assoc, hsymbol, List.cons_append, List.takeWhile_append_of_pos
      fun c hc => by rw [hunsigned c hc]; rfl, List.takeWhile_cons_of_neg (by simp [hsign]),
      List.append_nil]

end Statement

namespace Model

variable {statements : List Statement} {m : Model}

/-- The rows that statements say, one statement after the other. -/
theorem flatMap_rows_said (statements : List Statement) :
    (said statements).flatMap Clause.rows = statements.flatMap Statement.addedRows := by
  induction statements with
  | nil => rfl
  | cons s statements ih =>
    rw [said, formed] at ih ⊢
    rw [List.flatMap_cons, List.filterMap_cons, Statement.addedRows, ← ih]
    cases s.form? <;> rfl

/-- The rows of a model that is built are those that its statements add. -/
theorem adds_build (h : build statements = .ok m) :
    ∃ rows, List.Forall₂ Statement.Adds statements rows ∧ m.table.rows = rows.flatten := by
  rw [build] at h
  split at h
  case isTrue => cases h
  case isFalse hfault =>
    cases h
    have hfault := Bool.of_not_eq_true hfault
    refine ⟨statements.map fun s => s.addedRows.map (settled (said statements)), ?_, ?_⟩
    · rw [List.forall₂_map_right_iff, List.forall₂_same]
      intro s hs
      obtain ⟨form, hform, hfaultless⟩ := findings_faultless_iff.1 hfault s hs
      have hkind : Form.Kind.ofText? s.text = some form.kind := congrArg (Option.map Form.kind) hform
      cases form with
      | relation op lhs rhs =>
        exact .relation hkind (Statement.spells_rows _ hform hfaultless)
      | _ =>
        rw [Statement.addedRows, hform]
        exact .other fun op hop => by rw [hkind] at hop; cases hop
    · rw [ofStatements_eq hfault, ← List.flatMap_def, ← List.map_flatMap, ← flatMap_rows_said]
      rfl

/-- A regression whose right side holds characters of other operators, and a bound on its row. -/
def signs : List Statement :=
  ["a>.5", "f~a*x:=y+2*~z", "!q"].map Statement.ofText

/-- The operator is the first sign of the regression, and the others stay in its terms. -/
theorem adds_build_signs :
    (∃ rows, List.Forall₂ Statement.Adds signs rows ∧
      (ofStatements signs).table.rows = rows.flatten) ∧
      (ofStatements signs).table.rows.map (fun r => (r.lhs, r.op, r.term)) =
        [("f", .regression, "a*x:=y".toList), ("f", .regression, "2*~z".toList)] := by
  have hfault : (findings signs).any Finding.isFault = false := by decide +kernel
  have hbuild : build signs = .ok (ofStatements signs) := by
    rw [build, hfault, if_neg Bool.false_ne_true]
  exact ⟨adds_build hbuild, by decide +kernel⟩

end Model

end StructuralModel
