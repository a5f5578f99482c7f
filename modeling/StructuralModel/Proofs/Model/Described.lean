import StructuralModel.Proofs.Model.Clauses

/-!
# What is built from statements

A model is built in passes over its statements, which bound and mark rows by their labels, and
declare and define parameters by their names. What comes out can be told without the passes, from
what each statement says (`Form.clause`), in whatever order statements of different kinds stand
(`Model.described`):

* every term of a relation is a row, and its modifier fixes a value iff it is a numeral;
* the bound of a row on a side is the last one that is given to its label, and a row is free unless
  its label is defined;
* the parameters are the names that are declared, each once, in the order of their first
  declarations, and a parameter is free unless it is defined;
* definitions and blocks are kept as they are.

* `build_eq_described`: a model that is built from statements is the one that they describe.
-/

namespace StructuralModel

/-- The row that a term stands for. What is in front of the first `*` outside of braces is its
    modifier. -/
def Relation.ofTerm (lhs : String) (op : Operator) (term : List Char) : Relation :=
  match Text.splitOnce ['*'] term with
  | none => { lhs, op, rhs := String.ofList term }
  | some (modifier, name) => {
      lhs, op, rhs := String.ofList name
      modifier := some (if Text.isNumeral modifier then .fixed (String.ofList modifier)
        else .label (String.ofList modifier)) }

/-- What a form says, in a statement: a relation has a row for each piece of its right side between
    the `+` outside of braces. -/
def Form.clause (s : Statement) : Form → Clause
  | block => .block s.render
  | relation op lhs rhs => .relations ((Text.splitAll ['+'] rhs.chars).map fun term =>
      { Relation.ofTerm lhs.render op term with span := some s.span })
  | definition name expression => .definition ⟨name.render, expression.render⟩
  | bound side target value => .bound target.render side value.render
  | declaration name => .declaration name.render

namespace Model

/-- What statements say, one after the other. -/
def said (statements : List Statement) : List Clause :=
  (formed statements).map fun (s, form) => form.clause s

/-- The model that clauses describe. -/
def described (clauses : List Clause) : Model where
  table := ⟨(clauses.flatMap Clause.rows).map fun r => { r with
    lower := (clauses.filterMap (Clause.boundOn? .lower r)).getLast?
    upper := (clauses.filterMap (Clause.boundOn? .upper r)).getLast?
    free := !clauses.any (Clause.defines r) }⟩
  algebra := {
    parameters := (clauses.filterMap Clause.declared?).eraseDups.map fun name => {
      name, free := !(clauses.filterMap Clause.definition?).any fun d => name == d.name }
    definitions := clauses.filterMap Clause.definition? }
  blocks := clauses.filterMap Clause.block?

end Model

/-! ## Terms -/

namespace Term

/-- A text in one piece has no delimiter. -/
theorem splitOnce_of_splitAll_singleton {pattern cs name : List Char}
    (h : Text.splitAll pattern cs = [name]) : Text.splitOnce pattern cs = none ∧ name = cs := by
  cases hs : Text.splitOnce pattern cs with
  | none =>
    rw [Text.splitAll_of_splitOnce_eq_none hs] at h
    exact ⟨rfl, (List.singleton_inj.1 h).symm⟩
  | some parts =>
    rw [Text.splitAll_of_splitOnce_eq_some hs, List.cons.injEq] at h
    exact absurd h.2 (Text.splitAll_ne_nil _ _)

/-- A text in two pieces has one delimiter, between them. -/
theorem splitOnce_of_splitAll_pair {pattern cs modifier name : List Char}
    (h : Text.splitAll pattern cs = [modifier, name]) :
    Text.splitOnce pattern cs = some (modifier, name) := by
  cases hs : Text.splitOnce pattern cs with
  | none =>
    rw [Text.splitAll_of_splitOnce_eq_none hs] at h
    cases h
  | some parts =>
    rw [Text.splitAll_of_splitOnce_eq_some hs, List.cons.injEq] at h
    obtain ⟨hbefore, hafter⟩ := h
    rw [← hbefore, (splitOnce_of_splitAll_singleton hafter).2]

/-- A term that is read stands for the row of its text. -/
theorem relation_of_read {s : Statement} {rhs term : Piece} {t : Term}
    (h : read s rhs term = .ok t) (span : Span) (lhs : Piece) (op : Operator) :
    t.relation span lhs op =
      { Relation.ofTerm lhs.render op term.chars with span := some span } := by
  have hparts : (term.splitAll ['*']).map Piece.chars = Text.splitAll ['*'] term.chars :=
    Piece.map_chars_splitAll _ _
  rw [read] at h
  split at h
  case isTrue => cases h
  case isFalse =>
    split at h
    case h_1 name heq =>
      cases h
      rw [heq] at hparts
      obtain ⟨hnone, hname⟩ := splitOnce_of_splitAll_singleton hparts.symm
      rw [Relation.ofTerm, hnone, ← hname]
      rfl
    case h_2 modifier name heq =>
      cases h
      rw [heq] at hparts
      rw [Relation.ofTerm, splitOnce_of_splitAll_pair hparts.symm]
      rfl
    case h_3 => cases h

/-- Terms that are all read stand for the rows of their texts. -/
theorem map_relation_of_readEach {s : Statement} {rhs : Piece} {pieces : List Piece}
    {terms : List Term} (h : (readEach s rhs pieces).2 = some terms) (span : Span) (lhs : Piece)
    (op : Operator) :
    terms.map (relation span lhs op) = (pieces.map Piece.chars).map fun term =>
      { Relation.ofTerm lhs.render op term with span := some span } := by
  induction pieces generalizing terms with
  | nil =>
    cases h
    rfl
  | cons p pieces ih =>
    rw [readEach] at h
    cases hp : read s rhs p with
    | error fault =>
      rw [hp] at h
      cases h
    | ok t =>
      rw [hp] at h
      obtain ⟨rest, hrest, rfl⟩ := Option.map_eq_some_iff.1 h
      rw [List.map_cons, List.map_cons, List.map_cons, relation_of_read hp, ih hrest]

end Term

/-- A form without fault adds the rows that it says. -/
theorem Form.Faultless.rows_eq {t : Table} {s : Statement} {form : Form}
    (h : form.Faultless t s) : (form.readRelation s).2 = (form.clause s).rows := by
  cases form with
  | relation op lhs rhs =>
    have hfault := h.1
    rw [readRelation] at hfault ⊢
    cases hname : s.nameFault? nameMarks lhs with
    | some fault =>
      rw [hname, List.any_cons, Statement.isFault_of_nameFault? hname] at hfault
      cases hfault
    | none =>
      rw [hname] at hfault
      obtain ⟨terms, hterms⟩ := Option.isSome_iff_exists.1
        ((Term.readEach_eq s rhs lhs op (rhs.splitAll ['+'])).2.1 hfault)
      show ((Term.readAll s rhs).2.getD []).map (Term.relation s.span lhs op) = _
      rw [Term.readAll, hterms, Option.getD_some, Term.map_relation_of_readEach hterms,
        Piece.map_chars_splitAll]
      rfl
  | _ => rfl

namespace Model

variable {statements : List Statement} {clauses : List Clause}

/-! ## The passes -/

/-- The folds over the clauses of a model are the model that the clauses describe, if their rows
    have no bounds and are free. -/
theorem ofClauses_eq_described
    (h : ∀ r ∈ clauses.flatMap Clause.rows, r.lower = none ∧ r.upper = none ∧ r.free = true) :
    ofClauses clauses = described clauses := by
  have hrows : (clauses.flatMap Clause.rows).map (settled clauses) =
      (described clauses).table.rows := by
    refine List.map_congr_left fun r hr => ?_
    obtain ⟨hlower, hupper, hfree⟩ := h r hr
    rw [settled_eq, hlower, hupper, hfree, Option.or_none, Option.or_none, Bool.true_and,
      List.getLast?_filterMap, List.getLast?_filterMap]
  have halgebra : clauses.foldl Clause.define (clauses.foldl Clause.declare {}) =
      (described clauses).algebra := by
    rw [Clause.foldl_declare, Algebra.foldl_declare_eq, Clause.foldl_define, Algebra.foldl_define]
    simp [described, Function.comp_def]
  rw [ofClauses, hrows, halgebra]
  rfl

/-- What forms do in turn to the rows and to the parameters is what their clauses do. -/
theorem foldl_clause (statements : List Statement) {α : Type} (f : α → Form → α)
    (g : α → Clause → α) (hfg : ∀ s form a, f a form = g a (form.clause s)) (a : α) :
    ((formed statements).map Prod.snd).foldl f a = (said statements).foldl g a := by
  rw [said, List.foldl_map, List.foldl_map]
  congr 1
  funext a p
  exact hfg p.1 p.2 a

/-- The model of statements without fault is the model of what they say. -/
theorem ofStatements_eq (h : (findings statements).any Finding.isFault = false) :
    ofStatements statements =
      { ofClauses (said statements) with remarks := findings statements } := by
  have hsame (t : Table) : t = ⟨t.rows.map fun r => r⟩ := by rw [List.map_id']
  have hrows : (relationTable statements).rows = (said statements).flatMap Clause.rows := by
    rw [relationTable, said, List.flatMap_map]
    refine List.flatMap_congr fun p hp => ?_
    obtain ⟨s, form⟩ := p
    obtain ⟨hs, hform⟩ := mem_formed.1 hp
    obtain ⟨form', hform', hfaultless⟩ := findings_faultless_iff.1 h s hs
    obtain rfl : form' = form := Option.some.inj (hform'.symm.trans hform)
    exact hfaultless.rows_eq
  have hbound := foldl_clause statements Form.applyBound (fun t c => ⟨t.rows.map c.update⟩)
    fun s form t => by
      cases form with
      | bound => rfl
      | _ => exact hsame t
  have hdefinition := foldl_clause statements Form.applyDefinition
    (fun t c => ⟨t.rows.map c.settle⟩) fun s form t => by
      cases form with
      | definition => rfl
      | _ => exact hsame t
  have hdeclare := foldl_clause statements Form.declare Clause.declare
    fun s form a => by cases form <;> rfl
  have hdefine := foldl_clause statements Form.define Clause.define
    fun s form a => by cases form <;> rfl
  have hblocks : ((formed statements).filterMap fun (s, form) => form.verbatim? s) =
      (said statements).filterMap Clause.block? := by
    rw [said, List.filterMap_map]
    refine List.filterMap_congr fun p _ => ?_
    obtain ⟨s, form⟩ := p
    cases form <;> rfl
  rw [ofStatements]
  simp only
  rw [hbound, hdefinition, hdeclare, hdefine, hblocks, foldl_map_rows, foldl_map_rows, hrows,
    List.map_map]
  rfl

/-- The rows that statements say have no bounds and are free. -/
theorem bare_of_mem_said {r : Relation} (h : r ∈ (said statements).flatMap Clause.rows) :
    r.lower = none ∧ r.upper = none ∧ r.free = true := by
  obtain ⟨c, hc, hr⟩ := List.mem_flatMap.1 h
  obtain ⟨⟨s, form⟩, -, rfl⟩ := List.mem_map.1 hc
  cases form with
  | relation op lhs rhs =>
    obtain ⟨term, -, rfl⟩ := List.mem_map.1 hr
    rw [Relation.ofTerm]
    split <;> exact ⟨rfl, rfl, rfl⟩
  | _ => cases hr

/-- The model that is built from statements is, remarks aside, the one that they describe. -/
theorem build_eq_described {m : Model} (h : build statements = .ok m) :
    m = { described (said statements) with remarks := m.remarks } := by
  rw [build] at h
  split at h
  case isTrue => cases h
  case isFalse hfault =>
    cases h
    rw [ofStatements_eq (Bool.of_not_eq_true hfault),
      ofClauses_eq_described fun _ => bare_of_mem_said]

/-- Statements in which a definition and a bound come before the relations with their labels, and
    bounds and declarations are repeated. -/
def mixed : List Statement :=
  ["q:=a*2", "a>.2", "f=~a*x+2*y", "!q", "b<1", "y~a*z+b*x", "a>.5", "{raw +}", "!p", "!q",
    "b:=q"].map Statement.ofText

example : ((described (said mixed)).table.rows.map fun r => (r.rhs, r.lower, r.upper, r.free)) =
    [("x", some ".5", none, true), ("y", none, none, true), ("z", some ".5", none, true),
      ("x", none, some "1", false)] := by
  decide +kernel

/-- Mixed statements are built to what they describe. -/
theorem build_mixed_eq_described : ∃ m, build mixed = .ok m ∧
    m = { described (said mixed) with remarks := m.remarks } := by
  obtain ⟨m, hm⟩ : ∃ m, build mixed = .ok m := by
    have hfault : (findings mixed).any Finding.isFault = false := by decide +kernel
    exact ⟨ofStatements mixed, by rw [build, hfault, if_neg Bool.false_ne_true]⟩
  exact ⟨m, hm, build_eq_described hm⟩

end Model

end StructuralModel
