import StructuralModel.Proofs.Model.Interleaved
import StructuralModel.Proofs.Statement.Grammar

/-!
# Malformed statements

Which statements of a list are malformed can be told from their texts (`Statement.isMalformed`):

* a statement without form;
* a relation without a name on the left, or with a term that has an empty piece or more than two;
* a bound without value, or on a label that no row of a well-formed relation has;
* a declaration or a definition without a name, or a definition without an expression.

What is checked in a statement ends at the first thing that is wrong, and goes on in the next
statement, so each malformed statement is reported once. A malformed relation has no rows, though
some of its terms may be well formed, and so makes no bound valid.

* `faults_eq`: a statement has one fault if it is malformed, and none otherwise;
* `build_reports_malformed`: a model is built iff no statement is malformed, and otherwise the
  faults are reported statement by statement.
-/

namespace StructuralModel

open Form (Group)

/-- Whether a term has an empty piece, or more than one `*` outside of braces. -/
def Term.isMalformed (term : List Char) : Bool :=
  let pieces := Text.splitAll ['*'] term
  pieces.any List.isEmpty || decide (2 < pieces.length)

namespace Form

/-- Whether a form is a relation that is malformed. -/
def isMalformedRelation : Form → Bool
  | relation _ lhs rhs =>
    !isName nameMarks lhs.chars || (Text.splitAll ['+'] rhs.chars).any Term.isMalformed
  | _ => false

/-- Whether a form is malformed, if the rows of the well-formed relations are those of `t`. -/
def isMalformed (t : Table) : Form → Bool
  | block => false
  | relation op lhs rhs => (relation op lhs rhs).isMalformedRelation
  | bound _ target value => value.isEmpty || !t.hasLabel target.render
  | declaration name => !isName nameMarks name.chars
  | definition name expression => !isName definedNameMarks name.chars || expression.isEmpty

end Form

namespace Statement

/-- Whether a statement is malformed, if the rows of the well-formed relations are those of `t`. -/
def isMalformed (t : Table) (s : Statement) : Bool :=
  match s.form? with
  | none => true
  | some form => form.isMalformed t

/-- What is reported on a malformed statement, if the rows are those of `t`. -/
inductive Reports (t : Table) (s : Statement) : Finding → Prop
  | noOperator : s.form? = none → Reports t s (.noOperator s.render s.span)
  | relationName {op : Operator} {lhs rhs : Piece} {f : Finding} :
      s.form? = some (.relation op lhs rhs) → s.nameFault? nameMarks lhs = some f → Reports t s f
  /-- The terms are looked at behind a name, up to the first one that is malformed. -/
  | term {op : Operator} {lhs rhs term : Piece} {f : Finding} :
      s.form? = some (.relation op lhs rhs) → isName nameMarks lhs.chars = true →
      (rhs.splitAll ['+']).find? (fun p => Term.isMalformed p.chars) = some term →
      Term.read s rhs term = .error f → Reports t s f
  | emptyBound {side : Bound} {target value : Piece} :
      s.form? = some (.bound side target value) → value.isEmpty = true →
      Reports t s (.emptyBound target.render side s.span)
  | unknownLabel {side : Bound} {target value : Piece} :
      s.form? = some (.bound side target value) → value.isEmpty = false →
      t.hasLabel target.render = false →
      Reports t s (.unknownLabel target.render (s.spanOfPiece target) s.span)
  | declarationName {name : Piece} {f : Finding} :
      s.form? = some (.declaration name) → s.nameFault? nameMarks name = some f → Reports t s f
  | definitionName {name expression : Piece} {f : Finding} :
      s.form? = some (.definition name expression) →
      s.nameFault? definedNameMarks name = some f → Reports t s f
  | emptyDefinition {name expression : Piece} :
      s.form? = some (.definition name expression) →
      isName definedNameMarks name.chars = true → expression.isEmpty = true →
      Reports t s (.emptyDefinition name.render s.span)

end Statement

namespace Model

/-- The rows of the well-formed relations. -/
def wellFormedTable (statements : List Statement) : Table :=
  ⟨(formed statements).flatMap fun (s, form) =>
    if form.isMalformedRelation then [] else (form.clause s).rows⟩

/-- The groups in which statements are checked. Blocks are not checked. -/
def checkedGroups : List (Option Group) :=
  [none, some .relation, some .bound, some .declaration, some .definition]

/-- The statements that are checked, one group after the other. -/
def checked (statements : List Statement) : List Statement :=
  checkedGroups.flatMap fun group => Statement.ofGroup group statements

end Model

/-! ## Terms and relations -/

namespace Term

/-- A term is malformed iff it is not read. -/
theorem isMalformed_eq (s : Statement) (rhs p : Piece) :
    isMalformed p.chars = !(read s rhs p).isOk := by
  have hne : p.splitAll ['*'] ≠ [] := fun h =>
    Text.splitAll_ne_nil ['*'] p.chars (by rw [← Piece.map_chars_splitAll, h]; rfl)
  have hany (parts : List Piece) :
      (parts.map Piece.chars).any List.isEmpty = parts.any Piece.isEmpty := by
    rw [List.any_map]
    rfl
  rw [isMalformed, ← Piece.map_chars_splitAll, hany, List.length_map, read]
  generalize p.splitAll ['*'] = parts at hne
  cases hempty : parts.any Piece.isEmpty with
  | true => rfl
  | false =>
    rcases parts with _ | ⟨p, _ | ⟨q, _ | ⟨r, rest⟩⟩⟩
    · exact absurd rfl hne
    · rfl
    · rfl
    · simp [Except.isOk, Except.toBool]

/-- Terms that are read in turn hold no fault if none of them is malformed, and otherwise that of
    the first one. -/
theorem faults_readEach (s : Statement) (rhs : Piece) (pieces : List Piece) :
    match pieces.find? fun p => isMalformed p.chars with
    | none => (readEach s rhs pieces).1.filter Finding.isFault = []
    | some p => ∃ f, read s rhs p = .error f ∧
        (readEach s rhs pieces).1.filter Finding.isFault = [f] := by
  induction pieces with
  | nil => rfl
  | cons p pieces ih =>
    rw [List.find?_cons, isMalformed_eq s rhs p, readEach]
    cases hp : read s rhs p with
    | error f => exact ⟨f, hp, by simp [isFault_of_read hp]⟩
    | ok t =>
      have hremarks : (t.remarks s).filter Finding.isFault = [] :=
        List.filter_eq_nil_iff.2 (List.any_eq_false.1 (any_isFault_remarks s t))
      simp only [List.filter_append, hremarks, List.nil_append]
      exact ih

end Term

namespace Form

variable {s : Statement} {op : Operator} {lhs rhs : Piece}

/-- A relation that is not malformed has no fault, and any other one has the first one that is
    found in it. -/
theorem faults_readRelation (t : Table) (hform : s.form? = some (relation op lhs rhs)) :
    if (relation op lhs rhs).isMalformedRelation then
      ∃ f, ((relation op lhs rhs).readRelation s).1.filter Finding.isFault = [f] ∧
        s.Reports t f
    else ((relation op lhs rhs).readRelation s).1.filter Finding.isFault = [] := by
  rw [isMalformedRelation, readRelation]
  cases hname : s.nameFault? nameMarks lhs with
  | some f =>
    have hlhs : isName nameMarks lhs.chars = false := by
      rw [← Bool.not_eq_true, ← Statement.nameFault?_eq_none_iff, hname]
      exact Option.some_ne_none f
    rw [hlhs]
    exact ⟨f, by simp [Statement.isFault_of_nameFault? hname], .relationName hform hname⟩
  | none =>
    have hlhs := Statement.nameFault?_eq_none_iff.1 hname
    have hterms := Term.faults_readEach s rhs (rhs.splitAll ['+'])
    rw [hlhs, Bool.not_true, Bool.false_or, ← Piece.map_chars_splitAll, List.any_map]
    cases hfind : (rhs.splitAll ['+']).find? fun p => Term.isMalformed p.chars with
    | none =>
      rw [hfind] at hterms
      have hany : (rhs.splitAll ['+']).any (Term.isMalformed ∘ Piece.chars) = false :=
        List.any_eq_false.2 (List.find?_eq_none.1 hfind)
      rw [hany]
      exact hterms
    | some p =>
      rw [hfind] at hterms
      obtain ⟨f, hread, hfaults⟩ := hterms
      have hany : (rhs.splitAll ['+']).any (Term.isMalformed ∘ Piece.chars) = true :=
        List.any_eq_true.2 ⟨p, List.mem_of_find?_eq_some hfind, List.find?_some hfind⟩
      rw [hany]
      exact ⟨f, hfaults, .term hform hlhs hfind hread⟩

/-- A malformed relation adds no row, and any other one the rows that it says. -/
theorem rows_readRelation {form : Form} (hform : s.form? = some form) :
    (form.readRelation s).2 = if form.isMalformedRelation then [] else (form.clause s).rows := by
  cases form with
  | relation op lhs rhs =>
    have hfaults := faults_readRelation ⟨[]⟩ hform
    cases hmalformed : (relation op lhs rhs).isMalformedRelation with
    | false =>
      rw [hmalformed] at hfaults
      have hany := List.any_eq_false.2 (List.filter_eq_nil_iff.1 hfaults)
      exact Faultless.rows_eq (t := ⟨[]⟩) ⟨hany, rfl, rfl, rfl⟩
    | true =>
      rw [hmalformed] at hfaults
      obtain ⟨f, hf, -⟩ := hfaults
      rw [readRelation] at hf ⊢
      cases hname : s.nameFault? nameMarks lhs with
      | some => rfl
      | none =>
        rw [hname] at hf
        -- A fault among the terms leaves no terms.
        have hterms : (Term.readEach s rhs (rhs.splitAll ['+'])).2 = none := by
          rw [← Option.not_isSome_iff_eq_none,
            ← (Term.readEach_eq s rhs lhs op (rhs.splitAll ['+'])).2, List.any_eq_false,
            ← List.filter_eq_nil_iff]
          exact fun h => absurd (h.symm.trans hf) (List.cons_ne_nil f []).symm
        simp [Term.readAll, hterms]
  | _ => rfl

end Form

/-! ## Single statements -/

namespace Form

/-- What the check of a group finds on a form. -/
def found (t : Table) (s : Statement) (form : Form) : Group → List Finding
  | .block => []
  | .relation => (form.readRelation s).1
  | .bound => (form.boundFault? t s).toList
  | .declaration => (form.declarationFault? s).toList
  | .definition => (form.definitionFault? s).toList

/-- Checks of other groups find nothing. -/
theorem found_of_group_ne {form : Form} {group : Group} (h : form.group ≠ group) (t : Table)
    (s : Statement) : form.found t s group = [] := by
  cases form <;> cases group <;> first | rfl | exact absurd rfl h

end Form

namespace Statement

/-- The faults of a statement, if the rows are those of `t`. -/
def faults (t : Table) (s : Statement) : List Finding :=
  match s.form? with
  | none => [.noOperator s.render s.span]
  | some form => (form.found t s form.group).filter Finding.isFault

/-- A check that finds faults only, and one iff `b`. -/
theorem filter_isFault_toList {o : Option Finding} {b : Bool} {P : Finding → Prop}
    (hb : o.isSome = b) (h : ∀ f, o = some f → f.isFault = true ∧ P f) :
    if b then ∃ f, o.toList.filter Finding.isFault = [f] ∧ P f
    else o.toList.filter Finding.isFault = [] := by
  subst hb
  cases o with
  | none => rfl
  | some f =>
    obtain ⟨hf, hP⟩ := h f rfl
    exact ⟨f, by simp [hf], hP⟩

/-- There is something wrong with what is no name. -/
theorem isSome_nameFault? (s : Statement) (marks : String) (p : Piece) :
    (s.nameFault? marks p).isSome = !isName marks p.chars := by
  have h : s.nameFault? marks p = none ↔ isName marks p.chars = true := nameFault?_eq_none_iff
  cases hname : isName marks p.chars with
  | true => rw [h.2 hname, Option.isSome_none, Bool.not_true]
  | false =>
    rw [hname] at h
    exact Option.isSome_iff_ne_none.2 fun hnone => by cases h.1 hnone

/-- A statement has one fault if it is malformed, and none otherwise. -/
theorem faults_eq (t : Table) (s : Statement) :
    if s.isMalformed t then ∃ f, s.faults t = [f] ∧ s.Reports t f else s.faults t = [] := by
  rw [isMalformed, faults]
  cases hform : s.form? with
  | none => exact ⟨_, rfl, .noOperator hform⟩
  | some form =>
    cases form with
    | block => rfl
    | relation op lhs rhs => exact Form.faults_readRelation t hform
    | bound side target value =>
      refine filter_isFault_toList (b := (Form.bound side target value).isMalformed t) ?_
        fun f hf => ⟨Form.isFault_of_boundFault? hf, ?_⟩
      · rw [Form.boundFault?, Form.isMalformed]
        cases value.isEmpty <;> cases t.hasLabel target.render <;> rfl
      · rw [Form.boundFault?] at hf
        split at hf
        case isTrue hvalue =>
          cases hf
          exact .emptyBound hform hvalue
        case isFalse hvalue =>
          split at hf
          case isTrue => cases hf
          case isFalse hlabel =>
            cases hf
            exact .unknownLabel hform (Bool.of_not_eq_true hvalue) (Bool.of_not_eq_true hlabel)
    | declaration name =>
      exact filter_isFault_toList (isSome_nameFault? s nameMarks name) fun f hf =>
        ⟨isFault_of_nameFault? hf, .declarationName hform hf⟩
    | definition name expression =>
      refine filter_isFault_toList (b := (Form.definition name expression).isMalformed t) ?_
        fun f hf => ⟨Form.isFault_of_definitionFault? hf, ?_⟩
      · rw [Form.definitionFault?, Option.isSome_or, isSome_nameFault?, Form.isMalformed]
        cases expression.isEmpty <;> rfl
      · rcases Option.or_eq_some_iff.1 hf with hname | ⟨hname, hexpression⟩
        · exact .definitionName hform hname
        · split at hexpression
          case isTrue hempty =>
            cases hexpression
            exact .emptyDefinition hform (nameFault?_eq_none_iff.1 hname) hempty
          case isFalse => cases hexpression

end Statement

namespace Model

open Statement

variable {statements : List Statement} {group : Group}

/-! ## All statements -/

/-- Rows come from the well-formed relations only. -/
theorem relationTable_eq (statements : List Statement) :
    relationTable statements = wellFormedTable statements := by
  rw [relationTable, wellFormedTable]
  congr 1
  refine List.flatMap_congr fun p hp => ?_
  exact Form.rows_readRelation (mem_formed.1 hp).2

/-- What is found on the forms of statements is found on the statements. -/
theorem flatMap_formed_eq {α : Type} {f : Statement × Form → List α} {g : Statement → List α}
    (h : ∀ s ∈ statements, ∃ form, s.form? = some form ∧ f (s, form) = g s) :
    (formed statements).flatMap f = statements.flatMap g := by
  induction statements with
  | nil => rfl
  | cons s statements ih =>
    obtain ⟨⟨form, hform, hs⟩, hrest⟩ := List.forall_mem_cons.1 h
    have hformed : formed (s :: statements) = (s, form) :: formed statements := by
      simp [formed, hform]
    rw [hformed, List.flatMap_cons, List.flatMap_cons, hs, ih hrest]

/-- The faults that the check of a group finds are those of its statements. -/
theorem flatMap_found (t : Table) (group : Group) (statements : List Statement) :
    ((formed statements).flatMap fun p => (p.2.found t p.1 group).filter Finding.isFault) =
      (ofGroup (some group) statements).flatMap (faults t) := by
  have hne : ∀ s (form : Form), form.group ≠ group →
      (form.found t s group).filter Finding.isFault = [] := fun s form h => by
    rw [Form.found_of_group_ne h, List.filter_nil]
  rw [flatMap_formed hne]
  refine flatMap_formed_eq fun s hs => ?_
  obtain ⟨form, hform, rfl⟩ :=
    Option.map_eq_some_iff.1 (beq_iff_eq.1 (List.mem_filter.1 hs).2)
  exact ⟨form, hform, by rw [faults, hform]⟩

/-- The faults that are found are those of the statements, one group after the other. -/
theorem filter_isFault_findings (statements : List Statement) :
    (findings statements).filter Finding.isFault =
      (checked statements).flatMap (faults (relationTable statements)) := by
  rw [findings, checked, checkedGroups, filterMap_formFault?]
  generalize relationTable statements = t
  have hformless : ((ofGroup none statements).flatMap fun s =>
        s.formFault?.toList.filter Finding.isFault) =
      (ofGroup none statements).flatMap (faults t) := by
    refine List.flatMap_congr fun s hs => ?_
    have hform := Option.map_eq_none_iff.1 (beq_iff_eq.1 (List.mem_filter.1 hs).2)
    rw [formFault?, faults, hform]
    rfl
  simp only [List.filter_append, List.filterMap_eq_flatMap_toList, List.filter_flatMap,
    List.flatMap_cons, List.flatMap_nil, List.flatMap_append, List.append_nil, hformless,
    ← flatMap_found, List.append_assoc]
  rfl

/-- Every statement that is malformed is checked, as often as it occurs. -/
theorem perm_filter_checked (statements : List Statement) (t : Table) :
    ((checked statements).filter (isMalformed t)).Perm (statements.filter (isMalformed t)) := by
  refine List.perm_iff_count.2 fun s => ?_
  by_cases h : s.isMalformed t = true
  case neg =>
    rw [List.count_eq_zero_of_not_mem, List.count_eq_zero_of_not_mem]
    · exact fun hs => h (List.mem_filter.1 hs).2
    · exact fun hs => h (List.mem_filter.1 hs).2
  case pos =>
    have hcount (group : Option Group) : (ofGroup group statements).count s =
        if s.group? = group then statements.count s else 0 := by
      split
      case isTrue hgroup => exact List.count_filter (beq_iff_eq.2 hgroup)
      case isFalse hgroup =>
        exact List.count_eq_zero_of_not_mem fun hs => hgroup (beq_iff_eq.1 (List.mem_filter.1 hs).2)
    have hgroup : s.group? ∈ checkedGroups := by
      rw [isMalformed] at h
      rw [group?]
      cases hform : s.form? with
      | none => exact List.mem_cons_self
      | some form =>
        rw [hform] at h
        cases form with
        | block => cases h
        | _ => simp [checkedGroups, Form.group]
    rw [List.count_filter h, List.count_filter h, checked, checkedGroups]
    rw [checkedGroups] at hgroup
    simp only [List.flatMap_cons, List.flatMap_nil, List.count_append, List.count_nil, hcount]
    simp only [List.mem_cons, List.not_mem_nil, or_false] at hgroup
    rcases hgroup with h | h | h | h | h <;> simp [h]

/-- The faults that are found are those of the malformed statements, one for each. -/
theorem forall₂_reports (statements : List Statement) :
    List.Forall₂ (Reports (wellFormedTable statements))
      ((checked statements).filter (isMalformed (wellFormedTable statements)))
      ((findings statements).filter Finding.isFault) := by
  rw [filter_isFault_findings, relationTable_eq]
  exact forall₂_filter_flatMap fun s _ => faults_eq _ s

/-- There is a fault iff some statement is malformed. -/
theorem any_isFault_findings (statements : List Statement) :
    (findings statements).any Finding.isFault =
      statements.any (isMalformed (wellFormedTable statements)) := by
  have hlength := (forall₂_reports statements).length_eq
  rw [(perm_filter_checked statements _).length_eq, ← List.countP_eq_length_filter,
    ← List.countP_eq_length_filter] at hlength
  rw [Bool.eq_iff_iff, List.any_eq_true, List.any_eq_true, ← List.countP_pos_iff,
    ← List.countP_pos_iff, hlength]

/-- A model is built iff no statement is malformed. Otherwise the faults are reported for one
    malformed statement after the other, in groups: the statements without form, the relations, the
    bounds, the declarations, the definitions. A malformed relation has no rows. -/
theorem build_reports_malformed (statements : List Statement) :
    relationTable statements = wellFormedTable statements ∧
      match build statements with
      | .ok _ => ∀ s ∈ statements, s.isMalformed (wellFormedTable statements) = false
      | .error found => (∃ s ∈ statements, s.isMalformed (wellFormedTable statements) = true) ∧
          List.Forall₂ (Reports (wellFormedTable statements))
            ((checked statements).filter (isMalformed (wellFormedTable statements)))
            (found.filter Finding.isFault) ∧
          ((checked statements).filter (isMalformed (wellFormedTable statements))).Perm
            (statements.filter (isMalformed (wellFormedTable statements))) := by
  refine ⟨relationTable_eq statements, ?_⟩
  rw [build, any_isFault_findings]
  cases hany : statements.any (isMalformed (wellFormedTable statements)) with
  | false => exact fun s hs => Bool.of_not_eq_true (List.any_eq_false.1 hany s hs)
  | true =>
    exact ⟨List.any_eq_true.1 hany, forall₂_reports statements, perm_filter_checked statements _⟩

-- The term `a*x` is well formed, but its relation is not, so the bound is on no row.
example :
    let statements := ["a>1", "x", "f=~a*x+b**y", "y~x", "z:=", "=~x", "!"].map Statement.ofText
    ((checked statements).filter (isMalformed (wellFormedTable statements))).map Statement.render =
      ["x", "f=~a*x+b**y", "=~x", "a>1", "!", "z:="] := by
  decide +kernel

end Model

end StructuralModel
