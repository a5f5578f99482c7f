import StructuralModel.Model.Build
import StructuralModel.Proofs.Statement.Outside

/-!
# Clauses

A *clause* is what a statement says, wherever it stands: the rows that it adds, the bound that it
sets, the name that it declares, the definition that it makes, or the block that it keeps. It is
read from the text of the statement alone (`Clause.ofText?`), and a text that breaks some rule,
other than that a bounded label is known, has none.

* `invalid?_eq_none_iff`: which statements are valid, told by their texts;
* `Term.readEach_eq`: which terms are well formed, told by their texts, and which rows they add;
* `faultless_iff`: a form is without fault iff it makes a clause, and a bound one of a known label.
-/

namespace StructuralModel

namespace Relation

/-- A relation without the place where it was written. -/
def unplaced (r : Relation) : Relation :=
  { r with span := none }

/-- A relation as a statement adds it, before bounds are set and computed rows are marked. -/
def bare (r : Relation) : Relation :=
  { r with lower := none, upper := none, free := true, span := none }

end Relation

/-- What a statement says. -/
inductive Clause where
  /-- Rows are added. -/
  | relations (rows : List Relation)
  /-- A parameter is bounded. -/
  | bound (label : String) (side : Bound) (value : String)
  /-- A parameter is declared. -/
  | declaration (name : String)
  /-- A parameter is defined. -/
  | definition (d : Definition)
  /-- A block is kept. -/
  | block (text : String)
  deriving DecidableEq

/-! ## Valid texts -/

namespace Statement

/-- Whether a statement with a text is valid. -/
def isValid (cs : List Char) : Bool :=
  cs.head?.any isStart &&
    match Form.ofPiece? ⟨0, cs⟩ with
    | some .block => true
    | form =>
      let (part, extra) := Form.checked ⟨0, cs⟩ form
      (Text.outside 0 part.chars).all fun c => isOrdinary c || extra == some c

theorem firstUnordinary?_eq_none_iff {extra : Option Char} {start d : Nat} {cs : List Char} :
    firstUnordinary? extra start d cs = none ↔
      ∀ c ∈ Text.outside d cs, isOrdinary c = true ∨ extra = some c := by
  rw [firstUnordinary?_eq_find?, List.find?_eq_none, ← Text.map_snd_topLevel start,
    List.forall_mem_map]
  refine forall₂_congr fun p _ => ?_
  rw [Bool.not_eq_true, Bool.not_eq_false', isAllowed, Bool.or_eq_true, beq_iff_eq]

/-- Which statements are valid, told by their texts. -/
theorem invalid?_eq_none_iff {s : Statement} (h : s.text ≠ []) :
    s.invalid? = none ↔ isValid s.text = true := by
  obtain ⟨c, cs, htext⟩ := List.exists_cons_of_ne_nil h
  have hblock : Form.ofPiece? ⟨0, s.text⟩ = some .block ↔ Text.isBlock s.text = true :=
    form?_eq_block_iff
  have hhead : s.text.head?.any isStart = isStart c := by rw [htext]; rfl
  rw [invalid?_eq htext, isValid, hhead]
  cases isStart c with
  | false => simp
  | true =>
    simp only [Bool.true_eq_false, if_false, Bool.true_and]
    split
    case isTrue h => rw [hblock.2 h]; simp
    case isFalse h =>
      split
      case h_1 hform => exact absurd (hblock.1 hform) h
      case h_2 =>
        rw [Option.map_eq_none_iff, unallowed?, firstUnordinary?_eq_none_iff]
        simp [List.all_eq_true, Form.checkedOf]

end Statement

/-! ## Names and terms -/

/-- Whether a text may be the name on the left of a statement: it is not empty, and holds neither a
    space nor one of the `marks`. -/
def isName (marks : String) (cs : List Char) : Bool :=
  !cs.isEmpty && cs.all fun c => !(c == ' ' || marks.toList.contains c)

/-- A name holds something, but neither spaces nor marks. -/
theorem isName_iff {marks : String} {name : List Char} :
    isName marks name = true ↔ name ≠ [] ∧ ∀ c ∈ name, c ≠ ' ' ∧ c ∉ marks.toList := by
  rw [isName, Bool.and_eq_true, List.all_eq_true]
  refine and_congr (by simp) (forall₂_congr fun c hc => by simp)

theorem Statement.nameFault?_eq_none_iff {s : Statement} {marks : String} {p : Piece} :
    s.nameFault? marks p = none ↔ isName marks p.chars = true := by
  rw [nameFault?, isName, Piece.isEmpty]
  split
  case isTrue h => simp [h]
  case isFalse h => simp [h, List.find?_eq_none]

theorem Statement.isFault_of_nameFault? {s : Statement} {marks : String} {p : Piece} {x : Finding}
    (h : s.nameFault? marks p = some x) : x.isFault = true := by
  rw [nameFault?] at h
  split at h
  · cases h
    rfl
  · obtain ⟨c, -, rfl⟩ := Option.map_eq_some_iff.1 h
    rfl

/-- The row that the text of a term makes. -/
def Relation.ofTerm? (lhs : String) (op : Operator) (cs : List Char) : Option Relation :=
  match Text.splitAll ['*'] cs with
  | [name] => if name.isEmpty then none else some { lhs, op, rhs := String.ofList name }
  | [modifier, name] =>
    if modifier.isEmpty || name.isEmpty then none
    else some { lhs, op, rhs := String.ofList name, modifier := some (.ofPiece ⟨0, modifier⟩) }
  | _ => none

theorem Piece.map_chars_splitAll (delimiter : List Char) (p : Piece) :
    (p.splitAll delimiter).map Piece.chars = Text.splitAll delimiter p.chars := by
  have chain (gap start : Nat) (texts : List (List Char)) :
      (Piece.chain gap start texts).map Piece.chars = texts := by
    induction texts generalizing start with
    | nil => rfl
    | cons cs texts ih => rw [Piece.chain, List.map_cons, ih]
  exact chain ..

namespace Term

/-- A term is well formed iff its text makes a row, and that is its row. -/
theorem toOption_read (s : Statement) (rhs term lhs : Piece) (op : Operator) :
    (read s rhs term).toOption.map (fun t => (t.relation s.span lhs op).unplaced) =
      Relation.ofTerm? lhs.render op term.chars := by
  rw [Relation.ofTerm?, ← Piece.map_chars_splitAll, read]
  generalize term.splitAll ['*'] = parts
  match parts with
  | [] => rfl
  | [name] =>
    rw [List.any_cons, List.any_nil, Bool.or_false, Piece.isEmpty]
    cases h : name.chars.isEmpty
    all_goals
      simp only [List.map_cons, List.map_nil, h]
      rfl
  | [modifier, name] =>
    rw [List.any_cons, List.any_cons, List.any_nil, Bool.or_false, Piece.isEmpty, Piece.isEmpty]
    cases h : modifier.chars.isEmpty || name.chars.isEmpty
    all_goals
      simp only [List.map_cons, List.map_nil, h]
      rfl
  | p :: q :: r :: rest =>
    simp only [List.map_cons]
    split <;> rfl

/-- A malformed term is a fault. -/
theorem isFault_of_read {s : Statement} {rhs term : Piece} {fault : Finding}
    (h : read s rhs term = .error fault) : fault.isFault = true := by
  unfold read at h
  simp only at h
  split at h
  · cases h
    rfl
  · split at h
    all_goals cases h
    rfl

/-- The remarks on a term are no faults. -/
theorem any_isFault_remarks (s : Statement) (t : Term) :
    (t.remarks s).any Finding.isFault = false := by
  rw [remarks]
  cases t.modifier.filter fun p => p.chars == ['N', 'A'] <;> rfl

/-- Terms are read without fault iff all of their texts make rows, and these are their rows. -/
theorem readEach_eq (s : Statement) (rhs lhs : Piece) (op : Operator) (terms : List Piece) :
    ((readEach s rhs terms).2.map fun ts =>
        ts.map fun t => (t.relation s.span lhs op).unplaced) =
      (terms.map Piece.chars).mapM (Relation.ofTerm? lhs.render op) ∧
    ((readEach s rhs terms).1.any Finding.isFault = false ↔
      (readEach s rhs terms).2.isSome = true) := by
  induction terms with
  | nil => exact ⟨rfl, iff_of_true rfl rfl⟩
  | cons p rest ih =>
    obtain ⟨hrows, hfault⟩ := ih
    have hread := toOption_read s rhs p lhs op
    rw [List.map_cons, List.mapM_cons, ← hread, ← hrows, readEach]
    cases hp : read s rhs p with
    | error fault =>
      refine ⟨rfl, ?_⟩
      simp [isFault_of_read hp]
    | ok t =>
      simp only
      refine ⟨?_, ?_⟩
      · cases (readEach s rhs rest).2 <;> rfl
      · rw [List.any_append, any_isFault_remarks, Bool.false_or, hfault, Option.isSome_map]

end Term

/-! ## Clauses of forms and texts -/

namespace Clause

/-- The clause that a form makes, in a statement with the text `cs`; nothing if it has a fault. -/
def ofForm? (cs : List Char) : Form → Option Clause
  | .block => some (block (String.ofList cs))
  | .relation op lhs rhs =>
    if isName nameMarks lhs.chars then
      ((Text.splitAll ['+'] rhs.chars).mapM (Relation.ofTerm? lhs.render op)).map relations
    else none
  | .bound side target value =>
    if value.isEmpty then none else some (bound target.render side value.render)
  | .declaration name =>
    if isName nameMarks name.chars then some (declaration name.render) else none
  | .definition name expression =>
    if isName definedNameMarks name.chars && !expression.isEmpty then
      some (definition ⟨name.render, expression.render⟩)
    else none

/-- Which clause a form makes, with what has to hold of its parts. -/
inductive Says (cs : List Char) : Form → Clause → Prop
  | block : Says cs .block (block (String.ofList cs))
  | relation {op : Operator} {lhs rhs : Piece} {rows : List Relation} :
      isName nameMarks lhs.chars = true →
      (Text.splitAll ['+'] rhs.chars).map (Relation.ofTerm? lhs.render op) = rows.map some →
      Says cs (.relation op lhs rhs) (relations rows)
  | bound {side : Bound} {target value : Piece} : value.isEmpty = false →
      Says cs (.bound side target value) (bound target.render side value.render)
  | declaration {name : Piece} : isName nameMarks name.chars = true →
      Says cs (.declaration name) (declaration name.render)
  | definition {name expression : Piece} : isName definedNameMarks name.chars = true →
      expression.isEmpty = false →
      Says cs (.definition name expression) (definition ⟨name.render, expression.render⟩)

/-- Something is made of every text iff all of them make something. -/
theorem mapM_eq_some_iff {α β : Type} {f : α → Option β} {l : List α} {l' : List β} :
    l.mapM f = some l' ↔ l.map f = l'.map some := by
  induction l generalizing l' with
  | nil => cases l' <;> simp
  | cons a l ih =>
    rw [List.mapM_cons]
    cases hf : f a with
    | none => cases l' <;> simp [hf]
    | some b =>
      cases l' with
      | nil => cases l.mapM f <;> simp
      | cons b' l' =>
        rw [List.map_cons, List.map_cons, hf, List.cons.injEq, ← ih]
        cases l.mapM f <;> simp

theorem ofForm?_eq_some_iff {cs : List Char} {form : Form} {c : Clause} :
    ofForm? cs form = some c ↔ Says cs form c := by
  constructor
  · intro h
    cases form with
    | block =>
      cases h
      exact .block
    | relation op lhs rhs =>
      rw [ofForm?] at h
      split at h
      case isTrue hname =>
        obtain ⟨rows, hrows, rfl⟩ := Option.map_eq_some_iff.1 h
        exact .relation hname (mapM_eq_some_iff.1 hrows)
      case isFalse => cases h
    | bound side target value =>
      rw [ofForm?] at h
      split at h
      case isTrue => cases h
      case isFalse hvalue =>
        cases h
        exact .bound (Bool.of_not_eq_true hvalue)
    | declaration name =>
      rw [ofForm?] at h
      split at h
      case isTrue hname =>
        cases h
        exact .declaration hname
      case isFalse => cases h
    | definition name expression =>
      rw [ofForm?] at h
      split at h
      case isTrue hboth =>
        obtain ⟨hname, hexpression⟩ := Bool.and_eq_true_iff.1 hboth
        cases h
        exact .definition hname (Bool.not_eq_true' _ ▸ hexpression)
      case isFalse => cases h
  · intro h
    cases h with
    | block => rfl
    | relation hname hrows => rw [ofForm?, if_pos hname, mapM_eq_some_iff.2 hrows, Option.map_some]
    | bound hvalue => rw [ofForm?, hvalue, if_neg Bool.false_ne_true]
    | declaration hname => rw [ofForm?, if_pos hname]
    | definition hname hexpression => rw [ofForm?, hname, hexpression]; rfl

/-- The clause that a text makes; nothing if it is not valid or has a fault. -/
def ofText? (cs : List Char) : Option Clause :=
  if Statement.isValid cs then (Form.ofPiece? ⟨0, cs⟩).bind (ofForm? cs) else none

theorem ofText?_eq_some_iff {cs : List Char} {c : Clause} :
    ofText? cs = some c ↔ Statement.isValid cs = true ∧
      ∃ form, Form.ofPiece? ⟨0, cs⟩ = some form ∧ Says cs form c := by
  simp only [← ofForm?_eq_some_iff]
  rw [ofText?]
  split
  case isTrue h => rw [Option.bind_eq_some_iff, and_iff_right h]
  case isFalse h => simp [h]

/-- The rows that a clause adds. -/
def rows : Clause → List Relation
  | relations rows => rows
  | _ => []

/-- What a clause does to the row of a parameter. -/
def update : Clause → Relation → Relation
  | bound label side value, r => if r.hasLabel label then r.setBound side value else r
  | _, r => r

/-- What a clause does to the row of a parameter when all bounds are set. -/
def settle : Clause → Relation → Relation
  | definition d, r => if r.hasLabel d.name then r.markComputed else r
  | _, r => r

/-- Adds a declaration. -/
def declare (a : Algebra) : Clause → Algebra
  | declaration name => a.declare name
  | _ => a

/-- Adds a definition. -/
def define (a : Algebra) : Clause → Algebra
  | definition d => a.define d
  | _ => a

/-- The block that a clause keeps. -/
def block? : Clause → Option String
  | block text => some text
  | _ => none

/-- In a table with the label that is bounded, if one is. -/
def Known (t : Table) : Clause → Prop
  | bound label _ _ => t.hasLabel label = true
  | _ => True

end Clause

/-- The clause that a statement makes. -/
def Statement.clause? (s : Statement) : Option Clause :=
  Clause.ofText? s.text

/-- What a form does to a model is what its clause does. -/
structure Form.Makes (form : Form) (s : Statement) (c : Clause) : Prop where
  rows : (form.readRelation s).2.map Relation.unplaced = c.rows
  bound : ∀ t : Table, form.applyBound t = ⟨t.rows.map c.update⟩
  definition : ∀ t : Table, form.applyDefinition t = ⟨t.rows.map c.settle⟩
  declare : ∀ a : Algebra, form.declare a = c.declare a
  define : ∀ a : Algebra, form.define a = c.define a
  block : form.verbatim? s = c.block?

namespace Form

theorem makes_of_says {form : Form} {s : Statement} {c : Clause}
    (h : Clause.Says s.text form c) : form.Makes s c := by
  have same (t : Table) : t = ⟨t.rows.map fun r => r⟩ := by rw [List.map_id']
  cases h with
  | block => exact ⟨rfl, same, same, fun _ => rfl, fun _ => rfl, rfl⟩
  | @relation op lhs rhs rows hname hrows =>
    refine ⟨?_, same, same, fun _ => rfl, fun _ => rfl, rfl⟩
    rw [← Clause.mapM_eq_some_iff, ← Piece.map_chars_splitAll,
      ← (Term.readEach_eq s rhs lhs op _).1] at hrows
    obtain ⟨terms, hterms, rfl⟩ := Option.map_eq_some_iff.1 hrows
    rw [readRelation, Statement.nameFault?_eq_none_iff.2 hname]
    simp [Term.readAll, hterms, Clause.rows, Function.comp_def]
  | bound => exact ⟨rfl, fun _ => rfl, same, fun _ => rfl, fun _ => rfl, rfl⟩
  | declaration => exact ⟨rfl, same, same, fun _ => rfl, fun _ => rfl, rfl⟩
  | definition => exact ⟨rfl, same, fun _ => rfl, fun _ => rfl, fun _ => rfl, rfl⟩

/-- Nothing is wrong with a form, in a model with the rows of `t`. -/
def Faultless (t : Table) (s : Statement) (form : Form) : Prop :=
  (form.readRelation s).1.any Finding.isFault = false ∧ form.boundFault? t s = none ∧
    form.declarationFault? s = none ∧ form.definitionFault? s = none

theorem isFault_of_boundFault? {form : Form} {s : Statement} {t : Table} {x : Finding}
    (h : form.boundFault? t s = some x) : x.isFault = true := by
  unfold boundFault? at h
  split at h
  · split at h
    · cases h
      rfl
    · split at h <;> cases h
      rfl
  · cases h

theorem isFault_of_declarationFault? {form : Form} {s : Statement} {x : Finding}
    (h : form.declarationFault? s = some x) : x.isFault = true := by
  unfold declarationFault? at h
  split at h
  · exact Statement.isFault_of_nameFault? h
  · cases h

theorem isFault_of_definitionFault? {form : Form} {s : Statement} {x : Finding}
    (h : form.definitionFault? s = some x) : x.isFault = true := by
  unfold definitionFault? at h
  split at h
  · rcases Option.or_eq_some_iff.1 h with h | ⟨-, h⟩
    · exact Statement.isFault_of_nameFault? h
    · split at h <;> cases h
      rfl
  · cases h

/-- A form is without fault iff it makes a clause, and a bound one of a known label. -/
theorem faultless_iff {form : Form} {s : Statement} {t : Table} :
    form.Faultless t s ↔ ∃ c, Clause.Says s.text form c ∧ c.Known t := by
  simp only [← Clause.ofForm?_eq_some_iff]
  unfold Faultless
  cases form with
  | block => exact iff_of_true ⟨rfl, rfl, rfl, rfl⟩ ⟨_, rfl, trivial⟩
  | relation op lhs rhs =>
    simp only [boundFault?, declarationFault?, definitionFault?, and_true, readRelation,
      Clause.ofForm?]
    cases hname : s.nameFault? nameMarks lhs with
    | some fault =>
      have hfault := Statement.isFault_of_nameFault? hname
      have hnot : ¬isName nameMarks lhs.chars = true := fun h => by
        rw [Statement.nameFault?_eq_none_iff.2 h] at hname
        cases hname
      simp [hfault, hnot]
    | none =>
      rw [if_pos (Statement.nameFault?_eq_none_iff.1 hname), ← Piece.map_chars_splitAll,
        ← (Term.readEach_eq s rhs lhs op _).1]
      refine (Term.readEach_eq s rhs lhs op _).2.trans ?_
      cases (Term.readEach s rhs (rhs.splitAll ['+'])).2 with
      | none => simp
      | some terms => exact iff_of_true rfl ⟨_, rfl, trivial⟩
  | definition name expression =>
    simp only [boundFault?, declarationFault?, definitionFault?, true_and, readRelation,
      Clause.ofForm?, Option.or_eq_none_iff, Statement.nameFault?_eq_none_iff, List.any_nil]
    cases isName definedNameMarks name.chars <;> cases expression.isEmpty <;>
      simp [Clause.Known]
  | bound side target value =>
    simp only [boundFault?, declarationFault?, definitionFault?, and_true, true_and, readRelation,
      Clause.ofForm?, List.any_nil]
    cases value.isEmpty <;> simp [Clause.Known]
  | declaration name =>
    simp only [boundFault?, declarationFault?, definitionFault?, and_true, true_and, readRelation,
      Clause.ofForm?, List.any_nil, Statement.nameFault?_eq_none_iff]
    cases isName nameMarks name.chars <;> simp [Clause.Known]

end Form

end StructuralModel
