import Mathlib.Data.List.Basic
import StructuralModel.Model.Build
import StructuralModel.Proofs.Statement.Place

/-!
# Shifted statements

If a text stands further behind in a source, all places in it move by the same number of bytes, and
nothing else changes. Everything that holds spans can be *shifted* so (`Statement.shift`,
`Finding.shift`, `Diagnostic.shift`), and every step of reading a text goes along with it.

Only statements that have characters have spans that move: the span of a statement without any lies
at byte zero, wherever the text stands.

* `Statement.ofSource_add`: a text further behind has the shifted statements, or the shifted fault;
* `Statement.spanOf_shift`: the spans of a shifted statement are shifted;
* `Statement.invalid?_shift`, `Form.readRelation_shift` and their like: so is what is found on it.
-/

namespace StructuralModel

open Text (byteSize)

/-! ## What is shifted -/

/-- The span `n` bytes further behind. -/
def Span.shift (n : Nat) (s : Span) : Span :=
  ⟨s.start + n, s.stop + n, Nat.add_le_add_right s.start_le_stop n⟩

/-- The label `n` bytes further behind. -/
def Label.shift (n : Nat) (l : Label) : Label :=
  { l with span := l.span.shift n }

/-- The diagnostic about what is `n` bytes further behind. -/
def Diagnostic.shift (n : Nat) (d : Diagnostic) : Diagnostic :=
  { d with labels := d.labels.map (Label.shift n) }

/-- The relation that is written `n` bytes further behind. -/
def Relation.shift (n : Nat) (r : Relation) : Relation :=
  { r with span := r.span.map (Span.shift n) }

/-- The table whose rows are written `n` bytes further behind. -/
def Table.shift (n : Nat) (t : Table) : Table :=
  ⟨t.rows.map (Relation.shift n)⟩

namespace Finding

/-- What is found out about a text that stands `n` bytes further behind. -/
def shift (n : Nat) : Finding → Finding
  | unclosedBrace brace => unclosedBrace (brace.shift n)
  | unmatchedBrace brace => unmatchedBrace (brace.shift n)
  | danglingOperator semicolon statement => danglingOperator (semicolon.shift n) (statement.shift n)
  | noStatements body => noStatements (body.shift n)
  | invalidStart statement first => invalidStart statement (first.shift n)
  | invalidCharacter character place statement =>
    invalidCharacter character (place.shift n) (statement.shift n)
  | noOperator text statement => noOperator text (statement.shift n)
  | noName place statement => noName (place.shift n) (statement.shift n)
  | invalidName name character forbidden place =>
    invalidName name character forbidden (place.shift n)
  | emptyTerm text place => emptyTerm text (place.shift n)
  | ambiguousTerm term place => ambiguousTerm term (place.shift n)
  | emptyBound target side statement => emptyBound target side (statement.shift n)
  | unknownLabel target place statement =>
    unknownLabel target (place.shift n) (statement.shift n)
  | emptyDefinition name statement => emptyDefinition name (statement.shift n)
  | missingValueLabel modifier => missingValueLabel (modifier.shift n)
  | noVariance latent => noVariance latent
  | fixedVariance latent value row => fixedVariance latent value (row.map (Span.shift n))
  | labelledVariance latent label row => labelledVariance latent label (row.map (Span.shift n))
  | fixedLoading latent indicator row => fixedLoading latent indicator (row.map (Span.shift n))
  | labelledLoadings latent row => labelledLoadings latent (row.map (Span.shift n))

/-- The message about a shifted finding is the shifted message. -/
theorem diagnostic_shift (n : Nat) (f : Finding) :
    (f.shift n).diagnostic = f.diagnostic.shift n := by
  have hrow (row : Option Span) (message : String) :
      rowLabel (row.map (Span.shift n)) message = (rowLabel row message).map (Label.shift n) := by
    cases row <;> rfl
  cases f with
  | fixedVariance | labelledVariance | fixedLoading | labelledLoadings =>
    rw [shift, diagnostic, hrow]
    rfl
  | _ => rfl

/-- What is found on the members of a list is shifted if it is so for each of them. -/
theorem filterMap_shift {α : Type} {n : Nat} {l : List α} {f g : α → Option Finding}
    (h : ∀ a ∈ l, f a = (g a).map (Finding.shift n)) :
    l.filterMap f = (l.filterMap g).map (Finding.shift n) := by
  rw [List.map_filterMap]
  exact List.filterMap_congr h

theorem isFault_shift (n : Nat) (f : Finding) : (f.shift n).isFault = f.isFault := by
  rw [isFault, diagnostic_shift]
  rfl

end Finding

namespace Span

theorem shift_ofBounds (n a b : Nat) : (ofBounds a b).shift n = ofBounds (a + n) (b + n) := by
  simp only [shift, ofBounds, Nat.add_max_add_right]

theorem shift_empty (n a : Nat) : (empty a).shift n = empty (a + n) :=
  shift_ofBounds n a a

theorem shift_union (n : Nat) (s t : Span) :
    (s.union t).shift n = (s.shift n).union (t.shift n) := by
  rw [union, union, shift_ofBounds, ← Nat.add_min_add_right, ← Nat.add_max_add_right]
  rfl

end Span

/-- The token `n` bytes further behind. -/
def Token.shift (n : Nat) (t : Token) : Token :=
  { t with start := t.start + n }

theorem Token.span_shift (n : Nat) (t : Token) : (t.shift n).span = t.span.shift n := by
  rw [span, span, Span.shift_ofBounds, Nat.add_right_comm]
  rfl

namespace Statement

/-- The statement `n` bytes further behind. -/
def shift (n : Nat) (s : Statement) : Statement :=
  ⟨s.chars.map fun p => (p.1, p.2 + n)⟩

variable {s : Statement}

@[simp] theorem text_shift (n : Nat) (s : Statement) : (s.shift n).text = s.text := by
  rw [text, text, shift, List.map_map]
  rfl

@[simp] theorem render_shift (n : Nat) (s : Statement) : (s.shift n).render = s.render := by
  rw [render, render, text_shift]

@[simp] theorem whole_shift (n : Nat) (s : Statement) : (s.shift n).whole = s.whole := by
  rw [whole, whole, text_shift]

@[simp] theorem form?_shift (n : Nat) (s : Statement) : (s.shift n).form? = s.form? := by
  rw [form?, form?, whole_shift]

/-! ## Spans -/

theorem origins_shift (n : Nat) (s : Statement) : (s.shift n).origins = s.origins.map (n + ·) := by
  rw [origins, origins, shift, List.flatMap_map, List.map_flatMap]
  refine congrArg (List.flatMap · s.chars) (funext fun p => ?_)
  rw [List.map_add_range', Nat.add_comm n]

/-- The spans of a shifted statement are shifted. -/
theorem spanOf_shift (h : s.text ≠ []) (n i j : Nat) :
    (s.shift n).spanOf i j = (s.spanOf i j).shift n := by
  have hne : s.origins ≠ [] := by
    intro hnil
    have hlength := length_origins s
    rw [hnil] at hlength
    exact h (Text.byteSize_eq_zero_iff.1 hlength.symm)
  have hfirst (o : Option Nat) :
      ((o.map (n + ·)).or (some (n + s.origins.getLast hne))).getD 0 =
        n + (o.or (some (s.origins.getLast hne))).getD 0 := by
    cases o <;> rfl
  rw [spanOf, spanOf]
  simp only [origins_shift, List.length_map, List.getElem?_map, List.getLast?_map,
    List.getLast?_eq_some_getLast hne, Option.map_some, hfirst]
  cases s.origins[min j s.origins.length - 1]? with
  | none =>
    rw [Span.shift_empty, Nat.add_comm]
    rfl
  | some last =>
    rw [Option.map_some]
    simp only
    split
    · rw [Span.shift_ofBounds, Nat.add_comm n, Nat.add_comm n, Nat.add_right_comm]
    · rw [Span.shift_empty, Nat.add_comm]

theorem span_shift (h : s.text ≠ []) (n : Nat) : (s.shift n).span = s.span.shift n := by
  rw [span, span, text_shift, spanOf_shift h]

theorem spanOfPiece_shift (h : s.text ≠ []) (n : Nat) (p : Piece) :
    (s.shift n).spanOfPiece p = (s.spanOfPiece p).shift n :=
  spanOf_shift h n _ _

end Statement

/-! ## Layout -/

namespace Token

variable {c : Char} {rest text after : List Char} {kind : Kind}

theorem ofText_of_first?_eq_none (h : first? c rest = none) (start : Nat) :
    ofText start (c :: rest) = .error (.unclosedBrace (.ofBounds start (start + 1))) := by
  rw [ofText]
  split
  · rfl
  · next h' =>
    rw [h] at h'
    cases h'

theorem ofText_of_first? (h : first? c rest = some (kind, text, after)) (start : Nat) :
    ofText start (c :: rest) =
      (ofText (start + byteSize text) after).map (⟨kind, text, start⟩ :: ·) := by
  rw [ofText]
  split
  · next h' =>
    rw [h] at h'
    cases h'
  · next h' =>
    rw [h] at h'
    cases h'
    cases ofText (start + byteSize text) after <;> rfl

/-- A text further behind has the shifted tokens, or the shifted fault. -/
theorem ofText_add (n start : Nat) (cs : List Char) :
    ofText (start + n) cs =
      ((ofText start cs).mapError (Finding.shift n)).map (List.map (Token.shift n)) := by
  fun_induction ofText start cs with
  | case1 =>
    rw [ofText]
    rfl
  | case2 start c rest hnone =>
    rw [ofText_of_first?_eq_none hnone, Except.mapError, Except.map, Finding.shift,
      Span.shift_ofBounds, Nat.add_right_comm]
  | case3 start c rest kind text after hfirst ih =>
    rw [ofText_of_first? hfirst, Nat.add_right_comm, ih]
    cases ofText (start + byteSize text) after <;> rfl

end Token

namespace Statement

theorem locate_add (n start : Nat) (cs : List Char) :
    locate (start + n) cs = (locate start cs).map fun p => (p.1, p.2 + n) := by
  induction cs generalizing start with
  | nil => rfl
  | cons c cs ih => rw [locate, locate, Nat.add_right_comm, ih, List.map_cons]

theorem extend_shift (n : Nat) (s : Statement) (t : Token) :
    (s.shift n).extend (t.shift n) = (s.extend t).shift n := by
  rw [extend, extend, shift, shift, List.map_append, ← locate_add]
  rfl

theorem finished_shift (n : Nat) (s : Statement) :
    (s.shift n).finished = s.finished.map (shift n) := by
  obtain ⟨chars⟩ := s
  cases chars <;> rfl

/-- The statements, or the fault, of a text that stands `n` bytes further behind. -/
def shiftFound (n : Nat) (found : Except Finding (List Statement)) :
    Except Finding (List Statement) :=
  (found.mapError (Finding.shift n)).map (List.map (shift n))

theorem shiftFound_map_append (n : Nat) (s : Statement)
    (found : Except Finding (List Statement)) :
    (shiftFound n found).map ((s.shift n).finished ++ ·) =
      shiftFound n (found.map (s.finished ++ ·)) := by
  cases found with
  | error => rfl
  | ok statements =>
    refine congrArg Except.ok ?_
    rw [finished_shift, List.map_append]

/-- Shifted tokens make shifted statements. An open statement has characters, so that the span of
    what a semicolon cuts off moves too. -/
theorem ofTokens_shift (n : Nat) {s : Statement} {isOpen : Bool} (h : isOpen = true → s.text ≠ [])
    (tokens : List Token) :
    ofTokens (s.shift n) isOpen (tokens.map (Token.shift n)) =
      shiftFound n (ofTokens s isOpen tokens) := by
  induction tokens generalizing s isOpen with
  | nil => exact congrArg Except.ok (finished_shift n s)
  | cons t tokens ih =>
    have hnew : ofTokens {} false (tokens.map (Token.shift n)) =
        shiftFound n (ofTokens {} false tokens) :=
      ih (s := {}) fun h => by cases h
    have hkind : (t.shift n).kind = t.kind := rfl
    rw [List.map_cons, ofTokens, ofTokens, hkind]
    split
    case h_1 | h_2 => exact ih h
    case h_3 =>
      split
      · exact ih h
      · rw [hnew, shiftFound_map_append]
    case h_4 =>
      split
      case isTrue hopen =>
        rw [Token.span_shift, span_shift (h hopen), ← Span.shift_union]
        rfl
      case isFalse => rw [hnew, shiftFound_map_append]
    case h_5 =>
      rw [Token.span_shift]
      rfl
    case h_6 =>
      rw [extend_shift]
      exact ih fun h => by cases h
    case h_7 =>
      rw [extend_shift]
      refine ih fun hlast htext => ?_
      rw [text, extend, List.map_append, map_fst_locate] at htext
      have hnil : (t.shift n).text = [] := (List.append_eq_nil_iff.1 htext).2
      rw [hnil] at hlast
      cases hlast

/-- A text further behind has the shifted statements, or the shifted fault. -/
theorem ofSource_add (n start : Nat) (cs : List Char) :
    ofSource (start + n) cs = shiftFound n (ofSource start cs) := by
  rw [ofSource, ofSource, Token.ofText_add]
  cases Token.ofText start cs with
  | error => rfl
  | ok tokens => exact ofTokens_shift n (s := {}) (fun h : false = true => by cases h) tokens

/-! ## Characters -/

/-- What makes a shifted statement invalid is what makes the statement invalid. -/
theorem invalid?_shift (n : Nat) (s : Statement) :
    (s.shift n).invalid? = s.invalid?.map (Finding.shift n) := by
  rw [invalid?, invalid?, text_shift]
  split
  case h_1 => rfl
  case h_2 c rest htext =>
    have hne : s.text ≠ [] := htext ▸ List.cons_ne_nil c rest
    have hchar (i : Nat) (c : Char) : (s.shift n).spanOfChar i c = (s.spanOfChar i c).shift n :=
      spanOf_shift hne n _ _
    split
    · rw [render_shift, hchar]
      rfl
    · rw [form?_shift, whole_shift]
      split
      · rfl
      · simp only [Option.map_map, span_shift hne]
        refine congrArg (Option.map · _) (funext fun p => ?_)
        rw [Function.comp_apply, hchar]
        rfl

/-- Shifted statements are valid if the statements are. -/
theorem validate_shift (n : Nat) (statements : List Statement) :
    validate (statements.map (shift n)) =
      (validate statements).mapError (List.map (Finding.shift n)) := by
  have hinvalid : (statements.map (shift n)).filterMap invalid? =
      (statements.filterMap invalid?).map (Finding.shift n) := by
    rw [List.filterMap_map]
    exact Finding.filterMap_shift fun s _ => invalid?_shift n s
  rw [validate, validate, hinvalid]
  cases statements.filterMap invalid? <;> rfl

/-! ## Forms -/

variable {s : Statement}

theorem nameFault?_shift (h : s.text ≠ []) (n : Nat) (marks : String) (name : Piece) :
    (s.shift n).nameFault? marks name = (s.nameFault? marks name).map (Finding.shift n) := by
  rw [nameFault?, nameFault?, spanOfPiece_shift h, span_shift h]
  split
  · rfl
  · rw [Option.map_map]
    rfl

theorem formFault?_shift (h : s.text ≠ []) (n : Nat) :
    (s.shift n).formFault? = s.formFault?.map (Finding.shift n) := by
  rw [formFault?, formFault?, form?_shift, render_shift, span_shift h]
  cases s.form? <;> rfl

end Statement

namespace Term

variable {s : Statement}

theorem read_shift (h : s.text ≠ []) (n : Nat) (rhs term : Piece) :
    read (s.shift n) rhs term = (read s rhs term).mapError (Finding.shift n) := by
  rw [read, read, Statement.render_shift, Statement.spanOfPiece_shift h,
    Statement.spanOfPiece_shift h]
  split
  · rfl
  · split <;> rfl

theorem remarks_shift (h : s.text ≠ []) (n : Nat) (t : Term) :
    t.remarks (s.shift n) = (t.remarks s).map (Finding.shift n) := by
  rw [remarks, remarks, List.map_map]
  refine congrArg (List.map · _) (funext fun p => ?_)
  rw [Statement.spanOfPiece_shift h]
  rfl

/-- The terms of a shifted statement are the same, and what is found on them is shifted. -/
theorem readEach_shift (h : s.text ≠ []) (n : Nat) (rhs : Piece) (pieces : List Piece) :
    readEach (s.shift n) rhs pieces =
      ((readEach s rhs pieces).1.map (Finding.shift n), (readEach s rhs pieces).2) := by
  induction pieces with
  | nil => rfl
  | cons p pieces ih =>
    rw [readEach, readEach, read_shift h]
    cases read s rhs p with
    | error => rfl
    | ok t =>
      rw [Except.mapError]
      simp only [ih, remarks_shift h, List.map_append]

end Term

namespace Form

variable {s : Statement}

theorem readRelation_shift (h : s.text ≠ []) (n : Nat) (form : Form) :
    form.readRelation (s.shift n) =
      ((form.readRelation s).1.map (Finding.shift n),
        (form.readRelation s).2.map (Relation.shift n)) := by
  cases form with
  | relation op lhs rhs =>
    rw [readRelation, readRelation, Statement.nameFault?_shift h]
    cases s.nameFault? nameMarks lhs with
    | some => rfl
    | none =>
      rw [Option.map_none, Term.readAll, Term.readEach_shift h, Statement.span_shift h]
      simp only [Term.readAll, List.map_map]
      rfl
  | _ => rfl

theorem boundFault?_shift (h : s.text ≠ []) (n : Nat) (t : Table) (form : Form) :
    form.boundFault? (t.shift n) (s.shift n) = (form.boundFault? t s).map (Finding.shift n) := by
  cases form with
  | bound side target value =>
    have hlabel : (t.shift n).hasLabel target.render = t.hasLabel target.render := by
      rw [Table.hasLabel, Table.hasLabel, Table.shift, List.any_map]
      rfl
    rw [boundFault?, boundFault?, hlabel, Statement.spanOfPiece_shift h, Statement.span_shift h]
    split
    · rfl
    · split <;> rfl
  | _ => rfl

theorem declarationFault?_shift (h : s.text ≠ []) (n : Nat) (form : Form) :
    form.declarationFault? (s.shift n) = (form.declarationFault? s).map (Finding.shift n) := by
  cases form with
  | declaration name => exact Statement.nameFault?_shift h n _ _
  | _ => rfl

theorem definitionFault?_shift (h : s.text ≠ []) (n : Nat) (form : Form) :
    form.definitionFault? (s.shift n) = (form.definitionFault? s).map (Finding.shift n) := by
  cases form with
  | definition name expression =>
    rw [definitionFault?, definitionFault?, Statement.nameFault?_shift h, Statement.span_shift h]
    cases s.nameFault? definedNameMarks name with
    | some => rfl
    | none =>
      rw [Option.map_none, Option.none_or, Option.none_or]
      split <;> rfl
  | _ => rfl

end Form

end StructuralModel
