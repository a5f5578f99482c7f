import Mathlib.Tactic.Tauto
import StructuralModel.Proofs.Model.Grounded
import StructuralModel.Proofs.Model.RoundTrip

/-!
# Well-formed rows

What is done with a table takes for granted what its rows are made of: the left side of a row is a
plain name, and its right side, its modifier and its bounds are texts that hold something and close
their braces (`Relation.WellFormed`). No single step of reading sees to this. The scanner closes the
braces, validation looks at the first character of a statement and at those outside of braces, the
operator and the signs `+` and `*` outside are where the parts are cut, and names are looked at in
full. Each of these steps has its own notion of what is within braces; that all of them agree is the
reason why the parts of a balanced text are balanced.

* `IsPart.isOperand`: a part of a statement has no operator and no unusual character outside;
* `Clause.value_of_ofText?`: the value of a bound holds something and is balanced;
* `wellFormed_parse`: all rows of a table that was read are well formed.
-/

namespace StructuralModel

open Text (Balanced outside)

/-- The characters that the operands of a relation may have outside of braces. -/
def isOperandChar (c : Char) : Bool :=
  Text.isLetter c || Text.isNumber c || ['_', '=', '~', '.', '-'].contains c

/-- A text that stands between the operators of a relation. -/
structure IsOperand (cs : List Char) : Prop where
  ne_nil : cs ≠ []
  balanced : Balanced cs
  undivided : '+' ∉ outside 0 cs ∧ '*' ∉ outside 0 cs
  characters : ∀ c ∈ outside 0 cs, isOperandChar c = true

/-- A relation as the steps behind reading rely on it. -/
structure Relation.WellFormed (r : Relation) : Prop where
  isEdge : r.op ≠ .define
  lhs : IsOperand r.lhs.toList
  start : ∃ c ∈ r.lhs.toList.head?, Text.isLetter c = true ∨ c = '_' ∨ c = '{'
  marks : ∀ c ∈ r.lhs.toList, c ∉ ['!', '+', '*', '=', '~', ':', ' ']
  rhs : IsOperand r.rhs.toList
  modifier : ∀ m, r.modifier = some m → IsOperand m.text.toList
  fixed : ∀ m, r.modifier = some m → (m.isFixed = true ↔ Text.isNumeral m.text.toList = true)
  bound : ∀ side value, r.bound? side = some value → value ≠ "" ∧ Balanced value.toList

/-! ## Names and modifiers -/

/-- A character that is ordinary, and no sign at which the parts of a relation are cut, is one of
    operands. -/
theorem isOperandChar_of_isOrdinary {c : Char} (h : Statement.isOrdinary c = true)
    (hplus : c ≠ '+') (hstar : c ≠ '*') : isOperandChar c = true := by
  simp only [Statement.isOrdinary, Bool.or_eq_true, beq_iff_eq] at h
  simp only [isOperandChar, Bool.or_eq_true, List.contains_iff_mem, List.mem_cons,
    List.not_mem_nil, or_false]
  tauto

/-- A part of a statement is an operand. -/
theorem IsPart.isOperand {cs : List Char} (h : IsPart cs) : IsOperand cs := by
  refine ⟨h.ne_nil, h.balanced, h.undivided, fun c hc => ?_⟩
  refine isOperandChar_of_isOrdinary (h.ordinary c hc) ?_ ?_
  · rintro rfl
    exact h.undivided.1 hc
  · rintro rfl
    exact h.undivided.2 hc

/-- A modifier is a value just when its text is a numeral. -/
theorem Modifier.isFixed_ofPiece (p : Piece) :
    (Modifier.ofPiece p).isFixed = Text.isNumeral p.chars := by
  rw [ofPiece]
  cases Text.isNumeral p.chars with
  | true => rfl
  | false => rfl

/-- The mark of a declaration may start a statement, but no name. -/
theorem exists_start_of_isName {name : List Char} (h : isName nameMarks name = true)
    (hstart : ∃ c ∈ name.head?, Statement.isStart c = true) :
    ∃ c ∈ name.head?, Text.isLetter c = true ∨ c = '_' ∨ c = '{' := by
  obtain ⟨c, hc, hstart⟩ := hstart
  have hmark : c ≠ '!' := by
    rintro rfl
    exact ((isName_iff.1 h).2 _ (List.mem_of_mem_head? hc)).2 (by decide)
  refine ⟨c, hc, ?_⟩
  simp only [Statement.isStart, Bool.or_eq_true, beq_iff_eq] at hstart
  tauto

/-! ## Bounds -/

/-- The value of a bound holds something and is balanced, since it is cut off at a sign outside of
    braces. -/
theorem Clause.value_of_ofText? {cs : List Char} {label value : String} {side : Bound}
    (h : ofText? cs = some (bound label side value)) (hcs : Compact cs) :
    value ≠ "" ∧ Balanced value.toList := by
  have htext := text_of_ofText? h rfl
  have hstable : (bound label side value).Stable := ⟨by rwa [htext], by rwa [htext]⟩
  refine ⟨?_, hstable.parts_of_bound.2.balanced⟩
  obtain ⟨-, form, -, hsays⟩ := ofText?_eq_some_iff.1 h
  cases hsays with
  | @bound _ _ value hvalue =>
    intro hempty
    have hnil := congrArg String.toList hempty
    rw [Piece.render, String.toList_ofList] at hnil
    rw [Piece.isEmpty, hnil] at hvalue
    cases hvalue

/-! ## Rows that were read -/

/-- The operands of a row are well formed as soon as it is read from a statement; its bounds come
    from other statements. -/
theorem Relation.Read.wellFormed {r : Relation} (h : r.bare.Read)
    (hbound : ∀ side value, r.bound? side = some value → value ≠ "" ∧ Balanced value.toList) :
    r.WellFormed where
  isEdge := h.isEdge
  lhs := h.lhs.isOperand
  start := exists_start_of_isName h.isName h.start
  marks c hc hmem := by
    obtain ⟨hspace, hmarks⟩ := (isName_iff.1 h.isName).2 c hc
    have hmem : c ∈ nameMarks.toList ++ [' '] := hmem
    rcases List.mem_append.1 hmem with hmem | hmem
    · exact hmarks hmem
    · exact hspace (List.mem_singleton.1 hmem)
  rhs := h.rhs.isOperand
  modifier m hm := (h.modifier m hm).1.isOperand
  fixed m hm := by
    obtain ⟨-, hread⟩ := h.modifier m hm
    have hfixed := Modifier.isFixed_ofPiece ⟨0, m.text.toList⟩
    rw [hread] at hfixed
    rw [hfixed]
  bound := hbound

/-- All rows of a table that was read are well formed. -/
theorem wellFormed_parse {source : String} {m : Model} (h : Model.parse source = .ok m) :
    ∀ r ∈ m.table.rows, r.WellFormed := by
  obtain ⟨statements, hs, -, hcoherent, -, hread, clauses, hfrom, hmakes⟩ :=
    Model.exists_from_of_parse h
  intro r hr
  refine (hread r hr).wellFormed fun side value hvalue => ?_
  -- Only a row with a label has bounds, and a statement has set them.
  cases hlabel : r.label? with
  | none =>
    rw [hcoherent.unbounded r hr hlabel] at hvalue
    cases hvalue
  | some label =>
    obtain ⟨s, hmem, hclause⟩ := hmakes _ (hfrom.bounds r hr label hlabel side value hvalue)
    exact Clause.value_of_ofText? hclause ((compact_of_ofSource hs).1 s hmem).2

/-- Braces may be in names and labels, and a bound of a label may be an expression. -/
theorem wellFormed_parse_braces :
    ∃ m, Model.parse
        "f =~ x + \x7ba b\x7d*y + -.5*z; \x7ba b\x7d > \x7b1 + 2\x7d; \x7bg\x7d.h ~ 1" = .ok m ∧
      m.table.rows.map (fun r => (r.lhs, r.modifier, r.lower)) =
        [("f", none, none), ("f", some (.label "\x7ba b\x7d"), some "\x7b1 + 2\x7d"),
          ("f", some (.fixed "-.5"), none), ("\x7bg\x7d.h", none, none)] ∧
      ∀ r ∈ m.table.rows, r.WellFormed := by
  obtain ⟨m, hm, hrows⟩ : ∃ m, (Model.parse
        "f =~ x + \x7ba b\x7d*y + -.5*z; \x7ba b\x7d > \x7b1 + 2\x7d; \x7bg\x7d.h ~ 1").toOption =
          some m ∧
      m.table.rows.map (fun r => (r.lhs, r.modifier, r.lower)) =
        [("f", none, none), ("f", some (.label "\x7ba b\x7d"), some "\x7b1 + 2\x7d"),
          ("f", some (.fixed "-.5"), none), ("\x7bg\x7d.h", none, none)] := by
    refine ⟨_, Option.eq_some_of_isSome (by decide +kernel), ?_⟩
    decide +kernel
  have hparse := CompiledModel.eq_ok_of_toOption hm
  exact ⟨m, hparse, hrows, wellFormed_parse hparse⟩

end StructuralModel
