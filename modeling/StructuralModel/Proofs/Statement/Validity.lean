import StructuralModel.Proofs.Statement.Clause
import StructuralModel.Proofs.Statement.Compact
import StructuralModel.Text.Basic

/-!
# Characters of valid statements

What a valid statement starts with is no blank, and the ordinary characters are characters of words
that no bound, declaration or definition can do without: a sign of a bound, the mark of a
declaration and the colon of a definition are not ordinary.

* `isValid_iff_of_relation`: a relation is valid iff it starts well and has only ordinary
  characters outside of braces;
* `exists_start_of_isValid`: a valid statement starts with a letter, `_`, `!` or `{`.
-/

namespace StructuralModel

namespace Statement

/-- Two characters of which only one is ordinary differ. -/
theorem ne_of_isOrdinary {c d : Char} (h : isOrdinary c = true) (hd : isOrdinary d = false) :
    c ≠ d := by
  rintro rfl
  rw [h] at hd
  cases hd

theorem isWordChar_of_isOrdinary {c : Char} (h : isOrdinary c = true) :
    Token.isWordChar c = true := by
  refine Token.isWordChar_iff.2 ⟨?_, ?_, ?_, ?_, ?_, ?_, ?_, ?_⟩
  all_goals exact ne_of_isOrdinary h (by decide +kernel)

/-- Blank characters are no letters. -/
theorem isLetter_of_isBlank {c : Char} (h : Text.isBlank c = true) : Text.isLetter c = false := by
  have hmem : c.toNat ∈ [0x9, 0xA, 0xB, 0xC, 0xD, 0x20, 0x85, 0xA0, 0x1680, 0x2000, 0x2001, 0x2002,
      0x2003, 0x2004, 0x2005, 0x2006, 0x2007, 0x2008, 0x2009, 0x200A, 0x2028, 0x2029, 0x202F,
      0x205F, 0x3000] := by
    simp only [Text.isBlank, Bool.or_eq_true, Bool.and_eq_true, decide_eq_true_eq, beq_iff_eq] at h
    simp only [List.mem_cons, List.not_mem_nil, or_false]
    omega
  rw [Text.isLetter]
  revert hmem
  generalize c.toNat = n
  revert n
  decide +kernel

/-- A statement starts with no blank. -/
theorem isBlank_of_isStart {c : Char} (h : isStart c = true) : Text.isBlank c = false := by
  cases hblank : Text.isBlank c with
  | false => rfl
  | true =>
    rw [isStart, isLetter_of_isBlank hblank] at h
    simp only [Bool.false_or, Bool.or_eq_true, beq_iff_eq] at h
    rcases h with (rfl | rfl) | rfl
    · exact absurd hblank (by decide)
    · exact absurd hblank (by decide)
    · exact absurd hblank (by decide)

/-- Two characters of which only one may start a statement differ. -/
theorem ne_of_isStart {c d : Char} (h : isStart c = true) (hd : isStart d = false) : c ≠ d := by
  rintro rfl
  rw [h] at hd
  cases hd

/-- A valid statement starts as statements do. -/
theorem exists_start_of_isValid {cs : List Char} (h : isValid cs = true) :
    ∃ c rest, cs = c :: rest ∧ isStart c = true := by
  rw [isValid, Bool.and_eq_true, Option.any_eq_true] at h
  obtain ⟨⟨c, hc, hstart⟩, -⟩ := h
  cases cs with
  | nil => cases hc
  | cons x rest =>
    cases hc
    exact ⟨c, rest, rfl, hstart⟩

/-- A relation is valid iff it starts well and has only ordinary characters outside. -/
theorem isValid_iff_of_relation {cs : List Char} {op : Operator} {lhs rhs : Piece}
    (h : Form.ofPiece? ⟨0, cs⟩ = some (.relation op lhs rhs)) :
    isValid cs = true ↔
      (∃ c ∈ cs.head?, isStart c = true) ∧ ∀ c ∈ Text.outside 0 cs, isOrdinary c = true := by
  rw [isValid, h, Bool.and_eq_true, Option.any_eq_true]
  simp [Form.checked]

end Statement

end StructuralModel
