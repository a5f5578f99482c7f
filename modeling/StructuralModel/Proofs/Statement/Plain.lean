import StructuralModel.Proofs.Statement.Row
import StructuralModel.Proofs.Text.Numeral

/-!
# Identifiers and numerals

An *identifier* is a letter or `_`, then letters, numbers, `_` and points (`Text.isIdentifier`).
Identifiers and numerals are *plain* (`IsPlain`): they hold no sign of any form of statement, so
they can stand anywhere in a statement and are read as they are.

* `isPlain_of_isIdentifier`, `isPlain_of_isNumeral`: identifiers and numerals are plain;
* `isNumeral_of_isIdentifier`: no identifier is a numeral;
* `IsPlain.isPart`: plain texts are parts of relations.
-/

namespace StructuralModel

open Text (Balanced outside isLetter isNumber isNumeral isUnsignedNumeral)

namespace Text

/-- A letter or `_`, then letters, numbers, `_` and points. -/
def isIdentifier : List Char → Bool
  | [] => false
  | c :: rest => (isLetter c || c == '_') &&
      rest.all fun c => isLetter c || isNumber c || c == '_' || c == '.'

/-- Whether a character is an ordinary one, but none of the signs `+*=~`. -/
def isPlainChar (c : Char) : Bool :=
  isLetter c || isNumber c || c == '_' || c == '.' || c == '-'

end Text

/-- A text of plain characters, at least one. -/
structure IsPlain (cs : List Char) : Prop where
  ne_nil : cs ≠ []
  plain : ∀ c ∈ cs, Text.isPlainChar c = true

namespace IsPlain

variable {cs : List Char}

theorem not_mem (h : IsPlain cs) {c : Char} (hc : Text.isPlainChar c = false) : c ∉ cs := by
  intro hmem
  rw [h.plain c hmem] at hc
  cases hc

/-- Plain texts have no braces. -/
theorem balanced (h : IsPlain cs) : Balanced cs ∧ outside 0 cs = cs := by
  refine Text.balanced_of_no_brace fun c hc => ⟨?_, ?_⟩
  · rintro rfl
    exact h.not_mem (by decide +kernel) hc
  · rintro rfl
    exact h.not_mem (by decide +kernel) hc

theorem isOrdinary (h : IsPlain cs) : ∀ c ∈ cs, Statement.isOrdinary c = true := by
  intro c hc
  have := h.plain c hc
  rw [Text.isPlainChar] at this
  rw [Statement.isOrdinary]
  simp only [Bool.or_eq_true] at this ⊢
  grind

/-- Plain texts are parts of relations. -/
theorem isPart (h : IsPlain cs) : IsPart cs := by
  obtain ⟨hb, hout⟩ := h.balanced
  refine ⟨h.ne_nil, hb, ?_, ?_⟩
  · rw [hout]
    exact h.isOrdinary
  · rw [hout]
    exact ⟨h.not_mem (by decide +kernel), h.not_mem (by decide +kernel)⟩

/-- Plain texts do not end open. -/
theorem endsOpen (h : IsPlain cs) : endsOpen cs = false :=
  endsOpen_eq_false ⟨h.not_mem (by decide +kernel), h.not_mem (by decide +kernel),
    h.not_mem (by decide +kernel), h.not_mem (by decide +kernel), h.not_mem (by decide +kernel)⟩

end IsPlain

/-! ## Identifiers and numerals are plain -/

theorem isPlain_of_isIdentifier {cs : List Char} (h : Text.isIdentifier cs = true) :
    IsPlain cs := by
  cases cs with
  | nil => cases h
  | cons c rest =>
    rw [Text.isIdentifier, Bool.and_eq_true, List.all_eq_true] at h
    refine ⟨List.cons_ne_nil _ _, fun x hx => ?_⟩
    rw [Text.isPlainChar]
    rcases List.mem_cons.1 hx with rfl | hx
    · have := h.1
      simp only [Bool.or_eq_true] at this ⊢
      grind
    · have := h.2 x hx
      simp only [Bool.or_eq_true] at this ⊢
      grind

/-- Identifiers start as statements do. -/
theorem isStart_of_isIdentifier {cs : List Char} (h : Text.isIdentifier cs = true) :
    ∃ c ∈ cs.head?, Statement.isStart c = true := by
  cases cs with
  | nil => cases h
  | cons c rest =>
    rw [Text.isIdentifier, Bool.and_eq_true] at h
    refine ⟨c, rfl, ?_⟩
    rw [Statement.isStart, h.1]
    rfl

theorem mem_digits_of_isDigit {c : Char} (h : c.isDigit = true) :
    c.toNat ∈ [0x30, 0x31, 0x32, 0x33, 0x34, 0x35, 0x36, 0x37, 0x38, 0x39] := by
  rw [Char.isDigit, Bool.and_eq_true, decide_eq_true_eq, decide_eq_true_eq] at h
  have h₁ : 0x30 ≤ c.toNat := h.1
  have h₂ : c.toNat ≤ 0x39 := h.2
  simp only [List.mem_cons, List.not_mem_nil, or_false]
  omega

theorem isPlainChar_of_isDigit {c : Char} (h : c.isDigit = true) : Text.isPlainChar c = true := by
  have hnumber : isNumber c = true := by
    have hmem := mem_digits_of_isDigit h
    rw [isNumber]
    revert hmem
    generalize c.toNat = n
    revert n
    decide +kernel
  rw [Text.isPlainChar, hnumber, Bool.or_true]
  rfl

/-- Digits are no letters. -/
theorem isLetter_of_isDigit {c : Char} (h : c.isDigit = true) : isLetter c = false := by
  have hmem := mem_digits_of_isDigit h
  rw [isLetter]
  revert hmem
  generalize c.toNat = n
  revert n
  decide +kernel

/-- A numeral without sign has digits and points only, and is not empty. -/
theorem isPlain_of_isUnsignedNumeral {cs : List Char} (h : isUnsignedNumeral cs = true) :
    IsPlain cs := by
  have h := Text.isUnsignedNumeral_iff.1 h
  obtain ⟨digit, hmem, -⟩ := h.digit
  refine ⟨List.ne_nil_of_mem hmem, fun c hc => ?_⟩
  rcases h.chars c hc with hdigit | rfl
  · exact isPlainChar_of_isDigit hdigit
  · decide +kernel

theorem isPlain_of_isNumeral {cs : List Char} (h : isNumeral cs = true) : IsPlain cs := by
  unfold isNumeral at h
  split at h
  case h_1 rest =>
    have hrest := isPlain_of_isUnsignedNumeral h
    refine ⟨List.cons_ne_nil _ _, fun c hc => ?_⟩
    rcases List.mem_cons.1 hc with rfl | hc
    · decide +kernel
    · exact hrest.plain c hc
  case h_2 => exact isPlain_of_isUnsignedNumeral h

/-- Identifiers are no numerals. -/
theorem isNumeral_of_isIdentifier {cs : List Char} (h : Text.isIdentifier cs = true) :
    isNumeral cs = false := by
  cases cs with
  | nil => cases h
  | cons c rest =>
    rw [Text.isIdentifier, Bool.and_eq_true, Bool.or_eq_true, beq_iff_eq] at h
    have hdigit : c.isDigit = false := by
      refine Bool.eq_false_iff.2 fun hdigit => ?_
      rcases h.1 with hletter | rfl
      · rw [isLetter_of_isDigit hdigit] at hletter
        cases hletter
      · cases hdigit
    have hne {d : Char} (hd : isLetter d = false ∧ d ≠ '_') : c ≠ d := by
      rintro rfl
      rcases h.1 with hletter | rfl
      · rw [hletter] at hd
        cases hd.1
      · exact hd.2 rfl
    -- A numeral starts with a digit, a sign or a point, and no letter is one of them.
    have hminus : c ≠ '-' := hne (by decide +kernel)
    have hpoint : c ≠ '.' := hne (by decide +kernel)
    simp [isNumeral, isUnsignedNumeral, hdigit, hminus, hpoint]

end StructuralModel
