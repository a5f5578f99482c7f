import StructuralModel.Text.Basic

/-!
# Numerals, counted

A numeral is read from left to right: digits, then perhaps a point and more digits. Without reading
it, it can be told by counting its characters: a minus sign at its start aside, it has digits and
points only, one point at most, and at least one digit (`IsDecimal`).

* `isDecimal_append_point`: a text with a point behind some digits, told by what stands behind it;
* `isUnsignedNumeral_iff`: the numerals without sign;
* `isNumeral_iff`: the numerals.
-/

namespace StructuralModel.Text

/-- A text of digits, with a point perhaps. -/
structure IsDecimal (cs : List Char) : Prop where
  /-- There are only digits, those of ASCII, and points. -/
  chars : ∀ c ∈ cs, c.isDigit = true ∨ c = '.'
  /-- There is one point at most. -/
  points : cs.count '.' ≤ 1
  /-- There is a digit. -/
  digit : ∃ c ∈ cs, c.isDigit = true

variable {cs whole fraction : List Char}

/-- Digits are no points. -/
theorem count_point_of_digits (h : ∀ c ∈ cs, c.isDigit = true) : cs.count '.' = 0 :=
  List.count_eq_zero.2 fun hmem => absurd (h '.' hmem) (by decide)

theorem isDecimal_of_digits (h : ∀ c ∈ cs, c.isDigit = true) (hne : cs ≠ []) : IsDecimal cs where
  chars c hc := .inl (h c hc)
  points := Nat.le_trans (Nat.le_of_eq (count_point_of_digits h)) (Nat.zero_le 1)
  digit := ⟨cs.head hne, List.head_mem hne, h _ (List.head_mem hne)⟩

/-- Behind the first point there are only digits, and they may be missing if there are some in front
    of it. -/
theorem isDecimal_append_point (hwhole : ∀ c ∈ whole, c.isDigit = true) :
    IsDecimal (whole ++ '.' :: fraction) ↔
      (∀ c ∈ fraction, c.isDigit = true) ∧ (whole ≠ [] ∨ fraction ≠ []) := by
  have hpoints : (whole ++ '.' :: fraction).count '.' = fraction.count '.' + 1 := by
    rw [List.count_append, count_point_of_digits hwhole, List.count_cons_self, Nat.zero_add]
  constructor
  · intro h
    have hpoint : '.' ∉ fraction := by
      have := h.points
      rw [hpoints] at this
      exact List.count_eq_zero.1 (Nat.le_zero.1 (Nat.le_of_succ_le_succ this))
    have hfraction (c : Char) (hc : c ∈ fraction) : c.isDigit = true := by
      refine (h.chars c (List.mem_append_right _ (List.mem_cons_of_mem _ hc))).resolve_right ?_
      rintro rfl
      exact hpoint hc
    refine ⟨hfraction, ?_⟩
    obtain ⟨c, hc, hdigit⟩ := h.digit
    rcases List.mem_append.1 hc with hc | hc
    · exact .inl (List.ne_nil_of_mem hc)
    · rcases List.mem_cons.1 hc with rfl | hc
      · cases hdigit
      · exact .inr (List.ne_nil_of_mem hc)
  · rintro ⟨hfraction, hne⟩
    refine ⟨fun c hc => ?_, ?_, ?_⟩
    · rcases List.mem_append.1 hc with hc | hc
      · exact .inl (hwhole c hc)
      · exact (List.mem_cons.1 hc).symm.imp_left (hfraction c)
    · exact Nat.le_of_eq (by rw [hpoints, count_point_of_digits hfraction])
    · rcases hne with hne | hne
      · exact ⟨whole.head hne, List.mem_append_left _ (List.head_mem hne),
          hwhole _ (List.head_mem hne)⟩
      · exact ⟨fraction.head hne,
          List.mem_append_right _ (List.mem_cons_of_mem _ (List.head_mem hne)),
          hfraction _ (List.head_mem hne)⟩

/-- The first character that is no digit is a point. -/
theorem IsDecimal.eq_of_dropWhile {c : Char} {rest : List Char} (h : IsDecimal cs)
    (hdrop : cs.dropWhile Char.isDigit = c :: rest) : c = '.' := by
  have hmem : c ∈ cs := (List.dropWhile_sublist _).subset (hdrop ▸ List.mem_cons_self)
  have hhead := List.head?_dropWhile_not Char.isDigit cs
  rw [hdrop] at hhead
  refine (h.chars c hmem).resolve_left fun hdigit => ?_
  simp [hdigit] at hhead

/-- The numerals without sign have digits and points only, one point at most, and a digit. -/
theorem isUnsignedNumeral_iff : isUnsignedNumeral cs = true ↔ IsDecimal cs := by
  have hcs : cs.takeWhile Char.isDigit ++ cs.dropWhile Char.isDigit = cs :=
    List.takeWhile_append_dropWhile
  have hwhole : ∀ c ∈ cs.takeWhile Char.isDigit, c.isDigit = true :=
    List.all_eq_true.1 List.all_takeWhile
  rw [isUnsignedNumeral]
  split
  case h_1 fraction hnil hdrop =>
    rw [hnil, hdrop] at hcs
    have hne : [] ≠ ([] : List Char) ∨ fraction ≠ [] ↔ (!fraction.isEmpty) = true := by simp
    rw [← hcs, isDecimal_append_point fun _ h => (by cases h), hne, Bool.and_eq_true,
      List.all_eq_true, and_comm]
  case h_2 hnil hpoint =>
    refine iff_of_false Bool.false_ne_true fun h => ?_
    rw [hnil, List.nil_append] at hcs
    obtain ⟨c, hc, -⟩ := h.digit
    obtain ⟨first, rest, hdrop⟩ := List.exists_cons_of_ne_nil (List.ne_nil_of_mem (hcs ▸ hc))
    exact hpoint rest (h.eq_of_dropWhile hdrop ▸ hdrop)
  case h_3 hdrop hne =>
    rw [hdrop, List.append_nil] at hcs
    rw [hcs] at hwhole hne
    exact iff_of_true rfl (isDecimal_of_digits hwhole hne)
  case h_4 fraction hdrop hne =>
    rw [hdrop] at hcs
    rw [← hcs, isDecimal_append_point hwhole, and_iff_left (.inl hne), List.all_eq_true]
  case h_5 hrest hpoint _ =>
    refine iff_of_false Bool.false_ne_true fun h => ?_
    obtain ⟨first, rest, hdrop⟩ := List.exists_cons_of_ne_nil hrest
    exact hpoint rest (h.eq_of_dropWhile hdrop ▸ hdrop)

/-- A text is a numeral iff, without one minus sign at most, it has digits and points only, one
    point at most, and a digit. -/
theorem isNumeral_iff (text : List Char) : isNumeral text = true ↔
    ∃ digits, (text = digits ∨ text = '-' :: digits) ∧ IsDecimal digits := by
  unfold isNumeral
  split
  case h_1 cs =>
    rw [isUnsignedNumeral_iff]
    refine ⟨fun h => ⟨cs, .inr rfl, h⟩, ?_⟩
    rintro ⟨digits, rfl | heq, h⟩
    · -- The sign is neither a digit nor a point.
      exact absurd (h.chars '-' List.mem_cons_self) (by decide)
    · exact (List.cons.inj heq).2 ▸ h
  case h_2 hsign =>
    rw [isUnsignedNumeral_iff]
    refine ⟨fun h => ⟨text, .inl rfl, h⟩, ?_⟩
    rintro ⟨digits, rfl | rfl, h⟩
    · exact h
    · exact absurd rfl (hsign digits)

end StructuralModel.Text
