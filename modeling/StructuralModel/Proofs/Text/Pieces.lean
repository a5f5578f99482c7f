import StructuralModel.Proofs.Text.Occurrence

/-!
# Pieces of a text

Splitting at a delimiter and joining with it are inverse to each other. Joining the pieces of any
text gives the text back, and no piece has the delimiter at top level, though a piece is read from
its own start (`Pieces`). A text that is joined from pieces is split into these pieces again if they
are balanced: a brace that is left open in a piece would hide the delimiters behind it.

* `splitOnce_eq_none_of_mem_splitAll`: pieces are not split any further;
* `splitAll_intercalate`: texts that end at depth zero and do not have the delimiter outside are
  the pieces of the text that is joined from them;
* `splitAll_inverse`: splitting and joining.
-/

namespace StructuralModel.Text

variable {delimiter cs piece before after : List Char} {pieces : List (List Char)} {c : Char}

/-- A piece is not split any further. -/
theorem splitOnce_eq_none_of_mem_splitAll (h : piece ∈ splitAll delimiter cs) :
    splitOnce delimiter piece = none := by
  fun_induction splitAll delimiter cs with
  | case1 cs hnone => rwa [List.mem_singleton.1 h]
  | case2 cs before after hsome ih =>
    rcases List.mem_cons.1 h with rfl | h
    · exact splitOnce_before_eq_none hsome
    · exact ih h

/-- A text is split once into its first piece and what stands behind the delimiter. -/
theorem splitOnce_eq_some_iff_splitAll : splitOnce delimiter cs = some (before, after) ↔
    ∃ pieces, splitAll delimiter cs = before :: pieces ∧ pieces ≠ [] ∧
      cs = before ++ delimiter ++ after := by
  constructor
  · intro h
    exact ⟨_, splitAll_of_splitOnce_eq_some h, splitAll_ne_nil _ _, (append_of_splitOnce h).symm⟩
  · rintro ⟨pieces, hpieces, hne, hcs⟩
    cases h : splitOnce delimiter cs with
    | none =>
      rw [splitAll_of_splitOnce_eq_none h] at hpieces
      exact absurd (List.cons.inj hpieces).2.symm hne
    | some parts =>
      rw [splitAll_of_splitOnce_eq_some h] at hpieces
      obtain ⟨rfl, -⟩ := List.cons.inj hpieces
      have hparts := append_of_splitOnce h
      rw [hcs] at hparts
      rw [← List.append_cancel_left hparts]

/-- A text is not split iff it is its only piece. -/
theorem splitOnce_eq_none_iff_splitAll :
    splitOnce delimiter cs = none ↔ (splitAll delimiter cs).length = 1 := by
  cases h : splitOnce delimiter cs with
  | none => exact iff_of_true rfl (by rw [splitAll_of_splitOnce_eq_none h, List.length_singleton])
  | some parts =>
    have hpos := List.length_pos_iff.2 (splitAll_ne_nil delimiter parts.2)
    rw [splitAll_of_splitOnce_eq_some h, List.length_cons]
    exact iff_of_false (Option.some_ne_none _) (by omega)

/-- Texts that end at depth zero and do not have the delimiter outside are the pieces of the text
    that is joined from them. -/
theorem splitAll_intercalate (hc : c ≠ '{' ∧ c ≠ '}') (hne : pieces ≠ [])
    (h : ∀ piece ∈ pieces, depth 0 piece = 0 ∧ c ∉ outside 0 piece) :
    splitAll [c] ([c].intercalate pieces) = pieces := by
  induction pieces with
  | nil => exact absurd rfl hne
  | cons piece pieces ih =>
    obtain ⟨⟨hd, hout⟩, hrest⟩ := List.forall_mem_cons.1 h
    cases pieces with
    | nil =>
      rw [List.intercalate_singleton]
      exact splitAll_of_splitOnce_eq_none ((splitOnce_singleton_eq_none_iff hc).2 hout)
    | cons next pieces =>
      rw [List.intercalate_cons_cons, List.append_assoc, List.singleton_append,
        splitAll_append hc hd hout, ih (List.cons_ne_nil _ _) hrest]

/-- The pieces of a text, and its first piece. -/
structure Pieces (delimiter cs : List Char) : Prop where
  /-- The pieces, joined with the delimiter, are the text. -/
  joined : delimiter.intercalate (splitAll delimiter cs) = cs
  /-- No piece has the delimiter at top level. -/
  undivided : ∀ piece ∈ splitAll delimiter cs, ∀ i, ¬OccursAt delimiter piece i
  /-- To split once is to take the first of several pieces off. -/
  once : ∀ before after, splitOnce delimiter cs = some (before, after) ↔
    ∃ pieces, splitAll delimiter cs = before :: pieces ∧ pieces ≠ [] ∧
      cs = before ++ delimiter ++ after
  /-- Nothing is split off iff there is a single piece. -/
  single : splitOnce delimiter cs = none ↔ (splitAll delimiter cs).length = 1

/-- Splitting at a delimiter and joining with it are inverse to each other. -/
theorem splitAll_inverse {delimiter : List Char} (hne : delimiter ≠ [])
    (hplain : ∀ c ∈ delimiter, c ≠ '{' ∧ c ≠ '}') :
    (∀ cs, Pieces delimiter cs) ∧
      (delimiter.length = 1 → ∀ pieces, pieces ≠ [] →
        (∀ piece ∈ pieces, Balanced piece ∧ ∀ i, ¬OccursAt delimiter piece i) →
        splitAll delimiter (delimiter.intercalate pieces) = pieces) := by
  constructor
  · intro cs
    refine ⟨intercalate_splitAll delimiter cs, fun piece hpiece => ?_,
      fun _ _ => splitOnce_eq_some_iff_splitAll, splitOnce_eq_none_iff_splitAll⟩
    exact (splitOnce_eq_none_iff_occursAt hne).1 (splitOnce_eq_none_of_mem_splitAll hpiece)
  · intro hlength pieces hpieces h
    obtain ⟨c, rfl⟩ := List.length_eq_one_iff.1 hlength
    have hc := hplain c List.mem_cons_self
    refine splitAll_intercalate hc hpieces fun piece hpiece => ⟨(h piece hpiece).1.depth_eq, ?_⟩
    rw [← splitOnce_singleton_eq_none_iff hc, splitOnce_eq_none_iff_occursAt hne]
    exact (h piece hpiece).2

/-- A sum with a sum in braces, and one that is joined of two pieces. -/
theorem splitAll_inverse_plus :
    Pieces ['+'] "x+\x7ba+b\x7d\x7d++\x7by+z".toList ∧
      splitAll ['+'] ("\x7ba+b\x7d*x+y".toList) = ["\x7ba+b\x7d*x".toList, ['y']] := by
  obtain ⟨hpieces, hjoined⟩ := splitAll_inverse (show ['+'] ≠ [] from List.cons_ne_nil _ _)
    (List.forall_mem_singleton.2 ⟨by decide, by decide⟩)
  refine ⟨hpieces _, hjoined rfl ["\x7ba+b\x7d*x".toList, ['y']] (List.cons_ne_nil _ _) ?_⟩
  intro piece hpiece
  rw [← splitOnce_eq_none_iff_occursAt (List.cons_ne_nil _ _)]
  simp only [List.mem_cons, List.not_mem_nil, or_false] at hpiece
  rcases hpiece with rfl | rfl <;> exact ⟨by decide, by decide +kernel⟩

end StructuralModel.Text
