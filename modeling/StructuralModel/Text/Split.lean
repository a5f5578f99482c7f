import StructuralModel.Text.Basic
import StructuralModel.Text.Braces

/-!
# Splitting outside of braces

A pattern occurs *at top level* where it stands in a text at brace depth zero. `splitOnce` cuts a
text at the first such place, `splitAll` at all of them, from left to right and without overlap.
Both go through the text unit by unit, so they never look into a block, and they see nothing behind
a brace that is never closed.
-/

namespace StructuralModel.Text

/-- The text before and the text behind the first occurrence of `pattern` at top level. The empty
    pattern occurs nowhere. -/
def splitOnce (pattern cs : List Char) : Option (List Char × List Char) :=
  if pattern.isEmpty then none
  else if pattern.isPrefixOf cs then some ([], cs.drop pattern.length)
  else
    match _h : unit? cs with
    | none => none
    | some (first, rest) =>
      (splitOnce pattern rest).map fun (before, after) => (first ++ before, after)
termination_by cs.length
decreasing_by exact length_lt_of_unit? _h

/-- The byte offset of the first occurrence of `pattern` at top level. -/
def findTopLevel (pattern cs : List Char) : Option Nat :=
  (splitOnce pattern cs).map fun (before, _) => byteSize before

/-- A text is what stands before a split, the pattern, and what stands behind it. -/
theorem append_of_splitOnce {pattern cs before after : List Char}
    (h : splitOnce pattern cs = some (before, after)) : before ++ pattern ++ after = cs := by
  fun_induction splitOnce pattern cs generalizing before with
  | case1 => simp at h
  | case2 cs _ hpre =>
    obtain ⟨rest, rfl⟩ := List.isPrefixOf_iff_prefix.1 hpre
    cases h
    simp
  | case3 => simp at h
  | case4 cs _ _ first rest hunit ih =>
    obtain ⟨⟨before', after'⟩, h', heq⟩ := Option.map_eq_some_iff.1 h
    cases heq
    rw [← append_of_closing hunit, ← ih h']
    simp

/-- Only a pattern that is not empty splits a text. -/
theorem ne_nil_of_splitOnce {pattern cs before after : List Char}
    (h : splitOnce pattern cs = some (before, after)) : pattern ≠ [] := by
  rintro rfl
  rw [splitOnce] at h
  simp at h

/-- Behind a split there is less text. -/
theorem length_lt_of_splitOnce {pattern cs before after : List Char}
    (h : splitOnce pattern cs = some (before, after)) : after.length < cs.length := by
  rw [← append_of_splitOnce h, List.length_append, List.length_append]
  have := List.length_pos_iff.2 (ne_nil_of_splitOnce h)
  omega

/-- The pieces of a text between the occurrences of `delimiter` at top level, empty ones included:
    there is always one piece more than there are occurrences. -/
def splitAll (delimiter cs : List Char) : List (List Char) :=
  match _h : splitOnce delimiter cs with
  | none => [cs]
  | some (piece, rest) => piece :: splitAll delimiter rest
termination_by cs.length
decreasing_by exact length_lt_of_splitOnce _h

end StructuralModel.Text
