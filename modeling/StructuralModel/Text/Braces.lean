/-!
# Braces

Braces keep text verbatim: what stands between a `{` and the `}` that closes it is never looked
into. The *depth* at a place of a text is the number of braces open there; a `}` that closes
nothing leaves the depth at zero.

A text is thus a run of *units*: a *block*, from a `{` to the brace that closes it, or a single
character outside of blocks. `unit?` takes the first unit off a text. It fails on the empty text
and on a text that starts with a `{` that is never closed, since nothing behind that brace is
outside of it.
-/

namespace StructuralModel.Text

/-- The brace depth behind `c`, given the depth in front of it. -/
def nest (depth : Nat) (c : Char) : Nat :=
  if c = '{' then depth + 1 else if c = '}' then depth - 1 else depth

/-- Splits a text behind the first character that leaves the depth at zero, given the depth at the
    start of the text. -/
def closing (depth : Nat) : List Char → Option (List Char × List Char)
  | [] => none
  | c :: rest =>
    if nest depth c = 0 then some ([c], rest)
    else (closing (nest depth c) rest).map fun (block, after) => (c :: block, after)

/-- The first unit of a text and the text behind it. -/
def unit? (cs : List Char) : Option (List Char × List Char) :=
  closing 0 cs

/-- Whether a text is a block and nothing else. -/
def isBlock (cs : List Char) : Bool :=
  cs.head? == some '{' && (unit? cs).any fun (_, after) => after.isEmpty

/-- A text is what stands up to its split, and what stands behind it. -/
theorem append_of_closing {depth : Nat} {cs block after : List Char}
    (h : closing depth cs = some (block, after)) : block ++ after = cs := by
  induction cs generalizing depth block with
  | nil => simp [closing] at h
  | cons c rest ih =>
    simp only [closing] at h
    split at h
    · cases h
      rfl
    · obtain ⟨⟨block', after'⟩, h', heq⟩ := Option.map_eq_some_iff.1 h
      cases heq
      simp [ih h']

/-- Something always stands up to a split. -/
theorem ne_nil_of_closing {depth : Nat} {cs block after : List Char}
    (h : closing depth cs = some (block, after)) : block ≠ [] := by
  cases cs with
  | nil => simp [closing] at h
  | cons c rest =>
    simp only [closing] at h
    split at h
    · cases h
      simp
    · obtain ⟨⟨block', after'⟩, -, heq⟩ := Option.map_eq_some_iff.1 h
      cases heq
      simp

/-- Behind a unit there is less text. -/
theorem length_lt_of_unit? {cs block after : List Char} (h : unit? cs = some (block, after)) :
    after.length < cs.length := by
  rw [← append_of_closing h, List.length_append]
  have := List.length_pos_iff.2 (ne_nil_of_closing h)
  omega

end StructuralModel.Text
