import StructuralModel.Text.Braces

/-!
# Nested blocks

Blocks are nested: between a `{` and the `}` that closes it stand other blocks and stretches of
plain characters, in any order. Read so, a block is found by descent, without counting: `inside?`
reads what stands behind an open brace, and calls itself for each brace that it meets there.

Counting finds the same. The depth goes up where the descent goes in and down where it comes back,
so the first place where the counter is back is where the first call returns.

* `closing_succ`: counting from one level further up is to read the inside of a block, and to count
  on behind it;
* `unit?_eq`: the first unit of a text, by counting and by descent.
-/

namespace StructuralModel.Text

/-- Whether a character is no brace. -/
def isPlain (c : Char) : Bool :=
  c != '{' && c != '}'

theorem isPlain_iff {c : Char} : isPlain c = true ↔ c ≠ '{' ∧ c ≠ '}' := by
  rw [isPlain, Bool.and_eq_true, bne_iff_ne, bne_iff_ne]

/-- Behind a stretch of plain characters there is no more text. -/
theorem length_dropWhile_isPlain_le (cs : List Char) :
    (cs.dropWhile isPlain).length ≤ cs.length :=
  (List.dropWhile_sublist isPlain).length_le

/-- What stands behind an open brace up to the brace that closes it, that brace included, and the
    text behind it; nothing if the brace is never closed. -/
def inside? (cs : List Char) : Option { p : List Char × List Char // p.2.length < cs.length } :=
  match cs with
  | [] => none
  | '}' :: rest => some ⟨(['}'], rest), Nat.lt_succ_self _⟩
  | '{' :: rest =>
    match inside? rest with
    -- A block within that is never closed takes the rest of the text with it.
    | none => none
    | some ⟨(block, after), h⟩ =>
      (inside? after).map fun p =>
        ⟨('{' :: block ++ p.1.1, p.1.2), Nat.lt_succ_of_lt (Nat.lt_trans p.2 h)⟩
  | c :: rest =>
    (inside? (rest.dropWhile isPlain)).map fun p =>
      ⟨(c :: rest.takeWhile isPlain ++ p.1.1, p.1.2),
        Nat.lt_succ_of_lt (Nat.lt_of_lt_of_le p.2 (length_dropWhile_isPlain_le rest))⟩
termination_by cs.length
decreasing_by
  · exact Nat.lt_succ_self _
  · exact Nat.lt_succ_of_lt h
  · exact Nat.lt_succ_of_le (length_dropWhile_isPlain_le rest)

/-- The first unit of a text and the text behind it, by descent: a block, or any other
    character. -/
def descend? : List Char → Option (List Char × List Char)
  | [] => none
  | '{' :: rest => (inside? rest).map fun p => ('{' :: p.1.1, p.1.2)
  | c :: rest => some ([c], rest)

/-- Plain characters at some depth are passed over. -/
theorem closing_append_of_isPlain {d : Nat} {run : List Char}
    (h : ∀ c ∈ run, isPlain c = true) (rest : List Char) :
    closing (d + 1) (run ++ rest) =
      (closing (d + 1) rest).map fun p => (run ++ p.1, p.2) := by
  induction run with
  | nil => simp
  | cons c run ih =>
    obtain ⟨hc, hrun⟩ := List.forall_mem_cons.1 h
    obtain ⟨hopen, hclose⟩ := isPlain_iff.1 hc
    have hnest : nest (d + 1) c = d + 1 := by rw [nest, if_neg hopen, if_neg hclose]
    rw [List.cons_append, closing, hnest, if_neg (Nat.succ_ne_zero d), ih hrun, Option.map_map]
    rfl

/-- Counting from one level further up is to read the inside of a block, and to count on behind
    it unless the level is zero there. -/
theorem closing_succ (d : Nat) (cs : List Char) :
    closing (d + 1) cs = (inside? cs).bind fun p =>
      if d = 0 then some p.1 else (closing d p.1.2).map fun q => (p.1.1 ++ q.1, q.2) := by
  induction cs using inside?.induct generalizing d with
  | case1 => rw [inside?]; rfl
  | case2 rest => rw [inside?, closing]; rfl
  | case3 rest hrest ih =>
    rw [inside?, hrest, closing, show nest (d + 1) '{' = d + 2 from rfl,
      if_neg (Nat.succ_ne_zero _), ih (d + 1), hrest]
    rfl
  | case4 rest block after h hrest ih ih' =>
    -- The inner block ends one level further up, and the outer one is read on from there.
    have hdeep : closing (d + 2) rest =
        (closing (d + 1) after).map fun q => (block ++ q.1, q.2) := by
      rw [ih (d + 1), hrest, Option.bind_some, if_neg (Nat.succ_ne_zero d)]
    rw [inside?, hrest, closing, show nest (d + 1) '{' = d + 2 from rfl,
      if_neg (Nat.succ_ne_zero _), hdeep, ih' d]
    dsimp only
    cases inside? after with
    | none => rfl
    | some p =>
      simp only [Option.map_some, Option.bind_some]
      split
      · rfl
      · cases closing d p.1.2 <;> simp
  | case5 c rest hclose hopen ih =>
    have hrun : ∀ x ∈ c :: rest.takeWhile isPlain, isPlain x = true :=
      List.forall_mem_cons.2 ⟨isPlain_iff.2 ⟨hopen, hclose⟩,
        List.all_eq_true.1 List.all_takeWhile⟩
    have hcounted := closing_append_of_isPlain (d := d) hrun (rest.dropWhile isPlain)
    rw [List.cons_append, List.takeWhile_append_dropWhile, ih d] at hcounted
    rw [hcounted, inside?]
    · cases inside? (rest.dropWhile isPlain) with
      | none => rfl
      | some p =>
        simp only [Option.map_some, Option.bind_some]
        split
        · rfl
        · cases closing d p.1.2 <;> simp
    · exact hclose
    · exact hopen

/-- The first unit of a text is found by descent. -/
theorem unit?_eq (cs : List Char) : unit? cs = descend? cs := by
  unfold descend?
  split
  case h_1 => rfl
  case h_2 rest =>
    rw [unit?, closing, show nest 0 '{' = 0 + 1 from rfl, if_neg (Nat.succ_ne_zero 0),
      closing_succ]
    cases inside? rest <;> rfl
  case h_3 c rest hopen =>
    have hnest : nest 0 c = 0 := by
      rw [nest, if_neg hopen]
      split <;> rfl
    rw [unit?, closing, if_pos hnest]

end StructuralModel.Text
