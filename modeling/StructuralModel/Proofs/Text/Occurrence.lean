import StructuralModel.Proofs.Text.Place
import StructuralModel.Proofs.Text.TopLevel

/-!
# Occurrences at top level

A pattern *occurs* at a byte of a text if it stands there and the brace depth in front of it is zero
(`OccursAt`). What splitting finds are occurrences: the first one, or, going on behind each, one
after the other. A single character that is no brace occurs wherever it is found outside of braces,
and there the text can be cut (`CutsAt`).

* `findTopLevel_eq_some_iff`: the first occurrence is found;
* `mem_topLevel`: the characters outside of braces are those that occur;
* `cutsAt_iff`: a text is cut at a character wherever it occurs.
-/

namespace StructuralModel.Text

variable {pattern cs : List Char} {c : Char} {i : Nat}

/-- The pattern stands at byte `i` of the text, at brace depth zero. -/
def OccursAt (pattern cs : List Char) (i : Nat) : Prop :=
  ∃ before after, cs = before ++ pattern ++ after ∧ i = byteSize before ∧ depth 0 before = 0

/-- A pattern that is found once occurs. -/
theorem occursAt_of_splitOnce {before after : List Char}
    (h : splitOnce pattern cs = some (before, after)) : OccursAt pattern cs (byteSize before) := by
  obtain ⟨hcs, hd, -⟩ := (splitOnce_eq_some_iff (ne_nil_of_splitOnce h)).1 h
  exact ⟨before, after, hcs, rfl, hd⟩

/-- Where a pattern is not found it does not occur. -/
theorem splitOnce_eq_none_iff_occursAt (hp : pattern ≠ []) :
    splitOnce pattern cs = none ↔ ∀ i, ¬OccursAt pattern cs i := by
  rw [splitOnce_eq_none_iff hp]
  constructor
  · rintro h i ⟨before, after, hcs, -, hd⟩
    exact h before after hcs hd
  · exact fun h before after hcs hd => h _ ⟨before, after, hcs, rfl, hd⟩

/-- Of two starts of a text the one with fewer bytes is shorter. -/
theorem byteSize_le_of_length_le {before before' after after' : List Char}
    (h : before ++ after = before' ++ after') (hlen : before.length ≤ before'.length) :
    byteSize before ≤ byteSize before' := by
  obtain ⟨middle, rfl⟩ : before <+: before' :=
    List.prefix_of_prefix_length_le ⟨after, h⟩ (List.prefix_append _ _) hlen
  rw [byteSize_append]
  exact Nat.le_add_right _ _

/-- The first occurrence of a pattern is found. -/
theorem findTopLevel_eq_some_iff (hp : pattern ≠ []) :
    findTopLevel pattern cs = some i ↔
      OccursAt pattern cs i ∧ ∀ j, OccursAt pattern cs j → i ≤ j := by
  have first {before after : List Char} (h : splitOnce pattern cs = some (before, after)) :
      ∀ j, OccursAt pattern cs j → byteSize before ≤ j := by
    rintro j ⟨before', after', hcs', rfl, hd'⟩
    obtain ⟨hcs, -, hmin⟩ := (splitOnce_eq_some_iff hp).1 h
    rw [List.append_assoc] at hcs hcs'
    exact byteSize_le_of_length_le (hcs.symm.trans hcs')
      (hmin before' after' (by rw [hcs', List.append_assoc]) hd')
  rw [findTopLevel, Option.map_eq_some_iff]
  constructor
  · rintro ⟨⟨before, after⟩, h, rfl⟩
    exact ⟨occursAt_of_splitOnce h, first h⟩
  · rintro ⟨hi, hmin⟩
    cases h : splitOnce pattern cs with
    | none => exact absurd hi ((splitOnce_eq_none_iff_occursAt hp).1 h i)
    | some parts =>
      exact ⟨parts, rfl, Nat.le_antisymm (first h i hi) (hmin _ (occursAt_of_splitOnce h))⟩

/-- No occurrence is found iff there is none. -/
theorem findTopLevel_eq_none_iff (hp : pattern ≠ []) :
    findTopLevel pattern cs = none ↔ ∀ i, ¬OccursAt pattern cs i := by
  rw [findTopLevel, Option.map_eq_none_iff, splitOnce_eq_none_iff_occursAt hp]

/-- A block starts with a brace, and the counter is first back at zero at its end. -/
theorem isBlock_iff_depth : isBlock cs = true ↔ cs.head? = some '{' ∧ depth 0 cs = 0 ∧
    ∀ b a, cs = b ++ a → b ≠ [] → a ≠ [] → depth 0 b ≠ 0 := by
  rw [isBlock_iff, unit?, closing_eq_some_iff]
  refine and_congr_right fun hhead => ?_
  have hne : cs ≠ [] := by
    rintro rfl
    cases hhead
  rw [and_iff_right (List.append_nil cs).symm, and_iff_right hne]
  refine and_congr_right fun _ => ⟨fun h b a hcs hb ha hd => ?_, fun h b a hcs hb hd => ?_⟩
  · have hlen := h b a hcs hb hd
    have hpos := List.length_pos_iff.2 ha
    rw [hcs, List.length_append] at hlen
    omega
  · cases a with
    | nil => exact Nat.le_of_eq (congrArg List.length (hcs.trans (List.append_nil b)))
    | cons x a => exact absurd hd (h b (x :: a) hcs hb (List.cons_ne_nil _ _))

/-! ## Characters outside of braces and where they are -/

/-- The characters of `cs` outside of braces, each behind its byte offset, if `cs` starts at byte
    `start` and brace depth `d`. -/
def topLevel (start d : Nat) : List Char → List (Nat × Char)
  | [] => []
  | c :: cs =>
    (if d = 0 ∧ c ≠ '{' ∧ c ≠ '}' then [(start, c)] else []) ++
      topLevel (start + c.utf8Size) (nest d c) cs

theorem topLevel_append (start d : Nat) (cs ds : List Char) :
    topLevel start d (cs ++ ds) =
      topLevel start d cs ++ topLevel (start + byteSize cs) (depth d cs) ds := by
  induction cs generalizing start d with
  | nil => rfl
  | cons c cs ih =>
    rw [List.cons_append, topLevel, topLevel, ih, List.append_assoc, byteSize_cons, depth_cons,
      Nat.add_assoc]

/-- These are the characters outside. -/
theorem map_snd_topLevel (start d : Nat) (cs : List Char) :
    (topLevel start d cs).map Prod.snd = outside d cs := by
  induction cs generalizing start d with
  | nil => rfl
  | cons c cs ih =>
    rw [topLevel, outside, List.map_append, ih]
    split <;> rfl

/-- What stands in front of one of these characters in their list stands in front of it in the
    text. -/
theorem exists_of_topLevel_eq_append {start d : Nat} {front back : List (Nat × Char)}
    (h : topLevel start d cs = front ++ (i, c) :: back) :
    ∃ before after, cs = before ++ c :: after ∧ i = start + byteSize before ∧
      depth d before = 0 ∧ c ≠ '{' ∧ c ≠ '}' ∧ topLevel start d before = front := by
  induction cs generalizing start d front with
  | nil => cases front <;> cases h
  | cons x cs ih =>
    have later {front' : List (Nat × Char)}
        (h : topLevel (start + x.utf8Size) (nest d x) cs = front' ++ (i, c) :: back)
        (hfront : (if d = 0 ∧ x ≠ '{' ∧ x ≠ '}' then [(start, x)] else []) ++ front' = front) :
        ∃ before after, x :: cs = before ++ c :: after ∧ i = start + byteSize before ∧
          depth d before = 0 ∧ c ≠ '{' ∧ c ≠ '}' ∧ topLevel start d before = front := by
      obtain ⟨before, after, rfl, rfl, hd, hopen, hclose, rfl⟩ := ih h
      exact ⟨x :: before, after, rfl, Nat.add_assoc .., hd, hopen, hclose, hfront⟩
    rw [topLevel] at h
    split at h
    case isTrue hx =>
      cases front with
      | nil =>
        cases h
        exact ⟨[], cs, rfl, rfl, hx.1, hx.2.1, hx.2.2, rfl⟩
      | cons p front =>
        obtain ⟨rfl, hrest⟩ := List.cons.inj h
        exact later hrest (by rw [if_pos hx]; rfl)
    case isFalse hx => exact later h (by rw [if_neg hx]; rfl)

theorem mem_topLevel {start d : Nat} : (i, c) ∈ topLevel start d cs ↔
    c ≠ '{' ∧ c ≠ '}' ∧
      ∃ before after, cs = before ++ c :: after ∧ i = start + byteSize before ∧
        depth d before = 0 := by
  constructor
  · intro h
    obtain ⟨front, back, h⟩ := List.append_of_mem h
    obtain ⟨before, after, hcs, hi, hd, hopen, hclose, -⟩ := exists_of_topLevel_eq_append h
    exact ⟨hopen, hclose, before, after, hcs, hi, hd⟩
  · rintro ⟨hopen, hclose, before, after, rfl, rfl, hd⟩
    rw [topLevel_append, hd, topLevel, if_pos ⟨rfl, hopen, hclose⟩]
    exact List.mem_append_right _ List.mem_cons_self

/-- A character that is no brace is outside wherever it occurs. -/
theorem occursAt_singleton_iff (hc : c ≠ '{' ∧ c ≠ '}') :
    OccursAt [c] cs i ↔ (i, c) ∈ topLevel 0 0 cs := by
  rw [mem_topLevel, and_iff_right hc.1, and_iff_right hc.2]
  refine exists₂_congr fun before after => ?_
  rw [List.append_assoc, Nat.zero_add]
  rfl

/-- A pattern occurs where it stands and its first character is outside. -/
theorem occursAt_cons_iff (hc : c ≠ '{' ∧ c ≠ '}') :
    OccursAt (c :: pattern) cs i ↔
      (i, c) ∈ topLevel 0 0 cs ∧ StandsAt 0 cs (c :: pattern) i := by
  constructor
  · rintro ⟨before, after, rfl, rfl, hd⟩
    refine ⟨mem_topLevel.2 ⟨hc.1, hc.2, before, pattern ++ after, ?_, (Nat.zero_add _).symm, hd⟩,
      before, after, rfl, (Nat.zero_add _).symm⟩
    rw [List.append_assoc]
    rfl
  · rintro ⟨hmem, before, after, hcs, rfl⟩
    obtain ⟨-, -, before', after', hcs', hi, hd⟩ := mem_topLevel.1 hmem
    have happend : before ++ (c :: pattern ++ after) = before' ++ c :: after' := by
      rw [← List.append_assoc, ← hcs, hcs']
    obtain ⟨rfl, -⟩ := append_inj_of_byteSize happend (Nat.add_left_cancel hi)
    exact ⟨before, after, hcs, Nat.zero_add _, hd⟩

/-! ## Cuts -/

/-- Splitting cuts the text at byte `i`: the pieces up to a place, joined again, end there. -/
def CutsAt (delimiter cs : List Char) (i : Nat) : Prop :=
  ∃ left right, left ≠ [] ∧ right ≠ [] ∧ splitAll delimiter cs = left ++ right ∧
    i = byteSize (delimiter.intercalate left)

/-- In front of the first delimiter, at it, and behind it. -/
theorem cutsAt_of_splitOnce {before after : List Char}
    (h : splitOnce pattern cs = some (before, after)) :
    CutsAt pattern cs i ↔ i = byteSize before ∨
      ∃ j, CutsAt pattern after j ∧ i = byteSize before + byteSize pattern + j := by
  rw [CutsAt, splitAll_of_splitOnce_eq_some h]
  constructor
  · rintro ⟨left, right, hleft, hright, hpieces, rfl⟩
    obtain ⟨first, left, rfl⟩ := List.exists_cons_of_ne_nil hleft
    obtain ⟨rfl, hrest⟩ := List.cons.inj hpieces
    cases left with
    | nil => exact .inl (by rw [List.intercalate_singleton])
    | cons second left =>
      refine .inr ⟨_, ⟨second :: left, right, List.cons_ne_nil _ _, hright, hrest, rfl⟩, ?_⟩
      rw [List.intercalate_cons_cons, byteSize_append, byteSize_append]
  · rintro (rfl | ⟨j, ⟨left, right, hleft, hright, hpieces, rfl⟩, rfl⟩)
    · exact ⟨[before], splitAll pattern after, List.cons_ne_nil _ _, splitAll_ne_nil _ _, rfl,
        by rw [List.intercalate_singleton]⟩
    · obtain ⟨second, left, rfl⟩ := List.exists_cons_of_ne_nil hleft
      refine ⟨before :: second :: left, right, List.cons_ne_nil _ _, hright,
        by rw [hpieces]; rfl, ?_⟩
      rw [List.intercalate_cons_cons, byteSize_append, byteSize_append]

/-- A text without delimiter is cut nowhere. -/
theorem not_cutsAt_of_splitOnce (h : splitOnce pattern cs = none) : ¬CutsAt pattern cs i := by
  rintro ⟨left, right, hleft, hright, hpieces, -⟩
  have hlen := congrArg List.length hpieces
  rw [splitAll_of_splitOnce_eq_none h, List.length_append, List.length_singleton] at hlen
  have := List.length_pos_iff.2 hleft
  have := List.length_pos_iff.2 hright
  omega

/-- Behind the first occurrence of a character there are those of the text behind it. -/
theorem occursAt_of_splitOnce_iff (hc : c ≠ '{' ∧ c ≠ '}') {before after : List Char}
    (h : splitOnce [c] cs = some (before, after)) :
    OccursAt [c] cs i ↔ i = byteSize before ∨
      ∃ j, OccursAt [c] after j ∧ i = byteSize before + byteSize [c] + j := by
  obtain ⟨hcs, hd, -⟩ := (splitOnce_eq_some_iff (List.cons_ne_nil _ _)).1 h
  have hnone : ∀ j, (j, c) ∉ topLevel 0 0 before := fun j hj =>
    (splitOnce_eq_none_iff_occursAt (List.cons_ne_nil _ _)).1 (splitOnce_before_eq_none h) j
      ((occursAt_singleton_iff hc).2 hj)
  have hdepth : depth 0 (before ++ [c]) = 0 := by
    rw [depth_append, hd, depth_cons, nest_of_ne hc.1 hc.2, depth_nil]
  have hone : topLevel (0 + byteSize before) 0 [c] = [(byteSize before, c)] := by
    rw [topLevel, if_pos ⟨rfl, hc⟩, Nat.zero_add]
    rfl
  have hshift (start j : Nat) : (j, c) ∈ topLevel start 0 after ↔
      ∃ k, (k, c) ∈ topLevel 0 0 after ∧ j = start + k := by
    simp only [mem_topLevel]
    constructor
    · rintro ⟨h₁, h₂, b, a, hcs, rfl, hd⟩
      exact ⟨_, ⟨h₁, h₂, b, a, hcs, rfl, hd⟩, by rw [Nat.zero_add]⟩
    · rintro ⟨k, ⟨h₁, h₂, b, a, hcs, rfl, hd⟩, rfl⟩
      exact ⟨h₁, h₂, b, a, hcs, by rw [Nat.zero_add], hd⟩
  simp only [occursAt_singleton_iff hc]
  rw [hcs, topLevel_append, hdepth, topLevel_append, hd, hone, List.mem_append, List.mem_append,
    or_iff_right (hnone i), List.mem_singleton, Prod.mk.injEq, and_iff_left rfl, hshift,
    byteSize_append, Nat.zero_add]

/-- A text is cut at a character wherever it occurs. -/
theorem cutsAt_iff (hc : c ≠ '{' ∧ c ≠ '}') : CutsAt [c] cs i ↔ OccursAt [c] cs i := by
  fun_induction splitAll [c] cs generalizing i with
  | case1 cs h =>
    exact iff_of_false (not_cutsAt_of_splitOnce h)
      ((splitOnce_eq_none_iff_occursAt (List.cons_ne_nil _ _)).1 h i)
  | case2 cs before after h ih =>
    rw [cutsAt_of_splitOnce h, occursAt_of_splitOnce_iff hc h]
    simp only [ih]

end StructuralModel.Text
