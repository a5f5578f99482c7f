import Mathlib.Data.List.Flatten
import StructuralModel.Proofs.Statement.Outside
import StructuralModel.Proofs.Statement.Scan

/-!
# Places of statements

A statement *lies in* a source if its characters are characters of the source, in their order and
with their offsets (`Statement.LiesIn`). A piece *lies in* a statement if its characters stand there
from its start on (`Piece.LiesIn`). An empty piece at the end of a statement gets the place of the
last byte in front of it, which is between characters only if the character there has one byte.

* `LiesIn.span_holds`: the span of a statement holds the span of each range of its bytes;
* `LiesIn.within_spanOfPiece`: pieces of statements of a source have spans within the source;
* `liesIn_of_form?`: the parts of a form lie in the statement.
-/

namespace StructuralModel

open Text (byteSize IsPlace StandsAt)

namespace Statement

/-! ## Statements of a source -/

/-- The characters of a statement are characters of a source, in their order, where they stand. -/
def LiesIn (source : String) (s : Statement) : Prop :=
  s.chars.Sublist (locate 0 source.toList)

variable {source : String} {s : Statement} {c : Char} {i start : Nat} {cs : List Char}

theorem standsAt_of_mem_locate (h : (c, i) ∈ locate start cs) : StandsAt start cs [c] i := by
  induction cs generalizing start with
  | nil => cases h
  | cons d cs ih =>
    rcases List.mem_cons.1 h with heq | h
    · cases heq
      exact Text.standsAt_append i [c] cs
    · exact (ih h).append_left [d]

/-- A character of a statement starts and ends at places of the source. -/
theorem LiesIn.isPlace (hs : s.LiesIn source) (h : (c, i) ∈ s.chars) :
    IsPlace source.toList i ∧ IsPlace source.toList (i + c.utf8Size) :=
  (standsAt_of_mem_locate (hs.subset h)).isPlace

/-! ## Origins -/

theorem origins_append (chars more : List (Char × Nat)) :
    (⟨chars ++ more⟩ : Statement).origins =
      (⟨chars⟩ : Statement).origins ++ (⟨more⟩ : Statement).origins :=
  List.flatMap_append

theorem length_origins (s : Statement) : s.origins.length = byteSize s.text := by
  obtain ⟨chars⟩ := s
  induction chars with
  | nil => rfl
  | cons p chars ih =>
    rw [← List.singleton_append, origins_append, List.length_append, ih]
    simp [origins, text]

theorem head?_origins (p : Char × Nat) (chars : List (Char × Nat)) :
    (⟨p :: chars⟩ : Statement).origins.head? = some p.2 := by
  obtain ⟨n, hn⟩ := Nat.exists_eq_succ_of_ne_zero (Nat.ne_of_gt p.1.utf8Size_pos)
  rw [← List.singleton_append, origins_append]
  simp [origins, hn, List.range'_succ]

theorem getLast?_origins (chars : List (Char × Nat)) (p : Char × Nat) :
    (⟨chars ++ [p]⟩ : Statement).origins.getLast? = some (p.2 + p.1.utf8Size - 1) := by
  obtain ⟨n, hn⟩ := Nat.exists_eq_succ_of_ne_zero (Nat.ne_of_gt p.1.utf8Size_pos)
  rw [origins_append]
  simp [origins, hn, List.range'_concat, ← Nat.add_assoc]

/-- The origins of the bytes of a source are all of its byte offsets. -/
theorem origins_locate (start : Nat) (cs : List Char) :
    (⟨locate start cs⟩ : Statement).origins = List.range' start (byteSize cs) := by
  induction cs generalizing start with
  | nil => rfl
  | cons c cs ih =>
    rw [locate, ← List.singleton_append, origins_append, ih, Text.byteSize_cons,
      ← List.range'_append_1]
    simp [origins]

/-- The bytes of a statement stand one behind the other in the source. -/
theorem LiesIn.pairwise_origins (hs : s.LiesIn source) : s.origins.Pairwise (· < ·) := by
  have hsub : s.origins.Sublist (⟨locate 0 source.toList⟩ : Statement).origins :=
    hs.flatMap _
  rw [origins_locate] at hsub
  exact (List.pairwise_lt_range' ..).sublist hsub

/-! ## Spans of ranges -/

/-- What the span of a range may be: a place in the statement, or the places from one byte of it to
    another one. -/
theorem spanOf_cases (s : Statement) (i j : Nat) :
    s.origins = [] ∧ s.spanOf i j = .empty 0 ∨
      (∃ x ∈ s.origins, s.spanOf i j = .empty x) ∨
      ∃ x ∈ s.origins, ∃ y ∈ s.origins, s.spanOf i j = .ofBounds x (y + 1) := by
  rw [spanOf]
  cases hlast : s.origins.getLast? with
  | none =>
    have hnil := List.getLast?_eq_none_iff.1 hlast
    simp [hnil]
  | some last =>
    have hmem : (s.origins[min i (min j s.origins.length)]?.or (some last)).getD 0 ∈
        s.origins := by
      cases hget : s.origins[min i (min j s.origins.length)]? with
      | some x => exact List.mem_of_getElem? hget
      | none => exact List.mem_of_getLast? hlast
    right
    split
    case h_1 stop hstop =>
      split
      · exact .inr ⟨_, hmem, stop, List.mem_of_getElem? hstop, rfl⟩
      · exact .inl ⟨_, hmem, rfl⟩
    case h_2 => exact .inl ⟨_, hmem, rfl⟩

/-- The span of a statement goes from its first byte to its last one. -/
theorem span_eq (h : s.origins ≠ []) :
    s.span = .ofBounds (s.origins.head h) (s.origins.getLast h + 1) := by
  have hpos := List.length_pos_iff.2 h
  have hlast : s.origins[s.origins.length - 1]? = some (s.origins.getLast h) := by
    rw [← List.getLast?_eq_getElem?, List.getLast?_eq_some_getLast h]
  rw [span, spanOf, ← length_origins]
  simp only [Nat.min_self, Nat.zero_min, ← List.head?_eq_getElem?, List.head?_eq_some_head h, hlast,
    if_pos hpos]
  rfl

/-- The bytes of a statement lie in its span. -/
theorem LiesIn.mem_span (hs : s.LiesIn source) (h : i ∈ s.origins) :
    s.span.start ≤ i ∧ i < s.span.stop := by
  have hne := List.ne_nil_of_mem h
  rw [span_eq hne]
  have hfirst : s.origins.head hne ≤ i := by
    obtain ⟨x, rest, heq⟩ := List.exists_cons_of_ne_nil hne
    have hpair := hs.pairwise_origins
    simp only [heq, List.head_cons] at h hpair ⊢
    rcases List.mem_cons.1 h with rfl | h
    · exact Nat.le_refl _
    · exact Nat.le_of_lt (List.rel_of_pairwise_cons hpair h)
  have hlast : i ≤ s.origins.getLast hne := by
    have heq := (List.dropLast_concat_getLast hne).symm
    have hpair := hs.pairwise_origins
    rw [heq] at h hpair
    rcases List.mem_append.1 h with h | h
    · exact Nat.le_of_lt ((List.pairwise_append.1 hpair).2.2 i h _ (List.mem_singleton.2 rfl))
    · exact Nat.le_of_eq (List.mem_singleton.1 h)
  exact ⟨hfirst, Nat.lt_of_lt_of_le (Nat.lt_succ_of_le hlast) (Nat.le_max_right _ _)⟩

/-- The span of a statement holds the span of each range of its bytes. -/
theorem LiesIn.span_holds (hs : s.LiesIn source) (i j : Nat) : s.span.Holds (s.spanOf i j) := by
  rcases spanOf_cases s i j with ⟨hnil, h⟩ | ⟨x, hx, h⟩ | ⟨x, hx, y, hy, h⟩
  · have hspan : s.span = .empty 0 := by
      rcases spanOf_cases s 0 (byteSize s.text) with ⟨-, h⟩ | ⟨x, hx, -⟩ | ⟨x, hx, -⟩
      · exact h
      all_goals
        rw [hnil] at hx
        cases hx
    rw [h, hspan]
    exact ⟨Nat.le_refl _, Nat.le_refl _⟩
  · rw [h]
    obtain ⟨hstart, hstop⟩ := hs.mem_span hx
    exact ⟨hstart, Nat.max_le.2 ⟨Nat.le_of_lt hstop, Nat.le_of_lt hstop⟩⟩
  · rw [h]
    obtain ⟨hstart, hstop⟩ := hs.mem_span hx
    exact ⟨hstart, Nat.max_le.2 ⟨Nat.le_of_lt hstop, (hs.mem_span hy).2⟩⟩

end Statement

/-! ## Pieces of a statement -/

/-- If a text ends with a character, this character has one byte. -/
def Text.endsInByte (cs : List Char) : Bool :=
  cs.getLast?.all fun c => c.utf8Size == 1

theorem Text.endsInByte_append {ds : List Char} (h : ds ≠ []) (cs : List Char) :
    endsInByte (cs ++ ds) = endsInByte ds := by
  rw [endsInByte, endsInByte, List.getLast?_append, List.getLast?_eq_some_getLast h, Option.some_or]

/-- The characters of a piece stand in a statement from its start on. Behind the last byte of the
    statement there is an empty piece only if the character in front of it has one byte. -/
def Piece.LiesIn (s : Statement) (p : Piece) : Prop :=
  ∃ before after, s.text = before ++ p.chars ++ after ∧ p.start = byteSize before ∧
    (p.chars = [] → after = [] → Text.endsInByte before = true)

namespace Piece

variable {source : String} {s : Statement} {p q left right : Piece} {pattern : List Char}

theorem liesIn_whole (s : Statement) : s.whole.LiesIn s :=
  ⟨[], [], by simp [Statement.whole], rfl, fun _ _ => rfl⟩

/-- A part of a piece lies where the piece does. -/
theorem LiesIn.part (hp : p.LiesIn s) (before after : List Char)
    (htext : p.chars = before ++ q.chars ++ after) (hstart : q.start = p.start + byteSize before)
    (hlast : q.chars = [] → after = [] → Text.endsInByte before = true) : q.LiesIn s := by
  obtain ⟨before', after', htext', hstart', hlast'⟩ := hp
  refine ⟨before' ++ before, after ++ after', ?_, ?_, fun hq hafter => ?_⟩
  · simp [htext', htext]
  · rw [hstart, hstart', Text.byteSize_append]
  · obtain ⟨rfl, rfl⟩ := List.append_eq_nil_iff.1 hafter
    by_cases hbefore : before = []
    · rw [hbefore, hq] at htext
      rw [hbefore, List.append_nil]
      exact hlast' htext rfl
    · rw [Text.endsInByte_append hbefore]
      exact hlast hq rfl

/-- What stands before and behind a pattern lies where the piece does, if the pattern ends with a
    character of one byte. -/
theorem LiesIn.of_splitOnce (hp : p.LiesIn s) (hpattern : Text.endsInByte pattern = true)
    (h : p.splitOnce pattern = some (left, right)) : left.LiesIn s ∧ right.LiesIn s := by
  obtain ⟨hsplit, hleft, hright⟩ := splitOnce_eq_some_iff.1 h
  have htext := Text.append_of_splitOnce hsplit
  have hne := Text.ne_nil_of_splitOnce hsplit
  constructor
  · refine hp.part [] (pattern ++ right.chars) ?_ hleft fun _ _ => rfl
    rw [← htext, List.nil_append, List.append_assoc]
  · refine hp.part (left.chars ++ pattern) [] ?_ ?_ fun _ _ => ?_
    · rw [← htext, List.append_nil]
    · rw [hright, Text.byteSize_append, Nat.add_assoc]
    · rwa [Text.endsInByte_append hne]

/-- The pieces between the occurrences of a delimiter lie where the whole piece does. -/
theorem LiesIn.of_mem_splitAll (hp : p.LiesIn s) (pattern : List Char)
    (hpattern : Text.endsInByte pattern = true) (h : q ∈ p.splitAll pattern) : q.LiesIn s := by
  obtain ⟨start, cs⟩ := p
  rw [splitAll] at h
  fun_induction Text.splitAll pattern cs generalizing start with
  | case1 cs hnone =>
    rw [Text.splitAll_of_splitOnce_eq_none hnone] at h
    rwa [List.mem_singleton.1 h]
  | case2 cs piece rest hsplit ih =>
    have hcut : splitOnce pattern ⟨start, cs⟩ =
        some (⟨start, piece⟩, ⟨start + byteSize piece + byteSize pattern, rest⟩) :=
      splitOnce_eq_some_iff.2 ⟨hsplit, rfl, rfl⟩
    have hparts := hp.of_splitOnce hpattern hcut
    rw [Text.splitAll_of_splitOnce_eq_some hsplit] at h
    rcases List.mem_cons.1 h with rfl | h
    · exact hparts.1
    · exact ih _ hparts.2 h

end Piece

/-! ## Spans of pieces -/

namespace Statement

variable {source : String} {s : Statement} {p : Piece}

/-- The span of a range that has bytes. -/
theorem spanOf_of_lt {i j x y : Nat} (h : i < j) (hi : s.origins[i]? = some x)
    (hj : s.origins[j - 1]? = some y) : s.spanOf i j = .ofBounds x (y + 1) := by
  have hlt : j - 1 < s.origins.length := (List.getElem?_eq_some_iff.1 hj).1
  have hmin : min j s.origins.length = j := Nat.min_eq_left (by omega)
  rw [spanOf]
  simp only [hmin, Nat.min_eq_left (Nat.le_of_lt h), hi, hj, if_pos h]
  rfl

/-- The span of a range without bytes. -/
theorem spanOf_self {i : Nat} (h : i ≤ s.origins.length) :
    s.spanOf i i = .empty ((s.origins[i]?.or s.origins.getLast?).getD 0) := by
  rw [spanOf]
  simp only [Nat.min_eq_left h, Nat.min_self, if_neg (Nat.lt_irrefl i)]
  split <;> rfl

/-- The origins behind the first characters of a statement. -/
theorem getElem?_origins (before after : List (Char × Nat)) (i : Nat) :
    (⟨before ++ after⟩ : Statement).origins[byteSize (before.map Prod.fst) + i]? =
      (⟨after⟩ : Statement).origins[i]? := by
  have hlength : (⟨before⟩ : Statement).origins.length = byteSize (before.map Prod.fst) :=
    length_origins _
  rw [origins_append, ← hlength, List.getElem?_append_right (Nat.le_add_right ..),
    Nat.add_sub_cancel_left]

/-- The span of a stretch of characters goes from the start of its first character to the end of
    its last one. -/
theorem spanOf_stretch (before after : List (Char × Nat)) {part : List (Char × Nat)}
    {first last : Char × Nat} (hfirst : part.head? = some first)
    (hlast : part.getLast? = some last) :
    (⟨before ++ (part ++ after)⟩ : Statement).spanOf (byteSize (before.map Prod.fst))
        (byteSize (before.map Prod.fst) + byteSize (part.map Prod.fst)) =
      .ofBounds first.2 (last.2 + last.1.utf8Size) := by
  have hlength : (⟨part⟩ : Statement).origins.length = byteSize (part.map Prod.fst) :=
    length_origins _
  obtain ⟨rest, rfl⟩ := List.head?_eq_some_iff.1 hfirst
  have hpos : 0 < byteSize ((first :: rest).map Prod.fst) :=
    Nat.add_pos_left first.1.utf8Size_pos _
  have hstart : (⟨first :: rest ++ after⟩ : Statement).origins[0]? = some first.2 := by
    rw [← List.head?_eq_getElem?, List.cons_append, head?_origins]
  have hstop : (⟨first :: rest ++ after⟩ : Statement).origins[
      byteSize ((first :: rest).map Prod.fst) - 1]? = some (last.2 + last.1.utf8Size - 1) := by
    rw [origins_append, List.getElem?_append_left (by omega), ← hlength,
      ← List.getLast?_eq_getElem?]
    obtain ⟨init, hinit⟩ := List.getLast?_eq_some_iff.1 hlast
    rw [hinit, getLast?_origins]
  have hstart := (getElem?_origins before _ 0).trans hstart
  have hstop := (getElem?_origins before _ _).trans hstop
  rw [← Nat.add_sub_assoc hpos] at hstop
  refine (spanOf_of_lt (Nat.lt_add_of_pos_right hpos) hstart hstop).trans ?_
  rw [Nat.sub_add_cancel (Nat.le_trans last.1.utf8Size_pos (Nat.le_add_left ..))]

/-- The empty span between the characters of a statement lies where the next character starts, or
    at the last byte of the statement. -/
theorem spanOf_between (before after : List (Char × Nat)) :
    (⟨before ++ after⟩ : Statement).spanOf (byteSize (before.map Prod.fst))
        (byteSize (before.map Prod.fst)) =
      .empty (((after.head?.map Prod.snd).or
        (before.getLast?.map fun p => p.2 + p.1.utf8Size - 1)).getD 0) := by
  have hle : byteSize (before.map Prod.fst) ≤
      (⟨before ++ after⟩ : Statement).origins.length := by
    rw [length_origins, text, List.map_append, Text.byteSize_append]
    exact Nat.le_add_right ..
  have hget := getElem?_origins before after 0
  rw [Nat.add_zero, ← List.head?_eq_getElem?] at hget
  rw [spanOf_self hle, hget]
  cases after with
  | cons next after => rw [head?_origins, List.head?_cons, Option.map_some, Option.some_or,
      Option.some_or]
  | nil =>
    rw [List.append_nil]
    rcases List.eq_nil_or_concat before with rfl | ⟨init, last, rfl⟩
    · rfl
    · rw [List.concat_eq_append, getLast?_origins, List.getLast?_concat]
      rfl

/-- A piece of a statement of a source has a span within the source. -/
theorem LiesIn.within_spanOfPiece (hs : s.LiesIn source) (hp : p.LiesIn s) :
    (s.spanOfPiece p).Within source := by
  obtain ⟨before, after, htext, hstart, hend⟩ := hp
  obtain ⟨chars⟩ := s
  rw [List.append_assoc] at htext
  obtain ⟨before, rest, rfl, rfl, hrest⟩ := List.map_eq_append_iff.1 htext
  obtain ⟨part, after, rfl, hpart, rfl⟩ := List.map_eq_append_iff.1 hrest
  rw [spanOfPiece, hstart, ← hpart]
  cases hfirst : part.head? with
  | some first =>
    obtain ⟨last, hlast⟩ : ∃ last, part.getLast? = some last :=
      ⟨_, List.getLast?_eq_some_getLast fun h => by simp [h] at hfirst⟩
    rw [spanOf_stretch before after hfirst hlast]
    have hplace {c : Char × Nat} (h : c ∈ part) :=
      hs.isPlace (List.mem_append_right before (List.mem_append_left after h))
    exact Span.within_ofBounds (hplace (List.mem_of_head? hfirst)).1
      (hplace (List.mem_of_getLast? hlast)).2
  | none =>
    obtain rfl := List.head?_eq_none_iff.1 hfirst
    have hempty {i : Nat} (h : IsPlace source.toList i) : (Span.empty i).Within source :=
      Span.within_ofBounds h h
    refine (spanOf_between before after).symm ▸ hempty ?_
    cases after with
    | cons next after => exact (hs.isPlace (List.mem_append_right before List.mem_cons_self)).1
    | nil =>
      rcases List.eq_nil_or_concat before with rfl | ⟨init, last, rfl⟩
      · exact Text.isPlace_zero _
      · -- The last byte of the statement is all of its last character.
        have hsize : last.1.utf8Size = 1 := by
          simpa [Text.endsInByte] using hend hpart.symm rfl
        rw [List.concat_eq_append, List.getLast?_concat, Option.map_some, hsize,
          Nat.add_sub_cancel]
        have hmem : (last.1, last.2) ∈ init.concat last ++ ([] ++ []) := by simp
        exact (hs.isPlace hmem).1

/-! ## Parts of forms -/

/-- A character that is not ordinary stands in the text. -/
theorem standsAt_of_firstUnordinary? {extra : Option Char} {start depth i : Nat} {c : Char}
    {cs : List Char} (h : firstUnordinary? extra start depth cs = some (i, c)) :
    StandsAt start cs [c] i := by
  rw [firstUnordinary?_eq_find?] at h
  obtain ⟨-, -, before, after, hcs, hi, -⟩ := Text.mem_topLevel.1 (List.mem_of_find?_eq_some h)
  exact ⟨before, after, by rw [hcs, List.append_assoc]; rfl, hi⟩

end Statement

namespace Form

/-- The pieces of which a form is made. -/
def parts : Form → List Piece
  | block => []
  | relation _ lhs rhs => [lhs, rhs]
  | definition name expression => [name, expression]
  | bound _ target value => [target, value]
  | declaration name => [name]

variable {s : Statement} {form : Form} {p : Piece}

/-- The parts of the form of a statement lie in the statement. -/
theorem liesIn_of_form? (h : s.form? = some form) (hp : p ∈ form.parts) : p.LiesIn s := by
  have hwhole := Piece.liesIn_whole s
  have hsplit (pattern : List Char) {left right : Piece}
      (hpattern : Text.endsInByte pattern = true)
      (h : s.whole.splitOnce pattern = some (left, right)) (hp : p ∈ [left, right]) :
      p.LiesIn s := by
    obtain ⟨hleft, hright⟩ := hwhole.of_splitOnce hpattern h
    simp only [List.mem_cons, List.not_mem_nil, or_false] at hp
    rcases hp with rfl | rfl
    · exact hleft
    · exact hright
  cases ofPiece?_eq_some_iff.1 h with
  | block => cases hp
  | @relation op lhs rhs _ _ hparts =>
    exact hsplit op.symbol.toList (by cases op <;> decide) hparts hp
  | definition _ hparts =>
    exact hsplit Operator.define.symbol.toList (by decide) hparts hp
  | @bound side target value _ _ hparts =>
    exact hsplit [side.symbol] (by cases side <;> decide) hparts hp
  | @declaration name _ _ _ hname =>
    obtain rfl := List.mem_singleton.1 hp
    exact hwhole.part ['!'] [] (by simp [hname]) rfl fun _ _ => by decide

/-- What is looked at in a statement lies in it. -/
theorem liesIn_checked (s : Statement) : (checked s.whole s.form?).1.LiesIn s := by
  have hwhole := Piece.liesIn_whole s
  cases hform : s.form? with
  | none => exact hwhole
  | some form =>
    have hpart {p : Piece} (hp : p ∈ form.parts) : p.LiesIn s := liesIn_of_form? hform hp
    cases form with
    | block | relation | bound => exact hwhole
    | definition | declaration => exact hpart List.mem_cons_self

end Form

end StructuralModel
