import Mathlib.Data.List.Forall2
import StructuralModel.Proofs.Statement.Place

/-!
# The grammar of valid statements

Which statements are valid can be told place by place (`Statement.IsGrammatical`). A statement that
is not empty starts with a letter, `_`, `!` or `{`. Unless it is a block, the characters outside of
braces are common ones, up to some exceptions that its form makes: the sign of a bound anywhere in
the bound, the mark at the start of a declaration, and in a definition everything from the first
`:=` on. The braces themselves are not outside of braces, whether or not they have a partner.

The check looks at a part of a statement only, and lets one more character pass there. That is the
same: what it leaves out, and what it lets pass, are the exceptions.

* `offends_iff`: which characters offend, told by the part that is checked;
* `invalid?_outcome`: a statement is grammatical, or it is reported what is wrong with it;
* `validate_outcome`: statements are valid iff all of them are grammatical, and otherwise each of
  the others is reported, at the first character that offends.
-/

namespace StructuralModel

open Text (byteSize depth topLevel OccursAt)

/-- A fault with a code, whose one primary label is on a character of a source. -/
structure Finding.Marks (f : Finding) (code : String) (p : Char × Nat) : Prop where
  isFault : f.isFault = true
  hasCode : f.diagnostic.code.map Code.name = some code
  isPlace : (f.diagnostic.labels.filter Label.primary).map Label.span =
    [.ofBounds p.2 (p.2 + p.1.utf8Size)]

namespace Statement

/-- The text starts with a letter or a mark with which statements start. -/
def StartsWell (cs : List Char) : Prop :=
  ∃ c ∈ cs.head?, Text.isLetter c = true ∨ c ∈ ['_', '!', '{']

/-- A character that statements of all forms may have outside of braces. -/
def IsCommon (c : Char) : Prop :=
  Text.isLetter c = true ∨ Text.isNumber c = true ∨ c ∈ ['_', '=', '~', '*', '+', '-', '.']

/-- The form of the text makes an exception for a character behind `before`. -/
inductive Excepted (cs before : List Char) : Char → Prop
  | lower : Form.Kind.ofText? cs = some (.bound .lower) → Excepted cs before '>'
  | upper : Form.Kind.ofText? cs = some (.bound .upper) → Excepted cs before '<'
  | mark : Form.Kind.ofText? cs = some .declaration → before = [] → Excepted cs before '!'
  | expression {c : Char} {i : Nat} : Form.Kind.ofText? cs = some .definition →
      OccursAt [':', '='] cs i → i ≤ byteSize before → Excepted cs before c

/-- The character `c` behind `before` must not stand there. -/
structure Offends (cs before : List Char) (c : Char) : Prop where
  stands : ∃ after, cs = before ++ c :: after
  outside : depth 0 before = 0
  plain : c ≠ '{' ∧ c ≠ '}'
  uncommon : ¬IsCommon c
  unexcepted : ¬Excepted cs before c

/-- The text of a valid statement. -/
def IsGrammatical (cs : List Char) : Prop :=
  cs = [] ∨ StartsWell cs ∧ (Text.isBlock cs = true ∨ ∀ before c, ¬Offends cs before c)

/-! ## Characters -/

theorem isStart_iff {c : Char} :
    isStart c = true ↔ Text.isLetter c = true ∨ c ∈ ['_', '!', '{'] := by
  simp only [isStart, Bool.or_eq_true, beq_iff_eq, List.mem_cons, List.not_mem_nil, or_false,
    or_assoc]

theorem isOrdinary_iff {c : Char} : isOrdinary c = true ↔ IsCommon c := by
  simp only [isOrdinary, IsCommon, Bool.or_eq_true, beq_iff_eq, List.mem_cons, List.not_mem_nil,
    or_false, or_assoc]

theorem isAllowed_eq_false_iff {extra : Option Char} {c : Char} :
    isAllowed extra c = false ↔ ¬IsCommon c ∧ extra ≠ some c := by
  rw [isAllowed, Bool.or_eq_false_iff, beq_eq_false_iff_ne, ← isOrdinary_iff, Bool.not_eq_true]

/-- A text that is not empty starts well iff its first character does. -/
theorem startsWell_cons_iff {c : Char} {cs : List Char} :
    StartsWell (c :: cs) ↔ isStart c = true := by
  rw [isStart_iff, StartsWell]
  simp

/-! ## Exceptions -/

section Exceptions

variable {cs before after : List Char} {c : Char}

/-- A text with a form that is neither a bound nor a declaration nor a definition makes no
    exception. -/
theorem not_excepted (hbound : ∀ side, Form.Kind.ofText? cs ≠ some (.bound side))
    (hdeclaration : Form.Kind.ofText? cs ≠ some .declaration)
    (hdefinition : Form.Kind.ofText? cs ≠ some .definition) : ¬Excepted cs before c := by
  intro h
  cases h with
  | lower h | upper h => exact hbound _ h
  | mark h => exact hdeclaration h
  | expression h => exact hdefinition h

/-- A bound makes an exception for its sign. -/
theorem excepted_bound_iff {side : Bound} (h : Form.Kind.ofText? cs = some (.bound side)) :
    Excepted cs before c ↔ side.symbol = c := by
  constructor
  · intro hc
    cases hc with
    | lower h' | upper h' =>
      rw [h] at h'
      cases h'
      rfl
    | mark h' | expression h' =>
      rw [h] at h'
      cases h'
  · rintro rfl
    cases side with
    | lower => exact .lower h
    | upper => exact .upper h

/-- A declaration makes an exception for its first character. -/
theorem excepted_declaration_iff {name : List Char} (hcs : '!' :: name = before ++ c :: after)
    (h : Form.Kind.ofText? ('!' :: name) = some .declaration) :
    Excepted ('!' :: name) before c ↔ before = [] := by
  constructor
  · intro hc
    cases hc with
    | mark _ hbefore => exact hbefore
    | lower h' | upper h' | expression h' =>
      rw [h] at h'
      cases h'
  · rintro rfl
    obtain ⟨rfl, -⟩ := List.cons.inj hcs
    exact .mark h rfl

/-- A definition makes an exception for what stands behind its name. -/
theorem excepted_definition_iff {name expression : List Char}
    (h : Form.Kind.ofText? cs = some .definition)
    (hsplit : Text.splitOnce [':', '='] cs = some (name, expression)) :
    Excepted cs before c ↔ byteSize name ≤ byteSize before := by
  have hfirst : Text.findTopLevel [':', '='] cs = some (byteSize name) := by
    rw [Text.findTopLevel, hsplit]
    rfl
  obtain ⟨hoccurs, hmin⟩ := (Text.findTopLevel_eq_some_iff (List.cons_ne_nil _ _)).1 hfirst
  constructor
  · intro hc
    cases hc with
    | expression _ hi hle => exact Nat.le_trans (hmin _ hi) hle
    | lower h' | upper h' | mark h' =>
      rw [h] at h'
      cases h'
  · exact .expression h hoccurs

end Exceptions

/-! ## What is checked -/

/-- A character is excepted iff it stands outside of the part that is checked, or is let pass
    there. -/
theorem not_excepted_iff {cs before after : List Char} {c : Char}
    (hcs : cs = before ++ c :: after) :
    ¬Excepted cs before c ↔ ((Form.checkedOf cs).1.start ≤ byteSize before ∧
      byteSize before < (Form.checkedOf cs).1.start + byteSize (Form.checkedOf cs).1.chars) ∧
      (Form.checkedOf cs).2 ≠ some c := by
  have hsize : byteSize before < byteSize cs := by
    have := c.utf8Size_pos
    rw [hcs, Text.byteSize_append, Text.byteSize_cons]
    omega
  have hwhole : 0 ≤ byteSize before ∧ byteSize before < 0 + byteSize cs :=
    ⟨Nat.zero_le _, by rwa [Nat.zero_add]⟩
  have hnone : none ≠ some c := (Option.some_ne_none c).symm
  rw [Form.checkedOf]
  cases hform : Form.ofPiece? ⟨0, cs⟩ with
  | none =>
    have hkind : Form.Kind.ofText? cs = none := congrArg (Option.map Form.kind) hform
    exact iff_of_true (not_excepted (by simp [hkind]) (by simp [hkind]) (by simp [hkind]))
      ⟨hwhole, hnone⟩
  | some form =>
    have hkind : Form.Kind.ofText? cs = some form.kind := congrArg (Option.map Form.kind) hform
    cases Form.ofPiece?_eq_some_iff.1 hform with
    | block | relation =>
      exact iff_of_true (not_excepted (by simp [hkind, Form.kind]) (by simp [hkind, Form.kind])
        (by simp [hkind, Form.kind])) ⟨hwhole, hnone⟩
    | bound =>
      rw [excepted_bound_iff hkind, Form.checked, and_iff_right hwhole, ne_eq, Option.some_inj]
    | definition _ hsplit _ =>
      obtain ⟨hsplit, hstart, -⟩ := Piece.splitOnce_eq_some_iff.1 hsplit
      rw [excepted_definition_iff hkind hsplit, Nat.not_le, Form.checked, hstart, Nat.zero_add]
      exact ⟨fun h => ⟨⟨Nat.zero_le _, h⟩, hnone⟩, fun h => h.1.2⟩
    | @declaration name _ _ _ hmark =>
      obtain rfl : cs = '!' :: name := hmark
      rw [excepted_declaration_iff hcs hkind, ← Text.byteSize_eq_zero_iff, Form.checked]
      have hmarkSize : byteSize ('!' :: name) = 1 + byteSize name := rfl
      refine ⟨fun h => ⟨⟨Nat.pos_of_ne_zero h, by rwa [← hmarkSize]⟩, hnone⟩,
        fun h => Nat.ne_of_gt h.1.1⟩

/-- A character that is outside of braces offends iff it stands in the part that is checked and is
    not allowed there. -/
theorem offends_iff {cs before after : List Char} {c : Char} (hcs : cs = before ++ c :: after)
    (hd : depth 0 before = 0) (hc : c ≠ '{' ∧ c ≠ '}') :
    Offends cs before c ↔ ((Form.checkedOf cs).1.start ≤ byteSize before ∧
      byteSize before < (Form.checkedOf cs).1.start + byteSize (Form.checkedOf cs).1.chars) ∧
      isAllowed (Form.checkedOf cs).2 c = false := by
  rw [isAllowed_eq_false_iff, and_left_comm, ← not_excepted_iff hcs]
  exact ⟨fun h => ⟨h.uncommon, h.unexcepted⟩, fun h => ⟨⟨after, hcs⟩, hd, hc, h.1, h.2⟩⟩

/-- The first character that is found, and no earlier one, offends. -/
theorem exists_offends {cs : List Char} {i : Nat} {c : Char} (h : unallowed? cs = some (i, c)) :
    ∃ before, i = byteSize before ∧ Offends cs before c ∧
      ∀ b d, Offends cs b d → before.length ≤ b.length := by
  rw [unallowed?_eq_find?, List.find?_filter, List.find?_eq_some_iff_append] at h
  obtain ⟨hfound, front, back, hlist, hfront⟩ := h
  obtain ⟨before, after, hcs, hi, hd, hopen, hclose, rfl⟩ := Text.exists_of_topLevel_eq_append hlist
  obtain rfl : i = byteSize before := hi.trans (Nat.zero_add _)
  refine ⟨before, rfl, (offends_iff hcs hd ⟨hopen, hclose⟩).2 (by simpa using hfound),
    fun b d hoffends => Nat.le_of_not_lt fun hlt => ?_⟩
  -- A shorter place lies in front of the character, where nothing was found.
  obtain ⟨a, hb⟩ := hoffends.stands
  have hshort : b ++ [d] <+: cs := ⟨a, by rw [hb, List.append_assoc]; rfl⟩
  have hlong : before <+: cs := ⟨c :: after, hcs.symm⟩
  obtain ⟨middle, rfl⟩ := List.prefix_of_prefix_length_le hshort hlong
    (by rwa [List.length_append, List.length_singleton])
  have hmem : (byteSize b, d) ∈ topLevel 0 0 (b ++ [d] ++ middle) :=
    Text.mem_topLevel.2 ⟨hoffends.plain.1, hoffends.plain.2, b, middle, by simp,
      (Nat.zero_add _).symm, hoffends.outside⟩
  have hnot := hfront _ hmem
  have hyes := (offends_iff hb hoffends.outside hoffends.plain).1 hoffends
  simp [hyes] at hnot

/-- Nothing is found iff no character offends. -/
theorem unallowed?_eq_none_iff {cs : List Char} :
    unallowed? cs = none ↔ ∀ before c, ¬Offends cs before c := by
  constructor
  · intro h before c hoffends
    rw [unallowed?_eq_find?, List.find?_filter, List.find?_eq_none] at h
    obtain ⟨after, hcs⟩ := hoffends.stands
    have hnot := h (byteSize before, c) (Text.mem_topLevel.2 ⟨hoffends.plain.1, hoffends.plain.2,
      before, after, hcs, (Nat.zero_add _).symm, hoffends.outside⟩)
    have hyes := (offends_iff hcs hoffends.outside hoffends.plain).1 hoffends
    simp [hyes] at hnot
  · intro h
    cases hfound : unallowed? cs with
    | none => rfl
    | some p =>
      obtain ⟨before, -, hoffends, -⟩ := exists_offends hfound
      exact absurd hoffends (h before p.2)

/-! ## Single statements -/

/-- What is reported on a statement that is not grammatical: its first character if that is a bad
    start, and otherwise the first character that offends. -/
inductive Rejects (s : Statement) (f : Finding) : Prop
  | start {p : Char × Nat} {rest : List (Char × Nat)} : s.chars = p :: rest →
      ¬StartsWell s.text → f.Marks "E100" p → Rejects s f
  | character {p : Char × Nat} {before after : List (Char × Nat)} : StartsWell s.text →
      Text.isBlock s.text = false → s.chars = before ++ p :: after →
      Offends s.text (before.map Prod.fst) p.1 →
      (∀ b d, Offends s.text b d → before.length ≤ b.length) → f.Marks "E101" p → Rejects s f

/-- What is reported on is not grammatical. -/
theorem Rejects.not_isGrammatical {s : Statement} {f : Finding} (h : Rejects s f) :
    ¬IsGrammatical s.text := by
  rintro (hnil | ⟨hstart, hrest⟩)
  · cases h with
    | start hchars | character _ _ hchars => simp [text, hchars] at hnil
  · cases h with
    | start _ hbad => exact hbad hstart
    | character _ hblock _ hoffends =>
      rcases hrest with hyes | hnone
      · rw [hblock] at hyes
        cases hyes
      · exact hnone _ _ hoffends

/-- The span of a character of a statement is where the character stands in the source. -/
theorem spanOfChar_eq {s : Statement} (before : List (Char × Nat)) {after : List (Char × Nat)}
    {p : Char × Nat} (h : s.chars = before ++ p :: after) :
    s.spanOfChar (byteSize (before.map Prod.fst)) p.1 = .ofBounds p.2 (p.2 + p.1.utf8Size) := by
  obtain ⟨chars⟩ := s
  obtain rfl : chars = before ++ p :: after := h
  exact @spanOf_stretch before after [p] p p rfl rfl

/-- The first character that offends, and where it stands in the source. -/
theorem exists_offends_placed {s : Statement} {i : Nat} {c : Char}
    (h : unallowed? s.text = some (i, c)) :
    ∃ before p after, s.chars = before ++ p :: after ∧
      s.spanOfChar i c = .ofBounds p.2 (p.2 + p.1.utf8Size) ∧
      Offends s.text (before.map Prod.fst) p.1 ∧
      ∀ b d, Offends s.text b d → before.length ≤ b.length := by
  obtain ⟨front, rfl, hoffends, hfirst⟩ := exists_offends h
  obtain ⟨back, htext⟩ := hoffends.stands
  obtain ⟨before, others, hchars, rfl, hothers⟩ := List.map_eq_append_iff.1 htext
  obtain ⟨p, after, rfl, rfl, -⟩ := List.map_eq_cons_iff.1 hothers
  rw [List.length_map] at hfirst
  exact ⟨before, p, after, hchars, spanOfChar_eq before hchars, hoffends, hfirst⟩

/-- A statement in which nothing is wrong is grammatical, and on any other one it is reported what
    is wrong. -/
theorem invalid?_outcome (s : Statement) :
    match s.invalid? with
    | none => IsGrammatical s.text
    | some f => Rejects s f := by
  cases hchars : s.chars with
  | nil =>
    have htext : s.text = [] := congrArg (List.map Prod.fst) hchars
    rw [invalid?, htext]
    exact .inl rfl
  | cons p rest =>
    have htext : s.text = p.1 :: rest.map Prod.fst := congrArg (List.map Prod.fst) hchars
    have hstarts : StartsWell s.text ↔ isStart p.1 = true := by rw [htext, startsWell_cons_iff]
    rw [invalid?_eq htext]
    cases hstart : isStart p.1 with
    | false =>
      have hspan : s.spanOfChar 0 p.1 = .ofBounds p.2 (p.2 + p.1.utf8Size) :=
        spanOfChar_eq [] hchars
      rw [hspan]
      exact .start hchars (by simp [hstarts, hstart]) ⟨rfl, rfl, rfl⟩
    | true =>
      have hstarts := hstarts.2 hstart
      cases hblock : Text.isBlock s.text with
      | true => exact .inr ⟨hstarts, .inl hblock⟩
      | false =>
        cases hfound : unallowed? s.text with
        | none => exact .inr ⟨hstarts, .inr (unallowed?_eq_none_iff.1 hfound)⟩
        | some q =>
          obtain ⟨before, x, after, hsplit, hspan, hoffends, hfirst⟩ :=
            exists_offends_placed hfound
          simp only [Bool.true_eq_false, if_false, Bool.false_eq_true, Option.map_some, hspan]
          exact .character hstarts hblock hsplit hoffends hfirst ⟨rfl, rfl, rfl⟩

/-- Nothing is wrong with a statement iff it is grammatical. -/
theorem invalid?_eq_none_iff_isGrammatical {s : Statement} :
    s.invalid? = none ↔ IsGrammatical s.text := by
  have houtcome := invalid?_outcome s
  cases h : s.invalid? with
  | none =>
    rw [h] at houtcome
    exact iff_of_true rfl houtcome
  | some f =>
    rw [h] at houtcome
    exact iff_of_false (Option.some_ne_none f) houtcome.not_isGrammatical

instance (cs : List Char) : Decidable (IsGrammatical cs) :=
  have htext : (⟨locate 0 cs⟩ : Statement).text = cs := map_fst_locate 0 cs
  decidable_of_iff ((⟨locate 0 cs⟩ : Statement).invalid?.isNone = true) <| by
    rw [Option.isNone_iff_eq_none, invalid?_eq_none_iff_isGrammatical, htext]

/-! ## All statements -/

/-- If each element has one image when it is marked, and none otherwise, the images are those of the
    marked elements. -/
theorem forall₂_filter_flatMap {α β : Type} {R : α → β → Prop} {p : α → Bool} {f : α → List β}
    {l : List α} (h : ∀ a ∈ l, if p a then ∃ b, f a = [b] ∧ R a b else f a = []) :
    List.Forall₂ R (l.filter p) (l.flatMap f) := by
  induction l with
  | nil => exact .nil
  | cons a l ih =>
    obtain ⟨ha, hl⟩ := List.forall_mem_cons.1 h
    rw [List.filter_cons, List.flatMap_cons]
    cases hp : p a with
    | false =>
      rw [hp] at ha
      rw [show f a = [] from ha]
      exact ih hl
    | true =>
      rw [hp] at ha
      obtain ⟨b, hb, hR⟩ := ha
      rw [hb]
      exact .cons hR (ih hl)

/-- There is one report for each statement that is not grammatical. -/
theorem forall₂_rejects (statements : List Statement) :
    List.Forall₂ Rejects (statements.filter fun s => !decide (IsGrammatical s.text))
      (statements.filterMap invalid?) := by
  rw [List.filterMap_eq_flatMap_toList]
  refine forall₂_filter_flatMap fun s _ => ?_
  have houtcome := invalid?_outcome s
  cases h : s.invalid? with
  | none =>
    rw [h] at houtcome
    simp only [decide_eq_true houtcome]
    rfl
  | some f =>
    rw [h] at houtcome
    simp only [decide_eq_false houtcome.not_isGrammatical]
    exact ⟨f, rfl, houtcome⟩

/-- Statements are valid iff all of them are grammatical. Otherwise there is one report for each of
    the others, in their order, with the place of what is wrong in it. -/
theorem validate_outcome (statements : List Statement) :
    (validate statements = .ok () ↔ ∀ s ∈ statements, IsGrammatical s.text) ∧
      ∀ found, validate statements = .error found →
        List.Forall₂ Rejects (statements.filter fun s => !decide (IsGrammatical s.text)) found := by
  have hnone : statements.filterMap invalid? = [] ↔ ∀ s ∈ statements, IsGrammatical s.text := by
    rw [List.filterMap_eq_nil_iff]
    exact forall₂_congr fun _ _ => invalid?_eq_none_iff_isGrammatical
  rw [validate]
  split
  case h_1 hnil => exact ⟨iff_of_true rfl (hnone.1 hnil), fun _ h => nomatch h⟩
  case h_2 hne =>
    refine ⟨iff_of_false (fun h => nomatch h) fun h => hne (hnone.2 h), fun found h => ?_⟩
    obtain rfl := Except.error.inj h
    exact forall₂_rejects statements

-- A mark in front of a definition or a bound starts no declaration.
example : ["!a", "!a!b", "!a:=b", "!a>1", "a>b<c", "a:=b<c", "f~\x7dx"].map
    (fun text => decide (IsGrammatical text.toList)) =
      [true, false, false, false, false, true, true] := by
  decide +kernel

end Statement

end StructuralModel
