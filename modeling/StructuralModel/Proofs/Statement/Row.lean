import StructuralModel.Proofs.Statement.Form
import StructuralModel.Proofs.Statement.Validity

/-!
# Rows written and read

The names and the modifiers of a relation are *parts* of a text (`IsPart`): not empty, balanced, and
outside of braces with ordinary characters other than `+` and `*` only. A row of such parts is
*sound* (`Relation.Sound`), and its term is *clear* (`Relation.Clear`) if no operator that wins over
the one of the row occurs in it.

* `read_of_mem_rows`: the rows that a text adds are sound and have clear terms;
* `Sound.ofText?_text_iff`: the text of a sound row is read as this row iff its left side is a name
  that may start a statement, and no operator that wins over its own occurs from there on;
* `Clear.splitOnce_symbol_term_iff`: in front of a clear term that is so unless a `~` at its start
  makes another operator with the one of a regression.
-/

namespace StructuralModel

open Text (Balanced outside splitOnce splitAll)

/-- A name or a modifier as it may stand in a relation. -/
structure IsPart (cs : List Char) : Prop where
  ne_nil : cs ≠ []
  balanced : Balanced cs
  ordinary : ∀ c ∈ outside 0 cs, Statement.isOrdinary c = true
  undivided : '+' ∉ outside 0 cs ∧ '*' ∉ outside 0 cs

/-- Characters of a text that is a part are characters of words. -/
theorem IsPart.compact {cs : List Char} (h : IsPart cs) : Compact cs :=
  ⟨h.balanced, fun c hc => Statement.isWordChar_of_isOrdinary (h.ordinary c hc)⟩

namespace Relation

/-- The right side of a relation as it is written: the modifier, if there is one, and the name. -/
def term (r : Relation) : List Char :=
  (match r.modifier with
    | some m => m.text.toList ++ ['*']
    | none => []) ++ r.rhs.toList

/-- A relation without layout. -/
def text (r : Relation) : List Char :=
  r.lhs.toList ++ r.op.symbol.toList ++ r.term

/-- A relation whose names and modifier are parts, and whose modifier is read as what it is. -/
structure Sound (r : Relation) : Prop where
  isEdge : r.op ≠ .define
  lhs : IsPart r.lhs.toList
  rhs : IsPart r.rhs.toList
  modifier : ∀ m, r.modifier = some m →
    IsPart m.text.toList ∧ Modifier.ofPiece ⟨0, m.text.toList⟩ = m

end Relation

/-! ## Terms -/

/-- A text without a character outside is one piece. -/
theorem Text.splitAll_singleton {c : Char} (hc : c ≠ '{' ∧ c ≠ '}') {cs : List Char}
    (h : c ∉ outside 0 cs) : splitAll [c] cs = [cs] :=
  splitAll_of_splitOnce_eq_none ((splitOnce_singleton_eq_none_iff hc).2 h)

namespace Relation

variable {r : Relation}

/-- The term of a sound row is balanced, and has ordinary characters and no `+` outside. -/
theorem Sound.term (h : r.Sound) :
    Balanced r.term ∧ (∀ c ∈ outside 0 r.term, Statement.isOrdinary c = true) ∧
      '+' ∉ outside 0 r.term := by
  rw [Relation.term]
  cases hm : r.modifier with
  | none => exact ⟨h.rhs.balanced, h.rhs.ordinary, h.rhs.undivided.1⟩
  | some m =>
    obtain ⟨hpart, -⟩ := h.modifier m hm
    have hb : Balanced (m.text.toList ++ ['*']) := hpart.balanced.append (by decide)
    have hout : outside 0 (m.text.toList ++ ['*'] ++ r.rhs.toList) =
        outside 0 m.text.toList ++ ['*'] ++ outside 0 r.rhs.toList := by
      rw [Text.outside_append_of_balanced hb, Text.outside_append_of_balanced hpart.balanced]
      rfl
    refine ⟨hb.append h.rhs.balanced, ?_, ?_⟩
    · rw [hout]
      intro c hc
      rcases List.mem_append.1 hc with hc | hc
      · rcases List.mem_append.1 hc with hc | hc
        · exact hpart.ordinary c hc
        · obtain rfl := List.mem_singleton.1 hc
          decide
      · exact h.rhs.ordinary c hc
    · rw [hout]
      simp [hpart.undivided.1, h.rhs.undivided.1]

/-- The term of a sound row makes this row. -/
theorem Sound.ofTerm? (h : r.Sound) : Relation.ofTerm? r.lhs r.op r.term = some r.bare := by
  have hstar : '*' ≠ '{' ∧ '*' ≠ '}' := by decide
  have hrhs : r.rhs.toList.isEmpty = false := by simpa using h.rhs.ne_nil
  rw [Relation.ofTerm?, Relation.term]
  cases hm : r.modifier with
  | none =>
    rw [List.nil_append, Text.splitAll_singleton hstar h.rhs.undivided.2]
    simp [hrhs, bare, hm]
  | some m =>
    obtain ⟨hpart, hread⟩ := h.modifier m hm
    have hmod : m.text.toList.isEmpty = false := by simpa using hpart.ne_nil
    rw [List.append_assoc, List.singleton_append,
      Text.splitAll_append hstar hpart.balanced.depth_eq hpart.undivided.2,
      Text.splitAll_singleton hstar h.rhs.undivided.2]
    simp [hrhs, hmod, hread, bare, hm]

/-- The text of a sound row is balanced, and has ordinary characters and no `+` outside. -/
theorem Sound.text (h : r.Sound) :
    Balanced r.text ∧ (∀ c ∈ outside 0 r.text, Statement.isOrdinary c = true) ∧
      '+' ∉ outside 0 r.text := by
  obtain ⟨hterm, hordinary, hplus⟩ := h.term
  have hop : Balanced r.op.symbol.toList ∧
      (∀ c ∈ outside 0 r.op.symbol.toList, Statement.isOrdinary c = true) ∧
      '+' ∉ outside 0 r.op.symbol.toList := by
    cases hr : r.op with
    | define => exact absurd hr h.isEdge
    | _ => exact ⟨by decide, List.all_eq_true.1 (by decide), by decide⟩
  rw [Relation.text]
  have hb := h.lhs.balanced.append hop.1
  refine ⟨hb.append hterm, ?_, ?_⟩
  · rw [Text.outside_append_of_balanced hb, Text.outside_append_of_balanced h.lhs.balanced]
    intro c hc
    rcases List.mem_append.1 hc with hc | hc
    · rcases List.mem_append.1 hc with hc | hc
      · exact h.lhs.ordinary c hc
      · exact hop.2.1 c hc
    · exact hordinary c hc
  · rw [Text.outside_append_of_balanced hb, Text.outside_append_of_balanced h.lhs.balanced]
    simp [h.lhs.undivided.1, hop.2.2, hplus]

/-- The row of a term has the term's parts, and no bounds. -/
theorem of_ofTerm? {lhs : String} {op : Operator} {cs : List Char}
    (h : Relation.ofTerm? lhs op cs = some r) :
    r.lhs = lhs ∧ r.op = op ∧ r.bare = r ∧ r.term = cs ∧ r.rhs.toList ∈ splitAll ['*'] cs ∧
      r.rhs.toList ≠ [] ∧ ∀ m, r.modifier = some m → m.text.toList ∈ splitAll ['*'] cs ∧
        m.text.toList ≠ [] ∧ Modifier.ofPiece ⟨0, m.text.toList⟩ = m := by
  have htext (cs : List Char) : (Modifier.ofPiece ⟨0, cs⟩).text.toList = cs := by
    rw [Modifier.ofPiece]
    split <;> exact String.toList_ofList
  have hcs := Text.intercalate_splitAll ['*'] cs
  rw [Relation.ofTerm?] at h
  split at h
  case h_1 name hparts =>
    rw [hparts] at hcs ⊢
    split at h
    case isTrue => cases h
    case isFalse hne =>
      cases h
      refine ⟨rfl, rfl, rfl, ?_, ?_, ?_, fun m hm => (by cases hm)⟩
      · simpa [Relation.term] using hcs
      · simp
      · simpa using hne
  case h_2 modifier name hparts =>
    rw [hparts] at hcs ⊢
    split at h
    case isTrue => cases h
    case isFalse hne =>
      cases h
      have hne : modifier ≠ [] ∧ name ≠ [] := by simpa using hne
      refine ⟨rfl, rfl, rfl, ?_, ?_, ?_, ?_⟩
      · simpa [Relation.term, htext, List.intercalate, List.intersperse] using hcs
      · simp
      · simpa using hne.2
      · intro m hm
        obtain rfl := Option.some.inj hm
        rw [htext]
        exact ⟨by simp, hne.1, rfl⟩
  case h_3 => cases h

/-- The row of a term with ordinary characters is sound. -/
theorem sound_of_ofTerm? {lhs : String} {op : Operator} {cs : List Char}
    (h : Relation.ofTerm? lhs op cs = some r) (hop : op ≠ .define) (hlhs : IsPart lhs.toList)
    (hb : Balanced cs) (hordinary : ∀ c ∈ outside 0 cs, Statement.isOrdinary c = true)
    (hplus : '+' ∉ outside 0 cs) : r.Sound := by
  obtain ⟨rfl, rfl, -, -, hrhs, hne, hmod⟩ := of_ofTerm? h
  have hpart {piece : List Char} (hpiece : piece ∈ splitAll ['*'] cs) (hne : piece ≠ []) :
      IsPart piece := by
    obtain ⟨hpb, hnone, before, after, hcs, hbefore⟩ :=
      Text.exists_append_of_mem_splitAll hpiece hb (List.cons_ne_nil _ _) (by decide)
    have hsub : ∀ c ∈ outside 0 piece, c ∈ outside 0 cs := by
      intro c hc
      rw [hcs, List.append_assoc, Text.outside_append_of_balanced hbefore,
        Text.outside_append_of_balanced hpb]
      exact List.mem_append_right _ (List.mem_append_left _ hc)
    exact ⟨hne, hpb, fun c hc => hordinary c (hsub c hc), fun hc => hplus (hsub _ hc),
      (Text.splitOnce_singleton_eq_none_iff (by decide)).1 hnone⟩
  exact ⟨hop, hlhs, hpart hrhs hne, fun m hm =>
    ⟨hpart (hmod m hm).1 (hmod m hm).2.1, (hmod m hm).2.2⟩⟩

/-! ## Reading the text of a row -/

/-- No operator that wins over the one of the row occurs in the term. -/
def Clear (r : Relation) : Prop :=
  ∀ op ∈ r.op.before, splitOnce op.symbol.toList r.term = none

/-- In front of a clear term, an operator that wins occurs only if a `~` at the start of the term
    makes one with the operator of a regression. -/
theorem Clear.splitOnce_symbol_term_iff (h : r.Clear) (hr : r.op ≠ .define) :
    (∀ op ∈ r.op.before, splitOnce op.symbol.toList (r.op.symbol.toList ++ r.term) = none) ↔
      ¬(r.op = .regression ∧ r.term.head? = some '~') := by
  have hloading {sign : List Char} (hd : Text.depth 0 sign = 0) (hsign : '=' ∉ outside 0 sign)
      (hterm : splitOnce ['=', '~'] r.term = none) :
      splitOnce ['=', '~'] (sign ++ r.term) = none := by
    rw [Text.splitOnce_append_left (by decide) hd hsign, hterm, Option.map_none]
  cases hop : r.op with
  | loading => exact iff_of_true (fun op h => (by cases h)) (fun h => (by cases h.1))
  | define => exact absurd hop hr
  | covariance =>
    refine iff_of_true (fun op hbefore => ?_) (fun h => (by cases h.1))
    obtain rfl : op = .loading := by cases op <;> first | rfl | (revert hbefore; decide)
    exact hloading rfl (by decide) (h .loading (hop ▸ by decide))
  | regression =>
    rw [and_iff_right rfl]
    constructor
    · intro hall hhead
      have hnone := hall .covariance (by decide)
      cases hterm : r.term with
      | nil => rw [hterm] at hhead; cases hhead
      | cons c rest =>
        rw [hterm] at hhead hnone
        obtain rfl := Option.some.inj hhead
        rw [show Operator.regression.symbol.toList ++ '~' :: rest = ['~', '~'] ++ rest from rfl,
          show Operator.covariance.symbol.toList = ['~', '~'] from rfl,
          Text.splitOnce_self_append (by decide)] at hnone
        cases hnone
    · intro hhead op hbefore
      have hop' : op = .loading ∨ op = .covariance := by
        cases op <;> first | exact .inl rfl | exact .inr rfl | (revert hbefore; decide)
      rcases hop' with rfl | rfl
      · exact hloading rfl (by decide) (h .loading (hop ▸ by decide))
      · -- The operator is either at the start, with a `~` behind it, or within the term.
        have hterm := (Text.splitOnce_eq_none_iff (List.cons_ne_nil '~' ['~'])).1
          (h .covariance (hop ▸ by decide))
        refine (Text.splitOnce_eq_none_iff (List.cons_ne_nil '~' ['~'])).2 fun b a hb hd => ?_
        have hb : '~' :: r.term = b ++ ['~', '~'] ++ a := hb
        cases b with
        | nil =>
          obtain ⟨-, hterm⟩ := List.cons.inj hb
          rw [hterm] at hhead
          exact hhead rfl
        | cons x b =>
          obtain ⟨rfl, hb'⟩ := List.cons.inj hb
          exact hterm b a hb' hd

/-- The operators of relations start with signs that are no braces. -/
theorem symbol_cons {op : Operator} (hop : op ≠ .define) :
    ∃ c sign, op.symbol.toList = c :: sign ∧ (c = '=' ∨ c = '~') := by
  cases op with
  | loading => exact ⟨'=', ['~'], rfl, .inl rfl⟩
  | covariance => exact ⟨'~', ['~'], rfl, .inr rfl⟩
  | regression => exact ⟨'~', [], rfl, .inr rfl⟩
  | define => exact absurd rfl hop

/-- Operators of relations are looked for behind a text that has none of their signs outside. -/
theorem splitOnce_symbol_append {cs : List Char} (hd : Text.depth 0 cs = 0)
    (h : '=' ∉ outside 0 cs ∧ '~' ∉ outside 0 cs) {op : Operator} (hop : op ≠ .define)
    (rest : List Char) :
    splitOnce op.symbol.toList (cs ++ rest) =
      (splitOnce op.symbol.toList rest).map fun (before, after) => (cs ++ before, after) := by
  obtain ⟨c, sign, hsymbol, hc⟩ := symbol_cons hop
  rw [hsymbol]
  rcases hc with rfl | rfl
  · exact Text.splitOnce_append_left (by decide) hd h.1
  · exact Text.splitOnce_append_left (by decide) hd h.2

/-- In a text that has none of their signs outside there is no operator of relations. -/
theorem splitOnce_symbol_eq_none {cs : List Char} (h : '=' ∉ outside 0 cs ∧ '~' ∉ outside 0 cs)
    {op : Operator} (hop : op ≠ .define) : splitOnce op.symbol.toList cs = none := by
  obtain ⟨c, sign, hsymbol, hc⟩ := symbol_cons hop
  rw [hsymbol]
  rcases hc with rfl | rfl
  · exact Text.splitOnce_eq_none_of_not_mem (by decide) h.1
  · exact Text.splitOnce_eq_none_of_not_mem (by decide) h.2

/-- No sign of an operator of relations is in a name. -/
theorem no_sign_of_isName {name : List Char} (h : isName nameMarks name = true) :
    '=' ∉ outside 0 name ∧ '~' ∉ outside 0 name :=
  ⟨fun hmem => ((isName_iff.1 h).2 _ (Text.mem_of_mem_outside hmem)).2 (by decide),
    fun hmem => ((isName_iff.1 h).2 _ (Text.mem_of_mem_outside hmem)).2 (by decide)⟩

/-- Only operators of relations win over others. -/
theorem ne_define_of_mem_before {op op' : Operator} (h : op' ∈ op.before) : op' ≠ .define := by
  rintro rfl
  cases op <;> revert h <;> decide

/-- The text of a sound row is read as this row iff the left side is a name that may start a
    statement, and from its operator on no operator occurs that wins over it. -/
theorem Sound.ofText?_text_iff (h : r.Sound) :
    Clause.ofText? r.text = some (.relations [r.bare]) ↔
      isName nameMarks r.lhs.toList = true ∧
      (∃ c ∈ r.lhs.toList.head?, Statement.isStart c = true) ∧
      ∀ op ∈ r.op.before, splitOnce op.symbol.toList (r.op.symbol.toList ++ r.term) = none := by
  obtain ⟨hbalanced, hordinary, hplus⟩ := h.text
  have happend : r.text = r.lhs.toList ++ (r.op.symbol.toList ++ r.term) := List.append_assoc ..
  have hhead : r.text.head? = r.lhs.toList.head? := by
    rw [happend, List.head?_append]
    cases hlhs : r.lhs.toList with
    | nil => exact absurd hlhs h.lhs.ne_nil
    | cons c rest => rfl
  have hsymbol (op : Operator) : op.symbol.toList ≠ [] := by cases op <;> decide
  rw [Clause.ofText?_eq_some_iff]
  constructor
  · rintro ⟨hvalid, form, hform, hsays⟩
    cases hsays with
    | @relation op lhs rhs _ hname hrows =>
      have hmem : some r.bare ∈
          (splitAll ['+'] rhs.chars).map (Relation.ofTerm? lhs.render op) := by
        rw [hrows]
        exact List.mem_singleton_self _
      obtain ⟨piece, -, hpiece⟩ := List.mem_map.1 hmem
      obtain ⟨hlhs, rfl, -⟩ := of_ofTerm? hpiece
      have hlhs : lhs.chars = r.lhs.toList := by
        rw [show r.lhs = lhs.render from hlhs, Piece.render, String.toList_ofList]
      cases Form.ofPiece?_eq_some_iff.1 hform with
      | relation _ _ hsplit hbefore =>
        refine ⟨hlhs ▸ hname, hhead ▸ ((Statement.isValid_iff_of_relation hform).1 hvalid).1,
          fun op hop => ?_⟩
        exact Text.splitOnce_eq_none_of_suffix (hsymbol op) h.lhs.balanced.depth_eq
          (happend ▸ hbefore op hop)
  · rintro ⟨hname, hstart, hbefore⟩
    have hsplit : Piece.splitOnce r.op.symbol.toList ⟨0, r.text⟩ =
        some (⟨0, r.lhs.toList⟩,
          ⟨0 + Text.byteSize r.lhs.toList + Text.byteSize r.op.symbol.toList, r.term⟩) := by
      rw [Piece.splitOnce, happend,
        splitOnce_symbol_append h.lhs.balanced.depth_eq (no_sign_of_isName hname) h.isEdge,
        Text.splitOnce_self_append (hsymbol r.op)]
      simp
    have hblock : Text.isBlock r.text = false := by
      rw [Bool.eq_false_iff]
      intro hblock
      -- A block has nothing outside, but a row has its operator there.
      have hnone := (Text.balanced_of_isBlock hblock).2
      rw [happend, Text.outside_append_of_balanced h.lhs.balanced, List.append_eq_nil_iff] at hnone
      cases hop : r.op with
      | define => exact h.isEdge hop
      | _ => rw [hop] at hnone; exact absurd hnone.2 (List.cons_ne_nil _ _)
    have hform : Form.ofPiece? ⟨0, r.text⟩ = some (.relation r.op _ _) :=
      Form.ofPiece?_eq_some_iff.2 (.relation hblock h.isEdge hsplit fun op hop => by
        rw [happend, splitOnce_symbol_append h.lhs.balanced.depth_eq (no_sign_of_isName hname)
          (ne_define_of_mem_before hop), hbefore op hop, Option.map_none])
    refine ⟨(Statement.isValid_iff_of_relation hform).2 ⟨hhead ▸ hstart, hordinary⟩, _, hform,
      .relation hname ?_⟩
    rw [Text.splitAll_singleton (by decide) h.term.2.2, List.map_singleton, List.map_singleton,
      Piece.render, String.ofList_toList, h.ofTerm?]

/-! ## The rows of a clause -/

/-- A row as it is read: its left side is a name that starts a statement, and its term is clear. -/
structure Read (r : Relation) : Prop extends r.Sound where
  bare : r.bare = r
  clear : r.Clear
  isName : isName nameMarks r.lhs.toList = true
  start : ∃ c ∈ r.lhs.toList.head?, Statement.isStart c = true

/-- The text of a relation is its left side, its operator and its right side, and its terms are
    parts of the right side. -/
theorem read_of_ofText? {cs : List Char} {rows : List Relation}
    (h : Clause.ofText? cs = some (.relations rows)) (hb : Balanced cs) : ∀ r ∈ rows, r.Read := by
  obtain ⟨hvalid, form, hform, hsays⟩ := Clause.ofText?_eq_some_iff.1 h
  cases hsays with
  | @relation op lhs rhs _ hname hrows =>
    obtain ⟨hstart, hordinary⟩ := (Statement.isValid_iff_of_relation hform).1 hvalid
    obtain ⟨hcs, hlb, hleft, hrb⟩ := Form.parts_of_relation hform hb
    obtain ⟨hne, hmarks⟩ := isName_iff.1 hname
    have hlhs : IsPart lhs.chars := by
      refine ⟨hne, hlb, fun c hc => hordinary c ?_, fun hc => ?_, fun hc => ?_⟩
      · rw [hcs, List.append_assoc, Text.outside_append_of_balanced hlb]
        exact List.mem_append_left _ hc
      · exact (hmarks _ (Text.mem_of_mem_outside hc)).2 (by decide)
      · exact (hmarks _ (Text.mem_of_mem_outside hc)).2 (by decide)
    have hhead : cs.head? = lhs.chars.head? := by
      rw [hcs]
      cases hl : lhs.chars with
      | nil => exact absurd hl hne
      | cons c rest => rfl
    intro r hr
    have hmem : some r ∈ (splitAll ['+'] rhs.chars).map (Relation.ofTerm? lhs.render op) :=
      hrows ▸ List.mem_map_of_mem hr
    obtain ⟨piece, hpiece, hrow⟩ := List.mem_map.1 hmem
    obtain ⟨hpb, hplus, before, after, hrhs, hbb⟩ :=
      Text.exists_append_of_mem_splitAll hpiece hrb (List.cons_ne_nil _ _) (by decide)
    have hplus := (Text.splitOnce_singleton_eq_none_iff (by decide)).1 hplus
    have hpart : ∀ c ∈ outside 0 piece, Statement.isOrdinary c = true := by
      intro c hc
      refine hordinary c ?_
      rw [hcs, hrhs, Text.outside_append_of_balanced hleft, List.append_assoc,
        Text.outside_append_of_balanced hbb, Text.outside_append_of_balanced hpb]
      exact List.mem_append_right _ (List.mem_append_right _ (List.mem_append_left _ hc))
    obtain ⟨hrlhs, hrop, hbare, hterm, -⟩ := of_ofTerm? hrow
    have hrlhs : r.lhs.toList = lhs.chars := by
      rw [hrlhs, Piece.render, String.toList_ofList]
    cases Form.ofPiece?_eq_some_iff.1 hform with
    | relation _ hop _ hbefore =>
      have hsound := sound_of_ofTerm? hrow hop (by rwa [Piece.render, String.toList_ofList]) hpb
        hpart hplus
      refine ⟨hsound, hbare, fun op' hop' => ?_, hrlhs ▸ hname, hrlhs ▸ hhead ▸ hstart⟩
      -- What does not occur in a text does not occur in its parts.
      have hne : op'.symbol.toList ≠ [] := by cases op' <;> decide
      have hnone : splitOnce op'.symbol.toList cs = none := hbefore op' (hrop ▸ hop')
      rw [hcs, hrhs, List.append_assoc before] at hnone
      have hnone := Text.splitOnce_eq_none_of_suffix hne hleft.depth_eq hnone
      have hnone := Text.splitOnce_eq_none_of_suffix hne hbb.depth_eq hnone
      rw [hterm]
      exact Text.splitOnce_eq_none_of_prefix hne hnone

/-- Whatever clause a text makes, the rows that it adds are so. -/
theorem read_of_mem_rows {cs : List Char} {c : Clause} (h : Clause.ofText? cs = some c)
    (hb : Balanced cs) : ∀ r ∈ c.rows, r.Read := by
  cases c with
  | relations rows => exact read_of_ofText? h hb
  | _ => exact fun _ hr => (by cases hr)

/-- A relation adds some row. -/
theorem rows_ne_nil_of_ofText? {cs : List Char} {rows : List Relation}
    (h : Clause.ofText? cs = some (.relations rows)) : rows ≠ [] := by
  rintro rfl
  obtain ⟨-, form, -, hsays⟩ := Clause.ofText?_eq_some_iff.1 h
  cases hsays with
  | relation _ hrows => exact Text.splitAll_ne_nil _ _ (List.map_eq_nil_iff.1 hrows)

/-- Without a `+` outside, a relation adds one row. -/
theorem length_rows_of_ofText? {cs : List Char} {rows : List Relation}
    (h : Clause.ofText? cs = some (.relations rows)) (hb : Balanced cs)
    (hplus : '+' ∉ outside 0 cs) : rows.length = 1 := by
  obtain ⟨-, form, hform, hsays⟩ := Clause.ofText?_eq_some_iff.1 h
  cases hsays with
  | @relation op lhs rhs _ hname hrows =>
    obtain ⟨hcs, -, hleft, -⟩ := Form.parts_of_relation hform hb
    have hrhs : '+' ∉ outside 0 rhs.chars := by
      rw [hcs, Text.outside_append_of_balanced hleft] at hplus
      exact fun hmem => hplus (List.mem_append_right _ hmem)
    rw [Text.splitAll_singleton (by decide) hrhs] at hrows
    simpa using (congrArg List.length hrows).symm

/-- Without a `+` outside, no text adds more than one row. -/
theorem length_rows_le_one {cs : List Char} {c : Clause} (h : Clause.ofText? cs = some c)
    (hb : Balanced cs) (hplus : '+' ∉ outside 0 cs) : c.rows.length ≤ 1 := by
  cases c with
  | relations rows => exact Nat.le_of_eq (length_rows_of_ofText? h hb hplus)
  | _ => exact Nat.zero_le 1

end Relation

end StructuralModel
