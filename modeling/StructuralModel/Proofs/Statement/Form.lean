import StructuralModel.Proofs.Text.TopLevel
import StructuralModel.Statement.Form

/-!
# Forms told by splits

The form of a text is decided by the first of several splits that succeeds. Here each form is told
by its own split and by the ones before it that fail.

* `Form.Cut`: the split of each form;
* `Form.ofPiece?_eq_some_iff`: a text has a form iff it can be cut so.
-/

namespace StructuralModel

theorem Piece.splitOnce_eq_some_iff {pattern : List Char} {p left right : Piece} :
    p.splitOnce pattern = some (left, right) ↔
      Text.splitOnce pattern p.chars = some (left.chars, right.chars) ∧ left.start = p.start ∧
        right.start = p.start + Text.byteSize left.chars + Text.byteSize pattern := by
  obtain ⟨i, left⟩ := left
  obtain ⟨j, right⟩ := right
  rw [splitOnce, Option.map_eq_some_iff]
  constructor
  · rintro ⟨⟨before, after⟩, h, heq⟩
    cases heq
    exact ⟨h, rfl, rfl⟩
  · rintro ⟨h, rfl, rfl⟩
    exact ⟨_, h, rfl⟩

theorem Piece.splitOnce_eq_none_iff {pattern : List Char} {p : Piece} :
    p.splitOnce pattern = none ↔ Text.splitOnce pattern p.chars = none :=
  Option.map_eq_none_iff

/-- The operators that win over `op`. -/
def Operator.before (op : Operator) : List Operator :=
  all.takeWhile (· != op)

/-- The first operator for which something is found. -/
theorem Operator.findSome?_all_eq_some_iff {α : Type} {f : Operator → Option α} {a : α} :
    all.findSome? f = some a ↔ ∃ op, f op = some a ∧ ∀ op' ∈ op.before, f op' = none := by
  rw [List.findSome?_eq_some_iff]
  constructor
  · rintro ⟨l₁, op, l₂, hall, hop, hbefore⟩
    have hnodup : (l₁ ++ op :: l₂).Nodup := hall ▸ (by decide : all.Nodup)
    have hne : ∀ op' ∈ l₁, (op' != op) = true := by
      intro op' h
      exact bne_iff_ne.2 ((List.nodup_append.1 hnodup).2.2 op' h op List.mem_cons_self)
    refine ⟨op, hop, fun op' h => hbefore op' ?_⟩
    rwa [before, hall, List.takeWhile_append_of_pos hne, List.takeWhile_cons_of_neg (by simp),
      List.append_nil] at h
  · rintro ⟨op, hop, hbefore⟩
    exact ⟨op.before, op, (all.dropWhile (· != op)).tail, by cases op <;> rfl, hop, hbefore⟩

namespace Form

/-- How the parts of a form are cut out of a text. -/
inductive Cut (p : Piece) : Form → Prop
  /-- A block is cut nowhere. -/
  | block : Text.isBlock p.chars = true → Cut p block
  /-- A relation is cut at its operator, and no operator that wins over it occurs. -/
  | relation {op : Operator} {lhs rhs : Piece} : Text.isBlock p.chars = false → op ≠ .define →
      p.splitOnce op.symbol.toList = some (lhs, rhs) →
      (∀ op' ∈ op.before, Text.splitOnce op'.symbol.toList p.chars = none) →
      Cut p (relation op lhs rhs)
  /-- A definition is cut at its operator, and no other operator occurs. -/
  | definition {name expression : Piece} : Text.isBlock p.chars = false →
      p.splitOnce Operator.define.symbol.toList = some (name, expression) →
      (∀ op ∈ Operator.define.before, Text.splitOnce op.symbol.toList p.chars = none) →
      Cut p (definition name expression)
  /-- A bound is cut at its sign, and no operator occurs. -/
  | bound {side : Bound} {target value : Piece} : Text.isBlock p.chars = false →
      (∀ op : Operator, Text.splitOnce op.symbol.toList p.chars = none) →
      p.splitOnce [side.symbol] = some (target, value) →
      (side = .upper → Text.splitOnce [Bound.lower.symbol] p.chars = none) →
      Cut p (bound side target value)
  /-- A declaration is cut behind its mark, and neither an operator nor a sign occurs. -/
  | declaration {name : List Char} : Text.isBlock p.chars = false →
      (∀ op : Operator, Text.splitOnce op.symbol.toList p.chars = none) →
      (∀ side : Bound, Text.splitOnce [side.symbol] p.chars = none) →
      p.chars = '!' :: name → Cut p (declaration ⟨p.start + 1, name⟩)

variable {p : Piece}

theorem atOperator?_eq_none_iff :
    atOperator? p = none ↔
      ∀ op : Operator, Text.splitOnce op.symbol.toList p.chars = none := by
  rw [atOperator?, List.findSome?_eq_none_iff]
  simp only [Option.map_eq_none_iff, Piece.splitOnce_eq_none_iff]
  exact ⟨fun h op => h op (by cases op <;> decide), fun h op _ => h op⟩

theorem atBound?_eq_none_iff :
    atBound? p = none ↔ ∀ side : Bound, Text.splitOnce [side.symbol] p.chars = none := by
  rw [atBound?, List.findSome?_eq_none_iff]
  simp only [Option.map_eq_none_iff, Piece.splitOnce_eq_none_iff]
  exact ⟨fun h side => h side (by cases side <;> decide), fun h side _ => h side⟩

/-- The form of a text that is split at an operator. -/
def ofOperator (left right : Piece) : Operator → Form
  | .define => definition left right
  | op => relation op left right

/-- A text is split at the first operator that occurs in it. -/
theorem atOperator?_eq_some_iff {form : Form} :
    atOperator? p = some form ↔
      ∃ op left right, p.splitOnce op.symbol.toList = some (left, right) ∧
        form = ofOperator left right op ∧
        ∀ op' ∈ op.before, Text.splitOnce op'.symbol.toList p.chars = none := by
  rw [atOperator?, Operator.findSome?_all_eq_some_iff]
  constructor
  · rintro ⟨op, h, hbefore⟩
    obtain ⟨⟨left, right⟩, hsplit, rfl⟩ := Option.map_eq_some_iff.1 h
    exact ⟨op, left, right, hsplit, by cases op <;> rfl, fun op' h' =>
      Piece.splitOnce_eq_none_iff.1 (Option.map_eq_none_iff.1 (hbefore op' h'))⟩
  · rintro ⟨op, left, right, hsplit, rfl, hbefore⟩
    refine ⟨op, ?_, fun op' h' => ?_⟩
    · rw [hsplit]
      cases op <;> rfl
    · rw [Piece.splitOnce_eq_none_iff.2 (hbefore op' h'), Option.map_none]

/-- A text is split at the sign of a lower bound, or else at that of an upper one. -/
theorem atBound?_eq_some_iff {form : Form} :
    atBound? p = some form ↔
      ∃ side target value, p.splitOnce [side.symbol] = some (target, value) ∧
        form = bound side target value ∧
        (side = .upper → Text.splitOnce [Bound.lower.symbol] p.chars = none) := by
  rw [atBound?, List.findSome?_cons, List.findSome?_singleton, ← Piece.splitOnce_eq_none_iff]
  cases hlower : p.splitOnce [Bound.lower.symbol] with
  | some parts =>
    constructor
    · intro h
      cases h
      exact ⟨.lower, parts.1, parts.2, hlower, rfl, fun h => (by cases h)⟩
    · rintro ⟨side, target, value, hsplit, rfl, hside⟩
      cases side with
      | lower =>
        rw [hlower] at hsplit
        cases hsplit
        rfl
      | upper => cases hside rfl
  | none =>
    rw [Option.map_none, Option.map_eq_some_iff]
    constructor
    · rintro ⟨⟨target, value⟩, hsplit, rfl⟩
      exact ⟨.upper, target, value, hsplit, rfl, fun _ => rfl⟩
    · rintro ⟨side, target, value, hsplit, rfl, -⟩
      cases side with
      | lower =>
        rw [hlower] at hsplit
        cases hsplit
      | upper => exact ⟨_, hsplit, rfl⟩

/-- A text has a form iff it can be cut so. -/
theorem ofPiece?_eq_some_iff {form : Form} : ofPiece? p = some form ↔ Cut p form := by
  rw [ofPiece?]
  constructor
  · intro h
    split at h
    case isTrue hblock =>
      cases h
      exact .block hblock
    case isFalse hblock =>
      -- Each alternative is reached only if those before it have failed.
      have hblock := Bool.of_not_eq_true hblock
      rcases Option.or_eq_some_iff.1 h with h | ⟨hop, h⟩
      · obtain ⟨op, left, right, hsplit, rfl, hbefore⟩ := atOperator?_eq_some_iff.1 h
        cases op with
        | define => exact .definition hblock hsplit hbefore
        | _ => exact .relation hblock (by decide) hsplit hbefore
      · rw [atOperator?_eq_none_iff] at hop
        rcases Option.or_eq_some_iff.1 h with h | ⟨hbound, h⟩
        · obtain ⟨side, target, value, hsplit, rfl, hlower⟩ := atBound?_eq_some_iff.1 h
          exact .bound hblock hop hsplit hlower
        · rw [atMark?] at h
          split at h
          case h_1 name hname =>
            cases h
            exact .declaration hblock hop (atBound?_eq_none_iff.1 hbound) hname
          case h_2 => cases h
  · intro h
    cases h with
    | block hblock => rw [if_pos hblock]
    | @relation op lhs rhs hblock hdefine hsplit hbefore =>
      have hform : relation op lhs rhs = ofOperator lhs rhs op := by
        cases op <;> first | rfl | exact absurd rfl hdefine
      rw [if_neg (Bool.eq_false_iff.1 hblock),
        atOperator?_eq_some_iff.2 ⟨op, lhs, rhs, hsplit, hform, hbefore⟩, Option.some_or]
    | definition hblock hsplit hbefore =>
      rw [if_neg (Bool.eq_false_iff.1 hblock),
        atOperator?_eq_some_iff.2 ⟨.define, _, _, hsplit, rfl, hbefore⟩, Option.some_or]
      rfl
    | bound hblock hop hsplit hlower =>
      rw [if_neg (Bool.eq_false_iff.1 hblock), atOperator?_eq_none_iff.2 hop, Option.none_or,
        atBound?_eq_some_iff.2 ⟨_, _, _, hsplit, rfl, hlower⟩, Option.some_or]
    | declaration hblock hop hbound hname =>
      rw [if_neg (Bool.eq_false_iff.1 hblock), atOperator?_eq_none_iff.2 hop, Option.none_or,
        atBound?_eq_none_iff.2 hbound, Option.none_or, atMark?]
      split
      · next h =>
        rw [hname] at h
        cases h
        rfl
      · next h => exact absurd hname (h _)

/-- A balanced relation is cut into balanced parts. -/
theorem parts_of_relation {cs : List Char} {op : Operator} {lhs rhs : Piece}
    (h : ofPiece? ⟨0, cs⟩ = some (relation op lhs rhs)) (hb : Text.Balanced cs) :
    cs = lhs.chars ++ op.symbol.toList ++ rhs.chars ∧ Text.Balanced lhs.chars ∧
      Text.Balanced (lhs.chars ++ op.symbol.toList) ∧ Text.Balanced rhs.chars := by
  cases ofPiece?_eq_some_iff.1 h with
  | relation _ _ hsplit _ =>
    have hne : op.symbol.toList ≠ [] := by cases op <;> decide
    obtain ⟨hcs, hd, -⟩ := (Text.splitOnce_eq_some_iff hne).1
      (Piece.splitOnce_eq_some_iff.1 hsplit).1
    have hcs : cs = lhs.chars ++ op.symbol.toList ++ rhs.chars := hcs
    have hlhs : Text.Balanced lhs.chars := by
      rw [hcs, List.append_assoc] at hb
      exact (hb.of_append hd).1
    have hleft := hlhs.append (by cases op <;> decide : Text.Balanced op.symbol.toList)
    exact ⟨hcs, hlhs, hleft, (Text.Balanced.of_append (hcs ▸ hb) hleft.depth_eq).2⟩

end Form

end StructuralModel
