import StructuralModel.Proofs.Statement.Form
import StructuralModel.Proofs.Text.Nested
import StructuralModel.Proofs.Text.Occurrence
import StructuralModel.Statement.Validity

/-!
# What is outside of braces

Three parts of the compiler decide what stands outside of braces. Blocks are found by going into
their inner blocks. Splitting goes from block to block, and on behind each place where it has cut.
The check of characters counts braces. All of them agree, on balanced texts and on others: what is
outside is what stands where the counter shows zero (`ToldByDepth`). So no character that splits a
statement goes unchecked.

* `firstUnordinary?_eq_find?`: the characters that are checked are those outside;
* `topLevel_checkedOf`: in the part of a statement that is checked, the counter shows what it shows
  in the whole statement;
* `invalid?_eq`, `invalid?_cases`: what makes a statement invalid;
* `toldByDepth`: what is outside, for every text.
-/

namespace StructuralModel

open Text (byteSize depth topLevel OccursAt CutsAt StandsAt)

namespace Text

variable {start d i : Nat} {c : Char} {cs front : List Char}

/-- The characters outside of braces stand in the text. -/
theorem bounds_of_mem_topLevel (h : (i, c) ∈ topLevel start d cs) :
    start ≤ i ∧ i < start + byteSize cs := by
  obtain ⟨-, -, before, after, rfl, rfl, -⟩ := mem_topLevel.1 h
  have := c.utf8Size_pos
  rw [byteSize_append, byteSize_cons]
  omega

/-- The characters outside in a part of a text, if the depth in front of the part is zero. -/
theorem topLevel_part (part back : List Char) (hd : depth 0 front = 0) :
    topLevel (byteSize front) 0 part = (topLevel 0 0 (front ++ part ++ back)).filter fun p =>
      byteSize front ≤ p.1 ∧ p.1 < byteSize front + byteSize part := by
  have hfront : ∀ p ∈ topLevel 0 0 front,
      ¬(decide (byteSize front ≤ p.1 ∧ p.1 < byteSize front + byteSize part) = true) := by
    intro p hp
    have := (bounds_of_mem_topLevel hp).2
    rw [decide_eq_true_eq]
    omega
  have hpart : ∀ p ∈ topLevel (byteSize front) 0 part,
      decide (byteSize front ≤ p.1 ∧ p.1 < byteSize front + byteSize part) = true :=
    fun p hp => decide_eq_true (bounds_of_mem_topLevel hp)
  have hback : ∀ p ∈ topLevel (byteSize front + byteSize part) (depth 0 part) back,
      ¬(decide (byteSize front ≤ p.1 ∧ p.1 < byteSize front + byteSize part) = true) := by
    intro p hp
    have := (bounds_of_mem_topLevel hp).1
    rw [decide_eq_true_eq]
    omega
  rw [List.append_assoc, topLevel_append, hd, topLevel_append, Nat.zero_add, List.filter_append,
    List.filter_append, List.filter_eq_nil_iff.2 hfront, List.filter_eq_self.2 hpart,
    List.filter_eq_nil_iff.2 hback, List.nil_append, List.append_nil]

end Text

namespace Statement

/-- Whether a character may stand outside of braces, if `extra` may. -/
def isAllowed (extra : Option Char) (c : Char) : Bool :=
  isOrdinary c || extra == some c

/-- The characters that are checked are those outside of braces, in their order. -/
theorem firstUnordinary?_eq_find? (extra : Option Char) (start d : Nat) (cs : List Char) :
    firstUnordinary? extra start d cs =
      (topLevel start d cs).find? fun p => !isAllowed extra p.2 := by
  induction cs generalizing start d with
  | nil => rfl
  | cons c cs ih =>
    rw [firstUnordinary?, topLevel, ih]
    by_cases hout : d = 0 ∧ c ≠ '{' ∧ c ≠ '}'
    case pos =>
      obtain ⟨rfl, hopen, hclose⟩ := hout
      rw [if_pos (⟨rfl, hopen, hclose⟩ : 0 = 0 ∧ c ≠ '{' ∧ c ≠ '}'), List.singleton_append,
        List.find?_cons]
      cases hallowed : isAllowed extra c with
      | true =>
        have hor := Bool.or_eq_true_iff.1 hallowed
        rw [beq_iff_eq] at hor
        rw [if_pos (.inr (.inr (.inr hor)))]
        rfl
      | false =>
        have hnor := Bool.or_eq_false_iff.1 hallowed
        rw [beq_eq_false_iff_ne] at hnor
        rw [if_neg (by simp [hopen, hclose, hnor])]
        rfl
    case neg =>
      rw [if_neg hout, List.nil_append, if_pos]
      by_cases hd : d = 0
      · by_cases hopen : c = '{'
        · exact .inl hopen
        · exact .inr (.inl (Classical.not_not.1 fun hclose => hout ⟨hd, hopen, hclose⟩))
      · exact .inr (.inr (.inl (Nat.pos_of_ne_zero hd)))

end Statement

namespace Form

/-- The part of a text that is checked, and the character that it may have beside the ordinary
    ones. -/
def checkedOf (cs : List Char) : Piece × Option Char :=
  checked ⟨0, cs⟩ (ofPiece? ⟨0, cs⟩)

/-- The part of a text that is checked starts where the depth is zero. -/
theorem exists_append_checkedOf (cs : List Char) :
    ∃ front back, cs = front ++ (checkedOf cs).1.chars ++ back ∧
      (checkedOf cs).1.start = byteSize front ∧ depth 0 front = 0 := by
  have whole : ∃ front back, cs = front ++ cs ++ back ∧ 0 = byteSize front ∧ depth 0 front = 0 :=
    ⟨[], [], (List.append_nil cs).symm, rfl, rfl⟩
  rw [checkedOf]
  cases hform : ofPiece? ⟨0, cs⟩ with
  | none => exact whole
  | some form =>
    cases ofPiece?_eq_some_iff.1 hform with
    | block | relation | bound => exact whole
    | @definition name expression _ hsplit _ =>
      obtain ⟨hsplit, hname, -⟩ := Piece.splitOnce_eq_some_iff.1 hsplit
      refine ⟨[], Operator.define.symbol.toList ++ expression.chars, ?_, hname, rfl⟩
      rw [← List.append_assoc]
      exact (Text.append_of_splitOnce hsplit).symm
    | declaration _ _ _ hmark =>
      exact ⟨['!'], [], by rw [List.append_nil]; exact hmark, rfl, rfl⟩

/-- The characters that are checked in a statement are the ones of the whole statement, as far as
    the part that is checked reaches. -/
theorem topLevel_checkedOf (cs : List Char) :
    topLevel (checkedOf cs).1.start 0 (checkedOf cs).1.chars =
      (topLevel 0 0 cs).filter fun p => (checkedOf cs).1.start ≤ p.1 ∧
        p.1 < (checkedOf cs).1.start + byteSize (checkedOf cs).1.chars := by
  obtain ⟨front, back, hcs, hstart, hd⟩ := exists_append_checkedOf cs
  have hpart := Text.topLevel_part (checkedOf cs).1.chars back hd
  rwa [← hcs, ← hstart] at hpart

end Form

/-! ## What makes a statement invalid -/

namespace Statement

/-- The first character in the part of a text that is checked which is not allowed there, behind
    its byte offset. -/
def unallowed? (cs : List Char) : Option (Nat × Char) :=
  firstUnordinary? (Form.checkedOf cs).2 (Form.checkedOf cs).1.start 0 (Form.checkedOf cs).1.chars

/-- It is the first of the characters outside of braces that stand in the part and are not
    allowed. -/
theorem unallowed?_eq_find? (cs : List Char) :
    unallowed? cs = ((topLevel 0 0 cs).filter fun p => (Form.checkedOf cs).1.start ≤ p.1 ∧
      p.1 < (Form.checkedOf cs).1.start + byteSize (Form.checkedOf cs).1.chars).find?
        fun p => !isAllowed (Form.checkedOf cs).2 p.2 := by
  rw [unallowed?, firstUnordinary?_eq_find?, Form.topLevel_checkedOf]

variable {s : Statement} {c : Char} {cs : List Char}

/-- The statements that have the form of a block are the blocks. -/
theorem form?_eq_block_iff : s.form? = some .block ↔ Text.isBlock s.text = true := by
  refine ⟨fun h => ?_, fun h => Form.ofPiece?_eq_some_iff.2 (.block h)⟩
  cases Form.ofPiece?_eq_some_iff.1 h with
  | block hblock => exact hblock

/-- What is wrong with a statement, if anything is: its start, or else, unless it is a block, a
    character of the part that is checked. -/
theorem invalid?_eq (h : s.text = c :: cs) :
    s.invalid? =
      if isStart c = false then some (.invalidStart s.render (s.spanOfChar 0 c))
      else if Text.isBlock s.text = true then none
      else (unallowed? s.text).map fun p =>
        .invalidCharacter p.2 (s.spanOfChar p.1 p.2) s.span := by
  rw [invalid?]
  split
  case h_1 hnil =>
    rw [h] at hnil
    cases hnil
  case h_2 d ds hcons =>
    obtain rfl : c = d := (List.cons.inj (h.symm.trans hcons)).1
    simp only [Bool.not_eq_true', form?_eq_block_iff]
    rfl

/-- What is wrong with a statement is its first character, or one that is not allowed. -/
theorem invalid?_cases {f : Finding} (h : s.invalid? = some f) :
    (∃ c cs, s.text = c :: cs ∧ f = .invalidStart s.render (s.spanOfChar 0 c)) ∨
      ∃ i c, unallowed? s.text = some (i, c) ∧
        f = .invalidCharacter c (s.spanOfChar i c) s.span := by
  cases htext : s.text with
  | nil =>
    rw [invalid?, htext] at h
    cases h
  | cons c cs =>
    rw [invalid?_eq htext] at h
    split at h
    · cases h
      exact .inl ⟨c, cs, rfl, rfl⟩
    · split at h
      · cases h
      · obtain ⟨⟨i, d⟩, hfirst, rfl⟩ := Option.map_eq_some_iff.1 h
        exact .inr ⟨i, d, htext ▸ hfirst, rfl⟩

end Statement

/-! ## All texts -/

/-- Counting braces from the start of a text tells what is outside of them. -/
structure ToldByDepth (cs : List Char) : Prop where
  /-- Descent takes the same unit off the text as counting. -/
  descent : Text.unit? cs = Text.descend? cs
  /-- It ends at the first place at which the counter shows zero. -/
  unit : ∀ first rest, Text.descend? cs = some (first, rest) ↔
    cs = first ++ rest ∧ first ≠ [] ∧ depth 0 first = 0 ∧
      ∀ b a, cs = b ++ a → b ≠ [] → depth 0 b = 0 → first.length ≤ b.length
  /-- A pattern is found at the first byte at which it stands while the counter shows zero. -/
  found : ∀ pattern, pattern ≠ [] → ∀ i, Text.findTopLevel pattern cs = some i ↔
    OccursAt pattern cs i ∧ ∀ j, OccursAt pattern cs j → i ≤ j
  /-- A pattern is not found if there is no such byte. -/
  notFound : ∀ pattern, pattern ≠ [] →
    (Text.findTopLevel pattern cs = none ↔ ∀ i, ¬OccursAt pattern cs i)
  /-- A block starts with a brace, and the counter is first back at zero behind its last
      character. -/
  block : Text.isBlock cs = true ↔ cs.head? = some '{' ∧ depth 0 cs = 0 ∧
    ∀ b a, cs = b ++ a → b ≠ [] → a ≠ [] → depth 0 b ≠ 0
  /-- The characters that are checked are those outside. -/
  checked : ∀ extra, Statement.firstUnordinary? extra 0 0 cs =
    (topLevel 0 0 cs).find? fun p => !Statement.isAllowed extra p.2
  /-- In a statement of some form they are those of them that stand in the checked part. -/
  checkedPart : ∀ part extra, Form.checkedOf cs = (part, extra) →
    Statement.firstUnordinary? extra part.start 0 part.chars =
      ((topLevel 0 0 cs).filter fun p =>
        part.start ≤ p.1 ∧ p.1 < part.start + byteSize part.chars).find?
          fun p => !Statement.isAllowed extra p.2
  /-- A character, if no brace, cuts the text wherever it is outside, and nowhere else. -/
  cut : ∀ c, c ≠ '{' → c ≠ '}' → ∀ i, CutsAt [c] cs i ↔ (i, c) ∈ topLevel 0 0 cs
  /-- A symbol occurs wherever it stands and starts with a character that is outside. -/
  symbol : ∀ c pattern, c ≠ '{' → c ≠ '}' → ∀ i, OccursAt (c :: pattern) cs i ↔
    (i, c) ∈ topLevel 0 0 cs ∧ StandsAt 0 cs (c :: pattern) i

/-- Counting tells what is outside of braces in every text, balanced or not. -/
theorem toldByDepth (cs : List Char) : ToldByDepth cs where
  descent := Text.unit?_eq cs
  unit first rest := by
    rw [← Text.unit?_eq]
    exact Text.closing_eq_some_iff
  found _ hp _ := Text.findTopLevel_eq_some_iff hp
  notFound _ hp := Text.findTopLevel_eq_none_iff hp
  block := Text.isBlock_iff_depth
  checked extra := Statement.firstUnordinary?_eq_find? extra 0 0 cs
  checkedPart part extra h := by
    have hpart := Form.topLevel_checkedOf cs
    rw [h] at hpart
    rw [Statement.firstUnordinary?_eq_find?, hpart]
  cut _ hopen hclose _ :=
    (Text.cutsAt_iff ⟨hopen, hclose⟩).trans (Text.occursAt_singleton_iff ⟨hopen, hclose⟩)
  symbol _ _ hopen hclose _ := Text.occursAt_cons_iff ⟨hopen, hclose⟩

example : Text.findTopLevel ['+'] "\x7da\x7b+\x7b\x7d\x7d+\x7b+".toList = some 7 := by decide +kernel

end StructuralModel
