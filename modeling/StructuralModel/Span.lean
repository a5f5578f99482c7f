/-!
# Spans

A *span* is a range of bytes of a source text: it starts at a byte and stops before another one
that is not earlier. A span that stops where it starts is empty; it still says where in the text
it is. Every message about a model points into the model's text by spans.

Main definitions: `Span`, `Span.ofBounds` (the span between two bytes, empty if they are in the
wrong order), `Span.union` (the least span that holds two others).
-/

namespace StructuralModel

/-- The bytes of a text from `start` up to, and without, `stop`. -/
structure Span where
  /-- The first byte. -/
  start : Nat
  /-- The byte after the last one. -/
  stop : Nat
  /-- A span never stops before it starts. -/
  start_le_stop : start ≤ stop
  deriving DecidableEq, Repr

namespace Span

/-- The span from `start` to `stop`: empty, at `start`, if `stop` is before it. -/
def ofBounds (start stop : Nat) : Span :=
  ⟨start, max start stop, Nat.le_max_left ..⟩

/-- The empty span at byte `offset`. -/
def empty (offset : Nat) : Span :=
  ofBounds offset offset

/-- The number of bytes of a span. -/
def size (s : Span) : Nat :=
  s.stop - s.start

/-- A span without bytes. -/
def isEmpty (s : Span) : Bool :=
  s.start == s.stop

/-- The least span that holds both `s` and `t`. -/
def union (s t : Span) : Span :=
  ofBounds (min s.start t.start) (max s.stop t.stop)

/-- Writes a span as its two ends: `3..7`. -/
def render (s : Span) : String :=
  toString s.start ++ ".." ++ toString s.stop

@[simp] theorem start_ofBounds (a b : Nat) : (ofBounds a b).start = a := rfl

theorem stop_ofBounds {a b : Nat} (h : a ≤ b) : (ofBounds a b).stop = b := by
  simp [ofBounds, Nat.max_eq_right h]

end Span

end StructuralModel
