import StructuralModel.Span
import StructuralModel.Text.Basic

/-!
# Places in a text

A *place* in a text is a byte offset at which the text can be cut: in front of a character, or at
the end (`Text.IsPlace`). A span lies *within* a text if it ends there at the latest, and both of
its ends are places of the text (`Span.Within`).

* `append_inj_of_byteSize`: a text is cut at a place in one way only;
* `isPlace_iff`: places are the valid positions of the text as a string;
* `StandsAt.isPlace`: what stands in a text starts and ends at places of it;
* `within_ofBounds`: the span between two places lies within the text.
-/

namespace StructuralModel

namespace Text

variable {n : Nat} {cs : List Char}

/-- The byte offset `n` lies in front of a character of the text, or at its end. -/
def IsPlace (cs : List Char) (n : Nat) : Prop :=
  ∃ before, before <+: cs ∧ byteSize before = n

theorem byteSize_eq_zero_iff : byteSize cs = 0 ↔ cs = [] := by
  cases cs with
  | nil => simp
  | cons c cs => simp [Nat.ne_of_gt c.utf8Size_pos]

/-- A text is cut at a place in one way only. -/
theorem append_inj_of_byteSize {before before' after after' : List Char}
    (h : before ++ after = before' ++ after') (hsize : byteSize before = byteSize before') :
    before = before' ∧ after = after' := by
  induction before generalizing before' with
  | nil =>
    obtain rfl := byteSize_eq_zero_iff.1 hsize.symm
    exact ⟨rfl, h⟩
  | cons c before ih =>
    cases before' with
    | nil => exact absurd (byteSize_eq_zero_iff.1 hsize) (List.cons_ne_nil _ _)
    | cons c' before' =>
      obtain ⟨rfl, htail⟩ := List.cons.inj h
      obtain ⟨rfl, rfl⟩ := ih htail (Nat.add_left_cancel hsize)
      exact ⟨rfl, rfl⟩

/-- The bytes of a text are those of its string. -/
theorem byteSize_toList (s : String) : byteSize s.toList = s.utf8ByteSize := by
  have hchars (cs : List Char) : byteSize cs = (String.ofList cs).utf8ByteSize := by
    induction cs with
    | nil => rfl
    | cons c cs ih =>
      rw [byteSize_cons, ih, String.ofList_cons, String.utf8ByteSize_append,
        String.utf8ByteSize_singleton]
  rw [hchars, String.ofList_toList]

/-- Places are the valid positions of a string. -/
theorem isPlace_iff {s : String} : IsPlace s.toList n ↔ String.Pos.Raw.IsValid s ⟨n⟩ := by
  rw [String.Pos.Raw.isValid_iff_exists_append]
  constructor
  · rintro ⟨before, ⟨after, h⟩, rfl⟩
    refine ⟨String.ofList before, String.ofList after, String.toList_injective ?_, ?_⟩
    · rw [String.toList_append, String.toList_ofList, String.toList_ofList, h]
    · have := byteSize_toList (String.ofList before)
      rw [String.toList_ofList] at this
      rw [this]
      rfl
  · rintro ⟨before, after, rfl, h⟩
    refine ⟨before.toList, ⟨after.toList, String.toList_append.symm⟩, ?_⟩
    rw [byteSize_toList]
    exact (congrArg String.Pos.Raw.byteIdx h).symm

theorem isPlace_zero (cs : List Char) : IsPlace cs 0 :=
  ⟨[], List.nil_prefix, rfl⟩

theorem isPlace_byteSize (cs : List Char) : IsPlace cs (byteSize cs) :=
  ⟨cs, List.prefix_rfl, rfl⟩

/-- In a text that starts at byte `start` of a source, `part` stands at byte `i`. -/
def StandsAt (start : Nat) (cs part : List Char) (i : Nat) : Prop :=
  ∃ before after, cs = before ++ part ++ after ∧ i = start + byteSize before

theorem standsAt_append (start : Nat) (part after : List Char) :
    StandsAt start (part ++ after) part start :=
  ⟨[], after, rfl, rfl⟩

/-- What stands somewhere behind a text stands in both together. -/
theorem StandsAt.append_left {start i : Nat} {part : List Char} (front : List Char)
    (h : StandsAt (start + byteSize front) cs part i) : StandsAt start (front ++ cs) part i := by
  obtain ⟨before, after, rfl, rfl⟩ := h
  exact ⟨front ++ before, after, by simp, by rw [byteSize_append, Nat.add_assoc]⟩

/-- What stands in a text starts and ends at places of it. -/
theorem StandsAt.isPlace {i : Nat} {part : List Char} (h : StandsAt 0 cs part i) :
    IsPlace cs i ∧ IsPlace cs (i + byteSize part) := by
  obtain ⟨before, after, rfl, rfl⟩ := h
  refine ⟨⟨before, by rw [List.append_assoc]; exact List.prefix_append _ _, ?_⟩,
    ⟨before ++ part, List.prefix_append _ _, ?_⟩⟩
  · rw [Nat.zero_add]
  · rw [byteSize_append, Nat.zero_add]

/-- No place is behind the end of the text. -/
theorem IsPlace.le (h : IsPlace cs n) : n ≤ byteSize cs := by
  obtain ⟨before, ⟨after, rfl⟩, rfl⟩ := h
  rw [byteSize_append]
  exact Nat.le_add_right _ _

end Text

namespace Span

open Text (IsPlace)

/-- A span is a range of bytes of a source, and cuts none of its characters. -/
structure Within (source : String) (s : Span) : Prop where
  /-- The span does not stop before it starts. -/
  start_le : s.start ≤ s.stop
  /-- The span does not stop behind the source. -/
  stop_le : s.stop ≤ source.utf8ByteSize
  /-- The span starts between characters. -/
  start_isValid : String.Pos.Raw.IsValid source ⟨s.start⟩
  /-- The span stops between characters. -/
  stop_isValid : String.Pos.Raw.IsValid source ⟨s.stop⟩

/-- One span holds another one. -/
def Holds (s t : Span) : Prop :=
  s.start ≤ t.start ∧ t.stop ≤ s.stop

variable {source : String} {s t : Span}

/-- A span lies within a source if both of its ends are places there. -/
theorem within_iff : s.Within source ↔
    IsPlace source.toList s.start ∧ IsPlace source.toList s.stop := by
  constructor
  · intro h
    exact ⟨Text.isPlace_iff.2 h.start_isValid, Text.isPlace_iff.2 h.stop_isValid⟩
  · rintro ⟨hstart, hstop⟩
    refine ⟨s.start_le_stop, ?_, Text.isPlace_iff.1 hstart, Text.isPlace_iff.1 hstop⟩
    rw [← Text.byteSize_toList]
    exact hstop.le

/-- The span between two places lies within the source. -/
theorem within_ofBounds {a b : Nat} (ha : IsPlace source.toList a)
    (hb : IsPlace source.toList b) : (ofBounds a b).Within source := by
  refine within_iff.2 ⟨ha, ?_⟩
  show IsPlace source.toList (max a b)
  rcases Nat.le_total a b with h | h
  · rwa [Nat.max_eq_right h]
  · rwa [Nat.max_eq_left h]

/-- The span of what stands in a source lies within the source. -/
theorem within_of_standsAt {part : List Char} {i : Nat}
    (h : Text.StandsAt 0 source.toList part i) :
    (ofBounds i (i + Text.byteSize part)).Within source :=
  within_ofBounds h.isPlace.1 h.isPlace.2

theorem Within.union (hs : s.Within source) (ht : t.Within source) :
    (s.union t).Within source := by
  obtain ⟨hs, hs'⟩ := within_iff.1 hs
  obtain ⟨ht, ht'⟩ := within_iff.1 ht
  refine within_ofBounds ?_ ?_
  · rcases Nat.le_total s.start t.start with h | h
    · rwa [Nat.min_eq_left h]
    · rwa [Nat.min_eq_right h]
  · rcases Nat.le_total s.stop t.stop with h | h
    · rwa [Nat.max_eq_right h]
    · rwa [Nat.max_eq_left h]

/-- A union holds its second span. -/
theorem union_holds_right (s t : Span) : (s.union t).Holds t :=
  ⟨Nat.min_le_right _ _, Nat.le_trans (Nat.le_max_right _ _) (Nat.le_max_right _ _)⟩

end Span

end StructuralModel
