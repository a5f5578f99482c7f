import Mathlib.Data.List.Basic
import StructuralModel.Proofs.Statement.Compact
import StructuralModel.Proofs.Statement.Context
import StructuralModel.Proofs.Statement.Place

/-!
# What statements copy

Outside of braces, comments, blanks, line breaks and semicolons are *layout* (`Context.IsLayout`).
The statements of a source, one behind the other, are the source without its layout
(`Context.kept`): nothing else is lost, nothing comes twice, and everything stays in its order. As
each byte of a statement remembers where it comes from, the spans of its ranges can be told.

* `Scan.chars_of_run`: a scan keeps what is no layout;
* `Statement.flatMap_chars_ofSource`: so the statements of a source are what is no layout in it;
* `Statement.LiesIn.tellsSpans`: the spans of the ranges of a statement;
* `Statement.copies_ofSource`: the bytes of the statements of a source, and their spans.
-/

namespace StructuralModel

open Text (byteSize StandsAt)
open Statement (locate)

/-! ## Bytes -/

namespace Text

/-- The bytes of the UTF-8 form of a text. -/
def bytes (cs : List Char) : List UInt8 :=
  cs.flatMap String.utf8EncodeChar

theorem bytes_append (cs ds : List Char) : bytes (cs ++ ds) = bytes cs ++ bytes ds :=
  List.flatMap_append

theorem length_bytes (cs : List Char) : (bytes cs).length = byteSize cs := by
  induction cs with
  | nil => rfl
  | cons c cs ih =>
    rw [← List.singleton_append, bytes_append, List.length_append, ih]
    simp [bytes]

/-- The bytes of what stands in a text are bytes of the text. -/
theorem StandsAt.map_getElem?_bytes {cs part : List Char} {i : Nat} (h : StandsAt 0 cs part i) :
    (List.range' i (byteSize part)).map ((bytes cs)[·]?) = (bytes part).map some := by
  obtain ⟨before, after, rfl, rfl⟩ := h
  refine List.ext_getElem? fun j => ?_
  rw [List.getElem?_map, List.getElem?_map]
  by_cases hj : j < byteSize part
  case pos =>
    have hpart : j < (bytes part).length := by rwa [length_bytes]
    have hbyte : (bytes (before ++ part ++ after))[byteSize before + j]? = (bytes part)[j]? := by
      rw [List.append_assoc, bytes_append, bytes_append, ← length_bytes before,
        List.getElem?_append_right (Nat.le_add_right ..), Nat.add_sub_cancel_left,
        List.getElem?_append_left hpart]
    rw [List.getElem?_range' hj, Nat.one_mul, Option.map_some, Nat.zero_add, hbyte,
      List.getElem?_eq_getElem hpart]
    rfl
  case neg =>
    rw [List.getElem?_eq_none (by rwa [List.length_range', ← Nat.not_lt]),
      List.getElem?_eq_none (by rwa [length_bytes, ← Nat.not_lt])]
    rfl

end Text

/-! ## Layout -/

namespace Context

/-- Whether a character behind `k` is layout: outside of braces, it is part of a comment, or it
    separates words or statements. -/
def IsLayout (k : Context) (c : Char) : Prop :=
  k.depth = 0 ∧ (k.inComment = true ∨ c = '#' ∨ c = ' ' ∨ c = '\t' ∨ c = '\r' ∨ c = '\n' ∨ c = ';')

instance (k : Context) (c : Char) : Decidable (k.IsLayout c) :=
  inferInstanceAs (Decidable (_ ∧ _))

/-- The characters of a text behind `k` that are no layout. -/
def kept (k : Context) : List (Char × Nat) → List (Char × Nat)
  | [] => []
  | p :: chars => (if k.IsLayout p.1 then [] else [p]) ++ kept (k.step p.1) chars

theorem kept_append (k : Context) (chars more : List (Char × Nat)) :
    k.kept (chars ++ more) = k.kept chars ++ (k.run (chars.map Prod.fst)).kept more := by
  induction chars generalizing k with
  | nil => rfl
  | cons p chars ih => rw [List.cons_append, kept, kept, ih, List.append_assoc]; rfl

theorem kept_sublist (k : Context) (chars : List (Char × Nat)) : (k.kept chars).Sublist chars := by
  induction chars generalizing k with
  | nil => exact List.Sublist.refl []
  | cons p chars ih =>
    rw [kept]
    split
    · exact (ih _).cons p
    · exact (ih _).cons_cons p

/-- The places of what is kept of a text are places of bytes of the text. -/
theorem mem_of_mem_origins_kept {k : Context} {start i : Nat} {cs : List Char}
    (h : i ∈ (⟨k.kept (locate start cs)⟩ : Statement).origins) :
    start ≤ i ∧ i < start + byteSize cs := by
  have hsub := ((kept_sublist k (locate start cs)).flatMap _).subset h
  have hmem : i ∈ (⟨locate start cs⟩ : Statement).origins := hsub
  rwa [Statement.origins_locate, List.mem_range'_1] at hmem

/-- A byte of a text is kept iff its character is no layout. -/
theorem mem_origins_kept_iff {k : Context} {start i : Nat} {before after : List Char} {c : Char}
    (hstart : start + byteSize before ≤ i) (hstop : i < start + byteSize before + c.utf8Size) :
    i ∈ (⟨k.kept (locate start (before ++ c :: after))⟩ : Statement).origins ↔
      ¬(k.run before).IsLayout c := by
  -- What is kept in front of the character lies in front of it, and what is kept behind it behind.
  have hbefore : i ∉ (⟨k.kept (locate start before)⟩ : Statement).origins := fun h =>
    Nat.not_lt.2 hstart (mem_of_mem_origins_kept h).2
  have hafter (k : Context) : i ∉ (⟨k.kept
      (locate (start + byteSize before + c.utf8Size) after)⟩ : Statement).origins := fun h =>
    Nat.not_lt.2 (mem_of_mem_origins_kept h).1 hstop
  rw [Statement.locate_append, kept_append, Statement.map_fst_locate, locate, kept,
    Statement.origins_append, Statement.origins_append, List.mem_append, List.mem_append,
    or_iff_right hbefore, or_iff_left (hafter _)]
  split
  case isTrue h => exact iff_of_false List.not_mem_nil (not_not_intro h)
  case isFalse h =>
    refine iff_of_true ?_ h
    rw [Statement.origins, List.flatMap_singleton, List.mem_range'_1]
    exact ⟨hstart, hstop⟩

end Context

namespace Scan

variable {s t : Scan} {p : Char × Nat}

/-- The characters that a scan has kept. -/
def chars (s : Scan) : List (Char × Nat) :=
  s.complete.flatMap Statement.chars ++ s.current.chars

theorem chars_keep (s : Scan) (p : Char × Nat) : (s.keep p).chars = s.chars ++ [p] :=
  (List.append_assoc ..).symm

theorem chars_flush (s : Scan) : s.flush.chars = s.chars := by
  have hfinished : s.current.finished.flatMap Statement.chars = s.current.chars := by
    rw [Statement.finished]
    split
    case isTrue h => exact (List.isEmpty_iff.1 h).symm
    case isFalse => exact List.flatMap_singleton ..
  rw [chars, chars, flush, List.flatMap_append, hfinished]
  exact List.append_nil _

theorem chars_newline (s : Scan) : s.newline.chars = s.chars := by
  rw [newline]
  split
  · rfl
  · exact chars_flush s

/-- A scan keeps a character iff it is no layout. -/
theorem chars_of_step (h : s.step p = some t) :
    t.chars = s.chars ++ if s.context.IsLayout p.1 then [] else [p] := by
  have hkeep (h : ¬s.context.IsLayout p.1) (ht : t.chars = (s.keep p).chars) :
      t.chars = s.chars ++ if s.context.IsLayout p.1 then [] else [p] := by
    rw [if_neg h, ht, chars_keep]
  have hdrop (h : s.context.IsLayout p.1) (ht : t.chars = s.chars) :
      t.chars = s.chars ++ if s.context.IsLayout p.1 then [] else [p] := by
    rw [if_pos h, ht, List.append_nil]
  rw [step] at h
  split at h
  case isTrue hd =>
    cases h
    exact hkeep (fun h => Nat.ne_of_gt hd h.1) rfl
  case isFalse hd =>
    have hd : s.depth = 0 := Nat.eq_zero_of_not_pos hd
    split at h
    case isTrue hcomment =>
      cases h
      refine hdrop ⟨hd, .inl hcomment⟩ ?_
      split
      · exact chars_newline _
      · rfl
    case isFalse hcomment =>
      have hlayout : s.context.IsLayout p.1 ↔ p.1 = '#' ∨ p.1 = ' ' ∨ p.1 = '\t' ∨ p.1 = '\r' ∨
          p.1 = '\n' ∨ p.1 = ';' :=
        (and_iff_right hd).trans (or_iff_right hcomment)
      split at h
      case h_1 hp | h_2 hp | h_3 hp | h_4 hp =>
        cases h
        exact hdrop (hlayout.2 (by simp [hp])) rfl
      case h_5 hp =>
        cases h
        exact hdrop (hlayout.2 (by simp [hp])) (chars_newline s)
      case h_6 hp =>
        split at h
        case isTrue => cases h
        case isFalse =>
          cases h
          exact hdrop (hlayout.2 (by simp [hp])) (chars_flush s)
      case h_7 hp =>
        cases h
        exact hkeep (fun h => by simpa [hp] using hlayout.1 h) rfl
      case h_8 => cases h
      case h_9 h₁ h₂ h₃ h₄ h₅ h₆ h₇ h₈ =>
        cases h
        refine hkeep (fun h => ?_) rfl
        rcases hlayout.1 h with h | h | h | h | h | h <;> contradiction

/-- A scan keeps what is no layout. -/
theorem chars_of_run {chars : List (Char × Nat)} (h : s.run chars = some t) :
    t.chars = s.chars ++ s.context.kept chars := by
  induction chars generalizing s with
  | nil =>
    cases h
    exact (List.append_nil _).symm
  | cons p chars ih =>
    obtain ⟨u, hu, ht⟩ := Option.bind_eq_some_iff.1 h
    rw [ih ht, chars_of_step hu, context_of_step hu, List.append_assoc]
    rfl

end Scan

/-! ## Statements -/

namespace Statement

variable {source : String} {s : Statement} {statements : List Statement}

/-- The statements of a text are what is no layout in it. -/
theorem flatMap_chars_ofSource {start : Nat} {cs : List Char}
    (h : ofSource start cs = .ok statements) :
    statements.flatMap chars = Context.kept {} (locate start cs) := by
  obtain ⟨t, hrun, -, rfl⟩ := Scan.exists_run_of_ofSource h
  calc t.flush.complete.flatMap chars
      = t.flush.chars := (List.append_nil _).symm
    _ = t.chars := Scan.chars_flush t
    _ = Context.kept {} (locate start cs) := Scan.chars_of_run hrun

/-- The bytes of a statement of a source are bytes of the source. -/
theorem LiesIn.map_origins (hs : s.LiesIn source) :
    s.origins.map ((Text.bytes source.toList)[·]?) = (Text.bytes s.text).map some := by
  rw [origins, text, Text.bytes, Text.bytes, List.map_flatMap, List.flatMap_map, List.map_flatMap]
  refine List.flatMap_congr fun p hp => ?_
  have hbytes := (standsAt_of_mem_locate (hs.subset hp)).map_getElem?_bytes
  rwa [Text.byteSize_cons, Text.bytes, Text.bytes, List.flatMap_singleton] at hbytes

/-- A statement tells the spans of its ranges of bytes. -/
structure TellsSpans (s : Statement) : Prop where
  /-- The span of a range with bytes goes from its first byte to its last one. -/
  ends : ∀ i j, i < j → j ≤ byteSize s.text → ∃ first last,
    s.origins[i]? = some first ∧ s.origins[j - 1]? = some last ∧
      (s.spanOf i j).start = first ∧ (s.spanOf i j).stop = last + 1
  /-- The span of a range holds those of the ranges in it. -/
  nested : ∀ i i' j' j, i ≤ i' → i' < j' → j' ≤ j → j ≤ byteSize s.text →
    (s.spanOf i j).Holds (s.spanOf i' j')
  /-- The span of the statement holds those of all ranges, whether or not they lie in it. -/
  within : ∀ i j, s.span.Holds (s.spanOf i j)

/-- The places of the bytes of a statement of a source do not decrease. -/
theorem LiesIn.origins_le (hs : s.LiesIn source) {i j x y : Nat} (h : i ≤ j)
    (hi : s.origins[i]? = some x) (hj : s.origins[j]? = some y) : x ≤ y := by
  obtain ⟨hilt, rfl⟩ := List.getElem?_eq_some_iff.1 hi
  obtain ⟨hjlt, rfl⟩ := List.getElem?_eq_some_iff.1 hj
  rcases Nat.lt_or_eq_of_le h with h | rfl
  · exact Nat.le_of_lt (List.pairwise_iff_getElem.1 hs.pairwise_origins i j hilt hjlt h)
  · exact Nat.le_refl _

theorem LiesIn.tellsSpans (hs : s.LiesIn source) : s.TellsSpans := by
  have hends (i j : Nat) (hij : i < j) (hj : j ≤ byteSize s.text) : ∃ first last,
      s.origins[i]? = some first ∧ s.origins[j - 1]? = some last ∧
        (s.spanOf i j).start = first ∧ (s.spanOf i j).stop = last + 1 := by
    rw [← length_origins] at hj
    have hfirst := List.getElem?_eq_getElem (Nat.lt_of_lt_of_le hij hj)
    have hlast := List.getElem?_eq_getElem (Nat.lt_of_lt_of_le (Nat.sub_one_lt_of_lt hij) hj)
    have hle := hs.origins_le (Nat.le_sub_one_of_lt hij) hfirst hlast
    refine ⟨_, _, hfirst, hlast, ?_⟩
    rw [spanOf_of_lt hij hfirst hlast]
    exact ⟨rfl, Span.stop_ofBounds (Nat.le_succ_of_le hle)⟩
  refine ⟨hends, fun i i' j' j hi hij hj hsize => ?_, hs.span_holds⟩
  obtain ⟨x, y, hx, hy, hstart, hstop⟩ :=
    hends i j (Nat.lt_of_le_of_lt hi (Nat.lt_of_lt_of_le hij hj)) hsize
  obtain ⟨x', y', hx', hy', hstart', hstop'⟩ := hends i' j' hij (Nat.le_trans hj hsize)
  constructor
  · rw [hstart, hstart']
    exact hs.origins_le hi hx hx'
  · rw [hstop, hstop']
    exact Nat.succ_le_succ (hs.origins_le (Nat.sub_le_sub_right hj 1) hy' hy)

/-- What statements copy of a source. -/
structure Copies (source : String) (statements : List Statement) : Prop where
  /-- No statement is empty. -/
  ne_nil : ∀ s ∈ statements, s.text ≠ []
  /-- The bytes of a statement are the bytes of the source at the places that it remembers. -/
  bytes : ∀ s ∈ statements,
    s.origins.map ((Text.bytes source.toList)[·]?) = (Text.bytes s.text).map some
  /-- The places of all bytes are in their order. -/
  increasing : (statements.flatMap origins).Pairwise (· < ·)
  /-- The bytes that no statement remembers are those of layout. -/
  dropped : ∀ before c after, source.toList = before ++ c :: after →
    ∀ i, byteSize before ≤ i → i < byteSize before + c.utf8Size →
      (i ∉ statements.flatMap origins ↔ (Context.behind before).IsLayout c)
  /-- Each statement tells the spans of its ranges. -/
  spans : ∀ s ∈ statements, s.TellsSpans

/-- The statements of a source copy it but for its layout. -/
theorem copies_ofSource (h : ofSource 0 source.toList = .ok statements) :
    Copies source statements := by
  have hchars := flatMap_chars_ofSource h
  have hall : LiesIn source ⟨statements.flatMap chars⟩ := by
    rw [LiesIn, hchars]
    exact Context.kept_sublist {} _
  have hlies (s : Statement) (hs : s ∈ statements) : s.LiesIn source :=
    (List.sublist_flatten_of_mem (List.mem_map_of_mem hs)).trans hall
  have horigins : statements.flatMap origins =
      (⟨statements.flatMap chars⟩ : Statement).origins := List.flatMap_assoc.symm
  refine ⟨fun s hs => ((compact_of_ofSource h).1 s hs).1, fun s hs => (hlies s hs).map_origins, ?_,
    fun before c after hsource i hstart hstop => ?_, fun s hs => (hlies s hs).tellsSpans⟩
  · rw [horigins]
    exact hall.pairwise_origins
  · rw [horigins, hchars, hsource]
    rw [← Nat.zero_add (byteSize before)] at hstart hstop
    exact (not_congr (Context.mem_origins_kept_iff hstart hstop)).trans Decidable.not_not

/-- A comment stands between the parts of a statement, and a `#` in a block is none. -/
theorem copies_ofSource_twoParts :
    ∃ statements, ofSource 0 "ü =~ \x7b#\x7d*a + # é\n\tb; c".toList = .ok statements ∧
      statements.map origins = [[0, 1, 3, 4, 6, 7, 8, 9, 10, 12, 20], [23]] ∧
      Copies "ü =~ \x7b#\x7d*a + # é\n\tb; c" statements := by
  have h : ofSource 0 "ü =~ \x7b#\x7d*a + # é\n\tb; c".toList =
      .ok [⟨[('ü', 0), ('=', 3), ('~', 4), ('\x7b', 6), ('#', 7), ('\x7d', 8), ('*', 9), ('a', 10),
        ('+', 12), ('b', 20)]⟩, ⟨[('c', 23)]⟩] := by decide +kernel
  exact ⟨_, h, by decide, copies_ofSource h⟩

end Statement

end StructuralModel
