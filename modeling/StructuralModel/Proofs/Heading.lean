import StructuralModel.Heading
import StructuralModel.Proofs.Text.Place

/-!
# Headings written and read

A heading gives a name that is not empty and has no spaces, tabs, equals signs or line breaks
(`IsName`), and every such name can be given by a heading.

In front of its heading a source may have other lines, which are blank or comments (`IsPassed`). The
offset tells whether there is a heading: only without one the body starts at byte zero, as the line
of a heading is not empty (`TakenOff`).

* `exists_append_of_find?`, `find?_append`: a heading is found in the first line that is not passed
  over;
* `isName_of_ofSource`: the name of a source is one that a heading can give;
* `ofSource_named`: a heading with such a name is taken off, and the body is what stands behind it;
* `ofSource_unnamed`: a source that starts like a statement has no heading;
* `exists_append_body`: the body of a source is what stands behind its heading;
* `inverts_ofSource`: what is taken off a source, and that a heading is taken off as it was written.
-/

namespace StructuralModel.Heading

open Text (isBlank lines trim trimEnd)

/-- The names that a heading can give. -/
def IsName (name : List Char) : Prop :=
  name ≠ [] ∧ ∀ c ∈ name, c ≠ ' ' ∧ c ≠ '\t' ∧ c ≠ '=' ∧ c ≠ '\n'

/-- The first line of a text with a line break. -/
theorem lines_append_newline {line : List Char} (h : ∀ c ∈ line, c ≠ '\n') (rest : List Char) :
    lines (line ++ '\n' :: rest) = (line ++ ['\n']) :: lines rest := by
  induction line with
  | nil => simp [lines]
  | cons c line ih =>
    rw [List.cons_append, lines, if_neg (h c List.mem_cons_self),
      ih fun c hc => h c (List.mem_cons_of_mem _ hc)]
    rfl

/-- The first line of a text that does not start with a line break starts as the text does. -/
theorem exists_lines_cons {c : Char} (h : c ≠ '\n') (cs : List Char) :
    ∃ line rest, lines (c :: cs) = (c :: line) :: rest := by
  rw [lines, if_neg h]
  split
  · exact ⟨[], [], rfl⟩
  · next line rest _ => exact ⟨line, rest, rfl⟩

/-- In a line, only the last character may be a line break. -/
theorem newline_of_mem_lines {line cs : List Char} (h : line ∈ lines cs) :
    ∃ text, (∀ c ∈ text, c ≠ '\n') ∧ (line = text ∨ line = text ++ ['\n']) := by
  induction cs generalizing line with
  | nil => cases h
  | cons c cs ih =>
    rw [lines] at h
    split at h
    case isTrue hc =>
      rcases List.mem_cons.1 h with rfl | h
      · exact ⟨[], fun _ h => (by cases h), .inr (by rw [hc]; rfl)⟩
      · exact ih h
    case isFalse hc =>
      have extend {line : List Char} (h : ∃ text, (∀ c ∈ text, c ≠ '\n') ∧
          (line = text ∨ line = text ++ ['\n'])) :
          ∃ text, (∀ c ∈ text, c ≠ '\n') ∧ (c :: line = text ∨ c :: line = text ++ ['\n']) := by
        obtain ⟨text, htext, rfl | rfl⟩ := h
        · exact ⟨c :: line, List.forall_mem_cons.2 ⟨hc, htext⟩, .inl rfl⟩
        · exact ⟨c :: text, List.forall_mem_cons.2 ⟨hc, htext⟩, .inr rfl⟩
      split at h
      case h_1 =>
        obtain rfl := List.mem_singleton.1 h
        exact extend ⟨[], fun _ h => (by cases h), .inl rfl⟩
      case h_2 first rest hlines =>
        rw [hlines] at ih
        rcases List.mem_cons.1 h with rfl | h
        · exact extend (ih List.mem_cons_self)
        · exact ih (List.mem_cons_of_mem _ h)

/-! ## Trimmed lines -/

theorem mem_of_mem_trim {c : Char} {cs : List Char} (h : c ∈ trim cs) : c ∈ cs := by
  rw [trim, trimEnd, List.mem_reverse] at h
  exact (List.dropWhile_sublist _).subset
    (List.mem_reverse.1 ((List.dropWhile_sublist _).subset h))

/-- A line break at the end is trimmed. -/
theorem trimEnd_append_newline (cs : List Char) : trimEnd (cs ++ ['\n']) = trimEnd cs := by
  rw [trimEnd, trimEnd, List.reverse_append, List.reverse_singleton, List.singleton_append,
    List.dropWhile_cons_of_pos (by decide)]

/-- What ends with a character that is not blank is trimmed already. -/
theorem trimEnd_append {c : Char} (h : isBlank c = false) (cs : List Char) :
    trimEnd (cs ++ [c]) = cs ++ [c] := by
  rw [trimEnd, List.reverse_append, List.reverse_singleton, List.singleton_append,
    List.dropWhile_cons_of_neg (by simp [h]), List.reverse_cons, List.reverse_reverse]

/-- There is no line break in a trimmed line. -/
theorem newline_not_mem_trim {line cs : List Char} (h : line ∈ lines cs) : '\n' ∉ trim line := by
  obtain ⟨text, htext, rfl | rfl⟩ := newline_of_mem_lines h
  · exact fun hmem => htext _ (mem_of_mem_trim hmem) rfl
  · intro hmem
    have hdrop : (text ++ ['\n']).dropWhile isBlank = [] ∨
        (text ++ ['\n']).dropWhile isBlank = text.dropWhile isBlank ++ ['\n'] := by
      rw [List.dropWhile_append]
      split
      · exact .inl (by decide)
      · exact .inr rfl
    rw [trim] at hmem
    rcases hdrop with hdrop | hdrop <;> rw [hdrop] at hmem
    · cases hmem
    · rw [trimEnd_append_newline] at hmem
      exact htext _ (mem_of_mem_trim hmem) rfl

/-- What starts with a character that is not blank still does so when it is trimmed. -/
theorem exists_trim_cons {c : Char} (h : isBlank c = false) (cs : List Char) :
    ∃ rest, trim (c :: cs) = c :: rest := by
  rw [trim, List.dropWhile_cons_of_neg (by simp [h]), trimEnd, List.reverse_cons,
    List.dropWhile_append]
  split
  · exact ⟨[], by simp [List.dropWhile, h]⟩
  · exact ⟨_, List.reverse_append⟩

/-- Only blanks are trimmed to nothing. -/
theorem trim_eq_nil_iff {cs : List Char} : trim cs = [] ↔ ∀ c ∈ cs, isBlank c = true := by
  induction cs with
  | nil => exact iff_of_true rfl fun _ h => (by cases h)
  | cons c cs ih =>
    rw [List.forall_mem_cons]
    cases hc : isBlank c with
    | true =>
      have htrim : trim (c :: cs) = trim cs := by rw [trim, List.dropWhile_cons_of_pos hc, ← trim]
      rw [htrim, ih]
      exact (and_iff_right rfl).symm
    | false =>
      obtain ⟨rest, htrim⟩ := exists_trim_cons hc cs
      rw [htrim]
      exact iff_of_false (List.cons_ne_nil _ _) fun h => Bool.false_ne_true h.1

/-! ## Lines of a heading -/

/-- A line that is passed over: it is blank, or a comment. -/
def IsPassed (line : List Char) : Prop :=
  (∀ c ∈ line, isBlank c = true) ∨ ['#'] <+: trim line

theorem isSkipped_trim_iff {line : List Char} : isSkipped (trim line) = true ↔ IsPassed line := by
  rw [isSkipped, IsPassed, Bool.or_eq_true, List.isEmpty_iff, trim_eq_nil_iff, beq_iff_eq]
  refine or_congr_right ?_
  cases trim line with
  | nil => simp
  | cons c content => simp [List.cons_prefix_cons, eq_comm]

theorem isHeading_iff {content : List Char} :
    isHeading content = true ↔ ['=', '=', '='] <+: content :=
  List.isPrefixOf_iff_prefix

/-- Lines that are passed over only move the offset. -/
theorem find?_append {passed : List (List Char)} (h : ∀ l ∈ passed, IsPassed l) (offset : Nat)
    (ls : List (List Char)) :
    find? offset (passed ++ ls) = find? (offset + Text.byteSize passed.flatten) ls := by
  induction passed generalizing offset with
  | nil => rfl
  | cons l passed ih =>
    obtain ⟨hl, h⟩ := List.forall_mem_cons.1 h
    rw [List.cons_append, find?, isSkipped_trim_iff.2 hl, if_pos rfl, ih h, List.flatten_cons,
      Text.byteSize_append, Nat.add_assoc]

/-- A heading is found in the first line that is not passed over. -/
theorem exists_append_of_find? {offset : Nat} {ls : List (List Char)} {heading : Heading}
    (hfind : find? offset ls = some heading) :
    ∃ passed line rest, ls = passed ++ line :: rest ∧ (∀ l ∈ passed, IsPassed l) ∧
      ['=', '=', '='] <+: trim line ∧ heading = {
        name := nameOf? (trim line), body := rest.flatten
        offset := offset + Text.byteSize (passed.flatten ++ line) } := by
  induction ls generalizing offset with
  | nil => cases hfind
  | cons l ls ih =>
    rw [find?] at hfind
    split at hfind
    case isTrue hskip =>
      obtain ⟨passed, line, rest, rfl, hpassed, hline, rfl⟩ := ih hfind
      refine ⟨l :: passed, line, rest, rfl,
        List.forall_mem_cons.2 ⟨isSkipped_trim_iff.1 hskip, hpassed⟩, hline, ?_⟩
      rw [List.flatten_cons, List.append_assoc, Text.byteSize_append l, Nat.add_assoc]
    case isFalse =>
      split at hfind
      case isTrue hheading =>
        cases hfind
        exact ⟨[], l, ls, rfl, fun _ h => (by cases h), isHeading_iff.1 hheading, rfl⟩
      case isFalse => cases hfind

/-! ## Names -/

/-- The name in a line is one that a heading can give. -/
theorem isName_of_nameOf? {line : List Char} {name : String} (hline : '\n' ∉ line)
    (h : nameOf? line = some name) : IsName name.toList := by
  rw [nameOf?] at h
  split at h
  case h_1 => cases h
  case h_2 chars hne =>
    cases h
    rw [String.toList_ofList]
    refine ⟨hne, fun c hc => ?_⟩
    obtain ⟨hmem, hc⟩ := List.mem_filter.1 hc
    have hnewline : c ≠ '\n' := fun h => hline (h ▸ hmem)
    simpa [hnewline, and_assoc] using hc

/-- The name of a source is one that a heading can give. -/
theorem isName_of_ofSource {source : List Char} {name : String}
    (h : (ofSource source).name = some name) : IsName name.toList := by
  rw [ofSource] at h
  cases hfind : find? 0 (lines source) with
  | none => rw [hfind] at h; cases h
  | some heading =>
    rw [hfind] at h
    obtain ⟨passed, line, rest, hlines, -, -, rfl⟩ := exists_append_of_find? hfind
    have hline : line ∈ lines source := by
      rw [hlines]
      exact List.mem_append_right _ List.mem_cons_self
    exact isName_of_nameOf? (newline_not_mem_trim hline) h

/-- What stands in the line of a heading. -/
def content (name : List Char) : List Char :=
  ['=', '=', '=', ' '] ++ name ++ [' ', '=', '=', '=']

/-- The line of a heading. -/
def line (name : List Char) : List Char :=
  content name ++ ['\n']

/-- Of the line of a heading, only the line break is trimmed. -/
theorem trim_line (name : List Char) : trim (line name) = content name := by
  have hdrop : (line name).dropWhile isBlank = line name := by
    rw [line, content, List.append_assoc, List.append_assoc, List.cons_append,
      List.dropWhile_cons_of_neg (by decide)]
  have hlast : content name = (['=', '=', '=', ' '] ++ name ++ [' ', '=', '=']) ++ ['='] := by
    simp [content]
  rw [trim, hdrop, line, trimEnd_append_newline, hlast, trimEnd_append (by decide)]

/-- In the line of a heading stands its name. -/
theorem nameOf?_content {name : String} (h : IsName name.toList) :
    nameOf? (content name.toList) = some name := by
  have hname : name.toList.filter (fun c => c != ' ' && c != '\t' && c != '=') = name.toList :=
    List.filter_eq_self.2 fun c hc => by
      obtain ⟨h₁, h₂, h₃, -⟩ := h.2 c hc
      simp [h₁, h₂, h₃]
  have hcontent : (content name.toList).filter (fun c => c != ' ' && c != '\t' && c != '=') =
      name.toList := by
    rw [content, List.filter_append, List.filter_append, hname]
    simp
  rw [nameOf?, hcontent]
  split
  · exact absurd ‹_› h.1
  · rw [String.ofList_toList]

/-- A heading with a name is taken off a source. -/
theorem ofSource_named {name : String} (h : IsName name.toList) (body : List Char) :
    ofSource (line name.toList ++ body) =
      { name := some name, body, offset := Text.byteSize (line name.toList) } := by
  have hnewline : ∀ c ∈ content name.toList, c ≠ '\n' := by
    intro c hc
    rcases List.mem_append.1 hc with hc | hc
    · rcases List.mem_append.1 hc with hc | hc
      · rintro rfl
        revert hc
        decide
      · exact (h.2 c hc).2.2.2
    · rintro rfl
      revert hc
      decide
  have hlines : lines (line name.toList ++ body) = line name.toList :: lines body := by
    rw [line, List.append_assoc]
    exact lines_append_newline hnewline body
  rw [ofSource, hlines, find?, trim_line, nameOf?_content h, Text.flatten_lines]
  simp [isSkipped, isHeading, content]

/-- A source that starts neither with a blank nor with the sign of a comment or a heading has no
    heading. -/
theorem ofSource_unnamed {c : Char} (hblank : isBlank c = false) (hcomment : c ≠ '#')
    (hsign : c ≠ '=') (cs : List Char) :
    ofSource (c :: cs) = { name := none, body := c :: cs, offset := 0 } := by
  have hnewline : c ≠ '\n' := by
    rintro rfl
    cases hblank
  obtain ⟨line, rest, hlines⟩ := exists_lines_cons hnewline cs
  obtain ⟨more, htrim⟩ := exists_trim_cons hblank line
  have hskip : isSkipped (c :: more) = false := by simp [isSkipped, hcomment]
  have hheading : isHeading (c :: more) = false := by
    simp [isHeading, List.isPrefixOf, Ne.symm hsign]
  rw [ofSource, hlines, find?, htrim]
  simp [hskip, hheading]

/-! ## Bodies -/

/-- The body of a heading in some lines is what stands behind it. -/
theorem exists_of_find? {offset : Nat} {ls : List (List Char)} {h : Heading}
    (hfind : find? offset ls = some h) :
    ∃ front, front ++ h.body = ls.flatten ∧ h.offset = offset + Text.byteSize front := by
  obtain ⟨passed, line, rest, rfl, -, -, rfl⟩ := exists_append_of_find? hfind
  exact ⟨passed.flatten ++ line, by simp, rfl⟩

/-- The body of a source is what stands behind its heading. -/
theorem exists_append_body (source : List Char) :
    ∃ front, front ++ (ofSource source).body = source ∧
      (ofSource source).offset = Text.byteSize front := by
  rw [ofSource]
  cases hfind : find? 0 (lines source) with
  | none => exact ⟨[], rfl, rfl⟩
  | some h =>
    obtain ⟨front, hbody, hoffset⟩ := exists_of_find? hfind
    rw [Text.flatten_lines] at hbody
    exact ⟨front, hbody, by rw [Option.getD_some, hoffset, Nat.zero_add]⟩

/-! ## What is taken off -/

/-- What is taken off a source in front of its body. -/
structure TakenOff (source : List Char) (h : Heading) : Prop where
  /-- The body is the source from the offset on. -/
  body : ∃ front, front ++ h.body = source ∧ h.offset = Text.byteSize front
  /-- The name, if there is one, is one that a heading can give. -/
  isName : ∀ name, h.name = some name → IsName name.toList
  /-- With a heading, these are lines that are passed over, and then the line of the heading. -/
  headed : 0 < h.offset → ∃ passed line rest, lines source = passed ++ line :: rest ∧
    (∀ l ∈ passed, IsPassed l) ∧ ['=', '=', '='] <+: trim line ∧
    passed.flatten ++ line ++ h.body = source ∧
    h.offset = Text.byteSize (passed.flatten ++ line)
  /-- Without one, there is no name, and the first line that is not passed over is no heading. -/
  unheaded : h.offset = 0 → h.name = none ∧
    ∀ passed line rest, lines source = passed ++ line :: rest → (∀ l ∈ passed, IsPassed l) →
      ¬IsPassed line → ¬['=', '=', '='] <+: trim line

/-- If no heading is found, the first line that is not passed over is none. -/
theorem not_prefix_of_find? {offset : Nat} {passed rest : List (List Char)} {line : List Char}
    (hfind : find? offset (passed ++ line :: rest) = none) (hpassed : ∀ l ∈ passed, IsPassed l)
    (hline : ¬IsPassed line) : ¬['=', '=', '='] <+: trim line := by
  intro hheading
  rw [find?_append hpassed, find?, if_neg (mt isSkipped_trim_iff.1 hline),
    if_pos (isHeading_iff.2 hheading)] at hfind
  cases hfind

theorem takenOff_ofSource (source : List Char) : TakenOff source (ofSource source) := by
  have hbody := exists_append_body source
  have hname (name : String) : (ofSource source).name = some name → IsName name.toList :=
    isName_of_ofSource
  have hsource := Text.flatten_lines source
  cases hfind : find? 0 (lines source) with
  | none =>
    have hof : ofSource source = { name := none, body := source, offset := 0 } := by
      rw [ofSource, hfind, Option.getD_none]
    rw [hof] at hbody hname ⊢
    refine ⟨hbody, hname, fun h => absurd h (Nat.lt_irrefl 0), fun _ => ⟨rfl, ?_⟩⟩
    intro passed line rest hlines
    rw [hlines] at hfind
    exact not_prefix_of_find? hfind
  | some heading =>
    have hof : ofSource source = heading := by rw [ofSource, hfind, Option.getD_some]
    rw [hof] at hbody hname ⊢
    obtain ⟨passed, line, rest, hlines, hpassed, hline, rfl⟩ := exists_append_of_find? hfind
    refine ⟨hbody, hname, fun _ => ⟨passed, line, rest, hlines, hpassed, hline, ?_, ?_⟩,
      fun hzero => ?_⟩
    · rw [hlines] at hsource
      rw [← hsource]
      simp
    · exact Nat.zero_add _
    · -- The line of a heading has bytes.
      have hnil : passed.flatten ++ line = [] :=
        Text.byteSize_eq_zero_iff.1 (by rwa [Nat.zero_add] at hzero)
      rw [(List.append_eq_nil_iff.1 hnil).2] at hline
      exact absurd hline (by decide)

/-- A heading is taken off as it was written, and whatever is taken off a source is its heading and
    the lines in front of it. -/
theorem inverts_ofSource :
    (∀ (name : String) (body : List Char), IsName name.toList →
      ofSource (line name.toList ++ body) =
        { name := some name, body, offset := Text.byteSize (line name.toList) }) ∧
      ∀ source, TakenOff source (ofSource source) :=
  ⟨fun _ body h => ofSource_named h body, takenOff_ofSource⟩

/-- The name may start with the sign of a comment and end with a blank that is no space. -/
theorem inverts_ofSource_comment :
    IsName "#\x7b\u00a0".toList ∧
      ofSource (line "#\x7b\u00a0".toList ++ "=== x".toList) =
        { name := some "#\x7b\u00a0", body := "=== x".toList, offset := 13 } ∧
      TakenOff "\u3000\n # é\n====\nf =~ x".toList
        { name := none, body := "f =~ x".toList, offset := 15 } ∧
      TakenOff "== x\n=== y".toList
        { name := none, body := "== x\n=== y".toList, offset := 0 } := by
  have hname : IsName "#\x7b\u00a0".toList := by
    rw [IsName, show "#\x7b\u00a0".toList = ['#', '\x7b', '\u00a0'] by decide +kernel]
    simp
  have hheaded : ofSource "\u3000\n # é\n====\nf =~ x".toList =
      { name := none, body := "f =~ x".toList, offset := 15 } := by decide +kernel
  have hunheaded : ofSource "== x\n=== y".toList =
      { name := none, body := "== x\n=== y".toList, offset := 0 } := by decide +kernel
  exact ⟨hname, inverts_ofSource.1 _ _ hname, hheaded ▸ inverts_ofSource.2 _,
    hunheaded ▸ inverts_ofSource.2 _⟩

end StructuralModel.Heading
