import StructuralModel.Proofs.Statement.Scan

/-!
# Compact texts

A text is *compact* if it is balanced and has only characters of words outside of braces: there is
no layout left to take out of it. A compact text *ends open* if its last character asks for more.

* `Scan.Good.move`: what a scan has found so far is compact, whichever character comes next;
* `compact_of_ofSource`: the statements of a source are compact and not empty, and only the last
  one may end open.
-/

namespace StructuralModel

open Text (Balanced outside)
open Statement (locate isContinuation)

/-- A text without layout outside of braces. -/
structure Compact (cs : List Char) : Prop where
  /-- Its braces are balanced. -/
  balanced : Balanced cs
  /-- What is outside of them are characters of words. -/
  words : ∀ c ∈ outside 0 cs, Token.isWordChar c = true

namespace Compact

variable {cs ds : List Char}

/-- A compact text falls into compact parts wherever it is cut at depth zero. -/
theorem of_append (h : Compact (cs ++ ds)) (hd : Text.depth 0 cs = 0) :
    Compact cs ∧ Compact ds := by
  obtain ⟨hcs, hds⟩ := h.balanced.of_append hd
  have hw := h.words
  rw [Text.outside_append_of_balanced hcs] at hw
  exact ⟨⟨hcs, fun c hc => hw c (List.mem_append_left _ hc)⟩,
    ⟨hds, fun c hc => hw c (List.mem_append_right _ hc)⟩⟩

/-- Characters of words are a compact text. -/
theorem of_words (h : ∀ c ∈ cs, Token.isWordChar c = true) : Compact cs := by
  obtain ⟨hb, ho⟩ := Text.balanced_of_no_brace fun c hc =>
    (Token.isWordChar_iff.1 (h c hc)).2.2.2.2.2.2
  exact ⟨hb, fun c hc => h c (ho ▸ hc)⟩

end Compact

/-- Whether a text ends with a character that asks for more. -/
def endsOpen (cs : List Char) : Bool :=
  cs.getLast?.any isContinuation

theorem endsOpen_append (cs : List Char) {ds : List Char} (h : ds ≠ []) :
    endsOpen (cs ++ ds) = endsOpen ds := by
  rw [endsOpen, endsOpen, List.getLast?_append, List.getLast?_eq_some_getLast h]
  rfl

/-- A text without a character that asks for more does not end open. -/
theorem endsOpen_eq_false {cs : List Char}
    (h : '+' ∉ cs ∧ '*' ∉ cs ∧ '=' ∉ cs ∧ '~' ∉ cs ∧ ':' ∉ cs) : endsOpen cs = false := by
  refine Bool.eq_false_iff.2 fun hopen => ?_
  obtain ⟨c, hc, hopen⟩ := (Option.any_eq_true _ _).1 hopen
  have hmem : c ∈ cs := List.mem_of_getLast? hc
  simp only [isContinuation, Bool.or_eq_true, beq_iff_eq] at hopen
  rcases hopen with (((rfl | rfl) | rfl) | rfl) | rfl
  · exact h.1 hmem
  · exact h.2.1 hmem
  · exact h.2.2.1 hmem
  · exact h.2.2.2.1 hmem
  · exact h.2.2.2.2 hmem

namespace Scan

theorem openBehind_of_ne_nil (isOpen : Bool) {cs : List Char} (h : cs ≠ []) :
    openBehind isOpen cs = endsOpen cs := by
  rw [openBehind, endsOpen, List.getLast?_eq_some_getLast h]
  rfl

/-! ## What is found is compact -/

/-- The ways in which a scan may take a character. -/
inductive Move (s : Scan) (p : Char × Nat) : Scan → Prop
  | skip (inComment : Bool) : Move s p { s with inComment }
  | flush (inComment : Bool) : s.depth = 0 → s.isOpen = false →
      Move s p { s.flush with inComment }
  | inside : 0 < s.depth →
      Move s p { s.keep p with
        depth := Text.nest s.depth p.1, isOpen := s.isOpen && Text.nest s.depth p.1 != 0 }
  | brace : s.depth = 0 → p.1 = '{' → Move s p { s.keep p with depth := 1 }
  | word : s.depth = 0 → Token.isWordChar p.1 = true →
      Move s p { s.keep p with isOpen := isContinuation p.1 }

theorem move_newline {s : Scan} {p : Char × Nat} (inComment : Bool) (h : s.depth = 0) :
    Move s p (newline { s with inComment }) := by
  rw [newline]
  split
  case isTrue => exact .skip inComment
  case isFalse hopen => exact .flush inComment h (Bool.of_not_eq_true hopen)

theorem move_of_step {s t : Scan} {p : Char × Nat} (h : s.step p = some t) : Move s p t := by
  rw [step] at h
  split at h
  case isTrue hd =>
    cases h
    exact .inside hd
  case isFalse hd =>
    have hd : s.depth = 0 := Nat.eq_zero_of_not_pos hd
    split at h
    case isTrue =>
      cases h
      split
      · exact move_newline false hd
      · exact .skip s.inComment
    case isFalse =>
      split at h
      case h_9 h₁ h₂ h₃ h₄ h₅ h₆ h₇ h₈ =>
        cases h
        exact .word hd (Token.isWordChar_iff.2 ⟨h₁, h₂, h₃, h₅, h₄, h₆, h₇, h₈⟩)
      case h_8 => cases h
      case h_7 hp =>
        cases h
        exact .brace hd hp
      case h_6 =>
        split at h
        case isTrue => cases h
        case isFalse hopen =>
          cases h
          exact .flush s.inComment hd (Bool.of_not_eq_true hopen)
      case h_5 =>
        cases h
        exact move_newline s.inComment hd
      case h_4 =>
        cases h
        exact .skip true
      all_goals
        cases h
        exact .skip s.inComment

/-- What a scan has found so far: complete statements are compact and do not end open, and the
    depth and whether the statement in progress is open can be told from its text. -/
structure Good (s : Scan) : Prop where
  complete : ∀ t ∈ s.complete, t.text ≠ [] ∧ Compact t.text ∧ endsOpen t.text = false
  level : Text.level? 0 s.current.text = some s.depth
  words : ∀ c ∈ outside 0 s.current.text, Token.isWordChar c = true
  isOpen : s.depth = 0 → s.isOpen = endsOpen s.current.text

theorem good_empty : Good {} where
  complete := fun _ h => by cases h
  level := rfl
  words := fun _ h => by cases h
  isOpen := fun _ => rfl

theorem text_keep (s : Scan) (p : Char × Nat) :
    (s.keep p).current.text = s.current.text ++ [p.1] := by
  simp [keep, Statement.text]

theorem outside_keep (s : Scan) (h : Text.level? 0 s.current.text = some s.depth)
    (p : Char × Nat) :
    outside 0 (s.keep p).current.text =
      outside 0 s.current.text ++ outside s.depth [p.1] := by
  rw [text_keep, Text.outside_append, Text.depth_of_level? h]

theorem level?_keep (s : Scan) (h : Text.level? 0 s.current.text = some s.depth)
    (p : Char × Nat) :
    Text.level? 0 (s.keep p).current.text = Text.nest? s.depth p.1 := by
  rw [text_keep, Text.level?_append, h, Option.bind_some, Text.level?_cons]
  exact Option.bind_fun_some _

theorem endsOpen_keep (s : Scan) (p : Char × Nat) :
    endsOpen (s.keep p).current.text = isContinuation p.1 := by
  rw [text_keep, endsOpen_append _ (List.cons_ne_nil _ _)]
  rfl

/-- A statement that is flushed at depth zero is compact. -/
theorem Good.finished {s : Scan} (h : s.Good) (hd : s.depth = 0) :
    ∀ t ∈ s.current.finished, t.text ≠ [] ∧ Compact t.text ∧ endsOpen t.text = s.isOpen := by
  intro t ht
  rw [Statement.finished] at ht
  split at ht
  case isTrue => cases ht
  case isFalse hne =>
    obtain rfl := List.mem_singleton.1 ht
    refine ⟨fun h => hne ?_, ⟨h.level.trans (congrArg some hd), h.words⟩,
      (h.isOpen hd).symm⟩
    exact List.isEmpty_iff.2 (List.map_eq_nil_iff.1 h)

theorem Good.move {s t : Scan} {p : Char × Nat} (h : s.Good) (hm : Move s p t) : t.Good := by
  cases hm with
  | skip inComment => exact ⟨h.complete, h.level, h.words, h.isOpen⟩
  | flush inComment hd hopen =>
    refine ⟨fun t ht => ?_, congrArg some hd.symm, fun _ hc => (by cases hc), fun _ => hopen⟩
    rcases List.mem_append.1 ht with ht | ht
    · exact h.complete t ht
    · exact hopen ▸ h.finished hd t ht
  | inside hd =>
    have hnest : Text.nest? s.depth p.1 = some (Text.nest s.depth p.1) :=
      if_neg fun h => (Nat.ne_of_gt hd) h.2
    refine ⟨h.complete, (level?_keep s h.level p).trans hnest, fun c hc => ?_, fun h0 => ?_⟩
    · rw [outside_keep s h.level, Text.outside, if_neg fun h => (Nat.ne_of_gt hd) h.1,
        Text.outside_nil, List.append_nil] at hc
      exact h.words c hc
    · have h0 : Text.nest s.depth p.1 = 0 := h0
      have hp : p.1 = '}' := Text.eq_of_nest_eq_zero hd h0
      have hopen : endsOpen (s.keep p).current.text = false := by rw [endsOpen_keep, hp]; rfl
      exact (by simp [h0] : (s.isOpen && Text.nest s.depth p.1 != 0) = false).trans hopen.symm
  | brace hd hp =>
    have hnest : Text.nest? s.depth p.1 = some 1 := by rw [hp, hd]; rfl
    refine ⟨h.complete, (level?_keep s h.level p).trans hnest, fun c hc => ?_,
      fun h => (by cases h)⟩
    rw [outside_keep s h.level, hp, hd] at hc
    exact h.words c (by simpa [outside] using hc)
  | word hd hw =>
    obtain ⟨h₁, h₂⟩ := (Token.isWordChar_iff.1 hw).2.2.2.2.2.2
    have hnest : Text.nest? s.depth p.1 = some s.depth := by
      rw [Text.nest?, if_neg fun h => h₂ h.1, Text.nest_of_ne h₁ h₂]
    refine ⟨h.complete, (level?_keep s h.level p).trans hnest, fun c hc => ?_,
      fun _ => (endsOpen_keep s p).symm⟩
    rw [outside_keep s h.level, hd] at hc
    rcases List.mem_append.1 hc with hc | hc
    · exact h.words c hc
    · obtain rfl : c = p.1 := by simpa [outside, h₁, h₂] using hc
      exact hw

theorem Good.run {s t : Scan} {chars : List (Char × Nat)} (h : s.Good)
    (hrun : s.run chars = some t) : t.Good := by
  induction chars generalizing s with
  | nil =>
    cases hrun
    exact h
  | cons p chars ih =>
    obtain ⟨u, hu, ht⟩ := Option.bind_eq_some_iff.1 hrun
    exact ih (h.move (move_of_step hu)) ht

end Scan

/-- The statements of a text are compact and not empty, and only the last one may end open. -/
theorem compact_of_ofSource {start : Nat} {cs : List Char} {statements : List Statement}
    (h : Statement.ofSource start cs = .ok statements) :
    (∀ s ∈ statements, s.text ≠ [] ∧ Compact s.text) ∧
      ∀ s ∈ statements.dropLast, endsOpen s.text = false := by
  obtain ⟨s, hs, hd, rfl⟩ := Scan.exists_run_of_ofSource h
  have hgood := Scan.good_empty.run hs
  have hlast := hgood.finished hd
  refine ⟨fun t ht => ?_, fun t ht => ?_⟩
  · rcases List.mem_append.1 ht with ht | ht
    · exact ⟨(hgood.complete t ht).1, (hgood.complete t ht).2.1⟩
    · exact ⟨(hlast t ht).1, (hlast t ht).2.1⟩
  · -- At most one statement, the last one, is added at the end.
    refine (hgood.complete t ?_).2.2
    simp only [Scan.flush, Statement.finished] at ht
    split at ht
    · exact List.dropLast_subset _ (by simpa using ht)
    · simpa using ht

end StructuralModel
