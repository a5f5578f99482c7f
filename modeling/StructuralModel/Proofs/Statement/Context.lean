import StructuralModel.Proofs.Statement.Scan

/-!
# Braces and comments of a text

What a place of a text stands in can be told from the characters before it, whether or not they
hold a fault (`Context`): how many braces are open, whether the place is in a comment, and whether
the statement in progress is open. A `#` starts a comment only outside of braces, and braces count
only outside of comments. A `}` without partner, and a semicolon behind an open statement, are
passed over like any other character.

* `context_of_run`: a scan, as far as it gets, is in the context of the text that it has scanned;
* `braces_ofText`: a text has tokens iff no brace is open behind it, and the brace at fault
  otherwise is the outermost one that is never closed (`Context.Unclosed`).
-/

namespace StructuralModel

open Statement (locate isContinuation)

/-- What a place of a text stands in. -/
structure Context where
  /-- The number of open braces. -/
  depth : Nat := 0
  /-- Whether the place is in a comment. -/
  inComment : Bool := false
  /-- Whether the statement in progress ends, outside of braces, with a character that asks for
      more. -/
  isOpen : Bool := false
  deriving DecidableEq, Repr

namespace Context

/-- The context behind one more character. -/
def step (k : Context) (c : Char) : Context :=
  if 0 < k.depth then { k with depth := Text.nest k.depth c, isOpen := false }
  else if k.inComment then { k with inComment := c != '\n' }
  else if c = '#' then { k with inComment := true }
  else if Token.isGap c || c == '\n' then k
  else { k with depth := Text.nest 0 c, isOpen := isContinuation c }

/-- The context behind more characters. -/
def run (k : Context) (cs : List Char) : Context :=
  cs.foldl step k

/-- The context behind a text. -/
def behind (cs : List Char) : Context :=
  run {} cs

/-- Outside of braces and comments. -/
def IsTop (k : Context) : Prop :=
  k.depth = 0 ∧ k.inComment = false

instance (k : Context) : Decidable k.IsTop :=
  inferInstanceAs (Decidable (k.depth = 0 ∧ k.inComment = false))

/-- The `{` between `before` and `after` is not in braces or in a comment, and is never closed. -/
structure Unclosed (before after : List Char) : Prop where
  isTop : (behind before).IsTop
  depth_ne_zero : ∀ block rest, after = block ++ rest → (behind (before ++ '{' :: block)).depth ≠ 0

theorem IsTop.step_eq {k : Context} (hk : k.IsTop) (c : Char) : k.step c =
    if c = '#' then { k with inComment := true }
    else if Token.isGap c || c == '\n' then k
    else { k with depth := Text.nest 0 c, isOpen := isContinuation c } := by
  rw [step, if_neg (hk.1 ▸ Nat.lt_irrefl 0), if_neg (hk.2 ▸ Bool.false_ne_true)]

/-- A character of a word tells whether the statement is open. -/
theorem IsTop.step_word {k : Context} (hk : k.IsTop) {c : Char} (h : Token.isWordChar c = true) :
    k.step c = { k with isOpen := isContinuation c } := by
  obtain ⟨h₁, h₂, h₃, h₄, h₅, -, h₇, h₈⟩ := Token.isWordChar_iff.1 h
  rw [hk.step_eq, if_neg h₅, if_neg (by simp [Token.isGap, h₁, h₂, h₃, h₄]),
    Text.nest_of_ne h₇ h₈, hk.1]

@[simp] theorem run_nil (k : Context) : k.run [] = k := rfl

theorem run_cons (k : Context) (c : Char) (cs : List Char) : k.run (c :: cs) = (k.step c).run cs :=
  rfl

theorem run_append (k : Context) (cs ds : List Char) : k.run (cs ++ ds) = (k.run cs).run ds :=
  List.foldl_append

end Context

/-! ## Contexts of scans -/

namespace Scan

/-- The context that a scan is in. -/
def context (s : Scan) : Context where
  depth := s.depth
  inComment := s.inComment
  isOpen := s.isOpen && s.depth == 0

/-- The end of a line does not change what a scan is in. -/
theorem context_newline (s : Scan) : s.newline.context = s.context := by
  rw [newline]
  split <;> rfl

/-- A scan and its context take a character in the same way. -/
theorem context_of_step {s t : Scan} {p : Char × Nat} (h : s.step p = some t) :
    t.context = s.context.step p.1 := by
  rw [step] at h
  split at h
  case isTrue hd =>
    cases h
    rw [Context.step, if_pos (show 0 < s.context.depth from hd)]
    cases hdepth : Text.nest s.depth p.1 <;> simp [context, keep, hdepth]
  case isFalse hd =>
    have hd : s.depth = 0 := Nat.eq_zero_of_not_pos hd
    split at h
    case isTrue hcomment =>
      cases h
      rw [Context.step, if_neg (show ¬0 < s.context.depth from Nat.not_lt.2 (Nat.le_of_eq hd)),
        if_pos (show s.context.inComment = true from hcomment)]
      split
      case isTrue hp =>
        rw [context_newline, hp]
        rfl
      case isFalse hp =>
        rw [bne_iff_ne.2 hp, ← hcomment]
        rfl
    case isFalse hcomment =>
      have htop : s.context.IsTop := ⟨hd, Bool.of_not_eq_true hcomment⟩
      split at h
      case h_1 hp | h_2 hp | h_3 hp | h_4 hp =>
        cases h
        rw [htop.step_eq, hp]
        rfl
      case h_5 hp =>
        cases h
        rw [htop.step_eq, context_newline, hp]
        rfl
      case h_6 hp =>
        split at h
        case isTrue => cases h
        case isFalse hopen =>
          cases h
          rw [htop.step_eq, hp]
          simp [context, flush, hd, Token.isGap, Text.nest, isContinuation, hopen]
      case h_7 hp =>
        cases h
        rw [htop.step_eq, hp]
        simp [context, keep, Token.isGap, Text.nest, isContinuation]
      case h_8 => cases h
      case h_9 h₁ h₂ h₃ h₄ h₅ h₆ h₇ h₈ =>
        cases h
        rw [htop.step_word (Token.isWordChar_iff.2 ⟨h₁, h₂, h₃, h₅, h₄, h₆, h₇, h₈⟩)]
        simp [context, keep, hd]

/-- A scan that gets to some place is in the context of the place. -/
theorem context_of_run {s t : Scan} {chars : List (Char × Nat)} (h : s.run chars = some t) :
    t.context = s.context.run (chars.map Prod.fst) := by
  induction chars generalizing s with
  | nil =>
    cases h
    rfl
  | cons p chars ih =>
    obtain ⟨u, hu, ht⟩ := Option.bind_eq_some_iff.1 h
    rw [ih ht, context_of_step hu]
    rfl

end Scan

/-! ## Braces of tokens -/

namespace Context

variable {k : Context} {cs block after : List Char}

theorem IsTop.step (hk : k.IsTop) {c : Char} (h : c ≠ '#' ∧ c ≠ '{') : (k.step c).IsTop := by
  rw [hk.step_eq, if_neg h.1]
  split
  · exact hk
  · refine ⟨?_, hk.2⟩
    simp [Text.nest, h.2]

/-- Only a `#` or a `{` leads away from the top. -/
theorem IsTop.run (hk : k.IsTop) (h : ∀ c ∈ cs, c ≠ '#' ∧ c ≠ '{') : (k.run cs).IsTop := by
  induction cs generalizing k with
  | nil => exact hk
  | cons c cs ih =>
    obtain ⟨hc, hcs⟩ := List.forall_mem_cons.1 h
    exact ih (hk.step hc) hcs

theorem step_of_pos (hd : 0 < k.depth) (c : Char) :
    k.step c = { k with depth := Text.nest k.depth c, isOpen := false } :=
  if_pos hd

/-- A block that is closed leads back to depth zero. -/
theorem run_closing (hd : 0 < k.depth) (hk : k.inComment = false)
    (h : Text.closing k.depth cs = some (block, after)) : (k.run block).IsTop := by
  induction cs generalizing k block with
  | nil => cases h
  | cons c rest ih =>
    rw [Text.closing] at h
    split at h
    case isTrue h0 =>
      cases h
      rw [run_cons, step_of_pos hd]
      exact ⟨h0, hk⟩
    case isFalse h0 =>
      obtain ⟨⟨block', after'⟩, h', heq⟩ := Option.map_eq_some_iff.1 h
      cases heq
      rw [run_cons, step_of_pos hd]
      exact ih (Nat.pos_of_ne_zero h0) hk h'

/-- In a block that is never closed the depth is never zero. -/
theorem depth_run_ne_zero (hd : 0 < k.depth) (h : Text.closing k.depth (block ++ after) = none) :
    (k.run block).depth ≠ 0 := by
  induction block generalizing k with
  | nil => exact Nat.ne_of_gt hd
  | cons c block ih =>
    rw [List.cons_append, Text.closing] at h
    split at h
    case isTrue => cases h
    case isFalse h0 =>
      rw [run_cons, step_of_pos hd]
      exact ih (Nat.pos_of_ne_zero h0) (Option.map_eq_none_iff.1 h)

/-- A block without end is never closed. -/
theorem Unclosed.of_closing {before after : List Char} (htop : (behind before).IsTop)
    (h : Text.closing 1 after = none) : Unclosed before after := by
  refine ⟨htop, fun block rest hafter => ?_⟩
  rw [behind, run_append, run_cons, ← behind, htop.step_eq]
  exact depth_run_ne_zero (k := { behind before with depth := 1, isOpen := false }) Nat.one_pos
    (hafter ▸ h)

/-- A comment goes on up to the end of its line. -/
theorem run_comment (hd : k.depth = 0) (hk : k.inComment = true) (h : ∀ c ∈ cs, c ≠ '\n') :
    k.run cs = k := by
  induction cs with
  | nil => rfl
  | cons c cs ih =>
    obtain ⟨hc, hcs⟩ := List.forall_mem_cons.1 h
    have hstep : k.step c = k := by
      rw [Context.step, if_neg (hd ▸ Nat.lt_irrefl 0), if_pos hk, bne_iff_ne.2 hc, ← hk]
    rw [run_cons, hstep]
    exact ih hcs

/-- The end of a line ends a comment, and leaves the top as it is. -/
theorem IsTop.run_newline (hk : k.IsTop) (cs : List Char) :
    Context.run { k with inComment := true } ('\n' :: cs) = k.run ('\n' :: cs) := by
  obtain ⟨depth, inComment, isOpen⟩ := k
  obtain ⟨rfl, rfl⟩ := hk
  rfl

/-- Behind a token the text goes on at the top: a comment ends at the end of its line. -/
theorem exists_isTop_of_lexeme {kind : Token.Kind} {text : List Char} (hk : k.IsTop)
    (h : Token.Lexeme kind text after) : ∃ k' : Context, k'.IsTop ∧
      (k.run (text ++ after)).depth = (k'.run after).depth ∧
      ∀ before c rest, after = before ++ c :: rest → c ≠ '\n' →
        k.run (text ++ before) = k'.run before := by
  have hpass (htop : (k.run text).IsTop) : ∃ k' : Context, k'.IsTop ∧
      (k.run (text ++ after)).depth = (k'.run after).depth ∧
      ∀ before c rest, after = before ++ c :: rest → c ≠ '\n' →
        k.run (text ++ before) = k'.run before :=
    ⟨_, htop, by rw [run_append], fun _ _ _ _ _ => run_append ..⟩
  have hinert (hne : ∀ c ∈ text, c ≠ '#' ∧ c ≠ '{') := hpass (hk.run hne)
  cases h with
  | blank hgap =>
    refine hinert fun c hc => ?_
    have hc : (c = ' ' ∨ c = '\t') ∨ c = '\r' := by simpa [Token.isGap] using hgap c hc
    rcases hc with (rfl | rfl) | rfl <;> decide
  | newline | semicolon | strayBrace => exact hinert (by simp)
  | word hne hword =>
    refine hinert fun c hc => ?_
    have hc := Token.isWordChar_iff.1 (hword c hc)
    exact ⟨hc.2.2.2.2.1, hc.2.2.2.2.2.2.1⟩
  | block hclosing =>
    refine hpass ?_
    rw [run_cons, hk.step_eq]
    exact run_closing (k := { k with depth := 1, isOpen := false }) Nat.one_pos hk.2 hclosing
  | @comment body _ hbody hafter =>
    have htext (before : List Char) :
        k.run ('#' :: body ++ before) = Context.run { k with inComment := true } before := by
      rw [run_append, run_cons, hk.step_eq, if_pos rfl,
        run_comment (k := { k with inComment := true }) hk.1 rfl hbody]
    refine ⟨k, hk, ?_, fun before c rest heq hc => ?_⟩
    · rw [htext]
      cases after with
      | nil => rfl
      | cons c rest =>
        obtain rfl : c = '\n' := hafter c rfl
        rw [hk.run_newline]
    · rw [htext]
      cases before with
      | nil => exact absurd (hafter c (by rw [heq]; rfl)) hc
      | cons d before =>
        obtain rfl : d = '\n' := hafter d (by rw [heq]; rfl)
        exact hk.run_newline before

end Context

namespace Token

/-- What is said of the braces of a text by its tokens, if the text stands behind `k`. -/
def BracesOf (k : Context) (start : Nat) (cs : List Char) : Except Finding (List Token) → Prop
  | .ok _ => (k.run cs).depth = 0
  | .error f => ∃ before after, cs = before ++ '{' :: after ∧ (k.run before).IsTop ∧
      Text.closing 1 after = none ∧ f = .unclosedBrace (.ofBounds (start + Text.byteSize before)
        (start + Text.byteSize before + 1))

theorem bracesOf_ofText {k : Context} (hk : k.IsTop) (start : Nat) (cs : List Char) :
    BracesOf k start cs (ofText start cs) := by
  fun_induction ofText start cs generalizing k with
  | case1 => exact hk.1
  | case2 start c rest hnone =>
    obtain ⟨rfl, hclosing⟩ := closing_of_first?_eq_none hnone
    exact ⟨[], rest, rfl, hk, hclosing, rfl⟩
  | case3 start c rest kind text after hfirst ih =>
    obtain ⟨htext, hlexeme⟩ := lexeme_of_first? hfirst
    obtain ⟨k', hk', hdepth, hrun⟩ := Context.exists_isTop_of_lexeme hk hlexeme
    have ih := ih hk'
    rw [htext]
    cases hrest : ofText (start + Text.byteSize text) after with
    | ok tokens =>
      rw [hrest] at ih
      exact hdepth.trans ih
    | error f =>
      rw [hrest] at ih
      obtain ⟨before, rest, rfl, htop, hclosing, rfl⟩ := ih
      refine ⟨text ++ before, rest, by rw [List.append_assoc], ?_, hclosing, ?_⟩
      · rwa [hrun before '{' rest rfl (by decide)]
      · rw [Text.byteSize_append, Nat.add_assoc]

/-- A text has tokens iff no brace is open behind it; otherwise the outermost brace that is never
    closed is at fault. -/
theorem braces_ofText (start : Nat) (cs : List Char) :
    match ofText start cs with
    | .ok _ => (Context.behind cs).depth = 0
    | .error f => ∃ before after, cs = before ++ '{' :: after ∧ Context.Unclosed before after ∧
        f = .unclosedBrace (.ofBounds (start + Text.byteSize before)
          (start + Text.byteSize before + 1)) := by
  have h := bracesOf_ofText (k := {}) ⟨rfl, rfl⟩ start cs
  cases hs : ofText start cs with
  | ok tokens =>
    rw [hs] at h
    exact h
  | error f =>
    rw [hs] at h
    obtain ⟨before, after, hcs, htop, hclosing, hf⟩ := h
    exact ⟨before, after, hcs, .of_closing htop hclosing, hf⟩

end Token

end StructuralModel
