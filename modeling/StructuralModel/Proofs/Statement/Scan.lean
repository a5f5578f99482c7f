import StructuralModel.Proofs.Text.Depth
import StructuralModel.Statement.Layout

/-!
# Scanning a text for its statements

Statements are found in tokens, but they can be told character by character just as well. A *scan*
goes through a text from left to right and keeps the statement in progress, the brace depth,
whether it is in a comment, and whether the statement in progress is *open* (`Scan.step`):

* inside braces every character is kept, and braces change the depth; the brace that leads back to
  depth zero closes what was open;
* at depth zero blanks are dropped, a `#` drops everything up to the next line break, a line break
  ends a statement unless it is open, a semicolon ends a statement that must not be open, a `}` is a
  fault, and any other character is kept and tells whether the statement is open.

At the end of the text no brace may be open (`Scan.finish`).

* `lexeme_of_first?`: what the first token of a text is, and what stands behind it;
* `run_blank`, `run_word`, `run_closing` and their like: what a scan makes of each kind of token;
* `toOption_ofSource`: the scan and the tokens find the same statements, and both or none of them
  find a fault.
-/

namespace StructuralModel

/-- The state of a scan. -/
structure Scan where
  /-- The statements that are complete. -/
  complete : List Statement := []
  /-- The statement in progress. -/
  current : Statement := {}
  /-- The brace depth. -/
  depth : Nat := 0
  /-- Whether the scan is in a comment. -/
  inComment : Bool := false
  /-- Whether the statement in progress asks for more. -/
  isOpen : Bool := false

namespace Scan

open Statement (locate isContinuation)

/-- Keeps a character. -/
def keep (s : Scan) (p : Char × Nat) : Scan :=
  { s with current := ⟨s.current.chars ++ [p]⟩ }

/-- Ends the statement in progress, if there is one. -/
def flush (s : Scan) : Scan :=
  { s with complete := s.complete ++ s.current.finished, current := {} }

/-- Goes to the next line, which an open statement survives. -/
def newline (s : Scan) : Scan :=
  if s.isOpen then s else s.flush

/-- Scans a character; nothing if it is a fault. -/
def step (s : Scan) (p : Char × Nat) : Option Scan :=
  if 0 < s.depth then
    let depth := Text.nest s.depth p.1
    some { s.keep p with depth, isOpen := s.isOpen && depth != 0 }
  else if s.inComment then
    some (if p.1 = '\n' then newline { s with inComment := false } else s)
  else
    match p.1 with
    | ' ' | '\t' | '\r' => some s
    | '#' => some { s with inComment := true }
    | '\n' => some s.newline
    | ';' => if s.isOpen then none else some s.flush
    | '{' => some { s.keep p with depth := 1 }
    | '}' => none
    | c => some { s.keep p with isOpen := isContinuation c }

/-- Scans characters in turn, up to the first fault. -/
def run (s : Scan) (chars : List (Char × Nat)) : Option Scan :=
  chars.foldlM step s

/-- The statements at the end of a text; nothing if a brace is open. -/
def finish (s : Scan) : Option (List Statement) :=
  if 0 < s.depth then none else some s.flush.complete

/-- The statements of a text that starts at byte `start` of the source; nothing if there is a
    fault. -/
def ofText (start : Nat) (cs : List Char) : Option (List Statement) :=
  (run {} (locate start cs)).bind finish

@[simp] theorem run_nil (s : Scan) : s.run [] = some s := rfl

theorem run_cons (s : Scan) (p : Char × Nat) (chars : List (Char × Nat)) :
    s.run (p :: chars) = (s.step p).bind fun t => t.run chars := rfl

theorem run_append (s : Scan) (chars more : List (Char × Nat)) :
    s.run (chars ++ more) = (s.run chars).bind fun t => t.run more :=
  List.foldlM_append

end Scan

theorem Statement.locate_append (start : Nat) (cs ds : List Char) :
    locate start (cs ++ ds) = locate start cs ++ locate (start + Text.byteSize cs) ds := by
  induction cs generalizing start with
  | nil => rfl
  | cons c cs ih => simp [locate, ih, Nat.add_assoc]

@[simp] theorem Statement.map_fst_locate (start : Nat) (cs : List Char) :
    (locate start cs).map Prod.fst = cs := by
  induction cs generalizing start with
  | nil => rfl
  | cons c cs ih => simp [locate, ih]

/-! ## First tokens -/

/-- The characters of words, one by one. -/
theorem Token.isWordChar_iff {c : Char} :
    isWordChar c = true ↔ c ≠ ' ' ∧ c ≠ '\t' ∧ c ≠ '\r' ∧ c ≠ '\n' ∧ c ≠ '#' ∧ c ≠ ';' ∧
      c ≠ '{' ∧ c ≠ '}' := by
  simp [isWordChar, isGap, and_assoc]

/-- What a token is, by its kind, its text and the text behind it. -/
inductive Token.Lexeme : Kind → List Char → List Char → Prop
  | blank {text after : List Char} : (∀ c ∈ text, isGap c = true) → Lexeme .blank text after
  | comment {body after : List Char} : (∀ c ∈ body, c ≠ '\n') → (∀ c ∈ after.head?, c = '\n') →
      Lexeme .comment ('#' :: body) after
  | newline {after : List Char} : Lexeme .newline ['\n'] after
  | semicolon {after : List Char} : Lexeme .semicolon [';'] after
  | block {block after : List Char} : Text.closing 1 (block ++ after) = some (block, after) →
      Lexeme .block ('{' :: block) after
  | strayBrace {after : List Char} : Lexeme .strayBrace ['}'] after
  | word {text after : List Char} : text ≠ [] → (∀ c ∈ text, isWordChar c = true) →
      Lexeme .word text after

/-- The first token of a text is a token, and the text goes on behind it. -/
theorem Token.lexeme_of_first? {c : Char} {rest text after : List Char} {kind : Kind}
    (h : first? c rest = some (kind, text, after)) :
    c :: rest = text ++ after ∧ Lexeme kind text after := by
  have hsplit (p : Char → Bool) : c :: rest = c :: rest.takeWhile p ++ rest.dropWhile p := by
    rw [List.cons_append, List.takeWhile_append_dropWhile]
  unfold first? at h
  split at h
  case h_1 =>
    cases h
    refine ⟨hsplit _, .comment (fun x hx => ?_) fun x hx => ?_⟩
    · simpa using List.all_eq_true.1 (List.all_takeWhile (p := (· != '\n'))) x hx
    · have := List.head?_dropWhile_not (· != '\n') rest
      rw [Option.mem_def.1 hx] at this
      simpa using this
  case h_2 =>
    cases h
    exact ⟨rfl, .newline⟩
  case h_3 =>
    cases h
    exact ⟨rfl, .semicolon⟩
  case h_4 =>
    rw [Text.unit?, Text.closing, if_neg (by decide), Option.map_map] at h
    obtain ⟨⟨block, after⟩, hclosing, heq⟩ := Option.map_eq_some_iff.1 h
    cases heq
    obtain rfl := Text.append_of_closing hclosing
    exact ⟨rfl, .block hclosing⟩
  case h_5 =>
    cases h
    exact ⟨rfl, .strayBrace⟩
  case h_6 h₁ h₂ h₃ h₄ h₅ =>
    split at h
    case isTrue hgap =>
      cases h
      refine ⟨hsplit _, .blank fun x hx => ?_⟩
      rcases List.mem_cons.1 hx with rfl | hx
      · exact hgap
      · exact List.all_eq_true.1 List.all_takeWhile x hx
    case isFalse hgap =>
      cases h
      refine ⟨hsplit _, .word (List.cons_ne_nil _ _) fun x hx => ?_⟩
      rcases List.mem_cons.1 hx with rfl | hx
      · simp [isWordChar, hgap]
        exact ⟨⟨⟨⟨h₂, h₁⟩, h₃⟩, h₄⟩, h₅⟩
      · exact List.all_eq_true.1 List.all_takeWhile x hx

/-- Only a brace that is never closed starts no token. -/
theorem Token.closing_of_first?_eq_none {c : Char} {rest : List Char} (h : first? c rest = none) :
    c = '{' ∧ Text.closing 1 rest = none := by
  unfold first? at h
  split at h
  case h_4 =>
    rw [Option.map_eq_none_iff, Text.unit?, Text.closing, if_neg (by decide),
      Option.map_eq_none_iff] at h
    exact ⟨rfl, h⟩
  case h_6 => split at h <;> cases h
  all_goals cases h

/-! ## Runs over tokens -/

namespace Scan

open Statement (locate isContinuation)

/-- Whether a statement that ends with `cs` is open; without `cs` it is so iff it was before. -/
def openBehind (isOpen : Bool) (cs : List Char) : Bool :=
  (cs.getLast?.map isContinuation).getD isOpen

theorem openBehind_cons (isOpen : Bool) (c : Char) (cs : List Char) :
    openBehind isOpen (c :: cs) = openBehind (isContinuation c) cs := by
  cases cs with
  | nil => rfl
  | cons d cs => simp [openBehind, List.getLast?_cons]

theorem openBehind_eq_any (isOpen : Bool) {cs : List Char} (h : cs ≠ []) :
    openBehind isOpen cs = cs.getLast?.any isContinuation := by
  rw [openBehind, List.getLast?_eq_some_getLast h]
  rfl

variable {complete : List Statement} {s : Statement} {isOpen : Bool} {start : Nat}
  {cs : List Char}

/-- A scan passes over blanks. -/
theorem run_blank (h : ∀ c ∈ cs, Token.isGap c = true) :
    run { complete, current := s, isOpen } (locate start cs) =
      some { complete, current := s, isOpen } := by
  induction cs generalizing start with
  | nil => rfl
  | cons c cs ih =>
    have hc : c = ' ' ∨ c = '\t' ∨ c = '\r' := by
      simpa [Token.isGap, or_assoc] using h c List.mem_cons_self
    rw [locate, run_cons]
    rcases hc with rfl | rfl | rfl <;> exact ih fun c hc => h c (List.mem_cons_of_mem _ hc)

/-- A scan passes over the characters of a comment. -/
theorem run_comment (h : ∀ c ∈ cs, c ≠ '\n') :
    run { complete, current := s, inComment := true, isOpen } (locate start cs) =
      some { complete, current := s, inComment := true, isOpen } := by
  induction cs generalizing start with
  | nil => rfl
  | cons c cs ih =>
    rw [locate, run_cons, step, if_neg (Nat.lt_irrefl 0), if_pos rfl,
      if_neg (h c List.mem_cons_self)]
    exact ih fun c hc => h c (List.mem_cons_of_mem _ hc)

/-- A `#` and the characters behind it lead into a comment. -/
theorem run_hash (h : ∀ c ∈ cs, c ≠ '\n') :
    run { complete, current := s, isOpen } (locate start ('#' :: cs)) =
      some { complete, current := s, inComment := true, isOpen } :=
  run_comment h

/-- A comment is over at the end of its line. -/
theorem run_inComment (h : ∀ c ∈ cs.head?, c = '\n') :
    (run { complete, current := s, inComment := true, isOpen } (locate start cs)).bind finish =
      (run { complete, current := s, isOpen } (locate start cs)).bind finish := by
  cases cs with
  | nil => rfl
  | cons c cs =>
    obtain rfl : c = '\n' := h c rfl
    rfl

theorem step_word {c : Char} (h : Token.isWordChar c = true) :
    step { complete, current := s, isOpen } (c, start) =
      some { complete, current := ⟨s.chars ++ [(c, start)]⟩, isOpen := isContinuation c } := by
  obtain ⟨h₁, h₂, h₃, h₄, h₅, h₆, h₇, h₈⟩ := Token.isWordChar_iff.1 h
  rw [step, if_neg (Nat.lt_irrefl 0), if_neg Bool.false_ne_true]
  split <;> first | contradiction | rfl

/-- A scan keeps the characters of a word. -/
theorem run_word (h : ∀ c ∈ cs, Token.isWordChar c = true) :
    run { complete, current := s, isOpen } (locate start cs) =
      some { complete, current := ⟨s.chars ++ locate start cs⟩,
             isOpen := openBehind isOpen cs } := by
  induction cs generalizing s isOpen start with
  | nil => simp [locate, openBehind]
  | cons c cs ih =>
    rw [locate, run_cons, step_word (h c List.mem_cons_self), Option.bind_some,
      ih fun c hc => h c (List.mem_cons_of_mem _ hc), openBehind_cons, List.append_assoc,
      List.singleton_append]

/-- Inside of braces a scan keeps every character, up to the brace that leads to depth zero. -/
theorem run_closing {d : Nat} {block after : List Char} (hd : 0 < d)
    (h : Text.closing d cs = some (block, after)) :
    run { complete, current := s, depth := d, isOpen } (locate start block) =
      some { complete, current := ⟨s.chars ++ locate start block⟩ } := by
  induction cs generalizing d block s isOpen start with
  | nil => cases h
  | cons c rest ih =>
    rw [Text.closing] at h
    split at h
    case isTrue h0 =>
      cases h
      rw [locate, run_cons, step, if_pos hd, Option.bind_some, h0]
      simp [keep, locate]
    case isFalse h0 =>
      obtain ⟨⟨block', after'⟩, h', heq⟩ := Option.map_eq_some_iff.1 h
      cases heq
      rw [locate, run_cons, step, if_pos hd, Option.bind_some]
      simp only [keep]
      rw [ih (Nat.pos_of_ne_zero h0) h', List.append_assoc, List.singleton_append]

/-- A scan keeps a block, which closes what was open. -/
theorem run_block {block after : List Char}
    (h : Text.closing 1 (block ++ after) = some (block, after)) :
    run { complete, current := s, isOpen } (locate start ('{' :: block)) =
      some { complete, current := ⟨s.chars ++ locate start ('{' :: block)⟩ } := by
  refine (run_closing (d := 1) Nat.one_pos h).trans ?_
  simp [keep, locate]

/-- Behind a brace that is never closed a scan finds no fault, but the depth stays above zero. -/
theorem run_of_closing_eq_none {d : Nat} (hd : 0 < d) (h : Text.closing d cs = none) :
    (run { complete, current := s, depth := d, isOpen } (locate start cs)).bind finish = none := by
  induction cs generalizing d s isOpen start with
  | nil => exact if_pos hd
  | cons c rest ih =>
    rw [Text.closing] at h
    split at h
    case isTrue => cases h
    case isFalse h0 =>
      rw [locate, run_cons, step, if_pos hd, Option.bind_some]
      exact ih (Nat.pos_of_ne_zero h0) (Option.map_eq_none_iff.1 h)

/-! ## The scan and the tokens -/

/-- Statements found in the rest of a text, with the ones found before. -/
theorem toOption_bind_map (tokens : Except Finding (List Token))
    (f : List Token → Except Finding (List Statement)) (complete more : List Statement) :
    (tokens.bind fun ts => (f ts).map (more ++ ·)).toOption.map (complete ++ ·) =
      (tokens.bind f).toOption.map (complete ++ more ++ ·) := by
  cases tokens with
  | error => rfl
  | ok ts =>
    rw [Except.bind, Except.bind]
    cases f ts with
    | error => rfl
    | ok statements => exact congrArg some (List.append_assoc ..).symm

/-- From any statement in progress, the scan and the tokens of the rest of a text find the same
    statements. -/
theorem run_eq_ofTokens (complete : List Statement) (s : Statement) (isOpen : Bool) (start : Nat)
    (cs : List Char) :
    (run { complete, current := s, isOpen } (locate start cs)).bind finish =
      ((Token.ofText start cs).bind (Statement.ofTokens s isOpen)).toOption.map
        (complete ++ ·) := by
  -- By induction along the tokens: a token leaves the scan in the state that the layout is in.
  fun_induction Token.ofText start cs generalizing complete s isOpen with
  | case1 start => rfl
  | case2 start c rest hnone =>
    obtain ⟨rfl, hclosing⟩ := Token.closing_of_first?_eq_none hnone
    exact run_of_closing_eq_none (d := 1) Nat.one_pos hclosing
  | case3 start c rest kind text after hfirst ih =>
    obtain ⟨htext, hlexeme⟩ := Token.lexeme_of_first? hfirst
    rw [htext, Statement.locate_append, run_append, Option.bind_assoc]
    -- The tokenizer's first token is the layout's first token, whatever comes behind it.
    have htokens (f : List Token → Except Finding (List Statement)) :
        (do let tokens ← Token.ofText (start + Text.byteSize text) after
            return Token.mk kind text start :: tokens : Except Finding (List Token)).bind f =
          (Token.ofText (start + Text.byteSize text) after).bind fun tokens =>
            f (⟨kind, text, start⟩ :: tokens) := by
      cases Token.ofText (start + Text.byteSize text) after <;> rfl
    rw [htokens]
    cases hlexeme with
    | blank h =>
      rw [run_blank h]
      exact ih complete s isOpen
    | comment h hafter =>
      rw [run_hash h, Option.bind_some, run_inComment hafter]
      exact ih complete s isOpen
    | newline =>
      cases isOpen with
      | true => exact ih complete s true
      | false =>
        refine (ih (complete ++ s.finished) {} false).trans ?_
        exact (toOption_bind_map ..).symm
    | semicolon =>
      cases isOpen with
      | true => cases Token.ofText (start + Text.byteSize [';']) after <;> rfl
      | false =>
        refine (ih (complete ++ s.finished) {} false).trans ?_
        exact (toOption_bind_map ..).symm
    | block h =>
      rename_i block
      rw [run_block h]
      exact ih complete ⟨s.chars ++ locate start ('{' :: block)⟩ false
    | strayBrace => cases Token.ofText (start + Text.byteSize ['}']) after <;> rfl
    | word hne h =>
      rw [run_word h, openBehind_eq_any isOpen hne]
      exact ih complete ⟨s.chars ++ locate start text⟩ _

/-- The scan and the tokens find the same statements. -/
theorem toOption_ofSource (start : Nat) (cs : List Char) :
    (Statement.ofSource start cs).toOption = ofText start cs := by
  refine Eq.trans ?_ (run_eq_ofTokens [] {} false start cs).symm
  exact Option.map_id'.symm

/-- A scan gets through a text that has statements, to depth zero, and finds them. -/
theorem exists_run_of_ofSource {statements : List Statement}
    (h : Statement.ofSource start cs = .ok statements) :
    ∃ t, run {} (locate start cs) = some t ∧ t.depth = 0 ∧ t.flush.complete = statements := by
  have hscan : Scan.ofText start cs = some statements := by
    rw [← toOption_ofSource, h]
    rfl
  obtain ⟨t, hrun, hfinish⟩ := Option.bind_eq_some_iff.1 hscan
  rw [finish] at hfinish
  split at hfinish
  case isTrue => cases hfinish
  case isFalse hd => exact ⟨t, hrun, Nat.eq_zero_of_not_pos hd, Option.some.inj hfinish⟩

/-- A text has statements iff a scan of it finds no fault, and they are the ones that the scan
    finds. -/
theorem ofSource_eq_ok_iff_scan (start : Nat) (cs : List Char) (statements : List Statement) :
    Statement.ofSource start cs = .ok statements ↔ Scan.ofText start cs = some statements := by
  rw [← toOption_ofSource]
  cases Statement.ofSource start cs with
  | error => simp [Except.toOption]
  | ok found => simp [Except.toOption]

end Scan

end StructuralModel
