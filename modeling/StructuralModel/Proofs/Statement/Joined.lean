import StructuralModel.Proofs.Statement.Fault
import StructuralModel.Proofs.Statement.Lines
import StructuralModel.Proofs.Statement.Shifted

/-!
# Texts one behind the other

A source is read from left to right. If a scan gets through the front of it to a place outside of
braces and comments, the rest is read with what is in progress there (`Statement.ofSource_append`).
A *break* is a text that ends the statement in progress, if it is not open (`Statement.IsBreak`): a
line break is one, and so is a semicolon with a line break behind it. Behind a break nothing is in
progress, and the rest is read as it is on its own.

* `Statement.ofSource_append_newline`: the statements of two texts with a line break between them;
* `Statement.ofSource_intercalate`: the statements of a source, put together again.
-/

namespace StructuralModel

open Text (byteSize)
open Statement (locate)

/-! ## Braces that are never closed -/

namespace Context

variable {before before' after after' : List Char}

/-- There is no brace at the top behind one that is never closed. -/
theorem Unclosed.eq_nil_of_append {block : List Char} (h : Unclosed before after)
    (h' : Unclosed before' after') (hbefore : before' = before ++ block)
    (hafter : '{' :: after = block ++ '{' :: after') : block = [] := by
  cases block with
  | nil => rfl
  | cons c block =>
    obtain ⟨rfl, htail⟩ := List.cons.inj hafter
    exact absurd (hbefore ▸ h'.isTop.1) (h.depth_ne_zero block _ htail)

/-- At most one brace at the top is never closed. -/
theorem Unclosed.unique (h : Unclosed before after) (h' : Unclosed before' after')
    (heq : before ++ '{' :: after = before' ++ '{' :: after') : before = before' := by
  obtain ⟨block, hbefore, hafter⟩ | ⟨block, hbefore, hafter⟩ := List.append_eq_append_iff.1 heq
  · rw [hbefore, h.eq_nil_of_append h' hbefore hafter, List.append_nil]
  · rw [hbefore, h'.eq_nil_of_append h hbefore hafter, List.append_nil]

end Context

/-! ## The rest of a text -/

/-- A result is told by its value and its fault. -/
theorem eq_of_faultOf?_eq {α : Type} {x y : Except Finding α} (hfault : faultOf? x = faultOf? y)
    (hvalue : x.toOption = y.toOption) : x = y := by
  cases x with
  | ok a =>
    cases y with
    | ok b => exact congrArg Except.ok (Option.some.inj hvalue)
    | error => cases hvalue
  | error f =>
    cases y with
    | ok => cases hvalue
    | error g => exact congrArg Except.error (Option.some.inj hfault)

namespace Statement

variable {start : Nat} {front rest : List Char} {statements : List Statement}

/-- Behind a part of a text that a scan gets through, the text is read on with what is in
    progress. -/
theorem ofSource_append {current : Statement} {isOpen : Bool}
    (h : Scan.run {} (locate start front) = some { complete := statements, current, isOpen })
    (rest : List Char) :
    ofSource start (front ++ rest) =
      ((Token.ofText (start + byteSize front) rest).bind (ofTokens current isOpen)).map
        (statements ++ ·) := by
  have htop : (Context.behind front).IsTop := Scan.context_of_run_locate h ▸ ⟨rfl, rfl⟩
  have hbraces := Token.bracesOf_ofText htop (start + byteSize front) rest
  have hbehind : Context.behind (front ++ rest) = (Context.behind front).run rest :=
    Context.run_append ..
  cases htokens : Token.ofText (start + byteSize front) rest with
  | ok tokens =>
    rw [htokens] at hbraces
    refine eq_of_faultOf?_eq ?_ ?_
    · rw [← Scan.firstFault?_ofSource (hbehind ▸ hbraces), locate_append,
        Scan.firstFault?_append 0 h rfl,
        Scan.firstFault?_ofText statements current isOpen 0 htokens, faultOf?_map]
      rfl
    · rw [Scan.toOption_ofSource, Scan.ofText, locate_append, Scan.run_append, h,
        Option.bind_some, Scan.run_eq_ofTokens, htokens]
      show (ofTokens current isOpen tokens).toOption.map _ = ((ofTokens ..).map _).toOption
      cases ofTokens current isOpen tokens <;> rfl
  | error f =>
    -- The brace at fault in the rest is the one at fault in the whole text.
    rw [htokens] at hbraces
    obtain ⟨before, after, rfl, hbefore, hclosing, rfl⟩ := hbraces
    have hboth : (Context.behind (front ++ before)).IsTop := by
      rwa [Context.behind, Context.run_append]
    have hunclosed : Context.Unclosed (front ++ before) after := .of_closing hboth hclosing
    have hdepth := hunclosed.depth_ne_zero after [] (List.append_nil after).symm
    rw [List.append_assoc] at hdepth
    obtain ⟨before', after', heq, htop', hclosing', hsource⟩ :=
      Scan.ofSource_of_depth_ne_zero start hdepth
    rw [← List.append_assoc] at heq
    obtain rfl := hunclosed.unique (.of_closing htop' hclosing') heq
    rw [hsource, Text.byteSize_append, ← Nat.add_assoc]
    rfl

/-- Where nothing is in progress, the rest of a text is read as it is on its own. -/
theorem ofSource_append_of_run
    (h : Scan.run {} (locate start front) = some { complete := statements }) (rest : List Char) :
    ofSource start (front ++ rest) =
      (ofSource (start + byteSize front) rest).map (statements ++ ·) :=
  ofSource_append h rest

/-! ## Breaks -/

/-- A text that ends the statement in progress, if it is not open. -/
def IsBreak (cs : List Char) : Prop :=
  ∀ (complete : List Statement) (s : Statement) (start : Nat),
    Scan.run { complete, current := s } (locate start cs) =
      some { complete := complete ++ s.finished }

theorem isBreak_newline : IsBreak ['\n'] := fun _ _ _ => rfl

theorem isBreak_semicolon : IsBreak [';', '\n'] := by
  intro complete s start
  show some ({ complete := complete ++ s.finished ++ [] } : Scan) = _
  rw [List.append_nil]

/-- Behind the line break after a text whose last statement does not end open, nothing is in
    progress. -/
theorem run_append_newline (h : ofSource start front = .ok statements)
    (hclosed : ∀ s ∈ statements.getLast?, endsOpen s.text = false) :
    Scan.run {} (locate start (front ++ ['\n'])) = some { complete := statements } := by
  obtain ⟨⟨complete, current, depth, inComment, isOpen⟩, hrun, hdepth, rfl⟩ :=
    Scan.exists_run_of_ofSource h
  obtain rfl : depth = 0 := hdepth
  -- If the scan ends open, the statement in progress is the last one, and ends open.
  have hopen : isOpen = endsOpen current.text := (Scan.good_empty.run hrun).isOpen rfl
  obtain rfl : isOpen = false := by
    rw [hopen]
    cases hchars : current.chars with
    | nil => rw [text, hchars]; rfl
    | cons p chars => exact hclosed current (by simp [Scan.flush, finished, hchars])
  rw [locate_append, Scan.run_append, hrun]
  cases inComment <;> rfl

/-- What is read of two texts with a line break between them, if the last statement of the first
    one does not end open: the statements of both, or the fault of the second one. What comes from
    the second one is shifted by the bytes in front of it. -/
theorem ofSource_append_newline (h : ofSource start front = .ok statements)
    (hclosed : ∀ s ∈ statements.getLast?, endsOpen s.text = false) (rest : List Char) :
    match ofSource start rest with
    | .ok more => ofSource start (front ++ '\n' :: rest) =
        .ok (statements ++ more.map (shift (byteSize front + 1)))
    | .error f => ∃ g, ofSource start (front ++ '\n' :: rest) = .error g ∧
        g.diagnostic = f.diagnostic.shift (byteSize front + 1) := by
  have hrest := ofSource_append_of_run (run_append_newline h hclosed) rest
  rw [List.append_assoc, List.singleton_append, Text.byteSize_append,
    show byteSize ['\n'] = 1 from rfl, ofSource_add] at hrest
  rw [hrest]
  cases ofSource start rest with
  | ok more => rfl
  | error f => exact ⟨_, rfl, Finding.diagnostic_shift _ f⟩

/-- Behind a block and a comment, a semicolon that ends an open statement is at fault as it is on its
    own. -/
theorem ofSource_append_newline_dangling :
    ∃ s, ofSource 0 "ü ~ \x7b~\x7d # é".toList = .ok [s] ∧ endsOpen s.text = false ∧
      ofSource 0 "y ~;".toList = .error (.danglingOperator (.ofBounds 3 4) (.ofBounds 0 4)) ∧
      ∃ g, ofSource 0 ("ü ~ \x7b~\x7d # é".toList ++ '\n' :: "y ~;".toList) = .error g ∧
        g.diagnostic =
          (Finding.danglingOperator (.ofBounds 3 4) (.ofBounds 0 4)).diagnostic.shift 14 := by
  have hfront : ofSource 0 "ü ~ \x7b~\x7d # é".toList =
      .ok [⟨[('ü', 0), ('~', 3), ('\x7b', 5), ('~', 6), ('\x7d', 7)]⟩] := by decide +kernel
  have hrest : ofSource 0 "y ~;".toList =
      .error (.danglingOperator (.ofBounds 3 4) (.ofBounds 0 4)) := by decide +kernel
  have h := ofSource_append_newline hfront (by decide) "y ~;".toList
  rw [hrest] at h
  exact ⟨_, hfront, by decide, hrest, h⟩

/-! ## Statements put together again -/

/-- A scan keeps all of a compact text. -/
theorem run_of_compact {cs : List Char} (h : Compact cs) (hne : cs ≠ []) (start : Nat) :
    Scan.run {} (locate start cs) =
      some { current := ⟨locate start cs⟩, isOpen := endsOpen cs } := by
  rw [← Scan.openBehind_of_ne_nil false hne]
  exact Scan.run_compact h.balanced h.words

/-- Compact texts with breaks between them are read as they are, if no text but the last one ends
    open. -/
theorem exists_ofSource_intercalate {separator : List Char} (hbreak : IsBreak separator)
    {texts : List (List Char)} (h : ∀ cs ∈ texts, cs ≠ [] ∧ Compact cs)
    (hclosed : ∀ cs ∈ texts.dropLast, endsOpen cs = false) (start : Nat) :
    ∃ statements, ofSource start (separator.intercalate texts) = .ok statements ∧
      statements.map text = texts := by
  induction texts generalizing start with
  | nil =>
    refine ⟨[], ?_, rfl⟩
    rw [List.intercalate_nil, ofSource, Token.ofText]
    rfl
  | cons cs texts ih =>
    obtain ⟨⟨hne, hcompact⟩, hrest⟩ := List.forall_mem_cons.1 h
    have hrun := run_of_compact hcompact hne start
    have hfinished : finished ⟨locate start cs⟩ = [⟨locate start cs⟩] := by
      obtain ⟨c, cs, rfl⟩ := List.exists_cons_of_ne_nil hne
      rfl
    cases texts with
    | nil =>
      refine ⟨[⟨locate start cs⟩], ?_, ?_⟩
      · have hlast := ofSource_append hrun []
        rw [List.append_nil, Token.ofText] at hlast
        rw [List.intercalate_singleton, hlast, ← hfinished]
        rfl
      · rw [List.map_singleton, text, map_fst_locate]
    | cons next texts =>
      have hopen : endsOpen cs = false := hclosed cs List.mem_cons_self
      rw [hopen] at hrun
      have hfresh : Scan.run {} (locate start (cs ++ separator)) =
          some { complete := [⟨locate start cs⟩] } := by
        rw [locate_append, Scan.run_append, hrun, Option.bind_some, hbreak, hfinished]
        rfl
      obtain ⟨statements, hstatements, htexts⟩ :=
        ih hrest (fun ds hds => hclosed ds (List.mem_cons_of_mem _ hds))
          (start + byteSize (cs ++ separator))
      refine ⟨⟨locate start cs⟩ :: statements, ?_, ?_⟩
      · rw [List.intercalate_cons_cons, ofSource_append_of_run hfresh, hstatements]
        rfl
      · rw [List.map_cons, htexts, text, map_fst_locate]

/-- The statements of a source, one in a line, with or without semicolons between them, are read as
    the same statements again. -/
theorem ofSource_intercalate {cs separator : List Char} (h : ofSource start cs = .ok statements)
    (hseparator : separator = ['\n'] ∨ separator = [';', '\n']) (start' : Nat) :
    ∃ again, ofSource start' (separator.intercalate (statements.map text)) = .ok again ∧
      again.map text = statements.map text := by
  have hbreak : IsBreak separator := by
    rcases hseparator with rfl | rfl
    · exact isBreak_newline
    · exact isBreak_semicolon
  obtain ⟨hcompact, hclosed⟩ := compact_of_ofSource h
  refine exists_ofSource_intercalate hbreak (List.forall_mem_map.2 hcompact) ?_ start'
  rw [← List.map_dropLast]
  exact List.forall_mem_map.2 hclosed

/-- A block of two lines in the middle of a statement, and a statement that is open at the end. -/
theorem ofSource_intercalate_twoLines :
    ∃ statements, ofSource 0 "f =~ x +\n \x7b#\n;\x7d*y ; z ~".toList = .ok statements ∧
      statements.map render = ["f=~x+\x7b#\n;\x7d*y", "z~"] ∧
      ∃ again, ofSource 0 ([';', '\n'].intercalate (statements.map text)) = .ok again ∧
        again.map text = statements.map text := by
  have h : ofSource 0 "f =~ x +\n \x7b#\n;\x7d*y ; z ~".toList =
      .ok [⟨[('f', 0), ('=', 2), ('~', 3), ('x', 5), ('+', 7), ('\x7b', 10), ('#', 11), ('\n', 12),
        (';', 13), ('\x7d', 14), ('*', 15), ('y', 16)]⟩, ⟨[('z', 20), ('~', 22)]⟩] := by
    decide +kernel
  exact ⟨_, h, by decide, ofSource_intercalate h (.inr rfl) 0⟩

end Statement

end StructuralModel
