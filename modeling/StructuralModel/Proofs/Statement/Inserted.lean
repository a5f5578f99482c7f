import StructuralModel.Proofs.Statement.Joined

/-!
# Layout that makes no difference

The *outcome* of reading a text is what is found there, but not where: the texts of its statements,
or the code of its fault (`Statement.outcome`). At a place outside of braces and comments, layout
can be put into a text without a change of the outcome (`Inert`): blanks anywhere, a comment at the
end of a line, and a line break behind a statement that is open.

* `Statement.outcome_ofTokens_shift`: the outcome does not depend on where the tokens stand;
* `Inert.depth_behind_eq`: such layout does not change which braces are closed;
* `Inert.outcome_ofSource`: it does not change the outcome.
-/

namespace StructuralModel

open Text (byteSize)
open Statement (locate ofTokens ofSource)

/-! ## Outcomes -/

namespace Statement

/-- The texts of the statements that are found, or the code of the fault. -/
def outcome (found : Except Finding (List Statement)) :
    Except (Option Code) (List (List Char)) :=
  (found.mapError fun f => f.diagnostic.code).map (List.map text)

theorem outcome_map_append (statements : List Statement)
    (found : Except Finding (List Statement)) :
    outcome (found.map (statements ++ ·)) = (outcome found).map (statements.map text ++ ·) := by
  cases found with
  | error => rfl
  | ok more => exact congrArg Except.ok List.map_append

theorem map_text_finished {s s' : Statement} (h : s'.text = s.text) :
    s'.finished.map text = s.finished.map text := by
  have hempty (s : Statement) : s.chars.isEmpty = s.text.isEmpty := List.isEmpty_map.symm
  rw [finished, finished, hempty, hempty, h]
  split
  · rfl
  · rw [List.map_singleton, List.map_singleton, h]

theorem text_extend_shift {s s' : Statement} (h : s'.text = s.text) (n : Nat) (t : Token) :
    (s'.extend (t.shift n)).text = (s.extend t).text := by
  have htext (s : Statement) (t : Token) : (s.extend t).text = s.text ++ t.text := by
    rw [text, extend, List.map_append, map_fst_locate]
    rfl
  rw [htext, htext, h]
  rfl

/-- The outcome depends neither on the places of the tokens nor on those of what is in
    progress. -/
theorem outcome_ofTokens_shift (n : Nat) {s s' : Statement} (h : s'.text = s.text) (isOpen : Bool)
    (tokens : List Token) :
    outcome (ofTokens s' isOpen (tokens.map (Token.shift n))) =
      outcome (ofTokens s isOpen tokens) := by
  induction tokens generalizing s s' isOpen with
  | nil => exact congrArg Except.ok (map_text_finished h)
  | cons t tokens ih =>
    have hnew : outcome ((ofTokens {} false (tokens.map (Token.shift n))).map (s'.finished ++ ·)) =
        outcome ((ofTokens {} false tokens).map (s.finished ++ ·)) := by
      rw [outcome_map_append, outcome_map_append, ih rfl, map_text_finished h]
    rw [List.map_cons, ofTokens, ofTokens, show (t.shift n).kind = t.kind from rfl]
    split
    case h_1 | h_2 => exact ih h isOpen
    case h_3 =>
      split
      · exact ih h isOpen
      · exact hnew
    case h_4 =>
      split
      · rfl
      · exact hnew
    case h_5 => rfl
    case h_6 | h_7 => exact ih (text_extend_shift h n t) _

/-- The outcome of the rest of a text does not depend on where the rest stands. -/
theorem outcome_rest_add (statements : List Statement) (s : Statement) (isOpen : Bool)
    (n start : Nat) (rest : List Char) :
    outcome (((Token.ofText (start + n) rest).bind (ofTokens s isOpen)).map (statements ++ ·)) =
      outcome (((Token.ofText start rest).bind (ofTokens s isOpen)).map (statements ++ ·)) := by
  rw [outcome_map_append, outcome_map_append, Token.ofText_add]
  cases Token.ofText start rest with
  | error f =>
    show Except.error (f.shift n).diagnostic.code = Except.error f.diagnostic.code
    rw [Finding.diagnostic_shift]
    rfl
  | ok tokens => exact congrArg _ (outcome_ofTokens_shift n rfl isOpen tokens)

/-- If a brace is never closed, the braces of a text are at fault. -/
theorem outcome_of_depth_ne_zero (start : Nat) {cs : List Char}
    (h : (Context.behind cs).depth ≠ 0) :
    outcome (ofSource start cs) = .error (some .unbalancedBraces) := by
  obtain ⟨before, after, -, -, -, hsource⟩ := Scan.ofSource_of_depth_ne_zero start h
  rw [hsource]
  rfl

end Statement

/-- A scan that does not get through the front of a text meets the first fault there. -/
theorem Scan.firstFault?_append_of_run_eq_none {s : Scan} {chars : List (Char × Nat)}
    (brace : Nat) (h : s.run chars = none) (more : List (Char × Nat)) :
    s.firstFault? brace (chars ++ more) = s.firstFault? brace chars := by
  induction chars generalizing s brace with
  | nil => cases h
  | cons p chars ih =>
    rw [List.cons_append, firstFault?, firstFault?]
    cases hstep : s.step p with
    | none =>
      obtain ⟨f, hf⟩ := step_eq_none_iff.1 hstep
      rw [hf]
    | some t =>
      rw [run_cons, hstep, Option.bind_some] at h
      rw [faultAt?_of_step hstep, Option.bind_some, Option.bind_some, ih _ h]

/-! ## Inserted layout -/

/-- Layout that makes no difference between `before` and `after`. -/
inductive Inert (before after : List Char) : List Char → Prop
  /-- Spaces, tabs and carriage returns. -/
  | blank {blanks : List Char} : (∀ c ∈ blanks, Token.isGap c = true) → Inert before after blanks
  /-- A comment at the end of a line, or of the text. -/
  | comment {body : List Char} : (∀ c ∈ body, c ≠ '\n') → (∀ c ∈ after.head?, c = '\n') →
      Inert before after ('#' :: body)
  /-- A line break behind a statement that is open. -/
  | newline : (Context.behind before).isOpen = true → Inert before after ['\n']

namespace Inert

open Statement (outcome)

variable {before after layout : List Char}

/-- At the top, layout does not change how many braces are open in the end. -/
theorem depth_behind_eq (htop : (Context.behind before).IsTop) (h : Inert before after layout) :
    (Context.behind (before ++ layout ++ after)).depth =
      (Context.behind (before ++ after)).depth := by
  have hbehind (cs : List Char) :
      Context.behind (before ++ cs) = (Context.behind before).run cs := Context.run_append ..
  rw [List.append_assoc, hbehind, hbehind, Context.run_append]
  generalize Context.behind before = k at htop
  have hstep {c : Char} (hc : Token.isGap c = true ∨ c = '\n') : k.step c = k := by
    have hhash : c ≠ '#' := by
      rintro rfl
      revert hc
      decide
    rw [htop.step_eq, if_neg hhash, if_pos (by simpa using hc)]
  cases h with
  | blank hblanks =>
    have hrun : k.run layout = k := by
      induction layout with
      | nil => rfl
      | cons c layout ih =>
        obtain ⟨hc, hlayout⟩ := List.forall_mem_cons.1 hblanks
        rw [Context.run_cons, hstep (.inl hc), ih hlayout]
    rw [hrun]
  | @comment body hbody hafter =>
    have hrun : k.run ('#' :: body) = { k with inComment := true } := by
      rw [Context.run_cons, htop.step_eq, if_pos rfl]
      exact Context.run_comment (k := { k with inComment := true }) htop.1 rfl hbody
    rw [hrun]
    cases after with
    | nil => rfl
    | cons c after =>
      obtain rfl : c = '\n' := hafter c rfl
      rw [htop.run_newline]
  | newline => rw [Context.run_cons, hstep (.inr rfl), Context.run_nil]

/-- If a scan gets to a place, layout there does not change the outcome. -/
theorem outcome_ofSource_of_run {start : Nat} {statements : List Statement} {current : Statement}
    {isOpen : Bool} (h : Inert before after layout)
    (hrun : Scan.run {} (locate start before) = some { complete := statements, current, isOpen }) :
    outcome (ofSource start (before ++ layout ++ after)) =
      outcome (ofSource start (before ++ after)) := by
  -- Blanks and the line break leave a scan as it is.
  have hpass (hlayout : Scan.run { complete := statements, current, isOpen }
      (locate (start + byteSize before) layout) =
        some { complete := statements, current, isOpen }) :
      outcome (ofSource start (before ++ layout ++ after)) =
        outcome (ofSource start (before ++ after)) := by
    have hboth : Scan.run {} (locate start (before ++ layout)) =
        some { complete := statements, current, isOpen } := by
      rw [Statement.locate_append, Scan.run_append, hrun]
      exact hlayout
    rw [Statement.ofSource_append hboth, Statement.ofSource_append hrun, Text.byteSize_append,
      ← Nat.add_assoc, Statement.outcome_rest_add]
  cases h with
  | blank hblanks => exact hpass (Scan.run_blank hblanks)
  | newline hopen =>
    rw [← Scan.context_of_run_locate hrun] at hopen
    obtain rfl : isOpen = true := (Bool.and_eq_true_iff.1 hopen).1
    exact hpass rfl
  | @comment body hbody hafter =>
    -- A comment is a token of its own, and is dropped.
    have hfirst : Token.first? '#' (body ++ after) = some (.comment, '#' :: body, after) := by
      have hpos : ∀ c ∈ body, (c != '\n') = true := fun c hc => bne_iff_ne.2 (hbody c hc)
      have hend : after.takeWhile (· != '\n') = [] ∧ after.dropWhile (· != '\n') = after := by
        cases after with
        | nil => exact ⟨rfl, rfl⟩
        | cons c after =>
          obtain rfl : c = '\n' := hafter c rfl
          exact ⟨rfl, rfl⟩
      rw [Token.first?, Token.stretch, List.takeWhile_append_of_pos hpos,
        List.dropWhile_append_of_pos hpos, hend.1, hend.2, List.append_nil]
    have hdrop (tokens : Except Finding (List Token)) (t : Token) (ht : t.kind = .comment) :
        (tokens.map (t :: ·)).bind (ofTokens current isOpen) =
          tokens.bind (ofTokens current isOpen) := by
      obtain ⟨_, text, i⟩ := t
      obtain rfl := ht
      cases tokens <;> rfl
    rw [List.append_assoc, Statement.ofSource_append hrun, Statement.ofSource_append hrun,
      List.cons_append, Token.ofText_of_first? hfirst, hdrop _ _ rfl, Statement.outcome_rest_add]

/-- At a place outside of braces and comments, layout does not change the outcome: neither whether
    the text has statements, nor the texts of these, nor the code of the fault. -/
theorem outcome_ofSource (htop : (Context.behind before).IsTop) (h : Inert before after layout)
    (start : Nat) :
    outcome (ofSource start (before ++ layout ++ after)) =
      outcome (ofSource start (before ++ after)) := by
  cases hrun : Scan.run {} (locate start before) with
  | some t =>
    obtain ⟨complete, current, depth, inComment, isOpen⟩ := t
    rw [← Scan.context_of_run_locate hrun] at htop
    obtain ⟨rfl, rfl⟩ : depth = 0 ∧ inComment = false := htop
    exact h.outcome_ofSource_of_run hrun
  | none =>
    by_cases hdepth : (Context.behind (before ++ after)).depth = 0
    case neg =>
      rw [Statement.outcome_of_depth_ne_zero start hdepth,
        Statement.outcome_of_depth_ne_zero start ((h.depth_behind_eq htop).symm ▸ hdepth)]
    case pos =>
      -- The first fault of both texts is the one in front of the layout.
      have hfault (rest : List Char) (h0 : (Context.behind (before ++ rest)).depth = 0) :
          faultOf? (ofSource start (before ++ rest)) =
            Scan.firstFault? {} 0 (locate start before) := by
        rw [← Scan.firstFault?_ofSource h0, Statement.locate_append,
          Scan.firstFault?_append_of_run_eq_none 0 hrun]
      obtain ⟨_, _, _, _, f, -, -, -, hfirst⟩ := Scan.exists_faultAt?_of_run 0 hrun
      have hlayout := hfault (layout ++ after)
        (by rw [← List.append_assoc, h.depth_behind_eq htop, hdepth])
      rw [hfirst, faultOf?_eq_some_iff, ← List.append_assoc] at hlayout
      have hplain := hfault after hdepth
      rw [hfirst, faultOf?_eq_some_iff] at hplain
      rw [hlayout, hplain]

/-- Blanks in a word, a comment with a brace in front of a fault, and a line break in a sum. -/
theorem outcome_ofSource_everywhere :
    outcome (ofSource 0 ("f =~ a".toList ++ [' ', '\t', '\r'] ++ "b".toList)) =
        outcome (ofSource 0 ("f =~ a".toList ++ "b".toList)) ∧
      outcome (ofSource 0 ("f =~ a".toList ++ ['#', '\x7b'] ++ ['\n', '\x7d'])) =
        outcome (ofSource 0 ("f =~ a".toList ++ ['\n', '\x7d'])) ∧
      outcome (ofSource 0 ("f =~ a +".toList ++ ['\n'] ++ "b".toList)) =
        outcome (ofSource 0 ("f =~ a +".toList ++ "b".toList)) := by
  refine ⟨outcome_ofSource (by decide) (.blank (List.all_eq_true.1 (by decide))) 0, ?_, ?_⟩
  · exact outcome_ofSource (by decide) (.comment (by simp) (by simp)) 0
  · exact outcome_ofSource (by decide) (.newline (by decide)) 0

end Inert

end StructuralModel
