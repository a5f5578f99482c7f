import StructuralModel.Statement
import StructuralModel.Statement.Token

/-!
# From layout to statements

Statements are found in the tokens of a source text. Blanks and comments are dropped. A line break
ends a statement unless the statement is *open*: its last word ends with a character that asks for
more, such as the `+` of a sum. A semicolon ends a statement too, but an open statement may not end
there. Words and blocks are kept, character by character; a block is complete, so it never leaves a
statement open. The end of the text ends the last statement, open or not.

`Statement.ofSource` gives the statements of a source text, or the first fault.
-/

namespace StructuralModel

namespace Statement

/-- The characters behind which a statement goes on in the next line. -/
def isContinuation (c : Char) : Bool :=
  c == '+' || c == '*' || c == '=' || c == '~' || c == ':'

/-- A statement extended by a token. -/
def extend (s : Statement) (t : Token) : Statement :=
  ⟨s.chars ++ locate t.start t.text⟩

/-- The statement as a list: none if it has no characters. -/
def finished (s : Statement) : List Statement :=
  if s.chars.isEmpty then [] else [s]

/-- The statements of `tokens`, if `s` is the statement in progress and `isOpen` tells whether it
    is open. -/
def ofTokens (s : Statement) (isOpen : Bool) : List Token → Except Finding (List Statement)
  | [] => .ok s.finished
  | t :: tokens =>
    match t.kind with
    | .blank | .comment => ofTokens s isOpen tokens
    | .newline =>
      -- An open statement goes on in the next line.
      if isOpen then ofTokens s isOpen tokens
      else (ofTokens {} false tokens).map (s.finished ++ ·)
    | .semicolon =>
      if isOpen then .error (.danglingOperator t.span (s.span.union t.span))
      else (ofTokens {} false tokens).map (s.finished ++ ·)
    | .strayBrace => .error (.unmatchedBrace t.span)
    -- A block is complete, whatever character it ends with.
    | .block => ofTokens (s.extend t) false tokens
    | .word => ofTokens (s.extend t) (t.text.getLast?.any isContinuation) tokens

/-- The statements of a text that starts at byte `start` of the source. -/
def ofSource (start : Nat) (cs : List Char) : Except Finding (List Statement) := do
  ofTokens {} false (← Token.ofText start cs)

end Statement

end StructuralModel
