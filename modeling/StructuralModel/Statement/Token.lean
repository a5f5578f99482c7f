import StructuralModel.Diagnostic.Finding
import StructuralModel.Text.Basic
import StructuralModel.Text.Braces

/-!
# Tokens

A source text is a run of tokens that follow one another without gap: stretches of blanks,
comments, line breaks, semicolons, blocks in braces, closing braces without partner, and words,
which are stretches of all other characters. Comments and blocks are tokens as a whole, so nothing
later looks into them.

A text has tokens unless some block is never closed (`Token.ofText`). That fault outranks every
other one: it is found before any token is used.
-/

namespace StructuralModel

namespace Token

/-- What a token is. -/
inductive Kind where
  /-- Spaces, tabs and carriage returns. -/
  | blank
  /-- A `#` and the rest of its line. -/
  | comment
  /-- A line break. -/
  | newline
  /-- A semicolon. -/
  | semicolon
  /-- A `{`, the `}` that closes it, and what stands between them. -/
  | block
  /-- A `}` that closes nothing. -/
  | strayBrace
  /-- Any other characters. -/
  | word
  deriving DecidableEq, Repr

end Token

/-- A stretch of the source text. -/
structure Token where
  /-- What it is. -/
  kind : Token.Kind
  /-- Its characters. -/
  text : List Char
  /-- The byte of the source at which it starts. -/
  start : Nat
  deriving DecidableEq, Repr

namespace Token

/-- The bytes of the source that a token covers. -/
def span (t : Token) : Span :=
  .ofBounds t.start (t.start + Text.byteSize t.text)

/-- The characters that separate words in a line. -/
def isGap (c : Char) : Bool :=
  c == ' ' || c == '\t' || c == '\r'

/-- The characters of words: those that start no other token. -/
def isWordChar (c : Char) : Bool :=
  !isGap c && c != '\n' && c != '#' && c != ';' && c != '{' && c != '}'

/-- Extends a token that starts with `c` by the characters behind it that have the property `p`. -/
def stretch (kind : Kind) (p : Char → Bool) (c : Char) (rest : List Char) :
    Kind × List Char × List Char :=
  (kind, c :: rest.takeWhile p, rest.dropWhile p)

/-- The kind and the text of the first token of `c :: rest`, and the text behind it; nothing if the
    token is a block that is never closed. -/
def first? (c : Char) (rest : List Char) : Option (Kind × List Char × List Char) :=
  match c with
  | '#' => some (stretch .comment (· != '\n') c rest)
  | '\n' => some (.newline, [c], rest)
  | ';' => some (.semicolon, [c], rest)
  | '{' => (Text.unit? (c :: rest)).map fun (block, after) => (.block, block, after)
  | '}' => some (.strayBrace, [c], rest)
  | _ =>
    if isGap c then some (stretch .blank isGap c rest)
    else some (stretch .word isWordChar c rest)

/-- Behind a stretch there is less text. -/
theorem length_lt_of_stretch (p : Char → Bool) (c : Char) (rest : List Char) :
    (rest.dropWhile p).length < (c :: rest).length :=
  Nat.lt_succ_of_le (List.dropWhile_sublist p).length_le

/-- Behind the first token there is less text. -/
theorem length_lt_of_first? {c : Char} {rest text after : List Char} {kind : Kind}
    (h : first? c rest = some (kind, text, after)) : after.length < (c :: rest).length := by
  unfold first? at h
  split at h
  case h_1 =>
    cases h
    exact length_lt_of_stretch ..
  case h_2 | h_3 | h_5 =>
    cases h
    exact Nat.lt_succ_self _
  case h_4 =>
    obtain ⟨⟨block, after'⟩, h', heq⟩ := Option.map_eq_some_iff.1 h
    cases heq
    exact Text.length_lt_of_unit? h'
  case h_6 =>
    split at h
    all_goals
      cases h
      exact length_lt_of_stretch ..

/-- The tokens of a text that starts at byte `start` of the source. -/
def ofText (start : Nat) (cs : List Char) : Except Finding (List Token) :=
  match cs with
  | [] => .ok []
  | c :: rest =>
    match _h : first? c rest with
    -- The brace that is never closed is the one that the block starts with.
    | none => .error (.unclosedBrace (.ofBounds start (start + 1)))
    | some (kind, text, after) => do
      let tokens ← ofText (start + Text.byteSize text) after
      return ⟨kind, text, start⟩ :: tokens
termination_by cs.length
decreasing_by exact length_lt_of_first? _h

end Token

end StructuralModel
