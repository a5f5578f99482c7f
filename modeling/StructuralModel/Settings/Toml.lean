import StructuralModel.Options
import StructuralModel.Settings.Toml.Number
import StructuralModel.Text.Basic

/-!
# Settings in TOML

A reader of settings (`Settings.ofToml`) for a part of TOML: every line is blank, or the heading of
a table, `[name]`, or an entry, `key = value`, and may end with a comment. A value is a truth value,
a number or a string in double quotes. Keys and names of tables are *bare*: letters, digits, `_` and
`-` of ASCII. What else there is in TOML is refused: inline and nested tables, arrays, dates, and
keys that are quoted or dotted.

Within a table no key may occur twice, and no table may be opened twice or have the name of a key
that stands before all tables. The options are the entries of a table `compile`. Every entry of it
must be an option with a truth value; an option without entry keeps its default. All other tables
and entries are for others and are ignored, but `compile` itself must not be an entry.
-/

namespace StructuralModel

namespace Toml

/-- A value in a document. -/
inductive Value where
  /-- A truth value. -/
  | boolean (value : Bool)
  /-- A number, as it is written. -/
  | number (text : String)
  /-- A string, without its quotes and escapes. -/
  | string (text : String)
  deriving DecidableEq, Repr

/-- The value as a truth value, if it is one. -/
def Value.boolean? : Value → Option Bool
  | boolean value => some value
  | _ => none

/-- What a line says. -/
inductive Line where
  /-- Nothing. -/
  | blank
  /-- A table starts. -/
  | heading (name : String)
  /-- A key has a value. -/
  | entry (key : String) (value : Value)
  deriving DecidableEq, Repr

/-! ## Characters -/

/-- The characters between the parts of a line. -/
def isSpace (c : Char) : Bool :=
  c == ' ' || c == '\t'

/-- The characters of keys and names. -/
def isBare (c : Char) : Bool :=
  c.isAlphanum || c == '_' || c == '-'

/-- The characters that may stand in comments and strings: no control characters but the tab. -/
def isPrintable (c : Char) : Bool :=
  c == '\t' || (' ' ≤ c && c != '\x7f')

/-- A text without the space at its start. -/
def skipSpace (cs : List Char) : List Char :=
  cs.dropWhile isSpace

/-- Whether nothing but space and a comment is left of a line. -/
def isRest (cs : List Char) : Bool :=
  match skipSpace cs with
  | [] => true
  | '#' :: comment => comment.all isPrintable
  | _ => false

/-! ## Values -/

/-- Reads `n` hexadecimal digits behind those that make up `value`: the number, and the text behind
    it. -/
def takeHex? (value : Nat) : Nat → List Char → Option (Nat × List Char)
  | 0, cs => some (value, cs)
  | _ + 1, [] => none
  | n + 1, c :: cs => do takeHex? (16 * value + (← hexDigit? c)) n cs

/-- The character that an escape behind a backslash stands for, and the text behind it. -/
def unescape? : List Char → Option (Char × List Char)
  | 'b' :: rest => some ('\x08', rest)
  | 't' :: rest => some ('\t', rest)
  | 'n' :: rest => some ('\n', rest)
  | 'f' :: rest => some ('\x0c', rest)
  | 'r' :: rest => some ('\r', rest)
  | 'e' :: rest => some ('\x1b', rest)
  | '"' :: rest => some ('"', rest)
  | '\\' :: rest => some ('\\', rest)
  | 'x' :: rest => scalar? 2 rest
  | 'u' :: rest => scalar? 4 rest
  | 'U' :: rest => scalar? 8 rest
  | _ => none
where
  /-- A character by its code point. -/
  scalar? (length : Nat) (cs : List Char) : Option (Char × List Char) := do
    let (value, rest) ← takeHex? 0 length cs
    if value.isValidChar then some (Char.ofNat value, rest) else none

/-- Behind a hexadecimal number there is no more text than before. -/
theorem length_le_of_takeHex? {value n result : Nat} {cs rest : List Char}
    (h : takeHex? value n cs = some (result, rest)) : rest.length ≤ cs.length := by
  induction n generalizing value cs with
  | zero => simp_all [takeHex?]
  | succ n ih =>
    cases cs with
    | nil => simp [takeHex?] at h
    | cons c cs =>
      simp only [takeHex?, Option.bind_eq_bind, Option.bind_eq_some_iff] at h
      obtain ⟨digit, -, h⟩ := h
      exact Nat.le_succ_of_le (ih h)

/-- Behind a character by its code point there is no more text than before. -/
theorem length_le_of_scalar? {length : Nat} {cs rest : List Char} {c : Char}
    (h : unescape?.scalar? length cs = some (c, rest)) : rest.length ≤ cs.length := by
  simp only [unescape?.scalar?, Option.bind_eq_bind, Option.bind_eq_some_iff] at h
  obtain ⟨⟨value, rest'⟩, h', h⟩ := h
  split at h
  · cases h
    exact length_le_of_takeHex? h'
  · cases h

/-- Behind an escape there is less text. -/
theorem length_lt_of_unescape? {cs rest : List Char} {c : Char}
    (h : unescape? cs = some (c, rest)) : rest.length < cs.length := by
  unfold unescape? at h
  split at h
  case h_9 | h_10 | h_11 => exact Nat.lt_succ_of_le (length_le_of_scalar? h)
  case h_12 => cases h
  all_goals
    cases h
    exact Nat.lt_succ_self _

/-- The string that is open at the start of a text, and the text behind its closing quote. -/
def takeString? (cs : List Char) : Option (List Char × List Char) :=
  match cs with
  | [] => none
  | '"' :: rest => some ([], rest)
  | '\\' :: escaped =>
    match _h : unescape? escaped with
    | none => none
    | some (c, rest) => (takeString? rest).map fun (text, rest) => (c :: text, rest)
  | c :: rest =>
    if isPrintable c then (takeString? rest).map fun (text, rest) => (c :: text, rest) else none
termination_by cs.length
decreasing_by
  · exact Nat.lt_succ_of_lt (length_lt_of_unescape? _h)
  · exact Nat.lt_succ_self _

/-- The value at the start of a text, and the text behind it. -/
def takeValue? (cs : List Char) : Option (Value × List Char) :=
  match cs with
  | '"' :: rest =>
    (takeString? rest).map fun (text, rest) => (.string (String.ofList text), rest)
  | cs =>
    let isWordChar := fun c => isBare c || c == '+' || c == '.'
    let word := cs.takeWhile isWordChar
    let rest := cs.dropWhile isWordChar
    if word == "true".toList then some (.boolean true, rest)
    else if word == "false".toList then some (.boolean false, rest)
    else if isNumber word then some (.number (String.ofList word), rest)
    else none

/-! ## Lines and documents -/

/-- The bare name at the start of a text, and the text behind it and the space that follows. -/
def takeBare? (cs : List Char) : Option (String × List Char) :=
  match cs.takeWhile isBare with
  | [] => none
  | name => some (String.ofList name, skipSpace (cs.dropWhile isBare))

/-- Reads a line without its line break. -/
def Line.parse? (cs : List Char) : Option Line :=
  if isRest cs then some .blank
  else
    match skipSpace cs with
    | '[' :: rest =>
      match takeBare? (skipSpace rest) with
      | some (name, ']' :: rest) => if isRest rest then some (.heading name) else none
      | _ => none
    | cs =>
      match takeBare? cs with
      | some (key, '=' :: rest) => do
        let (value, rest) ← takeValue? (skipSpace rest)
        if isRest rest then some (.entry key value) else none
      | _ => none

/-- A line without the line break at its end. -/
def dropLineBreak (cs : List Char) : List Char :=
  match cs.reverse with
  | '\n' :: '\r' :: rest => rest.reverse
  | '\n' :: rest => rest.reverse
  | _ => cs

/-- A document: the entries before all headings, and the tables. -/
structure Document where
  /-- The entries before all headings. -/
  top : List (String × Value) := []
  /-- The tables, the last one first. -/
  tables : List (String × List (String × Value)) := []
  deriving DecidableEq, Repr

namespace Document

/-- Adds a line to a document, if the rules allow it. -/
def add? (d : Document) : Line → Option Document
  | .blank => some d
  | .heading name =>
    if d.tables.any (·.1 == name) || d.top.any (·.1 == name) then none
    else some { d with tables := (name, []) :: d.tables }
  | .entry key value =>
    match d.tables with
    | [] =>
      if d.top.any (·.1 == key) then none else some { d with top := d.top ++ [(key, value)] }
    | (name, entries) :: tables =>
      if entries.any (·.1 == key) then none
      else some { d with tables := (name, entries ++ [(key, value)]) :: tables }

/-- Reads a document. A byte order mark at its start is skipped. -/
def parse? (text : String) : Option Document := do
  let cs := match text.toList with
    | '\uFEFF' :: cs => cs
    | cs => cs
  let lines ← (Text.lines cs).mapM fun line => Line.parse? (dropLineBreak line)
  lines.foldlM add? {}

end Document

end Toml

/-! ## Options of a document -/

namespace Settings

/-- The name of the table with the options. -/
def tableName : String := "compile"

/-- The options that a document sets. -/
def ofDocument? (d : Toml.Document) : Option Options :=
  if d.top.any (·.1 == tableName) then none
  else
    Options.ofFields? <|
      ((d.tables.lookup tableName).getD []).map fun (key, value) => (key, value.boolean?)

/-- Reads settings that are written in TOML. -/
def ofToml : Reader := fun text =>
  match Toml.Document.parse? text with
  | none => .error "the text is not a document of tables and entries"
  | some document =>
    match ofDocument? document with
    | none => .error ("the table " ++ tableName ++ " is not a table of options")
    | some options => .ok options

end Settings

end StructuralModel
