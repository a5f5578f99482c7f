/-!
# Texts

Texts are lists of characters, and places in a text are counted in the bytes of its UTF-8 form
(`byteSize`).

A text is cut into lines behind each newline, and every line keeps its newline: nothing is lost, so
that byte offsets can be counted along the lines (`flatten_lines`).

*Blank* characters are those with the Unicode property White_Space. The layout of model statements
does not use this class: there only space, tab and carriage return separate words.

A *numeral* is a decimal number in digits: an optional minus sign, then digits with at most one
point before, among or behind them (`1`, `1.`, `.2`, `-3.50`). There is no plus sign, no exponent,
and digits are those of ASCII. Numerals are never computed with: the text is the value.
-/

namespace StructuralModel.Text

/-! ## Bytes -/

/-- The number of bytes of the UTF-8 form of a text. -/
def byteSize : List Char → Nat
  | [] => 0
  | c :: cs => c.utf8Size + byteSize cs

@[simp] theorem byteSize_nil : byteSize [] = 0 := rfl

@[simp] theorem byteSize_cons (c : Char) (cs : List Char) :
    byteSize (c :: cs) = c.utf8Size + byteSize cs := rfl

@[simp] theorem byteSize_append (cs ds : List Char) :
    byteSize (cs ++ ds) = byteSize cs + byteSize ds := by
  induction cs with
  | nil => simp
  | cons c cs ih => simp [ih, Nat.add_assoc]

/-! ## Lines -/

/-- The lines of a text, each with the newline that ends it; the last one may have none. -/
def lines : List Char → List (List Char)
  | [] => []
  | c :: cs =>
    if c = '\n' then [c] :: lines cs
    else
      match lines cs with
      | [] => [[c]]
      | line :: rest => (c :: line) :: rest

/-- The lines put together are the text. -/
theorem flatten_lines (cs : List Char) : (lines cs).flatten = cs := by
  induction cs with
  | nil => rfl
  | cons c cs ih =>
    simp only [lines]
    split
    · simp [ih]
    · split
      · simp_all
      · simp_all

/-! ## Blank characters -/

/-- The White_Space characters of Unicode: 25 code points. -/
def isBlank (c : Char) : Bool :=
  let n := c.toNat
  (0x9 ≤ n && n ≤ 0xD) || n == 0x20 || n == 0x85 || n == 0xA0 || n == 0x1680 ||
    (0x2000 ≤ n && n ≤ 0x200A) || n == 0x2028 || n == 0x2029 || n == 0x202F || n == 0x205F ||
    n == 0x3000

/-- `cs` without the blank characters at its end. -/
def trimEnd (cs : List Char) : List Char :=
  (cs.reverse.dropWhile isBlank).reverse

/-- `cs` without the blank characters at its start and at its end. -/
def trim (cs : List Char) : List Char :=
  trimEnd (cs.dropWhile isBlank)

/-! ## Numerals -/

/-- A numeral without sign: digits, then perhaps a point and more digits; or a point and digits. -/
def isUnsignedNumeral (cs : List Char) : Bool :=
  match cs.takeWhile Char.isDigit, cs.dropWhile Char.isDigit with
  | [], '.' :: fraction => !fraction.isEmpty && fraction.all Char.isDigit
  | [], _ => false
  | _, [] => true
  | _, '.' :: fraction => fraction.all Char.isDigit
  | _, _ => false

/-- A numeral: one minus sign at most, then a numeral without sign. -/
def isNumeral : List Char → Bool
  | '-' :: cs => isUnsignedNumeral cs
  | cs => isUnsignedNumeral cs

end StructuralModel.Text
