/-!
# Numbers of TOML documents

A number is a whole number in base 10, or in base 16, 8 or 2 behind `0x`, `0o` or `0b`; a *decimal*,
which has a fraction, an exponent or both; or one of the words `inf` and `nan`. Single underscores
may separate digits. Numbers in base 10 and the words may have a sign.

Nothing is computed with numbers, but they must be *bounded*. A whole number has 128 bits at most
(`isBoundedWhole`). A decimal must be nearer to some double-precision number than to infinity
(`Decimal.isBounded`); it may be as small as it likes.
-/

namespace StructuralModel.Toml

/-! ## Digits -/

/-- The value of a hexadecimal digit. -/
def hexDigit? (c : Char) : Option Nat :=
  if c.isDigit then some (c.toNat - '0'.toNat)
  else if 'a' ≤ c && c ≤ 'f' then some (c.toNat - 'a'.toNat + 10)
  else if 'A' ≤ c && c ≤ 'F' then some (c.toNat - 'A'.toNat + 10)
  else none

/-- The value of a digit in a base, which is 16 at most. -/
def digit? (base : Nat) (c : Char) : Option Nat :=
  (hexDigit? c).filter (· < base)

/-- Whether a text is digits, which single underscores may separate. -/
def isDigits (base : Nat) : List Char → Bool
  | [] => false
  | [c] => (digit? base c).isSome
  | c :: '_' :: rest => (digit? base c).isSome && isDigits base rest
  | c :: rest => (digit? base c).isSome && isDigits base rest

/-- The digits of a text, without the underscores between them. -/
def digits (base : Nat) (cs : List Char) : List Nat :=
  cs.filterMap (digit? base)

/-- The number with given digits, the most significant one first. -/
def ofDigits (base : Nat) (digits : List Nat) : Nat :=
  digits.foldl (fun value digit => base * value + digit) 0

/-- Takes the sign off a text: whether it is a minus sign, and the text behind it. -/
def takeSign : List Char → Bool × List Char
  | '-' :: rest => (true, rest)
  | '+' :: rest => (false, rest)
  | cs => (false, cs)

/-! ## Whole numbers -/

/-- Whether a text is a whole number in base 10, without sign and without a needless zero at its
    start. -/
def isWhole (cs : List Char) : Bool :=
  isDigits 10 cs && (cs.length == 1 || cs.head? != some '0')

/-- Whether a whole number, given by its sign and its size, has 128 bits at most. One of them is the
    sign if the number is negative. -/
def isBoundedWhole (negative : Bool) (size : Nat) : Bool :=
  if negative then size ≤ Nat.pow 2 127 else size < Nat.pow 2 128

/-- Whether a text is a bounded whole number in a base, without sign. Zeros at its start are no
    matter. -/
def isWholeIn (base : Nat) (cs : List Char) : Bool :=
  isDigits base cs && isBoundedWhole false (ofDigits base (digits base cs))

/-! ## Decimals -/

/-- A decimal without sign. -/
structure Decimal where
  /-- The digits before and behind the point. -/
  digits : List Nat
  /-- The power of ten by which they are scaled. -/
  exponent : Int
  deriving DecidableEq, Repr

namespace Decimal

/-- The least number that is as near to infinity as to a double-precision number: half a step above
    the largest of them, which is `2 ^ 1024 - 2 ^ 971`. -/
def bound : Nat := Nat.pow 2 1024 - Nat.pow 2 970

/-- Whether a decimal is below the bound. Only one of the two powers of ten is not 1. -/
def isBounded (d : Decimal) : Bool :=
  ofDigits 10 d.digits * Nat.pow 10 d.exponent.toNat < bound * Nat.pow 10 (-d.exponent).toNat

/-- The characters in front of an exponent. -/
def isExponentMark (c : Char) : Bool :=
  c == 'e' || c == 'E'

/-- The size of an exponent with given digits. Once it has passed 65535 no digit counts any more:
    an exponent so large decides on its own whether a number of fewer digits is bounded. -/
def exponentSize (digits : List Nat) : Nat :=
  digits.foldl (fun size digit => if size ≤ 0xFFFF then 10 * size + digit else size) 0

/-- The exponent in a text that is empty or starts with an exponent mark. -/
def exponent? : List Char → Option Int
  | [] => some 0
  | _ :: cs =>
    let (negative, digits) := takeSign cs
    if isDigits 10 digits then
      let size := exponentSize (Toml.digits 10 digits)
      some (if negative then -size else size)
    else none

/-- The fraction in a text that is empty or starts with a point. -/
def fraction? : List Char → Option (List Nat)
  | [] => some []
  | _ :: cs => if isDigits 10 cs then some (Toml.digits 10 cs) else none

/-- Reads a decimal: a whole number, then perhaps a point and a fraction, then perhaps a mark and an
    exponent. -/
def ofText? (cs : List Char) : Option Decimal := do
  let mantissa := cs.takeWhile fun c => !isExponentMark c
  let whole := mantissa.takeWhile (· != '.')
  let fraction ← fraction? (mantissa.dropWhile (· != '.'))
  let exponent ← exponent? (cs.dropWhile fun c => !isExponentMark c)
  if isWhole whole then
    some { digits := Toml.digits 10 whole ++ fraction, exponent := exponent - fraction.length }
  else none

end Decimal

/-! ## Numbers -/

/-- Whether a text is a number in base 10 with an optional sign, or one of the words. -/
def isSigned (cs : List Char) : Bool :=
  let (negative, size) := takeSign cs
  if size == "inf".toList || size == "nan".toList then true
  else if isWhole size then isBoundedWhole negative (ofDigits 10 (digits 10 size))
  else (Decimal.ofText? size).any Decimal.isBounded

/-- Whether a text is a bounded number. -/
def isNumber (cs : List Char) : Bool :=
  match cs with
  | '0' :: 'x' :: rest => isWholeIn 16 rest
  | '0' :: 'o' :: rest => isWholeIn 8 rest
  | '0' :: 'b' :: rest => isWholeIn 2 rest
  | cs => isSigned cs

end StructuralModel.Toml
