/-
**How decimals are written.**

A style says between which exponents a decimal is written positionally, and how the others are
written. The digits themselves are not its concern.

* `DecimalStyle.statement`: the style of numbers in statements.
* `Binary64.text`: a double in that style, by its shortest digits.
-/

import SqlDraft.Decimal.Shortest

namespace SqlDraft

/-- The choices in writing a decimal. -/
structure DecimalStyle where
  /-- The least exponent of the first digit that is written positionally. -/
  leastPositional : Int
  /-- The greatest exponent of the first digit that is written positionally. -/
  greatestPositional : Int
  /-- What follows a whole number in positional writing. -/
  wholeMark : List Char
  /-- What stands before an exponent of zero or more. -/
  positiveMark : List Char
  /-- What stands before the magnitude of an exponent below zero. -/
  negativeMark : List Char

/-- Numbers in statements are positional from `0.00001` up to sixteen digits before the point and
always show a point there; other exponents have a sign and no padding. -/
def DecimalStyle.statement : DecimalStyle where
  leastPositional := -5
  greatestPositional := 15
  wholeMark := ['.', '0']
  positiveMark := ['e', '+']
  negativeMark := ['e', '-']

namespace Decimal

/-- The decimal digits of a number. -/
def digitsOf (value : Nat) : List Char := Nat.toDigits 10 value

/-- Digits with a point behind the first `whole` of them; `mark` stands for an empty rest. -/
def pointed (digits : List Char) (whole : Nat) (mark : List Char) : List Char :=
  match digits.drop whole with
  | [] => digits ++ mark
  | rest => digits.take whole ++ '.' :: rest

/-- The text of a decimal in a style. -/
def text (style : DecimalStyle) (decimal : Decimal) : List Char :=
  let digits := digitsOf decimal.digits
  let leading := decimal.exponent + digits.length - 1
  if style.leastPositional ≤ leading ∧ leading ≤ style.greatestPositional then
    if leading < 0 then
      '0' :: '.' :: List.replicate (-leading - 1).toNat '0' ++ digits
    else
      pointed (digits ++ List.replicate decimal.exponent.toNat '0') (leading.toNat + 1)
        style.wholeMark
  else
    let mark := if leading < 0 then style.negativeMark else style.positiveMark
    pointed digits 1 [] ++ mark ++ digitsOf leading.natAbs

end Decimal

/-- The text of a double in a statement. Zero keeps its sign. -/
def Binary64.text (number : Binary64) : List Char :=
  let sign := if number.negative then ['-'] else []
  let magnitude := if number.significand = 0 then ⟨0, 0⟩ else Decimal.shortest number
  sign ++ magnitude.text DecimalStyle.statement

end SqlDraft
