/-! # Unsigned decimal text

Two ways to read an unsigned number: `unsigned?` takes a whole text, `leadingUnsigned?` the digits at
its start. Both allow leading zeros and refuse a value that does not fit the bound.
-/

namespace Paycard.Text

/-- The value of a run of decimal digits. -/
def valueOf (digits : List Char) : Nat := Nat.ofDigitChars 10 digits 0

/-- The text after one plus sign, if it starts with one. -/
def skipPlus : List Char → List Char
  | '+' :: cs => cs
  | cs => cs

/-- The value of a non-empty run of digits, if it is below the bound. -/
def valueBelow? (bound : Nat) (digits : List Char) : Option Nat :=
  if digits.isEmpty then none
  else if valueOf digits < bound then some (valueOf digits)
  else none

/-- The number written by the digits at the start of a text, after at most one plus sign. What
    follows the digits does not count. -/
def leadingUnsigned? (bound : Nat) (cs : List Char) : Option Nat :=
  valueBelow? bound ((skipPlus cs).takeWhile Char.isDigit)

/-- The number that a text writes: at most one plus sign, then digits up to the end. -/
def unsigned? (bound : Nat) (cs : List Char) : Option Nat :=
  if (skipPlus cs).all Char.isDigit then valueBelow? bound (skipPlus cs) else none

end Paycard.Text
