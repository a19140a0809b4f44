import Paycard.Number

/-! # The Luhn total

Counted from the right end, every second digit is doubled and the digits of the result are summed. A
number passes when the total is a multiple of ten. The total is computed on digits (`total`), or in
two steps on text: `doubleEverySecond` writes the doubled digits out and `sumDigits` adds them up.
-/

namespace Paycard.Luhn

/-- The digit sum of twice each digit. -/
def doubledTable : List Nat := [0, 2, 4, 6, 8, 1, 3, 5, 7, 9]

/-- The digit sum of twice a digit. -/
def doubled (d : Digit) : Nat := doubledTable[d]

/-- Adds up digits, the last one of the number first, doubling every second one. The flag says
    whether the first of them is doubled. -/
def sumFromRight : Bool → List Digit → Nat
  | _, [] => 0
  | true, d :: ds => doubled d + sumFromRight false ds
  | false, d :: ds => d + sumFromRight true ds

/-- The Luhn total: the last digit counts once. -/
def total (ds : List Digit) : Nat := sumFromRight false ds.reverse

/-- A number is valid when its total is a multiple of ten. -/
def valid (ds : List Digit) : Bool := total ds % 10 == 0

/-- The digit that makes a number valid when it is added at the right end. There the last digit of
    the number moves to a doubled place. -/
def checkDigit (ds : List Digit) : Digit :=
  ⟨(10 - sumFromRight true ds.reverse % 10) % 10, Nat.mod_lt _ (by decide)⟩

/-- Whether a text is a valid number. -/
def check (text : String) : Except InvalidCharacter Bool :=
  valid <$> readDigits text

/-- How a digit is written out: as its double in decimal, or as it is. -/
def written (isDoubled : Bool) (d : Digit) : List Char :=
  if isDoubled then Nat.toDigits 10 (2 * d) else [d.toChar]

/-- Writes out digits from left to right. A digit is doubled if the number of digits from it up to the
    right end, itself included, is even. -/
def writtenDigits (ds : List Digit) : List (List Char) :=
  ds.mapIdx fun index d => written ((ds.length - index) % 2 == 0) d

/-- The number with every second digit from the right written as its double, in one or two digits. -/
def doubleEverySecond (text : String) : Except InvalidCharacter String := do
  let ds ← readDigits text
  return String.ofList (writtenDigits ds).flatten

/-- The plain sum of the digits of a text. -/
def sumDigits (text : String) : Except InvalidCharacter Nat := do
  let ds ← readDigits text
  return ds.foldr (fun d sum => d.val + sum) 0

end Paycard.Luhn
