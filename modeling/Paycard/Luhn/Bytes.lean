import Paycard.Luhn.Basic

/-! # The Luhn total of unchecked values

The same total over bytes that nobody has checked to be digits. Doubling looks a value up in a table
of ten, so a value of ten or more at a doubled place has no total; at any other place it is added as
it is.
-/

namespace Paycard.Luhn.Bytes

/-- What a value adds to the total. -/
def weight? (isDoubled : Bool) (v : UInt8) : Option Nat :=
  if isDoubled then doubledTable[v.toNat]? else some v.toNat

/-- Adds up values, the last one first. The flag says whether the first of them is doubled. -/
def sumFromRight? : Bool → List UInt8 → Option Nat
  | _, [] => some 0
  | isDoubled, v :: vs => do
      let w ← weight? isDoubled v
      let rest ← sumFromRight? (!isDoubled) vs
      return w + rest

/-- The Luhn total, if every value at a doubled place is a digit. -/
def total? (vs : List UInt8) : Option Nat := sumFromRight? false vs.reverse

/-- Whether the total is a multiple of ten. -/
def valid? (vs : List UInt8) : Option Bool := (· % 10 == 0) <$> total? vs

/-- The value that makes the total a multiple of ten when it is added at the right end. -/
def checkDigit? (vs : List UInt8) : Option Nat :=
  (fun sum => (10 - sum % 10) % 10) <$> sumFromRight? true vs.reverse

end Paycard.Luhn.Bytes
