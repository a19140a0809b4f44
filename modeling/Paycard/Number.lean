import Paycard.Text.Escape

/-! # Card numbers as digits

A card number is given as text. `readDigits` reads it as decimal digits and names the first character
that is none.
-/

namespace Paycard

abbrev Digit := Fin 10

/-- The first character of a text that is no ASCII digit, with the number of characters before it. -/
structure InvalidCharacter where
  position : Nat
  character : Char
  deriving Repr, DecidableEq

def InvalidCharacter.message (e : InvalidCharacter) : String :=
  "invalid character '" ++ String.ofList (Text.escape e.character) ++ "' at position " ++
    Nat.repr e.position ++ " (only digits allowed)"

namespace Digit

/-- The digit that an ASCII character writes. -/
def ofChar? (c : Char) : Option Digit :=
  if c.isDigit then some ⟨(c.toNat - '0'.toNat) % 10, Nat.mod_lt _ (by decide)⟩ else none

def toChar (d : Digit) : Char := Nat.digitChar d

end Digit

/-- Reads digits up to the end of the text; `position` counts the characters before it. -/
def readDigitsFrom (position : Nat) : List Char → Except InvalidCharacter (List Digit)
  | [] => .ok []
  | c :: cs =>
      match Digit.ofChar? c with
      | none => .error ⟨position, c⟩
      | some d => (d :: ·) <$> readDigitsFrom (position + 1) cs

/-- The digits of a text that holds ASCII digits only. The empty text has none. -/
def readDigits (text : String) : Except InvalidCharacter (List Digit) :=
  readDigitsFrom 0 text.toList

def writeDigits (ds : List Digit) : String := String.ofList (ds.map Digit.toChar)

end Paycard
