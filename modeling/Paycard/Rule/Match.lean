import Paycard.Rule.Basic

/-! # Matching card numbers

A length list is matched by the size of a card number in bytes, a range list by its leading digits. A
card number starts with an integer when it starts with that integer's decimal numeral, so what counts
are the numerals among its prefixes: at most twenty digits, no superfluous zero in front.
`matchesRange` looks at those prefixes; `matchesRangeByTrial` tries every integer of every rule and is
the plain meaning of a range list.
-/

namespace Paycard.Rule

/-- Whether some rule admits the length of a card number, counted in bytes of its UTF-8 form. -/
def matchesLength (rules : List Rule) (card : String) : Bool :=
  rules.any (·.admits card.utf8ByteSize)

/-- The values of the non-empty prefixes of a run of digits, shortest first, after digits of value
    `v`. -/
def prefixValues (v : Nat) : List Char → List Nat
  | [] => []
  | c :: cs =>
      let w := 10 * v + (c.toNat - '0'.toNat)
      w :: prefixValues w cs

/-- No value of a rule has more digits. -/
def maxDigits : Nat := 20

/-- The leading digits of a text, no more than a rule can name. -/
def leadingDigits (cs : List Char) : List Char := (cs.takeWhile Char.isDigit).take maxDigits

/-- The 64-bit integers whose numerals a text starts with, in rising order. A leading zero is a
    numeral only by itself. -/
def leadingValues (cs : List Char) : List Nat :=
  match leadingDigits cs with
  | '0' :: _ => [0]
  | run => (prefixValues 0 run).filter (· < UInt64.size)

/-- Whether a card number starts with an integer that some rule admits. -/
def matchesRange (rules : List Rule) (card : String) : Bool :=
  (leadingValues card.toList).any fun n => rules.any (·.admits n)

/-- Whether a text starts with the decimal numeral of a number. -/
def startsWithNumeral (cs : List Char) (n : Nat) : Bool := (Nat.toDigits 10 n).isPrefixOf cs

/-- Every integer that a rule admits, in rising order. -/
def values : Rule → List Nat
  | .digits value => [value.toNat]
  | .interval min max => List.range' min.toNat (max.toNat + 1 - min.toNat)

/-- Whether a card number starts with the numeral of some integer of some rule, found by trying them
    all. -/
def matchesRangeByTrial (rules : List Rule) (card : String) : Bool :=
  rules.any fun rule => rule.values.any (startsWithNumeral card.toList)

end Paycard.Rule
