/-! # Rules

A rule admits some of the 64-bit unsigned integers: one value, or a closed interval. In a scheme's
length list the integers are lengths of card numbers; in its range list they are leading digits.
-/

namespace Paycard

/-- One value, or every value from `min` to `max`. An interval whose bounds are the wrong way round
    can be written down but admits nothing; `Rule.interval?` never builds one. -/
inductive Rule where
  | digits (value : UInt64)
  | interval (min max : UInt64)
  deriving Repr, DecidableEq

namespace Rule

/-- The interval between two bounds, unless they are the wrong way round. -/
def interval? (min max : UInt64) : Option Rule :=
  if min ≤ max then some (.interval min max) else none

/-- Whether a rule admits a number. -/
def admits : Rule → Nat → Bool
  | .digits value, n => value.toNat == n
  | .interval min max, n => min.toNat ≤ n && n ≤ max.toNat

/-- Whether the bounds of an interval are in order. A single value always is. -/
def ordered : Rule → Bool
  | .digits _ => true
  | .interval min max => min ≤ max

end Rule

end Paycard
