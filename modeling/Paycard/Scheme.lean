import Paycard.Rule.Match
import Paycard.Rule.Parser

/-! # Card schemes

A scheme is a card network with the lengths its card numbers may have and the digits they may start
with. A card number belongs to it when both lists match.
-/

namespace Paycard

/-- A card network and its rules. The icon plays no part in matching. -/
structure Scheme where
  id : String
  name : String
  lengths : List Rule := []
  ranges : List Rule := []
  icon : String := ""
  deriving Repr, DecidableEq

namespace Scheme

/-- The scheme with its length rules read from a text. -/
def withLengths (scheme : Scheme) (text : String) : Scheme :=
  { scheme with lengths := Rule.parse text }

/-- The scheme with its range rules read from a text. -/
def withRanges (scheme : Scheme) (text : String) : Scheme :=
  { scheme with ranges := Rule.parse text }

def withIcon (scheme : Scheme) (icon : String) : Scheme := { scheme with icon }

/-- Whether a card number has an accepted length and accepted leading digits. -/
def matchesCard (scheme : Scheme) (card : String) : Bool :=
  Rule.matchesLength scheme.lengths card && Rule.matchesRange scheme.ranges card

end Scheme

end Paycard
