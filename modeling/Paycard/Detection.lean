import Paycard.Luhn.Basic
import Paycard.Scheme

/-! # Detecting the scheme of a card number

Schemes are tried in order and the first one that matches wins. An assessment joins the Luhn check
with the detected scheme and decides whether a number is acceptable.
-/

namespace Paycard

/-- The position of the first scheme that matches. The empty card number belongs to none. -/
def detectIndex? (schemes : List Scheme) (card : String) : Option Nat :=
  if card.isEmpty then none else schemes.findIdx? (·.matchesCard card)

/-- The first scheme that matches. The empty card number belongs to none. -/
def detect? (schemes : List Scheme) (card : String) : Option Scheme :=
  if card.isEmpty then none else schemes.find? (·.matchesCard card)

/-- What the Luhn check and the detection say about one card number. -/
structure Assessment where
  checksumValid : Bool
  scheme : Option Scheme
  isEmpty : Bool
  deriving Repr, DecidableEq

/-- Whether the number can be accepted: it is not empty, it passes the Luhn check and, unless no
    rules are loaded, it belongs to a scheme. -/
def Assessment.isAcceptable (a : Assessment) (rulesLoaded : Bool) : Bool :=
  !a.isEmpty && a.checksumValid && (a.scheme.isSome || !rulesLoaded)

/-- Checks a card number against the Luhn total and a list of schemes. -/
def assess (schemes : List Scheme) (card : String) : Except InvalidCharacter Assessment := do
  let checksumValid ← Luhn.check card
  return ⟨checksumValid, detect? schemes card, card.isEmpty⟩

end Paycard
