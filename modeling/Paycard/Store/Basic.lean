import Paycard.Detection
import Paycard.Fetch.Basic

/-! # The store

The store holds the collection of schemes that was loaded last, or nothing before the first one. A
collection is only ever replaced as a whole, and a failed fetch keeps what is stored.
-/

namespace Paycard

/-- The collection loaded last, if any. -/
structure Store where
  stored : Option (List Scheme) := none
  deriving Repr, DecidableEq

namespace Store

/-- Whether a collection is stored, be it an empty one. -/
def isLoaded (store : Store) : Bool := store.stored.isSome

/-- The schemes to work with: none while nothing is stored. -/
def schemes (store : Store) : List Scheme := store.stored.getD []

/-- Whether there are any schemes to work with. -/
def hasRules (store : Store) : Bool := !store.schemes.isEmpty

/-- Stores a collection in place of the old one. -/
def replace (_ : Store) (schemes : List Scheme) : Store := ⟨some schemes⟩

/-- The scheme of a card number. -/
def detect? (store : Store) (card : String) : Option Scheme :=
  Paycard.detect? store.schemes card

/-- Checks a card number against the Luhn total and the stored schemes. -/
def assess (store : Store) (card : String) : Except InvalidCharacter Assessment :=
  Paycard.assess store.schemes card

/-- Whether a card number can be accepted. An empty collection counts as no rules. -/
def accepts (store : Store) (card : String) : Except InvalidCharacter Bool := do
  let assessment ← store.assess card
  return assessment.isAcceptable store.hasRules

/-- Stores what a fetch brought, if it succeeded. -/
def absorb (store : Store) (fetched : Fetched) : Store :=
  match fetched.result with
  | .ok schemes => store.replace schemes
  | .error _ => store

def reload (store : Store) (settings : Fetch.Settings) (script : Script) : Store × Fetched :=
  let fetched := script.fetch settings
  (store.absorb fetched, fetched)

/-- The stored collection if it is not empty, otherwise a reload. -/
def load (store : Store) (settings : Fetch.Settings) (script : Script) : Store × Fetched :=
  if store.hasRules then (store, ⟨.ok store.schemes, 0⟩) else store.reload settings script

end Store

end Paycard
