import Paycard.Detection

/-! # Batches

Detection over many card numbers, one after another or in pieces that may be worked on side by side. A
tally counts card numbers by the identifier of their scheme. Its entries are ordered: card numbers
without a scheme first, then identifiers by code point.
-/

namespace Paycard

/-- The scheme of each card number, in order. -/
def detectAll (schemes : List Scheme) (cards : List String) : List (Option Scheme) :=
  cards.map (detect? schemes)

/-- How many card numbers have each scheme identifier, in key order with no key twice. -/
abbrev Tally := List (Option String × Nat)

namespace Tally

/-- The order of keys: `none` first, then identifiers by code point. -/
def keyLT : Option String → Option String → Bool
  | _, none => false
  | none, some _ => true
  | some a, some b => a < b

def add (key : Option String) (n : Nat) : Tally → Tally
  | [] => [(key, n)]
  | (k, m) :: rest =>
      if k = key then (k, m + n) :: rest
      else if keyLT key k then (key, n) :: (k, m) :: rest
      else (k, m) :: add key n rest

def merge (left right : Tally) : Tally :=
  right.foldl (fun tally entry => tally.add entry.1 entry.2) left

end Tally

/-- Counts card numbers by the identifier of their scheme. -/
def countByScheme (schemes : List Scheme) (cards : List String) : Tally :=
  cards.foldl (fun tally card => tally.add ((detect? schemes card).map (·.id)) 1) []

/-- A batch cut into contiguous pieces, the pieces in order at the leaves. -/
inductive Split where
  | piece (cards : List String)
  | both (left right : Split)
  deriving Repr

namespace Split

def cards : Split → List String
  | .piece cards => cards
  | .both left right => left.cards ++ right.cards

/-- Detection piece by piece; the results are put together in order. -/
def detectAll (schemes : List Scheme) : Split → List (Option Scheme)
  | .piece cards => Paycard.detectAll schemes cards
  | .both left right => left.detectAll schemes ++ right.detectAll schemes

/-- Tallies piece by piece; neighbouring tallies are merged. -/
def countByScheme (schemes : List Scheme) : Split → Tally
  | .piece cards => Paycard.countByScheme schemes cards
  | .both left right => (left.countByScheme schemes).merge (right.countByScheme schemes)

/-- Halves a batch a number of times over. -/
def halve : Nat → List String → Split
  | 0, cards => .piece cards
  | depth + 1, cards =>
      let half := cards.length / 2
      .both (halve depth (cards.take half)) (halve depth (cards.drop half))

end Split

end Paycard
