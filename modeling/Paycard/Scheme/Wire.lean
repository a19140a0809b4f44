import Paycard.Rule.Wire
import Paycard.Scheme

/-! # Schemes as JSON

A scheme is an object with the members `id`, `name`, `lengthValidations`, `rangeValidations` and
`icon`, all of them required.
-/

namespace Paycard.Scheme

open Json (Tree Reading)

def toJson (scheme : Scheme) : Json :=
  .object [("id", .string scheme.id), ("name", .string scheme.name),
    ("lengthValidations", Rule.listToJson scheme.lengths),
    ("rangeValidations", Rule.listToJson scheme.ranges), ("icon", .string scheme.icon)]

def listToJson (schemes : List Scheme) : Json := .array (schemes.map toJson)

/-- What is known of a scheme while its members are read. -/
structure Draft where
  id : Option String := none
  name : Option String := none
  lengths : Option (List Rule) := none
  ranges : Option (List Rule) := none
  icon : Option String := none
  deriving Repr, DecidableEq

/-- The scheme, if all its members were there. -/
def Draft.finish (draft : Draft) : Reading MalformedRule Scheme := do
  let id ← Json.required draft.id
  let name ← Json.required draft.name
  let lengths ← Json.required draft.lengths
  let ranges ← Json.required draft.ranges
  let icon ← Json.required draft.icon
  return { id, name, lengths, ranges, icon }

/-! ## From a value -/

/-- Reads a scheme: an object, whose members are read in key order, or an array of its members. -/
def ofJson : Json → Reading MalformedRule Scheme
  | .object members => do
      let icon ← Json.readMember? members "icon" Json.readString
      let id ← Json.readMember? members "id" Json.readString
      let lengths ← Json.readMember? members "lengthValidations" Rule.listOfJson
      let name ← Json.readMember? members "name" Json.readString
      let ranges ← Json.readMember? members "rangeValidations" Rule.listOfJson
      Draft.finish { id, name, lengths, ranges, icon }
  | .array items => do
      let (id, items) ← Json.readItem Json.readString items
      let (name, items) ← Json.readItem Json.readString items
      let (lengths, items) ← Json.readItem Rule.listOfJson items
      let (ranges, items) ← Json.readItem Rule.listOfJson items
      let (icon, items) ← Json.readItem Json.readString items
      Json.noItems items
      return { id, name, lengths, ranges, icon }
  | _ => .error .wrongShape

def listOfJson : Json → Reading MalformedRule (List Scheme) := Json.readList ofJson

/-! ## From a tree -/

/-- Reads one member of a scheme. -/
def readPart (room : Nat) (draft : Draft) (key : String) (value : Tree) :
    Reading MalformedRule Draft := do
  match key with
  | "id" => return { draft with id := ← Tree.readOnce draft.id Tree.readString value }
  | "name" => return { draft with name := ← Tree.readOnce draft.name Tree.readString value }
  | "lengthValidations" =>
      return { draft with lengths := ← Tree.readOnce draft.lengths (Rule.listOfTree room) value }
  | "rangeValidations" =>
      return { draft with ranges := ← Tree.readOnce draft.ranges (Rule.listOfTree room) value }
  | "icon" => return { draft with icon := ← Tree.readOnce draft.icon Tree.readString value }
  | _ =>
      value.skip
      return draft

/-- Reads a scheme: an object or an array of its members. No more than `room` containers stand one
    inside another, the scheme itself included. -/
def ofTree (room : Nat) : Tree → Reading MalformedRule Scheme
  | .object members closed => do
      let draft ← Tree.readObject (readPart (room - 1)) {} members closed
      draft.finish
  | .array items closed => do
      let (id, items) ← Tree.readItem Tree.readString closed items
      let (name, items) ← Tree.readItem Tree.readString closed items
      let (lengths, items) ← Tree.readItem (Rule.listOfTree (room - 1)) closed items
      let (ranges, items) ← Tree.readItem (Rule.listOfTree (room - 1)) closed items
      let (icon, items) ← Tree.readItem Tree.readString closed items
      Tree.noItems closed items
      return { id, name, lengths, ranges, icon }
  | tree => .error tree.misfit

def listOfTree (room : Nat) : Tree → Reading MalformedRule (List Scheme) :=
  Tree.readList (ofTree (room - 1))

end Paycard.Scheme
