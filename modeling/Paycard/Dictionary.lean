import Paycard.Json.Printer
import Paycard.Json.Reading
import Paycard.Rule.Printer
import Paycard.Scheme

/-! # Scheme dictionaries

A dictionary is a JSON object whose `data` member is an array of entries, one per scheme. An entry
gives its rules as rule text. A bad token of rule text is dropped; a bad entry or envelope makes the
whole dictionary malformed.
-/

namespace Paycard

open Json (Tree Reading)

/-- A dictionary entry: a scheme with its rules still written as text. -/
structure Entry where
  id : String
  name : String
  ranges : String
  length : String
  icon : String := ""
  deriving Repr, DecidableEq

/-- An entry is refused for its shape only. -/
abbrev Entry.Reading (α : Type) := Json.Reading Empty α

namespace Entry

def scheme (entry : Entry) : Scheme where
  id := entry.id
  name := entry.name
  lengths := Rule.parse entry.length
  ranges := Rule.parse entry.ranges
  icon := entry.icon

def ofScheme (scheme : Scheme) : Entry where
  id := scheme.id
  name := scheme.name
  ranges := Rule.renderAll scheme.ranges
  length := Rule.renderAll scheme.lengths
  icon := scheme.icon

def toJson (entry : Entry) : Json :=
  .object [("id", .string entry.id), ("name", .string entry.name), ("ranges", .string entry.ranges),
    ("length", .string entry.length), ("icon", .string entry.icon)]

/-- What is known of an entry while its members are read. -/
structure Draft where
  id : Option String := none
  name : Option String := none
  ranges : Option String := none
  length : Option String := none
  icon : Option String := none
  deriving Repr, DecidableEq

/-- The entry, if all its members were there. Only the icon may be missing. -/
def Draft.finish (draft : Draft) : Entry.Reading Entry := do
  let id ← Json.required draft.id
  let name ← Json.required draft.name
  let ranges ← Json.required draft.ranges
  let length ← Json.required draft.length
  return { id, name, ranges, length, icon := draft.icon.getD "" }

/-- Reads an entry from a value: an object, or an array of its members. -/
def ofJson : Json → Entry.Reading Entry
  | .object members => do
      let icon ← Json.readMember? members "icon" Json.readString
      let id ← Json.readMember? members "id" Json.readString
      let length ← Json.readMember? members "length" Json.readString
      let name ← Json.readMember? members "name" Json.readString
      let ranges ← Json.readMember? members "ranges" Json.readString
      Draft.finish { id, name, ranges, length, icon }
  | .array items => do
      let (id, items) ← Json.readItem Json.readString items
      let (name, items) ← Json.readItem Json.readString items
      let (ranges, items) ← Json.readItem Json.readString items
      let (length, items) ← Json.readItem Json.readString items
      match items with
      | [] => return { id, name, ranges, length }
      | icon :: items =>
          let icon ← icon.readString
          Json.noItems items
          return { id, name, ranges, length, icon }
  | _ => .error .wrongShape

/-- Reads one member of an entry. -/
def readPart (draft : Draft) (key : String) (value : Tree) : Entry.Reading Draft := do
  match key with
  | "id" => return { draft with id := ← Tree.readOnce draft.id Tree.readString value }
  | "name" => return { draft with name := ← Tree.readOnce draft.name Tree.readString value }
  | "ranges" => return { draft with ranges := ← Tree.readOnce draft.ranges Tree.readString value }
  | "length" => return { draft with length := ← Tree.readOnce draft.length Tree.readString value }
  | "icon" => return { draft with icon := ← Tree.readOnce draft.icon Tree.readString value }
  | _ =>
      value.skip
      return draft

/-- Reads an entry straight from a tree: an object, or an array of its members. -/
def ofTree : Tree → Entry.Reading Entry
  | .object members closed => do
      let draft ← Tree.readObject readPart {} members closed
      draft.finish
  | .array items closed => do
      let (id, items) ← Tree.readItem Tree.readString closed items
      let (name, items) ← Tree.readItem Tree.readString closed items
      let (ranges, items) ← Tree.readItem Tree.readString closed items
      let (length, items) ← Tree.readItem Tree.readString closed items
      let (icon, items) ← Tree.readItem? Tree.readString closed items
      Tree.noItems closed items
      return { id, name, ranges, length, icon := icon.getD "" }
  | tree => .error tree.misfit

end Entry

/-- A value or text is not a dictionary. -/
structure MalformedResponse where
  deriving Repr, DecidableEq

def MalformedResponse.message (_ : MalformedResponse) : String := "Malformed Response"

namespace Dictionary

/-- The dictionary that holds these entries. -/
def toJson (entries : List Entry) : Json := .object [("data", .array (entries.map Entry.toJson))]

/-- The schemes of a list of entries, if each of them can be read. -/
def schemesOfItems (items : List Json) : Except MalformedResponse (List Scheme) :=
  match items.mapM Entry.ofJson with
  | .ok entries => .ok (entries.map Entry.scheme)
  | .error _ => .error {}

/-- The schemes of a dictionary, in order. -/
def ofJson : Json → Except MalformedResponse (List Scheme)
  | .object members =>
      match members.lookup "data" with
      | some (.array items) => schemesOfItems items
      | _ => .error {}
  | _ => .error {}

/-- The schemes of a dictionary that is given as text. -/
def ofText (text : String) : Except MalformedResponse (List Scheme) :=
  match Json.ofText? text with
  | some value => ofJson value
  | none => .error {}

end Dictionary

end Paycard
