import Paycard.Json.Printer
import Paycard.Json.Reading
import Paycard.Rule.Parser

/-! # Rules as JSON

A rule is an object with its kind under `type` and its content under `value`:
`{"type":"digits","value":4}` or `{"type":"interval","value":{"min":40,"max":49}}`. An interval whose
bounds are the wrong way round is refused with the literal that rule text would give it.
-/

namespace Paycard.Rule

open Json (Tree Reading)

inductive Kind where
  | digits
  | interval
  deriving Repr, DecidableEq

def toJson : Rule → Json
  | .digits value => .object [("type", .string "digits"), ("value", .natural value)]
  | .interval min max =>
      .object [("type", .string "interval"),
        ("value", .object [("min", .natural min), ("max", .natural max)])]

/-- The report on an interval whose bounds are the wrong way round. -/
def misordered (min max : UInt64) : MalformedRule :=
  .ofParts [Nat.toDigits 10 min.toNat, Nat.toDigits 10 max.toNat]

/-- Lets a rule pass unless it is an interval whose bounds are the wrong way round. -/
def checked : Rule → Reading MalformedRule Rule
  | .digits value => .ok (.digits value)
  | .interval min max =>
      match interval? min max with
      | some rule => .ok rule
      | none => .error (.refused (misordered min max))

namespace Kind

def ofName : String → Reading MalformedRule Kind
  | "digits" => .ok .digits
  | "interval" => .ok .interval
  | _ => .error .wrongShape

end Kind

/-! ## From a value -/

/-- Reads a kind: its name, or an object with that one key and null under it. -/
def Kind.ofJson : Json → Reading MalformedRule Kind
  | .string name => ofName name
  | .object [(name, .null)] => ofName name
  | _ => .error .wrongShape

/-- Reads the bounds of an interval, in whatever order they are. -/
def boundsOfJson : Json → Reading MalformedRule Rule
  | .object members => do
      let max ← Json.readMember? members "max" Json.readNatural
      let min ← Json.readMember? members "min" Json.readNatural
      return .interval (← Json.required min) (← Json.required max)
  | _ => .error .wrongShape

/-- Reads the content of a rule of this kind. -/
def contentOfJson : Kind → Json → Reading MalformedRule Rule
  | .digits, value => Rule.digits <$> Json.readNatural value
  | .interval, value => boundsOfJson value

/-- Reads a rule: an object, or an array of the name of its kind and its content. -/
def ofJson : Json → Reading MalformedRule Rule
  | .object members => do
      let kind ← Json.required (← Json.readMember? members "type" Kind.ofJson)
      let rule ← Json.required (← Json.readMember? members "value" (contentOfJson kind))
      checked rule
  | .array items => do
      let (name, items) ← Json.readItem Json.readString items
      let kind ← Kind.ofName name
      let (rule, items) ← Json.readItem (contentOfJson kind) items
      Json.noItems items
      checked rule
  | _ => .error .wrongShape

/-! ## From a tree -/

/-- Reads a kind: its name, or an object with that one key and null under it. -/
def Kind.ofTree : Tree → Reading MalformedRule Kind
  | .string (some name) => ofName name
  | .object ((some name, value) :: members) closed => do
      let kind ← ofName name
      value.readNull
      match members with
      | [] => Tree.closing closed
      | _ :: _ => .error .notJson
      return kind
  | .object _ _ => .error .notJson
  | tree => .error tree.misfit

/-- Reads one bound of an interval into a draft of both, the lower one first. -/
def readBound (draft : Option UInt64 × Option UInt64) (key : String) (value : Tree) :
    Reading MalformedRule (Option UInt64 × Option UInt64) :=
  match key with
  | "min" => (·, draft.2) <$> Tree.readOnce draft.1 Tree.readNatural value
  | "max" => (draft.1, ·) <$> Tree.readOnce draft.2 Tree.readNatural value
  | _ => (fun _ => draft) <$> value.skip

/-- Reads the bounds of an interval, in whatever order they are. -/
def boundsOfTree : Tree → Reading MalformedRule Rule
  | .object members closed => do
      let (min, max) ← Tree.readObject readBound (none, none) members closed
      return .interval (← Json.required min) (← Json.required max)
  | tree => .error tree.misfit

/-- Reads the content of a rule of this kind. -/
def contentOfTree : Kind → Tree → Reading MalformedRule Rule
  | .digits, tree => Rule.digits <$> tree.readNatural
  | .interval, tree => boundsOfTree tree

/-- What is known of a rule while its members are read. Content that comes before the kind is kept. -/
inductive Draft where
  | empty
  | kind (kind : Kind)
  | content (tree : Tree)
  | whole (rule : Rule)
  deriving Repr

/-- Reads one member of a rule. Content that has to be kept must be readable as a value with no more
    than `room` containers one inside another. -/
def readPart (room : Nat) (draft : Draft) (key : String) (value : Tree) :
    Reading MalformedRule Draft :=
  match key, draft with
  | "type", .empty => Draft.kind <$> Kind.ofTree value
  | "type", .content tree => do
      let kind ← Kind.ofTree value
      return .whole (← contentOfTree kind tree)
  | "value", .empty => if value.readable room then .ok (.content value) else .error .notJson
  | "value", .kind kind => Draft.whole <$> contentOfTree kind value
  | "type", _ => .error .wrongShape
  | "value", _ => .error .wrongShape
  | _, _ => (fun _ => draft) <$> value.skip

/-- The rule, if both members were there. -/
def Draft.finish : Draft → Reading MalformedRule Rule
  | .whole rule => .ok rule
  | _ => .error .wrongShape

/-- Reads a rule: an object, or an array of the name of its kind and its content. No more than `room`
    containers stand one inside another, the rule itself included. -/
def ofTree (room : Nat) : Tree → Reading MalformedRule Rule
  | .object members closed => do
      let draft ← Tree.readObject (readPart (room - 1)) .empty members closed
      checked (← draft.finish)
  | .array items closed => do
      let (kind, items) ← Tree.readItem (fun tree => do Kind.ofName (← tree.readString)) closed items
      let (rule, items) ← Tree.readItem (contentOfTree kind) closed items
      Tree.noItems closed items
      checked rule
  | tree => .error tree.misfit

def listOfTree (room : Nat) : Tree → Reading MalformedRule (List Rule) :=
  Tree.readList (ofTree (room - 1))

def listOfJson : Json → Reading MalformedRule (List Rule) := Json.readList ofJson

def listToJson (rules : List Rule) : Json := .array (rules.map toJson)

end Paycard.Rule

/-- The rules of a text and the literals of its dropped tokens as a value. -/
def Paycard.RuleText.toJson (text : RuleText) : Json :=
  .object [("rules", Rule.listToJson text.rules),
    ("dropped", .array (text.dropped.map fun e => .string e.literal))]
