import Paycard.Json.Tree

/-! # Reading typed data

A record can be read in two ways: from a value, by looking its members up, or straight from the tree of
a text, member by member in the order of the text. Both report the first fault they meet.

Straight from a tree, a repeated member of the record is a fault, and a member the record does not know
is only skipped. From a value, where each key stands once, both cannot matter. An array may stand for a
record: it holds the members in the order of the record.
-/

namespace Paycard.Json

/-- Why a record could not be read: the text breaks the grammar where it is read, the data has another
    shape, or the data has the right shape and is refused for a cause of its own. -/
inductive ReadError (ε : Type) where
  | notJson
  | wrongShape
  | refused (cause : ε)
  deriving Repr, DecidableEq

abbrev Reading (ε α : Type) := Except (ReadError ε) α

variable {ε α σ : Type}

/-- The content of a member or item that has to be there. -/
def required : Option α → Reading ε α
  | some a => .ok a
  | none => .error .wrongShape

/-! ## From a value -/

def readString : Json → Reading ε String
  | .string value => .ok value
  | _ => .error .wrongShape

def readNatural : Json → Reading ε UInt64
  | .number (.natural value) => .ok value
  | _ => .error .wrongShape

def readList (read : Json → Reading ε α) : Json → Reading ε (List α)
  | .array items => items.mapM read
  | _ => .error .wrongShape

/-- Reads the member of a key, if there is one. -/
def readMember? (members : List (String × Json)) (key : String) (read : Json → Reading ε α) :
    Reading ε (Option α) :=
  match members.lookup key with
  | some value => some <$> read value
  | none => .ok none

/-- Reads the first item of a record that is written as an array. -/
def readItem (read : Json → Reading ε α) : List Json → Reading ε (α × List Json)
  | [] => .error .wrongShape
  | item :: items => (·, items) <$> read item

/-- A record that is written as an array has no further items. -/
def noItems : List Json → Reading ε Unit
  | [] => .ok ()
  | _ :: _ => .error .wrongShape

namespace Tree

/-! ## From a tree -/

/-- The fault of a tree that is of another kind than wanted. A string or number is read before its kind
    is looked at, a container is not. -/
def misfit : Tree → ReadError ε
  | .broken => .notJson
  | .string none => .notJson
  | .number none => .notJson
  | _ => .wrongShape

def readString : Tree → Reading ε String
  | .string (some value) => .ok value
  | tree => .error tree.misfit

def readNatural : Tree → Reading ε UInt64
  | .number (some (.natural value)) => .ok value
  | tree => .error tree.misfit

def readNull : Tree → Reading ε Unit
  | .null => .ok ()
  | tree => .error tree.misfit

/-- Reads over a value of any kind. -/
def skip (tree : Tree) : Reading ε Unit :=
  if tree.whole then .ok () else .error .notJson

/-- A container ends where it should. -/
def closing (closed : Bool) : Reading ε Unit :=
  if closed then .ok () else .error .notJson

def readList (read : Tree → Reading ε α) : Tree → Reading ε (List α)
  | .array items closed => do
      let values ← items.mapM read
      closing closed
      return values
  | tree => .error tree.misfit

/-- Reads members one after another into a draft of the record. -/
def readMembers (step : σ → String → Tree → Reading ε σ) (draft : σ) :
    List (Option String × Tree) → Reading ε σ
  | [] => .ok draft
  | (none, _) :: _ => .error .notJson
  | (some key, value) :: members => do readMembers step (← step draft key value) members

/-- Reads all members of an object into a draft of the record. -/
def readObject (step : σ → String → Tree → Reading ε σ) (draft : σ)
    (members : List (Option String × Tree)) (closed : Bool) : Reading ε σ := do
  let draft ← readMembers step draft members
  closing closed
  return draft

/-- Reads a member that may stand only once. -/
def readOnce (earlier : Option α) (read : Tree → Reading ε α) (value : Tree) :
    Reading ε (Option α) :=
  match earlier with
  | some _ => .error .wrongShape
  | none => some <$> read value

/-- Reads the first item of a record that is written as an array, if there is one. -/
def readItem? (read : Tree → Reading ε α) (closed : Bool) :
    List Tree → Reading ε (Option α × List Tree)
  | [] => do
      closing closed
      return (none, [])
  | item :: items => (fun value => (some value, items)) <$> read item

/-- Reads the first item of a record that is written as an array. -/
def readItem (read : Tree → Reading ε α) (closed : Bool) (items : List Tree) :
    Reading ε (α × List Tree) := do
  let (value, items) ← readItem? read closed items
  return (← required value, items)

/-- A record that is written as an array ends where it should, without further items. -/
def noItems (closed : Bool) : List Tree → Reading ε Unit
  | [] => closing closed
  | _ :: _ => .error .notJson

end Tree

/-- Reads a whole text straight from its tree. Nothing may come after the value. -/
def readText (read : Tree → Reading ε α) (text : String) : Reading ε α := do
  let (tree, rest) := Tree.ofTokens (tokens text.toList)
  let value ← read tree
  match rest with
  | [] => return value
  | _ :: _ => .error .notJson

end Paycard.Json
