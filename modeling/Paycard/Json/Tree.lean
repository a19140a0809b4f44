import Paycard.Json.Token
import Paycard.Json.Value

/-! # JSON trees

What can be read of a JSON text before it goes wrong, as a tree. Members stay in the order of the text,
repeated ones included. Where the text breaks off or breaks the grammar, the tree has an end: a value
that cannot be read is `Tree.broken`, and a container whose closing bracket is not reached where it
should stand is not `closed`. Nothing after that place is in the tree.

`Tree.ofTokens` reads one value and keeps the stack of open containers in a list, so the nesting of a
text has no limit here. Limits are put by those who need one: `Tree.readable` says whether a tree can
be taken as a value, and `Tree.toJson` is then that value.
-/

namespace Paycard.Json

/-- A JSON text as far as it can be read. Strings and numbers without a value are `none`, as in
    `Token`. -/
inductive Tree where
  | null
  | bool (value : Bool)
  | number (value : Option Number)
  | string (value : Option String)
  | array (items : List Tree) (closed : Bool)
  | object (members : List (Option String × Tree)) (closed : Bool)
  | broken
  deriving Repr

namespace Tree

/-- An open container that waits for a value, with what came before, latest first. -/
inductive Context where
  | item (before : List Tree)
  | member (before : List (Option String × Tree)) (key : Option String)
  deriving Repr

/-- What the next token may be. -/
inductive Expected where
  | value
  | valueOrEnd
  | commaOrEnd (items : List Tree)
  | keyOrEnd
  | key (members : List (Option String × Tree))
  | colon (members : List (Option String × Tree)) (key : Option String)
  | commaOrClose (members : List (Option String × Tree))
  deriving Repr

/-- Ends every open container around a tree without closing it. -/
def cut (tree : Tree) : List Context → Tree
  | [] => tree
  | .item before :: stack => cut (.array (tree :: before).reverse false) stack
  | .member before key :: stack => cut (.object ((key, tree) :: before).reverse false) stack

/-- Where reading goes on after a whole value, unless that was the outermost one. -/
def resume (tree : Tree) : List Context → Option (Expected × List Context)
  | [] => none
  | .item before :: stack => some (.commaOrEnd (tree :: before), stack)
  | .member before key :: stack => some (.commaOrClose ((key, tree) :: before), stack)

/-- The tree that is left where the next token does not fit. -/
def stop : Expected → List Context → Tree
  | .value, stack => cut .broken stack
  | .valueOrEnd, stack => cut (.array [] false) stack
  | .commaOrEnd items, stack => cut (.array items.reverse false) stack
  | .keyOrEnd, stack => cut (.object [] false) stack
  | .key members, stack => cut (.object members.reverse false) stack
  | .colon members key, stack => cut (.object ((key, .broken) :: members).reverse false) stack
  | .commaOrClose members, stack => cut (.object members.reverse false) stack

/-- What one token does to a reader. -/
inductive Move where
  | expect (next : Expected) (stack : List Context)
  | finished (tree : Tree)
  | misfit
  deriving Repr

/-- A container or a plain value is complete. -/
def complete (tree : Tree) (stack : List Context) : Move :=
  match resume tree stack with
  | some (next, stack) => .expect next stack
  | none => .finished tree

/-- A token where a value must come. The stack holds the containers around that value. -/
def moveValue (token : Token) (stack : List Context) : Move :=
  match token with
  | .null => complete .null stack
  | .bool value => complete (.bool value) stack
  | .number value => complete (.number value) stack
  | .string value => complete (.string value) stack
  | .openArray => .expect .valueOrEnd stack
  | .openObject => .expect .keyOrEnd stack
  | _ => .misfit

/-- A token in any state. -/
def move (expected : Expected) (token : Token) (stack : List Context) : Move :=
  match expected, token with
  | .value, token => moveValue token stack
  | .valueOrEnd, .closeArray => complete (.array [] true) stack
  | .valueOrEnd, token => moveValue token (.item [] :: stack)
  | .commaOrEnd items, .closeArray => complete (.array items.reverse true) stack
  | .commaOrEnd items, .comma => .expect .value (.item items :: stack)
  | .keyOrEnd, .closeObject => complete (.object [] true) stack
  | .keyOrEnd, .string key => .expect (.colon [] key) stack
  | .key members, .string key => .expect (.colon members key) stack
  | .colon members key, .colon => .expect .value (.member members key :: stack)
  | .commaOrClose members, .closeObject => complete (.object members.reverse true) stack
  | .commaOrClose members, .comma => .expect (.key members) stack
  | _, _ => .misfit

/-- Reads on up to the end of the outermost value and returns the tokens after it. No token is left
    when the text breaks off or breaks the grammar. -/
def readOn (expected : Expected) (stack : List Context) : List Token → Tree × List Token
  | [] => (stop expected stack, [])
  | token :: rest =>
      match move expected token stack with
      | .expect next stack => readOn next stack rest
      | .finished tree => (tree, rest)
      | .misfit => (stop expected stack, [])

/-- The value at the start of a list of tokens, and the tokens after it. -/
def ofTokens (tokens : List Token) : Tree × List Token := readOn .value [] tokens

/-- The value at the start of a text, whatever comes after it. -/
def ofText (text : String) : Tree := (ofTokens (tokens text.toList)).1

mutual

/-- Whether a tree has no broken place, so that it can be skipped. -/
def whole : Tree → Bool
  | .array items closed => wholeItems items && closed
  | .object members closed => wholeMembers members && closed
  | .broken => false
  | _ => true

def wholeItems : List Tree → Bool
  | [] => true
  | item :: items => item.whole && wholeItems items

def wholeMembers : List (Option String × Tree) → Bool
  | [] => true
  | (_, value) :: members => value.whole && wholeMembers members

end

mutual

/-- Whether a tree can be taken as a value: it is whole, its strings, keys and numbers have values,
    and no more than `room` containers stand one inside another. -/
def readable (room : Nat) : Tree → Bool
  | .null => true
  | .bool _ => true
  | .number value => value.isSome
  | .string value => value.isSome
  | .array items closed => 0 < room && readableItems (room - 1) items && closed
  | .object members closed => 0 < room && readableMembers (room - 1) members && closed
  | .broken => false

def readableItems (room : Nat) : List Tree → Bool
  | [] => true
  | item :: items => item.readable room && readableItems room items

/-- Every member has a key and can be taken as a value. -/
def readableMembers (room : Nat) : List (Option String × Tree) → Bool
  | [] => true
  | (key, value) :: members => key.isSome && value.readable room && readableMembers room members

end

mutual

/-- The value of a readable tree. Members are put in key order, and of several with one key the last
    one counts. In a tree that is not readable the parts without a value are left out or null. -/
def toJson : Tree → Json
  | .null => .null
  | .bool value => .bool value
  | .number value => value.elim .null .number
  | .string value => value.elim .null .string
  | .array items _ => .array (toItems items)
  | .object members _ => .object (sortMembers (toMembers members))
  | .broken => .null

def toItems : List Tree → List Json
  | [] => []
  | item :: items => item.toJson :: toItems items

/-- The members with their values, in text order. -/
def toMembers : List (Option String × Tree) → List (String × Json)
  | [] => []
  | (none, _) :: members => toMembers members
  | (some key, value) :: members => (key, value.toJson) :: toMembers members

end

end Tree

/-- Containers that may stand one inside another where a text is read as a value. -/
def maxDepth : Nat := 127

/-- The value that a text writes: the whole text is one readable tree. -/
def ofText? (text : String) : Option Json :=
  match Tree.ofTokens (tokens text.toList) with
  | (tree, []) => if tree.readable maxDepth then some tree.toJson else none
  | (_, _ :: _) => none

end Paycard.Json
