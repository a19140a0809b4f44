import Paycard.Json.Value

/-! # Writing JSON

Values are written without any space, members in the order in which they stand. Inside a string only
quotes, backslashes and control characters are escaped.
-/

namespace Paycard.Json

/-- How a character stands inside a string literal. -/
def escape (c : Char) : List Char :=
  if c = '\"' ∨ c = '\\' then ['\\', c]
  else if c = '\x08' then ['\\', 'b']
  else if c = '\x0c' then ['\\', 'f']
  else if c = '\n' then ['\\', 'n']
  else if c = '\r' then ['\\', 'r']
  else if c = '\t' then ['\\', 't']
  else if c < ' ' then
    ['\\', 'u', '0', '0', Nat.digitChar (c.toNat / 16), Nat.digitChar (c.toNat % 16)]
  else [c]

def quote (text : String) : List Char := '\"' :: text.toList.flatMap escape ++ ['\"']

def Number.chars : Number → List Char
  | .natural value => Nat.toDigits 10 value.toNat
  | .other text => text.toList

mutual

def chars : Json → List Char
  | .null => ['n', 'u', 'l', 'l']
  | .bool true => ['t', 'r', 'u', 'e']
  | .bool false => ['f', 'a', 'l', 's', 'e']
  | .number value => value.chars
  | .string value => quote value
  | .array [] => ['[', ']']
  | .array (item :: items) => '[' :: item.chars ++ charsAfterItem items
  | .object [] => ['{', '}']
  | .object ((key, value) :: members) =>
      '{' :: quote key ++ ':' :: value.chars ++ charsAfterMember members

/-- The characters of an array after an item, given the items still to come. -/
def charsAfterItem : List Json → List Char
  | [] => [']']
  | item :: items => ',' :: item.chars ++ charsAfterItem items

/-- The characters of an object after a member, given the members still to come. -/
def charsAfterMember : List (String × Json) → List Char
  | [] => ['}']
  | (key, value) :: members => ',' :: quote key ++ ':' :: value.chars ++ charsAfterMember members

end

def render (value : Json) : String := String.ofList value.chars

end Paycard.Json
