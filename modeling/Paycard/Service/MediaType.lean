/-! # Media types

Whether a request says that its body is JSON. A media type is a type and a subtype with a slash between
them, then parameters after semicolons. Letter case does not matter.
-/

namespace Paycard.Service

/-- The characters of a token besides letters and digits. -/
def tokenMarks : List Char :=
  ['!', '#', '$', '%', '&', '\'', '+', '-', '.', '^', '_', '\x60', '|', '~']

/-- Whether a character may stand in a type, a subtype, or the name of a parameter. -/
def isTokenChar (c : Char) : Bool := c.isAlphanum || tokenMarks.contains c

/-- Where a reader stands in the parameters of a media type. -/
inductive ParameterState where
  | start
  | name
  | valueStart
  | value
  | quoted (isEmpty : Bool)
  | afterQuote
  deriving Repr, DecidableEq

namespace ParameterState

/-- The state after one more character, if it may stand there. A quoted value is not closed by its
    first character. -/
def next? (state : ParameterState) (c : Char) : Option ParameterState :=
  match state with
  | .start => if c = ' ' then some .start else if isTokenChar c then some .name else none
  | .name => if isTokenChar c then some .name else if c = '=' then some .valueStart else none
  | .valueStart =>
      if c = '\"' then some (.quoted true) else if isTokenChar c then some .value else none
  | .value => if isTokenChar c then some .value else if c = ';' then some .start else none
  | .quoted isEmpty =>
      if c = '\"' ∧ !isEmpty then some .afterQuote
      else if ' ' ≤ c ∧ c ≠ '\x7f' then some (.quoted false)
      else none
  | .afterQuote => if c = ';' then some .start else if c = ' ' then some .afterQuote else none

/-- Whether the text may end in this state. -/
def canEnd : ParameterState → Bool
  | .name => false
  | .quoted _ => false
  | _ => true

end ParameterState

/-- Whether a text is a list of parameters. -/
def areParameters (cs : List Char) : Bool :=
  match cs.foldlM ParameterState.next? .start with
  | some state => state.canEnd
  | none => false

/-- A type and a subtype. -/
structure MediaType where
  type : List Char
  subtype : List Char
  deriving Repr, DecidableEq

namespace MediaType

/-- The type and the subtype of a header, in lower case. -/
def ofHeader? (text : String) : Option MediaType :=
  let cs := text.toList
  if !cs.all fun c => ' ' ≤ c && c ≤ '~' then none
  else
    match cs.dropWhile isTokenChar with
    | '/' :: after =>
        let type := cs.takeWhile isTokenChar
        let subtype := after.takeWhile isTokenChar
        let parameters :=
          match after.dropWhile isTokenChar with
          | [] => true
          | ';' :: parameters => !subtype.isEmpty && areParameters parameters
          | _ => false
        if !type.isEmpty && parameters then some ⟨type.map Char.toLower, subtype.map Char.toLower⟩
        else none
    | _ => none

/-- Cuts a subtype at its last plus sign, unless that is its first character. The second part is the
    suffix. -/
def suffixed (subtype : List Char) : List Char × Option (List Char) :=
  let fromEnd := subtype.reverse
  match fromEnd.dropWhile (· ≠ '+') with
  | _ :: c :: before => ((c :: before).reverse, some (fromEnd.takeWhile (· ≠ '+')).reverse)
  | _ => (subtype, none)

/-- Whether this is `application/json`, with any suffix, or `application/` with suffix `json`. -/
def isJson (media : MediaType) : Bool :=
  let (plain, suffix) := suffixed media.subtype
  media.type = "application".toList && (plain = "json".toList || suffix = some "json".toList)

end MediaType

/-- Whether a header says that the body is JSON. -/
def saysJson (header : Option String) : Bool :=
  match header.bind MediaType.ofHeader? with
  | some media => media.isJson
  | none => false

end Paycard.Service
