/-! # Command-line arguments

The grammar of the arguments after the command's name. A flag takes one value: after an equals sign,
attached to its letter, or as the next argument. What starts with a hyphen is a flag, except a single
hyphen; after two hyphens alone everything is an operand.
-/

namespace Paycard.Command

inductive Flag where
  | output
  | dictionary
  | url
  | timeoutMs
  | attempts
  deriving Repr, DecidableEq

namespace Flag

def ofName? : String → Option Flag
  | "output" => some .output
  | "dictionary" => some .dictionary
  | "url" => some .url
  | "timeout-ms" => some .timeoutMs
  | "attempts" => some .attempts
  | _ => none

def ofLetter? (letter : Char) : Option Flag :=
  if letter = 'o' then some .output
  else if letter = 'd' then some .dictionary
  else none

end Flag

/-- What one argument is by itself. -/
inductive Argument where
  | operand (text : String)
  | operandsOnly
  | flag (flag : Flag) (value : Option String)
  | unknown
  deriving Repr, DecidableEq

namespace Argument

/-- The value after the first equals sign, if there is one. -/
def valueAfterEquals? (cs : List Char) : Option String :=
  match cs.dropWhile (· != '=') with
  | [] => none
  | _ :: value => some (String.ofList value)

/-- The value attached to the letter of a flag, if there is one. An equals sign in front of it does
    not count. -/
def attachedValue? : List Char → Option String
  | [] => none
  | '=' :: value => some (String.ofList value)
  | value => some (String.ofList value)

/-- Sorts out an argument that stands where a flag may stand. -/
def ofText (text : String) : Argument :=
  match text.toList with
  | ['-', '-'] => .operandsOnly
  | '-' :: '-' :: cs =>
      match Flag.ofName? (String.ofList (cs.takeWhile (· != '='))) with
      | some known => .flag known (valueAfterEquals? cs)
      | none => .unknown
  | '-' :: letter :: cs =>
      match Flag.ofLetter? letter with
      | some known => .flag known (attachedValue? cs)
      | none => .unknown
  | _ => .operand text

end Argument

/-- The operand and the flags that were given. -/
structure Arguments where
  operand : Option String := none
  flags : List (Flag × String) := []
  deriving Repr, DecidableEq

namespace Arguments

def value? (arguments : Arguments) (flag : Flag) : Option String := arguments.flags.lookup flag

/-- Takes an operand. There is room for one. -/
def withOperand? (arguments : Arguments) (text : String) : Option Arguments :=
  match arguments.operand with
  | none => some { arguments with operand := some text }
  | some _ => none

/-- Takes a flag. It must be one that the command knows, and each may stand once. -/
def withFlag? (allowed : List Flag) (arguments : Arguments) (flag : Flag) (value : String) :
    Option Arguments :=
  if allowed.contains flag && (arguments.value? flag).isNone then
    some { arguments with flags := (flag, value) :: arguments.flags }
  else none

/-- Whether an argument can be the value of the flag before it. -/
def isValue (text : String) : Bool :=
  match Argument.ofText text with
  | .operand _ => true
  | _ => false

/-- Reads arguments one after another, with what was read before. -/
def readOn? (allowed : List Flag) (arguments : Arguments) : List String → Option Arguments
  | [] => some arguments
  | text :: rest =>
      match Argument.ofText text with
      | .operand text => do readOn? allowed (← arguments.withOperand? text) rest
      | .operandsOnly => rest.foldlM withOperand? arguments
      | .flag flag (some value) => do readOn? allowed (← arguments.withFlag? allowed flag value) rest
      | .flag flag none =>
          match rest with
          | [] => none
          | value :: rest =>
              if isValue value then do readOn? allowed (← arguments.withFlag? allowed flag value) rest
              else none
      | .unknown => none

/-- Reads the arguments of a command that knows these flags. -/
def read? (allowed : List Flag) (texts : List String) : Option Arguments := readOn? allowed {} texts

end Arguments

end Paycard.Command
