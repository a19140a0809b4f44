import Paycard.Command.Arguments
import Paycard.Fetch.Settings

/-! # Invocations

What a user asks for on the command line. Fetch settings come from flags, then from the environment,
then from the standard settings. A value from the environment must be good only where no flag stands in
front of it.
-/

namespace Paycard.Command

inductive Format where
  | text
  | json
  deriving Repr, DecidableEq

/-- Where the dictionary comes from: a file, or a fetch with these settings. -/
structure Source where
  file : Option String
  settings : Fetch.Settings
  deriving Repr, DecidableEq

/-- One of the four commands with its input. -/
inductive Invocation where
  | luhn (number : String)
  | parse (rules : String) (format : Format)
  | detect (number : String) (source : Source) (format : Format)
  | assess (number : String) (source : Source) (format : Format)
  deriving Repr, DecidableEq

/-- The value of an environment variable, if it is set. -/
abbrev Environment := String → Option String

namespace Arguments

/-- The output format. It is text unless a flag says otherwise. -/
def format? (arguments : Arguments) : Option Format :=
  match arguments.value? .output with
  | none => some .text
  | some "text" => some .text
  | some "json" => some .json
  | some _ => none

/-- A setting: the flag's value, or else the variable's, or else the standard one. -/
def setting? {α : Type} (arguments : Arguments) (environment : Environment) (flag : Flag)
    (variableName : String) (read? : String → Option α) (standard : α) : Option α :=
  match (arguments.value? flag).or (environment variableName) with
  | some text => read? text
  | none => some standard

/-- Reads the number of attempts. A minus sign is allowed in front of zero. -/
def readAttempts? (text : String) : Option UInt32 :=
  match text.toList with
  | '-' :: digits =>
      if digits.all Char.isDigit && Text.valueBelow? 1 digits == some 0 then some 0 else none
  | _ => Fetch.readAttempts? text

/-- The dictionary source. The name of a file cannot be empty. -/
def source? (arguments : Arguments) (environment : Environment) : Option Source := do
  let file := arguments.value? .dictionary
  let standard := Fetch.Settings.standard
  let url ← arguments.setting? environment .url "CARD_SCHEME_URL" some standard.url
  let timeoutMs ← arguments.setting? environment .timeoutMs "CARD_SCHEME_TIMEOUT_MS" Fetch.readMillis?
    standard.timeoutMs
  let maxAttempts ← arguments.setting? environment .attempts "CARD_SCHEME_ATTEMPTS" readAttempts?
    standard.maxAttempts
  if file = some "" then none
  else return ⟨file, { standard with url, timeoutMs, maxAttempts }⟩

end Arguments

namespace Invocation

def dictionaryFlags : List Flag := [.output, .dictionary, .url, .timeoutMs, .attempts]

/-- Reads the arguments after the program's name: a command, then its flags and its operand. -/
def ofArguments? (environment : Environment) : List String → Option Invocation
  | "luhn" :: texts => do
      let arguments ← Arguments.read? [] texts
      return .luhn (← arguments.operand)
  | "parse" :: texts => do
      let arguments ← Arguments.read? [.output] texts
      return .parse (← arguments.operand) (← arguments.format?)
  | "detect" :: texts => do
      let arguments ← Arguments.read? dictionaryFlags texts
      return .detect (← arguments.operand) (← arguments.source? environment) (← arguments.format?)
  | "assess" :: texts => do
      let arguments ← Arguments.read? dictionaryFlags texts
      return .assess (← arguments.operand) (← arguments.source? environment) (← arguments.format?)
  | _ => none

end Invocation

end Paycard.Command
