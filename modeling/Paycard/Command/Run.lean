import Paycard.Command.Invocation
import Paycard.Detection
import Paycard.Fetch.Basic
import Paycard.Rule.Printer
import Paycard.Rule.Wire

/-! # Running a command

A command prints a result and says by its exit code how it went: 0 for yes, 1 for no, 2 for an error.
Errors go to the error output only. A dictionary is loaded before the card number is looked at. Only
arguments that can be read start a command. What the argument parser says about all others, requests for
help among them, is left out.
-/

namespace Paycard.Command

/-- How a run ends and what it prints. The error output holds the program's own reports; the log lines that
    may stand among them, and the cause that is added to the report on a failed request, are left out. -/
structure Outcome where
  code : Nat
  output : String := ""
  errors : String := ""
  deriving Repr, DecidableEq

/-- Why a file could not be read. -/
inductive FileError where
  | notFound
  | other (reason : String)
  deriving Repr, DecidableEq

def FileError.message : FileError → String
  | .notFound => "No such file or directory (os error 2)"
  | .other reason => reason

/-- What a command can see of the outside: variables, files, and the replies to its requests. -/
structure World where
  environment : Environment
  file : String → Except FileError String
  replies : Script

/-- Why a dictionary could not be loaded. -/
inductive LoadError where
  | file (cause : FileError)
  | malformed (cause : MalformedResponse)
  | fetch (cause : FetchError)
  deriving Repr, DecidableEq

def LoadError.message : LoadError → String
  | .file cause => cause.message
  | .malformed cause => cause.message
  | .fetch cause => cause.message

/-- The schemes of a source. -/
def Source.load (world : World) (source : Source) : Except LoadError (List Scheme) :=
  match source.file with
  | some path =>
      match world.file path with
      | .error cause => .error (.file cause)
      | .ok text => (Dictionary.ofText text).mapError .malformed
  | none => (world.replies.fetch source.settings).result.mapError .fetch

/-- A card number without the spaces and hyphens that people put between its digits. -/
def stripSeparators (number : String) : String :=
  String.ofList (number.toList.filter fun c => c ≠ ' ' ∧ c ≠ '-')

namespace Outcome

def ofLines (code : Nat) (lines : List String) : Outcome where
  code
  output := String.join (lines.map (· ++ "\n"))

def failure (message : String) : Outcome where
  code := 2
  errors := "Error: " ++ message ++ "\n"

/-- Stands for the end of a run whose arguments start no command. The texts of the argument parser are left
    out, and so is that asking for help or for the version is no error. -/
def usage : Outcome where
  code := 2

end Outcome

/-- The exit code of an answer. -/
def exitCode (answer : Bool) : Nat := if answer then 0 else 1

/-- The name of a checksum result. -/
def checksumText (valid : Bool) : String := if valid then "PASS" else "FAIL"

def runLuhn (number : String) : Outcome :=
  match Luhn.check (stripSeparators number) with
  | .ok valid => .ofLines (exitCode valid) ["Luhn check: " ++ checksumText valid]
  | .error e => .failure e.message

def runParse (text : String) (format : Format) : Outcome :=
  let parsed := RuleText.parse text
  match format with
  | .text =>
      .ofLines 0 (("Rules: " ++ Rule.renderAll parsed.rules) ::
        parsed.dropped.map fun e => "Dropped: " ++ e.literal)
  | .json => .ofLines 0 [parsed.toJson.sorted.render]

def optionalText : Option String → Json
  | some text => .string text
  | none => .null

def runDetect (schemes : List Scheme) (number : String) (format : Format) : Outcome :=
  let scheme := detect? schemes (stripSeparators number)
  let lines :=
    match format, scheme with
    | .text, some s =>
        ["Detected Scheme: " ++ s.name ++ " (" ++ s.id ++ ")",
          "Valid Lengths: " ++ Rule.renderAll s.lengths]
    | .text, none => ["Detected Scheme: Unknown"]
    | .json, scheme =>
        [(Json.object [("scheme", optionalText (scheme.map (·.id))),
          ("name", optionalText (scheme.map (·.name))),
          ("icon", optionalText (scheme.map (·.icon)))]).sorted.render]
  .ofLines (exitCode scheme.isSome) lines

def runAssess (schemes : List Scheme) (number : String) (format : Format) : Outcome :=
  match assess schemes (stripSeparators number) with
  | .error e => .failure e.message
  | .ok assessment =>
      let acceptable := assessment.isAcceptable !schemes.isEmpty
      let lines :=
        match format with
        | .text =>
            ["Luhn check: " ++ checksumText assessment.checksumValid,
              "Scheme: " ++ (assessment.scheme.map (·.name)).getD "Unknown",
              "Acceptable: " ++ if acceptable then "yes" else "no"]
        | .json =>
            [(Json.object [("checksum_valid", .bool assessment.checksumValid),
              ("scheme", optionalText (assessment.scheme.map (·.id))),
              ("acceptable", .bool acceptable)]).sorted.render]
      .ofLines (exitCode acceptable) lines

/-- Loads a dictionary and goes on with its schemes. -/
def withSchemes (world : World) (source : Source) (run : List Scheme → Outcome) : Outcome :=
  match source.load world with
  | .ok schemes => run schemes
  | .error e => .failure ("could not load dictionary: " ++ e.message)

def Invocation.run (world : World) : Invocation → Outcome
  | .luhn number => runLuhn number
  | .parse rules format => runParse rules format
  | .detect number source format =>
      withSchemes world source fun schemes => runDetect schemes number format
  | .assess number source format =>
      withSchemes world source fun schemes => runAssess schemes number format

/-- Runs the program on the arguments after its name. Where they start no command, only that is told. -/
def run (world : World) (arguments : List String) : Outcome :=
  match Invocation.ofArguments? world.environment arguments with
  | some invocation => invocation.run world
  | none => .usage

end Paycard.Command
