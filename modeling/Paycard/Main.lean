import Paycard.Command.Run

/-! # The command-line program

Reads the environment and, where one is named, the dictionary file. Requests go unanswered, because
there is no transport behind them here.
-/

open Paycard Command

def readEnvironment : IO Environment := do
  let names := ["CARD_SCHEME_URL", "CARD_SCHEME_TIMEOUT_MS", "CARD_SCHEME_ATTEMPTS"]
  let values ← names.mapM fun name => return (name, ← IO.getEnv name)
  return fun name => (values.lookup name).join

/-- The text of a file, or why there is none. -/
def readDictionary (path : String) : IO (Except FileError String) := do
  try
    return .ok (← IO.FS.readFile path)
  catch e =>
    match e with
    | .noFileOrDirectory .. => return .error .notFound
    | _ => return .error (.other (toString e))

/-- The dictionary file that an invocation names. -/
def dictionaryFile? : Invocation → Option String
  | .detect _ source _ => source.file
  | .assess _ source _ => source.file
  | _ => none

def main (arguments : List String) : IO UInt32 := do
  let environment ← readEnvironment
  let invocation := Invocation.ofArguments? environment arguments
  let text ← (invocation.bind dictionaryFile?).mapM readDictionary
  let world : World :=
    { environment, file := fun _ => text.getD (.error .notFound), replies := fun _ => .lost false }
  let outcome := run world arguments
  IO.print outcome.output
  IO.eprint outcome.errors
  return outcome.code.toUInt32
