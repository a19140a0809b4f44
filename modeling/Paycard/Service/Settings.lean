import Paycard.Fetch.Settings

/-! # Server settings

Each setting is the value after the first occurrence of its flag, if that value can be read; or else the
value of its environment variable, if that can be read; or else the standard one. Arguments have no
grammar beyond that.
-/

namespace Paycard.Service

/-- The argument after the first occurrence of a flag, whatever it is. -/
def flagValue? (arguments : List String) (flag : String) : Option String :=
  (arguments.dropWhile (· ≠ flag))[1]?

/-- A setting from its flag or its environment variable. -/
def setting? {α : Type} (read? : String → Option α) (arguments : List String)
    (environment : String → Option String) (flag variableName : String) : Option α :=
  ((flagValue? arguments flag).bind read?).or ((environment variableName).bind read?)

/-- What the server is told when it starts. -/
structure Settings where
  port : Option UInt16
  fetch : Fetch.Settings
  deriving Repr, DecidableEq

namespace Settings

/-- Where the server listens when no port is given. -/
def standardPort : UInt16 := 3000

/-- The settings of a command line and an environment. -/
def resolve (arguments : List String) (environment : String → Option String) : Settings :=
  let standard := Fetch.Settings.standard
  let url := setting? some arguments environment "--url" "CARD_SCHEME_URL"
  let timeoutMs :=
    setting? Fetch.readMillis? arguments environment "--timeout-ms" "CARD_SCHEME_TIMEOUT_MS"
  let maxAttempts :=
    setting? Fetch.readAttempts? arguments environment "--attempts" "CARD_SCHEME_ATTEMPTS"
  { port := setting? Fetch.readPort? arguments environment "--port" "PORT"
    fetch :=
      { standard with
        url := url.getD standard.url
        timeoutMs := timeoutMs.getD standard.timeoutMs
        maxAttempts := maxAttempts.getD standard.maxAttempts } }

/-- The address that the server listens on. -/
def address (settings : Settings) : String :=
  "http://0.0.0.0:" ++ Nat.repr (settings.port.getD standardPort).toNat

end Settings

end Paycard.Service
