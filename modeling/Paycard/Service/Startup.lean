import Paycard.Service.Settings
import Paycard.Store.Basic

/-! # Starting the server

The server loads the dictionary before it listens. It starts without schemes when that fails, and stops
when its address is taken.
-/

namespace Paycard.Service

/-- A server that is about to listen. -/
structure Startup where
  settings : Settings
  store : Store
  fetched : Fetched

namespace Startup

/-- Sets the server up. -/
def begin (settings : Settings) (replies : Script) : Startup :=
  let (store, fetched) := Store.load {} settings.fetch replies
  ⟨settings, store, fetched⟩

/-- Whether the first load failed. -/
def isWithoutRules (startup : Startup) : Bool := startup.fetched.result.toOption.isNone

/-- How often the first load was tried again. -/
def retries (startup : Startup) : Nat := startup.fetched.requests - 1

/-- The exit code, if the server stops instead of listening. -/
def exitCode? (_ : Startup) (addressInUse : Bool) : Option Nat :=
  if addressInUse then some 1 else none

end Startup

end Paycard.Service
