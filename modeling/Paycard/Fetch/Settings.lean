import Paycard.Text.Decimal

/-! # Fetch settings

Where the dictionary is and how patiently it is asked for, with the values that hold when nothing else
is said.
-/

namespace Paycard.Fetch

/-- How a dictionary is fetched. The number of attempts includes the first one. -/
structure Settings where
  url : String
  timeoutMs : UInt64
  maxAttempts : UInt32
  retryDelayMs : UInt64
  deriving Repr, DecidableEq

/-- The settings when none are given. -/
def Settings.standard : Settings where
  url := "https://sumup-op-hiring-test.s3.eu-west-1.amazonaws.com/api-mock/cards-dictionary.json"
  timeoutMs := 5000
  maxAttempts := 3
  retryDelayMs := 0

/-- The number of attempts that are made at most. Zero counts as one. -/
def Settings.attempts (settings : Settings) : Nat := max 1 settings.maxAttempts.toNat

def readPort? (text : String) : Option UInt16 :=
  UInt16.ofNat <$> Text.unsigned? UInt16.size text.toList

def readAttempts? (text : String) : Option UInt32 :=
  UInt32.ofNat <$> Text.unsigned? UInt32.size text.toList

def readMillis? (text : String) : Option UInt64 :=
  UInt64.ofNat <$> Text.unsigned? UInt64.size text.toList

end Paycard.Fetch
