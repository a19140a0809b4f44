import Paycard.Rule.Basic
import Paycard.Text.Blank
import Paycard.Text.Decimal

/-! # Reading rule text

Rule text is a list of tokens with commas between them. A token is one integer, or two with a hyphen
between them. A token that is neither is dropped and reported; the others are still read.
-/

namespace Paycard

/-- A token that is no rule. The literal is its parts with commas between them. -/
structure MalformedRule where
  literal : String
  deriving Repr, DecidableEq

namespace MalformedRule

/-- The report on a token with these parts. -/
def ofParts (parts : List (List Char)) : MalformedRule :=
  ⟨String.ofList ([','].intercalate parts)⟩

/-- The line that reports a dropped token. -/
def message (e : MalformedRule) : String := "Invalid rule - " ++ e.literal

end MalformedRule

/-- The rules of a text and the reports on its dropped tokens, both in token order. -/
structure RuleText where
  rules : List Rule
  dropped : List MalformedRule
  deriving Repr, DecidableEq

namespace Rule

/-- The integer that a literal starts with. White space may come first, then one plus sign; the
    digits that follow must write a value below 2^64, and anything may come after them. -/
def leadingInteger? (literal : List Char) : Option UInt64 :=
  UInt64.ofNat <$> Text.leadingUnsigned? UInt64.size (literal.dropWhile Text.isBlank)

/-- Reads a single value. Only the first part counts, and no part is as good as an empty one. -/
def ofDigitsParts (parts : List (List Char)) : Except MalformedRule Rule :=
  let literal := parts.head?.getD []
  match leadingInteger? literal with
  | some value => .ok (.digits value)
  | none => .error (.ofParts [literal])

/-- The interval that two literals write, bounds in order. -/
def intervalOf? (low high : List Char) : Option Rule := do
  interval? (← leadingInteger? low) (← leadingInteger? high)

/-- Reads an interval: exactly two parts. -/
def ofIntervalParts (parts : List (List Char)) : Except MalformedRule Rule :=
  match parts with
  | [low, high] => (intervalOf? low high).elim (.error (.ofParts parts)) .ok
  | _ => .error (.ofParts parts)

/-- Reads one token: a hyphen makes it an interval. -/
def ofToken (token : List Char) : Except MalformedRule Rule :=
  match token.splitOn '-' with
  | [literal] => ofDigitsParts [literal]
  | parts => ofIntervalParts parts

/-- Sorts what a list of tokens gives into rules and reports. -/
def ofTokens : List (List Char) → RuleText
  | [] => ⟨[], []⟩
  | token :: tokens =>
      let rest := ofTokens tokens
      match ofToken token with
      | .ok rule => { rest with rules := rule :: rest.rules }
      | .error e => { rest with dropped := e :: rest.dropped }

end Rule

namespace RuleText

/-- Reads rule text. Every text is read, at worst with all its tokens dropped. -/
def parse (text : String) : RuleText := Rule.ofTokens (text.toList.splitOn ',')

end RuleText

/-- The rules of a text without the reports. -/
def Rule.parse (text : String) : List Rule := (RuleText.parse text).rules

end Paycard
