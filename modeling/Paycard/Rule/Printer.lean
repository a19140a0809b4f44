import Paycard.Rule.Basic

/-! # Writing rule text

Rules are written in the form that the rule reader takes: an interval with one hyphen, and commas
between rules. No space is added.
-/

namespace Paycard.Rule

def chars : Rule → List Char
  | .digits value => Nat.toDigits 10 value.toNat
  | .interval min max => Nat.toDigits 10 min.toNat ++ '-' :: Nat.toDigits 10 max.toNat

def render (rule : Rule) : String := String.ofList rule.chars

def renderAll (rules : List Rule) : String :=
  String.ofList ([','].intercalate (rules.map chars))

end Paycard.Rule
