/-! # Escaped characters

How a character is written inside a one-line message. The written form holds only printable ASCII
characters, and quotes and backslashes never stand bare.
-/

namespace Paycard.Text

/-- The printable ASCII characters, space included. -/
def isPrintable (c : Char) : Bool := ' ' ≤ c && c ≤ '~'

/-- A tab, a line end, a quote or a backslash takes a backslash and a letter or itself. Any other
    printable character stands for itself, and the rest is its code in lower-case hexadecimal
    between `\u` and braces. -/
def escape (c : Char) : List Char :=
  if c = '\t' then ['\\', 't']
  else if c = '\r' then ['\\', 'r']
  else if c = '\n' then ['\\', 'n']
  else if c = '\'' ∨ c = '\"' ∨ c = '\\' then ['\\', c]
  else if isPrintable c then [c]
  else ['\\', 'u', '{'] ++ Nat.toDigits 16 c.toNat ++ ['}']

end Paycard.Text
