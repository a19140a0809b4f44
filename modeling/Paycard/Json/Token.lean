import Paycard.Json.Number

/-! # JSON tokens

`tokens` cuts a text into brackets, marks, words, numbers and strings. It stops at the first character
that starts no token and puts `Token.invalid` there. A string or number may be well formed and still
have no value: a string with half a surrogate pair, a number beyond the floats. Such a token has the
value `none`, because a reader that only skips it takes no offence.
-/

namespace Paycard.Json

inductive Token where
  | openObject | closeObject | openArray | closeArray | comma | colon
  | null
  | bool (value : Bool)
  | number (value : Option Number)
  | string (value : Option String)
  | invalid
  deriving Repr, DecidableEq

/-- The four white space characters of the format. -/
def isSpace (c : Char) : Bool := c = ' ' || c = '\t' || c = '\n' || c = '\r'

/-- One character of a string literal: itself, or a UTF-16 unit given by its number. -/
inductive Piece where
  | char (c : Char)
  | unit (n : Nat)
  deriving Repr, DecidableEq

namespace Piece

def hexDigit? (c : Char) : Option Nat :=
  if c.isDigit then some (c.toNat - '0'.toNat)
  else if 'a' ≤ c && c ≤ 'f' then some (c.toNat - 'a'.toNat + 10)
  else if 'A' ≤ c && c ≤ 'F' then some (c.toNat - 'A'.toNat + 10)
  else none

/-- The unit that four hexadecimal digits write. -/
def unit? (a b c d : Char) : Option Piece := do
  let (w, x, y, z) := (← hexDigit? a, ← hexDigit? b, ← hexDigit? c, ← hexDigit? d)
  return .unit (((w * 16 + x) * 16 + y) * 16 + z)

/-- The character that a backslash and this letter stand for. -/
def short? (c : Char) : Option Piece :=
  if c = '\"' ∨ c = '\\' ∨ c = '/' then some (.char c)
  else if c = 'b' then some (.char '\x08')
  else if c = 'f' then some (.char '\x0c')
  else if c = 'n' then some (.char '\n')
  else if c = 'r' then some (.char '\r')
  else if c = 't' then some (.char '\t')
  else none

/-- Reads a string literal up to its closing quote and returns the rest of the text. Control
    characters must be escaped. -/
def scan? : List Char → Option (List Piece × List Char)
  | [] => none
  | c :: cs =>
      if c = '\"' then some ([], cs)
      else if c = '\\' then
        match cs with
        | 'u' :: h₁ :: h₂ :: h₃ :: h₄ :: rest => do
            let piece ← unit? h₁ h₂ h₃ h₄
            let (pieces, rest) ← scan? rest
            return (piece :: pieces, rest)
        | letter :: rest => do
            let piece ← short? letter
            let (pieces, rest) ← scan? rest
            return (piece :: pieces, rest)
        | [] => none
      else if c < ' ' then none
      else do
        let (pieces, rest) ← scan? cs
        return (.char c :: pieces, rest)

/-- Whether a unit is the first half of a surrogate pair. -/
def isHigh (n : Nat) : Bool := 0xD800 ≤ n && n ≤ 0xDBFF

/-- Whether a unit is the second half of a surrogate pair. -/
def isLow (n : Nat) : Bool := 0xDC00 ≤ n && n ≤ 0xDFFF

/-- The character that a surrogate pair stands for. -/
def pair (high low : Nat) : Char := Char.ofNat (0x10000 + (high - 0xD800) * 0x400 + (low - 0xDC00))

/-- Puts a string literal together from what its plain pieces stand for and from what the characters do
    that its units give. Each half of a surrogate pair has to stand beside the other. -/
def joinWith? {α : Type} (plain escaped : Char → List α) : List Piece → Option (List α)
  | [] => some []
  | .char c :: rest => (plain c ++ ·) <$> joinWith? plain escaped rest
  | .unit n :: .unit m :: rest =>
      if isHigh n then
        if isLow m then (escaped (pair n m) ++ ·) <$> joinWith? plain escaped rest else none
      else if isLow n then none
      else (escaped (Char.ofNat n) ++ ·) <$> joinWith? plain escaped (.unit m :: rest)
  | .unit n :: rest =>
      if isHigh n || isLow n then none
      else (escaped (Char.ofNat n) ++ ·) <$> joinWith? plain escaped rest

/-- The characters of a string literal. -/
def join? : List Piece → Option (List Char) := joinWith? (fun c => [c]) (fun c => [c])

/-- The text of a string literal. -/
def text? (pieces : List Piece) : Option String := String.ofList <$> join? pieces

/-- The rest of the text after a string literal is shorter than the text. -/
theorem length_scan? {cs : List Char} {pieces : List Piece} {rest : List Char}
    (h : scan? cs = some (pieces, rest)) : rest.length < cs.length := by
  fun_induction scan? cs generalizing pieces rest with
  | case1 => simp at h
  | case2 => simp_all
  | case3 h₁ h₂ h₃ h₄ tail _ ih =>
      simp only [Option.bind_eq_bind, Option.bind_eq_some_iff] at h
      obtain ⟨_, _, ⟨_, _⟩, hs, he⟩ := h
      have := ih hs
      simp_all
      omega
  | case4 letter tail _ _ ih =>
      simp only [Option.bind_eq_bind, Option.bind_eq_some_iff] at h
      obtain ⟨_, _, ⟨_, _⟩, hs, he⟩ := h
      have := ih hs
      simp_all
      omega
  | case5 => simp at h
  | case6 => simp at h
  | case7 c tail _ _ _ ih =>
      simp only [Option.bind_eq_bind, Option.bind_eq_some_iff] at h
      obtain ⟨⟨_, _⟩, hs, he⟩ := h
      have := ih hs
      simp_all
      omega

end Piece

namespace Token

/-- The token that one character is by itself. -/
def mark? (c : Char) : Option Token :=
  if c = '{' then some .openObject
  else if c = '}' then some .closeObject
  else if c = '[' then some .openArray
  else if c = ']' then some .closeArray
  else if c = ',' then some .comma
  else if c = ':' then some .colon
  else none

/-- The text after a word, if it starts with the word. -/
def afterWord? : List Char → List Char → Option (List Char)
  | [], cs => some cs
  | w :: ws, c :: cs => if c = w then afterWord? ws cs else none
  | _ :: _, [] => none

/-- The token that starts with this character, and the rest of the text. What the pieces of a string
    literal give is left open. -/
def scanWith? (text? : List Piece → Option String) (c : Char) (cs : List Char) :
    Option (Token × List Char) :=
  match mark? c with
  | some t => some (t, cs)
  | none =>
      if c = '\"' then (fun (pieces, rest) => (.string (text? pieces), rest)) <$> Piece.scan? cs
      else if c = 'n' then (.null, ·) <$> afterWord? ['u', 'l', 'l'] cs
      else if c = 't' then (.bool true, ·) <$> afterWord? ['r', 'u', 'e'] cs
      else if c = 'f' then (.bool false, ·) <$> afterWord? ['a', 'l', 's', 'e'] cs
      else (fun (n, rest) => (.number n.number?, rest)) <$> Numeral.scan? (c :: cs)

theorem length_afterWord? {word cs rest : List Char} (h : afterWord? word cs = some rest) :
    rest.length ≤ cs.length := by
  fun_induction afterWord? word cs with
  | case1 => simp_all
  | case2 ws w cs ih =>
      have := ih h
      rw [List.length_cons]
      omega
  | case3 => simp at h
  | case4 => simp at h

/-- A token takes at least its first character from the text. -/
theorem length_scanWith? {text? : List Piece → Option String} {c : Char} {cs rest : List Char} {t : Token}
    (h : scanWith? text? c cs = some (t, rest)) : rest.length ≤ cs.length := by
  unfold scanWith? at h
  split at h
  · simp_all
  · repeat' split at h
    all_goals
      obtain ⟨x, hx, hr⟩ := Option.map_eq_some_iff.1 h
      simp only [Prod.mk.injEq] at hr
    · exact hr.2 ▸ Nat.le_of_lt (Piece.length_scan? hx)
    · exact hr.2 ▸ length_afterWord? hx
    · exact hr.2 ▸ length_afterWord? hx
    · exact hr.2 ▸ length_afterWord? hx
    · exact hr.2 ▸ Nat.le_of_lt_succ (Numeral.length_scan? hx)

end Token

/-- The tokens of a text, up to the first character that starts none. -/
def tokensWith (text? : List Piece → Option String) (text : List Char) : List Token :=
  match text with
  | [] => []
  | c :: cs =>
      if isSpace c then tokensWith text? cs
      else
        match _h : Token.scanWith? text? c cs with
        | none => [.invalid]
        | some (t, rest) => t :: tokensWith text? rest
termination_by text.length
decreasing_by
  · simp
  · exact Nat.lt_succ_of_le (Token.length_scanWith? ‹_›)

/-- The tokens of a text that is given in characters. -/
def tokens (text : List Char) : List Token := tokensWith Piece.text? text

end Paycard.Json
