import Paycard.Json.Printer
import Paycard.Json.Token
import Paycard.Proofs.Json.Literal

/-! # Tokens of a printed value

A printed value is cut into the tokens that it is made of. That needs its numbers to be literals; each of
them ends where it should, because a mark or the end of the text follows it.
-/

namespace Paycard.Json

/-- A number whose text is a number literal with that value. -/
def Number.IsLiteral (number : Number) : Prop :=
  ∃ n : Numeral, n.Legal ∧ n.chars = number.chars ∧ n.number? = some number

theorem Number.isLiteral_natural (value : UInt64) : (Number.natural value).IsLiteral := by
  refine ⟨⟨false, Nat.toDigits 10 value.toNat, none, none⟩, ?_, ?_, ?_⟩
  · exact ⟨Text.canonical_toDigits value.toNat, by simp, by simp⟩
  · simp [Numeral.chars, Number.chars]
  · have written : Nat.ofDigitChars 10 (Nat.toDigits 10 value.toNat) 0 = value.toNat :=
      Text.valueOf_toDigits value.toNat
    simp [Numeral.number?, Numeral.natural?, written, value.toNat_lt_size]

mutual

/-- A value that can be written and read again: its numbers are literals, and no more than `room`
    containers stand one inside another. -/
def Writable (room : Nat) : Json → Prop
  | .number value => value.IsLiteral
  | .array items => 0 < room ∧ WritableItems (room - 1) items
  | .object members => 0 < room ∧ WritableMembers (room - 1) members
  | _ => True

def WritableItems (room : Nat) : List Json → Prop
  | [] => True
  | item :: items => item.Writable room ∧ WritableItems room items

def WritableMembers (room : Nat) : List (String × Json) → Prop
  | [] => True
  | (_, value) :: members => value.Writable room ∧ WritableMembers room members

end

/-! ## Tokens -/

mutual

/-- The tokens of a printed value. -/
def toTokens : Json → List Token
  | .null => [.null]
  | .bool value => [.bool value]
  | .number value => [.number (some value)]
  | .string value => [.string (some value)]
  | .array [] => [.openArray, .closeArray]
  | .array (item :: items) => .openArray :: item.toTokens ++ tokensAfterItem items
  | .object [] => [.openObject, .closeObject]
  | .object ((key, value) :: members) =>
      .openObject :: .string (some key) :: .colon :: value.toTokens ++ tokensAfterMember members

def tokensAfterItem : List Json → List Token
  | [] => [.closeArray]
  | item :: items => .comma :: item.toTokens ++ tokensAfterItem items

def tokensAfterMember : List (String × Json) → List Token
  | [] => [.closeObject]
  | (key, value) :: members =>
      .comma :: .string (some key) :: .colon :: value.toTokens ++ tokensAfterMember members

end

theorem tokensWith_cons {text? : List Piece → Option String} {c : Char} {cs rest : List Char}
    {token : Token} (visible : isSpace c = false)
    (scanned : Token.scanWith? text? c cs = some (token, rest)) :
    tokensWith text? (c :: cs) = token :: tokensWith text? rest := by
  rw [tokensWith, if_neg (by simp [visible])]
  split
  · rename_i none
    rw [none] at scanned
    cases scanned
  · rename_i other tail found
    rw [found] at scanned
    cases scanned
    rfl

theorem tokensWith_of_none {text? : List Piece → Option String} {c : Char} {cs : List Char}
    (visible : isSpace c = false) (none : Token.scanWith? text? c cs = none) :
    tokensWith text? (c :: cs) = [.invalid] := by
  rw [tokensWith, if_neg (by simp [visible])]
  split
  · rfl
  · rename_i found
    rw [none] at found
    cases found

theorem tokensWith_space (text? : List Piece → Option String) {c : Char} (space : isSpace c = true)
    (cs : List Char) : tokensWith text? (c :: cs) = tokensWith text? cs := by
  rw [tokensWith, if_pos space]

theorem tokens_mark {c : Char} {token : Token} (mark : Token.mark? c = some token)
    (visible : isSpace c = false) (rest : List Char) : tokens (c :: rest) = token :: tokens rest := by
  apply tokensWith_cons visible
  rw [Token.scanWith?, mark]

theorem tokens_quote (text : String) (rest : List Char) :
    tokens (quote text ++ rest) = .string (some text) :: tokens rest := by
  have scanned := Token.scanWith?_quote text rest
  rw [quote, List.cons_append, List.cons_append, List.append_assoc]
  exact tokensWith_cons (by decide) scanned

theorem Token.scanWith?_number (text? : List Piece → Option String) {c : Char}
    (start : c = '-' ∨ c.isDigit = true) (cs : List Char) :
    scanWith? text? c cs = (fun (n, rest) => (.number n.number?, rest)) <$> Numeral.scan? (c :: cs) := by
  rcases start with rfl | digit
  · rfl
  · have other (d : Char) (notDigit : d.isDigit = false) : c ≠ d := by
      rintro rfl
      rw [digit] at notDigit
      cases notDigit
    simp [scanWith?, mark?, other '{' rfl, other '}' rfl, other '[' rfl, other ']' rfl, other ',' rfl,
      other ':' rfl, other '\"' rfl, other 'n' rfl, other 't' rfl, other 'f' rfl]

theorem isSpace_of_number {c : Char} (start : c = '-' ∨ c.isDigit = true) : isSpace c = false := by
  rcases start with rfl | digit
  · rfl
  · have other (d : Char) (notDigit : d.isDigit = false) : c ≠ d := by
      rintro rfl
      rw [digit] at notDigit
      cases notDigit
    simp [isSpace, other ' ' rfl, other '\t' rfl, other '\n' rfl, other '\r' rfl]

theorem Numeral.Spelled.exists_cons {n : Numeral} {literal : List Char} (spelled : n.Spelled literal) :
    ∃ c cs, literal = c :: cs ∧ (c = '-' ∨ c.isDigit = true) := by
  cases spelled with
  | parts legal _ =>
      cases n.negative with
      | true => exact ⟨'-', _, rfl, .inl rfl⟩
      | false =>
          obtain ⟨c, cs, whole⟩ := List.exists_cons_of_ne_nil legal.whole.nonempty
          refine ⟨c, _, by rw [whole]; rfl, .inr ?_⟩
          exact legal.whole.digits c (by rw [whole]; exact List.mem_cons_self)

theorem tokensWith_number (text? : List Piece → Option String) {n : Numeral} {literal rest : List Char}
    (spelled : n.Spelled literal) (stop : Stops rest) :
    tokensWith text? (literal ++ rest) = .number n.number? :: tokensWith text? rest := by
  obtain ⟨c, cs, first, start⟩ := spelled.exists_cons
  have read := Numeral.scan?_append spelled stop
  rw [first, List.cons_append] at read ⊢
  apply tokensWith_cons (isSpace_of_number start)
  rw [Token.scanWith?_number _ start, read]
  rfl

theorem tokens_number {number : Number} (literal : number.IsLiteral) {rest : List Char}
    (stop : Stops rest) : tokens (number.chars ++ rest) = .number (some number) :: tokens rest := by
  obtain ⟨n, legal, chars, value⟩ := literal
  rw [← chars, ← value]
  exact tokensWith_number Piece.text? (Numeral.spelled_chars legal) stop

theorem stops_charsAfterItem (items : List Json) (rest : List Char) : Stops (charsAfterItem items ++ rest) := by
  intro c member
  cases items with
  | nil =>
      obtain rfl : ']' = c := by simpa [charsAfterItem] using member
      decide
  | cons item items =>
      obtain rfl : ',' = c := by simpa [charsAfterItem] using member
      decide

theorem stops_charsAfterMember (members : List (String × Json)) (rest : List Char) :
    Stops (charsAfterMember members ++ rest) := by
  intro c member
  cases members with
  | nil =>
      obtain rfl : '}' = c := by simpa [charsAfterMember] using member
      decide
  | cons first members =>
      obtain rfl : ',' = c := by simpa [charsAfterMember] using member
      decide

mutual

/-- A printed value is cut into its tokens. -/
theorem tokens_chars : ∀ (value : Json) (room : Nat) (rest : List Char), value.Writable room →
    Stops rest → tokens (value.chars ++ rest) = value.toTokens ++ tokens rest
  | .null, _, rest, _, _ => by
      exact tokensWith_cons (by decide) rfl
  | .bool true, _, rest, _, _ => tokensWith_cons (by decide) rfl
  | .bool false, _, rest, _, _ => tokensWith_cons (by decide) rfl
  | .number value, _, rest, writable, stop => tokens_number writable stop
  | .string value, _, rest, _, _ => tokens_quote value rest
  | .array [], _, rest, _, _ => by
      simp only [chars, List.cons_append, List.nil_append, toTokens]
      rw [tokens_mark rfl rfl, tokens_mark rfl rfl]
  | .array (item :: items), room, rest, ⟨_, first, others⟩, _ => by
      simp only [chars, List.cons_append, List.append_assoc, toTokens]
      rw [tokens_mark rfl rfl, tokens_chars item _ _ first (stops_charsAfterItem items rest),
        tokens_charsAfterItem items _ rest others]
  | .object [], _, rest, _, _ => by
      simp only [chars, List.cons_append, List.nil_append, toTokens]
      rw [tokens_mark rfl rfl, tokens_mark rfl rfl]
  | .object ((key, value) :: members), room, rest, ⟨_, first, others⟩, _ => by
      simp only [chars, List.cons_append, List.append_assoc, toTokens]
      rw [tokens_mark rfl rfl, tokens_quote, tokens_mark rfl rfl,
        tokens_chars value _ _ first (stops_charsAfterMember members rest),
        tokens_charsAfterMember members _ rest others]

theorem tokens_charsAfterItem : ∀ (items : List Json) (room : Nat) (rest : List Char),
    WritableItems room items →
    tokens (charsAfterItem items ++ rest) = tokensAfterItem items ++ tokens rest
  | [], _, rest, _ => tokens_mark rfl rfl rest
  | item :: items, room, rest, ⟨first, others⟩ => by
      simp only [charsAfterItem, List.cons_append, List.append_assoc, tokensAfterItem]
      rw [tokens_mark rfl rfl, tokens_chars item _ _ first (stops_charsAfterItem items rest),
        tokens_charsAfterItem items _ rest others]

theorem tokens_charsAfterMember : ∀ (members : List (String × Json)) (room : Nat) (rest : List Char),
    WritableMembers room members →
    tokens (charsAfterMember members ++ rest) = tokensAfterMember members ++ tokens rest
  | [], _, rest, _ => tokens_mark rfl rfl rest
  | (key, value) :: members, room, rest, ⟨first, others⟩ => by
      simp only [charsAfterMember, List.cons_append, List.append_assoc, tokensAfterMember]
      rw [tokens_mark rfl rfl, tokens_quote, tokens_mark rfl rfl,
        tokens_chars value _ _ first (stops_charsAfterMember members rest),
        tokens_charsAfterMember members _ rest others]

end

end Paycard.Json
