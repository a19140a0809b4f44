import Paycard.Proofs.Json.Bytes
import Paycard.Proofs.Json.Spelling
import Paycard.Proofs.Json.Tokens

/-! # The grammar of JSON tokens

How tokens are written, without a reader. The reader of tokens takes from a text in bytes exactly the tokens
that the text starts with by this grammar, provided that a comma or a closing bracket comes behind each
number: the grammar alone does not say where a number ends.
-/

namespace Paycard.Json

/-! ## String literals -/

namespace Piece

/-- The letters that may follow a backslash, each with the character that both stand for. -/
def shortEscapes : List (Char × Char) :=
  [('\"', '\"'), ('\\', '\\'), ('/', '/'), ('b', '\x08'), ('f', '\x0c'), ('n', '\n'), ('r', '\r'), ('t', '\t')]

/-- A hexadecimal digit of this value, in lower or upper case. -/
structure IsHex (c : Char) (value : Nat) : Prop where
  small : value < 16
  digit : c = Nat.digitChar value ∨ c = (Nat.digitChar value).toUpper

/-- A string literal behind its opening quote. -/
inductive Quoted : List Piece → List Char → Prop where
  | close : Quoted [] ['\"']
  | plain {c : Char} {pieces : List Piece} {cs : List Char} : c ≠ '\"' → c ≠ '\\' → ' ' ≤ c →
      Quoted pieces cs → Quoted (.char c :: pieces) (c :: cs)
  | short {letter c : Char} {pieces : List Piece} {cs : List Char} : (letter, c) ∈ shortEscapes →
      Quoted pieces cs → Quoted (.char c :: pieces) ('\\' :: letter :: cs)
  | unit {a b c d : Char} {w x y z : Nat} {pieces : List Piece} {cs : List Char} :
      IsHex a w → IsHex b x → IsHex c y → IsHex d z → Quoted pieces cs →
      Quoted (.unit (((w * 16 + x) * 16 + y) * 16 + z) :: pieces) ('\\' :: 'u' :: a :: b :: c :: d :: cs)

/-- The bytes that a string literal in bytes stands for. The halves of a surrogate pair stand for one
    character, and neither of them stands for anything by itself. -/
inductive StandsFor : List Piece → List UInt8 → Prop where
  | nothing : StandsFor [] []
  | byte (c : Char) {pieces : List Piece} {bytes : List UInt8} : StandsFor pieces bytes →
      StandsFor (.char c :: pieces) (c.toUInt8 :: bytes)
  | unit {n : Nat} {pieces : List Piece} {bytes : List UInt8} : ¬ (0xD800 ≤ n ∧ n ≤ 0xDFFF) →
      StandsFor pieces bytes →
      StandsFor (.unit n :: pieces) (String.utf8EncodeChar (Char.ofNat n) ++ bytes)
  | pair {high low : Nat} {pieces : List Piece} {bytes : List UInt8} : 0xD800 ≤ high → high ≤ 0xDBFF →
      0xDC00 ≤ low → low ≤ 0xDFFF → StandsFor pieces bytes →
      StandsFor (.unit high :: .unit low :: pieces)
        (String.utf8EncodeChar (Char.ofNat (0x10000 + (high - 0xD800) * 0x400 + (low - 0xDC00))) ++ bytes)

end Piece

/-! ## Tokens -/

/-- How a token is written. A string has a value if its bytes are those of a text. -/
inductive Token.Spelled : Token → List Char → Prop where
  | openObject : Spelled .openObject ['{']
  | closeObject : Spelled .closeObject ['}']
  | openArray : Spelled .openArray ['[']
  | closeArray : Spelled .closeArray [']']
  | comma : Spelled .comma [',']
  | colon : Spelled .colon [':']
  | null : Spelled .null ['n', 'u', 'l', 'l']
  | true : Spelled (.bool true) ['t', 'r', 'u', 'e']
  | false : Spelled (.bool false) ['f', 'a', 'l', 's', 'e']
  | number {n : Numeral} {literal : List Char} : n.Spelled literal → Spelled (.number n.number?) literal
  | string {pieces : List Piece} {literal : List Char} {value : Option String} : Piece.Quoted pieces literal →
      (∀ text, value = some text ↔ Piece.StandsFor pieces text.toUTF8.data.toList) →
      Spelled (.string value) ('\"' :: literal)

/-- A text that starts with these tokens. White space may stand before each of them. -/
inductive StartsWith : List Token → List Char → Prop where
  | nothing (cs : List Char) : StartsWith [] cs
  | space {c : Char} {tokens : List Token} {cs : List Char} : c ∈ [' ', '\t', '\n', '\r'] →
      StartsWith tokens cs → StartsWith tokens (c :: cs)
  | token {token : Token} {tokens : List Token} {literal rest : List Char} : token.Spelled literal →
      StartsWith tokens rest → StartsWith (token :: tokens) (literal ++ rest)

/-! ## Reading string literals -/

namespace Piece

theorem short?_eq_some_iff {letter : Char} {piece : Piece} :
    short? letter = some piece ↔ ∃ c, (letter, c) ∈ shortEscapes ∧ piece = .char c := by
  constructor
  · intro read
    unfold short? at read
    repeat' split at read
    all_goals
      simp only [Option.some.injEq, reduceCtorEq] at read
    · rename_i bare
      refine ⟨letter, ?_, read.symm⟩
      rcases bare with rfl | rfl | rfl <;> simp [shortEscapes]
    all_goals
      rename_i same
      exact ⟨_, by simp [shortEscapes, same], read.symm⟩
  · rintro ⟨c, member, rfl⟩
    simp only [shortEscapes, List.mem_cons, Prod.mk.injEq, List.not_mem_nil, or_false] at member
    rcases member with ⟨rfl, rfl⟩ | ⟨rfl, rfl⟩ | ⟨rfl, rfl⟩ | ⟨rfl, rfl⟩ | ⟨rfl, rfl⟩ | ⟨rfl, rfl⟩ |
      ⟨rfl, rfl⟩ | ⟨rfl, rfl⟩ <;> rfl

theorem ne_u_of_mem_shortEscapes {letter c : Char} (member : (letter, c) ∈ shortEscapes) : letter ≠ 'u' := by
  rintro rfl
  simp [shortEscapes] at member

/-- Among the ASCII characters the hexadecimal digits are found by trying all. -/
theorem hexDigit?_ofNat : ∀ n < 128, ∀ value < 16, hexDigit? (Char.ofNat n) = some value ↔
    Char.ofNat n = Nat.digitChar value ∨ Char.ofNat n = (Nat.digitChar value).toUpper := by
  decide +kernel

theorem hexDigit?_lt : ∀ n < 128, ∀ value ∈ hexDigit? (Char.ofNat n), value < 16 := by
  decide +kernel

theorem digitChar_lt : ∀ value < 16,
    (Nat.digitChar value).toNat < 128 ∧ (Nat.digitChar value).toUpper.toNat < 128 := by
  decide

theorem hexDigit?_eq_some_iff {c : Char} {value : Nat} : hexDigit? c = some value ↔ IsHex c value := by
  rcases Nat.lt_or_ge c.toNat 128 with ascii | wide
  · have tried := hexDigit?_ofNat c.toNat ascii
    have small := hexDigit?_lt c.toNat ascii
    rw [Char.ofNat_toNat] at tried small
    exact ⟨fun read => ⟨small value read, (tried value (small value read)).mp read⟩,
      fun hex => (tried value hex.small).mpr hex.digit⟩
  · rw [hexDigit?_of_wide wide]
    refine iff_of_false (by simp) fun ⟨small, digit⟩ => ?_
    obtain ⟨lower, upper⟩ := digitChar_lt value small
    rcases digit with rfl | rfl <;> omega

theorem unit?_eq_some_iff {a b c d : Char} {piece : Piece} : unit? a b c d = some piece ↔
    ∃ w x y z, IsHex a w ∧ IsHex b x ∧ IsHex c y ∧ IsHex d z ∧
      piece = .unit (((w * 16 + x) * 16 + y) * 16 + z) := by
  simp only [unit?, Option.bind_eq_bind, Option.bind_eq_some_iff, hexDigit?_eq_some_iff, pure,
    Option.some.injEq, eq_comm (a := piece)]
  constructor
  · rintro ⟨w, first, x, second, y, third, z, fourth, same⟩
    exact ⟨w, x, y, z, first, second, third, fourth, same⟩
  · rintro ⟨w, x, y, z, first, second, third, fourth, same⟩
    exact ⟨w, first, x, second, y, third, z, fourth, same⟩

theorem scan?_of_quoted {pieces : List Piece} {literal : List Char} (quoted : Quoted pieces literal)
    (rest : List Char) : scan? (literal ++ rest) = some (pieces, rest) := by
  induction quoted with
  | close => exact scan?_end rest
  | plain notQuote notSlash printable _ ih => exact scan?_plain ih notQuote notSlash (Char.not_lt.mpr printable)
  | short member _ ih =>
      exact scan?_short ih (short?_eq_some_iff.mpr ⟨_, member, rfl⟩) (ne_u_of_mem_shortEscapes member)
  | unit first second third fourth _ ih =>
      exact scan?_unit ih (unit?_eq_some_iff.mpr ⟨_, _, _, _, first, second, third, fourth, rfl⟩)

theorem exists_quoted_of_scan? {cs : List Char} {pieces : List Piece} {rest : List Char}
    (read : scan? cs = some (pieces, rest)) : ∃ literal, cs = literal ++ rest ∧ Quoted pieces literal := by
  -- The cases of the reader: its end, a closing quote, the two kinds of escapes, and other characters.
  fun_induction scan? cs generalizing pieces rest with
  | case1 => cases read
  | case2 =>
      cases read
      exact ⟨_, rfl, .close⟩
  | case3 a b c d tail notQuote ih =>
      simp only [Option.bind_eq_bind, Option.bind_eq_some_iff, pure, Option.some.injEq, Prod.mk.injEq] at read
      obtain ⟨piece, unit, ⟨more, after⟩, later, rfl, rfl⟩ := read
      obtain ⟨w, x, y, z, first, second, third, fourth, rfl⟩ := unit?_eq_some_iff.mp unit
      obtain ⟨literal, rfl, quoted⟩ := ih later
      exact ⟨_, rfl, .unit first second third fourth quoted⟩
  | case4 letter tail notQuote notUnit ih =>
      simp only [Option.bind_eq_bind, Option.bind_eq_some_iff, pure, Option.some.injEq, Prod.mk.injEq] at read
      obtain ⟨piece, short, ⟨more, after⟩, later, rfl, rfl⟩ := read
      obtain ⟨c, member, rfl⟩ := short?_eq_some_iff.mp short
      obtain ⟨literal, rfl, quoted⟩ := ih later
      exact ⟨_, rfl, .short member quoted⟩
  | case5 => cases read
  | case6 => cases read
  | case7 c tail notQuote notSlash printable ih =>
      simp only [Option.bind_eq_bind, Option.bind_eq_some_iff, pure, Option.some.injEq, Prod.mk.injEq] at read
      obtain ⟨⟨more, after⟩, later, rfl, rfl⟩ := read
      obtain ⟨literal, rfl, quoted⟩ := ih later
      exact ⟨_, rfl, .plain notQuote notSlash (Char.not_lt.mp printable) quoted⟩

/-! ## The bytes of a string literal -/

theorem joinWith?_eq_some_iff {pieces : List Piece} {bytes : List UInt8} :
    joinWith? (fun byte => [byte.toUInt8]) String.utf8EncodeChar pieces = some bytes ↔
      StandsFor pieces bytes := by
  constructor
  · intro joined
    have whole {n : Nat} (notHigh : ¬ isHigh n = true) (notLow : ¬ isLow n = true) :
        ¬ (0xD800 ≤ n ∧ n ≤ 0xDFFF) := by
      simp only [isHigh, isLow, Bool.and_eq_true, decide_eq_true_eq] at notHigh notLow
      omega
    fun_induction joinWith? (fun byte => [byte.toUInt8]) String.utf8EncodeChar pieces generalizing bytes with
    | case1 =>
        cases joined
        exact .nothing
    | case2 c rest ih =>
        obtain ⟨more, later, rfl⟩ := Option.map_eq_some_iff.mp joined
        exact .byte c (ih later)
    | case3 n m rest high low ih =>
        obtain ⟨more, later, rfl⟩ := Option.map_eq_some_iff.mp joined
        simp only [isHigh, isLow, Bool.and_eq_true, decide_eq_true_eq] at high low
        exact .pair high.1 high.2 low.1 low.2 (ih later)
    | case4 => cases joined
    | case5 => cases joined
    | case6 n m rest notHigh notLow ih =>
        obtain ⟨more, later, rfl⟩ := Option.map_eq_some_iff.mp joined
        exact .unit (whole notHigh notLow) (ih later)
    | case7 => cases joined
    | case8 n rest _ half ih =>
        obtain ⟨more, later, rfl⟩ := Option.map_eq_some_iff.mp joined
        rw [Bool.or_eq_true, not_or] at half
        exact .unit (whole half.1 half.2) (ih later)
  · intro standsFor
    induction standsFor with
    | nothing => rfl
    | byte c _ ih =>
        rw [joinWith?, ih]
        rfl
    | unit whole _ ih =>
        rw [joinWith?_unit _ _ whole, ih]
        rfl
    | pair least most least' most' _ ih =>
        rw [joinWith?, if_pos (by simp [isHigh, least, most]), if_pos (by simp [isLow, least', most']), ih]
        rfl

theorem fromUTF8?_eq_some_iff {bytes : List UInt8} {text : String} :
    String.fromUTF8? bytes.toByteArray = some text ↔ bytes = text.toUTF8.data.toList := by
  constructor
  · intro read
    have same : bytes = bytes.toByteArray.data.toList := by simp
    unfold String.fromUTF8? at read
    split at read
    · cases read
      exact same
    · cases read
  · rintro rfl
    have same : text.toUTF8.data.toList.toByteArray = text.toUTF8 := by
      apply ByteArray.ext
      simp
    rw [same]
    exact dif_pos text.isValidUTF8

/-- The text of a string literal is the one whose bytes it stands for. -/
theorem utf8?_eq_some_iff {pieces : List Piece} {text : String} :
    utf8? pieces = some text ↔ StandsFor pieces text.toUTF8.data.toList := by
  simp only [utf8?, Option.bind_eq_bind, Option.bind_eq_some_iff, joinWith?_eq_some_iff,
    fromUTF8?_eq_some_iff, exists_eq_right]

end Piece

/-! ## Reading numbers -/

theorem of_digits?_eq_some {cs ds rest : List Char} (read : digits? cs = some (ds, rest)) :
    cs = ds ++ rest ∧ ds ≠ [] ∧ ∀ c ∈ ds, c.isDigit = true := by
  unfold digits? at read
  split at read
  · cases read
  · rename_i nonempty
    cases read
    refine ⟨List.takeWhile_append_dropWhile.symm, ?_, Text.of_mem_takeWhile⟩
    simpa using nonempty

namespace Numeral

theorem of_whole?_eq_some {cs ds rest : List Char} (read : whole? cs = some (ds, rest)) :
    cs = ds ++ rest ∧ Text.Canonical ds := by
  unfold whole? at read
  split at read
  · cases read
  · rename_i found noZero
    obtain ⟨split, nonempty, digits⟩ := of_digits?_eq_some read
    refine ⟨split, nonempty, digits, ?_⟩
    rcases ds with _ | ⟨c, _ | ⟨d, ds⟩⟩
    · exact absurd rfl nonempty
    · exact .inl rfl
    · refine .inr fun zero => noZero d ds rest ?_
      rw [read, Option.some.inj zero]

theorem of_fraction?_eq_some {cs rest : List Char} {fraction : Option (List Char)}
    (read : fraction? cs = some (fraction, rest)) : cs = fractionChars fraction ++ rest ∧
      ∀ ds ∈ fraction, ds ≠ [] ∧ ∀ c ∈ ds, c.isDigit = true := by
  unfold fraction? at read
  split at read
  · obtain ⟨⟨ds, after⟩, digits, same⟩ := Option.map_eq_some_iff.mp read
    cases same
    obtain ⟨rfl, legal⟩ := of_digits?_eq_some digits
    refine ⟨rfl, ?_⟩
    rintro _ ⟨⟩
    exact legal
  · cases read
    exact ⟨rfl, by simp⟩

/-- The sign of an exponent is written as a minus sign, a plus sign or not at all. -/
theorem exists_exponentSign_eq (cs : List Char) : ∃ negative sign rest,
    exponentSign cs = (negative, rest) ∧ cs = sign ++ rest ∧ ∀ ⦃mark⦄ (ds : List Char),
      mark = 'e' ∨ mark = 'E' → SpelledExponent (some (negative, ds)) (mark :: (sign ++ ds)) := by
  unfold exponentSign
  split
  · exact ⟨true, ['-'], _, rfl, rfl, fun _ => .minus⟩
  · exact ⟨false, ['+'], _, rfl, rfl, fun _ => .plus⟩
  · exact ⟨false, [], _, rfl, rfl, fun _ => .bare⟩

theorem exists_spelledExponent {cs rest : List Char} {exponent : Option (Bool × List Char)}
    (read : exponent? cs = some (exponent, rest)) : ∃ literal, cs = literal ++ rest ∧
      SpelledExponent exponent literal ∧ ∀ e ∈ exponent, e.2 ≠ [] ∧ ∀ c ∈ e.2, c.isDigit = true := by
  cases cs with
  | nil =>
      cases read
      exact ⟨[], rfl, .none, by simp⟩
  | cons mark cs =>
      obtain ⟨negative, sign, tail, signed, rfl, spelled⟩ := exists_exponentSign_eq cs
      rw [exponent?, signed] at read
      split at read
      · rename_i either
        obtain ⟨⟨ds, after⟩, digits, same⟩ := Option.map_eq_some_iff.mp read
        cases same
        obtain ⟨rfl, legal⟩ := of_digits?_eq_some digits
        refine ⟨mark :: (sign ++ ds), by simp, spelled ds either, ?_⟩
        rintro _ ⟨⟩
        exact legal
      · cases read
        exact ⟨[], rfl, .none, by simp⟩

theorem sign_append (cs : List Char) : cs = (if (sign cs).1 then ['-'] else []) ++ (sign cs).2 := by
  unfold sign
  split <;> rfl

theorem exists_spelled_of_scan? {cs rest : List Char} {n : Numeral} (read : scan? cs = some (n, rest)) :
    ∃ literal, cs = literal ++ rest ∧ n.Spelled literal := by
  simp only [scan?, Option.bind_eq_bind, Option.bind_eq_some_iff, pure, Option.some.injEq,
    Prod.mk.injEq] at read
  obtain ⟨⟨whole, afterWhole⟩, wholeRead, ⟨fraction, afterFraction⟩, fractionRead, ⟨exponent, after⟩,
    exponentRead, rfl, rfl⟩ := read
  obtain ⟨wholeSplit, canonical⟩ := of_whole?_eq_some wholeRead
  obtain ⟨fractionSplit, fractionLegal⟩ := of_fraction?_eq_some fractionRead
  obtain ⟨literal, exponentSplit, spelled, exponentLegal⟩ := exists_spelledExponent exponentRead
  refine ⟨_, ?_, .parts ⟨canonical, fractionLegal, exponentLegal⟩ spelled⟩
  dsimp only at fractionSplit exponentSplit
  rw [exponentSplit] at fractionSplit
  rw [fractionSplit] at wholeSplit
  have signed := sign_append cs
  rw [wholeSplit] at signed
  simpa using signed

end Numeral

/-! ## Reading tokens -/

theorem isSpace_iff {c : Char} : isSpace c = true ↔ c ∈ [' ', '\t', '\n', '\r'] := by
  simp [isSpace, or_assoc]

namespace Token

theorem of_afterWord?_eq_some {word cs rest : List Char} (read : afterWord? word cs = some rest) :
    cs = word ++ rest := by
  fun_induction afterWord? word cs with
  | case1 => exact Option.some.inj read
  | case2 ws w cs ih => rw [ih read, List.cons_append]
  | case3 => cases read
  | case4 => cases read

theorem of_word_eq_some {word cs rest : List Char} {found token : Token}
    (read : (found, ·) <$> afterWord? word cs = some (token, rest)) : found = token ∧ cs = word ++ rest := by
  obtain ⟨after, follows, same⟩ := Option.map_eq_some_iff.mp read
  cases same
  exact ⟨rfl, of_afterWord?_eq_some follows⟩

theorem exists_spelled_of_mark? {c : Char} {token : Token} (mark : mark? c = some token) :
    token.Spelled [c] := by
  unfold mark? at mark
  repeat' split at mark
  all_goals
    cases mark
  all_goals
    rename_i same
    subst same
    constructor

/-- What the reader takes is how its token is written. -/
theorem exists_spelled_of_scanWith? {c : Char} {cs rest : List Char} {token : Token}
    (read : scanWith? Piece.utf8? c cs = some (token, rest)) :
    ∃ literal, c :: cs = literal ++ rest ∧ token.Spelled literal := by
  unfold scanWith? at read
  split at read
  · rename_i mark
    cases read
    exact ⟨[c], rfl, exists_spelled_of_mark? mark⟩
  split at read
  · rename_i quote
    obtain ⟨⟨pieces, after⟩, scanned, same⟩ := Option.map_eq_some_iff.mp read
    cases same
    obtain ⟨literal, rfl, quoted⟩ := Piece.exists_quoted_of_scan? scanned
    exact ⟨_, by rw [quote]; rfl, .string quoted fun text => Piece.utf8?_eq_some_iff⟩
  split at read
  · rename_i start
    obtain ⟨rfl, rfl⟩ := of_word_eq_some read
    exact ⟨_, by rw [start]; rfl, .null⟩
  split at read
  · rename_i start
    obtain ⟨rfl, rfl⟩ := of_word_eq_some read
    exact ⟨_, by rw [start]; rfl, .true⟩
  split at read
  · rename_i start
    obtain ⟨rfl, rfl⟩ := of_word_eq_some read
    exact ⟨_, by rw [start]; rfl, .false⟩
  · obtain ⟨⟨n, after⟩, scanned, same⟩ := Option.map_eq_some_iff.mp read
    cases same
    obtain ⟨literal, split, spelled⟩ := Numeral.exists_spelled_of_scan? scanned
    exact ⟨literal, split, .number spelled⟩

end Token

/-- Tokens that start with a comma or a closing bracket. -/
def Delimits : List Token → Prop
  | .comma :: _ | .closeArray :: _ | .closeObject :: _ => True
  | _ => False

/-- Tokens that can all be written, with a comma or a closing bracket behind each number. -/
def Delimited : List Token → Prop
  | [] => True
  | .invalid :: _ => False
  | .number _ :: tokens => Delimits tokens ∧ Delimited tokens
  | _ :: tokens => Delimited tokens

theorem Delimited.tail {token : Token} {tokens : List Token} (delimited : Delimited (token :: tokens)) :
    token ≠ .invalid ∧ Delimited tokens := by
  cases token with
  | invalid => exact delimited.elim
  | number value => exact ⟨by simp, delimited.2⟩
  | _ => exact ⟨by simp, delimited⟩

/-- No number goes on with a comma, a closing bracket or white space. -/
theorem StartsWith.stops {tokens : List Token} {cs : List Char} (starts : StartsWith tokens cs)
    (delimits : Delimits tokens) : Stops cs := by
  have outside : ∀ c ∈ [' ', '\t', '\n', '\r', ',', ']', '}'],
      c.isDigit = false ∧ c ≠ '.' ∧ c ≠ 'e' ∧ c ≠ 'E' := by
    simp
  rintro c member
  cases starts with
  | nothing => exact delimits.elim
  | space blank _ =>
      obtain rfl := Option.some.inj member
      exact outside _ (List.mem_append_left [',', ']', '}'] blank)
  | token spelled _ =>
      cases spelled with
      | comma | closeArray | closeObject =>
          obtain rfl := Option.some.inj member
          exact outside _ (by simp)
      | _ => exact delimits.elim

theorem startsWith_of_tokensWith : ∀ (cs : List Char) {tokens rest : List Token}, Delimited tokens →
    tokensWith Piece.utf8? cs = tokens ++ rest → StartsWith tokens cs
  | cs, [], _, _, _ => .nothing cs
  | [], token :: tokens, rest, _, read => by
      simp [tokensWith] at read
  | c :: cs, token :: tokens, rest, delimited, read => by
      obtain ⟨valid, later⟩ := delimited.tail
      by_cases space : isSpace c = true
      · rw [tokensWith_space _ space] at read
        exact .space (isSpace_iff.mp space) (startsWith_of_tokensWith cs delimited read)
      rw [Bool.not_eq_true] at space
      cases scanned : Token.scanWith? Piece.utf8? c cs with
      | none =>
          rw [tokensWith_of_none space scanned] at read
          exact absurd (List.cons.inj read).1.symm valid
      | some found =>
          obtain ⟨first, after⟩ := found
          have shorter := Token.length_scanWith? scanned
          rw [tokensWith_cons space scanned, List.cons_append] at read
          obtain ⟨rfl, more⟩ := List.cons.inj read
          obtain ⟨literal, split, spelled⟩ := Token.exists_spelled_of_scanWith? scanned
          rw [split]
          exact .token spelled (startsWith_of_tokensWith after later more)
  termination_by cs => cs.length

theorem exists_tokensWith_of_startsWith {tokens : List Token} {cs : List Char}
    (starts : StartsWith tokens cs) (delimited : Delimited tokens) :
    ∃ rest, tokensWith Piece.utf8? cs = tokens ++ rest := by
  induction starts with
  | nothing cs => exact ⟨_, rfl⟩
  | space blank _ ih =>
      rw [tokensWith_space _ (isSpace_iff.mpr blank)]
      exact ih delimited
  | @token token tokens literal after spelled starts ih =>
      obtain ⟨rest, read⟩ := ih delimited.tail.2
      refine ⟨rest, ?_⟩
      rw [List.cons_append, ← read]
      cases spelled with
      | openObject | closeObject | openArray | closeArray | comma | colon | null | true | false =>
          exact tokensWith_cons (by decide) rfl
      | number spelled => exact tokensWith_number _ spelled (starts.stops delimited.1)
      | @string pieces literal value quoted text =>
          have same : Piece.utf8? pieces = value :=
            Option.ext fun s => Piece.utf8?_eq_some_iff.trans (text s).symm
          have scanned := Piece.scan?_of_quoted quoted after
          refine tokensWith_cons (by decide) ?_
          rw [List.append_eq, Token.scanWith?]
          simp [Token.mark?, scanned, same]

/-- A text in bytes starts with these tokens exactly if they are the first that are read of it. -/
theorem startsWith_iff {tokens : List Token} (delimited : Delimited tokens) {bytes : ByteArray} :
    StartsWith tokens (bytes.data.toList.map Char.ofUInt8) ↔ ∃ rest, tokensOfBytes bytes = tokens ++ rest :=
  ⟨fun starts => exists_tokensWith_of_startsWith starts delimited,
    fun ⟨_, read⟩ => startsWith_of_tokensWith _ delimited read⟩

/-! ## The tokens of a tree -/

namespace Tree

theorem delimits_tokensAfterItem (items : List Tree) (rest : List Token) :
    Delimits (tokensAfterItem items ++ rest) := by
  cases items <;> trivial

theorem delimits_tokensAfterMember (members : List (Option String × Tree)) (rest : List Token) :
    Delimits (tokensAfterMember members ++ rest) := by
  cases members <;> trivial

mutual

/-- The tokens of a whole tree can be written. If it is a number, something has to come behind it. -/
theorem delimited_toTokens : ∀ (tree : Tree) {rest : List Token}, tree.whole = true →
    (∀ value, tree = .number value → Delimits rest) → Delimited rest → Delimited (tree.toTokens ++ rest)
  | .null, _, _, _, others => others
  | .bool _, _, _, _, others => others
  | .number _, _, _, delimits, others => ⟨delimits _ rfl, others⟩
  | .string _, _, _, _, others => others
  | .array [] _, _, _, _, others => others
  | .array (item :: items) _, _, whole, _, others => by
      simp only [Tree.whole, wholeItems, Bool.and_eq_true] at whole
      simp only [toTokens, List.cons_append, List.append_assoc]
      exact delimited_toTokens item whole.1.1 (fun _ _ => delimits_tokensAfterItem _ _)
        (delimited_tokensAfterItem items whole.1.2 others)
  | .object [] _, _, _, _, others => others
  | .object ((_, value) :: members) _, _, whole, _, others => by
      simp only [Tree.whole, wholeMembers, Bool.and_eq_true] at whole
      simp only [toTokens, List.cons_append, List.append_assoc]
      exact delimited_toTokens value whole.1.1 (fun _ _ => delimits_tokensAfterMember _ _)
        (delimited_tokensAfterMember members whole.1.2 others)

theorem delimited_tokensAfterItem : ∀ (items : List Tree) {rest : List Token}, wholeItems items = true →
    Delimited rest → Delimited (tokensAfterItem items ++ rest)
  | [], _, _, others => others
  | item :: items, _, whole, others => by
      simp only [wholeItems, Bool.and_eq_true] at whole
      simp only [tokensAfterItem, List.cons_append, List.append_assoc]
      exact delimited_toTokens item whole.1 (fun _ _ => delimits_tokensAfterItem _ _)
        (delimited_tokensAfterItem items whole.2 others)

theorem delimited_tokensAfterMember : ∀ (members : List (Option String × Tree)) {rest : List Token},
    wholeMembers members = true → Delimited rest → Delimited (tokensAfterMember members ++ rest)
  | [], _, _, others => others
  | (_, value) :: members, _, whole, others => by
      simp only [wholeMembers, Bool.and_eq_true] at whole
      simp only [tokensAfterMember, List.cons_append, List.append_assoc]
      exact delimited_toTokens value whole.1 (fun _ _ => delimits_tokensAfterMember _ _)
        (delimited_tokensAfterMember members whole.2 others)

end

end Tree

end Paycard.Json
