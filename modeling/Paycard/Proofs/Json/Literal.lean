import Paycard.Json.Printer
import Paycard.Json.Token
import Paycard.Proofs.Text.Numeral
import Paycard.Proofs.Text.Pieces

/-! # Printed strings and numbers

A string is read back from its printed form, whatever characters it holds. A number literal is read back
from its printed parts when something follows it that cannot belong to it.
-/

namespace Paycard.Json

/-! ## Strings -/

/-- A character is printed as a backslash and a letter, as the number of a control character, or as
    itself. -/
theorem escape_cases (c : Char) :
    (∃ letter, escape c = ['\\', letter] ∧ Piece.short? letter = some (.char c) ∧ letter ≠ 'u') ∨
    (c.toNat < 32 ∧
      escape c = ['\\', 'u', '0', '0', Nat.digitChar (c.toNat / 16), Nat.digitChar (c.toNat % 16)]) ∨
    (escape c = [c] ∧ c ≠ '\"' ∧ c ≠ '\\' ∧ ¬ c < ' ') := by
  unfold escape
  split
  · rename_i bare
    refine .inl ⟨c, rfl, ?_, ?_⟩
    · rcases bare with rfl | rfl <;> rfl
    · rcases bare with rfl | rfl <;> decide
  · rename_i notBare
    split
    · rename_i same
      exact .inl ⟨'b', rfl, same ▸ rfl, by decide⟩
    split
    · rename_i same
      exact .inl ⟨'f', rfl, same ▸ rfl, by decide⟩
    split
    · rename_i same
      exact .inl ⟨'n', rfl, same ▸ rfl, by decide⟩
    split
    · rename_i same
      exact .inl ⟨'r', rfl, same ▸ rfl, by decide⟩
    split
    · rename_i same
      exact .inl ⟨'t', rfl, same ▸ rfl, by decide⟩
    split
    · rename_i control
      exact .inr (.inl ⟨control, rfl⟩)
    · rename_i printable
      exact .inr (.inr ⟨rfl, fun same => notBare (.inl same), fun same => notBare (.inr same), printable⟩)

namespace Piece

theorem unit?_of_lt {n : Nat} (control : n < 32) :
    unit? '0' '0' (Nat.digitChar (n / 16)) (Nat.digitChar (n % 16)) = some (.unit n) := by
  revert n
  decide

/-- A unit that is no half of a surrogate pair stands for a character by itself. -/
theorem joinWith?_unit {α : Type} (plain escaped : Char → List α) {n : Nat}
    (whole : ¬ (0xD800 ≤ n ∧ n ≤ 0xDFFF)) (pieces : List Piece) :
    joinWith? plain escaped (.unit n :: pieces) =
      (escaped (Char.ofNat n) ++ ·) <$> joinWith? plain escaped pieces := by
  have high : isHigh n = false := by
    simp only [isHigh, Bool.and_eq_false_iff, decide_eq_false_iff_not]
    omega
  have low : isLow n = false := by
    simp only [isLow, Bool.and_eq_false_iff, decide_eq_false_iff_not]
    omega
  cases pieces with
  | nil => simp [joinWith?, high, low]
  | cons piece pieces => cases piece <;> simp [joinWith?, high, low]

theorem scan?_end (rest : List Char) : scan? ('\"' :: rest) = some ([], rest) := by
  rw [scan?.eq_def]
  rfl

section Scan

variable {cs rest : List Char} {pieces : List Piece} (read : scan? cs = some (pieces, rest))

include read

theorem scan?_plain {c : Char} (notQuote : c ≠ '\"') (notSlash : c ≠ '\\') (printable : ¬ c < ' ') :
    scan? (c :: cs) = some (.char c :: pieces, rest) := by
  rw [scan?.eq_def]
  simp [notQuote, notSlash, printable, read]

theorem scan?_short {letter : Char} {piece : Piece} (short : short? letter = some piece)
    (notUnit : letter ≠ 'u') : scan? ('\\' :: letter :: cs) = some (piece :: pieces, rest) := by
  rw [scan?.eq_def]
  simp [short, notUnit, read]

theorem scan?_unit {h₁ h₂ h₃ h₄ : Char} {piece : Piece} (unit : unit? h₁ h₂ h₃ h₄ = some piece) :
    scan? ('\\' :: 'u' :: h₁ :: h₂ :: h₃ :: h₄ :: cs) = some (piece :: pieces, rest) := by
  rw [scan?.eq_def]
  simp [unit, read]

end Scan

/-- What a printed character is read as. -/
theorem exists_scan?_escape (c : Char) : ∃ piece : Piece,
    (∀ cs pieces rest, scan? cs = some (pieces, rest) →
      scan? (escape c ++ cs) = some (piece :: pieces, rest)) ∧
    ∀ pieces, join? (piece :: pieces) = (c :: ·) <$> join? pieces := by
  rcases escape_cases c with
    ⟨letter, written, short, notUnit⟩ | ⟨control, written⟩ | ⟨written, notQuote, notSlash, printable⟩
  · refine ⟨.char c, fun cs pieces rest read => ?_, fun pieces => rfl⟩
    rw [written]
    exact scan?_short read short notUnit
  · refine ⟨.unit c.toNat, fun cs pieces rest read => ?_, fun pieces => ?_⟩
    · rw [written]
      exact scan?_unit read (unit?_of_lt control)
    · rw [join?, joinWith?_unit _ _ (by omega), Char.ofNat_toNat]
      rfl
  · refine ⟨.char c, fun cs pieces rest read => ?_, fun pieces => rfl⟩
    rw [written]
    exact scan?_plain read notQuote notSlash printable

theorem exists_scan?_quoted (text rest : List Char) :
    ∃ pieces, scan? (text.flatMap escape ++ '\"' :: rest) = some (pieces, rest) ∧
      join? pieces = some text := by
  induction text with
  | nil => exact ⟨[], scan?_end rest, rfl⟩
  | cons c text ih =>
      obtain ⟨pieces, read, joined⟩ := ih
      obtain ⟨piece, reads, joins⟩ := exists_scan?_escape c
      refine ⟨piece :: pieces, ?_, ?_⟩
      · rw [List.flatMap_cons, List.append_assoc]
        exact reads _ _ _ read
      · rw [joins, joined]
        rfl

end Piece

theorem Token.scanWith?_quote (text : String) (rest : List Char) :
    scanWith? Piece.text? '\"' (text.toList.flatMap escape ++ '\"' :: rest) =
      some (.string (some text), rest) := by
  obtain ⟨pieces, read, joined⟩ := Piece.exists_scan?_quoted text.toList rest
  simp [scanWith?, mark?, read, Piece.text?, joined]

/-! ## Numbers -/

/-- What comes after a number does not belong to it. -/
def Stops (rest : List Char) : Prop :=
  ∀ c ∈ rest.head?, c.isDigit = false ∧ c ≠ '.' ∧ c ≠ 'e' ∧ c ≠ 'E'

theorem digits?_append {ds rest : List Char} (nonempty : ds ≠ []) (digits : ∀ c ∈ ds, c.isDigit = true)
    (stop : ∀ c ∈ rest.head?, c.isDigit = false) : digits? (ds ++ rest) = some (ds, rest) := by
  have run := Text.takeWhile_append_of_head digits stop
  have after : (ds ++ rest).dropWhile Char.isDigit = rest := by
    have whole := @List.takeWhile_append_dropWhile _ Char.isDigit (ds ++ rest)
    rw [run] at whole
    exact List.append_cancel_left whole
  rw [digits?, run, after, if_neg (by simpa using nonempty)]

namespace Numeral

/-- The parts of a number literal: no superfluous zero in front, and digits where digits have to be. -/
structure Legal (n : Numeral) : Prop where
  whole : Text.Canonical n.whole
  fraction : ∀ ds ∈ n.fraction, ds ≠ [] ∧ ∀ c ∈ ds, c.isDigit = true
  exponent : ∀ e ∈ n.exponent, e.2 ≠ [] ∧ ∀ c ∈ e.2, c.isDigit = true

theorem whole?_append {ds rest : List Char} (h : Text.Canonical ds)
    (stop : ∀ c ∈ rest.head?, c.isDigit = false) : whole? (ds ++ rest) = some (ds, rest) := by
  have read := digits?_append h.nonempty h.digits stop
  rw [whole?, read]
  split
  · rename_i d tail after same
    simp at same
    rcases h.lead with single | notZero
    · simp [same.1] at single
    · simp [same.1] at notZero
  · rfl

theorem sign_digits {ds rest : List Char} (h : Text.Canonical ds) : sign (ds ++ rest) = (false, ds ++ rest) := by
  cases ds with
  | nil => exact absurd rfl h.nonempty
  | cons c ds =>
      have digit := h.digits c List.mem_cons_self
      rw [List.cons_append, sign.eq_def]
      split
      · simp_all
      · rfl

/-- How the digits behind a point are written. -/
def fractionChars : Option (List Char) → List Char
  | none => []
  | some ds => '.' :: ds

/-- How an exponent is written: behind either letter, and with or without a plus sign if it has no minus. -/
inductive SpelledExponent : Option (Bool × List Char) → List Char → Prop where
  | none : SpelledExponent none []
  | minus {mark : Char} (ds : List Char) : mark = 'e' ∨ mark = 'E' →
      SpelledExponent (some (true, ds)) (mark :: '-' :: ds)
  | plus {mark : Char} (ds : List Char) : mark = 'e' ∨ mark = 'E' →
      SpelledExponent (some (false, ds)) (mark :: '+' :: ds)
  | bare {mark : Char} (ds : List Char) : mark = 'e' ∨ mark = 'E' →
      SpelledExponent (some (false, ds)) (mark :: ds)

/-- A number literal with these parts. -/
inductive Spelled (n : Numeral) : List Char → Prop where
  | parts {exponent : List Char} : n.Legal → SpelledExponent n.exponent exponent →
      Spelled n ((if n.negative then ['-'] else []) ++ (n.whole ++ (fractionChars n.fraction ++ exponent)))

/-- How an exponent is printed. -/
def exponentChars : Option (Bool × List Char) → List Char
  | none => []
  | some (negative, ds) => 'e' :: (if negative then '-' :: ds else ds)

theorem spelledExponent_chars : (exponent : Option (Bool × List Char)) →
    SpelledExponent exponent (exponentChars exponent)
  | none => .none
  | some (true, ds) => .minus ds (.inl rfl)
  | some (false, ds) => .bare ds (.inl rfl)

theorem spelled_chars {n : Numeral} (legal : n.Legal) : n.Spelled n.chars := by
  have written := Spelled.parts legal (spelledExponent_chars n.exponent)
  rw [← List.append_assoc, ← List.append_assoc] at written
  exact written

theorem exponent?_none {rest : List Char} (stop : Stops rest) : exponent? rest = some (none, rest) := by
  cases rest with
  | nil => rfl
  | cons c rest =>
      obtain ⟨-, -, notLower, notUpper⟩ := stop c rfl
      rw [exponent?, if_neg (not_or.mpr ⟨notLower, notUpper⟩)]

theorem exponentSign_digits {ds rest : List Char} (nonempty : ds ≠ [])
    (digits : ∀ c ∈ ds, c.isDigit = true) : exponentSign (ds ++ rest) = (false, ds ++ rest) := by
  cases ds with
  | nil => exact absurd rfl nonempty
  | cons c ds =>
      have digit := digits c List.mem_cons_self
      rw [List.cons_append, exponentSign.eq_def]
      split
      · simp_all
      · simp_all
      · rfl

theorem exponent?_append {exponent : Option (Bool × List Char)} {literal rest : List Char}
    (spelled : SpelledExponent exponent literal)
    (legal : ∀ e ∈ exponent, e.2 ≠ [] ∧ ∀ c ∈ e.2, c.isDigit = true) (stop : Stops rest) :
    exponent? (literal ++ rest) = some (exponent, rest) := by
  have run {e : Bool × List Char} (member : e ∈ exponent) : digits? (e.2 ++ rest) = some (e.2, rest) :=
    digits?_append (legal e member).1 (legal e member).2 fun c member => (stop c member).1
  cases spelled with
  | none => exact exponent?_none stop
  | minus ds mark => simp [exponent?, mark, exponentSign, run rfl]
  | plus ds mark => simp [exponent?, mark, exponentSign, run rfl]
  | bare ds mark =>
      obtain ⟨nonempty, digits⟩ := legal _ rfl
      simp [exponent?, mark, exponentSign_digits nonempty digits, run rfl]

/-- An exponent, or what comes after a number without one, does not belong to the digits before it. -/
theorem head?_spelledExponent {exponent : Option (Bool × List Char)} {literal rest : List Char}
    (spelled : SpelledExponent exponent literal) (stop : Stops rest) :
    ∀ c ∈ (literal ++ rest).head?, c.isDigit = false ∧ c ≠ '.' := by
  have letter {mark : Char} (either : mark = 'e' ∨ mark = 'E') : mark.isDigit = false ∧ mark ≠ '.' := by
    rcases either with rfl | rfl <;> decide
  intro c member
  cases spelled with
  | none =>
      obtain ⟨notDigit, notPoint, -⟩ := stop c member
      exact ⟨notDigit, notPoint⟩
  | minus ds mark | plus ds mark | bare ds mark =>
      obtain rfl := Option.some.inj member
      exact letter mark

theorem head?_fractionChars (fraction : Option (List Char)) {rest : List Char}
    (stop : ∀ c ∈ rest.head?, c.isDigit = false ∧ c ≠ '.') :
    ∀ c ∈ (fractionChars fraction ++ rest).head?, c.isDigit = false := by
  intro c member
  cases fraction with
  | none => exact (stop c member).1
  | some ds =>
      obtain rfl : '.' = c := by simpa [fractionChars] using member
      decide

theorem fraction?_chars {fraction : Option (List Char)} {rest : List Char}
    (h : ∀ ds ∈ fraction, ds ≠ [] ∧ ∀ c ∈ ds, c.isDigit = true)
    (stop : ∀ c ∈ rest.head?, c.isDigit = false ∧ c ≠ '.') :
    fraction? (fractionChars fraction ++ rest) = some (fraction, rest) := by
  cases fraction with
  | none =>
      rw [fractionChars, List.nil_append, fraction?.eq_def]
      split
      · simp at stop
      · rfl
  | some ds =>
      obtain ⟨nonempty, digits⟩ := h ds rfl
      rw [fractionChars, List.cons_append, fraction?,
        digits?_append nonempty digits fun c member => (stop c member).1]
      rfl

/-- A number literal is read as its parts, and nothing of what comes after it. -/
theorem scan?_append {n : Numeral} {literal rest : List Char} (spelled : n.Spelled literal)
    (stop : Stops rest) : scan? (literal ++ rest) = some (n, rest) := by
  cases spelled with
  | @parts exponent legal written =>
      have afterFraction := head?_spelledExponent written stop
      have afterWhole := head?_fractionChars n.fraction afterFraction
      have signed : sign ((if n.negative then ['-'] else []) ++
          (n.whole ++ (fractionChars n.fraction ++ (exponent ++ rest)))) =
            (n.negative, n.whole ++ (fractionChars n.fraction ++ (exponent ++ rest))) := by
        cases n.negative with
        | true => simp [sign]
        | false => simp [sign_digits legal.whole]
      simp only [List.append_assoc, scan?, signed, whole?_append legal.whole afterWhole,
        fraction?_chars legal.fraction afterFraction, exponent?_append written legal.exponent stop,
        Option.bind_eq_bind, Option.bind_some]
      rfl

end Numeral

end Paycard.Json
