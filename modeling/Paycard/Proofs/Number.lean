import Paycard.Number
import Paycard.Proofs.Results
import Paycard.Proofs.Text.Numeral
import Paycard.Proofs.Text.Pieces

/-! # Reading card numbers

A text is read as a card number exactly when it is written in ASCII digits, and then it is read as the
digits it is written in. Any other text is refused at its first character that is no digit.
-/

namespace Paycard

namespace Digit

@[simp] theorem ofChar?_toChar (d : Digit) : ofChar? d.toChar = some d := by
  revert d
  decide

theorem ofChar?_eq_none {c : Char} (foreign : c.isDigit = false) : ofChar? c = none := by
  simp [ofChar?, foreign]

theorem exists_toChar_eq {c : Char} (digit : c.isDigit = true) : ∃ d : Digit, d.toChar = c := by
  obtain ⟨small, char⟩ := Text.digitChar_of_isDigit digit
  exact ⟨⟨c.toNat - '0'.toNat, small⟩, char⟩

@[simp] theorem isDigit_toChar (d : Digit) : d.toChar.isDigit = true := by
  revert d
  decide

end Digit

/-- A text with a character that is no ASCII digit. -/
def HoldsNonDigit (text : String) : Prop := ∃ c ∈ text.toList, c.isDigit = false

/-- The first character of a text that is no digit: only digits come before it, as many as its
    position says. -/
structure InvalidCharacter.IsFirstIn (e : InvalidCharacter) (text : String) : Prop where
  foreign : e.character.isDigit = false
  split : ∃ before after, text.toList = before ++ e.character :: after ∧
    before.length = e.position ∧ ∀ c ∈ before, c.isDigit = true

theorem InvalidCharacter.IsFirstIn.holdsNonDigit {e : InvalidCharacter} {text : String}
    (first : e.IsFirstIn text) : HoldsNonDigit text := by
  obtain ⟨foreign, before, after, whole, -⟩ := first
  exact ⟨e.character, by simp [whole], foreign⟩

theorem readDigitsFrom_digits (position : Nat) (ds : List Digit) :
    readDigitsFrom position (ds.map Digit.toChar) = .ok ds := by
  induction ds generalizing position with
  | nil => rfl
  | cons d ds ih =>
      simp only [List.map_cons, readDigitsFrom, Digit.ofChar?_toChar, ih]
      rfl

theorem readDigitsFrom_foreign (position : Nat) (ds : List Digit) {c : Char} (after : List Char)
    (foreign : c.isDigit = false) :
    readDigitsFrom position (ds.map Digit.toChar ++ c :: after) =
      .error ⟨position + ds.length, c⟩ := by
  induction ds generalizing position with
  | nil => simp [readDigitsFrom, Digit.ofChar?_eq_none foreign]
  | cons d ds ih =>
      simp only [List.map_cons, List.cons_append, readDigitsFrom, Digit.ofChar?_toChar, ih,
        List.length_cons, Nat.add_assoc, Nat.add_comm 1]
      rfl

theorem exists_map_toChar_eq {cs : List Char} (digits : ∀ c ∈ cs, c.isDigit = true) :
    ∃ ds : List Digit, ds.map Digit.toChar = cs := by
  induction cs with
  | nil => exact ⟨[], rfl⟩
  | cons c cs ih =>
      obtain ⟨d, char⟩ := Digit.exists_toChar_eq (digits c List.mem_cons_self)
      obtain ⟨ds, rest⟩ := ih fun x member => digits x (List.mem_cons_of_mem c member)
      exact ⟨d :: ds, by rw [List.map_cons, char, rest]⟩

theorem exists_writeDigits_eq {text : String} (digits : ∀ c ∈ text.toList, c.isDigit = true) :
    ∃ ds, text = writeDigits ds := by
  obtain ⟨ds, written⟩ := exists_map_toChar_eq digits
  exact ⟨ds, by rw [writeDigits, written, String.ofList_toList]⟩

theorem isDigit_writeDigits (ds : List Digit) : ∀ c ∈ (writeDigits ds).toList, c.isDigit = true := by
  simp [writeDigits]

theorem length_writeDigits (ds : List Digit) : (writeDigits ds).length = ds.length := by
  simp [writeDigits]

theorem readDigits_of_isFirstIn {text : String} {e : InvalidCharacter} (first : e.IsFirstIn text) :
    readDigits text = .error e := by
  obtain ⟨foreign, before, after, whole, place, digits⟩ := first
  obtain ⟨ds, rfl⟩ := exists_map_toChar_eq digits
  rw [readDigits, whole, readDigitsFrom_foreign 0 ds after foreign]
  rw [List.length_map] at place
  rw [place, Nat.zero_add]

theorem InvalidCharacter.IsFirstIn.unique {e other : InvalidCharacter} {text : String}
    (first : e.IsFirstIn text) (first' : other.IsFirstIn text) : e = other := by
  have read := readDigits_of_isFirstIn first
  rw [readDigits_of_isFirstIn first', Except.error.injEq] at read
  exact read.symm

/-- A text is written in digits, or it has a first character that is none. -/
theorem written_or_isFirstIn (text : String) :
    (∃ ds, text = writeDigits ds) ∨ ∃ e : InvalidCharacter, e.IsFirstIn text := by
  cases rest : text.toList.dropWhile Char.isDigit with
  | nil =>
      left
      have whole := List.takeWhile_append_dropWhile (p := Char.isDigit) (l := text.toList)
      rw [rest, List.append_nil] at whole
      exact exists_writeDigits_eq (whole ▸ Text.of_mem_takeWhile)
  | cons c after =>
      right
      have foreign : c.isDigit = false :=
        Text.head?_dropWhile_eq_false c (by rw [rest]; rfl)
      refine ⟨⟨(text.toList.takeWhile Char.isDigit).length, c⟩, foreign, _, after, ?_, rfl,
        Text.of_mem_takeWhile⟩
      rw [← rest, List.takeWhile_append_dropWhile]

theorem readDigits_eq_ok_iff {text : String} {ds : List Digit} :
    readDigits text = .ok ds ↔ text = writeDigits ds := by
  have reads (ds : List Digit) : readDigits (writeDigits ds) = .ok ds := by
    rw [readDigits, writeDigits, String.toList_ofList, readDigitsFrom_digits]
  constructor
  · intro read
    rcases written_or_isFirstIn text with ⟨ds', rfl⟩ | ⟨e, first⟩
    · rw [reads, Except.ok.injEq] at read
      rw [read]
    · rw [readDigits_of_isFirstIn first] at read
      cases read
  · intro written
    rw [written, reads]

theorem readDigits_eq_error_iff {text : String} {e : InvalidCharacter} :
    readDigits text = .error e ↔ e.IsFirstIn text := by
  constructor
  · intro refused
    rcases written_or_isFirstIn text with ⟨ds, written⟩ | ⟨e', first⟩
    · rw [readDigits_eq_ok_iff.mpr written] at refused
      cases refused
    · rw [readDigits_of_isFirstIn first, Except.error.injEq] at refused
      rwa [refused] at first
  · exact readDigits_of_isFirstIn

theorem writeDigits_injective : Function.Injective writeDigits := by
  intro ds es same
  have read := readDigits_eq_ok_iff.mpr same
  rw [readDigits_eq_ok_iff.mpr rfl, Except.ok.injEq] at read
  exact read

theorem not_holdsNonDigit_writeDigits (ds : List Digit) : ¬ HoldsNonDigit (writeDigits ds) := by
  rintro ⟨c, member, foreign⟩
  rw [isDigit_writeDigits ds c member] at foreign
  cases foreign

theorem holdsNonDigit_iff {text : String} :
    HoldsNonDigit text ↔ ∃ e : InvalidCharacter, e.IsFirstIn text := by
  constructor
  · intro ⟨c, member, foreign⟩
    rcases written_or_isFirstIn text with ⟨ds, rfl⟩ | found
    · exact absurd ⟨c, member, foreign⟩ (not_holdsNonDigit_writeDigits ds)
    · exact found
  · intro ⟨e, first⟩
    exact first.holdsNonDigit

end Paycard
