import Paycard.Proofs.Detection.Acceptance
import Paycard.Proofs.Service.Body
import Paycard.Proofs.Text.Escape

/-! # Refused texts

Whatever is asked about a card number, a text that is none is refused in one way: by its first character
that is no digit and the number of characters before it. The report is one line of printable ASCII
characters, and two reports read alike only if they are about the same character at the same position.
-/

namespace Paycard

/-! ## The report -/

theorem isPrintable_iff {c : Char} : Text.isPrintable c = true ↔ 0x20 ≤ c.toNat ∧ c.toNat ≤ 0x7e := by
  rw [Text.isPrintable, Bool.and_eq_true, decide_eq_true_eq, decide_eq_true_eq]
  rfl

/-- Of a fixed text it is computed. -/
theorem isPrintable_of_mem_toList {text : String} (all : text.toList.all Text.isPrintable = true) :
    ∀ c ∈ text.toList, Text.isPrintable c = true :=
  List.all_eq_true.mp all

theorem isPrintable_toChar (d : Digit) : Text.isPrintable d.toChar = true := by
  revert d
  decide

theorem toList_around (a b c : String) (cs ds : List Char) :
    (a ++ String.ofList cs ++ b ++ String.ofList ds ++ c).toList =
      a.toList ++ (cs ++ (b.toList ++ (ds ++ c.toList))) := by
  simp only [String.toList_append, String.toList_ofList, List.append_assoc]

namespace InvalidCharacter

theorem toList_message (e : InvalidCharacter) :
    e.message.toList = "invalid character '".toList ++ (Text.escape e.character ++
      ("' at position ".toList ++ (Nat.toDigits 10 e.position ++ " (only digits allowed)".toList))) := by
  unfold message
  rw [Nat.repr_eq_ofList_toDigits]
  exact toList_around _ _ _ _ _

theorem isPrintable_of_mem_message (e : InvalidCharacter) :
    ∀ c ∈ e.message.toList, Text.isPrintable c = true := by
  have position : ∀ c ∈ Nat.toDigits 10 e.position, Text.isPrintable c = true := by
    intro c member
    obtain ⟨d, rfl⟩ := Digit.exists_toChar_eq (Text.isDigit_toDigits _ c member)
    exact isPrintable_toChar d
  rw [toList_message]
  simp only [List.forall_mem_append]
  exact ⟨isPrintable_of_mem_toList rfl, Text.isPrintable_of_mem_escape, isPrintable_of_mem_toList rfl,
    position, isPrintable_of_mem_toList rfl⟩

/-- The character is read off the report first, and what is left then tells the position. -/
theorem message_injective : Function.Injective message := by
  intro e other same
  have chars := congrArg String.toList same
  rw [toList_message, toList_message, List.append_cancel_left_eq] at chars
  obtain ⟨character, rest⟩ := Text.escape_append_inj chars
  rw [List.append_cancel_left_eq, List.append_cancel_right_eq] at rest
  have position := congrArg Text.valueOf rest
  rw [Text.valueOf_toDigits, Text.valueOf_toDigits] at position
  calc e = ⟨e.position, e.character⟩ := rfl
    _ = ⟨other.position, other.character⟩ := by rw [position, character]
    _ = other := rfl

end InvalidCharacter

/-! ## Who reports -/

/-- A computation on a text that fails exactly if the text holds a character that is no digit, and then
    reports the first of them. -/
structure RefusesInPlace {α : Type} (text : String) (x : Except InvalidCharacter α) : Prop where
  fails_iff : (∃ e, x = .error e) ↔ HoldsNonDigit text
  reports_iff : ∀ e, x = .error e ↔ e.IsFirstIn text

theorem refusesInPlace_of_iff {α : Type} {text : String} {x : Except InvalidCharacter α}
    (reports : ∀ e, x = .error e ↔ e.IsFirstIn text) : RefusesInPlace text x where
  fails_iff := by simp only [reports, holdsNonDigit_iff]
  reports_iff := reports

theorem doubleEverySecond_eq_error_iff {text : String} {e : InvalidCharacter} :
    Luhn.doubleEverySecond text = .error e ↔ e.IsFirstIn text := by
  rw [Luhn.doubleEverySecond, bind_pure_comp, map_eq_error_iff, readDigits_eq_error_iff]

theorem sumDigits_eq_error_iff {text : String} {e : InvalidCharacter} :
    Luhn.sumDigits text = .error e ↔ e.IsFirstIn text := by
  rw [Luhn.sumDigits, bind_pure_comp, map_eq_error_iff, readDigits_eq_error_iff]

theorem accepts_eq_error_iff {store : Store} {text : String} {e : InvalidCharacter} :
    store.accepts text = .error e ↔ e.IsFirstIn text := by
  rw [Store.accepts, bind_pure_comp, map_eq_error_iff, Store.assess, assess_eq_error_iff]

namespace Service

theorem error_ofCard_eq_some_iff {schemes : List Scheme} {text message : String} :
    (Verdict.ofCard schemes text).error = some message ↔
      ∃ e : InvalidCharacter, e.IsFirstIn text ∧ e.message = message := by
  have reported (e : InvalidCharacter) : assess schemes text = .error e ↔ e.IsFirstIn text :=
    assess_eq_error_iff
  simp only [← reported]
  cases assessed : assess schemes text with
  | error e => simp [Verdict.ofCard, assessed]
  | ok assessment => simp [Verdict.ofCard, assessed]

/-- The members of a verdict as a value. -/
theorem exists_toJson_eq (verdict : Verdict) : ∃ members, verdict.toJson = .object members ∧
    members.lookup "error" = verdict.error.map .string := by
  refine ⟨_, rfl, ?_⟩
  obtain ⟨checksumValid, scheme, acceptable, rulesLoaded, error⟩ := verdict
  cases scheme <;> cases error <;> rfl

/-- The `error` member of the answer to a request about a text. -/
theorem exists_handle_detect_eq (settings : Fetch.Settings) (store : Store) {contentType : Option String}
    {body : Body} {text : String} (read : bodyMember "card_number" contentType body = .ok text) :
    ∃ members, handle settings store (.detect contentType body) = (store, .ok (.object members)) ∧
      ∀ value, members.lookup "error" = some value ↔
        ∃ e : InvalidCharacter, e.IsFirstIn text ∧ Json.string e.message = value := by
  obtain ⟨members, body, error⟩ := exists_toJson_eq (Verdict.ofCard store.schemes text)
  refine ⟨members, ?_, ?_⟩
  · simp only [handle, read, body]
  · intro value
    rw [error, Option.map_eq_some_iff]
    simp only [error_ofCard_eq_some_iff]
    constructor
    · rintro ⟨_, ⟨e, first, rfl⟩, rfl⟩
      exact ⟨e, first, rfl⟩
    · rintro ⟨e, first, rfl⟩
      exact ⟨e.message, ⟨e, first, rfl⟩, rfl⟩

end Service

/-- A text is refused by everything that reads it as a number exactly if it holds a character that is no
    digit, with the first such character and the number of characters before it. The server gives the
    message of this report. A message is one line of printable ASCII characters, and different reports
    have different messages. -/
theorem invalid_input_is_reported_in_place (text : String) (schemes : List Scheme) (store : Store) :
    RefusesInPlace text (Luhn.check text) ∧
    RefusesInPlace text (Luhn.doubleEverySecond text) ∧
    RefusesInPlace text (Luhn.sumDigits text) ∧
    RefusesInPlace text (assess schemes text) ∧
    RefusesInPlace text (store.assess text) ∧
    RefusesInPlace text (store.accepts text) ∧
    (∀ e other : InvalidCharacter, e.IsFirstIn text → other.IsFirstIn text → e = other) ∧
    (∀ message, (Service.Verdict.ofCard schemes text).error = some message ↔
      ∃ e : InvalidCharacter, e.IsFirstIn text ∧ e.message = message) ∧
    (∀ settings contentType body, Service.bodyMember "card_number" contentType body = .ok text →
      ∃ members, Service.handle settings store (.detect contentType body) =
          (store, .ok (.object members)) ∧
        ∀ value, members.lookup "error" = some value ↔
          ∃ e : InvalidCharacter, e.IsFirstIn text ∧ Json.string e.message = value) ∧
    (∀ e : InvalidCharacter, ∀ c ∈ e.message.toList, 0x20 ≤ c.toNat ∧ c.toNat ≤ 0x7e) ∧
    Function.Injective InvalidCharacter.message := by
  refine ⟨refusesInPlace_of_iff fun _ => check_eq_error_iff,
    refusesInPlace_of_iff fun _ => doubleEverySecond_eq_error_iff,
    refusesInPlace_of_iff fun _ => sumDigits_eq_error_iff,
    refusesInPlace_of_iff fun _ => assess_eq_error_iff,
    refusesInPlace_of_iff fun _ => assess_eq_error_iff,
    refusesInPlace_of_iff fun _ => accepts_eq_error_iff, ?once, ?verdict, ?served, ?printable,
    InvalidCharacter.message_injective⟩
  case once =>
    intro e other first first'
    exact first.unique first'
  case verdict =>
    intro message
    exact Service.error_ofCard_eq_some_iff
  case served =>
    intro settings contentType body read
    exact Service.exists_handle_detect_eq settings store read
  case printable =>
    intro e c member
    exact isPrintable_iff.mp (e.isPrintable_of_mem_message c member)

/-- A digit of another script stands in second place. It is written by its code in the message. -/
theorem invalid_input_is_reported_in_place_foreign_digit :
    let e : InvalidCharacter := ⟨1, '\u0663'⟩
    let request := Service.Request.detect (some "application/json") "\x7b\"card_number\":\"4\u0663x\"\x7d"
    e.IsFirstIn "4\u0663x" ∧ Luhn.check "4\u0663x" = .error e ∧ Store.accepts {} "4\u0663x" = .error e ∧
    e.message = "invalid character '\\u\x7b663\x7d' at position 1 (only digits allowed)" ∧
    ∃ members, Service.handle Fetch.Settings.standard {} request = ({}, .ok (.object members)) ∧
      members.lookup "error" = some (.string e.message) := by
  intro e request
  obtain ⟨checked, -, -, -, -, accepts, -, -, served, -⟩ :=
    invalid_input_is_reported_in_place "4\u0663x" [] {}
  have first : e.IsFirstIn "4\u0663x" := ⟨by decide, ['4'], ['x'], by decide, rfl, by simp⟩
  have read : Service.bodyMember "card_number" (some "application/json")
      "\x7b\"card_number\":\"4\u0663x\"\x7d" = .ok "4\u0663x" :=
    Service.bodyMember_of_ok (by decide +kernel) (by decide) (by cbv)
  have message : e.message = "invalid character '\\u\x7b663\x7d' at position 1 (only digits allowed)" := by
    decide +kernel
  obtain ⟨members, answered, error⟩ := served Fetch.Settings.standard _ _ read
  exact ⟨first, (checked.reports_iff e).mpr first, (accepts.reports_iff e).mpr first, message, members,
    answered, (error _).mpr ⟨e, first, rfl⟩⟩

end Paycard
