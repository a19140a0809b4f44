import Paycard.Proofs.Detection.Acceptance
import Paycard.Proofs.Detection.Overlap
import Paycard.Proofs.Luhn.Total
import Paycard.Proofs.Rule.Grammar
import Paycard.Proofs.Text.Escape
import Paycard.Service.Handler

/-! # What the server says

The answers about a card number and about rule text, member by member and without the functions that work
them out. A card number with a character that is no digit gets a report in place of a judgement; any other
gets the outcome of its checksum, its scheme if it has one, and whether it is acceptable.
-/

namespace Paycard

/-- How a rule is written in an answer. -/
inductive Rule.WrittenAs : Rule → Json → Prop where
  | digits (value : UInt64) : WrittenAs (.digits value)
      (.object [("type", .string "digits"), ("value", .number (.natural value))])
  | interval (min max : UInt64) : WrittenAs (.interval min max)
      (.object [("type", .string "interval"),
        ("value", .object [("min", .number (.natural min)), ("max", .number (.natural max))])])

theorem Rule.writtenAs_toJson (rule : Rule) : rule.WrittenAs rule.toJson := by
  cases rule with
  | digits value => exact .digits value
  | interval min max => exact .interval min max

/-- A card number belongs to a scheme whose rules cover its size in bytes and a number that it starts with. -/
structure Scheme.Includes (scheme : Scheme) (card : String) : Prop where
  length : ∃ length, Rule.AnyCovers scheme.lengths length ∧ length.toNat = card.utf8ByteSize
  range : ∃ v, Rule.AnyCovers scheme.ranges v ∧ Nat.toDigits 10 v.toNat <+: card.toList

theorem Scheme.includes_iff {scheme : Scheme} {card : String} :
    scheme.Includes card ↔ scheme.matchesCard card = true := by
  rw [matchesCard_iff]
  exact ⟨fun includes => ⟨includes.length, includes.range⟩, fun ⟨length, range⟩ => ⟨length, range⟩⟩

theorem Scheme.not_includes_iff {scheme : Scheme} {card : String} :
    ¬ scheme.Includes card ↔ scheme.matchesCard card = false := by
  rw [includes_iff, Bool.not_eq_true]

namespace Service

/-! ## Rule text -/

/-- What is said about a list of tokens: the rules that they are, and those that are none with commas in place
    of their hyphens. -/
inductive TellsTokens : List (List Char) → List Json → List Json → Prop where
  | nothing : TellsTokens [] [] []
  | rule {token : List Char} {tokens : List (List Char)} {rule : Rule} {written : Json}
      {rules dropped : List Json} : Rule.IsToken token rule → rule.WrittenAs written →
      TellsTokens tokens rules dropped → TellsTokens (token :: tokens) (written :: rules) dropped
  | dropped {token : List Char} {tokens : List (List Char)} {rules dropped : List Json} :
      (∀ rule, ¬ Rule.IsToken token rule) → TellsTokens tokens rules dropped →
      TellsTokens (token :: tokens) rules
        (.string (String.ofList (token.map fun c => if c = '-' then ',' else c)) :: dropped)

/-- The answer about a rule text, whose tokens stand between commas. -/
inductive TellsRules (text : String) : Json → Prop where
  | members {rules dropped : List Json} : TellsTokens (text.toList.splitOn ',') rules dropped →
      TellsRules text (.object [("rules", .array rules), ("dropped", .array dropped)])

theorem tellsTokens_ofTokens (tokens : List (List Char)) :
    TellsTokens tokens ((Rule.ofTokens tokens).rules.map Rule.toJson)
      ((Rule.ofTokens tokens).dropped.map fun e => .string e.literal) := by
  induction tokens with
  | nil => exact .nothing
  | cons token tokens ih =>
      rw [Rule.ofTokens]
      cases read : Rule.ofToken token with
      | ok rule => exact .rule (Rule.ofToken_eq_ok_iff.mp read) rule.writtenAs_toJson ih
      | error e =>
          obtain ⟨none, rfl⟩ := Rule.ofToken_eq_error_iff.mp read
          exact .dropped none ih

theorem tellsRules_toJson (text : String) : TellsRules text (RuleText.parse text).toJson :=
  .members (tellsTokens_ofTokens _)

/-! ## Card numbers -/

/-- The scheme of a card number is the first that it belongs to. The empty one has none. -/
structure IsFirstMatch (schemes : List Scheme) (card : String) (scheme : Scheme) : Prop where
  nonempty : card ≠ ""
  included : scheme.Includes card
  first : ∃ before after, schemes = before ++ scheme :: after ∧ ∀ other ∈ before, ¬ other.Includes card

/-- The member for the scheme of a card number, which is left out if there is none. -/
inductive TellsScheme (schemes : List Scheme) (card : String) : List (String × Json) → Prop where
  | unknown : card = "" ∨ (∀ scheme ∈ schemes, ¬ scheme.Includes card) → TellsScheme schemes card []
  | known {scheme : Scheme} : IsFirstMatch schemes card scheme →
      TellsScheme schemes card [("scheme", .object [("id", .string scheme.id), ("name", .string scheme.name),
        ("icon", .string scheme.icon)])]

/-- The answer about a card number. -/
inductive Tells (schemes : List Scheme) (card : String) : Json → Prop where
  | refused {e : InvalidCharacter} {written : List Char} {loaded : Bool} :
      e.IsFirstIn card → Text.EscapedAs e.character written → (loaded = true ↔ schemes ≠ []) →
      Tells schemes card (.object [("checksum_valid", .bool false), ("acceptable", .bool false),
        ("rules_loaded", .bool loaded), ("error", .string ("invalid character '" ++ String.ofList written ++
          "' at position " ++ Nat.repr e.position ++ " (only digits allowed)"))])
  | judged {ds : List Digit} {valid acceptable loaded : Bool} {scheme : List (String × Json)} :
      card = writeDigits ds → (valid = true ↔ 10 ∣ Luhn.placeSum ds) → TellsScheme schemes card scheme →
      (acceptable = true ↔
        card ≠ "" ∧ valid = true ∧ (schemes = [] ∨ ∃ scheme ∈ schemes, scheme.Includes card)) →
      (loaded = true ↔ schemes ≠ []) →
      Tells schemes card (.object (("checksum_valid", .bool valid) :: (scheme ++
        [("acceptable", .bool acceptable), ("rules_loaded", .bool loaded)])))

variable {schemes : List Scheme} {card : String}

theorem detect?_eq_some_iff {scheme : Scheme} :
    detect? schemes card = some scheme ↔ IsFirstMatch schemes card scheme := by
  constructor
  · intro found
    obtain ⟨nonempty, -, matched⟩ := detect?_eq_some_imp found
    refine ⟨nonempty, Scheme.includes_iff.mpr matched, ?_⟩
    rw [detect?, if_neg (mt String.isEmpty_iff.mp nonempty), List.find?_eq_some_iff_append] at found
    obtain ⟨-, before, after, spelled, others⟩ := found
    refine ⟨before, after, spelled, fun other member => Scheme.not_includes_iff.mpr ?_⟩
    simpa using others other member
  · rintro ⟨nonempty, included, before, after, spelled, others⟩
    rw [detect?, if_neg (mt String.isEmpty_iff.mp nonempty), List.find?_eq_some_iff_append]
    refine ⟨Scheme.includes_iff.mp included, before, after, spelled, fun other member => ?_⟩
    simp [Scheme.not_includes_iff.mp (others other member)]

theorem tellsScheme_iff {members : List (String × Json)} : TellsScheme schemes card members ↔
    members = ((detect? schemes card).map fun scheme => ("scheme", summary scheme)).toList := by
  have none : detect? schemes card = none ↔ card = "" ∨ ∀ scheme ∈ schemes, ¬ scheme.Includes card := by
    simp only [detect?_eq_none_iff, Scheme.not_includes_iff]
  constructor
  · rintro (nowhere | first)
    · rw [none.mpr nowhere]
      rfl
    · rw [detect?_eq_some_iff.mpr first]
      rfl
  · rintro rfl
    cases found : detect? schemes card with
    | none => exact .unknown (none.mp found)
    | some scheme => exact .known (detect?_eq_some_iff.mp found)

theorem rulesLoaded_eq_true_iff : (!schemes.isEmpty) = true ↔ schemes ≠ [] := by
  simp

theorem valid_eq_true_iff {ds : List Digit} : Luhn.valid ds = true ↔ 10 ∣ Luhn.placeSum ds := by
  rw [Luhn.valid, beq_iff_eq, Luhn.total_eq_placeSum, Nat.dvd_iff_mod_eq_zero]

theorem message_eq {e : InvalidCharacter} {written : List Char} (escaped : Text.EscapedAs e.character written) :
    e.message = "invalid character '" ++ String.ofList written ++ "' at position " ++ Nat.repr e.position ++
      " (only digits allowed)" := by
  obtain rfl := Text.escapedAs_iff.mp escaped
  unfold InvalidCharacter.message
  with_reducible rfl

/-- The assessment of a number that is written in digits. -/
def assessmentOf (schemes : List Scheme) (ds : List Digit) : Assessment :=
  ⟨Luhn.valid ds, detect? schemes (writeDigits ds), (writeDigits ds).isEmpty⟩

theorem assess_writeDigits (schemes : List Scheme) (ds : List Digit) :
    assess schemes (writeDigits ds) = .ok (assessmentOf schemes ds) := by
  rw [assess_eq_map, Luhn.check_writeDigits]
  rfl

theorem isAcceptable_assessmentOf_iff {ds : List Digit} :
    (assessmentOf schemes ds).isAcceptable (!schemes.isEmpty) = true ↔
      writeDigits ds ≠ "" ∧ Luhn.valid ds = true ∧
        (schemes = [] ∨ ∃ scheme ∈ schemes, scheme.Includes (writeDigits ds)) := by
  simp only [isAcceptable_iff (assess_writeDigits schemes ds), Scheme.includes_iff, ← passesLuhn_writeDigits_iff]
  exact ⟨fun ⟨nonempty, luhn, scheme⟩ => ⟨nonempty, luhn, scheme⟩,
    fun ⟨nonempty, luhn, scheme⟩ => ⟨nonempty, luhn, scheme⟩⟩

/-- There is one answer about a card number, and it is the one that the server gives. -/
theorem tells_iff {answer : Json} :
    Tells schemes card answer ↔ answer = (Verdict.ofCard schemes card).toJson := by
  rcases written_or_isFirstIn card with ⟨ds, rfl⟩ | ⟨e, first⟩
  · simp only [Verdict.ofCard, assess_writeDigits]
    constructor
    · rintro (⟨first, -⟩ | ⟨same, valid, scheme, acceptable, loaded⟩)
      · exact absurd first.holdsNonDigit (not_holdsNonDigit_writeDigits ds)
      · cases writeDigits_injective same
        rw [← valid_eq_true_iff, Bool.coe_iff_coe] at valid
        rw [valid, ← isAcceptable_assessmentOf_iff, Bool.coe_iff_coe] at acceptable
        rw [← rulesLoaded_eq_true_iff, Bool.coe_iff_coe] at loaded
        rw [tellsScheme_iff.mp scheme, valid, acceptable, loaded]
        simp [Verdict.toJson, assessmentOf]
    · rintro rfl
      have told : Tells schemes (writeDigits ds) _ := .judged rfl valid_eq_true_iff (tellsScheme_iff.mpr rfl)
        isAcceptable_assessmentOf_iff rulesLoaded_eq_true_iff
      simpa [Verdict.toJson, assessmentOf] using told
  · simp only [Verdict.ofCard, assess_eq_error_iff.mpr first]
    constructor
    · rintro (⟨first', escaped, loaded⟩ | ⟨rfl, -⟩)
      · cases first'.unique first
        rw [← rulesLoaded_eq_true_iff, Bool.coe_iff_coe] at loaded
        rw [← message_eq escaped, loaded]
        rfl
      · exact absurd first.holdsNonDigit (not_holdsNonDigit_writeDigits _)
    · rintro rfl
      have told : Tells schemes card _ := .refused first (Text.escapedAs_iff.mpr rfl) rulesLoaded_eq_true_iff
      rw [← message_eq (Text.escapedAs_iff.mpr rfl)] at told
      exact told

end Service

end Paycard
