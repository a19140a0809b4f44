import Paycard.Command.Run
import Paycard.Proofs.Number
import Paycard.Service.Handler

/-! # Accepting card numbers

A card number can be judged by the store, by the server and on the command line. With the same schemes
all three say the same: they refuse a text that is no card number with the same report, and of the card
numbers they accept the same ones. A store that holds no scheme at all counts as one without rules.
-/

namespace Paycard

/-- A text that is written in digits whose Luhn total is a multiple of ten. -/
def PassesLuhn (card : String) : Prop := ∃ ds, card = writeDigits ds ∧ Luhn.total ds % 10 = 0

/-- A card number that passes the Luhn check and belongs to a scheme, if there are any schemes. -/
structure Acceptable (schemes : List Scheme) (card : String) : Prop where
  nonempty : card ≠ ""
  luhn : PassesLuhn card
  scheme : schemes = [] ∨ ∃ scheme ∈ schemes, scheme.matchesCard card = true

/-- A way to judge a card number that has three outcomes, each of them in exactly the right case. -/
structure Judges (schemes : List Scheme) (card : String) (invalid accepted refused : Prop) :
    Prop where
  invalid_iff : invalid ↔ HoldsNonDigit card
  accepted_iff : accepted ↔ Acceptable schemes card
  refused_iff : refused ↔ ¬ HoldsNonDigit card ∧ ¬ Acceptable schemes card

theorem PassesLuhn.not_holdsNonDigit {card : String} (luhn : PassesLuhn card) :
    ¬ HoldsNonDigit card := by
  intro holds
  obtain ⟨ds, written, -⟩ := luhn
  obtain ⟨e, first⟩ := holdsNonDigit_iff.mp holds
  rw [← readDigits_eq_error_iff, readDigits_eq_ok_iff.mpr written] at first
  cases first

theorem check_eq_error_iff {card : String} {e : InvalidCharacter} :
    Luhn.check card = .error e ↔ e.IsFirstIn card := by
  rw [Luhn.check, map_eq_error_iff, readDigits_eq_error_iff]

theorem check_eq_ok_true_iff {card : String} : Luhn.check card = .ok true ↔ PassesLuhn card := by
  simp [Luhn.check, map_eq_ok_iff, readDigits_eq_ok_iff, Luhn.valid, PassesLuhn]

theorem passesLuhn_writeDigits_iff {ds : List Digit} :
    PassesLuhn (writeDigits ds) ↔ Luhn.valid ds = true := by
  simp [PassesLuhn, Luhn.valid, writeDigits_injective.eq_iff]

theorem isSome_detect?_iff {schemes : List Scheme} {card : String} (nonempty : card ≠ "") :
    (detect? schemes card).isSome = true ↔
      ∃ scheme ∈ schemes, scheme.matchesCard card = true := by
  simp [detect?, nonempty]

theorem detect?_nil (card : String) : detect? [] card = none := by
  simp [detect?]

theorem assess_eq_map (schemes : List Scheme) (card : String) :
    assess schemes card =
      (fun valid => ⟨valid, detect? schemes card, card.isEmpty⟩) <$> Luhn.check card := by
  rw [assess]
  cases Luhn.check card with
  | error e => rfl
  | ok valid => rfl

theorem assess_eq_error_iff {schemes : List Scheme} {card : String} {e : InvalidCharacter} :
    assess schemes card = .error e ↔ e.IsFirstIn card := by
  rw [assess_eq_map, map_eq_error_iff, check_eq_error_iff]

theorem assess_eq_ok_iff {schemes : List Scheme} {card : String} {assessment : Assessment} :
    assess schemes card = .ok assessment ↔
      ∃ valid, Luhn.check card = .ok valid ∧
        ⟨valid, detect? schemes card, card.isEmpty⟩ = assessment := by
  rw [assess_eq_map, map_eq_ok_iff]

/-- A card number that can be read is judged by its assessment. -/
theorem isAcceptable_iff {schemes : List Scheme} {card : String} {assessment : Assessment}
    (assessed : assess schemes card = .ok assessment) :
    assessment.isAcceptable (!schemes.isEmpty) = true ↔ Acceptable schemes card := by
  obtain ⟨valid, checked, rfl⟩ := assess_eq_ok_iff.mp assessed
  have luhn : valid = true ↔ PassesLuhn card := by
    rw [← check_eq_ok_true_iff, checked, Except.ok.injEq]
  simp only [Assessment.isAcceptable, Bool.and_eq_true, Bool.not_eq_true', Bool.or_eq_true,
    Bool.not_not, String.isEmpty_eq_false_iff, List.isEmpty_iff, luhn]
  constructor
  · intro ⟨⟨nonempty, passes⟩, found⟩
    refine ⟨nonempty, passes, found.symm.imp_right fun some => ?_⟩
    exact (isSome_detect?_iff nonempty).mp some
  · intro acceptable
    refine ⟨⟨acceptable.nonempty, acceptable.luhn⟩, acceptable.scheme.symm.imp_left fun some => ?_⟩
    exact (isSome_detect?_iff acceptable.nonempty).mpr some

theorem acceptable_nil_iff {card : String} : Acceptable [] card ↔ card ≠ "" ∧ PassesLuhn card := by
  constructor
  · intro acceptable
    exact ⟨acceptable.nonempty, acceptable.luhn⟩
  · intro ⟨nonempty, luhn⟩
    exact ⟨nonempty, luhn, .inl rfl⟩

theorem scheme_of_assess {schemes : List Scheme} {card : String} {assessment : Assessment}
    (assessed : assess schemes card = .ok assessment) : assessment.scheme = detect? schemes card := by
  obtain ⟨valid, -, rfl⟩ := assess_eq_ok_iff.mp assessed
  rfl

/-- A judgement that follows the assessment is right. -/
theorem judges_of_assess {schemes : List Scheme} {card : String} {invalid accepted refused : Prop}
    (onError : ∀ e, assess schemes card = .error e → invalid ∧ ¬ accepted ∧ ¬ refused)
    (onOk : ∀ assessment, assess schemes card = .ok assessment →
      let acceptable := assessment.isAcceptable (!schemes.isEmpty)
      ¬ invalid ∧ (accepted ↔ acceptable = true) ∧ (refused ↔ acceptable = false)) :
    Judges schemes card invalid accepted refused := by
  cases assessed : assess schemes card with
  | error e =>
      obtain ⟨reported, notAccepted, notRefused⟩ := onError e assessed
      have holds := (assess_eq_error_iff.mp assessed).holdsNonDigit
      have unacceptable : ¬ Acceptable schemes card :=
        fun acceptable => acceptable.luhn.not_holdsNonDigit holds
      exact ⟨iff_of_true reported holds, iff_of_false notAccepted unacceptable,
        iff_of_false notRefused fun ⟨digits, _⟩ => digits holds⟩
  | ok assessment =>
      obtain ⟨notReported, accepts, refuses⟩ := onOk assessment assessed
      have digits : ¬ HoldsNonDigit card := by
        intro holds
        obtain ⟨e, first⟩ := holdsNonDigit_iff.mp holds
        rw [assess_eq_error_iff.mpr first] at assessed
        cases assessed
      have decides := isAcceptable_iff assessed
      refine ⟨iff_of_false notReported digits, accepts.trans decides, refuses.trans ?_⟩
      rw [← decides, Bool.not_eq_true]
      exact (and_iff_right digits).symm

namespace Store

variable {store : Store} {card : String}

theorem accepts_of_error {e : InvalidCharacter} (assessed : store.assess card = .error e) :
    store.accepts card = .error e := by
  rw [accepts, assessed]
  rfl

theorem accepts_of_ok {assessment : Assessment} (assessed : store.assess card = .ok assessment) :
    store.accepts card = .ok (assessment.isAcceptable store.hasRules) := by
  rw [accepts, assessed]
  rfl

end Store

theorem judges_accepts (store : Store) (card : String) :
    Judges store.schemes card (∃ e, store.accepts card = .error e) (store.accepts card = .ok true)
      (store.accepts card = .ok false) := by
  apply judges_of_assess
  · intro e assessed
    rw [Store.accepts_of_error assessed]
    simp
  · intro assessment assessed
    rw [Store.accepts_of_ok assessed]
    simp [Store.hasRules]

theorem judges_verdict (schemes : List Scheme) (card : String) :
    let verdict := Service.Verdict.ofCard schemes card
    Judges schemes card (verdict.error.isSome = true) (verdict.acceptable = true)
      (verdict.error = none ∧ verdict.acceptable = false) := by
  apply judges_of_assess
  · intro e assessed
    simp [Service.Verdict.ofCard, assessed]
  · intro assessment assessed
    simp [Service.Verdict.ofCard, assessed]

theorem rulesLoaded_iff {schemes : List Scheme} {card : String} :
    (Service.Verdict.ofCard schemes card).rulesLoaded = true ↔ schemes ≠ [] := by
  cases assessed : assess schemes card with
  | error e => simp [Service.Verdict.ofCard, assessed]
  | ok assessment => simp [Service.Verdict.ofCard, assessed]

theorem rulesLoaded_of_scheme {schemes : List Scheme} {card : String}
    (found : (Service.Verdict.ofCard schemes card).scheme.isSome = true) :
    (Service.Verdict.ofCard schemes card).rulesLoaded = true := by
  rw [rulesLoaded_iff]
  rintro rfl
  cases assessed : assess [] card with
  | error e => simp [Service.Verdict.ofCard, assessed] at found
  | ok assessment =>
      simp [Service.Verdict.ofCard, assessed, scheme_of_assess assessed, detect?_nil] at found

theorem judges_runAssess (schemes : List Scheme) (number : String) (format : Command.Format) :
    let outcome := Command.runAssess schemes number format
    Judges schemes (Command.stripSeparators number) (outcome.code = 2) (outcome.code = 0)
      (outcome.code = 1) := by
  apply judges_of_assess
  · intro e assessed
    simp [Command.runAssess, assessed, Command.Outcome.failure]
  · intro assessment assessed
    simp only [Command.runAssess, assessed, Command.Outcome.ofLines]
    cases assessment.isAcceptable (!schemes.isEmpty) <;> simp [Command.exitCode]

/-- Whether a collection is stored and whether there are rules differ for an empty collection only, and
    there it matters for the card numbers that pass the Luhn check. -/
theorem isAcceptable_isLoaded_iff (store : Store) (card : String) :
    (·.isAcceptable store.isLoaded) <$> store.assess card = store.accepts card ↔
      ¬ (store.stored = some [] ∧ card ≠ "" ∧ PassesLuhn card) := by
  cases assessed : store.assess card with
  | error e =>
      rw [Store.accepts_of_error assessed]
      refine iff_of_true rfl ?_
      intro ⟨_, _, passes⟩
      exact passes.not_holdsNonDigit (assess_eq_error_iff.mp assessed).holdsNonDigit
  | ok assessment =>
      rw [Store.accepts_of_ok assessed]
      show Except.ok (assessment.isAcceptable store.isLoaded) = Except.ok _ ↔ _
      rw [Except.ok.injEq]
      -- The two flags differ for an empty collection only: it is stored, but it has no rules.
      cases stored : store.stored with
      | none => simp [Store.isLoaded, Store.hasRules, Store.schemes, stored]
      | some schemes =>
          cases schemes with
          | cons scheme schemes => simp [Store.isLoaded, Store.hasRules, Store.schemes, stored]
          | nil =>
              have noSchemes : store.schemes = [] := by rw [Store.schemes, stored]; rfl
              have loaded : assessment.isAcceptable store.isLoaded = false := by
                have notFound := scheme_of_assess assessed
                rw [noSchemes, detect?_nil] at notFound
                simp [Assessment.isAcceptable, notFound, Store.isLoaded, stored]
              have accepted : assessment.isAcceptable store.hasRules = true ↔
                  card ≠ "" ∧ PassesLuhn card := by
                rw [Store.hasRules, isAcceptable_iff assessed, noSchemes]
                exact acceptable_nil_iff
              rw [loaded, ← accepted]
              simp

/-- In every state the store, the server and the command line give the same verdict on a card number.
    They report its first character that is no digit, if there is one; otherwise they accept it in
    exactly the acceptable case. -/
theorem acceptance_paths_agree (store : Store) (card : String) :
    let verdict := Service.Verdict.ofCard store.schemes card
    Judges store.schemes card (∃ e, store.accepts card = .error e) (store.accepts card = .ok true)
      (store.accepts card = .ok false) ∧
    Judges store.schemes card (verdict.error.isSome = true) (verdict.acceptable = true)
      (verdict.error = none ∧ verdict.acceptable = false) ∧
    (∀ number format, Command.stripSeparators number = card →
      let outcome := Command.runAssess store.schemes number format
      Judges store.schemes card (outcome.code = 2) (outcome.code = 0) (outcome.code = 1)) ∧
    (∀ e : InvalidCharacter, e.IsFirstIn card →
      store.accepts card = .error e ∧
      verdict = ⟨false, none, false, verdict.rulesLoaded, some e.message⟩ ∧
      ∀ number format, Command.stripSeparators number = card →
        Command.runAssess store.schemes number format = .failure e.message) ∧
    (verdict.rulesLoaded = true ↔ store.schemes ≠ []) ∧
    (verdict.scheme.isSome = true → verdict.rulesLoaded = true) ∧
    ((·.isAcceptable store.isLoaded) <$> store.assess card = store.accepts card ↔
      ¬ (store.stored = some [] ∧ card ≠ "" ∧ PassesLuhn card)) := by
  refine ⟨judges_accepts store card, judges_verdict store.schemes card, ?command, ?invalid,
    rulesLoaded_iff, rulesLoaded_of_scheme, isAcceptable_isLoaded_iff store card⟩
  case command =>
    intro number format stripped
    rw [← stripped]
    exact judges_runAssess store.schemes number format
  case invalid =>
    intro e first
    have assessed : assess store.schemes card = .error e := assess_eq_error_iff.mpr first
    refine ⟨Store.accepts_of_error assessed, ?_, ?_⟩
    · simp [Service.Verdict.ofCard, assessed]
    · intro number format stripped
      rw [Command.runAssess, stripped, assessed]

/-- A number with separators that a scheme accepts, and one with a letter in it. -/
theorem acceptance_paths_agree_separated_number :
    let visa : Scheme := ⟨"visa", "Visa", [.digits 16], [.digits 4], ""⟩
    let store : Store := ⟨some [visa]⟩
    let verdict := Service.Verdict.ofCard [visa] "4111111111111111"
    let outcome := Command.runAssess [visa] "4111 1111-1111 1111" .text
    Command.stripSeparators "4111 1111-1111 1111" = "4111111111111111" ∧
    Acceptable [visa] "4111111111111111" ∧
    store.accepts "4111111111111111" = .ok true ∧ verdict.acceptable = true ∧ outcome.code = 0 ∧
    verdict.scheme.isSome = true ∧ verdict.rulesLoaded = true ∧
    Command.stripSeparators "4-1x1" = "41x1" ∧
    InvalidCharacter.IsFirstIn ⟨2, 'x'⟩ "41x1" ∧
    store.accepts "41x1" = .error ⟨2, 'x'⟩ ∧
    (Service.Verdict.ofCard [visa] "41x1").error.isSome = true ∧
    (Command.runAssess [visa] "4-1x1" .json).code = 2 := by
  intro visa store verdict outcome
  have stripped : Command.stripSeparators "4111 1111-1111 1111" = "4111111111111111" := by decide
  have strippedBad : Command.stripSeparators "4-1x1" = "41x1" := by decide
  have acceptable : Acceptable [visa] "4111111111111111" := by
    refine ⟨by decide, ⟨4 :: List.replicate 15 1, by decide, by decide⟩, .inr ⟨visa, by simp, ?_⟩⟩
    decide
  have first : InvalidCharacter.IsFirstIn ⟨2, 'x'⟩ "41x1" :=
    ⟨by decide, ['4', '1'], ['1'], by decide, rfl, by simp⟩
  obtain ⟨accepts, served, ran, -, -, loaded, -⟩ := acceptance_paths_agree store "4111111111111111"
  obtain ⟨-, servedBad, ranBad, invalid, -⟩ := acceptance_paths_agree store "41x1"
  have found : verdict.scheme.isSome = true := by decide
  exact ⟨stripped, acceptable, accepts.accepted_iff.mpr acceptable, served.accepted_iff.mpr acceptable,
    (ran _ .text stripped).accepted_iff.mpr acceptable, found, loaded found, strippedBad, first,
    (invalid _ first).1, servedBad.invalid_iff.mpr first.holdsNonDigit,
    (ranBad _ .json strippedBad).invalid_iff.mpr first.holdsNonDigit⟩

end Paycard
