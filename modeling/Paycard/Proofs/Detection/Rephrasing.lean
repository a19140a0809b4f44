import Mathlib.Data.List.Forall2
import Paycard.Batch
import Paycard.Dictionary
import Paycard.Proofs.Rule.Meaning

/-! # Dictionaries in other words

Detection looks at a dictionary only through what its rule texts mean. Two dictionaries that differ in
the wording of their rules give the same answers: the scheme that is found and its position, the
assessment of a card number, and the tally of a batch.
-/

namespace Paycard

open RuleText (meaning)

/-- Two entries of the same scheme whose rule texts mean the same integers. -/
structure Entry.Rephrased (left right : Entry) : Prop where
  id : left.id = right.id
  name : left.name = right.name
  icon : left.icon = right.icon
  ranges : meaning left.ranges = meaning right.ranges
  length : meaning left.length = meaning right.length

namespace Dictionary

/-- The entries of a dictionary, their rules still written as text. -/
def entries? : Json → Option (List Entry)
  | .object members =>
      match members.lookup "data" with
      | some (.array items) => (items.mapM Entry.ofJson).toOption
      | _ => none
  | _ => none

/-- Two dictionaries that differ at most in the rule texts of their entries, and not in what these
    texts mean. -/
def Rephrased (before after : Json) : Prop :=
  ∃ old new, entries? before = some old ∧ entries? after = some new ∧
    List.Forall₂ Entry.Rephrased old new

theorem ofJson_of_entries? {value : Json} {entries : List Entry} (h : entries? value = some entries) :
    ofJson value = .ok (entries.map Entry.scheme) := by
  unfold entries? at h
  split at h
  · split at h
    · rename_i members _ items found
      rw [ofJson]
      simp only [found, schemesOfItems]
      cases read : items.mapM Entry.ofJson with
      | error _ => simp [read, Except.toOption] at h
      | ok decoded =>
          obtain rfl : decoded = entries := by simpa [read, Except.toOption] using h
          rfl
    · cases h
  · cases h

theorem mapM_ofJson_toJson (entries : List Entry) :
    (entries.map Entry.toJson).mapM Entry.ofJson = .ok entries := by
  induction entries with
  | nil => rfl
  | cons entry entries ih =>
      have first : Entry.ofJson entry.toJson = .ok entry := rfl
      rw [List.map_cons, List.mapM_cons, first, ih]
      rfl

theorem entries?_toJson (entries : List Entry) : entries? (toJson entries) = some entries := by
  show ((entries.map Entry.toJson).mapM Entry.ofJson).toOption = some entries
  rw [mapM_ofJson_toJson]
  rfl

end Dictionary

/-- Two schemes that nothing but the spelling of their rules tells apart. -/
structure Scheme.Alike (left right : Scheme) : Prop where
  id : left.id = right.id
  name : left.name = right.name
  icon : left.icon = right.icon
  matchesCard : left.matchesCard = right.matchesCard

theorem Entry.Rephrased.alike {left right : Entry} (h : Entry.Rephrased left right) :
    Scheme.Alike left.scheme right.scheme where
  id := h.id
  name := h.name
  icon := h.icon
  matchesCard := by
    funext card
    simp only [Scheme.matchesCard, Entry.scheme, Rule.matchesLength_congr h.length,
      Rule.matchesRange_congr h.ranges]

/-- Two collections that give the same answers about every card number and every batch. -/
structure SameAnswers (left right : List Scheme) : Prop where
  position (card : String) : detectIndex? left card = detectIndex? right card
  id (card : String) : (detect? left card).map Scheme.id = (detect? right card).map Scheme.id
  name (card : String) : (detect? left card).map Scheme.name = (detect? right card).map Scheme.name
  icon (card : String) : (detect? left card).map Scheme.icon = (detect? right card).map Scheme.icon
  assessment (card : String) (rulesLoaded : Bool) :
    (assess left card).map (fun a => (a.checksumValid, a.isAcceptable rulesLoaded)) =
      (assess right card).map fun a => (a.checksumValid, a.isAcceptable rulesLoaded)
  tally (cards : List String) : countByScheme left cards = countByScheme right cards

section Alike

variable {left right : List Scheme} (alike : List.Forall₂ Scheme.Alike left right)

include alike

theorem detectIndex?_congr (card : String) : detectIndex? left card = detectIndex? right card := by
  unfold detectIndex?
  split
  · rfl
  · induction alike with
    | nil => rfl
    | cons first _ ih => rw [List.findIdx?_cons, List.findIdx?_cons, first.matchesCard, ih]

theorem detect?_alike (card : String) :
    Option.Rel Scheme.Alike (detect? left card) (detect? right card) := by
  unfold detect?
  split
  · exact .none
  · induction alike with
    | nil => exact .none
    | @cons l r _ _ first _ ih =>
        rw [List.find?_cons, List.find?_cons, first.matchesCard]
        cases r.matchesCard card with
        | true => exact .some first
        | false => exact ih

theorem map_detect?_congr {β : Type} {f : Scheme → β}
    (same : ∀ {l r : Scheme}, l.Alike r → f l = f r) (card : String) :
    (detect? left card).map f = (detect? right card).map f := by
  have found := detect?_alike alike card
  generalize detect? left card = one at found ⊢
  generalize detect? right card = other at found ⊢
  cases found with
  | none => rfl
  | some found => exact congrArg some (same found)

theorem sameAnswers_of_alike : SameAnswers left right where
  position := detectIndex?_congr alike
  id := map_detect?_congr alike Scheme.Alike.id
  name := map_detect?_congr alike Scheme.Alike.name
  icon := map_detect?_congr alike Scheme.Alike.icon
  assessment card rulesLoaded := by
    have found : (detect? left card).isSome = (detect? right card).isSome := by
      simpa using congrArg Option.isSome (map_detect?_congr alike Scheme.Alike.id card)
    unfold assess
    cases Luhn.check card with
    | error e => rfl
    | ok valid =>
        show Except.ok _ = Except.ok _
        simp only [Assessment.isAcceptable, found]
  tally cards := by
    simp only [countByScheme, map_detect?_congr alike Scheme.Alike.id]

end Alike

/-- Matching grows with what a rule text means. Rephrasing a text keeps what it means, and a
    dictionary whose texts mean the same gives the same answers. -/
theorem meaning_decides_answers :
    (∀ narrow wide, meaning narrow ⊆ meaning wide → ∀ card,
      (Rule.matchesLength (Rule.parse narrow) card = true →
        Rule.matchesLength (Rule.parse wide) card = true) ∧
      (Rule.matchesRange (Rule.parse narrow) card = true →
        Rule.matchesRange (Rule.parse wide) card = true)) ∧
    (∀ left right, Rule.Rephrased (RuleText.tokens left) (RuleText.tokens right) →
      meaning left = meaning right) ∧
    (∀ before after, Dictionary.Rephrased before after →
      ∃ old new, Dictionary.ofJson before = .ok old ∧ Dictionary.ofJson after = .ok new ∧
        SameAnswers old new) := by
  refine ⟨?monotone, ?rephrased, ?dictionary⟩
  case monotone =>
    intro narrow wide within card
    exact ⟨Rule.matchesLength_mono within, Rule.matchesRange_mono within⟩
  case rephrased =>
    intro left right rephrased
    exact rephrased.meaningOf_eq
  case dictionary =>
    intro before after ⟨old, new, read, readAgain, same⟩
    refine ⟨_, _, Dictionary.ofJson_of_entries? read, Dictionary.ofJson_of_entries? readAgain, ?_⟩
    apply sameAnswers_of_alike
    rw [List.forall₂_map_left_iff, List.forall₂_map_right_iff]
    exact same.imp fun _ _ rephrased => rephrased.alike

/-- An interval cut in two, the parts exchanged and a malformed token put between them. -/
theorem meaning_decides_answers_cut_interval :
    meaning "44" ⊆ meaning "40-44" ∧
    Rule.Rephrased (RuleText.tokens "40-49") (RuleText.tokens "45-49,x,40-44") ∧
    Dictionary.Rephrased (Dictionary.toJson [⟨"visa", "Visa", "40-49", "16", ""⟩])
      (Dictionary.toJson [⟨"visa", "Visa", "45-49,x,40-44", "16", ""⟩]) ∧
    (Rule.matchesRange (Rule.parse "44") "4411" = true →
      Rule.matchesRange (Rule.parse "40-44") "4411" = true) ∧
    meaning "40-49" = meaning "45-49,x,40-44" ∧
    ∃ old new,
      Dictionary.ofJson (Dictionary.toJson [⟨"visa", "Visa", "40-49", "16", ""⟩]) = .ok old ∧
      Dictionary.ofJson (Dictionary.toJson [⟨"visa", "Visa", "45-49,x,40-44", "16", ""⟩]) = .ok new ∧
      SameAnswers old new := by
  obtain ⟨monotone, rephrasing, dictionary⟩ := meaning_decides_answers
  have within : meaning "44" ⊆ meaning "40-44" := by
    intro v
    rw [Rule.mem_meaning_iff, Rule.mem_meaning_iff,
      show Rule.parse "44" = [.digits 44] from rfl, show Rule.parse "40-44" = [.interval 40 44] from rfl]
    simp only [Rule.AnyCovers, List.mem_singleton, exists_eq_left, Rule.Covers]
    rintro rfl
    decide
  have whole : Rule.IsToken ['4', '0', '-', '4', '9'] (.interval 40 49) :=
    Rule.ofToken_eq_ok_iff.mp rfl
  have low : Rule.IsToken ['4', '0', '-', '4', '4'] (.interval 40 44) :=
    Rule.ofToken_eq_ok_iff.mp rfl
  have high : Rule.IsToken ['4', '5', '-', '4', '9'] (.interval (44 + 1) 49) :=
    Rule.ofToken_eq_ok_iff.mp rfl
  have malformed : ∀ rule, ¬ Rule.IsToken ['x'] rule :=
    (Rule.ofToken_eq_error_iff.mp (show Rule.ofToken ['x'] = .error ⟨"x"⟩ from rfl)).1
  have rephrased : Rule.Rephrased (RuleText.tokens "40-49") (RuleText.tokens "45-49,x,40-44") := by
    apply (Rule.Rephrased.cut [] whole low high (by decide)).trans
    apply (Rule.Rephrased.malformed _ malformed).trans
    exact .reorder (by decide)
  have dictionaries : Dictionary.Rephrased (Dictionary.toJson [⟨"visa", "Visa", "40-49", "16", ""⟩])
      (Dictionary.toJson [⟨"visa", "Visa", "45-49,x,40-44", "16", ""⟩]) :=
    ⟨_, _, Dictionary.entries?_toJson _, Dictionary.entries?_toJson _,
      .cons ⟨rfl, rfl, rfl, rephrasing _ _ rephrased, rfl⟩ .nil⟩
  exact ⟨within, rephrased, dictionaries, (monotone _ _ within "4411").2, rephrasing _ _ rephrased,
    dictionary _ _ dictionaries⟩

end Paycard
