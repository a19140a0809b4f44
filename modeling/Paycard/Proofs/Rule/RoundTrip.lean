import Paycard.Proofs.Rule.Grammar
import Paycard.Proofs.Text.Numeral
import Paycard.Rule.Printer

/-! # Writing and reading rules

The reader takes back what the printer writes, except for intervals with their bounds the wrong way
round. The printer can write those and the reader drops them, each with its two bounds as the literal.
Rules that came from a text are all in order, so writing and reading them again changes nothing.
-/

namespace Paycard.Rule

open Text

theorem writes_toDigits (value : UInt64) : Writes (Nat.toDigits 10 value.toNat) value := by
  have written := @Writes.intro [] [] (Nat.toDigits 10 value.toNat) [] value (by simp) (.inl rfl)
    Nat.toDigits_ne_nil (isDigit_toDigits value.toNat) (by simp) (valueOf_toDigits value.toNat)
  simpa using written

theorem not_mem_toDigits {c : Char} (h : c.isDigit = false) (n : Nat) : c ∉ Nat.toDigits 10 n := by
  intro member
  rw [isDigit_toDigits n c member] at h
  cases h

theorem comma_not_mem_chars (rule : Rule) : ',' ∉ rule.chars := by
  have noComma := not_mem_toDigits (show ','.isDigit = false by decide)
  cases rule with
  | digits value => exact noComma value.toNat
  | interval min max => simp [chars, noComma]

theorem splitOn_hyphen_interval (min max : UInt64) :
    (Rule.interval min max).chars.splitOn '-' =
      [Nat.toDigits 10 min.toNat, Nat.toDigits 10 max.toNat] := by
  have noHyphen := not_mem_toDigits (show '-'.isDigit = false by decide)
  exact splitOn_hyphen_two.mpr ⟨noHyphen min.toNat, noHyphen max.toNat, rfl⟩

/-- What the reader says about an interval with its bounds the wrong way round. -/
def refusal : Rule → Option MalformedRule
  | .digits _ => none
  | .interval min max =>
      if max < min then some ⟨Nat.repr min.toNat ++ "," ++ Nat.repr max.toNat⟩ else none

theorem report_interval (min max : UInt64) :
    report (Rule.interval min max).chars = ⟨Nat.repr min.toNat ++ "," ++ Nat.repr max.toNat⟩ := by
  rw [← ofParts_splitOn, splitOn_hyphen_interval, MalformedRule.ofParts, MalformedRule.mk.injEq,
    ← String.toList_inj]
  simp

theorem ofToken_chars (rule : Rule) :
    ofToken rule.chars = match rule.refusal with
      | none => .ok rule
      | some e => .error e := by
  cases rule with
  | digits value =>
      have noHyphen := not_mem_toDigits (show '-'.isDigit = false by decide) value.toNat
      exact ofToken_eq_ok_iff.mpr (.digits noHyphen (writes_toDigits value))
  | interval min max =>
      have low := leadingInteger?_eq_some_iff.mpr (writes_toDigits min)
      have high := leadingInteger?_eq_some_iff.mpr (writes_toDigits max)
      rw [ofToken_parts, splitOn_hyphen_interval]
      simp only [intervalOf?, low, high, interval?, Option.bind_eq_bind, Option.bind_some, refusal,
        report_interval]
      by_cases ordered : min ≤ max
      · rw [if_pos ordered, if_neg (UInt64.not_lt.mpr ordered)]
        rfl
      · rw [if_neg ordered, if_pos (UInt64.not_le.mp ordered)]
        rfl

theorem ordered_iff_refusal {rule : Rule} : rule.ordered = true ↔ rule.refusal = none := by
  cases rule with
  | digits value => simp [ordered, refusal]
  | interval min max => simp [ordered, refusal, UInt64.not_lt]

theorem ofTokens_chars (rules : List Rule) :
    ofTokens (rules.map chars) = ⟨rules.filter ordered, rules.filterMap refusal⟩ := by
  induction rules with
  | nil => rfl
  | cons rule rules ih =>
      rw [List.map_cons, ofTokens, ih, ofToken_chars]
      cases read : rule.refusal with
      | none => rw [List.filter_cons_of_pos (ordered_iff_refusal.mpr read), List.filterMap_cons_none read]
      | some e =>
          have inverted : ¬ rule.ordered = true := by simp [ordered_iff_refusal, read]
          rw [List.filter_cons_of_neg inverted, List.filterMap_cons_some read]

theorem tokens_renderAll {rules : List Rule} (nonempty : rules ≠ []) :
    RuleText.tokens (renderAll rules) = rules.map chars := by
  have free : ∀ token ∈ rules.map chars, ',' ∉ token := by
    intro token member
    obtain ⟨rule, _, same⟩ := List.mem_map.mp member
    exact same ▸ comma_not_mem_chars rule
  rw [RuleText.tokens, renderAll, String.toList_ofList]
  exact List.splitOn_intercalate ',' free (by simpa using nonempty)

theorem parse_renderAll (rules : List Rule) :
    RuleText.parse (renderAll rules) = ⟨rules.filter ordered,
      if rules = [] then [⟨""⟩] else rules.filterMap refusal⟩ := by
  by_cases empty : rules = []
  · subst empty
    rfl
  · rw [if_neg empty, ← ofTokens_chars, ← tokens_renderAll empty]
    rfl

theorem ordered_of_mem_parse {text : String} {rule : Rule} (h : rule ∈ parse text) :
    rule.ordered = true := by
  obtain ⟨token, _, isToken⟩ := mem_ofTokens_rules.mp h
  cases isToken with
  | digits _ _ => rfl
  | interval _ _ _ _ inOrder => exact decide_eq_true inOrder

theorem parse_renderAll_parse (text : String) :
    RuleText.parse (renderAll (parse text)) =
      ⟨parse text, if parse text = [] then [⟨""⟩] else []⟩ := by
  have kept : (parse text).filter ordered = parse text :=
    List.filter_eq_self.mpr fun _ member => ordered_of_mem_parse member
  have none : (parse text).filterMap refusal = [] :=
    List.filterMap_eq_nil_iff.mpr fun _ member => ordered_iff_refusal.mp (ordered_of_mem_parse member)
  rw [parse_renderAll, kept, none]

/-- Reading what was written gives back the rules that are in order and reports the others by their
    bounds; no rules at all are written as an empty token. Writing and reading what a text says keeps
    its rules, reports nothing unless there are none, and writes the same text again. -/
theorem parse_inverts_renderAll :
    (∀ rules, (RuleText.parse (renderAll rules)).rules = rules.filter ordered ∧
      (RuleText.parse (renderAll rules)).dropped =
        if rules = [] then [⟨""⟩] else rules.filterMap refusal) ∧
    (∀ text, parse (renderAll (parse text)) = parse text ∧
      (RuleText.parse (renderAll (parse text))).dropped = (if parse text = [] then [⟨""⟩] else []) ∧
      renderAll (parse (renderAll (parse text))) = renderAll (parse text)) := by
  constructor
  · intro rules
    rw [parse_renderAll]
    exact ⟨rfl, rfl⟩
  · intro text
    have again : parse (renderAll (parse text)) = parse text := by
      rw [Rule.parse, parse_renderAll_parse]
    refine ⟨again, ?_, congrArg renderAll again⟩
    rw [parse_renderAll_parse]

end Paycard.Rule
