import Paycard.Proofs.Text.Numeral
import Paycard.Proofs.Text.Pieces
import Paycard.Rule.Match

/-! # What a rule list matches

A rule covers a set of 64-bit integers, and matching depends on a rule list only through the integers
that its rules cover: a length list matches when the size of the card number is covered, a range list
when the card number starts with the numeral of a covered integer. Trying every integer of every rule
therefore finds nothing that a scan over at most twenty prefixes misses.
-/

namespace Paycard.Rule

open Text

/-- The 64-bit integers that a rule stands for. -/
def Covers : Rule → UInt64 → Prop
  | .digits value, v => v = value
  | .interval min max, v => min ≤ v ∧ v ≤ max

/-- Some rule of the list stands for the integer. -/
def AnyCovers (rules : List Rule) (v : UInt64) : Prop := ∃ rule ∈ rules, rule.Covers v

theorem admits_toNat_iff {rule : Rule} {v : UInt64} : rule.admits v.toNat = true ↔ rule.Covers v := by
  cases rule with
  | digits value =>
      simp only [admits, Covers, beq_iff_eq, UInt64.toNat_inj]
      exact eq_comm
  | interval min max => simp [admits, Covers, UInt64.le_iff_toNat_le]

theorem lt_size_of_admits {rule : Rule} {n : Nat} (h : rule.admits n = true) : n < UInt64.size := by
  cases rule with
  | digits value =>
      have same : value.toNat = n := by simpa [admits] using h
      exact same ▸ value.toNat_lt_size
  | interval min max =>
      have bounds : min.toNat ≤ n ∧ n ≤ max.toNat := by simpa [admits] using h
      exact Nat.lt_of_le_of_lt bounds.2 max.toNat_lt_size

theorem admits_iff {rule : Rule} {n : Nat} :
    rule.admits n = true ↔ ∃ v : UInt64, v.toNat = n ∧ rule.Covers v := by
  constructor
  · intro h
    have value : (UInt64.ofNat n).toNat = n := UInt64.toNat_ofNat_of_lt (lt_size_of_admits h)
    exact ⟨UInt64.ofNat n, value, admits_toNat_iff.mp (by rwa [value])⟩
  · intro ⟨v, same, covers⟩
    rw [← same]
    exact admits_toNat_iff.mpr covers

theorem not_covers_of_inverted {min max : UInt64} (h : max < min) (v : UInt64) :
    ¬ (Rule.interval min max).Covers v := by
  intro ⟨low, high⟩
  rw [UInt64.le_iff_toNat_le] at low high
  rw [UInt64.lt_iff_toNat_lt] at h
  omega

theorem any_admits_iff {rules : List Rule} {n : Nat} :
    rules.any (·.admits n) = true ↔ ∃ v : UInt64, AnyCovers rules v ∧ v.toNat = n := by
  simp only [List.any_eq_true, admits_iff, AnyCovers]
  constructor
  · intro ⟨rule, member, v, value, covers⟩
    exact ⟨v, ⟨rule, member, covers⟩, value⟩
  · intro ⟨v, ⟨rule, member, covers⟩, value⟩
    exact ⟨rule, member, v, value, covers⟩

theorem matchesLength_iff {rules : List Rule} {card : String} :
    matchesLength rules card = true ↔ ∃ v, AnyCovers rules v ∧ v.toNat = card.utf8ByteSize :=
  any_admits_iff

/-! ## The numerals among the prefixes -/

theorem mem_prefixValues {v n : Nat} {cs : List Char} :
    n ∈ prefixValues v cs ↔ ∃ p, p ≠ [] ∧ p <+: cs ∧ Nat.ofDigitChars 10 p v = n := by
  induction cs generalizing v with
  | nil =>
      simp only [prefixValues, List.not_mem_nil, List.prefix_nil, false_iff]
      intro ⟨p, nonempty, empty, _⟩
      exact nonempty empty
  | cons c cs ih =>
      simp only [prefixValues, List.mem_cons, ih]
      constructor
      · intro found
        cases found with
        | inl first => exact ⟨[c], by simp, by simp, by simp [Nat.ofDigitChars_cons, first]⟩
        | inr later =>
            obtain ⟨p, _, pre, value⟩ := later
            exact ⟨c :: p, by simp, by simpa using pre, by rwa [Nat.ofDigitChars_cons]⟩
      · intro ⟨p, nonempty, pre, value⟩
        cases p with
        | nil => exact absurd rfl nonempty
        | cons first rest =>
            obtain ⟨rfl, tail⟩ := List.cons_prefix_cons.mp pre
            rw [Nat.ofDigitChars_cons] at value
            cases rest with
            | nil => exact .inl (by simpa using value.symm)
            | cons d rest => exact .inr ⟨d :: rest, by simp, tail, value⟩

theorem numeral_prefix_leadingDigits {n : Nat} (h : n < UInt64.size) {cs : List Char} :
    Nat.toDigits 10 n <+: leadingDigits cs ↔ Nat.toDigits 10 n <+: cs := by
  rw [leadingDigits, List.prefix_take_iff, prefix_takeWhile_iff]
  exact ⟨fun pre => pre.1.1, fun pre => ⟨⟨pre, isDigit_toDigits n⟩, length_toDigits_le h⟩⟩

theorem isDigit_leadingDigits (cs : List Char) : ∀ c ∈ leadingDigits cs, c.isDigit = true :=
  fun c member => of_mem_takeWhile c (List.mem_of_mem_take member)

theorem mem_prefixValues_zero_iff {run : List Char} (digits : ∀ c ∈ run, c.isDigit = true)
    (lead : run.head? ≠ some '0') {n : Nat} :
    n ∈ prefixValues 0 run ↔ Nat.toDigits 10 n <+: run := by
  rw [mem_prefixValues]
  constructor
  · intro ⟨p, nonempty, pre, value⟩
    have canonical : Canonical p := by
      refine ⟨nonempty, fun c member => digits c (pre.subset member), .inr ?_⟩
      obtain ⟨rest, rfl⟩ := pre
      cases p with
      | nil => exact absurd rfl nonempty
      | cons c p => simpa using lead
    rw [toDigits_eq_iff.mpr ⟨canonical, value⟩]
    exact pre
  · intro pre
    exact ⟨_, Nat.toDigits_ne_nil, pre, valueOf_toDigits n⟩

/-- The leading values of a text are the 64-bit integers whose numerals it starts with. -/
theorem mem_leadingValues {n : Nat} {cs : List Char} :
    n ∈ leadingValues cs ↔ n < UInt64.size ∧ Nat.toDigits 10 n <+: cs := by
  have digits := isDigit_leadingDigits cs
  have same : (n < UInt64.size ∧ Nat.toDigits 10 n <+: cs) ↔
      n < UInt64.size ∧ Nat.toDigits 10 n <+: leadingDigits cs :=
    and_congr_right fun small => (numeral_prefix_leadingDigits small).symm
  rw [same, leadingValues]
  split
  · rename_i rest leading
    rw [leading, List.mem_singleton]
    constructor
    · intro zero
      subst zero
      exact ⟨by decide, by simp⟩
    · intro ⟨_, starts⟩
      exact (numeral_prefix_of_head_zero rfl).mp starts
  · rename_i notZero
    have lead : (leadingDigits cs).head? ≠ some '0' := by
      intro zero
      obtain ⟨rest, leading⟩ := List.head?_eq_some_iff.mp zero
      exact notZero rest leading
    rw [List.mem_filter, mem_prefixValues_zero_iff digits lead, decide_eq_true_eq, and_comm]

/-! ## Two ways to match a range list -/

theorem matchesRange_iff {rules : List Rule} {card : String} :
    matchesRange rules card = true ↔
      ∃ v, AnyCovers rules v ∧ Nat.toDigits 10 v.toNat <+: card.toList := by
  rw [matchesRange, List.any_eq_true]
  simp only [mem_leadingValues, any_admits_iff]
  constructor
  · intro ⟨n, ⟨_, starts⟩, v, covered, value⟩
    exact ⟨v, covered, value ▸ starts⟩
  · intro ⟨v, covered, starts⟩
    exact ⟨v.toNat, ⟨v.toNat_lt_size, starts⟩, v, covered, rfl⟩

@[simp] theorem mem_values {rule : Rule} {n : Nat} : n ∈ rule.values ↔ rule.admits n = true := by
  cases rule with
  | digits value =>
      simp only [values, List.mem_singleton, admits, beq_iff_eq]
      exact eq_comm
  | interval min max =>
      simp only [values, List.mem_range'_1, admits, Bool.and_eq_true, decide_eq_true_eq]
      omega

theorem matchesRangeByTrial_iff {rules : List Rule} {card : String} :
    matchesRangeByTrial rules card = true ↔
      ∃ v, AnyCovers rules v ∧ Nat.toDigits 10 v.toNat <+: card.toList := by
  simp only [matchesRangeByTrial, List.any_eq_true, mem_values, startsWithNumeral,
    List.isPrefixOf_iff_prefix, admits_iff, AnyCovers]
  constructor
  · intro ⟨rule, member, n, ⟨v, same, covers⟩, starts⟩
    exact ⟨v, ⟨rule, member, covers⟩, same ▸ starts⟩
  · intro ⟨v, ⟨rule, member, covers⟩, starts⟩
    exact ⟨rule, member, v.toNat, ⟨v, rfl, covers⟩, starts⟩

theorem matchesRange_eq_byTrial (rules : List Rule) (card : String) :
    matchesRange rules card = matchesRangeByTrial rules card := by
  rw [Bool.eq_iff_iff, matchesRange_iff, matchesRangeByTrial_iff]

theorem numeral_prefix_iff_take {v : UInt64} {cs : List Char} :
    Nat.toDigits 10 v.toNat <+: cs ↔
      ∃ k, 1 ≤ k ∧ k ≤ 20 ∧ k ≤ cs.length ∧ Canonical (cs.take k) ∧ v.toNat = valueOf (cs.take k) := by
  constructor
  · intro pre
    have cut := List.prefix_iff_eq_take.mp pre
    obtain ⟨canonical, value⟩ := toDigits_eq_iff.mp cut
    exact ⟨_, Nat.length_toDigits_pos, length_toDigits_le v.toNat_lt_size, pre.length_le, canonical,
      value.symm⟩
  · intro ⟨k, _, _, _, canonical, value⟩
    rw [toDigits_eq_iff.mpr ⟨canonical, value.symm⟩]
    exact List.take_prefix k cs

theorem anyCovers_cons_inverted {rules : List Rule} {min max v : UInt64} (h : max < min) :
    AnyCovers (.interval min max :: rules) v ↔ AnyCovers rules v := by
  simp [AnyCovers, not_covers_of_inverted h v]

/-- Trying every integer of every rule finds what a scan over the first twenty prefixes finds: a
    numeral of a 64-bit integer that some rule covers. An interval with its bounds the wrong way round
    adds nothing, and after a zero in front only the lone zero counts. -/
theorem matchesRangeByTrial_iff_scan (rules : List Rule) (card : String) :
    matchesRange rules card = matchesRangeByTrial rules card ∧
    (matchesRangeByTrial rules card = true ↔
      ∃ k, 1 ≤ k ∧ k ≤ 20 ∧ k ≤ card.toList.length ∧ Canonical (card.toList.take k) ∧
        ∃ v : UInt64, v.toNat = valueOf (card.toList.take k) ∧ ∃ rule ∈ rules, rule.Covers v) ∧
    (∀ min max, max < min →
      matchesRangeByTrial (.interval min max :: rules) card = matchesRangeByTrial rules card) ∧
    (card.toList.head? = some '0' →
      (matchesRangeByTrial rules card = true ↔ ∃ rule ∈ rules, rule.Covers 0)) := by
  refine ⟨matchesRange_eq_byTrial rules card, ?scan, ?inverted, ?zero⟩
  case scan =>
    simp only [matchesRangeByTrial_iff, numeral_prefix_iff_take]
    constructor
    · intro ⟨v, covered, k, pos, few, inside, canonical, value⟩
      exact ⟨k, pos, few, inside, canonical, v, value, covered⟩
    · intro ⟨k, pos, few, inside, canonical, v, value, covered⟩
      exact ⟨v, covered, k, pos, few, inside, canonical, value⟩
  case inverted =>
    intro min max inverted
    rw [Bool.eq_iff_iff, matchesRangeByTrial_iff, matchesRangeByTrial_iff]
    simp only [anyCovers_cons_inverted inverted]
  case zero =>
    intro zero
    simp only [matchesRangeByTrial_iff, numeral_prefix_of_head_zero zero]
    constructor
    · intro ⟨v, covered, value⟩
      obtain rfl : v = 0 := UInt64.toNat_inj.mp value
      exact covered
    · intro covered
      exact ⟨0, covered, rfl⟩

/-- Ranges too wide to be tried out one by one, on a card number that starts with a zero. -/
theorem matchesRangeByTrial_zero_in_front :
    (40 : UInt64) < 50 ∧ "0999".toList.head? = some '0' ∧
    matchesRangeByTrial [.interval 50 40, .interval 1 18446744073709551615] "0999" = false := by
  have zero : "0999".toList.head? = some '0' := by simp
  have ordered : (40 : UInt64) < 50 := by decide
  obtain ⟨-, -, inverted, leading⟩ :=
    matchesRangeByTrial_iff_scan [.interval 1 18446744073709551615] "0999"
  refine ⟨ordered, zero, ?_⟩
  rw [inverted 50 40 ordered, ← Bool.not_eq_true, leading zero]
  simp [Covers]

end Paycard.Rule
