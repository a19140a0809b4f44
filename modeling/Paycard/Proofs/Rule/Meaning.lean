import Mathlib.Data.Set.Basic
import Paycard.Proofs.Rule.Grammar
import Paycard.Proofs.Rule.Matching

/-! # What rule text means

Rule text means the 64-bit integers that its well-formed tokens cover. Matching depends on nothing
else: a larger meaning matches at least as much, and the order, number and spelling of the tokens
play no part. `Rephrased` lists the usual ways to write the same thing differently.
-/

namespace Paycard

/-- The 64-bit integers that some token of the list covers. -/
def Rule.meaningOf (tokens : List (List Char)) : Set UInt64 :=
  {v | ∃ token ∈ tokens, ∃ rule, IsToken token rule ∧ rule.Covers v}

/-- The 64-bit integers that a rule text stands for. -/
def RuleText.meaning (text : String) : Set UInt64 := Rule.meaningOf (tokens text)

namespace Rule

open RuleText (meaning)

theorem mem_meaning_iff {text : String} {v : UInt64} :
    v ∈ meaning text ↔ AnyCovers (parse text) v := by
  constructor
  · intro ⟨token, member, rule, isToken, covers⟩
    exact ⟨rule, mem_ofTokens_rules.mpr ⟨token, member, isToken⟩, covers⟩
  · intro ⟨rule, member, covers⟩
    obtain ⟨token, inText, isToken⟩ := mem_ofTokens_rules.mp member
    exact ⟨token, inText, rule, isToken, covers⟩

theorem anyCovers_mono {narrow wide : String} (h : meaning narrow ⊆ meaning wide) {v : UInt64}
    (covered : AnyCovers (parse narrow) v) : AnyCovers (parse wide) v :=
  mem_meaning_iff.mp (h (mem_meaning_iff.mpr covered))

theorem matchesLength_mono {narrow wide : String} (h : meaning narrow ⊆ meaning wide)
    {card : String} (matched : matchesLength (parse narrow) card = true) :
    matchesLength (parse wide) card = true := by
  obtain ⟨v, covered, size⟩ := matchesLength_iff.mp matched
  exact matchesLength_iff.mpr ⟨v, anyCovers_mono h covered, size⟩

theorem matchesRange_mono {narrow wide : String} (h : meaning narrow ⊆ meaning wide)
    {card : String} (matched : matchesRange (parse narrow) card = true) :
    matchesRange (parse wide) card = true := by
  obtain ⟨v, covered, starts⟩ := matchesRange_iff.mp matched
  exact matchesRange_iff.mpr ⟨v, anyCovers_mono h covered, starts⟩

theorem matchesLength_congr {left right : String} (h : meaning left = meaning right)
    (card : String) : matchesLength (parse left) card = matchesLength (parse right) card :=
  Bool.eq_iff_iff.mpr ⟨matchesLength_mono h.le, matchesLength_mono h.ge⟩

theorem matchesRange_congr {left right : String} (h : meaning left = meaning right)
    (card : String) : matchesRange (parse left) card = matchesRange (parse right) card :=
  Bool.eq_iff_iff.mpr ⟨matchesRange_mono h.le, matchesRange_mono h.ge⟩

/-! ## Other words for the same rules -/

theorem IsToken.unique {token : List Char} {left right : Rule} (hl : IsToken token left)
    (hr : IsToken token right) : left = right :=
  Except.ok.inj ((ofToken_eq_ok_iff.mpr hl).symm.trans (ofToken_eq_ok_iff.mpr hr))

theorem meaningOf_cons {token : List Char} {rule : Rule} (h : IsToken token rule)
    (tokens : List (List Char)) :
    meaningOf (token :: tokens) = {v | rule.Covers v} ∪ meaningOf tokens := by
  ext v
  simp only [meaningOf, List.mem_cons, or_and_right, exists_or, exists_eq_left,
    Set.mem_ofPred_eq, Set.mem_union]
  refine or_congr_left ⟨?_, fun covers => ⟨rule, h, covers⟩⟩
  intro ⟨found, isToken, covers⟩
  exact isToken.unique h ▸ covers

theorem meaningOf_cons_malformed {token : List Char} (h : ∀ rule, ¬ IsToken token rule)
    (tokens : List (List Char)) : meaningOf (token :: tokens) = meaningOf tokens := by
  ext v
  simp [meaningOf, h]

theorem meaningOf_congr {left right : List (List Char)}
    (h : ∀ token, token ∈ left ↔ token ∈ right) : meaningOf left = meaningOf right := by
  ext v
  simp only [meaningOf, Set.mem_ofPred_eq, h]

theorem covers_split {min cut max : UInt64} (low : min ≤ cut) (high : cut < max) (v : UInt64) :
    (Rule.interval min max).Covers v ↔
      (Rule.interval min cut).Covers v ∨ (Rule.interval (cut + 1) max).Covers v := by
  have next : (cut + 1).toNat = cut.toNat + 1 := by
    -- The cut is below another 64-bit integer, so its successor does not wrap around.
    have small := max.toNat_lt
    rw [UInt64.lt_iff_toNat_lt] at high
    rw [UInt64.toNat_add, UInt64.toNat_one]
    exact Nat.mod_eq_of_lt (by omega)
  simp only [Covers, UInt64.le_iff_toNat_le, UInt64.lt_iff_toNat_lt] at *
  omega

theorem covers_point {value v : UInt64} :
    (Rule.interval value value).Covers v ↔ (Rule.digits value).Covers v := by
  simp only [Covers, UInt64.le_iff_toNat_le, ← UInt64.toNat_inj]
  omega

/-- Lists of tokens that say the same in other words: reordered, with a token repeated, an interval
    cut in two, an interval of one value written as that value, or a malformed token added. -/
inductive Rephrased : List (List Char) → List (List Char) → Prop where
  | reorder {left right : List (List Char)} : left.Perm right → Rephrased left right
  | again {token : List Char} {tokens : List (List Char)} :
      token ∈ tokens → Rephrased tokens (token :: tokens)
  | cut {whole low high : List Char} {min mid max : UInt64} (tokens : List (List Char)) :
      IsToken whole (.interval min max) → IsToken low (.interval min mid) →
      IsToken high (.interval (mid + 1) max) → mid < max →
      Rephrased (whole :: tokens) (low :: high :: tokens)
  | point {range single : List Char} {value : UInt64} (tokens : List (List Char)) :
      IsToken range (.interval value value) → IsToken single (.digits value) →
      Rephrased (range :: tokens) (single :: tokens)
  | malformed {token : List Char} (tokens : List (List Char)) :
      (∀ rule, ¬ IsToken token rule) → Rephrased tokens (token :: tokens)
  | symm {left right : List (List Char)} : Rephrased left right → Rephrased right left
  | trans {left middle right : List (List Char)} :
      Rephrased left middle → Rephrased middle right → Rephrased left right

theorem Rephrased.meaningOf_eq {left right : List (List Char)} (h : Rephrased left right) :
    meaningOf left = meaningOf right := by
  induction h with
  | reorder perm => exact meaningOf_congr fun _ => perm.mem_iff
  | again member =>
      apply meaningOf_congr
      intro token
      rw [List.mem_cons]
      exact ⟨.inr, fun either => either.elim (fun same => same ▸ member) id⟩
  | @cut whole low high min mid max tokens isWhole isLow isHigh inside =>
      cases isLow with
      | interval freeLow freeHigh writesLow writesHigh ordered =>
          have isLow := IsToken.interval freeLow freeHigh writesLow writesHigh ordered
          rw [meaningOf_cons isWhole, meaningOf_cons isLow, meaningOf_cons isHigh,
            ← Set.union_assoc]
          congr 1
          ext v
          exact covers_split ordered inside v
  | point tokens isRange isSingle =>
      rw [meaningOf_cons isRange, meaningOf_cons isSingle]
      congr 1
      ext v
      exact covers_point
  | malformed tokens refused => exact (meaningOf_cons_malformed refused tokens).symm
  | symm _ ih => exact ih.symm
  | trans _ _ ihl ihr => exact ihl.trans ihr

end Rule

end Paycard
