import Mathlib.Algebra.BigOperators.Fin
import Mathlib.Data.Nat.Digits.Defs
import Paycard.Luhn.Bytes
import Paycard.Proofs.Number

/-! # Forms of the Luhn total

The total is computed from the right with a table, on digits or on unchecked values, and in two steps on
text, which is walked from the left. All of these are the sum over the places of a number of the digit
sums of its digits, each of them doubled at the odd places. Places are counted from zero at the right end.
-/

namespace Paycard

namespace Luhn

/-- The sum of the decimal digits of a number. -/
def digitSum (n : Nat) : Nat := (Nat.digits 10 n).sum

/-- How often the digit at a place counts. -/
def factor (place : Nat) : Nat := if place % 2 = 1 then 2 else 1

/-- What the digits of a number come to, place by place. -/
def placeSum (ds : List Digit) : Nat :=
  ∑ place : Fin ds.length, digitSum (factor place * ds.get place.rev)

/-- What a digit adds to the total. -/
def weight (isDoubled : Bool) (d : Digit) : Nat := if isDoubled then doubled d else d

/-- Whether the digit in front of these is doubled. -/
def doublesNext (ds : List Digit) : Bool := ds.length % 2 == 1

/-- A digit as an unchecked value. -/
def toByte (d : Digit) : UInt8 := UInt8.ofNat d

/-! ## One more digit on the left -/

theorem doublesNext_cons (d : Digit) (ds : List Digit) : doublesNext (d :: ds) = !doublesNext ds := by
  rw [Bool.eq_iff_iff]
  simp only [doublesNext, List.length_cons, Bool.not_eq_true', beq_iff_eq, beq_eq_false_iff_ne]
  omega

theorem sumFromRight_append (isDoubled : Bool) (ds : List Digit) (d : Digit) :
    sumFromRight isDoubled (ds ++ [d]) =
      sumFromRight isDoubled ds + weight (isDoubled ^^ doublesNext ds) d := by
  -- On the digits, for both values of the flag, which changes with each of them.
  induction ds generalizing isDoubled with
  | nil => cases isDoubled <;> simp [sumFromRight, weight, doublesNext]
  | cons e ds ih => cases isDoubled <;> simp [sumFromRight, ih, doublesNext_cons, Nat.add_assoc]

theorem total_cons (d : Digit) (ds : List Digit) :
    total (d :: ds) = total ds + weight (doublesNext ds) d := by
  simp [total, sumFromRight_append, doublesNext]

theorem writtenDigits_cons (d : Digit) (ds : List Digit) :
    writtenDigits (d :: ds) = written (doublesNext ds) d :: writtenDigits ds := by
  have parity : ((ds.length + 1) % 2 == 0) = doublesNext ds := by
    rw [Bool.eq_iff_iff]
    simp only [doublesNext, beq_iff_eq]
    omega
  simp [writtenDigits, List.mapIdx_cons, parity]

theorem digitSum_factor_mul (ds : List Digit) (d : Digit) :
    digitSum (factor ds.length * d) = weight (doublesNext ds) d := by
  have once : ∀ d : Digit, digitSum (1 * d) = d := by decide
  have twice : ∀ d : Digit, digitSum (2 * d) = doubled d := by decide
  have same : factor ds.length = if doublesNext ds then 2 else 1 := by simp [factor, doublesNext]
  rw [same, weight]
  split
  · exact twice d
  · exact once d

theorem placeSum_cons (d : Digit) (ds : List Digit) :
    placeSum (d :: ds) = placeSum ds + weight (doublesNext ds) d := by
  have same (place : Fin ds.length) : (d :: ds).get place.castSucc.rev = ds.get place.rev := by
    rw [Fin.rev_castSucc]
    rfl
  have first : (d :: ds).get (Fin.last ds.length).rev = d := by simp
  have split := Fin.sum_univ_castSucc fun place : Fin (ds.length + 1) =>
    digitSum (factor place * (d :: ds).get place.rev)
  simp only [same, first, Fin.val_last, digitSum_factor_mul] at split
  exact split

theorem total_eq_placeSum (ds : List Digit) : total ds = placeSum ds := by
  induction ds with
  | nil => rfl
  | cons d ds ih => rw [total_cons, placeSum_cons, ih]

/-! ## Totals of text -/

/-- The digits of the double of a digit. -/
def doubleDigits (d : Digit) : List Digit := if d < 5 then [2 * d] else [1, 2 * d]

theorem exists_written (isDoubled : Bool) (d : Digit) : ∃ es : List Digit,
    es.map Digit.toChar = written isDoubled d ∧ (es.map Fin.val).sum = weight isDoubled d ∧
      1 ≤ es.length ∧ es.length ≤ 2 := by
  cases isDoubled with
  | false => exact ⟨[d], rfl, by simp [weight], by simp, by simp⟩
  | true =>
      refine ⟨doubleDigits d, ?_⟩
      revert d
      decide

/-- What is written out are digits whose plain sum is the total. -/
theorem exists_writtenDigits (ds : List Digit) : ∃ es : List Digit,
    es.map Digit.toChar = (writtenDigits ds).flatten ∧ (es.map Fin.val).sum = total ds ∧
      ds.length ≤ es.length ∧ es.length ≤ 2 * ds.length := by
  induction ds with
  | nil => exact ⟨[], rfl, rfl, by simp, by simp⟩
  | cons d ds ih =>
      obtain ⟨first, chars, sum, least, most⟩ := exists_written (doublesNext ds) d
      obtain ⟨rest, charsRest, sumRest, leastRest, mostRest⟩ := ih
      refine ⟨first ++ rest, ?_, ?_, ?_, ?_⟩
      · simp [writtenDigits_cons, chars, charsRest]
      · simp only [List.map_append, List.sum_append, sum, sumRest, total_cons, Nat.add_comm]
      · simp only [List.length_append, List.length_cons]
        omega
      · simp only [List.length_append, List.length_cons]
        omega

theorem doubleEverySecond_writeDigits (ds : List Digit) : ∃ es : List Digit,
    doubleEverySecond (writeDigits ds) = .ok (writeDigits es) ∧ (es.map Fin.val).sum = total ds ∧
      ds.length ≤ es.length ∧ es.length ≤ 2 * ds.length := by
  obtain ⟨es, chars, rest⟩ := exists_writtenDigits ds
  refine ⟨es, ?_, rest⟩
  rw [doubleEverySecond, readDigits_eq_ok_iff.mpr rfl, writeDigits, chars]
  rfl

theorem sumDigits_writeDigits (ds : List Digit) :
    sumDigits (writeDigits ds) = .ok (ds.map Fin.val).sum := by
  rw [sumDigits, readDigits_eq_ok_iff.mpr rfl, List.sum, List.foldr_map]
  rfl

theorem check_writeDigits (ds : List Digit) : check (writeDigits ds) = .ok (valid ds) := by
  rw [check, readDigits_eq_ok_iff.mpr rfl]
  rfl

/-! ## Totals of unchecked values -/

theorem weight?_toByte (isDoubled : Bool) (d : Digit) :
    Bytes.weight? isDoubled (toByte d) = some (weight isDoubled d) := by
  revert isDoubled d
  decide

theorem sumFromRight?_toByte (isDoubled : Bool) (ds : List Digit) :
    Bytes.sumFromRight? isDoubled (ds.map toByte) = some (sumFromRight isDoubled ds) := by
  induction ds generalizing isDoubled with
  | nil => rfl
  | cons d ds ih =>
      rw [List.map_cons, Bytes.sumFromRight?, weight?_toByte, ih]
      cases isDoubled <;> rfl

theorem total?_toByte (ds : List Digit) : Bytes.total? (ds.map toByte) = some (total ds) := by
  rw [Bytes.total?, total, ← List.map_reverse, sumFromRight?_toByte]

/-! ## All forms -/

theorem valid_eq_decide (ds : List Digit) : valid ds = decide (10 ∣ placeSum ds) := by
  rw [valid, total_eq_placeSum, Bool.eq_iff_iff]
  simp only [beq_iff_eq, decide_eq_true_eq, Nat.dvd_iff_mod_eq_zero]

/-- The forms of the total are one number for every text that is written in digits, and the check asks
    whether ten divides it. Any other text is refused by all of them with the same report. -/
theorem forms_of_total_agree (text : String) :
    ((∀ c ∈ text.toList, c.isDigit = true) → ∃ ds, text = writeDigits ds ∧
      (∃ doubledText, doubleEverySecond text = .ok doubledText ∧
        (∀ c ∈ doubledText.toList, c.isDigit = true) ∧
        text.length ≤ doubledText.length ∧ doubledText.length ≤ 2 * text.length ∧
        sumDigits doubledText = .ok (total ds)) ∧
      Bytes.total? (ds.map toByte) = some (total ds) ∧ total ds = placeSum ds ∧
      check text = .ok (decide (10 ∣ placeSum ds))) ∧
    (HoldsNonDigit text → ∃ e : InvalidCharacter, e.IsFirstIn text ∧ check text = .error e ∧
      doubleEverySecond text = .error e ∧ sumDigits text = .error e) := by
  constructor
  · intro digits
    obtain ⟨ds, rfl⟩ := exists_writeDigits_eq digits
    obtain ⟨es, doubled, sum, least, most⟩ := doubleEverySecond_writeDigits ds
    refine ⟨ds, rfl, ⟨writeDigits es, doubled, isDigit_writeDigits es, ?_, ?_, ?_⟩, total?_toByte ds,
      total_eq_placeSum ds, ?_⟩
    · simpa only [length_writeDigits] using least
    · simpa only [length_writeDigits] using most
    · rw [sumDigits_writeDigits, sum]
    · rw [check_writeDigits, valid_eq_decide]
  · intro holds
    obtain ⟨e, first⟩ := holdsNonDigit_iff.mp holds
    have refused : readDigits text = .error e := readDigits_eq_error_iff.mpr first
    refine ⟨e, first, ?_, ?_, ?_⟩
    · rw [check, refused]
      rfl
    · rw [doubleEverySecond, refused]
      rfl
    · rw [sumDigits, refused]
      rfl

/-- Two of the digits of the first number double to two digits. The second text is no number. -/
theorem forms_of_total_agree_two_digit_doubles :
    (∀ c ∈ "16397".toList, c.isDigit = true) ∧ doubleEverySecond "16397" = .ok "1123187" ∧
    (∃ ds, "16397" = writeDigits ds ∧ sumDigits "1123187" = .ok (total ds) ∧ total ds = 23 ∧
      placeSum ds = 23 ∧ check "16397" = .ok false) ∧
    HoldsNonDigit "1x6" ∧
    ∃ e : InvalidCharacter, e.IsFirstIn "1x6" ∧ check "1x6" = .error e ∧
      doubleEverySecond "1x6" = .error e ∧ sumDigits "1x6" = .error e := by
  have digits : ∀ c ∈ "16397".toList, c.isDigit = true := by simp
  have holds : HoldsNonDigit "1x6" := ⟨'x', by decide, by decide⟩
  have doubled : doubleEverySecond "16397" = .ok "1123187" := rfl
  have sum : sumDigits "1123187" = .ok 23 := rfl
  obtain ⟨ds, written, ⟨_, doubled', -, -, -, sum'⟩, -, places, checked⟩ :=
    (forms_of_total_agree "16397").1 digits
  obtain rfl := Except.ok.inj (doubled.symm.trans doubled')
  have total : total ds = 23 := Except.ok.inj (sum'.symm.trans sum)
  rw [← places, total] at checked
  exact ⟨digits, doubled, ⟨ds, written, sum', total, places ▸ total, checked⟩, holds,
    (forms_of_total_agree "1x6").2 holds⟩

end Luhn

end Paycard
