import Paycard.Proofs.Luhn.Total

/-! # Check digits

A digit added at the right end moves every other value one place to the left, so the places that were
counted once are the doubled ones now. The generator adds up the values with just these weights. On
unchecked values it fails exactly where the total of the longer number does: a value of ten or more has
moved to a doubled place. Otherwise the added digit counts once, and one digit completes the total to a
multiple of ten.
-/

namespace Paycard.Luhn

/-- What is missing in a sum to a multiple of ten. -/
def complement (sum : Nat) : Digit := ⟨(10 - sum % 10) % 10, Nat.mod_lt _ (by decide)⟩

theorem add_mod_ten_iff {c : Digit} {sum : Nat} : (c.val + sum) % 10 = 0 ↔ c = complement sum := by
  have small := c.isLt
  rw [Fin.ext_iff]
  show _ ↔ c.val = (10 - sum % 10) % 10
  omega

namespace Bytes

/-- A value of ten or more stands at a place of this parity. Places are counted from zero at the right
    end. -/
def HoldsLarge (parity : Nat) (vs : List UInt8) : Prop :=
  ∃ before v after, vs = before ++ v :: after ∧ after.length % 2 = parity ∧ 10 ≤ v.toNat

theorem not_holdsLarge_nil (parity : Nat) : ¬ HoldsLarge parity [] := by
  rintro ⟨before, v, after, whole, -⟩
  simp at whole

/-- One more value on the right takes place zero, and the places of the others change their parity. -/
theorem holdsLarge_concat_iff {parity : Nat} (small : parity < 2) {vs : List UInt8} {v : UInt8} :
    HoldsLarge parity (vs ++ [v]) ↔ parity = 0 ∧ 10 ≤ v.toNat ∨ HoldsLarge (1 - parity) vs := by
  constructor
  · rintro ⟨before, w, after, whole, place, large⟩
    rcases List.eq_nil_or_concat' after with rfl | ⟨after, last, rfl⟩
    case inl =>
      obtain ⟨rfl, same⟩ := List.append_inj' whole rfl
      obtain rfl : v = w := by simpa using same
      exact .inl ⟨by simpa using place.symm, large⟩
    case inr =>
      rw [← List.cons_append, ← List.append_assoc] at whole
      obtain ⟨rfl, -⟩ := List.append_inj' whole rfl
      rw [List.length_append, List.length_singleton] at place
      exact .inr ⟨before, w, after, rfl, by omega, large⟩
  · rintro (⟨rfl, large⟩ | ⟨before, w, after, rfl, place, large⟩)
    · exact ⟨vs, v, [], rfl, rfl, large⟩
    · refine ⟨before, w, after ++ [v], by simp, ?_, large⟩
      rw [List.length_append, List.length_singleton]
      omega

/-! ## When there is no total -/

theorem weight?_eq_none_iff {isDoubled : Bool} {v : UInt8} :
    weight? isDoubled v = none ↔ isDoubled = true ∧ 10 ≤ v.toNat := by
  cases isDoubled with
  | false => simp [weight?]
  | true => simp [weight?, doubledTable]

theorem sumFromRight?_cons_eq_none_iff {isDoubled : Bool} {v : UInt8} {vs : List UInt8} :
    sumFromRight? isDoubled (v :: vs) = none ↔
      (isDoubled = true ∧ 10 ≤ v.toNat) ∨ sumFromRight? (!isDoubled) vs = none := by
  rw [← weight?_eq_none_iff, sumFromRight?]
  cases weight? isDoubled v <;> cases sumFromRight? (!isDoubled) vs <;> simp

/-- Values are added up unless one of them stands at a doubled place and is no digit. -/
theorem sumFromRight?_reverse_eq_none_iff (isDoubled : Bool) (vs : List UInt8) :
    sumFromRight? isDoubled vs.reverse = none ↔ HoldsLarge (1 - isDoubled.toNat) vs := by
  induction vs using List.reverseRecOn generalizing isDoubled with
  | nil => simp [sumFromRight?, not_holdsLarge_nil]
  | append_singleton vs v ih =>
      have small : 1 - isDoubled.toNat < 2 := by omega
      rw [List.reverse_concat, sumFromRight?_cons_eq_none_iff, ih, holdsLarge_concat_iff small]
      cases isDoubled <;> simp

theorem total?_eq_none_iff {vs : List UInt8} : total? vs = none ↔ HoldsLarge 1 vs :=
  sumFromRight?_reverse_eq_none_iff false vs

theorem valid?_eq_none_iff {vs : List UInt8} : valid? vs = none ↔ HoldsLarge 1 vs := by
  rw [← total?_eq_none_iff]
  exact Option.map_eq_none_iff

/-- The sum that the generator takes, where the last value is doubled. -/
theorem shiftedSum?_eq_none_iff {vs : List UInt8} :
    sumFromRight? true vs.reverse = none ↔ HoldsLarge 0 vs :=
  sumFromRight?_reverse_eq_none_iff true vs

theorem checkDigit?_eq_none_iff {vs : List UInt8} : checkDigit? vs = none ↔ HoldsLarge 0 vs := by
  rw [← shiftedSum?_eq_none_iff]
  exact Option.map_eq_none_iff

/-! ## One more digit on the right -/

theorem total?_concat (vs : List UInt8) (c : Digit) :
    total? (vs ++ [toByte c]) = (c.val + ·) <$> sumFromRight? true vs.reverse := by
  rw [total?, List.reverse_concat, sumFromRight?, weight?_toByte, Bool.not_false]
  cases sumFromRight? true vs.reverse <;> rfl

theorem total?_concat_eq_none_iff {vs : List UInt8} (c : Digit) :
    total? (vs ++ [toByte c]) = none ↔ HoldsLarge 0 vs := by
  rw [total?_concat, ← shiftedSum?_eq_none_iff]
  exact Option.map_eq_none_iff

theorem exists_checkDigit? {vs : List UInt8} (small : ¬ HoldsLarge 0 vs) :
    ∃ c : Digit, checkDigit? vs = some c.val ∧
      ∀ d : Digit, valid? (vs ++ [toByte d]) = some (decide (d = c)) := by
  obtain ⟨sum, added⟩ : ∃ sum, sumFromRight? true vs.reverse = some sum := by
    rw [← Option.ne_none_iff_exists', Ne, shiftedSum?_eq_none_iff]
    exact small
  refine ⟨complement sum, ?_, ?_⟩
  · rw [checkDigit?, added]
    rfl
  · intro d
    rw [valid?, total?_concat, added]
    show some _ = some _
    rw [Option.some_inj, Bool.eq_iff_iff, beq_iff_eq, decide_eq_true_eq]
    exact add_mod_ten_iff

end Bytes

theorem checkDigit?_toByte (ds : List Digit) :
    Bytes.checkDigit? (ds.map toByte) = some (checkDigit ds).val := by
  rw [Bytes.checkDigit?, ← List.map_reverse, sumFromRight?_toByte]
  rfl

theorem valid?_toByte (ds : List Digit) : Bytes.valid? (ds.map toByte) = some (valid ds) := by
  rw [Bytes.valid?, total?_toByte]
  rfl

theorem valid_concat (ds : List Digit) (c : Digit) : valid (ds ++ [c]) = decide (c = checkDigit ds) := by
  rw [valid, total, List.reverse_concat, Bool.eq_iff_iff, beq_iff_eq, decide_eq_true_eq]
  exact add_mod_ten_iff

/-! ## The check digit -/

/-- The generator fails exactly where every completed number has no total. Where it succeeds, its digit
    completes the number to a valid one, and no other digit does. Digits never fail. -/
theorem check_digit_exists_uniquely (vs : List UInt8) :
    (Bytes.checkDigit? vs = none ↔ Bytes.HoldsLarge 0 vs) ∧
    (∀ d : Digit, Bytes.total? (vs ++ [toByte d]) = none ↔ Bytes.HoldsLarge 0 vs) ∧
    (¬ Bytes.HoldsLarge 0 vs → ∃ c : Digit, Bytes.checkDigit? vs = some c.val ∧
      Bytes.valid? (vs ++ [toByte c]) = some true ∧
      ∀ d : Digit, d ≠ c → Bytes.valid? (vs ++ [toByte d]) = some false) ∧
    (Bytes.total? vs = none ↔ Bytes.HoldsLarge 1 vs) ∧
    (Bytes.valid? vs = none ↔ Bytes.HoldsLarge 1 vs) ∧
    ∀ ds : List Digit, Bytes.total? (ds.map toByte) = some (total ds) ∧
      Bytes.valid? (ds.map toByte) = some (valid ds) ∧
      Bytes.checkDigit? (ds.map toByte) = some (checkDigit ds).val ∧
      ∀ d : Digit, valid (ds ++ [d]) = decide (d = checkDigit ds) := by
  refine ⟨Bytes.checkDigit?_eq_none_iff, Bytes.total?_concat_eq_none_iff, ?completes,
    Bytes.total?_eq_none_iff, Bytes.valid?_eq_none_iff, ?digits⟩
  case completes =>
    intro small
    obtain ⟨c, generated, completes⟩ := Bytes.exists_checkDigit? small
    refine ⟨c, generated, ?_, ?_⟩
    · rw [completes, decide_eq_true rfl]
    · intro d other
      rw [completes, decide_eq_false other]
  case digits =>
    intro ds
    exact ⟨total?_toByte ds, valid?_toByte ds, checkDigit?_toByte ds, valid_concat ds⟩

/-- A value that is no digit at a place that is doubled now and counts once when a digit is added. -/
theorem check_digit_exists_uniquely_large_value :
    Bytes.HoldsLarge 1 [255, 3] ∧ Bytes.total? [255, 3] = none ∧ Bytes.valid? [255, 3] = none ∧
    ¬ Bytes.HoldsLarge 0 [255, 3] ∧ Bytes.checkDigit? [255, 3] = some 9 ∧
    ∃ c : Digit, c = 9 ∧ Bytes.valid? ([255, 3] ++ [toByte c]) = some true ∧
      ∀ d : Digit, d ≠ c → Bytes.valid? ([255, 3] ++ [toByte d]) = some false := by
  obtain ⟨fails, -, completes, noTotal, noVerdict, -⟩ := check_digit_exists_uniquely [255, 3]
  have large : Bytes.HoldsLarge 1 [255, 3] := ⟨[], 255, [3], rfl, rfl, by decide⟩
  have generated : Bytes.checkDigit? [255, 3] = some 9 := by decide
  have small : ¬ Bytes.HoldsLarge 0 [255, 3] := by
    rw [← fails, generated]
    exact Option.some_ne_none 9
  obtain ⟨c, value, right, wrong⟩ := completes small
  have nine : c = 9 := by
    rw [generated, Option.some_inj] at value
    exact Fin.ext value.symm
  exact ⟨large, noTotal.mpr large, noVerdict.mpr large, small, generated, c, nine, right, wrong⟩

end Paycard.Luhn
