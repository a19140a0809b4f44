import Paycard.Proofs.Luhn.CheckDigit
import Paycard.Proofs.Luhn.Typo

/-! # Swapped digits

Of two neighbours in a number one is doubled and the other is not, and swapping them exchanges these parts.
That changes what the two add to the total, also modulo ten, unless they are equal or are a zero and a nine:
a doubled nine counts nine, as a plain one does.
-/

namespace Paycard

/-- A list with two neighbours swapped. -/
def swapNext {α : Type} (items : List α) (i : Nat) (inside : i + 1 < items.length) : List α :=
  (items.set i items[i + 1]).set (i + 1) items[i]

section Neighbours

variable {α : Type}

theorem exists_neighbours {items : List α} {i : Nat} (inside : i + 1 < items.length) :
    ∃ front a b back, items = front ++ a :: b :: back ∧ i = front.length := by
  refine ⟨items.take i, items[i], items[i + 1], items.drop (i + 2), ?_, ?_⟩
  · rw [List.getElem_cons_drop, List.getElem_cons_drop, List.take_append_drop]
  · rw [List.length_take_of_le (by omega)]

theorem swapNext_append (front back : List α) (a b : α)
    (inside : front.length + 1 < (front ++ a :: b :: back).length) :
    swapNext (front ++ a :: b :: back) front.length inside = front ++ b :: a :: back := by
  simp [swapNext, List.getElem_append_right]

end Neighbours

namespace Luhn

/-- What two neighbours add to a total, compared with what they add the other way round. -/
theorem weights_swap_mod_iff (isDoubled : Bool) (a b : Digit) :
    (weight isDoubled b + weight (!isDoubled) a) % 10 = (weight isDoubled a + weight (!isDoubled) b) % 10 ↔
      a = b ∨ ({a, b} : Finset Digit) = {0, 9} := by
  revert isDoubled a b
  decide

theorem total_swap_mod_iff (front back : List Digit) (a b : Digit) :
    total (front ++ b :: a :: back) % 10 = total (front ++ a :: b :: back) % 10 ↔
      a = b ∨ ({a, b} : Finset Digit) = {0, 9} := by
  have same : (b :: a :: back).length = (a :: b :: back).length := rfl
  rw [total_append_mod_iff same, ← weights_swap_mod_iff (doublesNext back)]
  simp only [total_cons, doublesNext_cons]
  omega

theorem total_swapNext_mod_iff {ds : List Digit} {i : Nat} (inside : i + 1 < ds.length) :
    total (swapNext ds i inside) % 10 = total ds % 10 ↔
      ds[i] = ds[i + 1] ∨ ({ds[i], ds[i + 1]} : Finset Digit) = {0, 9} := by
  obtain ⟨front, a, b, back, rfl, rfl⟩ := exists_neighbours inside
  rw [swapNext_append, total_swap_mod_iff]
  simp [List.getElem_append_right]

/-- Of a valid number whose neighbours are swapped, only these two are asked for. -/
theorem valid_swapNext_iff {ds : List Digit} (passes : valid ds = true) {i : Nat}
    (inside : i + 1 < ds.length) : valid (swapNext ds i inside) = true ↔
      ds[i] = ds[i + 1] ∨ ({ds[i], ds[i + 1]} : Finset Digit) = {0, 9} := by
  rw [← total_swapNext_mod_iff inside, valid_iff, valid_iff.mp passes]

theorem valid_swapNext_eq_false {ds : List Digit} (passes : valid ds = true) {i : Nat}
    (inside : i + 1 < ds.length) (different : ds[i] ≠ ds[i + 1])
    (other : ({ds[i], ds[i + 1]} : Finset Digit) ≠ {0, 9}) : valid (swapNext ds i inside) = false := by
  rw [← Bool.not_eq_true, valid_swapNext_iff passes]
  rintro (same | nineAndZero)
  · exact different same
  · exact other nineAndZero

end Luhn

/-- Swapping two neighbours keeps the total modulo ten exactly if they are equal or a zero and a nine, on
    digits and on bytes. So two different neighbours cannot be swapped in a valid number, except a zero and
    a nine, which always can. A card number that is accepted anywhere is refused everywhere when two other
    different neighbours are swapped in it. -/
theorem swapped_neighbours_are_caught (ds : List Digit) (i : Nat) (inside : i + 1 < ds.length) :
    let swapped := swapNext ds i inside
    let nineAndZero := ({ds[i], ds[i + 1]} : Finset Digit) = {0, 9}
    (Luhn.total swapped % 10 = Luhn.total ds % 10 ↔ ds[i] = ds[i + 1] ∨ nineAndZero) ∧
    ((· % 10) <$> Luhn.Bytes.total? (swapped.map Luhn.toByte) =
      (· % 10) <$> Luhn.Bytes.total? (ds.map Luhn.toByte) ↔ ds[i] = ds[i + 1] ∨ nineAndZero) ∧
    (Luhn.valid ds = true → ds[i] ≠ ds[i + 1] → ¬ nineAndZero → Luhn.valid swapped = false ∧
      Luhn.Bytes.valid? (swapped.map Luhn.toByte) = some false) ∧
    (Luhn.valid ds = true → nineAndZero → Luhn.valid swapped = true ∧
      Luhn.Bytes.valid? (swapped.map Luhn.toByte) = some true) ∧
    ∀ store other : Store, store.accepts (writeDigits ds) = .ok true → ds[i] ≠ ds[i + 1] →
      ¬ nineAndZero → other.accepts (writeDigits swapped) = .ok false := by
  intro swapped nineAndZero
  refine ⟨Luhn.total_swapNext_mod_iff inside, ?bytes, ?caught, ?missed, ?refused⟩
  case bytes =>
    rw [Luhn.total?_toByte, Luhn.total?_toByte, ← Luhn.total_swapNext_mod_iff inside]
    exact Option.some_inj
  case caught =>
    intro passes different others
    have invalid := Luhn.valid_swapNext_eq_false passes inside different others
    exact ⟨invalid, by rw [Luhn.valid?_toByte, invalid]⟩
  case missed =>
    intro passes both
    have still := (Luhn.valid_swapNext_iff passes inside).mpr (.inr both)
    exact ⟨still, by rw [Luhn.valid?_toByte, still]⟩
  case refused =>
    intro store other accepted different others
    have luhn := ((judges_accepts store (writeDigits ds)).accepted_iff.mp accepted).luhn
    have invalid := Luhn.valid_swapNext_eq_false (passesLuhn_writeDigits_iff.mp luhn) inside different others
    apply (judges_accepts other (writeDigits swapped)).refused_iff.mpr
    refine ⟨not_holdsNonDigit_writeDigits swapped, fun acceptable => ?_⟩
    rw [passesLuhn_writeDigits_iff.mp acceptable.luhn] at invalid
    cases invalid

/-- A zero and a nine are swapped at the front of a number, and a zero and a one in its middle. -/
theorem swapped_neighbours_are_caught_both_kinds :
    let ds : List Digit := [9, 0, 1, 9]
    Luhn.valid ds = true ∧
    ({9, 0} : Finset Digit) = {0, 9} ∧ Luhn.valid [0, 9, 1, 9] = true ∧
    (0 : Digit) ≠ 1 ∧ ({0, 1} : Finset Digit) ≠ {0, 9} ∧ Luhn.valid [9, 1, 0, 9] = false ∧
    Store.accepts {} "9019" = .ok true ∧
    Store.accepts ⟨some [⟨"any", "Any", [.digits 4], [.digits 9], ""⟩]⟩ "9109" = .ok false := by
  intro ds
  obtain ⟨-, -, -, missed, -⟩ := swapped_neighbours_are_caught ds 0 (by decide)
  obtain ⟨-, -, caught, -, refused⟩ := swapped_neighbours_are_caught ds 1 (by decide)
  have passes : Luhn.valid ds = true := by decide
  have both : ({9, 0} : Finset Digit) = {0, 9} := by decide
  have different : (0 : Digit) ≠ 1 := by decide
  have others : ({0, 1} : Finset Digit) ≠ {0, 9} := by decide
  have acceptable : Acceptable [] "9019" := acceptable_nil_iff.mpr ⟨by decide, ds, by decide, by decide⟩
  have accepted : Store.accepts {} "9019" = .ok true := (judges_accepts {} _).accepted_iff.mpr acceptable
  exact ⟨passes, both, (missed passes both).1, different, others, (caught passes different others).1,
    accepted, refused {} _ accepted different others⟩

end Paycard
