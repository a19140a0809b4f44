import Paycard.Proofs.Detection.Acceptance
import Paycard.Proofs.Luhn.Total

/-! # Mistyped digits

Digits in front of a number add to its total by their places alone, so two numbers that end differently
can be compared by their ends. A digit counts differently from every other digit at the same place, also
modulo ten. So no number stays valid when one of its digits is mistyped, and nothing else in an acceptance
can make up for that.
-/

namespace Paycard

namespace Luhn

/-! ## Numbers with the same front -/

theorem doublesNext_congr {left right : List Digit} (same : left.length = right.length) :
    doublesNext left = doublesNext right := by
  rw [doublesNext, same, doublesNext]

/-- The same digits in front add the same to the totals of numbers of one length. -/
theorem total_append_add {left right : List Digit} (same : left.length = right.length)
    (front : List Digit) : total (front ++ left) + total right = total (front ++ right) + total left := by
  induction front with
  | nil => exact Nat.add_comm _ _
  | cons d front ih =>
      have parity : doublesNext (front ++ left) = doublesNext (front ++ right) :=
        doublesNext_congr (by simp [same])
      simp only [List.cons_append, total_cons, parity]
      omega

theorem total_append_mod_iff {left right : List Digit} (same : left.length = right.length)
    (front : List Digit) : total (front ++ left) % 10 = total (front ++ right) % 10 ↔
      total left % 10 = total right % 10 := by
  have added := total_append_add same front
  omega

/-! ## One digit changed -/

theorem weight_lt_ten (isDoubled : Bool) (d : Digit) : weight isDoubled d < 10 := by
  revert isDoubled d
  decide

theorem weight_inj (isDoubled : Bool) {d e : Digit} :
    weight isDoubled d = weight isDoubled e ↔ d = e := by
  revert isDoubled d e
  decide

theorem total_cons_mod_iff {d e : Digit} {ds : List Digit} :
    total (d :: ds) % 10 = total (e :: ds) % 10 ↔ d = e := by
  have small := weight_lt_ten (doublesNext ds) d
  have small' := weight_lt_ten (doublesNext ds) e
  rw [total_cons, total_cons, ← weight_inj (doublesNext ds)]
  omega

/-- A changed digit changes the total modulo ten. -/
theorem total_change_mod_iff (front back : List Digit) {d e : Digit} :
    total (front ++ d :: back) % 10 = total (front ++ e :: back) % 10 ↔ d = e := by
  have same : (d :: back).length = (e :: back).length := rfl
  rw [total_append_mod_iff same, total_cons_mod_iff]

theorem total_set_mod_iff {ds : List Digit} {i : Nat} (inside : i < ds.length) {d : Digit} :
    total (ds.set i d) % 10 = total ds % 10 ↔ d = ds[i] := by
  have whole : ds.take i ++ ds[i] :: ds.drop (i + 1) = ds := by simp
  have changed : ds.set i d = ds.take i ++ d :: ds.drop (i + 1) := by
    rw [List.set_eq_take_append_cons_drop, if_pos inside]
  have compared := total_change_mod_iff (ds.take i) (ds.drop (i + 1)) (d := d) (e := ds[i])
  rwa [← changed, whole] at compared

theorem valid_iff {ds : List Digit} : valid ds = true ↔ total ds % 10 = 0 := by
  simp [valid]

theorem valid_set_eq_false {ds : List Digit} (passes : valid ds = true) {i : Nat} (inside : i < ds.length)
    {d : Digit} (other : d ≠ ds[i]) : valid (ds.set i d) = false := by
  rw [← Bool.not_eq_true, valid_iff]
  intro still
  apply other
  rw [← total_set_mod_iff inside, still, valid_iff.mp passes]

end Luhn

/-! ## One character changed -/

/-- Two texts of one length that differ at exactly one place. -/
structure DifferOnce (text other : String) : Prop where
  length : text.length = other.length
  place : ∃! i : Nat, text.toList[i]? ≠ other.toList[i]?

theorem Digit.toChar_inj {d e : Digit} : d.toChar = e.toChar ↔ d = e := by
  revert d e
  decide

theorem exists_set_of_differOnce {ds es : List Digit} (once : DifferOnce (writeDigits ds) (writeDigits es)) :
    ∃ i, ∃ inside : i < ds.length, ∃ d, d ≠ ds[i] ∧ es = ds.set i d := by
  obtain ⟨sameLength, i, here, only⟩ := once
  rw [length_writeDigits, length_writeDigits] at sameLength
  have char (j : Nat) : (writeDigits ds).toList[j]? = (writeDigits es).toList[j]? ↔ ds[j]? = es[j]? := by
    simp only [writeDigits, String.toList_ofList, List.getElem?_map]
    exact (Option.map_injective fun _ _ => Digit.toChar_inj.mp).eq_iff
  have inside : i < ds.length := by
    by_contra outside
    apply here
    rw [char, List.getElem?_eq_none (by omega), List.getElem?_eq_none (by omega)]
  have inside' : i < es.length := sameLength ▸ inside
  refine ⟨i, inside, es[i], ?_, ?_⟩
  · intro same
    apply here
    rw [char, List.getElem?_eq_getElem inside, List.getElem?_eq_getElem inside', same]
  · apply List.ext_getElem?
    intro j
    rw [List.getElem?_set]
    split
    · rename_i place
      subst place
      exact List.getElem?_eq_getElem inside'
    · rename_i elsewhere
      by_contra differs
      apply elsewhere
      exact (only j fun same => differs ((char j).mp same).symm).symm

theorem PassesLuhn.not_of_differOnce {card changed : String} (luhn : PassesLuhn card)
    (once : DifferOnce card changed) : ¬ PassesLuhn changed := by
  obtain ⟨ds, rfl, divides⟩ := luhn
  rintro ⟨es, rfl, divides'⟩
  obtain ⟨i, inside, d, other, rfl⟩ := exists_set_of_differOnce once
  have invalid := Luhn.valid_set_eq_false (Luhn.valid_iff.mpr divides) inside other
  rw [Luhn.valid_iff.mpr divides'] at invalid
  cases invalid

/-- A valid number with one digit changed is not valid, on digits and on bytes. A card number that is
    accepted anywhere is refused everywhere when one of its digits is changed. -/
theorem changed_digit_is_caught :
    (∀ (ds : List Digit) (i : Nat) (inside : i < ds.length) (d : Digit), Luhn.valid ds = true →
      d ≠ ds[i] → Luhn.valid (ds.set i d) = false ∧
        Luhn.Bytes.valid? ((ds.set i d).map Luhn.toByte) = some false) ∧
    (∀ (store other : Store) (card changed : String), store.accepts card = .ok true →
      (∀ c ∈ changed.toList, c.isDigit = true) → DifferOnce card changed →
      other.accepts changed = .ok false) := by
  constructor
  · intro ds i inside d passes different
    have invalid := Luhn.valid_set_eq_false passes inside different
    refine ⟨invalid, ?_⟩
    rw [Luhn.Bytes.valid?, Luhn.total?_toByte]
    exact congrArg some invalid
  · intro store other card changed accepted digits once
    have luhn := ((judges_accepts store card).accepted_iff.mp accepted).luhn
    apply (judges_accepts other changed).refused_iff.mpr
    constructor
    · rintro ⟨c, member, foreign⟩
      rw [digits c member] at foreign
      cases foreign
    · intro acceptable
      exact luhn.not_of_differOnce once acceptable.luhn

/-- A card number that a scheme accepts and one that is refused for its sixth digit, with the scheme and
    without any. -/
theorem changed_digit_is_caught_sixth_place :
    let visa : Scheme := ⟨"visa", "Visa", [.digits 16], [.digits 4], ""⟩
    let ds : List Digit := 4 :: List.replicate 15 1
    Luhn.valid ds = true ∧ (7 : Digit) ≠ ds[5] ∧ Luhn.valid (ds.set 5 7) = false ∧
    Store.accepts ⟨some [visa]⟩ "4111111111111111" = .ok true ∧
    DifferOnce "4111111111111111" "4111171111111111" ∧
    Store.accepts ⟨some [visa]⟩ "4111171111111111" = .ok false ∧
    Store.accepts {} "4111171111111111" = .ok false := by
  intro visa ds
  obtain ⟨digits, cards⟩ := changed_digit_is_caught
  have passes : Luhn.valid ds = true := by decide
  have other : (7 : Digit) ≠ ds[5] := by decide
  have acceptable : Acceptable [visa] "4111111111111111" := by
    refine ⟨by decide, ⟨ds, by decide, by decide⟩, .inr ⟨visa, by simp, ?_⟩⟩
    decide
  have accepted : Store.accepts ⟨some [visa]⟩ "4111111111111111" = .ok true :=
    (judges_accepts ⟨some [visa]⟩ _).accepted_iff.mpr acceptable
  have written : ∀ c ∈ "4111171111111111".toList, c.isDigit = true := by simp
  have once : DifferOnce "4111111111111111" "4111171111111111" := by
    refine ⟨by decide, 5, by simp, ?_⟩
    intro i differs
    by_contra elsewhere
    apply differs
    match i with
    | 0 | 1 | 2 | 3 | 4 | 6 | 7 | 8 | 9 | 10 | 11 | 12 | 13 | 14 | 15 => simp
    | 5 => exact absurd rfl elsewhere
    | i + 16 => simp
  exact ⟨passes, other, (digits ds 5 (by decide) 7 passes other).1, accepted, once,
    cards _ _ _ _ accepted written once, cards _ _ _ _ accepted written once⟩

end Paycard
