import Paycard.Text.Decimal

/-! # Decimal numerals

Every number has one numeral: a non-empty run of digits that starts with a zero only when it is the
lone zero. Printing a number gives its numeral, and the value of a numeral prints as that numeral, so
numbers and numerals correspond one to one.
-/

namespace Paycard.Text

/-- A non-empty run of digits with no superfluous zero in front. -/
structure Canonical (cs : List Char) : Prop where
  nonempty : cs ≠ []
  digits : ∀ c ∈ cs, c.isDigit = true
  lead : cs.length = 1 ∨ cs.head? ≠ some '0'

theorem digitChar_of_isDigit {c : Char} (h : c.isDigit = true) :
    c.toNat - '0'.toNat < 10 ∧ Nat.digitChar (c.toNat - '0'.toNat) = c := by
  obtain ⟨low, high⟩ := Char.isDigit_iff_toNat.mp h
  have small : c.toNat - '0'.toNat < 10 := by
    simp only [Char.reduceToNat] at low high ⊢
    omega
  refine ⟨small, Char.toNat_inj.mp ?_⟩
  rw [Nat.toNat_digitChar_of_lt_ten small]
  simp only [Char.reduceToNat] at low ⊢
  omega

theorem isDigit_toDigits (n : Nat) : ∀ c ∈ Nat.toDigits 10 n, c.isDigit = true :=
  fun _ member => Nat.isDigit_of_mem_toDigits (by decide) (by decide) member

/-- Digits written after the numeral of a positive number extend that numeral. -/
theorem toDigits_append {v : Nat} (pos : 0 < v) {cs : List Char}
    (digits : ∀ c ∈ cs, c.isDigit = true) :
    Nat.toDigits 10 v ++ cs = Nat.toDigits 10 (Nat.ofDigitChars 10 cs v) := by
  induction cs generalizing v with
  | nil => simp
  | cons c cs ih =>
      obtain ⟨small, char⟩ := digitChar_of_isDigit (digits c (by simp))
      have last : Nat.toDigits 10 (c.toNat - '0'.toNat) = [c] := by
        rw [Nat.toDigits_of_lt_base small, char]
      have step : Nat.toDigits 10 v ++ [c] = Nat.toDigits 10 (10 * v + (c.toNat - '0'.toNat)) := by
        rw [← last, Nat.toDigits_append_toDigits (by decide) pos small]
      rw [Nat.ofDigitChars_cons, ← ih (by omega) (fun d member => digits d (by simp [member])), ← step]
      simp

theorem head?_toDigits_append (n : Nat) (cs : List Char) :
    (Nat.toDigits 10 n ++ cs).head? = (Nat.toDigits 10 n).head? := by
  cases written : Nat.toDigits 10 n with
  | nil => exact absurd written Nat.toDigits_ne_nil
  | cons c rest => rfl

theorem head_toDigits {n : Nat} (pos : 0 < n) : (Nat.toDigits 10 n).head? ≠ some '0' := by
  induction n using Nat.strongRecOn with
  | _ n ih =>
      rw [Nat.toDigits_eq_if (by decide)]
      split
      · simp only [List.head?_cons, ne_eq, Option.some.injEq, Nat.digitChar_eq_zero]
        omega
      · rw [head?_toDigits_append]
        exact ih (n / 10) (by omega) (by omega)

theorem numeral_prefix_of_head_zero {n : Nat} {cs : List Char} (zero : cs.head? = some '0') :
    Nat.toDigits 10 n <+: cs ↔ n = 0 := by
  obtain ⟨rest, rfl⟩ := List.head?_eq_some_iff.mp zero
  constructor
  · intro ⟨tail, starts⟩
    refine Nat.eq_zero_of_not_pos fun pos => head_toDigits pos ?_
    rw [← head?_toDigits_append n tail, starts]
    rfl
  · intro zero
    simp [zero]

theorem canonical_toDigits (n : Nat) : Canonical (Nat.toDigits 10 n) where
  nonempty := Nat.toDigits_ne_nil
  digits := isDigit_toDigits n
  lead := by
    cases n with
    | zero => exact .inl (by simp)
    | succ n => exact .inr (head_toDigits (Nat.succ_pos n))

@[simp] theorem valueOf_toDigits (n : Nat) : valueOf (Nat.toDigits 10 n) = n :=
  Nat.ofDigitChars_ten_toDigits

theorem toDigits_valueOf {cs : List Char} (h : Canonical cs) : Nat.toDigits 10 (valueOf cs) = cs := by
  cases cs with
  | nil => exact absurd rfl h.nonempty
  | cons c cs =>
      obtain ⟨small, char⟩ := digitChar_of_isDigit (h.digits c (by simp))
      have first : Nat.toDigits 10 (c.toNat - '0'.toNat) = [c] := by
        rw [Nat.toDigits_of_lt_base small, char]
      rw [valueOf, Nat.ofDigitChars_cons, Nat.mul_zero, Nat.zero_add]
      rcases h.lead with single | notZero
      · obtain rfl : cs = [] := by simpa using single
        simpa using first
      · have pos : 0 < c.toNat - '0'.toNat := by
          rw [Nat.pos_iff_ne_zero]
          intro zero
          rw [zero] at char
          exact notZero (by simp [← char])
        rw [← toDigits_append pos (fun d member => h.digits d (by simp [member])), first]
        rfl

theorem toDigits_eq_iff {n : Nat} {cs : List Char} :
    Nat.toDigits 10 n = cs ↔ Canonical cs ∧ valueOf cs = n := by
  constructor
  · intro same
    subst same
    exact ⟨canonical_toDigits n, valueOf_toDigits n⟩
  · intro ⟨canonical, value⟩
    rw [← value]
    exact toDigits_valueOf canonical

theorem length_toDigits_le {n : Nat} (h : n < UInt64.size) : (Nat.toDigits 10 n).length ≤ 20 :=
  (Nat.length_toDigits_le_iff (by decide) (by decide)).mpr (Nat.lt_trans h (by decide))

end Paycard.Text
