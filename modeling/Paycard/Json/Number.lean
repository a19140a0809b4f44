/-! # JSON numbers

A number literal is read into its parts (`Numeral`). An unsigned 64-bit integer keeps its value; every
other number is a 64-bit float, of which only the text is kept. A literal whose float would be
infinite has no value at all.
-/

namespace Paycard.Json

/-- A number: an unsigned 64-bit integer written without fraction and exponent, or the text of any
    other finite number. -/
inductive Number where
  | natural (value : UInt64)
  | other (text : String)
  deriving Repr, DecidableEq

/-- The digits of a number literal. A missing fraction or exponent is `none`. -/
structure Numeral where
  negative : Bool
  whole : List Char
  fraction : Option (List Char)
  exponent : Option (Bool × List Char)
  deriving Repr, DecidableEq

/-- The digits at the start of a text and the rest, if there are any digits. -/
def digits? (cs : List Char) : Option (List Char × List Char) :=
  if (cs.takeWhile Char.isDigit).isEmpty then none
  else some (cs.takeWhile Char.isDigit, cs.dropWhile Char.isDigit)

namespace Numeral

/-- Reads the digits in front of the point. A zero is followed by no other digit. -/
def whole? (cs : List Char) : Option (List Char × List Char) :=
  match digits? cs with
  | some ('0' :: _ :: _, _) => none
  | found => found

/-- Reads a point and the digits after it, if there is a point. -/
def fraction? : List Char → Option (Option (List Char) × List Char)
  | '.' :: cs => (fun (ds, rest) => (some ds, rest)) <$> digits? cs
  | cs => some (none, cs)

/-- Reads the sign of an exponent: whether it is negative. -/
def exponentSign : List Char → Bool × List Char
  | '-' :: cs => (true, cs)
  | '+' :: cs => (false, cs)
  | cs => (false, cs)

/-- Reads an exponent, if there is one. -/
def exponent? : List Char → Option (Option (Bool × List Char) × List Char)
  | c :: cs =>
      if c = 'e' ∨ c = 'E' then
        let (negative, rest) := exponentSign cs
        (fun (ds, rest) => (some (negative, ds), rest)) <$> digits? rest
      else some (none, c :: cs)
  | [] => some (none, [])

/-- Reads a minus sign: whether there is one. -/
def sign : List Char → Bool × List Char
  | '-' :: cs => (true, cs)
  | cs => (false, cs)

/-- Reads a number literal and returns the rest of the text. -/
def scan? (cs : List Char) : Option (Numeral × List Char) := do
  let (negative, cs) := sign cs
  let (whole, cs) ← whole? cs
  let (fraction, cs) ← fraction? cs
  let (exponent, cs) ← exponent? cs
  return (⟨negative, whole, fraction, exponent⟩, cs)

/-- A digit run is never empty, so the rest is shorter. -/
theorem length_digits? {cs ds rest : List Char} (h : digits? cs = some (ds, rest)) :
    rest.length < cs.length := by
  simp only [digits?] at h
  split at h
  · simp at h
  · rename_i hne
    have hpos : 0 < (cs.takeWhile Char.isDigit).length :=
      List.length_pos_iff.2 fun hnil => hne (List.isEmpty_iff.2 hnil)
    have happ := congrArg List.length (List.takeWhile_append_dropWhile (p := Char.isDigit) (l := cs))
    simp only [List.length_append] at happ
    simp only [Option.some.injEq, Prod.mk.injEq] at h
    rw [← h.2]
    omega

theorem length_whole? {cs ds rest : List Char} (h : whole? cs = some (ds, rest)) :
    rest.length < cs.length := by
  unfold whole? at h
  split at h
  · simp at h
  · exact length_digits? h

theorem length_fraction? {cs rest : List Char} {ds : Option (List Char)}
    (h : fraction? cs = some (ds, rest)) : rest.length ≤ cs.length := by
  unfold fraction? at h
  split at h
  · obtain ⟨⟨_, tail⟩, hd, ht⟩ := Option.map_eq_some_iff.1 h
    have := length_digits? hd
    simp only [Prod.mk.injEq] at ht
    rw [← ht.2, List.length_cons]
    omega
  · simp_all

theorem length_exponentSign (cs : List Char) : (exponentSign cs).2.length ≤ cs.length := by
  unfold exponentSign
  split <;> simp

theorem length_exponent? {cs rest : List Char} {e : Option (Bool × List Char)}
    (h : exponent? cs = some (e, rest)) : rest.length ≤ cs.length := by
  cases cs with
  | nil => simp_all [exponent?]
  | cons c cs =>
      simp only [exponent?] at h
      split at h
      · obtain ⟨⟨_, tail⟩, hd, ht⟩ := Option.map_eq_some_iff.1 h
        have := length_digits? hd
        have := length_exponentSign cs
        simp only [Prod.mk.injEq] at ht
        rw [← ht.2, List.length_cons]
        omega
      · simp_all

theorem length_sign (cs : List Char) : (sign cs).2.length ≤ cs.length := by
  unfold sign
  split <;> simp

/-- Reading a literal always takes characters from the text. -/
theorem length_scan? {cs rest : List Char} {n : Numeral} (h : scan? cs = some (n, rest)) :
    rest.length < cs.length := by
  simp only [scan?, Option.bind_eq_bind, Option.bind_eq_some_iff] at h
  obtain ⟨⟨_, _⟩, hw, ⟨_, _⟩, hf, ⟨_, _⟩, he, hr⟩ := h
  have h₀ := length_sign cs
  have h₁ := length_whole? hw
  have h₂ := length_fraction? hf
  have h₃ := length_exponent? he
  simp only [pure, Option.some.injEq, Prod.mk.injEq] at hr
  dsimp only at h₂ h₃
  rw [← hr.2]
  omega

/-- Appends digits to a significand as long as it stays below 2^64, and counts the digits left over. -/
def absorb (significand : Nat) : List Char → Nat × Nat
  | [] => (significand, 0)
  | c :: cs =>
      let next := 10 * significand + (c.toNat - '0'.toNat)
      if next < UInt64.size then absorb next cs else (significand, cs.length + 1)

def exponentValue (n : Numeral) : Int :=
  match n.exponent with
  | none => 0
  | some (negative, ds) =>
      let value := Nat.ofDigitChars 10 ds 0
      if negative then -value else value

/-- A number as a 64-bit significand times a power of ten. Digits in front of the point that do not
    fit the significand raise the power; digits behind it that do not fit are dropped. -/
def scaled (n : Numeral) : Nat × Int :=
  let (significand, above) := absorb 0 n.whole
  let fraction := n.fraction.getD []
  let (significand, dropped) := absorb significand fraction
  (significand, (above : Int) - ((fraction.length - dropped : Nat) : Int) + n.exponentValue)

/-- The nearest number with 53 significant bits; a tie goes to the even one. -/
def nearestDouble (n : Nat) : Nat :=
  let excess := n.log2 + 1 - 53
  if excess = 0 then n
  else
    let kept := n >>> excess
    let lost := n % (1 <<< excess)
    let half := 1 <<< (excess - 1)
    if lost > half ∨ (lost = half ∧ kept % 2 = 1) then (kept + 1) <<< excess else kept <<< excess

/-- A product this large is rounded to infinity. -/
def doubleLimit : Nat := (1 <<< 1024) - (1 <<< 970)

/-- Whether the product of the rounded significand and the rounded power of ten is a finite float.
    Powers above 308 are not floats themselves. -/
def finite (n : Numeral) : Bool :=
  let (significand, power) := n.scaled
  significand == 0 || power < 0 ||
    (power ≤ 308 && nearestDouble significand * nearestDouble (Nat.pow 10 power.toNat) < doubleLimit)

/-- The value, if the literal writes an unsigned 64-bit integer. -/
def natural? (n : Numeral) : Option UInt64 :=
  let value := Nat.ofDigitChars 10 n.whole 0
  if !n.negative && n.fraction.isNone && n.exponent.isNone && value < UInt64.size then
    some (UInt64.ofNat value)
  else none

/-- The parts put together again, with a lower-case exponent mark and no plus sign. -/
def chars (n : Numeral) : List Char :=
  (if n.negative then ['-'] else []) ++ n.whole ++
    (match n.fraction with
      | none => []
      | some ds => '.' :: ds) ++
    match n.exponent with
      | none => []
      | some (negative, ds) => 'e' :: (if negative then '-' :: ds else ds)

/-- The number that a literal with these parts writes, if it is finite. -/
def number? (n : Numeral) : Option Number :=
  match n.natural? with
  | some value => some (.natural value)
  | none => if n.finite then some (.other (String.ofList n.chars)) else none

end Numeral

end Paycard.Json
