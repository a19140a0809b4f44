import Paycard.Text.Escape

/-! # Reading escaped characters

The written form of a character holds only printable ASCII characters. A reader finds the character again,
whatever comes after its written form: a backslash starts every form but those of single characters, and
the letter after it tells the others apart. So the written form of one character is never the start of
another one's.
-/

namespace Paycard.Text

/-- The value of a hexadecimal digit. -/
def hexValue (c : Char) : Nat := if c.isDigit then c.toNat - '0'.toNat else c.toNat - 'a'.toNat + 10

/-- The value of a run of hexadecimal digits. -/
def valueOfHex (digits : List Char) : Nat := digits.foldl (fun value c => 16 * value + hexValue c) 0

/-- Reads the code of a character up to its closing brace. -/
def readCode (cs : List Char) : Char × List Char :=
  (Char.ofNat (valueOfHex (cs.takeWhile (· ≠ '}'))), (cs.dropWhile (· ≠ '}')).tail)

/-- Reads one character from its written form and returns the rest of the text. -/
def unescape? : List Char → Option (Char × List Char)
  | [] => none
  | '\\' :: 't' :: rest => some ('\t', rest)
  | '\\' :: 'r' :: rest => some ('\r', rest)
  | '\\' :: 'n' :: rest => some ('\n', rest)
  | '\\' :: 'u' :: '{' :: rest => some (readCode rest)
  | '\\' :: c :: rest => some (c, rest)
  | c :: rest => some (c, rest)

/-! ## Hexadecimal numerals -/

theorem hexValue_digitChar {d : Nat} (small : d < 16) : hexValue (Nat.digitChar d) = d := by
  revert d
  decide

/-- What holds of single digits and is kept by one more digit on the right holds of every numeral. -/
theorem toDigits_induction {P : Nat → List Char → Prop} (single : ∀ d < 16, P d [Nat.digitChar d])
    (more : ∀ n cs, ∀ d < 16, P n cs → P (16 * n + d) (cs ++ [Nat.digitChar d])) (n : Nat) :
    P n (Nat.toDigits 16 n) := by
  induction n using Nat.strongRecOn with
  | _ n ih =>
      rw [Nat.toDigits_eq_if (by decide)]
      split
      case isTrue small => exact single n small
      case isFalse large =>
          have extended := more (n / 16) _ (n % 16) (Nat.mod_lt n (by decide)) (ih (n / 16) (by omega))
          rwa [Nat.div_add_mod] at extended

theorem valueOfHex_toDigits (n : Nat) : valueOfHex (Nat.toDigits 16 n) = n := by
  refine toDigits_induction (P := fun n cs => valueOfHex cs = n) ?single ?more n
  case single =>
    intro d small
    simp [valueOfHex, hexValue_digitChar small]
  case more =>
    intro n cs d small front
    rw [valueOfHex, List.foldl_append, List.foldl_cons, List.foldl_nil, ← valueOfHex, front,
      hexValue_digitChar small]

/-- A property of the sixteen digits holds of all characters of a numeral. -/
theorem forall_mem_toDigits {P : Char → Prop} (digits : ∀ d < 16, P (Nat.digitChar d)) (n : Nat) :
    ∀ c ∈ Nat.toDigits 16 n, P c := by
  refine toDigits_induction (P := fun _ cs => ∀ c ∈ cs, P c) ?single ?more n
  case single =>
    intro d small
    exact List.forall_mem_singleton.mpr (digits d small)
  case more =>
    intro _ cs d small front
    exact List.forall_mem_append.mpr ⟨front, List.forall_mem_singleton.mpr (digits d small)⟩

/-! ## Written forms -/

/-- The characters that take a backslash, each with what comes after it. -/
def shortForms : List (Char × Char) :=
  [('\t', 't'), ('\r', 'r'), ('\n', 'n'), ('\'', '\''), ('\"', '\"'), ('\\', '\\')]

/-- The three forms that a character can be written in. -/
inductive Form (c : Char) : List Char → Prop where
  | short {letter : Char} : (c, letter) ∈ shortForms → Form c ['\\', letter]
  | plain : isPrintable c = true → c ≠ '\\' → Form c [c]
  | code : Form c ('\\' :: 'u' :: '{' :: Nat.toDigits 16 c.toNat ++ ['}'])

/-- The form that a character takes: the short one if it has one, else itself if it is printable, else its
    code. -/
inductive EscapedAs (c : Char) : List Char → Prop where
  | short {letter : Char} : (c, letter) ∈ shortForms → EscapedAs c ['\\', letter]
  | plain : (∀ letter, (c, letter) ∉ shortForms) → ' ' ≤ c → c ≤ '~' → EscapedAs c [c]
  | code : (∀ letter, (c, letter) ∉ shortForms) → ¬ (' ' ≤ c ∧ c ≤ '~') →
      EscapedAs c ('\\' :: 'u' :: '{' :: Nat.toDigits 16 c.toNat ++ ['}'])

/-- The characters without a short form. -/
theorem forall_not_mem_shortForms {c : Char} : (∀ letter, (c, letter) ∉ shortForms) ↔
    c ≠ '\t' ∧ c ≠ '\r' ∧ c ≠ '\n' ∧ ¬ (c = '\'' ∨ c = '\"' ∨ c = '\\') := by
  simp [shortForms, forall_and]

theorem escape_of_no_short {c : Char} (none : ∀ letter, (c, letter) ∉ shortForms) :
    escape c = if isPrintable c then [c] else '\\' :: 'u' :: '{' :: Nat.toDigits 16 c.toNat ++ ['}'] := by
  obtain ⟨tab, carriage, line, others⟩ := forall_not_mem_shortForms.mp none
  rw [escape, if_neg tab, if_neg carriage, if_neg line, if_neg others]
  rfl

theorem escape_of_mem_shortForms {c letter : Char} (member : (c, letter) ∈ shortForms) :
    escape c = ['\\', letter] := by
  simp only [shortForms, List.mem_cons, Prod.mk.injEq, List.not_mem_nil, or_false] at member
  rcases member with ⟨rfl, rfl⟩ | ⟨rfl, rfl⟩ | ⟨rfl, rfl⟩ | ⟨rfl, rfl⟩ | ⟨rfl, rfl⟩ | ⟨rfl, rfl⟩ <;> rfl

theorem escapedAs_iff {c : Char} {written : List Char} : EscapedAs c written ↔ written = escape c := by
  have printable : isPrintable c = true ↔ ' ' ≤ c ∧ c ≤ '~' := by simp [isPrintable]
  constructor
  · rintro (member | ⟨none, low, high⟩ | ⟨none, other⟩)
    · exact (escape_of_mem_shortForms member).symm
    · rw [escape_of_no_short none, if_pos (printable.mpr ⟨low, high⟩)]
    · rw [escape_of_no_short none, if_neg (mt printable.mp other)]
  · rintro rfl
    by_cases short : ∃ letter, (c, letter) ∈ shortForms
    · obtain ⟨letter, member⟩ := short
      rw [escape_of_mem_shortForms member]
      exact .short member
    · have none := not_exists.mp short
      rw [escape_of_no_short none]
      split
      case isTrue inside =>
        obtain ⟨low, high⟩ := printable.mp inside
        exact .plain none low high
      case isFalse outside => exact .code none (mt printable.mpr outside)

theorem form_escape (c : Char) : Form c (escape c) := by
  have escaped : EscapedAs c (escape c) := escapedAs_iff.mpr rfl
  generalize escape c = written at escaped
  cases escaped with
  | short member => exact .short member
  | plain none low high =>
      refine .plain (by simp [isPrintable, low, high]) fun backslash => none '\\' ?_
      simp [backslash, shortForms]
  | code => exact .code

theorem readCode_toDigits (c : Char) (rest : List Char) :
    readCode (Nat.toDigits 16 c.toNat ++ '}' :: rest) = (c, rest) := by
  have inside : ∀ x ∈ Nat.toDigits 16 c.toNat, decide (x ≠ '}') = true :=
    forall_mem_toDigits (by decide) c.toNat
  rw [readCode, List.takeWhile_append_of_pos inside, List.dropWhile_append_of_pos inside]
  simp [valueOfHex_toDigits]

namespace Form

variable {c : Char} {written : List Char}

theorem isPrintable_of_mem (form : Form c written) : ∀ x ∈ written, isPrintable x = true := by
  cases form with
  | @short letter member =>
      have letters : ∀ pair ∈ shortForms, isPrintable pair.2 = true := by decide
      simpa using ⟨by decide, letters _ member⟩
  | plain printable => simpa using printable
  | code =>
      have digits : ∀ x ∈ Nat.toDigits 16 c.toNat, isPrintable x = true :=
        forall_mem_toDigits (by decide) c.toNat
      simp only [List.forall_mem_cons, List.cons_append, List.forall_mem_append]
      exact ⟨by decide, by decide, by decide, digits, by decide, by simp⟩

/-- The character is read again from any of its forms, whatever comes after it. -/
theorem unescape?_append (form : Form c written) (rest : List Char) :
    unescape? (written ++ rest) = some (c, rest) := by
  cases form with
  | @short letter member =>
      simp only [shortForms, List.mem_cons, Prod.mk.injEq, List.not_mem_nil, or_false] at member
      rcases member with ⟨rfl, rfl⟩ | ⟨rfl, rfl⟩ | ⟨rfl, rfl⟩ | ⟨rfl, rfl⟩ | ⟨rfl, rfl⟩ | ⟨rfl, rfl⟩ <;> rfl
  | plain _ other => simp [unescape?, other]
  | code => simp [unescape?, readCode_toDigits]

end Form

theorem isPrintable_of_mem_escape {c : Char} : ∀ x ∈ escape c, isPrintable x = true :=
  (form_escape c).isPrintable_of_mem

/-- The written form of a character is told from every other one by its own characters alone. -/
theorem escape_append_inj {c d : Char} {left right : List Char}
    (same : escape c ++ left = escape d ++ right) : c = d ∧ left = right := by
  have read := (form_escape c).unescape?_append left
  rw [same, (form_escape d).unescape?_append right, Option.some_inj, Prod.mk.injEq] at read
  exact ⟨read.1.symm, read.2.symm⟩

end Paycard.Text
