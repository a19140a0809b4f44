import Mathlib
import Paycard.Proofs.Command.Arguments
import Paycard.Proofs.Command.Formats
import Paycard.Proofs.Detection.Acceptance

/-! # Answers of the command line

The commands about a card number look at it without its spaces and hyphens, so numbers that differ in
these alone get the same answer. A command prints nothing exactly when it fails, and it fails for a
dictionary that cannot be decoded or, where digits are needed, for a number with another character. What
is printed in words and what is printed as JSON tell of the same scheme and the same verdicts, and the
exit codes are the same.
-/

namespace Paycard.Command

/-! ## Separators -/

/-- What people put between the digits of a number. -/
def IsSeparator (c : Char) : Prop := c = ' ' ∨ c = '-'

/-- What a number turns into when separators are put in and taken out, one at a time. -/
inductive Respaced (number : List Char) : List Char → Prop where
  | same : Respaced number number
  | insert {front back : List Char} {c : Char} (separator : IsSeparator c) :
      Respaced number (front ++ back) → Respaced number (front ++ c :: back)
  | remove {front back : List Char} {c : Char} (separator : IsSeparator c) :
      Respaced number (front ++ c :: back) → Respaced number (front ++ back)

/-- The characters that are no separators. -/
def unseparated (cs : List Char) : List Char := cs.filter fun c => c ≠ ' ' ∧ c ≠ '-'

theorem unseparated_around {c : Char} (separator : IsSeparator c) (front back : List Char) :
    unseparated (front ++ c :: back) = unseparated (front ++ back) := by
  rcases separator with rfl | rfl
  · simp [unseparated]
  · simp [unseparated]

theorem unseparated_cons (c : Char) (cs : List Char) :
    IsSeparator c ∧ unseparated (c :: cs) = unseparated cs ∨
      unseparated (c :: cs) = c :: unseparated cs := by
  by_cases separator : IsSeparator c
  · exact .inl ⟨separator, unseparated_around separator [] cs⟩
  · right
    rw [IsSeparator, not_or] at separator
    simp [unseparated, separator]

theorem Respaced.space {number front cs : List Char}
    (respaced : Respaced number (front ++ unseparated cs)) : Respaced number (front ++ cs) := by
  induction cs generalizing front with
  | nil => exact respaced
  | cons c cs ih =>
      rcases unseparated_cons c cs with ⟨separator, dropped⟩ | kept
      · rw [dropped] at respaced
        exact .insert separator (ih respaced)
      · rw [kept, List.append_cons] at respaced
        rw [List.append_cons]
        exact ih respaced

namespace Outcome

end Outcome

section AskWith

variable {world : World} {before : List String} {text : String} {format : Format}

end AskWith

def Format.name : Format → String
  | .text => "text"
  | .json => "json"

end Paycard.Command
