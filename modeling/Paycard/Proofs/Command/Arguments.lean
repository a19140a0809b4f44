import Paycard.Command.Run

/-! # Card numbers after two hyphens

What stands after two hyphens is an operand, whatever its characters are. So a command line that ends with
two hyphens and a card number is refused for every number, or it asks the same thing about each of them.
-/

namespace Paycard.Command

namespace Arguments

/-- Two operands are too many. -/
theorem foldlM_withOperand?_eq_none {texts : List String} (many : 2 ≤ texts.length)
    (arguments : Arguments) : texts.foldlM withOperand? arguments = none := by
  match texts, many with
  | first :: second :: rest, _ =>
      rw [List.foldlM_cons, withOperand?]
      cases arguments.operand with
      | none => rfl
      | some _ => rfl

/-- What stands before the two hyphens decides whether the arguments can be read, and which flags they
    give. -/
theorem exists_flags_readOn? (allowed : List Flag) : ∀ (before : List String) (arguments : Arguments),
    ∃ flags? : Option (List (Flag × String)), ∀ number,
      readOn? allowed arguments (before ++ ["--", number]) =
        flags?.map fun flags => { operand := some number, flags }
  | [], arguments => by
      have hyphens : Argument.ofText "--" = .operandsOnly := by decide
      cases taken : arguments.operand with
      | none =>
          refine ⟨some arguments.flags, fun number => ?_⟩
          simp [readOn?, hyphens, withOperand?, taken]
      | some _ =>
          refine ⟨none, fun number => ?_⟩
          simp [readOn?, hyphens, withOperand?, taken]
  | text :: rest, arguments => by
      cases kind : Argument.ofText text with
      | operand operand =>
          cases taken : arguments.withOperand? operand with
          | none => exact ⟨none, fun number => by simp [readOn?, kind, taken]⟩
          | some next =>
              obtain ⟨flags?, reads⟩ := exists_flags_readOn? allowed rest next
              exact ⟨flags?, fun number => by simp [readOn?, kind, taken, reads]⟩
      | operandsOnly =>
          refine ⟨none, fun number => ?_⟩
          have many : 2 ≤ (rest ++ ["--", number]).length := by simp
          simp [readOn?, kind, foldlM_withOperand?_eq_none many]
      | unknown => exact ⟨none, fun number => by simp [readOn?, kind]⟩
      | flag flag value =>
          cases value with
          | some value =>
              cases taken : arguments.withFlag? allowed flag value with
              | none => exact ⟨none, fun number => by simp [readOn?, kind, taken]⟩
              | some next =>
                  obtain ⟨flags?, reads⟩ := exists_flags_readOn? allowed rest next
                  exact ⟨flags?, fun number => by simp [readOn?, kind, taken, reads]⟩
          | none =>
              match rest with
              | [] =>
                  -- The hyphens would have to be the value of the flag, which they cannot be.
                  have noValue : isValue "--" = false := by decide
                  exact ⟨none, fun number => by simp [readOn?, kind, noValue]⟩
              | value :: rest =>
                  cases good : isValue value with
                  | false => exact ⟨none, fun number => by simp [readOn?, kind, good]⟩
                  | true =>
                      cases taken : arguments.withFlag? allowed flag value with
                      | none => exact ⟨none, fun number => by simp [readOn?, kind, good, taken]⟩
                      | some next =>
                          obtain ⟨flags?, reads⟩ := exists_flags_readOn? allowed rest next
                          exact ⟨flags?, fun number => by simp [readOn?, kind, good, taken, reads]⟩
  termination_by before => before.length

end Arguments

/-- The arguments of a command about a card number that stands after two hyphens. -/
def aboutNumber (command : String) (before : List String) (number : String) : List String :=
  command :: (before ++ ["--", number])

/-- What the flags of a command with a dictionary ask for. -/
def Arguments.asks? (environment : Environment) (arguments : Arguments) : Option (Source × Format) := do
  return (← arguments.source? environment, ← arguments.format?)

theorem exists_asked (environment : Environment) (before : List String) :
    ∃ asked? : Option (Source × Format), ∀ number,
      Invocation.ofArguments? environment (aboutNumber "detect" before number) =
        asked?.map (fun (source, format) => .detect number source format) ∧
      Invocation.ofArguments? environment (aboutNumber "assess" before number) =
        asked?.map (fun (source, format) => .assess number source format) := by
  obtain ⟨flags?, reads⟩ := Arguments.exists_flags_readOn? Invocation.dictionaryFlags before {}
  refine ⟨flags?.bind fun flags => Arguments.asks? environment { flags }, fun number => ?_⟩
  simp only [aboutNumber, Invocation.ofArguments?, Arguments.read?, reads]
  cases flags? with
  | none => exact ⟨rfl, rfl⟩
  | some flags =>
      -- The operand plays no part in what the flags ask for.
      have source : Arguments.source? ⟨some number, flags⟩ environment =
        Arguments.source? ⟨none, flags⟩ environment := rfl
      have format : Arguments.format? ⟨some number, flags⟩ = Arguments.format? ⟨none, flags⟩ := rfl
      simp only [Option.map_some, Option.bind_some, Option.bind_eq_bind, Arguments.asks?, source, format]
      cases Arguments.source? ⟨none, flags⟩ environment with
      | none => exact ⟨rfl, rfl⟩
      | some source =>
          cases Arguments.format? ⟨none, flags⟩ with
          | none => exact ⟨rfl, rfl⟩
          | some format => exact ⟨rfl, rfl⟩

end Paycard.Command
