import Mathlib.Data.List.Forall2
import Paycard.Batch
import Paycard.Proofs.Command.Arguments
import Paycard.Proofs.Rule.Matching
import Paycard.Store.Basic

/-! # What detection looks at

Of a card number detection looks at two things: its size in bytes and the digits at its start. No rule can
name more than twenty digits, and the digits end where another character stands. Card numbers that agree on
both belong to the same scheme, one by one and in batches, in the store and on the command line, so all
else can be masked before.
-/

namespace Paycard

/-- Card numbers of one size in bytes that start with the same digits, as far as a rule can name them. -/
structure LookAlike (card other : String) : Prop where
  size : card.utf8ByteSize = other.utf8ByteSize
  lead : (card.toList.takeWhile Char.isDigit).take 20 = (other.toList.takeWhile Char.isDigit).take 20

namespace LookAlike

variable {card other : String} (alike : LookAlike card other)

include alike

theorem numeral_prefix_iff (v : UInt64) :
    Nat.toDigits 10 v.toNat <+: card.toList ↔ Nat.toDigits 10 v.toNat <+: other.toList := by
  have lead : Rule.leadingDigits card.toList = Rule.leadingDigits other.toList := alike.lead
  rw [← Rule.numeral_prefix_leadingDigits v.toNat_lt_size, lead,
    Rule.numeral_prefix_leadingDigits v.toNat_lt_size]

theorem matchesLength_eq (rules : List Rule) :
    Rule.matchesLength rules card = Rule.matchesLength rules other := by
  simp only [Rule.matchesLength, alike.size]

theorem matchesRangeByTrial_eq (rules : List Rule) :
    Rule.matchesRangeByTrial rules card = Rule.matchesRangeByTrial rules other := by
  rw [Bool.eq_iff_iff, Rule.matchesRangeByTrial_iff, Rule.matchesRangeByTrial_iff]
  simp only [alike.numeral_prefix_iff]

theorem matchesCard_eq (scheme : Scheme) : scheme.matchesCard card = scheme.matchesCard other := by
  rw [Scheme.matchesCard, Scheme.matchesCard, alike.matchesLength_eq, Rule.matchesRange_eq_byTrial,
    Rule.matchesRange_eq_byTrial, alike.matchesRangeByTrial_eq]

theorem isEmpty_eq : card.isEmpty = other.isEmpty := by
  rw [Bool.eq_iff_iff, String.isEmpty_iff, String.isEmpty_iff, ← String.utf8ByteSize_eq_zero_iff,
    ← String.utf8ByteSize_eq_zero_iff, alike.size]

theorem detectIndex?_eq (schemes : List Scheme) :
    detectIndex? schemes card = detectIndex? schemes other := by
  simp only [detectIndex?, alike.isEmpty_eq, alike.matchesCard_eq]

theorem detect?_eq (schemes : List Scheme) : detect? schemes card = detect? schemes other := by
  simp only [detect?, alike.isEmpty_eq, alike.matchesCard_eq]

end LookAlike

section Batches

variable {cards others : List String} (alike : List.Forall₂ LookAlike cards others)

include alike

theorem detectAll_eq_of_lookAlike (schemes : List Scheme) :
    detectAll schemes cards = detectAll schemes others := by
  induction alike with
  | nil => rfl
  | cons first _ ih =>
      simp only [detectAll, List.map_cons] at ih ⊢
      rw [first.detect?_eq, ih]

theorem countByScheme_eq_of_lookAlike (schemes : List Scheme) :
    countByScheme schemes cards = countByScheme schemes others := by
  unfold countByScheme
  -- The tally of the cards before is the same for both, whatever it is.
  generalize ([] : Tally) = tally
  induction alike generalizing tally with
  | nil => rfl
  | cons first _ ih =>
      simp only [List.foldl_cons, first.detect?_eq]
      exact ih _

end Batches

namespace Command

variable {number other : String}
  (alike : LookAlike (stripSeparators number) (stripSeparators other))

include alike

theorem runDetect_eq (schemes : List Scheme) (format : Format) :
    runDetect schemes number format = runDetect schemes other format := by
  unfold runDetect
  rw [alike.detect?_eq]

theorem run_detect_eq (world : World) (source : Source) (format : Format) :
    Invocation.run world (.detect number source format) =
      Invocation.run world (.detect other source format) := by
  have same : (runDetect · number format) = (runDetect · other format) :=
    funext fun schemes => runDetect_eq alike schemes format
  exact congrArg (withSchemes world source) same

theorem run_aboutNumber_detect_eq (world : World) (before : List String) :
    run world (aboutNumber "detect" before number) = run world (aboutNumber "detect" before other) := by
  obtain ⟨asked?, reads⟩ := exists_asked world.environment before
  rw [run, run, (reads number).1, (reads other).1]
  cases asked? with
  | none => rfl
  | some asked => exact run_detect_eq alike world asked.1 asked.2

end Command

/-- Card numbers of one size with the same leading digits are found at the same position and counted alike,
    and a command gives the same output and exit code for them. What follows the leading digits plays no
    part, nor do digits after the twentieth. -/
theorem detection_sees_leading_digits_only :
    (∀ card other, LookAlike card other →
      (∀ rules, Rule.matchesRangeByTrial rules card = Rule.matchesRangeByTrial rules other) ∧
      (∀ schemes, detectIndex? schemes card = detectIndex? schemes other) ∧
      (∀ schemes, detect? schemes card = detect? schemes other) ∧
      ∀ store : Store, store.detect? card = store.detect? other) ∧
    (∀ cards others, List.Forall₂ LookAlike cards others → ∀ schemes,
      detectAll schemes cards = detectAll schemes others ∧
      countByScheme schemes cards = countByScheme schemes others) ∧
    (∀ number other,
      LookAlike (Command.stripSeparators number) (Command.stripSeparators other) → ∀ world,
      (∀ source format, Command.Invocation.run world (.detect number source format) =
        Command.Invocation.run world (.detect other source format)) ∧
      ∀ before, Command.run world (Command.aboutNumber "detect" before number) =
        Command.run world (Command.aboutNumber "detect" before other)) := by
  refine ⟨?single, ?batch, ?command⟩
  case single =>
    intro card other alike
    exact ⟨alike.matchesRangeByTrial_eq, alike.detectIndex?_eq, alike.detect?_eq,
      fun store => alike.detect?_eq store.schemes⟩
  case batch =>
    intro cards others alike schemes
    exact ⟨detectAll_eq_of_lookAlike alike schemes, countByScheme_eq_of_lookAlike alike schemes⟩
  case command =>
    intro number other alike world
    exact ⟨Command.run_detect_eq alike world, Command.run_aboutNumber_detect_eq alike world⟩

/-- Letters of two bytes stand for the rest of one card number, and those of the other pair differ after
    their twentieth digit. -/
theorem detection_sees_leading_digits_only_masked :
    let visa : Scheme := ⟨"visa", "Visa", [.interval 16 22], [.digits 411111], ""⟩
    let world : Command.World := ⟨fun _ => none, fun _ => .error .notFound, fun _ => .lost false⟩
    LookAlike "411111x111111111" "411111ééééé" ∧
    LookAlike "4111111111111111111122" "41111111111111111111xx" ∧
    detectIndex? [visa] "411111x111111111" = some 0 ∧ detectIndex? [visa] "411111ééééé" = some 0 ∧
    countByScheme [visa] ["411111ééééé", "41111111111111111111xx"] = [(some "visa", 2)] ∧
    Command.stripSeparators "4111-11x1 1111-1111" = "411111x111111111" ∧
    Command.run world (Command.aboutNumber "detect" ["-d", "cards"] "4111-11x1 1111-1111") =
      Command.run world (Command.aboutNumber "detect" ["-d", "cards"] "411111ééééé") := by
  intro visa world
  obtain ⟨single, batch, command⟩ := detection_sees_leading_digits_only
  have letters : LookAlike "411111x111111111" "411111ééééé" := ⟨by decide, by decide⟩
  have long : LookAlike "4111111111111111111122" "41111111111111111111xx" := ⟨by decide, by decide⟩
  have found : detectIndex? [visa] "411111x111111111" = some 0 := by decide
  have counted : countByScheme [visa] ["411111x111111111", "4111111111111111111122"] =
      [(some "visa", 2)] := by decide
  obtain ⟨-, position, -, -⟩ := single _ _ letters
  obtain ⟨-, tally⟩ := batch _ _ (.cons letters (.cons long .nil)) [visa]
  have stripped : Command.stripSeparators "4111-11x1 1111-1111" = "411111x111111111" := by decide
  have asIs : Command.stripSeparators "411111ééééé" = "411111ééééé" := by decide
  have separated : LookAlike (Command.stripSeparators "4111-11x1 1111-1111")
      (Command.stripSeparators "411111ééééé") := by
    rw [stripped, asIs]
    exact letters
  exact ⟨letters, long, found, position [visa] ▸ found, tally ▸ counted, stripped,
    (command _ _ separated world).2 _⟩

end Paycard
