import Mathlib
import Paycard.Command.Run
import Paycard.Fetch.Basic
import Paycard.Proofs.Results

/-! # Attempts of a fetch

A fetch stops at the first reply that brings a dictionary. When none of the allowed attempts does, it has
made all of them and reports what was wrong with the last reply. The loop can be counted with a 32-bit
counter: it stops before the counter would be too small.
-/

namespace Paycard

namespace Reply

/-- A whole answer with a status of success and the text of a dictionary. -/
inductive Brings : Reply → List Scheme → Prop where
  | answer {status : Nat} {text : String} {schemes : List Scheme} :
      200 ≤ status → status ≤ 299 → Dictionary.ofText text = .ok schemes →
      Brings (.answer status text true) schemes

/-- What is wrong with a reply that brings no dictionary. The status comes first, whatever the body. -/
inductive Lacks : Reply → FetchError → Prop where
  | lost (timedOut : Bool) : Lacks (.lost timedOut) (.request timedOut)
  | status {status : Nat} (text : String) (isWhole : Bool) :
      ¬ (200 ≤ status ∧ status ≤ 299) → Lacks (.answer status text isWhole) (.status status)
  | cut {status : Nat} (text : String) :
      200 ≤ status → status ≤ 299 → Lacks (.answer status text false) (.request false)
  | notJson {status : Nat} {text : String} :
      200 ≤ status → status ≤ 299 → Json.ofText? text = none →
      Lacks (.answer status text true) (.request false)
  | notDictionary {status : Nat} {text : String} {value : Json} :
      200 ≤ status → status ≤ 299 → Json.ofText? text = some value →
      (∀ schemes, Dictionary.ofJson value ≠ .ok schemes) →
      Lacks (.answer status text true) .malformed

theorem isSuccess_iff {status : Nat} : isSuccess status = true ↔ 200 ≤ status ∧ status ≤ 299 := by
  simp only [isSuccess, Bool.and_eq_true, decide_eq_true_eq]
  omega

theorem Brings.schemes_eq {reply : Reply} {schemes : List Scheme} (brings : reply.Brings schemes) :
    reply.schemes = .ok schemes := by
  cases brings with
  | @answer status text schemes low high read =>
      have success := isSuccess_iff.mpr ⟨low, high⟩
      unfold Dictionary.ofText at read
      split at read
      · rename_i value json
        simp [Reply.schemes, success, json, read]
      · cases read

theorem Lacks.schemes_eq {reply : Reply} {e : FetchError} (lacks : reply.Lacks e) :
    reply.schemes = .error e := by
  cases lacks with
  | lost timedOut => rfl
  | @status status text isWhole other =>
      have failure : isSuccess status = false := by
        rw [← Bool.not_eq_true, isSuccess_iff]
        exact other
      simp [Reply.schemes, failure]
  | cut text low high => simp [Reply.schemes, isSuccess_iff.mpr ⟨low, high⟩]
  | notJson low high json => simp [Reply.schemes, isSuccess_iff.mpr ⟨low, high⟩, json]
  | @notDictionary status text value low high json other =>
      cases read : Dictionary.ofJson value with
      | ok schemes => exact absurd read (other schemes)
      | error e => simp [Reply.schemes, isSuccess_iff.mpr ⟨low, high⟩, json, read]

/-- A reply brings a dictionary or lacks one for a definite reason. -/
theorem brings_or_lacks (reply : Reply) : (∃ schemes, reply.Brings schemes) ∨ ∃ e, reply.Lacks e := by
  cases reply with
  | lost timedOut => exact .inr ⟨_, .lost timedOut⟩
  | answer status text isWhole =>
      by_cases success : 200 ≤ status ∧ status ≤ 299
      · obtain ⟨low, high⟩ := success
        cases isWhole with
        | false => exact .inr ⟨_, .cut text low high⟩
        | true =>
            cases json : Json.ofText? text with
            | none => exact .inr ⟨_, .notJson low high json⟩
            | some value =>
                cases read : Dictionary.ofJson value with
                | ok schemes =>
                    exact .inl ⟨schemes, .answer low high (by rw [Dictionary.ofText, json]; exact read)⟩
                | error e => exact .inr ⟨_, .notDictionary low high json (by simp [read])⟩
      · exact .inr ⟨_, .status text isWhole success⟩

end Reply

namespace Script

variable {script : Script} {made more : Nat}

theorem attempt_of_brings {schemes : List Scheme} (brings : (script made).Brings schemes) :
    script.attempt made more = ⟨.ok schemes, made + 1⟩ := by
  cases more with
  | zero => rw [attempt, brings.schemes_eq]
  | succ more => rw [attempt, brings.schemes_eq]

theorem attempt_zero_of_lacks {e : FetchError} (lacks : (script made).Lacks e) :
    script.attempt made 0 = ⟨.error e, made + 1⟩ := by
  rw [attempt, lacks.schemes_eq]

theorem attempt_succ_of_lacks {e : FetchError} (lacks : (script made).Lacks e) :
    script.attempt made (more + 1) = script.attempt (made + 1) more := by
  rw [attempt, lacks.schemes_eq]

/-- Replies without a dictionary are passed over as long as attempts are left. -/
theorem attempt_add (made failed more : Nat)
    (fails : ∀ j, made ≤ j → j < made + failed → ∃ e, (script j).Lacks e) :
    script.attempt made (failed + more) = script.attempt (made + failed) more := by
  -- On the number of failures: the first of them moves the loop on by one attempt.
  induction failed generalizing made with
  | zero => rw [Nat.zero_add, Nat.add_zero]
  | succ failed ih =>
      obtain ⟨e, lacks⟩ := fails made (by omega) (by omega)
      rw [Nat.add_right_comm, attempt_succ_of_lacks lacks,
        ih (made + 1) fun j low high => fails j (by omega) (by omega)]
      congr 1
      omega

theorem lacks_of_not_brings {j : Nat} (none : ∀ schemes, ¬ (script j).Brings schemes) :
    ∃ e, (script j).Lacks e :=
  (script j).brings_or_lacks.resolve_left fun ⟨schemes, brings⟩ => none schemes brings

variable {settings : Fetch.Settings}

theorem fetch_of_first {k : Nat} {schemes : List Scheme} (within : k < settings.attempts)
    (brings : (script k).Brings schemes) (first : ∀ j < k, ∀ other, ¬ (script j).Brings other) :
    script.fetch settings = ⟨.ok schemes, k + 1⟩ := by
  obtain ⟨more, total⟩ := Nat.exists_eq_add_of_le (Nat.le_sub_one_of_lt within)
  have passed := attempt_add 0 k more
    fun j _ before => lacks_of_not_brings (first j (by omega))
  rw [fetch, total, passed, Nat.zero_add, attempt_of_brings brings]

theorem fetch_of_none (none : ∀ j < settings.attempts, ∀ schemes, ¬ (script j).Brings schemes) :
    ∃ e, (script (settings.attempts - 1)).Lacks e ∧
      script.fetch settings = ⟨.error e, settings.attempts⟩ := by
  have positive : 0 < settings.attempts := by
    rw [Fetch.Settings.attempts]
    omega
  obtain ⟨e, lacks⟩ := lacks_of_not_brings (none (settings.attempts - 1) (by omega))
  have passed := attempt_add 0 (settings.attempts - 1) 0
    fun j _ before => lacks_of_not_brings (none j (by omega))
  rw [Nat.add_zero, Nat.zero_add] at passed
  refine ⟨e, lacks, ?_⟩
  rw [fetch, passed, attempt_zero_of_lacks lacks]
  congr 1
  omega

/-- Among some first replies there is an earliest one that brings a dictionary, or none does. -/
theorem first_or_none (script : Script) (n : Nat) :
    (∃ k < n, ∃ schemes, (script k).Brings schemes ∧ ∀ j < k, ∀ other, ¬ (script j).Brings other) ∨
      ∀ j < n, ∀ schemes, ¬ (script j).Brings schemes := by
  induction n with
  | zero => exact .inr (by omega)
  | succ n ih =>
      rcases ih with ⟨k, within, found⟩ | none
      · exact .inl ⟨k, by omega, found⟩
      · by_cases last : ∃ schemes, (script n).Brings schemes
        · obtain ⟨schemes, brings⟩ := last
          exact .inl ⟨n, by omega, schemes, brings, none⟩
        · right
          intro j within schemes brings
          rcases Nat.lt_succ_iff_lt_or_eq.mp within with before | rfl
          · exact none j before schemes brings
          · exact last ⟨schemes, brings⟩

theorem lacks_of_fetch_eq_error {e : FetchError} (failed : (script.fetch settings).result = .error e) :
    (script (settings.attempts - 1)).Lacks e := by
  rcases first_or_none script settings.attempts with ⟨k, within, schemes, brings, first⟩ | none
  · rw [fetch_of_first within brings first] at failed
    cases failed
  · obtain ⟨e', lacks, fetched⟩ := fetch_of_none none
    rw [fetched] at failed
    cases failed
    exact lacks

theorem lt_requests_attempt : made < (script.attempt made more).requests := by
  induction more generalizing made with
  | zero => exact Nat.lt_succ_self made
  | succ more ih =>
      rcases (script made).brings_or_lacks with ⟨schemes, brings⟩ | ⟨e, lacks⟩
      · rw [attempt_of_brings brings]
        exact Nat.lt_succ_self made
      · rw [attempt_succ_of_lacks lacks]
        exact Nat.lt_of_succ_lt ih

theorem requests_fetch_pos (script : Script) (settings : Fetch.Settings) :
    0 < (script.fetch settings).requests := lt_requests_attempt

/-! ## The counter -/

/-- The attempts as a loop with a 32-bit counter, which is raised before each further attempt and never
    past the limit. Nothing comes out if the counter cannot be raised because it is at its top. -/
def countedAttempt? (script : Script) (limit attempt : UInt32) (made : Nat) : Option Fetched :=
  match (script made).schemes with
  | .ok schemes => some ⟨.ok schemes, made + 1⟩
  | .error e =>
      if attempt < limit then
        if _fits : attempt.toNat + 1 < UInt32.size then
          script.countedAttempt? limit (attempt + 1) (made + 1)
        else none
      else some ⟨.error e, made + 1⟩
termination_by limit.toNat - attempt.toNat
decreasing_by
  rename_i below
  rw [UInt32.lt_iff_toNat_lt] at below
  rw [UInt32.toNat_add, UInt32.toNat_one, Nat.mod_eq_of_lt _fits]
  omega

theorem countedAttempt?_eq {limit attempt : UInt32} (left : attempt.toNat + more = limit.toNat) :
    script.countedAttempt? limit attempt made = some (script.attempt made more) := by
  -- The counter and the attempts left add up to the limit, so as long as one is left it can be raised.
  induction more generalizing attempt made with
  | zero =>
      have atLimit : ¬ attempt < limit := by
        rw [UInt32.lt_iff_toNat_lt]
        omega
      rw [countedAttempt?, Script.attempt]
      cases (script made).schemes with
      | ok schemes => rfl
      | error e => simp [atLimit]
  | succ more ih =>
      have below : attempt < limit := by
        rw [UInt32.lt_iff_toNat_lt]
        omega
      have fits : attempt.toNat + 1 < UInt32.size := by
        have top := limit.toNat_lt
        rw [show UInt32.size = 2 ^ 32 from rfl]
        omega
      have raised : (attempt + 1).toNat = attempt.toNat + 1 := by
        rw [UInt32.toNat_add, UInt32.toNat_one, Nat.mod_eq_of_lt fits]
      rw [countedAttempt?, Script.attempt]
      cases (script made).schemes with
      | ok schemes => rfl
      | error e =>
          simp only [below, fits, if_true, dif_pos]
          exact ih (by omega)

theorem toNat_max_one (n : UInt32) : (max n 1).toNat = max 1 n.toNat := by
  show (if n ≤ 1 then 1 else n).toNat = max 1 n.toNat
  split
  · rename_i small
    rw [UInt32.le_iff_toNat_le, UInt32.toNat_one] at small
    rw [UInt32.toNat_one]
    omega
  · rename_i large
    rw [UInt32.le_iff_toNat_le, UInt32.toNat_one] at large
    omega

/-- Counted from one up to the limit, the loop ends and its counter is always large enough. -/
theorem countedAttempt?_fetch (script : Script) (settings : Fetch.Settings) :
    script.countedAttempt? (max settings.maxAttempts 1) 1 0 = some (script.fetch settings) := by
  apply countedAttempt?_eq
  rw [toNat_max_one, UInt32.toNat_one, Fetch.Settings.attempts]
  omega

/-! ## Files -/

theorem fetch_of_text {schemes : List Scheme} {text : String} (settings : Fetch.Settings)
    (served : ∀ j, ∃ status, 200 ≤ status ∧ status ≤ 299 ∧ script j = .answer status text true) :
    (script.fetch settings).result = .ok schemes ↔ Dictionary.ofText text = .ok schemes := by
  have brings_iff (j : Nat) (other : List Scheme) :
      (script j).Brings other ↔ Dictionary.ofText text = .ok other := by
    obtain ⟨status, low, high, reply⟩ := served j
    rw [reply]
    constructor
    · intro brings
      cases brings with
      | answer _ _ read => exact read
    · exact .answer low high
  cases read : Dictionary.ofText text with
  | ok found =>
      have first : script.fetch settings = ⟨.ok found, 0 + 1⟩ := by
        apply fetch_of_first
        · rw [Fetch.Settings.attempts]
          omega
        · exact (brings_iff 0 found).mpr read
        · intro j before
          omega
      simp [first]
  | error e =>
      have none : ∀ j < settings.attempts, ∀ other, ¬ (script j).Brings other := by
        intro j _ other
        rw [brings_iff, read]
        simp
      obtain ⟨e', -, failed⟩ := fetch_of_none none
      simp [failed]

end Script

theorem Command.Source.load_served_iff {world : World} {settings : Fetch.Settings} {path text : String}
    (file : world.file path = .ok text)
    (served : ∀ j, ∃ status, 200 ≤ status ∧ status ≤ 299 ∧ world.replies j = .answer status text true)
    (schemes : List Scheme) :
    load world ⟨none, settings⟩ = .ok schemes ↔ load world ⟨some path, settings⟩ = .ok schemes := by
  simp only [load, file, mapError_eq_ok_iff]
  exact Script.fetch_of_text settings served

/-- A fetch makes exactly the right attempts. It stops at the first of the allowed replies that brings a
    dictionary, with the schemes of that reply. Otherwise it makes all the attempts and reports what the
    last reply lacks; a timeout is reported only for a reply that never came. A 32-bit counter never
    overflows on the way. A text that is served is accepted as it is from a file. -/
theorem fetch_makes_right_attempts (script : Script) (settings : Fetch.Settings) :
    let attempts := max 1 settings.maxAttempts.toNat
    (∀ k < attempts, ∀ schemes, (script k).Brings schemes →
      (∀ j < k, ∀ other, ¬ (script j).Brings other) →
      script.fetch settings = ⟨.ok schemes, k + 1⟩) ∧
    ((∀ j < attempts, ∀ schemes, ¬ (script j).Brings schemes) →
      ∃ e, (script (attempts - 1)).Lacks e ∧ script.fetch settings = ⟨.error e, attempts⟩) ∧
    ((script.fetch settings).result = .error (.request true) →
      script (attempts - 1) = .lost true) ∧
    script.countedAttempt? (max settings.maxAttempts 1) 1 0 = some (script.fetch settings) ∧
    (∀ world path text, world.file path = .ok text →
      (∀ j, ∃ status, 200 ≤ status ∧ status ≤ 299 ∧ world.replies j = .answer status text true) →
      ∀ schemes, Command.Source.load world ⟨none, settings⟩ = .ok schemes ↔
        Command.Source.load world ⟨some path, settings⟩ = .ok schemes) := by
  refine ⟨?first, ?none, ?timeout, Script.countedAttempt?_fetch script settings, ?file⟩
  case first =>
    intro k within schemes brings first
    exact Script.fetch_of_first within brings first
  case none =>
    intro none
    exact Script.fetch_of_none none
  case timeout =>
    intro failed
    have lacks := Script.lacks_of_fetch_eq_error failed
    generalize reply : script (settings.attempts - 1) = last at lacks
    cases lacks with
    | lost => exact reply
  case file =>
    intro world path text file served
    exact Command.Source.load_served_iff file served

/-- A fetch that succeeds at its second attempt, one that times out, and a dictionary that is served and
    kept in a file. -/
theorem fetch_makes_right_attempts_second_reply :
    let text := "\x7b\"data\":[]\x7d"
    let script : Script := .ofList [.answer 500 text true, .answer 200 text true]
    let silent : Script := fun _ => .lost true
    let standard := Fetch.Settings.standard
    let single := { standard with maxAttempts := 0 }
    let world : Command.World :=
      { environment := fun _ => none, file := fun _ => .ok text, replies := fun _ => .answer 200 text true }
    (script 1).Brings [] ∧ (∀ j < 1, ∀ other, ¬ (script j).Brings other) ∧
    script.fetch standard = ⟨.ok [], 2⟩ ∧
    (∀ j < 1, ∀ schemes, ¬ (silent j).Brings schemes) ∧
    (∃ e, (silent 0).Lacks e ∧ silent.fetch single = ⟨.error e, 1⟩) ∧
    (silent.fetch single).result = .error (.request true) ∧ silent 0 = .lost true ∧
    Command.Source.load world ⟨none, standard⟩ = .ok [] := by
  intro text script silent standard single world
  have read : Dictionary.ofText text = .ok [] := by cbv
  have brings : (script 1).Brings [] := .answer (by decide) (by decide) read
  have first : ∀ j < 1, ∀ other, ¬ (script j).Brings other := by
    intro j before other brings
    obtain rfl : j = 0 := by omega
    generalize reply : script 0 = failed at brings
    cases brings with
    | answer low high read =>
      cases reply
      omega
  have none : ∀ j < 1, ∀ schemes, ¬ (silent j).Brings schemes := by
    intro j before schemes brings
    cases brings
  obtain ⟨recovers, -, -, -, fromFile⟩ := fetch_makes_right_attempts script standard
  obtain ⟨-, fails, timeout, -⟩ := fetch_makes_right_attempts silent single
  have timedOut : (silent.fetch single).result = .error (.request true) := rfl
  have file : Command.Source.load world ⟨some "cards.json", standard⟩ = .ok [] := by
    rw [Command.Source.load]
    simp only [world, read]
    rfl
  refine ⟨brings, first, recovers 1 (by decide) [] brings first, none, fails none, timedOut,
    timeout timedOut, ?_⟩
  exact (fromFile world "cards.json" text rfl (fun _ => ⟨200, by decide, by decide, rfl⟩) []).mpr file

end Paycard
