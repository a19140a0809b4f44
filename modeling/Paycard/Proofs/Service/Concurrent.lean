import Mathlib
import Paycard.Proofs.Detection.Acceptance
import Paycard.Proofs.Store.Concurrent
import Paycard.Service.Concurrent

/-! # Operations that never mix collections

Each operation stores at most one collection, after all of it is there, and then it succeeds. A reading
operation looks at the store once. So under every schedule the store holds one whole collection, failures
change nothing, and each answer comes from one state of the store.
-/

namespace Paycard

namespace Store

theorem detect?_eq_bind (store : Store) (card : String) :
    store.detect? card = store.stored.bind (Paycard.detect? · card) := by
  rw [detect?, schemes]
  cases store.stored with
  | none => exact detect?_nil card
  | some schemes => rfl

theorem hasRules_eq_any (store : Store) : store.hasRules = store.stored.any (!·.isEmpty) := by
  rw [hasRules, schemes]
  cases store.stored with
  | none => rfl
  | some schemes => rfl

namespace Program

variable {α β : Type} {settings : Fetch.Settings} {script : Script}

/-! ## Programs done at once -/

theorem alone_bind (program : Program α) (next : α → Program β) (store : Store) :
    (program.bind next).alone store = (next (program.alone store).2).alone (program.alone store).1 := by
  induction program generalizing store with
  | answer value => rfl
  | read rest ih => exact ih store.stored store
  | write schemes rest ih => exact ih (store.replace schemes)
  | wait rest ih => exact ih store

theorem alone_map (program : Program α) (f : α → β) (store : Store) :
    (f <$> program).alone store = (program.alone store).map id f := alone_bind program _ store

theorem alone_attempt (script : Script) (made more : Nat) (store : Store) :
    (attempt script made more).alone store = (store, script.attempt made more) := by
  induction more generalizing made with
  | zero => rfl
  | succ more ih =>
      rw [attempt, alone, Script.attempt]
      cases (script made).schemes with
      | ok schemes => rfl
      | error e => exact ih (made + 1)

theorem alone_reload (settings : Fetch.Settings) (script : Script) (store : Store) :
    (reload settings script).alone store = store.reload settings script := by
  rw [reload]
  refine (alone_bind _ _ store).trans ?_
  rw [alone_attempt, Store.reload, absorb, Script.fetch]
  cases fetched : (script.attempt 0 (settings.attempts - 1)).result with
  | ok schemes => rfl
  | error e => rfl

theorem alone_load (settings : Fetch.Settings) (script : Script) (store : Store) :
    (load settings script).alone store = store.load settings script := by
  obtain ⟨stored⟩ := store
  cases stored with
  | none => exact alone_reload settings script _
  | some schemes =>
      cases schemes with
      | nil => exact alone_reload settings script _
      | cons scheme schemes => rfl

/-! ## What programs store -/

theorem path_attempt {made more : Nat} {stores : List (List Scheme)} {fetched : Fetched}
    (path : (attempt script made more).Path stores fetched) :
    stores = [] ∧ fetched = script.attempt made more := by
  induction more generalizing made with
  | zero =>
      cases path with
      | wait path =>
          cases path
          exact ⟨rfl, rfl⟩
  | succ more ih =>
      rw [attempt] at path
      rw [Script.attempt]
      cases path with
      | wait path =>
          cases reply : (script made).schemes with
          | ok schemes =>
              simp only [reply] at path
              cases path
              exact ⟨rfl, rfl⟩
          | error e =>
              simp only [reply] at path
              exact ih path

theorem path_reload {stores : List (List Scheme)} {fetched : Fetched}
    (path : (reload settings script).Path stores fetched) :
    fetched = script.fetch settings ∧
      ((stores = [] ∧ ∃ e, fetched.result = .error e) ∨
        ∃ schemes, stores = [schemes] ∧ fetched.result = .ok schemes) := by
  obtain ⟨first, middle, rest, attempts, path, rfl⟩ := Path.of_bind path
  obtain ⟨rfl, rfl⟩ := path_attempt attempts
  cases result : (script.attempt 0 (settings.attempts - 1)).result with
  | ok schemes =>
      simp only [result] at path
      cases path with
      | write _ path =>
          cases path
          exact ⟨rfl, .inr ⟨schemes, rfl, result⟩⟩
  | error e =>
      simp only [result] at path
      cases path
      exact ⟨rfl, .inl ⟨rfl, e, result⟩⟩

/-- A load stores nothing, or it does what a reload does. -/
theorem path_load {stores : List (List Scheme)} {fetched : Fetched}
    (path : (load settings script).Path stores fetched) :
    stores = [] ∨ (reload settings script).Path stores fetched := by
  obtain ⟨first, stored, rest, looks, goesOn, rfl⟩ := Path.of_bind path
  cases looks with
  | read _ looks =>
      cases looks
      cases held : stored.filter (!·.isEmpty) with
      | none =>
          simp only [held] at goesOn
          exact .inr goesOn
      | some schemes =>
          simp only [held] at goesOn
          cases goesOn
          exact .inl rfl

end Program

end Store

namespace Service

open Store (Program Shared)

/-- A failure of any kind. -/
inductive Answer.Fails : Answer → Prop where
  | assessment (e : InvalidCharacter) : Fails (.assessment (.error e))
  | verdict (e : InvalidCharacter) : Fails (.verdict (.error e))
  | fetched (e : FetchError) (requests : Nat) : Fails (.fetched ⟨.error e, requests⟩)
  | rejected (cause : Rejection) : Fails (.response (.rejected cause))
  | reloaded (e : FetchError) (requests : Nat) : Fails (.response (.reloaded (.error e) requests))

namespace Operation

/-- An operation produces a collection when it is given the whole of it, or when its attempts bring it. -/
inductive Produces : Operation → List Scheme → Prop where
  | replace (schemes : List Scheme) : Produces (.replace schemes) schemes
  | load {settings : Fetch.Settings} {script : Script} {schemes : List Scheme} :
      (script.fetch settings).result = .ok schemes → Produces (.load settings script) schemes
  | reload {settings : Fetch.Settings} {script : Script} {schemes : List Scheme} :
      (script.fetch settings).result = .ok schemes → Produces (.reload settings script) schemes
  | serve {settings : Fetch.Settings} {script : Script} {schemes : List Scheme} :
      (script.fetch settings).result = .ok schemes →
      Produces (.serve settings (.reload script)) schemes

/-- Whether an operation only reads. -/
def isQuery : Operation → Bool
  | .get | .isLoaded | .detect _ | .assess _ | .accepts _ => true
  | .serve _ .health | .serve _ (.detect _ _) | .serve _ (.parse _ _) => true
  | .replace _ | .load _ _ | .reload _ _ | .serve _ (.reload _) => false

/-- The answer of an operation that is done at once where this is stored. -/
def answerAt (operation : Operation) (stored : Option (List Scheme)) : Answer :=
  (operation.perform ⟨stored⟩).2

theorem alone_serve (settings : Fetch.Settings) (request : Request) (store : Store) :
    (Service.program settings request).alone store = handle settings store request := by
  cases request with
  | health => rfl
  | detect contentType body =>
      rw [Service.program, handle]
      cases bodyMember "card_number" contentType body with
      | ok card => rfl
      | error cause => rfl
  | parse contentType body =>
      rw [Service.program, handle]
      cases bodyMember "rules" contentType body with
      | ok text => rfl
      | error cause => rfl
  | reload replies =>
      rw [Service.program, handle]
      refine (Program.alone_bind _ _ store).trans ?_
      rw [Program.alone_reload]
      rfl

/-- A call that is done at once does what its operation does. -/
theorem alone_program (operation : Operation) (store : Store) :
    operation.program.alone store = operation.perform store := by
  cases operation with
  | get | isLoaded | assess _ | replace _ => rfl
  | detect card =>
      rw [perform, Store.detect?_eq_bind]
      rfl
  | accepts card =>
      rw [perform, Store.accepts, Store.hasRules_eq_any]
      rfl
  | load settings script =>
      rw [program, Program.alone_map, Program.alone_load]
      rfl
  | reload settings script =>
      rw [program, Program.alone_map, Program.alone_reload]
      rfl
  | serve settings request =>
      rw [program, Program.alone_map, alone_serve]
      rfl

variable {operation : Operation}

theorem looks_of_read {f : Option (List Scheme) → Answer}
    (reads : operation.program = .read fun stored => .answer (f stored)) :
    operation.program.Looks operation.answerAt := by
  rw [reads]
  apply Program.Looks.once
  intro stored
  have alone := alone_program operation ⟨stored⟩
  rw [reads] at alone
  exact congrArg (fun done => Program.answer done.2) alone

theorem looks_of_answer {answer : Answer} (answers : operation.program = .answer answer) :
    operation.program.Looks operation.answerAt := by
  rw [answers]
  apply Program.Looks.never
  intro stored
  have alone := alone_program operation ⟨stored⟩
  rw [answers] at alone
  exact (congrArg Prod.snd alone).symm

/-- A reading operation looks at the store once at most. -/
theorem looks_program (query : operation.isQuery = true) :
    operation.program.Looks operation.answerAt := by
  cases operation with
  | get | isLoaded | detect _ | assess _ | accepts _ => exact looks_of_read rfl
  | replace _ | load _ _ | reload _ _ => cases query
  | serve settings request =>
      cases request with
      | health => exact looks_of_read rfl
      | reload replies => cases query
      | detect contentType body =>
          cases member : bodyMember "card_number" contentType body with
          | ok card =>
              have reads : (serve settings (.detect contentType body)).program = .read fun stored =>
                  .answer (.response (.ok (Verdict.ofCard (stored.getD []) card).toJson)) := by
                rw [program, Service.program, member]
                rfl
              exact looks_of_read reads
          | error cause =>
              -- Such a body is turned away before the store is looked at.
              have answers : (serve settings (.detect contentType body)).program =
                  .answer (.response (.rejected cause)) := by
                rw [program, Service.program, member]
                rfl
              exact looks_of_answer answers
      | parse contentType body =>
          have answers : ∃ answer, (serve settings (.parse contentType body)).program = .answer answer := by
            rw [program, Service.program]
            cases bodyMember "rules" contentType body with
            | ok text => exact ⟨_, rfl⟩
            | error cause => exact ⟨_, rfl⟩
          obtain ⟨answer, answers⟩ := answers
          exact looks_of_answer answers

/-- What a call may store: nothing, or one collection that its operation produces, and then the call does
    not fail. -/
def StoresSafely (operation : Operation) (stores : List (List Scheme)) (answer : Answer) : Prop :=
  stores = [] ∨ ∃ schemes, stores = [schemes] ∧ operation.Produces schemes ∧ ¬ answer.Fails

theorem storesSafely_of_looks {stores : List (List Scheme)} {answer : Answer}
    {f : Option (List Scheme) → Answer} (looks : operation.program.Looks f)
    (path : operation.program.Path stores answer) : operation.StoresSafely stores answer := by
  left
  generalize operation.program = program at looks path
  cases looks with
  | once sees =>
      cases path with
      | read stored path =>
          rw [sees] at path
          cases path
          rfl
  | never sees =>
      cases path
      rfl

theorem not_fails_fetched {fetched : Fetched} {schemes : List Scheme}
    (found : fetched.result = .ok schemes) : ¬ (Answer.fetched fetched).Fails := by
  intro fails
  cases fails
  cases found

theorem storesSafely_program {stores : List (List Scheme)} {answer : Answer}
    (path : operation.program.Path stores answer) : operation.StoresSafely stores answer := by
  cases operation with
  | get | isLoaded | detect _ | assess _ | accepts _ => exact storesSafely_of_looks (looks_program rfl) path
  | replace schemes =>
      obtain ⟨_, path, rfl⟩ := path.of_map
      cases path with
      | write _ path =>
          cases path
          exact .inr ⟨schemes, rfl, .replace schemes, by intro fails; cases fails⟩
  | load settings script =>
      obtain ⟨fetched, loads, rfl⟩ := path.of_map
      rcases Program.path_load loads with rfl | reloads
      · exact .inl rfl
      · obtain ⟨rfl, ⟨rfl, -⟩ | ⟨schemes, rfl, found⟩⟩ := Program.path_reload reloads
        · exact .inl rfl
        · exact .inr ⟨schemes, rfl, .load found, not_fails_fetched found⟩
  | reload settings script =>
      obtain ⟨fetched, reloads, rfl⟩ := path.of_map
      obtain ⟨rfl, ⟨rfl, -⟩ | ⟨schemes, rfl, found⟩⟩ := Program.path_reload reloads
      · exact .inl rfl
      · exact .inr ⟨schemes, rfl, .reload found, not_fails_fetched found⟩
  | serve settings request =>
      cases request with
      | health | detect _ _ | parse _ _ => exact storesSafely_of_looks (looks_program rfl) path
      | reload script =>
          obtain ⟨response, handles, rfl⟩ := path.of_map
          obtain ⟨stores, fetched, rest, reloads, answers, rfl⟩ := Program.Path.of_bind handles
          cases answers
          rw [List.append_nil]
          obtain ⟨rfl, ⟨rfl, -⟩ | ⟨schemes, rfl, found⟩⟩ := Program.path_reload reloads
          · exact .inl rfl
          · refine .inr ⟨schemes, rfl, .serve found, ?_⟩
            rw [found]
            intro fails
            cases fails

variable {operations : List Operation} {schedule : List Nat} {index : Nat}

/-- The calls of these operations on a fresh store, after a schedule. -/
def after (operations : List Operation) (schedule : List Nat) : Shared Answer :=
  (Shared.ofPrograms (operations.map program)).run schedule

theorem getElem?_calls (called : operations[index]? = some operation) :
    (Shared.ofPrograms (operations.map program)).calls[index]? = some (.due operation.program) := by
  rw [Shared.getElem?_ofPrograms, List.getElem?_map, called]
  rfl

theorem exists_operation {call : Store.Call Answer}
    (there : (after operations schedule).calls[index]? = some call) :
    ∃ operation, operations[index]? = some operation := by
  obtain ⟨bound, -⟩ := List.getElem?_eq_some_iff.mp there
  rw [after, Shared.length_calls_run, Shared.ofPrograms, List.length_map, List.length_map] at bound
  exact ⟨operations[index], List.getElem?_eq_getElem bound⟩

/-- What a call is about to store was produced in full by its operation. -/
theorem produces_of_stores {call : Store.Call Answer} {schemes : List Scheme}
    (called : operations[index]? = some operation)
    (there : (after operations schedule).calls[index]? = some call) (stores : schemes ∈ call.stores) :
    operation.Produces schemes := by
  obtain ⟨path, answer, follows, within⟩ := Shared.exists_path_through (getElem?_calls called) there
  rcases storesSafely_program follows with rfl | ⟨only, rfl, produces, -⟩
  · cases within stores
  · obtain rfl : schemes = only := by simpa using within stores
    exact produces

/-- What is stored was produced in full by an operation that has begun. -/
theorem produced_of_stored {schemes : List Scheme}
    (held : (after operations schedule).store.stored = some schemes) :
    ∃ index operation, operations[index]? = some operation ∧ index ∈ schedule ∧
      operation.Produces schemes := by
  rcases Shared.stored_of_run held with fresh | ⟨before, index, call, earlier, there, stores⟩
  · cases fresh
  · obtain ⟨operation, called⟩ := exists_operation there
    exact ⟨index, operation, called, earlier.subset (by simp), produces_of_stores called there stores⟩

/-- Under every schedule of any calls on one store, the store holds nothing or one whole collection that
    an operation produced, and never nothing again; a call that fails changes nothing; and a reading call
    is answered from one state of the store at a moment when it was under way. Done at once, a call does
    what its operation does. -/
theorem concurrent_calls_never_mix (operations : List Operation) (schedule : List Nat) :
    (∀ (operation : Operation) (store : Store), operation.program.alone store = operation.perform store) ∧
    (∀ schemes, (after operations schedule).store.stored = some schemes →
      ∃ index operation, operations[index]? = some operation ∧ index ∈ schedule ∧
        operation.Produces schemes) ∧
    (∀ later, (after operations schedule).store.stored ≠ none →
      (after operations (schedule ++ later)).store.stored ≠ none) ∧
    (∀ (index : Nat) (answer : Answer),
      (after operations schedule).calls[index]? = some (.ended answer) → answer.Fails →
      ∀ before, before ++ [index] <+: schedule →
        (after operations (before ++ [index])).store = (after operations before).store) ∧
    (∀ (index : Nat) (operation : Operation) (answer : Answer),
      operations[index]? = some operation → operation.isQuery = true →
      (after operations schedule).calls[index]? = some (.ended answer) →
      ∃ before, before <+: schedule ∧
        (∃ call, (after operations before).calls[index]? = some call ∧ call.UnderWay) ∧
        (operation.perform (after operations before).store).2 = answer) := by
  refine ⟨alone_program, ?produced, ?neverNone, ?failure, ?query⟩
  case produced =>
    intro schemes held
    exact produced_of_stored held
  case neverNone =>
    intro later held
    rw [after, Shared.run_append]
    exact Shared.stored_ne_none_run held later
  case failure =>
    intro index answer finished fails before earlier
    obtain ⟨operation, called⟩ := exists_operation finished
    apply Shared.store_step_of_ended (getElem?_calls called) finished _ earlier
    intro stores path
    rcases storesSafely_program path with nothing | ⟨_, _, _, succeeds⟩
    · exact nothing
    · exact absurd fails succeeds
  case query =>
    intro index operation answer called query finished
    exact Shared.seenUnderWay_of_looks (looks_program query) (.inl (getElem?_calls called)) finished

/-- A card number is judged, a collection is stored, and a reload is tried once and fails. -/
def overtaken : List Operation :=
  [.accepts "59", .replace [⟨"visa", "Visa", [.digits 16], [.digits 4], ""⟩],
    .reload { Fetch.Settings.standard with maxAttempts := 1 } fun _ => .lost false]

/-- The judgement begins before the collection is there and is answered from the collection. -/
theorem concurrent_calls_never_mix_overtaken_read :
    let schedule := [0, 1, 1, 0, 2, 2, 0, 2, 1]
    let visa : Scheme := ⟨"visa", "Visa", [.digits 16], [.digits 4], ""⟩
    (after overtaken schedule).calls[0]? = some (.ended (.verdict (.ok false))) ∧
    (∃ before, before <+: schedule ∧
      (∃ call, (after overtaken before).calls[0]? = some call ∧ call.UnderWay) ∧
      (perform (after overtaken before).store (.accepts "59")).2 = .verdict (.ok false)) ∧
    (after overtaken schedule).store.stored = some [visa] ∧
    (∃ (index : Nat) (operation : Operation), overtaken[index]? = some operation ∧ index ∈ schedule ∧
      operation.Produces [visa]) ∧
    (after overtaken (schedule ++ [0])).store.stored ≠ none ∧
    (after overtaken schedule).calls[2]? = some (.ended (.fetched ⟨.error (.request false), 1⟩)) ∧
    (after overtaken ([0, 1, 1, 0, 2] ++ [2])).store = (after overtaken [0, 1, 1, 0, 2]).store := by
  have judged : (after overtaken [0, 1, 1, 0, 2, 2, 0, 2, 1]).calls[0]? =
      some (.ended (.verdict (.ok false))) := by cbv
  have held : (after overtaken [0, 1, 1, 0, 2, 2, 0, 2, 1]).store.stored =
      some [⟨"visa", "Visa", [.digits 16], [.digits 4], ""⟩] := by cbv
  have failed : (after overtaken [0, 1, 1, 0, 2, 2, 0, 2, 1]).calls[2]? =
      some (.ended (.fetched ⟨.error (.request false), 1⟩)) := by cbv
  intro schedule visa
  obtain ⟨-, produced, neverNone, failure, query⟩ := concurrent_calls_never_mix overtaken schedule
  have present : (after overtaken schedule).store.stored ≠ none := by
    rw [held]
    exact Option.some_ne_none _
  exact ⟨judged, query 0 _ _ rfl rfl judged, held, produced _ held, neverNone [0] present, failed,
    failure 2 _ failed (.fetched _ _) _ ⟨[0, 2, 1], rfl⟩⟩

end Operation

end Service

end Paycard
