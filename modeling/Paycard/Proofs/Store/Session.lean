import Paycard.Proofs.Fetch.Retry
import Paycard.Store.Session

/-! # What a session holds

A run is judged by its steps and their answers. What was stored last, by a replacement or by a load or
reload that went out for it, is what the store holds and what it answers from. Nothing else changes the
store, and no step changes a snapshot that was taken before it.
-/

namespace Paycard

namespace Store

variable {store : Store} {settings : Fetch.Settings} {script : Script}

theorem hasRules_iff : store.hasRules = true ↔ store.schemes ≠ [] := by
  simp [hasRules]

theorem schemes_ne_nil_iff :
    store.schemes ≠ [] ↔ ∃ schemes, store.stored = some schemes ∧ schemes ≠ [] := by
  rw [schemes]
  cases store.stored with
  | none => simp
  | some schemes => simp

theorem reload_of_ok {schemes : List Scheme} (fetched : (script.fetch settings).result = .ok schemes) :
    store.reload settings script = (⟨some schemes⟩, script.fetch settings) := by
  simp [reload, absorb, fetched, replace]

theorem reload_of_error {e : FetchError} (failed : (script.fetch settings).result = .error e) :
    store.reload settings script = (store, script.fetch settings) := by
  simp [reload, absorb, failed]

theorem load_of_schemes (rules : store.schemes ≠ []) :
    store.load settings script = (store, ⟨.ok store.schemes, 0⟩) := by
  rw [load, if_pos (hasRules_iff.mpr rules)]

theorem load_of_nil (noRules : store.schemes = []) :
    store.load settings script = store.reload settings script := by
  rw [load, if_neg]
  rw [hasRules_iff]
  exact fun rules => rules noRules

end Store

namespace Session

/-- Whether a step only looks at the store or at a snapshot. -/
def Step.isRead : Step → Bool
  | .isLoaded | .get | .detect _ | .assess _ | .accepts _ | .readSnapshot _ => true
  | .replace _ | .snapshot | .load _ _ | .reload _ _ => false

/-- A step with its answer. -/
structure Event where
  step : Step
  answer : Answer

/-- The collection that a step stored, going by its answer. A load that made no request has stored
    nothing. -/
def Event.stored? : Event → Option (List Scheme)
  | ⟨.replace schemes, _⟩ => some schemes
  | ⟨.load _ _, .fetched ⟨.ok schemes, requests⟩⟩ => if requests = 0 then none else some schemes
  | ⟨.reload _ _, .fetched ⟨.ok schemes, requests⟩⟩ => if requests = 0 then none else some schemes
  | _ => none

/-- The session after some steps. -/
def after (session : Session) (steps : List Step) : Session := (session.run steps).1

/-- The steps of a run with their answers. -/
def log (session : Session) (steps : List Step) : List Event :=
  List.zipWith Event.mk steps (session.run steps).2

/-- The collection that was stored last. -/
def lastStored (events : List Event) : Option (List Scheme) :=
  (events.filterMap Event.stored?).getLast?

variable {session : Session}

/-! ## Single steps -/

theorem step_load_of_schemes {settings : Fetch.Settings} {script : Script}
    (rules : session.store.schemes ≠ []) :
    session.step (.load settings script) = (session, .fetched ⟨.ok session.store.schemes, 0⟩) := by
  rw [step, Store.load_of_schemes rules]

theorem step_load_of_nil {settings : Fetch.Settings} {script : Script}
    (noRules : session.store.schemes = []) :
    session.step (.load settings script) = session.step (.reload settings script) := by
  rw [step, Store.load_of_nil noRules, step]

theorem step_reload_of_ok {settings : Fetch.Settings} {script : Script} {schemes : List Scheme}
    (fetched : (script.fetch settings).result = .ok schemes) :
    session.step (.reload settings script) =
      ({ session with store := ⟨some schemes⟩ }, .fetched (script.fetch settings)) := by
  simp only [step, Store.reload_of_ok fetched]

theorem step_reload_of_error {settings : Fetch.Settings} {script : Script} {e : FetchError}
    (failed : (script.fetch settings).result = .error e) :
    session.step (.reload settings script) = (session, .fetched (script.fetch settings)) := by
  simp only [step, Store.reload_of_error failed]

theorem stored?_of_ok {settings : Fetch.Settings} {script : Script} {fetched : Fetched}
    {schemes : List Scheme} (found : fetched.result = .ok schemes) (asked : 0 < fetched.requests) :
    Event.stored? ⟨.reload settings script, .fetched fetched⟩ = some schemes := by
  obtain ⟨result, requests⟩ := fetched
  subst found
  simp only [Event.stored?]
  exact if_neg (Nat.pos_iff_ne_zero.mp asked)

theorem stored?_of_error {settings : Fetch.Settings} {script : Script} {fetched : Fetched}
    {e : FetchError} (failed : fetched.result = .error e) :
    Event.stored? ⟨.reload settings script, .fetched fetched⟩ = none := by
  obtain ⟨result, requests⟩ := fetched
  subst failed
  rfl

theorem stored?_load (settings : Fetch.Settings) (script : Script) (answer : Answer) :
    Event.stored? ⟨.load settings script, answer⟩ =
      Event.stored? ⟨.reload settings script, answer⟩ := by
  cases answer with
  | fetched fetched =>
      obtain ⟨result, requests⟩ := fetched
      cases result with
      | ok schemes => rfl
      | error e => rfl
  | _ => rfl

theorem stored_reload (settings : Fetch.Settings) (script : Script) :
    (session.step (.reload settings script)).1.store.stored =
      (Event.stored? ⟨.reload settings script, (session.step (.reload settings script)).2⟩).or
        session.store.stored := by
  cases result : (script.fetch settings).result with
  | ok schemes =>
      rw [step_reload_of_ok result, stored?_of_ok result (script.requests_fetch_pos settings)]
      rfl
  | error e =>
      rw [step_reload_of_error result, stored?_of_error result]
      rfl

/-- A step stores what its answer says, or leaves what is stored. -/
theorem stored_step (session : Session) (step : Step) :
    (session.step step).1.store.stored =
      (Event.stored? ⟨step, (session.step step).2⟩).or session.store.stored := by
  cases step with
  | load settings script =>
      rw [stored?_load]
      by_cases rules : session.store.schemes = []
      · rw [step_load_of_nil rules]
        exact stored_reload settings script
      · rw [step_load_of_schemes rules]
        rfl
  | reload settings script => exact stored_reload settings script
  | _ => rfl

theorem step_of_isRead {step : Step} (read : step.isRead = true) : (session.step step).1 = session := by
  cases step with
  | isLoaded | get | detect _ | assess _ | accepts _ | readSnapshot _ => rfl
  | replace _ | snapshot | load _ _ | reload _ _ => cases read

theorem step_of_error {step : Step} {e : FetchError} {requests : Nat}
    (failed : (session.step step).2 = .fetched ⟨.error e, requests⟩) :
    (session.step step).1 = session := by
  have reload {settings : Fetch.Settings} {script : Script}
      (failed : (session.step (.reload settings script)).2 = .fetched ⟨.error e, requests⟩) :
      (session.step (.reload settings script)).1 = session := by
    cases result : (script.fetch settings).result with
    | ok schemes =>
        rw [step_reload_of_ok result, Answer.fetched.injEq] at failed
        rw [failed] at result
        cases result
    | error e => rw [step_reload_of_error result]
  cases step with
  | load settings script =>
      by_cases rules : session.store.schemes = []
      · rw [step_load_of_nil rules] at failed ⊢
        exact reload failed
      · rw [step_load_of_schemes rules]
  | reload settings script => exact reload failed
  | isLoaded | get | detect _ | assess _ | accepts _ | readSnapshot _ => rfl
  | replace _ | snapshot => cases failed

theorem snapshots_step (session : Session) (step : Step) :
    session.snapshots <+: (session.step step).1.snapshots := by
  cases step with
  | snapshot => exact List.prefix_append _ _
  | _ => exact List.prefix_rfl

/-! ## Runs -/

theorem after_cons (step : Step) (steps : List Step) :
    session.after (step :: steps) = (session.step step).1.after steps := rfl

theorem log_cons (step : Step) (steps : List Step) :
    session.log (step :: steps) = ⟨step, (session.step step).2⟩ :: (session.step step).1.log steps := rfl

theorem after_append (before later : List Step) :
    session.after (before ++ later) = (session.after before).after later := by
  induction before generalizing session with
  | nil => rfl
  | cons step before ih => rw [List.cons_append, after_cons, after_cons, ih]

theorem answer_at (before later : List Step) (step : Step) :
    (session.run (before ++ step :: later)).2[before.length]? =
      some ((session.after before).step step).2 := by
  induction before generalizing session with
  | nil => rfl
  | cons first before ih =>
      rw [after_cons]
      exact ih

theorem lastStored_cons (event : Event) (events : List Event) :
    lastStored (event :: events) = (lastStored events).or event.stored? := by
  rw [lastStored, List.filterMap_cons, lastStored]
  cases event.stored? with
  | none => rw [Option.or_none]
  | some schemes =>
      rw [List.getLast?_cons]
      cases (List.filterMap Event.stored? events).getLast? with
      | none => rfl
      | some last => rfl

/-- A run stores what was stored last according to its log. -/
theorem stored_after (session : Session) (steps : List Step) :
    (session.after steps).store.stored = (lastStored (session.log steps)).or session.store.stored := by
  -- On the steps, for every session to start from: what later steps store hides what the first one did.
  induction steps generalizing session with
  | nil => rfl
  | cons step steps ih =>
      rw [after_cons, log_cons, ih, lastStored_cons, stored_step, Option.or_assoc]

theorem snapshots_after (session : Session) (steps : List Step) :
    session.snapshots <+: (session.after steps).snapshots := by
  induction steps generalizing session with
  | nil => exact List.prefix_rfl
  | cons step steps ih =>
      rw [after_cons]
      exact (snapshots_step session step).trans (ih (session.step step).1)

/-! ## What a run leaves -/

/-- A session that answers from one stored collection, or from nothing stored. -/
structure AnswersFrom (session : Session) (stored : Option (List Scheme)) : Prop where
  get : (session.step .get).2 = .collection stored
  isLoaded : (session.step .isLoaded).2 = .flag stored.isSome
  detect (card : String) :
    (session.step (.detect card)).2 = .scheme (Paycard.detect? (stored.getD []) card)
  assess (card : String) :
    (session.step (.assess card)).2 = .assessment (Paycard.assess (stored.getD []) card)
  accepts (card : String) :
    (session.step (.accepts card)).2 = .verdict
      ((·.isAcceptable (!(stored.getD []).isEmpty)) <$> Paycard.assess (stored.getD []) card)

theorem answersFrom (session : Session) : session.AnswersFrom session.store.stored where
  get := rfl
  isLoaded := rfl
  detect _ := rfl
  assess _ := rfl
  accepts _ := rfl

/-- A session in which a load goes out for a collection only if none or an empty one is stored. -/
structure LoadsOnce (session : Session) (stored : Option (List Scheme)) : Prop where
  answers_stored_iff (settings : Fetch.Settings) (script : Script) :
    (∃ schemes, stored = some schemes ∧
      (session.step (.load settings script)).2 = .fetched ⟨.ok schemes, 0⟩) ↔
      ∃ schemes, stored = some schemes ∧ schemes ≠ []
  keeps (settings : Fetch.Settings) (script : Script) {schemes : List Scheme} :
    stored = some schemes → schemes ≠ [] →
      session.step (.load settings script) = (session, .fetched ⟨.ok schemes, 0⟩)
  reloads (settings : Fetch.Settings) (script : Script) :
    (∀ schemes, stored = some schemes → schemes = []) →
      session.step (.load settings script) = session.step (.reload settings script)

theorem requests_reload_pos {settings : Fetch.Settings} {script : Script} {fetched : Fetched}
    (answered : (session.step (.reload settings script)).2 = .fetched fetched) :
    0 < fetched.requests := by
  have same : script.fetch settings = fetched := Answer.fetched.inj answered
  exact same ▸ script.requests_fetch_pos settings

theorem loadsOnce (session : Session) : session.LoadsOnce session.store.stored where
  keeps settings script {schemes} stored rules := by
    have held : session.store.schemes = schemes := by rw [Store.schemes, stored]; rfl
    rw [step_load_of_schemes (held ▸ rules), held]
  reloads settings script noRules := by
    apply step_load_of_nil
    rw [Store.schemes]
    cases stored : session.store.stored with
    | none => rfl
    | some schemes => exact noRules schemes stored
  answers_stored_iff settings script := by
    rw [← Store.schemes_ne_nil_iff]
    constructor
    · intro ⟨schemes, _, answered⟩ noRules
      rw [step_load_of_nil noRules] at answered
      exact absurd (requests_reload_pos answered) (Nat.lt_irrefl 0)
    · intro rules
      obtain ⟨schemes, stored, _⟩ := Store.schemes_ne_nil_iff.mp rules
      have held : session.store.schemes = schemes := by rw [Store.schemes, stored]; rfl
      refine ⟨schemes, stored, ?_⟩
      rw [step_load_of_schemes rules, held]

theorem stored_of_fetched {step : Step} {schemes : List Scheme} {requests : Nat}
    (found : (session.step step).2 = .fetched ⟨.ok schemes, requests⟩) (asked : 0 < requests) :
    (session.step step).1.store.stored = some schemes := by
  rw [stored_step, found]
  cases step with
  | load settings script => rw [stored?_load, stored?_of_ok rfl asked, Option.some_or]
  | reload settings script => rw [stored?_of_ok rfl asked, Option.some_or]
  | _ => cases found

theorem stored_of_fresh (steps : List Step) :
    (after {} steps).store.stored = lastStored (log {} steps) := by
  rw [stored_after, Option.or_none]

theorem lastStored_eq_none_iff {events : List Event} :
    lastStored events = none ↔ ∀ event ∈ events, event.stored? = none := by
  rw [lastStored, List.getLast?_eq_none_iff, List.filterMap_eq_nil_iff]

theorem stored_ne_none_after {before : List Step} (later : List Step)
    (held : (session.after before).store.stored ≠ none) :
    (session.after (before ++ later)).store.stored ≠ none := by
  rw [after_append, stored_after]
  exact fun empty => held (Option.or_eq_none_iff.mp empty).2

/-- A snapshot is read as what was stored when it was taken. -/
theorem readSnapshot_after (before later : List Step) :
    ((session.after (before ++ .snapshot :: later)).step
      (.readSnapshot (session.after before).snapshots.length)).2 =
      .collection (session.after before).store.stored := by
  obtain ⟨newer, kept⟩ := snapshots_after ((session.after before).step .snapshot).1 later
  rw [after_append, after_cons]
  simp only [step] at kept ⊢
  rw [← kept]
  simp

/-- After any steps the store holds what was stored last, and answers from it. Reads and failures leave the
    session as it was, a load goes out only when there are no rules, what a fetch brings is stored, and
    snapshots stay. -/
theorem run_holds_last_stored (before : List Step) :
    let session := after {} before
    let last := lastStored (log {} before)
    session.store.stored = last ∧
    (session.store.stored = none ↔ ∀ event ∈ log {} before, event.stored? = none) ∧
    (∀ later, session.store.stored ≠ none → (after {} (before ++ later)).store.stored ≠ none) ∧
    session.AnswersFrom last ∧ session.LoadsOnce last ∧
    (∀ step later, (run {} (before ++ step :: later)).2[before.length]? = some (session.step step).2 ∧
      after {} (before ++ step :: later) = (session.step step).1.after later) ∧
    (∀ step, step.isRead = true → (session.step step).1 = session) ∧
    (∀ step e requests, (session.step step).2 = .fetched ⟨.error e, requests⟩ →
      (session.step step).1 = session) ∧
    (∀ step found requests, (session.step step).2 = .fetched ⟨.ok found, requests⟩ → 0 < requests →
      (session.step step).1.store.stored = some found) ∧
    (∀ later, session.snapshots <+: (after {} (before ++ later)).snapshots) ∧
    (∀ later, ((after {} (before ++ .snapshot :: later)).step
      (.readSnapshot session.snapshots.length)).2 = .collection last) := by
  intro session last
  have holds : session.store.stored = last := stored_of_fresh before
  refine ⟨holds, ?noneStored, ?neverNone, holds ▸ answersFrom session, holds ▸ loadsOnce session,
    ?steps, ?reads, ?failures, ?fetched, ?snapshots, ?readSnapshot⟩
  case noneStored =>
    rw [holds]
    exact lastStored_eq_none_iff
  case neverNone =>
    intro later held
    exact stored_ne_none_after later held
  case steps =>
    intro step later
    exact ⟨answer_at before later step, by rw [after_append, after_cons]⟩
  case reads =>
    intro step read
    exact step_of_isRead read
  case failures =>
    intro step e requests failed
    exact step_of_error failed
  case fetched =>
    intro step found requests fetched asked
    exact stored_of_fetched fetched asked
  case snapshots =>
    intro later
    rw [after_append]
    exact snapshots_after session later
  case readSnapshot =>
    intro later
    rw [← holds]
    exact readSnapshot_after before later

/-- An empty collection is stored after a full one: a failing load leaves it, a successful load fetches
    again, and the snapshot of the full one stays. -/
theorem run_holds_last_stored_empty_collection :
    let visa : Scheme := ⟨"visa", "Visa", [.digits 16], [.digits 4], ""⟩
    let before : List Step := [.replace [visa], .snapshot, .replace []]
    let standard := Fetch.Settings.standard
    let served : Script := fun _ => .answer 200 "\x7b\"data\":[]\x7d" true
    let silent : Script := fun _ => .lost false
    let session := after {} before
    (after {} (before ++ [.load standard silent])).store.stored ≠ none ∧
    (session.step (.load standard silent)).2 = .fetched ⟨.error (.request false), 3⟩ ∧
    (session.step (.load standard silent)).1 = session ∧
    (session.step (.load standard served)).2 = .fetched ⟨.ok [], 1⟩ ∧
    (session.step (.load standard served)).1.store.stored = some [] ∧
    (session.step (.accepts "59")).1 = session ∧
    (after {} [.replace [visa]]).step (.load standard silent) =
      (after {} [.replace [visa]], .fetched ⟨.ok [visa], 0⟩) ∧
    ((after {} ([.replace [visa]] ++ .snapshot :: [.replace []])).step (.readSnapshot 0)).2 =
      .collection (some [visa]) := by
  intro visa before standard served silent session
  obtain ⟨-, -, neverNone, -, loads, -, reads, failures, fetched, -⟩ := run_holds_last_stored before
  obtain ⟨-, -, -, -, loadsFull, -, -, -, -, -, readSnapshot⟩ := run_holds_last_stored [.replace [visa]]
  have failed : (session.step (.load standard silent)).2 = .fetched ⟨.error (.request false), 3⟩ := rfl
  have read : Dictionary.ofText "\x7b\"data\":[]\x7d" = .ok [] := by cbv
  have brings : (served 0).Brings [] := .answer (by decide) (by decide) read
  have found : (session.step (.load standard served)).2 = .fetched ⟨.ok [], 1⟩ := by
    rw [loads.reloads standard served fun schemes stored => (Option.some.inj stored).symm]
    show Answer.fetched (served.fetch standard) = _
    rw [Script.fetch_of_first (by decide) brings (by omega)]
  exact ⟨neverNone _ (by decide), failed, failures _ _ _ failed, found,
    fetched _ _ _ found (by decide), reads _ rfl, loadsFull.keeps _ _ rfl (by decide), readSnapshot _⟩

end Session

end Paycard
