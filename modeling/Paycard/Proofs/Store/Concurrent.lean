import Paycard.Store.Concurrent

/-! # Runs of calls that share a store

Whatever the schedule, each call follows a path of its own program. What it stores on that path is what
the store holds after that step, and steps of other kinds change nothing. A program that looks at the
store once is answered from what the store held at one moment when the call was under way.
-/

namespace Paycard.Store

namespace Program

variable {α β : Type}

/-- A program may store these collections, one after another, and then answer this. -/
inductive Path : Program α → List (List Scheme) → α → Prop where
  | answer (value : α) : Path (.answer value) [] value
  | read {next : Option (List Scheme) → Program α} {stores : List (List Scheme)} {value : α}
      (stored : Option (List Scheme)) : Path (next stored) stores value → Path (.read next) stores value
  | write (schemes : List Scheme) {next : Program α} {stores : List (List Scheme)} {value : α} :
      Path next stores value → Path (.write schemes next) (schemes :: stores) value
  | wait {next : Program α} {stores : List (List Scheme)} {value : α} :
      Path next stores value → Path (.wait next) stores value

theorem exists_path (program : Program α) : ∃ stores value, program.Path stores value := by
  induction program with
  | answer value => exact ⟨[], value, .answer value⟩
  | read next ih =>
      obtain ⟨stores, value, path⟩ := ih none
      exact ⟨stores, value, .read none path⟩
  | write schemes next ih =>
      obtain ⟨stores, value, path⟩ := ih
      exact ⟨schemes :: stores, value, .write schemes path⟩
  | wait next ih =>
      obtain ⟨stores, value, path⟩ := ih
      exact ⟨stores, value, .wait path⟩

/-- A path through two programs in a row is a path through each. -/
theorem Path.of_bind {program : Program α} {next : α → Program β} {stores : List (List Scheme)}
    {value : β} (path : (program.bind next).Path stores value) :
    ∃ first middle rest, program.Path first middle ∧ (next middle).Path rest value ∧
      stores = first ++ rest := by
  induction program generalizing stores with
  | answer middle => exact ⟨[], middle, stores, .answer middle, path, rfl⟩
  | read read ih =>
      cases path with
      | read stored path =>
          obtain ⟨first, middle, rest, before, after, whole⟩ := ih stored path
          exact ⟨first, middle, rest, .read stored before, after, whole⟩
  | write schemes program ih =>
      cases path with
      | write schemes path =>
          obtain ⟨first, middle, rest, before, after, whole⟩ := ih path
          exact ⟨schemes :: first, middle, rest, .write schemes before, after, by rw [whole]; rfl⟩
  | wait program ih =>
      cases path with
      | wait path =>
          obtain ⟨first, middle, rest, before, after, whole⟩ := ih path
          exact ⟨first, middle, rest, .wait before, after, whole⟩

theorem Path.of_map {program : Program α} {f : α → β} {stores : List (List Scheme)} {value : β}
    (path : (f <$> program).Path stores value) : ∃ middle, program.Path stores middle ∧ f middle = value := by
  obtain ⟨first, middle, rest, before, after, whole⟩ := Path.of_bind path
  cases after
  rw [List.append_nil] at whole
  exact ⟨middle, whole ▸ before, rfl⟩

/-- A program that looks at the store once at most, and whose answer is this function of what it sees. -/
inductive Looks (f : Option (List Scheme) → α) : Program α → Prop where
  | once {next : Option (List Scheme) → Program α} :
      (∀ stored, next stored = .answer (f stored)) → Looks f (.read next)
  | never {value : α} : (∀ stored, f stored = value) → Looks f (.answer value)

end Program

variable {α : Type}

namespace Call

/-- A call may still store these collections and then be over with this answer. -/
def Path : Call α → List (List Scheme) → α → Prop
  | .due program, stores, value => program.Path stores value
  | .running rest, stores, value => rest.Path stores value
  | .ended answer, stores, value => stores = [] ∧ value = answer

/-- Whether a call has begun and is not over. -/
def UnderWay : Call α → Prop
  | .due _ => False
  | .running _ => True
  | .ended _ => False

/-- What the next step of a call stores. -/
def stores : Call α → List (List Scheme)
  | .running (.write schemes _) => [schemes]
  | _ => []

theorem stores_eq_of_mem {call : Call α} {schemes : List Scheme} (stores : schemes ∈ call.stores) :
    call.stores = [schemes] := by
  cases call with
  | due program => cases stores
  | ended answer => cases stores
  | running rest =>
      cases rest with
      | answer value => cases stores
      | read next => cases stores
      | wait next => cases stores
      | write only next =>
          obtain rfl := List.mem_singleton.mp stores
          rfl

theorem stored_step (call : Call α) (store : Store) :
    (call.step store).1.stored = call.stores.getLast?.or store.stored := by
  cases call with
  | due program => rfl
  | running rest => cases rest <;> rfl
  | ended answer => rfl

theorem path_of_step {call : Call α} {store : Store} {stores : List (List Scheme)} {value : α}
    (path : (call.step store).2.Path stores value) : call.Path (call.stores ++ stores) value := by
  cases call with
  | due program => exact path
  | ended answer => exact path
  | running rest =>
      cases rest with
      | answer answer =>
          obtain ⟨rfl, rfl⟩ := path
          exact .answer value
      | read next => exact .read _ path
      | write schemes next => exact .write schemes path
      | wait next => exact .wait path

theorem exists_path (call : Call α) : ∃ stores value, call.Path stores value := by
  cases call with
  | due program => exact program.exists_path
  | running rest => exact rest.exists_path
  | ended answer => exact ⟨[], answer, rfl, rfl⟩

end Call

namespace Shared

variable {shared : Shared α} {call : Call α} {index : Nat}

theorem run_append (before later : List Nat) :
    shared.run (before ++ later) = (shared.run before).run later := List.foldl_append

theorem run_cons (schedule : List Nat) :
    shared.run (index :: schedule) = (shared.step index).run schedule := rfl

theorem step_of_getElem? (here : shared.calls[index]? = some call) :
    shared.step index =
      ⟨(call.step shared.store).1, shared.calls.set index (call.step shared.store).2⟩ := by
  rw [step, here]

theorem step_of_none (missing : shared.calls[index]? = none) : shared.step index = shared := by
  rw [step, missing]

theorem calls_step_self (here : shared.calls[index]? = some call) :
    (shared.step index).calls[index]? = some (call.step shared.store).2 := by
  obtain ⟨bound, _⟩ := List.getElem?_eq_some_iff.mp here
  rw [step_of_getElem? here]
  exact List.getElem?_set_self bound

theorem calls_step_other {other : Nat} (different : other ≠ index) :
    (shared.step other).calls[index]? = shared.calls[index]? := by
  cases there : shared.calls[other]? with
  | none => rw [step_of_none there]
  | some call =>
      rw [step_of_getElem? there]
      exact List.getElem?_set_ne different

theorem length_calls_run (shared : Shared α) (schedule : List Nat) :
    (shared.run schedule).calls.length = shared.calls.length := by
  induction schedule generalizing shared with
  | nil => rfl
  | cons first schedule ih =>
      rw [run_cons, ih]
      cases there : shared.calls[first]? with
      | none => rw [step_of_none there]
      | some call =>
          rw [step_of_getElem? there]
          exact List.length_set

/-- Along any schedule a call goes on along a path of its own. -/
theorem path_of_run (here : shared.calls[index]? = some call) (schedule : List Nat) :
    ∃ done later, (shared.run schedule).calls[index]? = some later ∧
      ∀ stores value, later.Path stores value → call.Path (done ++ stores) value := by
  induction schedule generalizing shared call with
  | nil => exact ⟨[], call, here, fun _ _ path => path⟩
  | cons first schedule ih =>
      rw [run_cons]
      by_cases self : first = index
      · subst self
        obtain ⟨done, later, there, paths⟩ := ih (calls_step_self here)
        refine ⟨call.stores ++ done, later, there, fun stores value path => ?_⟩
        rw [List.append_assoc]
        exact Call.path_of_step (paths stores value path)
      · -- The step of another call leaves this one where it is on its path.
        rw [← calls_step_other self] at here
        exact ih here

theorem stored_step_of_getElem? (here : shared.calls[index]? = some call) :
    (shared.step index).store.stored = call.stores.getLast?.or shared.store.stored := by
  rw [step_of_getElem? here]
  exact call.stored_step shared.store

/-- After a step that stores a collection the store holds it. -/
theorem stored_of_stores {schemes : List Scheme} {before : List Nat}
    (there : (shared.run before).calls[index]? = some call) (stores : schemes ∈ call.stores) :
    (shared.run (before ++ [index])).store.stored = some schemes := by
  rw [run_append, run_cons, run, List.foldl_nil, stored_step_of_getElem? there,
    Call.stores_eq_of_mem stores]
  rfl

/-- Once a collection is stored there is always one. -/
theorem stored_ne_none_run (held : shared.store.stored ≠ none) (schedule : List Nat) :
    (shared.run schedule).store.stored ≠ none := by
  induction schedule generalizing shared with
  | nil => exact held
  | cons first schedule ih =>
      rw [run_cons]
      apply ih
      cases there : shared.calls[first]? with
      | none => rwa [step_of_none there]
      | some call =>
          rw [stored_step_of_getElem? there]
          exact fun empty => held (Option.or_eq_none_iff.mp empty).2

theorem answer_of_path (here : shared.calls[index]? = some call) {answer value : α}
    (only : ∀ stores value, call.Path stores value → value = answer) {schedule : List Nat}
    (finished : (shared.run schedule).calls[index]? = some (.ended value)) : value = answer := by
  obtain ⟨done, later, there, paths⟩ := path_of_run here schedule
  rw [finished, Option.some.injEq] at there
  subst there
  exact only _ _ (paths [] value ⟨rfl, rfl⟩)

/-- At some moment of a schedule at which a call was under way, the store held what this function takes
    to the value. -/
def SeenUnderWay (shared : Shared α) (schedule : List Nat) (index : Nat)
    (f : Option (List Scheme) → α) (value : α) : Prop :=
  ∃ before, before <+: schedule ∧
    (∃ call, (shared.run before).calls[index]? = some call ∧ call.UnderWay) ∧
    f (shared.run before).store.stored = value

theorem SeenUnderWay.cons {first : Nat} {schedule : List Nat} {f : Option (List Scheme) → α} {value : α}
    (seen : (shared.step first).SeenUnderWay schedule index f value) :
    shared.SeenUnderWay (first :: schedule) index f value := by
  obtain ⟨before, earlier, underWay, sees⟩ := seen
  exact ⟨first :: before, List.cons_prefix_cons.mpr ⟨rfl, earlier⟩, underWay, sees⟩

/-- A call that looks once is answered from one moment at which it was under way. -/
theorem seenUnderWay_of_looks {f : Option (List Scheme) → α} {program : Program α}
    (looks : program.Looks f) {schedule : List Nat} {value : α}
    (begun : shared.calls[index]? = some (.due program) ∨
      shared.calls[index]? = some (.running program))
    (finished : (shared.run schedule).calls[index]? = some (.ended value)) :
    shared.SeenUnderWay schedule index f value := by
  induction schedule generalizing shared with
  | nil =>
      -- Nothing has been done, so the call is not over.
      rcases begun with here | here
      · cases here.symm.trans finished
      · cases here.symm.trans finished
  | cons first schedule ih =>
      rw [run_cons] at finished
      by_cases self : first = index
      · subst self
        rcases begun with here | here
        · exact (ih (.inr (calls_step_self here)) finished).cons
        · refine ⟨[], List.nil_prefix, ⟨_, here, trivial⟩, ?_⟩
          have stepped := calls_step_self here
          cases looks with
          | once sees =>
              refine (answer_of_path stepped (fun stores value path => ?_) finished).symm
              rw [Call.step, sees] at path
              cases path
              rfl
          | never sees =>
              rw [sees]
              exact (answer_of_path stepped (fun stores value path => path.2) finished).symm
      · rw [← calls_step_other self] at begun
        exact (ih begun finished).cons

/-- What is stored after a run was there before it, or some call has stored it. -/
theorem stored_of_run {schemes : List Scheme} {schedule : List Nat}
    (held : (shared.run schedule).store.stored = some schemes) :
    shared.store.stored = some schemes ∨
      ∃ before index call, before ++ [index] <+: schedule ∧
        (shared.run before).calls[index]? = some call ∧ schemes ∈ call.stores := by
  induction schedule generalizing shared with
  | nil => exact .inl held
  | cons first schedule ih =>
      rw [run_cons] at held
      rcases ih held with atOnce | ⟨before, index, call, earlier, there, stores⟩
      · cases there : shared.calls[first]? with
        | none =>
            rw [step_of_none there] at atOnce
            exact .inl atOnce
        | some call =>
            rw [stored_step_of_getElem? there] at atOnce
            rcases Option.or_eq_some_iff.mp atOnce with stored | ⟨-, unchanged⟩
            · right
              exact ⟨[], first, call, List.cons_prefix_cons.mpr ⟨rfl, List.nil_prefix⟩, there,
                List.mem_of_getLast? stored⟩
            · exact .inl unchanged
      · right
        exact ⟨first :: before, index, call, List.cons_prefix_cons.mpr ⟨rfl, earlier⟩, there, stores⟩

/-- What a call stores at a step is on every path that it follows to its answer. -/
theorem exists_path_through {before : List Nat} {first later : Call α}
    (here : shared.calls[index]? = some first)
    (there : (shared.run before).calls[index]? = some later) :
    ∃ stores value, first.Path stores value ∧ later.stores ⊆ stores := by
  obtain ⟨done, same, found, paths⟩ := path_of_run here before
  rw [there, Option.some.injEq] at found
  subst found
  obtain ⟨rest, value, path⟩ := (later.step {}).2.exists_path
  refine ⟨_, value, paths _ value (Call.path_of_step path), ?_⟩
  intro schemes member
  simp [member]

/-- A call whose program begins with a look has looked before it stores anything. -/
theorem exists_look {next : Option (List Scheme) → Program α} {schedule : List Nat}
    {schemes : List Scheme}
    (begun : shared.calls[index]? = some (.due (.read next)) ∨
      shared.calls[index]? = some (.running (.read next)))
    (there : (shared.run schedule).calls[index]? = some call) (stores : schemes ∈ call.stores) :
    ∃ early later, schedule = early ++ index :: later ∧
      (shared.run early).calls[index]? = some (.running (.read next)) := by
  induction schedule generalizing shared with
  | nil =>
      rcases begun with here | here
      · cases there.symm.trans here
        cases stores
      · cases there.symm.trans here
        cases stores
  | cons first schedule ih =>
      rw [run_cons] at there
      by_cases self : first = index
      · subst self
        rcases begun with here | here
        · -- The first step of a call only begins it.
          obtain ⟨early, later, rfl, looks⟩ := ih (.inr (calls_step_self here)) there
          exact ⟨first :: early, later, rfl, looks⟩
        · exact ⟨[], schedule, rfl, here⟩
      · rw [← calls_step_other self] at begun
        obtain ⟨early, later, rfl, looks⟩ := ih begun there
        exact ⟨first :: early, later, rfl, looks⟩

/-- A call that stores one collection at most does not store at two of its steps. -/
theorem stores_once {first second : Call α} {early later : List Nat}
    (here : shared.calls[index]? = some call)
    (single : ∀ stores value, call.Path stores value → stores.length ≤ 1)
    (there : (shared.run early).calls[index]? = some first)
    (again : (shared.run (early ++ index :: later)).calls[index]? = some second) :
    first.stores = [] ∨ second.stores = [] := by
  rw [run_append, run_cons] at again
  obtain ⟨done, _, found, paths⟩ := path_of_run here early
  cases there.symm.trans found
  obtain ⟨between, _, found, morePaths⟩ := path_of_run (calls_step_self there) later
  cases again.symm.trans found
  obtain ⟨rest, value, path⟩ := (second.step {}).2.exists_path
  have whole := single _ value
    (paths _ value (Call.path_of_step (morePaths _ value (Call.path_of_step path))))
  simp only [List.length_append] at whole
  rw [← List.length_eq_zero_iff, ← List.length_eq_zero_iff]
  omega

/-- A call that is over with an answer before which its program stores nothing has changed nothing. -/
theorem store_step_of_ended {call : Call α} {schedule before : List Nat} {value : α}
    (here : shared.calls[index]? = some call)
    (finished : (shared.run schedule).calls[index]? = some (.ended value))
    (quiet : ∀ stores, call.Path stores value → stores = [])
    (earlier : before ++ [index] <+: schedule) :
    (shared.run (before ++ [index])).store = (shared.run before).store := by
  obtain ⟨later, rfl⟩ := earlier
  obtain ⟨done, middle, there, paths⟩ := path_of_run here before
  rw [run_append, run_append] at finished
  rw [run_append]
  obtain ⟨rest, last, ended, more⟩ := path_of_run (calls_step_self there) later
  rw [show (shared.run before).run [index] = (shared.run before).step index from rfl] at finished ⊢
  rw [finished, Option.some.injEq] at ended
  subst ended
  -- The way to the answer leads through this step, so the step stores nothing either.
  have path := paths _ value (Call.path_of_step (more [] value ⟨rfl, rfl⟩))
  have nothing : middle.stores = [] := by
    have := quiet _ path
    simp only [List.append_eq_nil_iff] at this
    exact this.2.1
  have stored := stored_step_of_getElem? there
  rw [nothing] at stored
  exact congrArg Store.mk stored

theorem getElem?_ofPrograms (programs : List (Program α)) (index : Nat) :
    (ofPrograms programs).calls[index]? = programs[index]?.map .due := List.getElem?_map

end Shared

end Paycard.Store
