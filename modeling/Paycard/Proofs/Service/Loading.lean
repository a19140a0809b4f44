import Paycard.Proofs.Service.Concurrent

/-! # Loads that overlap

A load looks whether there are rules, waits for the replies to its attempts and then stores what they
bring, without a second look. So it can put its collection in the place of rules, but only of rules that
another call stored after the look.
-/

namespace Paycard

namespace Store.Program

variable {settings : Fetch.Settings} {script : Script}

/-- What a load does after its look at the store. -/
def afterLook (settings : Fetch.Settings) (script : Script) (stored : Option (List Scheme)) :
    Program Fetched :=
  match stored.filter (!·.isEmpty) with
  | some schemes => .answer ⟨.ok schemes, 0⟩
  | none => reload settings script

/-- A load that has seen rules stores nothing. -/
theorem stores_afterLook {store : Store} {stores : List (List Scheme)} {fetched : Fetched}
    (rules : store.hasRules = true)
    (path : (afterLook settings script store.stored).Path stores fetched) : stores = [] := by
  obtain ⟨stored⟩ := store
  cases stored with
  | none => cases rules
  | some schemes =>
      cases schemes with
      | nil => cases rules
      | cons scheme schemes =>
          cases path
          rfl

end Store.Program

namespace Service.Operation

open Store (Program Shared)

variable {operations : List Operation} {early later before : List Nat} {index : Nat}
  {settings : Fetch.Settings} {script : Script} {call : Store.Call Answer}
  {schemes rules : List Scheme}

theorem program_load : (Operation.load settings script).program =
    .read fun stored => Answer.fetched <$> Program.afterLook settings script stored := rfl

/-- After this schedule the next step of a call is the look of a load. -/
def AboutToLook (operations : List Operation) (early : List Nat) (index : Nat)
    (settings : Fetch.Settings) (script : Script) : Prop :=
  (after operations early).calls[index]? = some (.running (Operation.load settings script).program)

/-- After the look of a call at `early`, and no later than the end of `later`, another call stored these
    rules. -/
def Overtaken (operations : List Operation) (early later : List Nat) (index : Nat)
    (rules : List Scheme) : Prop :=
  ∃ between other operation, between ++ [other] <+: later ∧ other ≠ index ∧
    operations[other]? = some operation ∧ operation.Produces rules ∧
    (after operations (early ++ index :: (between ++ [other]))).store.stored = some rules

theorem exists_aboutToLook (called : operations[index]? = some (.load settings script))
    (there : (after operations before).calls[index]? = some call) (stores : schemes ∈ call.stores) :
    ∃ early later, before = early ++ index :: later ∧
      AboutToLook operations early index settings script := by
  have due := getElem?_calls called
  rw [program_load] at due
  simp only [AboutToLook, program_load]
  exact Shared.exists_look (.inl due) there stores

/-- The look of a load that stores found no rules. -/
theorem hasRules_eq_false_of_aboutToLook (looks : AboutToLook operations early index settings script)
    (there : (after operations (early ++ index :: later)).calls[index]? = some call)
    (stores : schemes ∈ call.stores) : (after operations early).store.hasRules = false := by
  rw [AboutToLook, program_load] at looks
  rw [after, Shared.run_append, Shared.run_cons] at there
  obtain ⟨path, answer, follows, within⟩ :=
    Shared.exists_path_through (Shared.calls_step_self looks) there
  obtain ⟨fetched, goesOn, -⟩ := Program.Path.of_map follows
  by_contra rules
  obtain rfl := Program.stores_afterLook (Bool.eq_true_of_not_eq_false rules) goesOn
  cases within stores

/-- The look of a load leaves the store alone. -/
theorem store_of_aboutToLook (looks : AboutToLook operations early index settings script) :
    ((after operations early).step index).store = (after operations early).store := by
  rw [AboutToLook, program_load] at looks
  rw [Shared.step_of_getElem? looks]
  rfl

/-- No operation stores twice. -/
theorem length_stores_le_one {operation : Operation} {stores : List (List Scheme)} {answer : Answer}
    (path : operation.program.Path stores answer) : stores.length ≤ 1 := by
  rcases storesSafely_program path with rfl | ⟨only, rfl, -⟩
  · exact Nat.zero_le 1
  · exact Nat.le_refl 1

theorem overtaken_of_held (called : operations[index]? = some (.load settings script))
    (looks : AboutToLook operations early index settings script)
    (there : (after operations (early ++ index :: later)).calls[index]? = some call)
    (stores : schemes ∈ call.stores)
    (held : (after operations (early ++ index :: later)).store.stored = some rules)
    (nonempty : rules ≠ []) : Overtaken operations early later index rules := by
  have seen := hasRules_eq_false_of_aboutToLook looks there stores
  have split (schedule : List Nat) : after operations (early ++ index :: schedule) =
      ((after operations early).step index).run schedule := by
    rw [after, Shared.run_append, Shared.run_cons, after]
  rw [split] at held
  rcases Shared.stored_of_run held with unchanged | ⟨between, other, first, earlier, found, brings⟩
  · -- The rules would have been there at the look already.
    rw [store_of_aboutToLook looks] at unchanged
    rw [Store.hasRules_eq_any, unchanged] at seen
    simp [nonempty] at seen
  · rw [← split] at found
    obtain ⟨operation, calledOther⟩ := exists_operation found
    refine ⟨between, other, operation, earlier, ?_, calledOther,
      produces_of_stores calledOther found brings, ?_⟩
    · rintro rfl
      -- Both this store and the one at hand would be the load's own.
      obtain ⟨rest, rfl⟩ := earlier
      rw [List.append_assoc, ← List.cons_append, ← List.append_assoc] at there
      rcases Shared.stores_once (getElem?_calls called) (fun _ _ => length_stores_le_one) found there
        with nothing | nothing
      · rw [nothing] at brings
        cases brings
      · rw [nothing] at stores
        cases stores
    · have stored := Shared.stored_of_stores found brings
      rwa [List.append_assoc, List.cons_append] at stored

/-- A load that stores something has looked before and found no rules. What it stores is what its attempts
    brought, and if that takes the place of rules, then another call stored these after the look. -/
theorem load_overwrites_only_when_overtaken
    (called : operations[index]? = some (.load settings script))
    (there : (after operations before).calls[index]? = some call) (stores : schemes ∈ call.stores) :
    (script.fetch settings).result = .ok schemes ∧
    (after operations (before ++ [index])).store.stored = some schemes ∧
    ∃ early later, before = early ++ index :: later ∧
      AboutToLook operations early index settings script ∧
      (after operations early).store.hasRules = false ∧
      ∀ rules, (after operations before).store.stored = some rules → rules ≠ [] →
        Overtaken operations early later index rules := by
  obtain ⟨early, later, rfl, looks⟩ := exists_aboutToLook called there stores
  refine ⟨?brought, Shared.stored_of_stores there stores, early, later, rfl, looks,
    hasRules_eq_false_of_aboutToLook looks there stores, ?overtaken⟩
  case brought =>
    cases produces_of_stores called there stores with
    | load brought => exact brought
  case overtaken =>
    intro rules held nonempty
    exact overtaken_of_held called looks there stores held nonempty

/-- Every attempt is answered with a dictionary of one entry. -/
def serving (entry : String) : Script :=
  fun _ => .answer 200 ("\x7b\"data\":[\x7b" ++ entry ++ "\x7d]\x7d") true

/-- Two loads on a fresh store whose dictionaries differ. -/
def overlapping : List Operation :=
  [.load Fetch.Settings.standard
      (serving "\"id\":\"visa\",\"name\":\"Visa\",\"ranges\":\"4\",\"length\":\"16\""),
    .load Fetch.Settings.standard
      (serving "\"id\":\"amex\",\"name\":\"Amex\",\"ranges\":\"37\",\"length\":\"15\"")]

/-- Both loads look at the fresh store before either stores, and the second stores first. -/
def overlap : List Nat := [0, 0, 1, 1, 1, 1, 0]

theorem overlapping_about_to_store :
    (∃ call, (after overlapping overlap).calls[0]? = some call ∧
      [⟨"visa", "Visa", [.digits 16], [.digits 4], ""⟩] ∈ call.stores) ∧
    (after overlapping overlap).store.stored =
      some [⟨"amex", "Amex", [.digits 15], [.digits 37], ""⟩] := by
  have stores : (after overlapping overlap).calls[0]?.map Store.Call.stores =
      some [[⟨"visa", "Visa", [.digits 16], [.digits 4], ""⟩]] := by cbv
  have stored : (after overlapping overlap).store.stored =
      some [⟨"amex", "Amex", [.digits 15], [.digits 37], ""⟩] := by cbv
  obtain ⟨call, there, visa⟩ := Option.map_eq_some_iff.mp stores
  exact ⟨⟨call, there, visa ▸ List.mem_singleton_self _⟩, stored⟩

/-- The first load stores its collection in the place of the one that the second has loaded. -/
theorem load_overwrites_only_when_overtaken_by_second_load :
    let visa : List Scheme := [⟨"visa", "Visa", [.digits 16], [.digits 4], ""⟩]
    let amex : List Scheme := [⟨"amex", "Amex", [.digits 15], [.digits 37], ""⟩]
    (∃ call, (after overlapping overlap).calls[0]? = some call ∧ visa ∈ call.stores) ∧
    (after overlapping overlap).store.stored = some amex ∧
    (after overlapping (overlap ++ [0])).store.stored = some visa ∧
    ∃ early later, overlap = early ++ 0 :: later ∧ (after overlapping early).store.hasRules = false ∧
      Overtaken overlapping early later 0 amex := by
  intro visa amex
  obtain ⟨⟨call, there, stores⟩, held⟩ := overlapping_about_to_store
  obtain ⟨-, stored, early, later, split, -, noRules, overtaken⟩ :=
    load_overwrites_only_when_overtaken rfl there stores
  exact ⟨⟨call, there, stores⟩, held, stored, early, later, split, noRules,
    overtaken amex held (List.cons_ne_nil _ _)⟩

/-- So it is not true that a load never overwrites rules. -/
theorem overlapping_load_overwrites_rules :
    ¬ ∀ (operations : List Operation) (before : List Nat) (index : Nat) (settings : Fetch.Settings)
        (script : Script) (call : Store.Call Answer) (schemes rules : List Scheme),
      operations[index]? = some (.load settings script) →
      (after operations before).calls[index]? = some call → schemes ∈ call.stores →
      (after operations before).store.stored = some rules → rules = [] := by
  intro keeps
  obtain ⟨⟨call, there, stores⟩, held⟩ := overlapping_about_to_store
  exact List.cons_ne_nil _ _ (keeps overlapping overlap 0 _ _ call _ _ rfl there stores held)

end Service.Operation

end Paycard
