import Paycard.Proofs.Fetch.Retry
import Paycard.Proofs.Service.Answer
import Paycard.Proofs.Service.Body
import Paycard.Proofs.Store.Session
import Paycard.Service.Startup

/-! # Serving from the last good dictionary

A server needs to remember one collection: the one of the last reload that succeeded, or of the load at the
start. `Serves` says what such a server answers, and what it remembers then. The server answers every run
of requests in this way, and a request that it turns down or cannot fulfil might as well not have come.
-/

namespace Paycard.Service

/-- The collection that a request brings, if it is a reload that succeeds. -/
def Request.brings? (settings : Fetch.Settings) : Request → Option (List Scheme)
  | .reload replies => (replies.fetch settings).result.toOption
  | .health | .detect _ _ | .parse _ _ => none

/-- The collection of the last request that brought one, or the one from before all requests. -/
def lastGood (settings : Fetch.Settings) (initial : List Scheme) (requests : List Request) : List Scheme :=
  (requests.filterMap (Request.brings? settings)).getLast?.getD initial

/-- A script whose first dictionary among the allowed replies is in the one after `made` others. -/
structure Finds (settings : Fetch.Settings) (replies : Script) (made : Nat) (schemes : List Scheme) : Prop where
  allowed : made < max 1 settings.maxAttempts.toNat
  brings : (replies made).Brings schemes
  first : ∀ earlier < made, ∀ other, ¬ (replies earlier).Brings other

/-- A script without a dictionary in the allowed replies. The last of them lacks one for this reason. -/
structure Misses (settings : Fetch.Settings) (replies : Script) (e : FetchError) : Prop where
  none : ∀ made < max 1 settings.maxAttempts.toNat, ∀ other, ¬ (replies made).Brings other
  last : (replies (max 1 settings.maxAttempts.toNat - 1)).Lacks e

/-- A 64-bit integer is the size of a collection, which can always be counted with one. -/
def Numbers (n : UInt64) (schemes : List Scheme) : Prop :=
  schemes.length < UInt64.size → n.toNat = schemes.length

/-- What a server that remembers these schemes answers to a request, with which status, and what it
    remembers then. -/
inductive Serves (settings : Fetch.Settings) (schemes : List Scheme) :
    Request → Nat → Response → List Scheme → Prop where
  | health {n : UInt64} : Numbers n schemes →
      Serves settings schemes .health 200 (.ok (.object [("status", .string "ok"),
        ("version", .string "0.1.0"), ("schemes", .number (.natural n))])) schemes
  | detect {contentType : Option String} {body : Body} {card : String} {answer : Json} :
      Carries "card_number" contentType body card → Tells schemes card answer →
      Serves settings schemes (.detect contentType body) 200 (.ok answer) schemes
  | detectRefused {contentType : Option String} {body : Body} {status : Nat} {cause : Rejection} :
      Refuses "card_number" contentType body status cause →
      Serves settings schemes (.detect contentType body) status (.rejected cause) schemes
  | parse {contentType : Option String} {body : Body} {text : String} {answer : Json} :
      Carries "rules" contentType body text → TellsRules text answer →
      Serves settings schemes (.parse contentType body) 200 (.ok answer) schemes
  | parseRefused {contentType : Option String} {body : Body} {status : Nat} {cause : Rejection} :
      Refuses "rules" contentType body status cause →
      Serves settings schemes (.parse contentType body) status (.rejected cause) schemes
  | reload {replies : Script} {made : Nat} {fetched : List Scheme} {n : UInt64} :
      Finds settings replies made fetched → Numbers n fetched →
      Serves settings schemes (.reload replies) 200
        (.reloaded (.ok (.object [("schemes", .number (.natural n))])) (made + 1)) fetched
  | reloadFailed {replies : Script} {e : FetchError} : Misses settings replies e →
      Serves settings schemes (.reload replies) 502
        (.reloaded (.error e) (max 1 settings.maxAttempts.toNat)) schemes

/-- A server that has not answered yet, and the schemes that it has: a fresh one, or one that has loaded
    the dictionary or failed to. -/
inductive Starts (settings : Settings) : Store → List Scheme → Prop where
  | fresh : Starts settings {} []
  | loaded {replies : Script} {made : Nat} {schemes : List Scheme} :
      Finds settings.fetch replies made schemes →
      Starts settings (Startup.begin settings replies).store schemes
  | notLoaded {replies : Script} {e : FetchError} : Misses settings.fetch replies e →
      Starts settings (Startup.begin settings replies).store []

/-- The answers to a run of requests. -/
def answers (settings : Fetch.Settings) (store : Store) (requests : List Request) : List Response :=
  (handleAll settings store requests).2

/-- The store after a run of requests. -/
def after (settings : Fetch.Settings) (store : Store) (requests : List Request) : Store :=
  (handleAll settings store requests).1

variable {settings : Fetch.Settings} {store : Store}

/-! ## One request -/

theorem numbers_ofNat (schemes : List Scheme) : Numbers (UInt64.ofNat schemes.length) schemes :=
  UInt64.toNat_ofNat_of_lt

theorem Finds.fetch_eq {replies : Script} {made : Nat} {schemes : List Scheme}
    (finds : Finds settings replies made schemes) : replies.fetch settings = ⟨.ok schemes, made + 1⟩ :=
  Script.fetch_of_first finds.allowed finds.brings finds.first

theorem Misses.fetch_eq {replies : Script} {e : FetchError} (misses : Misses settings replies e) :
    replies.fetch settings = ⟨.error e, max 1 settings.maxAttempts.toNat⟩ := by
  obtain ⟨e', lacks, fetched⟩ := Script.fetch_of_none misses.none
  cases misses.last.schemes_eq.symm.trans lacks.schemes_eq
  exact fetched

theorem finds_or_misses (settings : Fetch.Settings) (replies : Script) :
    (∃ made schemes, Finds settings replies made schemes) ∨ ∃ e, Misses settings replies e := by
  rcases replies.first_or_none (max 1 settings.maxAttempts.toNat) with ⟨made, allowed, schemes, found⟩ | none
  · exact .inl ⟨made, schemes, allowed, found.1, found.2⟩
  · obtain ⟨e, lacks, -⟩ := @Script.fetch_of_none replies settings none
    exact .inr ⟨e, none, lacks⟩

theorem Finds.handle_eq {replies : Script} {made : Nat} {schemes : List Scheme}
    (finds : Finds settings replies made schemes) : handle settings store (.reload replies) =
      (⟨some schemes⟩, .reloaded (.ok (.object [("schemes", count schemes)])) (made + 1)) := by
  have found : (replies.fetch settings).result = .ok schemes := by rw [finds.fetch_eq]
  simp only [handle, Store.reload_of_ok found, finds.fetch_eq]
  rfl

theorem Misses.handle_eq {replies : Script} {e : FetchError} (misses : Misses settings replies e) :
    handle settings store (.reload replies) =
      (store, .reloaded (.error e) (max 1 settings.maxAttempts.toNat)) := by
  have failed : (replies.fetch settings).result = .error e := by rw [misses.fetch_eq]
  simp only [handle, Store.reload_of_error failed, misses.fetch_eq]
  rfl

theorem handle_detect_of_carries {contentType : Option String} {body : Body} {card : String}
    (carries : Carries "card_number" contentType body card) :
    handle settings store (.detect contentType body) =
      (store, .ok (Verdict.ofCard store.schemes card).toJson) := by
  simp only [handle, bodyMember_eq_ok_iff.mpr carries]

theorem handle_parse_of_carries {contentType : Option String} {body : Body} {text : String}
    (carries : Carries "rules" contentType body text) :
    handle settings store (.parse contentType body) = (store, .ok (RuleText.parse text).toJson) := by
  simp only [handle, bodyMember_eq_ok_iff.mpr carries]

/-- The server answers as one that remembers the schemes of its store, and remembers those of the store
    that is left. -/
theorem serves_handle (settings : Fetch.Settings) (store : Store) (request : Request) :
    Serves settings store.schemes request (handle settings store request).2.status
      (handle settings store request).2 (handle settings store request).1.schemes := by
  cases request with
  | health => exact .health (numbers_ofNat _)
  | detect contentType body =>
      cases read : bodyMember "card_number" contentType body with
      | ok card =>
          simp only [handle, read]
          exact .detect (bodyMember_eq_ok_iff.mp read) (tells_iff.mpr rfl)
      | error cause =>
          simp only [handle, read]
          exact .detectRefused (bodyMember_eq_error_iff.mp read)
  | parse contentType body =>
      cases read : bodyMember "rules" contentType body with
      | ok text =>
          simp only [handle, read]
          exact .parse (bodyMember_eq_ok_iff.mp read) (tellsRules_toJson text)
      | error cause =>
          simp only [handle, read]
          exact .parseRefused (bodyMember_eq_error_iff.mp read)
  | reload replies =>
      rcases finds_or_misses settings replies with ⟨made, schemes, finds⟩ | ⟨e, misses⟩
      · rw [finds.handle_eq]
        exact .reload finds (numbers_ofNat schemes)
      · rw [misses.handle_eq]
        exact .reloadFailed misses

theorem Serves.next_eq {schemes next : List Scheme} {request : Request} {status : Nat}
    {response : Response} (serves : Serves settings schemes request status response next) :
    next = (request.brings? settings).getD schemes := by
  cases serves with
  | reload finds _ => simp [Request.brings?, finds.fetch_eq, Except.toOption]
  | reloadFailed misses => simp [Request.brings?, misses.fetch_eq, Except.toOption]
  | health | detect | detectRefused | parse | parseRefused => rfl

theorem Serves.brings?_eq_none {schemes next : List Scheme} {request : Request} {status : Nat}
    {response : Response} (serves : Serves settings schemes request status response next)
    (unsuccessful : status ≠ 200) : request.brings? settings = none := by
  cases serves with
  | reload => exact absurd rfl unsuccessful
  | reloadFailed misses => simp [Request.brings?, misses.fetch_eq, Except.toOption]
  | health | detect | detectRefused | parse | parseRefused => rfl

/-- A request that brings no collection leaves the store as it is. -/
theorem store_handle_of_brings?_eq_none {request : Request} (none : request.brings? settings = none) :
    (handle settings store request).1 = store := by
  cases request with
  | health => rfl
  | detect contentType body =>
      rw [handle]
      split <;> rfl
  | parse contentType body =>
      rw [handle]
      split <;> rfl
  | reload replies =>
      rcases finds_or_misses settings replies with ⟨made, schemes, finds⟩ | ⟨e, misses⟩
      · simp [Request.brings?, finds.fetch_eq, Except.toOption] at none
      · rw [misses.handle_eq]

/-! ## Runs -/

theorem after_cons (request : Request) (requests : List Request) :
    after settings store (request :: requests) =
      after settings (handle settings store request).1 requests := rfl

theorem answers_cons (request : Request) (requests : List Request) :
    answers settings store (request :: requests) = (handle settings store request).2 ::
      answers settings (handle settings store request).1 requests := rfl

theorem answers_append (before later : List Request) :
    answers settings store (before ++ later) =
      answers settings store before ++ answers settings (after settings store before) later := by
  induction before generalizing store with
  | nil => rfl
  | cons request before ih => rw [List.cons_append, answers_cons, ih, answers_cons, after_cons, List.cons_append]

theorem length_answers (requests : List Request) :
    (answers settings store requests).length = requests.length := by
  induction requests generalizing store with
  | nil => rfl
  | cons request requests ih => rw [answers_cons, List.length_cons, ih, List.length_cons]

theorem lastGood_cons (initial : List Scheme) (request : Request) (requests : List Request) :
    lastGood settings initial (request :: requests) =
      lastGood settings ((request.brings? settings).getD initial) requests := by
  simp only [lastGood, List.filterMap_cons]
  cases request.brings? settings with
  | none => rfl
  | some schemes => rw [List.getLast?_cons]; rfl

theorem lastGood_concat (initial : List Scheme) (requests : List Request) (request : Request) :
    lastGood settings initial (requests ++ [request]) =
      (request.brings? settings).getD (lastGood settings initial requests) := by
  simp only [lastGood, List.filterMap_append, List.filterMap_cons, List.filterMap_nil]
  cases request.brings? settings with
  | none => simp
  | some schemes => simp

/-- The store holds the last good collection after every run. -/
theorem schemes_after (settings : Fetch.Settings) (store : Store) (requests : List Request) :
    (after settings store requests).schemes = lastGood settings store.schemes requests := by
  induction requests generalizing store with
  | nil => rfl
  | cons request requests ih => rw [after_cons, ih, (serves_handle settings store request).next_eq, lastGood_cons]

theorem schemes_of_starts {settings : Settings} {initial : List Scheme}
    (starts : Starts settings store initial) : store.schemes = initial := by
  have fresh (replies : Script) :
      (Startup.begin settings replies).store = (Store.reload {} settings.fetch replies).1 := rfl
  cases starts with
  | fresh => rfl
  | @loaded replies made _ finds =>
      have found : (replies.fetch settings.fetch).result = .ok initial := by rw [finds.fetch_eq]
      rw [fresh, Store.reload_of_ok found]
      rfl
  | @notLoaded replies e misses =>
      have failed : (replies.fetch settings.fetch).result = .error e := by rw [misses.fetch_eq]
      rw [fresh, Store.reload_of_error failed]
      rfl

/-- The answer to a request of a run comes from the store that the requests before it have left. -/
theorem answers_at (before : List Request) (request : Request) (later : List Request) :
    (answers settings store (before ++ request :: later))[before.length]? =
      some (handle settings (after settings store before) request).2 := by
  rw [answers_append, answers_cons, ← @length_answers settings store before]
  simp

/-- Every request of a run is answered from the last good collection, which is then replaced only by what
    a successful reload brings. Leaving out a request that does not succeed changes no other answer. At any
    time every card number and every rule text that is not too large can be asked about. -/
theorem answers_from_last_good {settings : Settings} {start : Store} {initial : List Scheme}
    (starts : Starts settings start initial) (before : List Request) (request : Request)
    (later : List Request) :
    let schemes := lastGood settings.fetch initial before
    let next := lastGood settings.fetch initial (before ++ [request])
    (∃ response, (answers settings.fetch start (before ++ request :: later))[before.length]? = some response ∧
      Serves settings.fetch schemes request response.status response next ∧
      (response.status ≠ 200 → next = schemes ∧
        (answers settings.fetch start (before ++ request :: later)).eraseIdx before.length =
          answers settings.fetch start (before ++ later))) ∧
    (∀ card, (memberBody "card_number" card).utf8ByteSize ≤ 2097152 → ∃ answer,
      (answers settings.fetch start (before ++ .detect (some "application/json") (memberBody "card_number" card) ::
        later))[before.length]? = some (.ok answer) ∧ Tells schemes card answer) ∧
    (∀ text, (memberBody "rules" text).utf8ByteSize ≤ 2097152 → ∃ answer,
      (answers settings.fetch start (before ++ .parse (some "application/json") (memberBody "rules" text) ::
        later))[before.length]? = some (.ok answer) ∧ TellsRules text answer) := by
  intro schemes next
  let store := after settings.fetch start before
  have held : store.schemes = schemes := by rw [schemes_after, schemes_of_starts starts]
  have remembered : next = (request.brings? settings.fetch).getD schemes :=
    lastGood_concat initial before request
  have serves := serves_handle settings.fetch store request
  rw [serves.next_eq, held, ← remembered] at serves
  refine ⟨⟨(handle settings.fetch store request).2, answers_at before request later, serves, ?unsuccessful⟩,
    ?card, ?text⟩
  case unsuccessful =>
    intro status
    have none := serves.brings?_eq_none status
    have run (requests : List Request) : answers settings.fetch start (before ++ requests) =
        answers settings.fetch start before ++ answers settings.fetch store requests :=
      answers_append before requests
    have place : (answers settings.fetch start before).length = before.length := length_answers before
    constructor
    · rw [remembered, none]
      rfl
    · rw [run, run, ← place, answers_cons, store_handle_of_brings?_eq_none none,
        List.eraseIdx_append_of_length_le (Nat.le_refl _), Nat.sub_self]
      rfl
  case card =>
    intro card fits
    refine ⟨(Verdict.ofCard schemes card).toJson, ?_, tells_iff.mpr rfl⟩
    rw [answers_at, handle_detect_of_carries (carries_memberBody saysJson_applicationJson fits), ← held]
  case text =>
    intro text fits
    refine ⟨(RuleText.parse text).toJson, ?_, tellsRules_toJson text⟩
    rw [answers_at, handle_parse_of_carries (carries_memberBody saysJson_applicationJson fits)]

theorem Serves.rejected_of_refuses {schemes next : List Scheme} {contentType : Option String} {body : Body}
    {fetch : Fetch.Settings} {status code : Nat} {cause : Rejection} {response : Response}
    (serves : Serves fetch schemes (.parse contentType body) status response next)
    (refuses : Refuses "rules" contentType body code cause) : response = .rejected cause := by
  cases serves with
  | parse carries _ => cases refuses.bodyMember_eq.symm.trans (bodyMember_eq_ok_iff.mpr carries)
  | parseRefused refuses' =>
      cases refuses.bodyMember_eq.symm.trans refuses'.bodyMember_eq
      rfl

/-- A server that has loaded one scheme is asked for a reload that fails, how it is, about a card number, and
    about rule text in a body that is not said to be JSON and in one that is too large. -/
theorem answers_from_last_good_failed_reload :
    let settings : Settings := ⟨none, Fetch.Settings.standard⟩
    let visa : Scheme := ⟨"visa", "Visa", [.digits 16], [.digits 4], ""⟩
    let served : Script := fun _ => .answer 200
      "\x7b\"data\":[\x7b\"id\":\"visa\",\"name\":\"Visa\",\"ranges\":\"4\",\"length\":\"16\"\x7d]\x7d" true
    let start := (Startup.begin settings served).store
    let json := some "application/json"
    let failing : Request := .reload fun _ => .lost true
    let check : Request := .health
    let card : Request := .detect json "\x7b\"card_number\":\"4111111111111111\"\x7d"
    let untyped : Request := .parse none "4"
    let large : Request := .parse json ⟨⟨Array.replicate 2097153 32⟩⟩
    Starts settings start [visa] ∧
    (∃ response, (answers settings.fetch start ([] ++ failing :: [check]))[0]? = some response ∧
      response.status = 502 ∧ lastGood settings.fetch [visa] [failing] = [visa] ∧
      (answers settings.fetch start [failing, check]).eraseIdx 0 = answers settings.fetch start [check]) ∧
    (∃ response, (answers settings.fetch start ([failing] ++ check :: []))[1]? = some response ∧
      Serves settings.fetch [visa] check 200 response [visa]) ∧
    (answers settings.fetch start ([failing] ++ card :: []))[1]? = some (.ok (.object
      [("checksum_valid", .bool true),
        ("scheme", .object [("id", .string "visa"), ("name", .string "Visa"), ("icon", .string "")]),
        ("acceptable", .bool true), ("rules_loaded", .bool true)])) ∧
    (answers settings.fetch start ([failing] ++ untyped :: [card]))[1]? = some (.rejected .notJsonType) ∧
    (answers settings.fetch start ([failing] ++ large :: [card]))[1]? = some (.rejected .tooLarge) ∧
    (answers settings.fetch start ([failing] ++ large :: [card])).eraseIdx 1 =
      answers settings.fetch start ([failing] ++ [card]) := by
  intro settings visa served start json failing check card untyped large
  have finds : Finds settings.fetch served 0 [visa] := by
    refine ⟨by decide, .answer (by decide) (by decide) (by cbv), ?_⟩
    intro earlier before
    cases before
  have starts : Starts settings start [visa] := .loaded finds
  have kept : lastGood settings.fetch [visa] [failing] = [visa] := rfl
  obtain ⟨⟨failed, here, serves, unsuccessful⟩, -⟩ := answers_from_last_good starts [] failing [check]
  obtain ⟨⟨healthy, there, answered, -⟩, asked, -⟩ := answers_from_last_good starts [failing] check []
  obtain ⟨⟨turned, turnedThere, refuses, -⟩, -⟩ := answers_from_last_good starts [failing] untyped [card]
  obtain ⟨⟨cut, cutThere, cuts, without⟩, -⟩ := answers_from_last_good starts [failing] large [card]
  have status : failed.status = 502 := by
    change Serves settings.fetch [visa] (.reload fun _ => .lost true) failed.status failed [visa] at serves
    generalize failed.status = status at serves
    cases serves with
    | reload finds _ => cases finds.brings
    | reloadFailed _ => rfl
  have success : healthy.status = 200 := by
    change Serves settings.fetch [visa] .health healthy.status healthy [visa] at answered
    generalize healthy.status = status at answered
    cases answered with
    | health _ => rfl
  have noType : ¬ SaysJson none := by rintro ⟨_, ⟨⟩, -⟩
  have size : 2097152 < (⟨⟨Array.replicate 2097153 32⟩⟩ : Body).bytes.size := by simp [ByteArray.size]
  have body : memberBody "card_number" "4111111111111111" =
      "\x7b\"card_number\":\"4111111111111111\"\x7d" := by cbv
  have verdict : (Verdict.ofCard [visa] "4111111111111111").toJson = .object
      [("checksum_valid", .bool true),
        ("scheme", .object [("id", .string "visa"), ("name", .string "Visa"), ("icon", .string "")]),
        ("acceptable", .bool true), ("rules_loaded", .bool true)] := by
    cbv
  obtain ⟨answer, toldThere, tells⟩ := asked "4111111111111111" (by rw [body]; decide)
  have cause := cuts.rejected_of_refuses (.tooLarge saysJson_applicationJson size)
  rw [body, tells_iff.mp tells, kept, verdict] at toldThere
  rw [refuses.rejected_of_refuses (.notJsonType noType)] at turnedThere
  rw [cause] at cutThere
  exact ⟨starts, ⟨failed, here, status, kept, (unsuccessful (by simp [status])).2⟩,
    ⟨healthy, there, success ▸ answered⟩, toldThere, turnedThere, cutThere,
    (without (by rw [cause]; decide)).2⟩

end Paycard.Service
