import Paycard.Proofs.Dictionary.RoundTrip
import Paycard.Proofs.Scheme.Wire
import Paycard.Proofs.Service.Concurrent
import Paycard.Proofs.Store.Session

/-! # Bounds in order

An interval is made from two numbers, from two literals, from rule text or from JSON. All four ways let the
same bounds in, and those that report the others report them alike. So whatever is made of rules that came
in has the bounds of all its intervals in order: schemes, dictionaries, and the collection of a store that
is only ever filled by fetching.
-/

namespace Paycard

open Json (Tree Reading)

/-- A rule text that is a single token, of which this became. -/
def RuleText.single : Except MalformedRule Rule → RuleText
  | .ok rule => ⟨[rule], []⟩
  | .error e => ⟨[], [e]⟩

namespace Rule

variable {min max : UInt64}

/-- Two bounds come to this outcome in every way in which they can be given: as numbers, as two literals,
    as rule text and as JSON. -/
structure Enters (min max : UInt64) (outcome : Except MalformedRule Rule) : Prop where
  numbers : interval? min max = outcome.toOption
  literals : ofIntervalParts [(Nat.repr min.toNat).toList, (Nat.repr max.toNat).toList] = outcome
  text : RuleText.parse (Nat.repr min.toNat ++ "-" ++ Nat.repr max.toNat) = .single outcome
  json : ReadsAs (ofTree Json.maxDepth) ofJson
    ("\x7b\"type\":\"interval\",\"value\":\x7b\"min\":" ++ Nat.repr min.toNat ++ ",\"max\":" ++
      Nat.repr max.toNat ++ "\x7d\x7d") (outcome.mapError .refused)

theorem toList_hyphen_repr (min max : UInt64) :
    (Nat.repr min.toNat ++ "-" ++ Nat.repr max.toNat).toList = (Rule.interval min max).chars := by
  simp [chars]

theorem render_toJson_interval (min max : UInt64) : (Rule.interval min max).toJson.render =
    "\x7b\"type\":\"interval\",\"value\":\x7b\"min\":" ++ Nat.repr min.toNat ++ ",\"max\":" ++
      Nat.repr max.toNat ++ "\x7d\x7d" := by
  rw [← String.toList_inj]
  simp [toJson, Json.render, Json.chars, Json.charsAfterMember, Json.quote, Json.escape, Json.natural,
    Json.Number.chars]

theorem interval?_eq_toOption (min max : UInt64) :
    interval? min max = (ofToken (Rule.interval min max).chars).toOption := by
  rw [ofToken_chars, interval?, refusal]
  by_cases ordered : min ≤ max
  · rw [if_pos ordered, if_neg (UInt64.not_lt.mpr ordered)]
    rfl
  · rw [if_neg ordered, if_pos (UInt64.not_le.mp ordered)]
    rfl

theorem ofIntervalParts_repr (min max : UInt64) :
    ofIntervalParts [(Nat.repr min.toNat).toList, (Nat.repr max.toNat).toList] =
      ofToken (Rule.interval min max).chars := by
  simp only [Nat.toList_repr, ofToken, splitOn_hyphen_interval]

theorem parse_hyphen_repr (min max : UInt64) :
    RuleText.parse (Nat.repr min.toNat ++ "-" ++ Nat.repr max.toNat) =
      .single (ofToken (Rule.interval min max).chars) := by
  have free : ',' ∉ (Nat.repr min.toNat ++ "-" ++ Nat.repr max.toNat).toList := by
    rw [toList_hyphen_repr]
    exact comma_not_mem_chars _
  rw [RuleText.parse_token free, toList_hyphen_repr, ofTokens, ofTokens]
  cases ofToken (Rule.interval min max).chars with
  | ok rule => rfl
  | error e => rfl

theorem unlessRefused_eq_mapError (rule : Rule) :
    unlessRefused [rule] rule = (ofToken rule.chars).mapError .refused := by
  rw [unlessRefused, ofToken_chars, List.findSome?_singleton]
  cases rule.refusal with
  | none => rfl
  | some e => rfl

/-- Whatever rule text makes of two bounds with a hyphen between them is what all ways make of them. -/
theorem enters_ofToken (min max : UInt64) : Enters min max (ofToken (Rule.interval min max).chars) where
  numbers := interval?_eq_toOption min max
  literals := ofIntervalParts_repr min max
  text := parse_hyphen_repr min max
  json := by
    rw [← unlessRefused_eq_mapError, ← render_toJson_interval]
    exact readsAs_render (writable_toJson (by decide) _) (ofTree_toTree _ _) (ofJson_sorted_toJson _)

theorem enters_of_le (ordered : min ≤ max) : Enters min max (.ok (.interval min max)) := by
  have enters := enters_ofToken min max
  rwa [ofToken_chars, refusal, if_neg (UInt64.not_lt.mpr ordered)] at enters

theorem enters_of_lt (inverted : max < min) :
    Enters min max (.error ⟨Nat.repr min.toNat ++ "," ++ Nat.repr max.toNat⟩) := by
  have enters := enters_ofToken min max
  rwa [ofToken_chars, refusal, if_pos inverted] at enters

/-! ## Rules that are read -/

/-- The bounds of all intervals of a list are in order. -/
def AllOrdered (rules : List Rule) : Prop := ∀ rule ∈ rules, rule.ordered = true

theorem allOrdered_parse (text : String) : AllOrdered (parse text) := fun _ member =>
  ordered_of_mem_parse member

theorem yields_checked (rule : Rule) : Yields (fun rule : Rule => rule.ordered = true) (checked rule) := by
  rw [checked_eq, unlessRefused, List.findSome?_singleton]
  cases refused : rule.refusal with
  | none => exact yields_ok (ordered_iff_refusal.mpr refused)
  | some e => exact yields_error _

theorem yields_ofJson (value : Json) : Yields (fun rule : Rule => rule.ordered = true) (ofJson value) := by
  -- However a rule is put together, it is checked last.
  cases value with
  | object members =>
      refine yields_bind fun kind => yields_bind fun _ => yields_bind fun content => ?_
      exact yields_bind yields_checked
  | array items =>
      refine yields_bind fun name => yields_bind fun kind => yields_bind fun content => ?_
      exact yields_bind fun _ => yields_checked content.1
  | null | bool _ | number _ | string _ => exact yields_error _

theorem yields_ofTree (room : Nat) (tree : Tree) :
    Yields (fun rule : Rule => rule.ordered = true) (ofTree room tree) := by
  cases tree with
  | object members closed => exact yields_bind fun draft => yields_bind yields_checked
  | array items closed =>
      refine yields_bind fun kind => yields_bind fun content => ?_
      exact yields_bind fun _ => yields_checked content.1
  | null | bool _ | number _ | string _ | broken => exact yields_error _

theorem yields_listOfJson (value : Json) : Yields AllOrdered (listOfJson value) :=
  Json.yields_readList yields_ofJson value

theorem yields_listOfTree (room : Nat) (tree : Tree) : Yields AllOrdered (listOfTree room tree) :=
  Tree.yields_readList (yields_ofTree (room - 1)) tree

end Rule

/-! ## Schemes -/

namespace Scheme

/-- The bounds of all intervals of a scheme are in order. -/
def Ordered (scheme : Scheme) : Prop := Rule.AllOrdered scheme.rules

/-- The bounds of all intervals of a collection are in order. -/
def AllOrdered (schemes : List Scheme) : Prop := ∀ scheme ∈ schemes, scheme.Ordered

theorem ordered_iff {scheme : Scheme} :
    scheme.Ordered ↔ Rule.AllOrdered scheme.lengths ∧ Rule.AllOrdered scheme.ranges :=
  List.forall_mem_append

/-- One call on a scheme that is being built. -/
inductive Addition where
  | lengths (text : String)
  | ranges (text : String)
  | icon (reference : String)
  deriving Repr, DecidableEq

def Addition.apply (scheme : Scheme) : Addition → Scheme
  | .lengths text => scheme.withLengths text
  | .ranges text => scheme.withRanges text
  | .icon reference => scheme.withIcon reference

/-- A scheme without rules to which calls are made in order. -/
def build (id name : String) (additions : List Addition) : Scheme :=
  additions.foldl Addition.apply { id, name }

theorem ordered_apply {scheme : Scheme} (ordered : scheme.Ordered) (addition : Addition) :
    (addition.apply scheme).Ordered := by
  obtain ⟨lengths, ranges⟩ := ordered_iff.mp ordered
  cases addition with
  | lengths text => exact ordered_iff.mpr ⟨Rule.allOrdered_parse text, ranges⟩
  | ranges text => exact ordered_iff.mpr ⟨lengths, Rule.allOrdered_parse text⟩
  | icon reference => exact ordered

theorem ordered_foldl_apply {scheme : Scheme} (ordered : scheme.Ordered) (additions : List Addition) :
    (additions.foldl Addition.apply scheme).Ordered := by
  induction additions generalizing scheme with
  | nil => exact ordered
  | cons addition additions ih => exact ih (ordered_apply ordered addition)

theorem ordered_build (id name : String) (additions : List Addition) : (build id name additions).Ordered :=
  ordered_foldl_apply (fun _ member => absurd member List.not_mem_nil) additions

/-- What is known of a scheme while it is read has its bounds in order. -/
structure Draft.Ordered (draft : Draft) : Prop where
  lengths : ∀ rules ∈ draft.lengths, Rule.AllOrdered rules
  ranges : ∀ rules ∈ draft.ranges, Rule.AllOrdered rules

theorem yields_finish {draft : Draft} (ordered : draft.Ordered) : Yields Ordered draft.finish := by
  refine yields_bind fun id => yields_bind fun name => ?_
  refine (Json.yields_required ordered.lengths).bind fun lengths first => ?_
  refine (Json.yields_required ordered.ranges).bind fun ranges second => ?_
  exact yields_bind fun icon => yields_ok (ordered_iff.mpr ⟨first, second⟩)

theorem yields_ofJson (value : Json) : Yields Ordered (ofJson value) := by
  have rules := Rule.yields_listOfJson
  cases value with
  | object members =>
      refine yields_bind fun icon => yields_bind fun id => ?_
      refine (Json.yields_readMember? rules members "lengthValidations").bind fun lengths first => ?_
      refine yields_bind fun name => ?_
      refine (Json.yields_readMember? rules members "rangeValidations").bind fun ranges second => ?_
      exact yields_finish ⟨first, second⟩
  | array items =>
      refine yields_bind fun id => yields_bind fun name => ?_
      refine (Json.yields_readItem rules name.2).bind fun lengths first => ?_
      refine (Json.yields_readItem rules lengths.2).bind fun ranges second => ?_
      refine yields_bind fun icon => yields_bind fun _ => ?_
      exact yields_ok (ordered_iff.mpr ⟨first, second⟩)
  | null | bool _ | number _ | string _ => exact yields_error _

/-- A member of a scheme is either a list of rules that are in order, or it leaves the rules alone. -/
theorem yields_readPart (room : Nat) (draft : Draft) (key : String) (value : Tree) (ordered : draft.Ordered) :
    Yields Draft.Ordered (readPart room draft key value) := by
  have rules := Rule.yields_listOfTree room
  unfold readPart
  split
  case h_3 =>
    refine (Tree.yields_readOnce rules draft.lengths value).bind fun lengths first => ?_
    exact yields_ok ⟨first, ordered.ranges⟩
  case h_4 =>
    refine (Tree.yields_readOnce rules draft.ranges value).bind fun ranges second => ?_
    exact yields_ok ⟨ordered.lengths, second⟩
  all_goals exact yields_bind fun _ => yields_ok ⟨ordered.lengths, ordered.ranges⟩

theorem yields_ofTree (room : Nat) (tree : Tree) : Yields Ordered (ofTree room tree) := by
  have rules := Rule.yields_listOfTree (room - 1)
  cases tree with
  | object members closed =>
      have empty : Draft.Ordered {} := ⟨by simp, by simp⟩
      exact (Tree.yields_readObject (yields_readPart (room - 1)) empty members closed).bind
        fun draft ordered => yields_finish ordered
  | array items closed =>
      refine yields_bind fun id => yields_bind fun name => ?_
      refine (Tree.yields_readItem rules closed name.2).bind fun lengths first => ?_
      refine (Tree.yields_readItem rules closed lengths.2).bind fun ranges second => ?_
      refine yields_bind fun icon => yields_bind fun _ => ?_
      exact yields_ok (ordered_iff.mpr ⟨first, second⟩)
  | null | bool _ | number _ | string _ | broken => exact yields_error _

theorem yields_listOfJson (value : Json) : Yields AllOrdered (listOfJson value) :=
  Json.yields_readList yields_ofJson value

theorem yields_listOfTree (room : Nat) (tree : Tree) : Yields AllOrdered (listOfTree room tree) :=
  Tree.yields_readList (yields_ofTree (room - 1)) tree

end Scheme

/-! ## Dictionaries -/

theorem Entry.ordered_scheme (entry : Entry) : entry.scheme.Ordered :=
  Scheme.ordered_iff.mpr ⟨Rule.allOrdered_parse entry.length, Rule.allOrdered_parse entry.ranges⟩

namespace Dictionary

theorem yields_ofJson (value : Json) : Yields Scheme.AllOrdered (ofJson value) := by
  intro schemes read
  obtain ⟨items, entries, -, -, rfl⟩ := ofJson_eq_ok_iff.mp read
  intro scheme member
  obtain ⟨entry, -, rfl⟩ := List.mem_map.mp member
  exact entry.ordered_scheme

theorem yields_ofText (text : String) : Yields Scheme.AllOrdered (ofText text) := by
  rw [ofText]
  cases Json.ofText? text with
  | none => exact yields_error _
  | some value => exact yields_ofJson value

end Dictionary

theorem Reply.yields_schemes (reply : Reply) : Yields Scheme.AllOrdered reply.schemes := by
  rcases reply.brings_or_lacks with ⟨schemes, brings⟩ | ⟨e, lacks⟩
  · rw [brings.schemes_eq]
    cases brings with
    | answer _ _ read => exact yields_ok (Dictionary.yields_ofText _ _ read)
  · rw [lacks.schemes_eq]
    exact yields_error e

theorem Script.yields_attempt (script : Script) (made more : Nat) :
    Yields Scheme.AllOrdered (script.attempt made more).result := by
  have reply := (script made).yields_schemes
  induction more generalizing made with
  | zero => exact reply
  | succ more ih =>
      rw [attempt]
      cases met : (script made).schemes with
      | ok schemes => exact yields_ok (reply schemes met)
      | error e => exact ih (made + 1) (script (made + 1)).yields_schemes

theorem Script.yields_fetch (script : Script) (settings : Fetch.Settings) :
    Yields Scheme.AllOrdered (script.fetch settings).result :=
  script.yields_attempt 0 (settings.attempts - 1)

/-! ## Stores -/

namespace Store

/-- The bounds of all intervals that are stored are in order. -/
def Ordered (store : Store) : Prop := ∀ schemes, store.stored = some schemes → Scheme.AllOrdered schemes

theorem ordered_reload {store : Store} (ordered : store.Ordered) (settings : Fetch.Settings)
    (script : Script) : (store.reload settings script).1.Ordered := by
  cases fetched : (script.fetch settings).result with
  | error e =>
      rw [reload_of_error fetched]
      exact ordered
  | ok schemes =>
      rw [reload_of_ok fetched]
      intro _ stored
      cases stored
      exact script.yields_fetch settings schemes fetched

theorem ordered_load {store : Store} (ordered : store.Ordered) (settings : Fetch.Settings)
    (script : Script) : (store.load settings script).1.Ordered := by
  by_cases noRules : store.schemes = []
  · rw [load_of_nil noRules]
    exact ordered_reload ordered settings script
  · rw [load_of_schemes noRules]
    exact ordered

end Store

namespace Session

/-- The bounds of all intervals are in order in the store and in every snapshot. -/
structure Ordered (session : Session) : Prop where
  store : session.store.Ordered
  snapshots : ∀ stored ∈ session.snapshots, ∀ schemes, stored = some schemes → Scheme.AllOrdered schemes

/-- Every step but a replacement keeps the bounds in order. -/
theorem ordered_step {session : Session} (ordered : session.Ordered) {step : Step}
    (fetches : ∀ schemes, step ≠ .replace schemes) : (session.step step).1.Ordered := by
  cases step with
  | replace schemes => exact absurd rfl (fetches schemes)
  | load settings script => exact ⟨Store.ordered_load ordered.store settings script, ordered.snapshots⟩
  | reload settings script => exact ⟨Store.ordered_reload ordered.store settings script, ordered.snapshots⟩
  | isLoaded | get | detect _ | assess _ | accepts _ | readSnapshot _ => exact ordered
  | snapshot =>
      refine ⟨ordered.store, fun stored member => ?_⟩
      rcases List.mem_append.mp member with older | newest
      · exact ordered.snapshots stored older
      · obtain rfl := List.mem_singleton.mp newest
        exact ordered.store

theorem ordered_after {session : Session} (ordered : session.Ordered) {steps : List Step}
    (fetches : ∀ schemes, Step.replace schemes ∉ steps) : (session.after steps).Ordered := by
  induction steps generalizing session with
  | nil => exact ordered
  | cons step steps ih =>
      simp only [List.mem_cons, not_or, forall_and] at fetches
      obtain ⟨first, others⟩ := fetches
      rw [after_cons]
      exact ih (ordered_step ordered fun schemes same => first schemes same.symm) others

theorem ordered_of_fresh : Ordered {} := ⟨by simp [Store.Ordered], by simp⟩

end Session

namespace Service.Operation

theorem allOrdered_of_produces {operation : Operation} {schemes : List Scheme}
    (produces : operation.Produces schemes) (fetches : ∀ given, operation ≠ .replace given) :
    Scheme.AllOrdered schemes := by
  cases produces with
  | replace => exact absurd rfl (fetches schemes)
  | load found | reload found | serve found => exact Script.yields_fetch _ _ _ found

theorem ordered_after {operations : List Operation} (fetches : ∀ given, Operation.replace given ∉ operations)
    (schedule : List Nat) : (after operations schedule).store.Ordered := by
  intro schemes stored
  obtain ⟨index, operation, called, -, produces⟩ := produced_of_stored stored
  have member := List.mem_of_getElem? called
  exact allOrdered_of_produces produces fun given same => fetches given (same ▸ member)

end Service.Operation

/-! ## All ways in -/

/-- Whatever is read has this property, from a value and from the tree of a text. -/
structure ReadsOnly {α : Type} (P : α → Prop) (ofTree : Tree → Reading MalformedRule α)
    (ofJson : Json → Reading MalformedRule α) : Prop where
  value (value : Json) : Yields P (ofJson value)
  text (text : String) : Yields P (Json.readText ofTree text)

open Service (Operation)

/-- Two bounds come in by every way or by none, and are reported by their numbers when they do not. So no
    interval with its bounds the wrong way round is in anything that is built from texts, decoded or read,
    nor in a store that nothing but loads and reloads have written to, one by one or side by side. -/
theorem no_inverted_interval_enters :
    (∀ min max : UInt64,
      (min ≤ max → Rule.Enters min max (.ok (.interval min max))) ∧
      (max < min → Rule.Enters min max (.error ⟨Nat.repr min.toNat ++ "," ++ Nat.repr max.toNat⟩))) ∧
    (∀ id name additions, (Scheme.build id name additions).Ordered) ∧
    (∀ value, Yields Scheme.AllOrdered (Dictionary.ofJson value)) ∧
    (∀ text, Yields Scheme.AllOrdered (Dictionary.ofText text)) ∧
    ReadsOnly (fun rule => rule.ordered = true) (Rule.ofTree Json.maxDepth) Rule.ofJson ∧
    ReadsOnly Rule.AllOrdered (Rule.listOfTree Json.maxDepth) Rule.listOfJson ∧
    ReadsOnly Scheme.Ordered (Scheme.ofTree Json.maxDepth) Scheme.ofJson ∧
    ReadsOnly Scheme.AllOrdered (Scheme.listOfTree Json.maxDepth) Scheme.listOfJson ∧
    (∀ steps, (∀ schemes, Session.Step.replace schemes ∉ steps) → (Session.after {} steps).Ordered) ∧
    (∀ operations schedule, (∀ schemes, Operation.replace schemes ∉ operations) →
      (Operation.after operations schedule).store.Ordered) := by
  refine ⟨fun min max => ⟨Rule.enters_of_le, Rule.enters_of_lt⟩, Scheme.ordered_build,
    Dictionary.yields_ofJson, Dictionary.yields_ofText, ?rule, ?rules, ?scheme, ?schemes, ?session, ?shared⟩
  case rule => exact ⟨Rule.yields_ofJson, Json.yields_readText (Rule.yields_ofTree _)⟩
  case rules => exact ⟨Rule.yields_listOfJson, Json.yields_readText (Rule.yields_listOfTree _)⟩
  case scheme => exact ⟨Scheme.yields_ofJson, Json.yields_readText (Scheme.yields_ofTree _)⟩
  case schemes => exact ⟨Scheme.yields_listOfJson, Json.yields_readText (Scheme.yields_listOfTree _)⟩
  case session =>
    intro steps fetches
    exact Session.ordered_after Session.ordered_of_fresh fetches
  case shared =>
    intro operations schedule fetches
    exact Operation.ordered_after fetches schedule

/-- An entry has one interval in order and one that is not. Its dictionary is decoded, loaded and reloaded. -/
theorem no_inverted_interval_enters_loaded_dictionary :
    let entry : Entry := { id := "visa", name := "Visa", ranges := "9-3,40-49", length := "16" }
    let text := (Dictionary.toJson [entry]).render
    let served : Script := fun _ => .answer 200 text true
    let standard := Fetch.Settings.standard
    let steps : List Session.Step := [.load standard served, .snapshot]
    let operations : List Operation := [.accepts "49", .reload standard served]
    let schedule := [1, 0, 1, 1, 1, 0]
    (40 : UInt64) ≤ 49 ∧ Rule.Enters 40 49 (.ok (.interval 40 49)) ∧
    (3 : UInt64) < 9 ∧ Rule.Enters 9 3 (.error ⟨"9,3"⟩) ∧
    entry.scheme.rules = [.digits 16, .interval 40 49] ∧
    (Dictionary.ofText text = .ok [entry.scheme] ∧ Scheme.AllOrdered [entry.scheme]) ∧
    (Rule.ofJson (Rule.interval 40 49).toJson = .ok (.interval 40 49) ∧
      (Rule.interval 40 49).ordered = true) ∧
    (Json.readText (Scheme.listOfTree Json.maxDepth) (Scheme.listToJson [entry.scheme]).render =
        .ok [entry.scheme] ∧
      Scheme.AllOrdered [entry.scheme]) ∧
    ((∀ schemes, Session.Step.replace schemes ∉ steps) ∧
      (Session.after {} steps).store.stored = some [entry.scheme] ∧ (Session.after {} steps).Ordered) ∧
    ((∀ schemes, Operation.replace schemes ∉ operations) ∧
      (Operation.after operations schedule).store.stored = some [entry.scheme] ∧
      (Operation.after operations schedule).store.Ordered) := by
  intro entry text served standard steps operations schedule
  obtain ⟨doors, -, -, decoded, rule, -, -, schemes, session, shared⟩ := no_inverted_interval_enters
  have inOrder : (40 : UInt64) ≤ 49 := by decide
  have inverted : (3 : UInt64) < 9 := by decide
  have rules : entry.scheme.rules = [.digits 16, .interval 40 49] := by cbv
  have decodes : Dictionary.ofText text = .ok [entry.scheme] :=
    @Dictionary.ofText_render [] [] [entry]
      ⟨by decide, ⟨by decide, Entry.writableItems_toJson [entry] (by decide)⟩, trivial⟩ (by simp)
  have read : Rule.ofJson (Rule.interval 40 49).toJson = .ok (.interval 40 49) := rfl
  have readBack : Json.readText (Scheme.listOfTree Json.maxDepth) (Scheme.listToJson [entry.scheme]).render =
      .ok [entry.scheme] := by
    rw [Json.readText_render _ (Scheme.writable_listToJson _), Scheme.listOfTree_toTree]
    apply Rule.unlessRefused_of_ordered
    rw [List.flatMap_singleton]
    exact entry.ordered_scheme
  have reply : (served 0).schemes = .ok [entry.scheme] :=
    (Reply.Brings.answer (by decide) (by decide) decodes).schemes_eq
  have loaded : (Session.after {} steps).store.stored = some [entry.scheme] := by
    have fetched : (served.fetch standard).result = .ok [entry.scheme] := by
      show (served.attempt 0 2).result = _
      rw [Script.attempt, reply]
    rw [Session.after_cons, Session.step_load_of_nil rfl, Session.step_reload_of_ok fetched]
    rfl
  have reloaded : (Operation.after operations schedule).store.stored = some [entry.scheme] := by
    have program : Operation.program (.reload standard served) =
        .wait (.write [entry.scheme] (.answer (.fetched ⟨.ok [entry.scheme], 1⟩))) := by
      show Store.Program.bind (Store.Program.bind (Store.Program.attempt served 0 2) _) _ = _
      rw [Store.Program.attempt, reply]
      rfl
    rw [Operation.after, List.map_cons, List.map_cons, program]
    rfl
  have loads : ∀ schemes, Session.Step.replace schemes ∉ steps := by simp [steps]
  have reloads : ∀ schemes, Operation.replace schemes ∉ operations := by simp [operations]
  exact ⟨inOrder, (doors 40 49).1 inOrder, inverted, (doors 9 3).2 inverted, rules,
    ⟨decodes, decoded text _ decodes⟩, ⟨read, rule.value _ _ read⟩, ⟨readBack, schemes.text _ _ readBack⟩,
    ⟨loads, loaded, session steps loads⟩, ⟨reloads, reloaded, shared operations schedule reloads⟩⟩

end Paycard
