import Paycard.Proofs.Rule.Wire
import Paycard.Scheme.Wire

/-! # Writing and reading schemes as JSON

A list of schemes, or of rules, is read back from its text in both ways, if the bounds of all its intervals
are in order. Otherwise both ways report the first interval of the text whose bounds are not.
-/

namespace Paycard

namespace Scheme

open Json (Tree Reading)
open Rule (unlessRefused)

/-- All rules of a scheme, the length rules first. -/
def rules (scheme : Scheme) : List Rule := scheme.lengths ++ scheme.ranges

theorem sorted_toJson (scheme : Scheme) : scheme.toJson.sorted =
    .object [("icon", .string scheme.icon), ("id", .string scheme.id),
      ("lengthValidations", (Rule.listToJson scheme.lengths).sorted), ("name", .string scheme.name),
      ("rangeValidations", (Rule.listToJson scheme.ranges).sorted)] := by
  simp (disch := decide) only [toJson, Json.sorted, Json.sortedMembers, Json.sortMembers, List.foldl_cons,
    List.foldl_nil, Json.insertMember_nil, Json.insertMember_of_lt, Json.insertMember_of_gt]

theorem ofJson_sorted_toJson (scheme : Scheme) :
    ofJson scheme.toJson.sorted = unlessRefused scheme.rules scheme := by
  have read : ofJson scheme.toJson.sorted = (do
      let lengths ← some <$> Rule.listOfJson (Rule.listToJson scheme.lengths).sorted
      let ranges ← some <$> Rule.listOfJson (Rule.listToJson scheme.ranges).sorted
      Draft.finish { id := some scheme.id, name := some scheme.name, lengths, ranges, icon := some scheme.icon }) := by
    rw [sorted_toJson]
    rfl
  rw [read]
  simp only [Rule.listOfJson_sorted, Rule.map_unlessRefused]
  apply Rule.unlessRefused_bind
  exact Rule.unlessRefused_bind_ok rfl

theorem readPart_lengths {draft : Draft} (free : draft.lengths = none) (room : Nat) (rules : List Rule) :
    readPart room draft "lengthValidations" (Rule.listToJson rules).toTree =
      unlessRefused rules { draft with lengths := some rules } := by
  show (do return { draft with
    lengths := ← Tree.readOnce draft.lengths (Rule.listOfTree room) (Rule.listToJson rules).toTree }) = _
  rw [free, Tree.readOnce, Rule.listOfTree_toTree, Rule.map_unlessRefused]
  exact Rule.unlessRefused_bind_ok rfl

theorem readPart_ranges {draft : Draft} (free : draft.ranges = none) (room : Nat) (rules : List Rule) :
    readPart room draft "rangeValidations" (Rule.listToJson rules).toTree =
      unlessRefused rules { draft with ranges := some rules } := by
  show (do return { draft with
    ranges := ← Tree.readOnce draft.ranges (Rule.listOfTree room) (Rule.listToJson rules).toTree }) = _
  rw [free, Tree.readOnce, Rule.listOfTree_toTree, Rule.map_unlessRefused]
  exact Rule.unlessRefused_bind_ok rfl

theorem ofTree_toTree (room : Nat) (scheme : Scheme) :
    ofTree room scheme.toJson.toTree = unlessRefused scheme.rules scheme := by
  let draft : Draft :=
    ⟨some scheme.id, some scheme.name, some scheme.lengths, some scheme.ranges, some scheme.icon⟩
  let members := Json.toMemberTrees
    [("id", .string scheme.id), ("name", .string scheme.name),
      ("lengthValidations", Rule.listToJson scheme.lengths),
      ("rangeValidations", Rule.listToJson scheme.ranges), ("icon", .string scheme.icon)]
  have read : Tree.readMembers (readPart (room - 1)) {} members = unlessRefused scheme.rules draft := by
    let named : Draft := { id := some scheme.id, name := some scheme.name }
    show readPart (room - 1) named "lengthValidations" _ >>= _ = _
    rw [readPart_lengths rfl]
    apply Rule.unlessRefused_bind
    rw [Json.toMemberTrees, Tree.readMembers, readPart_ranges rfl]
    exact Rule.unlessRefused_bind_ok rfl
  have closed : Tree.readObject (readPart (room - 1)) {} members true =
      unlessRefused scheme.rules draft := by
    rw [Tree.readObject, read]
    exact Rule.unlessRefused_bind_ok rfl
  rw [toJson, Json.toTree, ofTree, closed]
  exact Rule.unlessRefused_bind_ok rfl

theorem listOfJson_sorted (schemes : List Scheme) :
    listOfJson (listToJson schemes).sorted = unlessRefused (schemes.flatMap rules) schemes :=
  Rule.readList_sorted schemes ofJson_sorted_toJson

theorem listOfTree_toTree (room : Nat) (schemes : List Scheme) :
    listOfTree room (listToJson schemes).toTree = unlessRefused (schemes.flatMap rules) schemes :=
  Rule.readList_toTree schemes (ofTree_toTree (room - 1))

theorem writable_toJson {room : Nat} (within : 3 < room) (scheme : Scheme) : scheme.toJson.Writable room := by
  have lists : 2 < room - 1 := by omega
  exact ⟨Nat.zero_lt_of_lt within, trivial, trivial, Rule.writable_listToJson lists scheme.lengths,
    Rule.writable_listToJson lists scheme.ranges, trivial, trivial⟩

theorem writable_listToJson (schemes : List Scheme) : (listToJson schemes).Writable Json.maxDepth := by
  refine ⟨by decide, ?_⟩
  induction schemes with
  | nil => trivial
  | cons scheme schemes ih => exact ⟨writable_toJson (by decide) scheme, ih⟩

end Scheme

section Texts

open Json (Tree Reading)
open Rule (unlessRefused FirstInverted)

variable {α : Type}

/-- Both ways of reading a text, straight from its tree and from the value that it writes, come to this. -/
def ReadsAs (ofTree : Tree → Reading MalformedRule α) (ofJson : Json → Reading MalformedRule α)
    (text : String) (outcome : Reading MalformedRule α) : Prop :=
  Json.readText ofTree text = outcome ∧
    ∃ value, Json.ofText? text = some value ∧ ofJson value = outcome

theorem readsAs_render {ofTree : Tree → Reading MalformedRule α} {ofJson : Json → Reading MalformedRule α}
    {value : Json} {outcome : Reading MalformedRule α} (writable : value.Writable Json.maxDepth)
    (fromTree : ofTree value.toTree = outcome) (fromValue : ofJson value.sorted = outcome) :
    ReadsAs ofTree ofJson value.render outcome :=
  ⟨(Json.readText_render ofTree writable).trans fromTree, _, Json.ofText?_render writable, fromValue⟩

/-- A text of these rules is read back as the list that it was written from, if the bounds of all intervals
    are in order, and otherwise the first interval of which they are not is reported. -/
structure RoundTrips (rules : List Rule) (list : α) (ofTree : Tree → Reading MalformedRule α)
    (ofJson : Json → Reading MalformedRule α) (text : String) : Prop where
  back : (∀ rule ∈ rules, rule.ordered = true) → ReadsAs ofTree ofJson text (.ok list)
  refused (min max : UInt64) : FirstInverted rules min max → ∃ e : MalformedRule,
    e.message = "Invalid rule - " ++ (Nat.repr min.toNat ++ "," ++ Nat.repr max.toNat) ∧
      ReadsAs ofTree ofJson text (.error (.refused e))
  decided : (∀ rule ∈ rules, rule.ordered = true) ∨ ∃ min max, FirstInverted rules min max

theorem roundTrips_of_readsAs {rules : List Rule} {list : α} {ofTree : Tree → Reading MalformedRule α}
    {ofJson : Json → Reading MalformedRule α} {text : String}
    (reads : ReadsAs ofTree ofJson text (unlessRefused rules list)) :
    RoundTrips rules list ofTree ofJson text where
  back ordered := Rule.unlessRefused_of_ordered ordered list ▸ reads
  refused _ _ first := ⟨_, rfl, Rule.unlessRefused_of_firstInverted first list ▸ reads⟩
  decided := Rule.ordered_or_firstInverted rules

/-- A list of schemes, and a list of rules, is read back from its text as far as its intervals allow it. -/
theorem serialization_round_trips (schemes : List Scheme) (rules : List Rule) :
    RoundTrips (schemes.flatMap Scheme.rules) schemes (Scheme.listOfTree Json.maxDepth) Scheme.listOfJson
      (Scheme.listToJson schemes).render ∧
    RoundTrips rules rules (Rule.listOfTree Json.maxDepth) Rule.listOfJson
      (Rule.listToJson rules).render := by
  constructor
  · apply roundTrips_of_readsAs
    exact readsAs_render (Scheme.writable_listToJson schemes)
      (Scheme.listOfTree_toTree Json.maxDepth schemes) (Scheme.listOfJson_sorted schemes)
  · apply roundTrips_of_readsAs
    exact readsAs_render (Rule.writable_listToJson (by decide) rules)
      (Rule.listOfTree_toTree Json.maxDepth rules) (Rule.listOfJson_sorted rules)

/-- The second scheme has two range intervals that are not in order. Its length rule is, and without the
    two everything is read back. -/
theorem serialization_round_trips_range_interval :
    let visa : Scheme := ⟨"visa", "Zoë \"V\"\x01", [.interval 13 19], [.digits 18446744073709551615], ""⟩
    let other : Scheme := ⟨"", "", [.digits 5], [.interval 9 3, .interval 8 1], "\n"⟩
    (∀ rule ∈ [visa].flatMap Scheme.rules, rule.ordered = true) ∧
    ReadsAs (Scheme.listOfTree Json.maxDepth) Scheme.listOfJson (Scheme.listToJson [visa]).render
      (.ok [visa]) ∧
    FirstInverted ([visa, other].flatMap Scheme.rules) 9 3 ∧
    ∃ e : MalformedRule, e.message = "Invalid rule - 9,3" ∧
      ReadsAs (Scheme.listOfTree Json.maxDepth) Scheme.listOfJson (Scheme.listToJson [visa, other]).render
        (.error (.refused e)) := by
  intro visa other
  have ordered : ∀ rule ∈ [visa].flatMap Scheme.rules, rule.ordered = true := by decide
  have first : FirstInverted ([visa, other].flatMap Scheme.rules) 9 3 :=
    ⟨[.interval 13 19, .digits 18446744073709551615, .digits 5], [.interval 8 1], rfl, by decide, by decide⟩
  obtain ⟨trips, -⟩ := serialization_round_trips [visa] []
  obtain ⟨fails, -⟩ := serialization_round_trips [visa, other] []
  exact ⟨ordered, trips.back ordered, first, fails.refused 9 3 first⟩

end Texts

end Paycard
