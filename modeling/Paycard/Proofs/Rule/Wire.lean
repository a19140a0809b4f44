import Paycard.Proofs.Json.RoundTrip
import Paycard.Proofs.Rule.RoundTrip
import Paycard.Rule.Wire

/-! # Writing and reading rules as JSON

A rule is read back from its value and from the tree of its text, except for an interval with its bounds
the wrong way round. Of several such intervals the first one is reported, so what comes of reading
anything that is made of rules is decided by its rules in the order of the text.
-/

namespace Paycard.Rule

open Json (Tree Reading)

variable {α β γ : Type}

/-- What comes of reading something that is made of these rules: the thing itself, unless an interval is
    refused. -/
def unlessRefused (rules : List Rule) (value : α) : Reading MalformedRule α :=
  match rules.findSome? refusal with
  | none => .ok value
  | some e => .error (.refused e)

/-- The first rule of a list whose bounds are the wrong way round is the interval with these bounds. -/
def FirstInverted (rules : List Rule) (min max : UInt64) : Prop :=
  ∃ before after, rules = before ++ .interval min max :: after ∧
    (∀ rule ∈ before, rule.ordered = true) ∧ max < min

theorem unlessRefused_of_ordered {rules : List Rule} (h : ∀ rule ∈ rules, rule.ordered = true) (value : α) :
    unlessRefused rules value = .ok value := by
  have accepted : rules.findSome? refusal = none :=
    List.findSome?_eq_none_iff.mpr fun rule member => ordered_iff_refusal.mp (h rule member)
  rw [unlessRefused, accepted]

theorem unlessRefused_of_firstInverted {rules : List Rule} {min max : UInt64}
    (first : FirstInverted rules min max) (value : α) : unlessRefused rules value =
      .error (.refused ⟨Nat.repr min.toNat ++ "," ++ Nat.repr max.toNat⟩) := by
  obtain ⟨before, after, split, earlier, inverted⟩ := first
  have refused : rules.findSome? refusal =
      some ⟨Nat.repr min.toNat ++ "," ++ Nat.repr max.toNat⟩ := by
    refine List.findSome?_eq_some_iff.mpr ⟨before, _, after, split, if_pos inverted, ?_⟩
    exact fun rule member => ordered_iff_refusal.mp (earlier rule member)
  rw [unlessRefused, refused]

theorem ordered_or_firstInverted (rules : List Rule) :
    (∀ rule ∈ rules, rule.ordered = true) ∨ ∃ min max, FirstInverted rules min max := by
  cases first : rules.find? (!·.ordered) with
  | none => exact .inl (by simpa using first)
  | some rule =>
      obtain ⟨inverted, before, after, split, earlier⟩ := List.find?_eq_some_iff_append.mp first
      cases rule with
      | digits value => cases inverted
      | interval min max =>
          have notOrdered : ¬ min ≤ max := by simpa [ordered] using inverted
          exact .inr ⟨min, max, before, after, split, by simpa using earlier, UInt64.not_le.mp notOrdered⟩

theorem map_unlessRefused (f : α → β) (rules : List Rule) (value : α) :
    f <$> unlessRefused rules value = unlessRefused rules (f value) := by
  rw [unlessRefused, unlessRefused]
  cases rules.findSome? refusal with
  | none => rfl
  | some e => rfl

/-- What is read next is looked at only when nothing before it is refused. -/
theorem unlessRefused_bind {rules others : List Rule} {first : α} {f : α → Reading MalformedRule β}
    {whole : β} (next : f first = unlessRefused others whole) :
    unlessRefused rules first >>= f = unlessRefused (rules ++ others) whole := by
  rw [unlessRefused, unlessRefused, List.findSome?_append]
  cases rules.findSome? refusal with
  | none => exact next
  | some e => rfl

theorem unlessRefused_bind_ok {rules : List Rule} {first : α} {f : α → Reading MalformedRule β} {whole : β}
    (next : f first = .ok whole) : unlessRefused rules first >>= f = unlessRefused rules whole := by
  have accepted : f first = unlessRefused [] whole := next
  have read := @unlessRefused_bind _ _ rules [] first f whole accepted
  rwa [List.append_nil] at read

theorem mapM_unlessRefused {write : α → γ} {read : γ → Reading MalformedRule α} {rulesOf : α → List Rule}
    (back : ∀ value, read (write value) = unlessRefused (rulesOf value) value) (values : List α) :
    (values.map write).mapM read = unlessRefused (values.flatMap rulesOf) values := by
  induction values with
  | nil => rfl
  | cons value values ih =>
      rw [List.map_cons, List.mapM_cons, List.flatMap_cons, back, ih]
      apply unlessRefused_bind
      exact map_unlessRefused (value :: ·) _ values

section Lists

variable {write : α → Json} {rulesOf : α → List Rule} (values : List α)

theorem readList_sorted {read : Json → Reading MalformedRule α}
    (back : ∀ value, read (write value).sorted = unlessRefused (rulesOf value) value) :
    Json.readList read (Json.array (values.map write)).sorted =
      unlessRefused (values.flatMap rulesOf) values := by
  rw [Json.sorted, Json.sortedItems_eq_map, List.map_map]
  exact mapM_unlessRefused back values

theorem readList_toTree {read : Tree → Reading MalformedRule α}
    (back : ∀ value, read (write value).toTree = unlessRefused (rulesOf value) value) :
    Tree.readList read (Json.array (values.map write)).toTree =
      unlessRefused (values.flatMap rulesOf) values := by
  have items := @mapM_unlessRefused _ _ (Json.toTree ∘ write) read rulesOf back values
  rw [Json.toTree, Json.toTrees_eq_map, List.map_map, Tree.readList, items]
  exact unlessRefused_bind_ok rfl

end Lists

/-! ## One rule -/

theorem misordered_eq (min max : UInt64) :
    misordered min max = ⟨Nat.repr min.toNat ++ "," ++ Nat.repr max.toNat⟩ := by
  rw [misordered, ← splitOn_hyphen_interval, ofParts_splitOn, report_interval]

theorem checked_eq (rule : Rule) : checked rule = unlessRefused [rule] rule := by
  cases rule with
  | digits value => rfl
  | interval min max =>
      rw [checked, interval?, unlessRefused, List.findSome?_singleton, refusal, misordered_eq]
      by_cases ordered : min ≤ max
      · rw [if_pos ordered, if_neg (UInt64.not_lt.mpr ordered)]
      · rw [if_neg ordered, if_pos (UInt64.not_le.mp ordered)]

theorem sorted_toJson_digits (value : UInt64) : (digits value).toJson.sorted = (digits value).toJson := by
  simp (disch := decide) only [toJson, Json.natural, Json.sorted, Json.sortedMembers, Json.sortMembers,
    List.foldl_cons, List.foldl_nil, Json.insertMember_nil, Json.insertMember_of_gt]

theorem sorted_toJson_interval (min max : UInt64) : (interval min max).toJson.sorted =
    .object [("type", .string "interval"),
      ("value", .object [("max", .natural max), ("min", .natural min)])] := by
  simp (disch := decide) only [toJson, Json.natural, Json.sorted, Json.sortedMembers, Json.sortMembers,
    List.foldl_cons, List.foldl_nil, Json.insertMember_nil, Json.insertMember_of_lt, Json.insertMember_of_gt]

theorem ofJson_sorted_toJson (rule : Rule) : ofJson rule.toJson.sorted = unlessRefused [rule] rule := by
  rw [← checked_eq]
  cases rule with
  | digits value =>
      rw [sorted_toJson_digits]
      rfl
  | interval min max =>
      rw [sorted_toJson_interval]
      rfl

theorem ofTree_toTree (room : Nat) (rule : Rule) :
    ofTree room rule.toJson.toTree = unlessRefused [rule] rule := by
  rw [← checked_eq]
  cases rule with
  | digits value => rfl
  | interval min max => rfl

/-! ## Lists of rules -/

theorem listOfJson_sorted (rules : List Rule) :
    listOfJson (listToJson rules).sorted = unlessRefused rules rules := by
  have read := readList_sorted rules ofJson_sorted_toJson
  rwa [List.flatMap_singleton'] at read

theorem listOfTree_toTree (room : Nat) (rules : List Rule) :
    listOfTree room (listToJson rules).toTree = unlessRefused rules rules := by
  have read := readList_toTree rules (ofTree_toTree (room - 1))
  rwa [List.flatMap_singleton'] at read

theorem writable_toJson {room : Nat} (within : 1 < room) (rule : Rule) : rule.toJson.Writable room := by
  have inner : 0 < room - 1 := Nat.sub_pos_of_lt within
  cases rule with
  | digits value => exact ⟨Nat.zero_lt_of_lt within, trivial, Json.Number.isLiteral_natural value, trivial⟩
  | interval min max =>
      exact ⟨Nat.zero_lt_of_lt within, trivial,
        ⟨inner, Json.Number.isLiteral_natural min, Json.Number.isLiteral_natural max, trivial⟩, trivial⟩

theorem writable_listToJson {room : Nat} (within : 2 < room) (rules : List Rule) :
    (listToJson rules).Writable room := by
  refine ⟨Nat.zero_lt_of_lt within, ?_⟩
  induction rules with
  | nil => trivial
  | cons rule rules ih => exact ⟨writable_toJson (by omega) rule, ih⟩

end Paycard.Rule
