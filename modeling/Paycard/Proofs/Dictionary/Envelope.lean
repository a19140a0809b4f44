import Mathlib
import Paycard.Dictionary
import Paycard.Proofs.Json.Reading

/-! # What is a dictionary

A value is read as a dictionary exactly when it is an envelope of entries: an object whose `data` member
is an array, with an entry in every place of it. An entry is an object of its members. It may also be
written as an array of them, which no description of the format mentions.
-/

namespace Paycard

namespace Entry

/-- The members of an object make up this entry. All but the icon have to be there, and others may be. -/
structure IsObject (members : List (String × Json)) (entry : Entry) : Prop where
  id : members.lookup "id" = some (.string entry.id)
  name : members.lookup "name" = some (.string entry.name)
  ranges : members.lookup "ranges" = some (.string entry.ranges)
  length : members.lookup "length" = some (.string entry.length)
  icon : members.lookup "icon" = some (.string entry.icon) ∨
    members.lookup "icon" = none ∧ entry.icon = ""

/-- A value stands for an entry: as an object, or as an array of the members in their order, without
    which only the icon can be. -/
inductive Writes : Json → Entry → Prop where
  | object {members : List (String × Json)} {entry : Entry} :
      IsObject members entry → Writes (.object members) entry
  | array (id name ranges length : String) :
      Writes (.array [.string id, .string name, .string ranges, .string length])
        { id, name, ranges, length }
  | arrayWithIcon (id name ranges length icon : String) :
      Writes (.array [.string id, .string name, .string ranges, .string length, .string icon])
        { id, name, ranges, length, icon }

theorem writes_object_iff {members : List (String × Json)} {entry : Entry} :
    Writes (.object members) entry ↔ IsObject members entry := by
  constructor
  · intro writes
    cases writes with
    | object isObject => exact isObject
  · exact .object

theorem finish_eq_ok_iff {draft : Draft} {entry : Entry} :
    draft.finish = .ok entry ↔
      draft.id = some entry.id ∧ draft.name = some entry.name ∧ draft.ranges = some entry.ranges ∧
        draft.length = some entry.length ∧ draft.icon.getD "" = entry.icon := by
  simp only [Draft.finish, bind_eq_ok_iff, Json.required_eq_ok_iff]
  constructor
  · rintro ⟨id, hasId, name, hasName, ranges, hasRanges, length, hasLength, same⟩
    cases same
    exact ⟨hasId, hasName, hasRanges, hasLength, rfl⟩
  · rintro ⟨hasId, hasName, hasRanges, hasLength, icon⟩
    refine ⟨_, hasId, _, hasName, _, hasRanges, _, hasLength, ?_⟩
    rw [icon]
    rfl

theorem ofJson_object_eq_ok_iff {members : List (String × Json)} {entry : Entry} :
    ofJson (.object members) = .ok entry ↔ IsObject members entry := by
  simp only [ofJson, bind_eq_ok_iff, Json.readMember?_string_eq_ok_iff, finish_eq_ok_iff]
  constructor
  · rintro ⟨icon, hasIcon, _, hasId, _, hasLength, _, hasName, _, hasRanges, rfl, rfl, rfl, rfl, given⟩
    refine ⟨hasId, hasName, hasRanges, hasLength, ?_⟩
    cases icon with
    | none => exact .inr ⟨hasIcon, given.symm⟩
    | some text =>
        obtain rfl : text = entry.icon := given
        exact .inl hasIcon
  · rintro ⟨hasId, hasName, hasRanges, hasLength, hasIcon | ⟨noIcon, empty⟩⟩
    · exact ⟨some entry.icon, hasIcon, some entry.id, hasId, some entry.length, hasLength,
        some entry.name, hasName, some entry.ranges, hasRanges, rfl, rfl, rfl, rfl, rfl⟩
    · exact ⟨none, noIcon, some entry.id, hasId, some entry.length, hasLength,
        some entry.name, hasName, some entry.ranges, hasRanges, rfl, rfl, rfl, rfl, empty.symm⟩

theorem ofJson_array_eq_ok_iff {items : List Json} {entry : Entry} :
    ofJson (.array items) = .ok entry ↔ Writes (.array items) entry := by
  simp only [ofJson, bind_eq_ok_iff, Prod.exists, Json.readItem_eq_ok_iff, Json.readString_eq_ok_iff]
  constructor
  · rintro ⟨id, _, ⟨_, rfl, rfl⟩, name, _, ⟨_, rfl, rfl⟩, ranges, _, ⟨_, rfl, rfl⟩, length, rest,
      ⟨_, rfl, rfl⟩, last⟩
    cases rest with
    | nil =>
        cases last
        exact .array id name ranges length
    | cons item rest =>
        simp only [bind_eq_ok_iff, Json.readString_eq_ok_iff, Json.noItems_eq_ok_iff] at last
        obtain ⟨icon, rfl, _, rfl, same⟩ := last
        cases same
        exact .arrayWithIcon id name ranges length icon
  · intro writes
    cases writes with
    | array id name ranges length =>
        exact ⟨id, _, ⟨_, rfl, rfl⟩, name, _, ⟨_, rfl, rfl⟩, ranges, _, ⟨_, rfl, rfl⟩, length, _,
          ⟨_, rfl, rfl⟩, rfl⟩
    | arrayWithIcon id name ranges length icon =>
        exact ⟨id, _, ⟨_, rfl, rfl⟩, name, _, ⟨_, rfl, rfl⟩, ranges, _, ⟨_, rfl, rfl⟩, length, _,
          ⟨_, rfl, rfl⟩, rfl⟩

/-- The values that are read as an entry are the ones that stand for it. -/
theorem ofJson_eq_ok_iff {value : Json} {entry : Entry} :
    ofJson value = .ok entry ↔ Writes value entry := by
  cases value with
  | object members => exact ofJson_object_eq_ok_iff.trans writes_object_iff.symm
  | array items => exact ofJson_array_eq_ok_iff
  | null | bool _ | number _ | string _ =>
      constructor
      · intro read
        cases read
      · intro writes
        cases writes

end Entry

namespace Dictionary

/-- A value is an envelope of these items: an object whose `data` member is the array of them. -/
def Holds (value : Json) (items : List Json) : Prop :=
  ∃ members, value = .object members ∧ members.lookup "data" = some (.array items)

theorem Holds.unique {value : Json} {items others : List Json} (h : Holds value items)
    (h' : Holds value others) : items = others := by
  obtain ⟨members, rfl, found⟩ := h
  obtain ⟨same, again, found'⟩ := h'
  cases again
  rw [found] at found'
  cases found'
  rfl

theorem ofJson_of_holds {value : Json} {items : List Json} (h : Holds value items) :
    ofJson value = schemesOfItems items := by
  obtain ⟨members, rfl, found⟩ := h
  rw [ofJson]
  simp only [found]

theorem exists_holds {value : Json} {schemes : List Scheme} (h : ofJson value = .ok schemes) :
    ∃ items, Holds value items := by
  unfold ofJson at h
  split at h
  · split at h
    · rename_i members _ items found
      exact ⟨items, members, rfl, found⟩
    · cases h
  · cases h

theorem schemesOfItems_eq_ok_iff {items : List Json} {schemes : List Scheme} :
    schemesOfItems items = .ok schemes ↔
      ∃ entries, items.mapM Entry.ofJson = .ok entries ∧ schemes = entries.map Entry.scheme := by
  rw [schemesOfItems]
  cases items.mapM Entry.ofJson with
  | ok entries => simp [eq_comm]
  | error e => simp

theorem mapM_ofJson_eq_ok_iff {items : List Json} {entries : List Entry} :
    items.mapM Entry.ofJson = .ok entries ↔ List.Forall₂ Entry.Writes items entries := by
  simp only [mapM_eq_ok_iff, Entry.ofJson_eq_ok_iff]

/-- The values that are read as a dictionary are the envelopes of entries. -/
theorem ofJson_eq_ok_iff {value : Json} {schemes : List Scheme} :
    ofJson value = .ok schemes ↔ ∃ items entries, Holds value items ∧
      List.Forall₂ Entry.Writes items entries ∧ schemes = entries.map Entry.scheme := by
  constructor
  · intro read
    obtain ⟨items, holds⟩ := exists_holds read
    rw [ofJson_of_holds holds, schemesOfItems_eq_ok_iff] at read
    obtain ⟨entries, reads, same⟩ := read
    exact ⟨items, entries, holds, mapM_ofJson_eq_ok_iff.mp reads, same⟩
  · rintro ⟨items, entries, holds, writes, same⟩
    rw [ofJson_of_holds holds, schemesOfItems_eq_ok_iff]
    exact ⟨entries, mapM_ofJson_eq_ok_iff.mpr writes, same⟩

/-- An item of the documented kind: an object that makes up this entry. -/
def Documents (item : Json) (entry : Entry) : Prop :=
  ∃ members, item = .object members ∧ Entry.IsObject members entry

theorem writes_iff_documents {item : Json} (notArray : ∀ parts, item ≠ .array parts) (entry : Entry) :
    Entry.Writes item entry ↔ Documents item entry := by
  constructor
  · intro writes
    cases writes with
    | object isObject => exact ⟨_, rfl, isObject⟩
    | array _ _ _ _ => exact absurd rfl (notArray _)
    | arrayWithIcon _ _ _ _ _ => exact absurd rfl (notArray _)
  · rintro ⟨members, rfl, isObject⟩
    exact .object isObject

theorem forall₂_writes_iff {items : List Json} (noArray : ∀ parts, Json.array parts ∉ items)
    (entries : List Entry) :
    List.Forall₂ Entry.Writes items entries ↔ List.Forall₂ Documents items entries := by
  induction items generalizing entries with
  | nil => simp only [List.forall₂_nil_left_iff]
  | cons item items ih =>
      have first := writes_iff_documents fun parts same => noArray parts (same ▸ List.mem_cons_self)
      have others := ih fun parts member => noArray parts (List.mem_cons_of_mem item member)
      simp only [List.forall₂_cons_left_iff, first, others]

/-- What is read as a dictionary: the envelopes of entries, one scheme for each entry, in order, with its
    rules read from its texts. Any other value is malformed, and so is a text that is no value. As long as
    no item is an array, every item has to be an object with the members of an entry. -/
theorem decodes_documented_envelopes (value : Json) :
    let scheme (entry : Entry) : Scheme :=
      { id := entry.id, name := entry.name, lengths := Rule.parse entry.length,
        ranges := Rule.parse entry.ranges, icon := entry.icon }
    (∀ schemes, ofJson value = .ok schemes ↔ ∃ items entries, Holds value items ∧
      List.Forall₂ Entry.Writes items entries ∧ schemes = entries.map scheme) ∧
    ((∀ items parts, Holds value items → Json.array parts ∉ items) →
      ∀ schemes, ofJson value = .ok schemes ↔ ∃ items entries, Holds value items ∧
        List.Forall₂ Documents items entries ∧ schemes = entries.map scheme) ∧
    ((∀ schemes, ofJson value ≠ .ok schemes) → ofJson value = .error {}) ∧
    (∀ text, Json.ofText? text = some value → ofText text = ofJson value) ∧
    (∀ text, Json.ofText? text = none → ofText text = .error {}) := by
  intro scheme
  have accepts (schemes : List Scheme) : ofJson value = .ok schemes ↔ ∃ items entries,
      Holds value items ∧ List.Forall₂ Entry.Writes items entries ∧ schemes = entries.map scheme :=
    ofJson_eq_ok_iff
  refine ⟨accepts, ?noArrays, ?malformed, ?text, ?noValue⟩
  case noArrays =>
    intro noArrays schemes
    rw [accepts]
    constructor
    · rintro ⟨items, entries, holds, writes, same⟩
      rw [forall₂_writes_iff fun parts => noArrays items parts holds] at writes
      exact ⟨items, entries, holds, writes, same⟩
    · rintro ⟨items, entries, holds, documented, same⟩
      rw [← forall₂_writes_iff fun parts => noArrays items parts holds] at documented
      exact ⟨items, entries, holds, documented, same⟩
  case malformed =>
    intro rejected
    cases read : ofJson value with
    | ok schemes => exact absurd read (rejected schemes)
    | error e => rfl
  case text =>
    intro text reads
    rw [ofText, reads]
  case noValue =>
    intro text fails
    rw [ofText, fails]

/-- A dictionary with one entry that has no icon, and a text that is cut short. -/
theorem decodes_documented_envelopes_without_icon :
    let members : List (String × Json) :=
      [("id", .string "visa"), ("length", .string "16,x"), ("name", .string "Visa"),
        ("ranges", .string "4"), ("rank", .null)]
    let value : Json := .object [("data", .array [.object members])]
    (∀ items parts, Holds value items → Json.array parts ∉ items) ∧
    ofJson value = .ok [⟨"visa", "Visa", [.digits 16], [.digits 4], ""⟩] ∧
    (∀ schemes, ofJson .null ≠ .ok schemes) ∧ ofJson .null = .error {} ∧
    Json.ofText? "null" = some .null ∧ ofText "null" = ofJson .null ∧
    Json.ofText? "[" = none ∧ ofText "[" = .error {} := by
  intro members value
  have holds : Holds value [.object members] := ⟨_, rfl, rfl⟩
  have noArrays : ∀ items parts, Holds value items → Json.array parts ∉ items := by
    intro items parts other member
    obtain rfl := holds.unique other
    simp at member
  have entry : Documents (.object members) { id := "visa", name := "Visa", ranges := "4", length := "16,x" } :=
    ⟨members, rfl, rfl, rfl, rfl, rfl, .inr ⟨rfl, rfl⟩⟩
  have text : Json.ofText? "null" = some .null := by cbv
  have cut : Json.ofText? "[" = none := by cbv
  have rejected : ∀ schemes, ofJson .null ≠ .ok schemes := by
    intro schemes read
    cases read
  obtain ⟨-, accepts, -, -, noValue⟩ := decodes_documented_envelopes value
  obtain ⟨-, -, malformed, reads, -⟩ := decodes_documented_envelopes .null
  have read := (accepts noArrays _).mpr ⟨_, _, holds, .cons entry .nil, rfl⟩
  have rules : Rule.parse "16,x" = [.digits 16] ∧ Rule.parse "4" = [.digits 4] := by
    constructor <;> cbv
  simp only [List.map_cons, List.map_nil, rules] at read
  exact ⟨noArrays, read, rejected, malformed rejected, text, reads _ text, cut, noValue _ cut⟩

/-- An entry that is written as an array is read, although no item of the dictionary is an object. -/
theorem array_entry_is_read :
    let value : Json := .object
      [("data", .array [.array [.string "visa", .string "Visa", .string "4", .string "16"]])]
    ofJson value = .ok [⟨"visa", "Visa", [.digits 16], [.digits 4], ""⟩] ∧
    ¬ ∃ items entries, Holds value items ∧ List.Forall₂ Documents items entries := by
  intro value
  have holds : Holds value [.array [.string "visa", .string "Visa", .string "4", .string "16"]] :=
    ⟨_, rfl, rfl⟩
  refine ⟨by cbv, ?_⟩
  rintro ⟨items, entries, other, documented⟩
  obtain rfl := holds.unique other
  cases documented with
  | cons first _ =>
      obtain ⟨members, isArray, _⟩ := first
      cases isArray

end Dictionary

end Paycard
