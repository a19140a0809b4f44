import Paycard.Dictionary
import Paycard.Proofs.Json.Agreement
import Paycard.Proofs.Json.Shape

/-! # Both ways of reading dictionary entries

An entry is read alike from its tree and from its value, with or without an icon, and overlooks members
under names that it does not know.
-/

namespace Paycard.Entry

open Json (Tree ReadAlike ItemsReadAlike Overlooks ItemsOverlook Shape)

inductive Field where
  | id
  | name
  | ranges
  | length
  | icon

/-- How the members of an entry are read into a draft. -/
def record : Tree.Record Empty Draft where
  Field := Field
  Content _ := String
  name
    | .id => "id"
    | .name => "name"
    | .ranges => "ranges"
    | .length => "length"
    | .icon => "icon"
  read _ := Tree.readString
  found
    | .id => Draft.id
    | .name => Draft.name
    | .ranges => Draft.ranges
    | .length => Draft.length
    | .icon => Draft.icon
  put
    | .id, content, draft => { draft with id := content }
    | .name, content, draft => { draft with name := content }
    | .ranges, content, draft => { draft with ranges := content }
    | .length, content, draft => { draft with length := content }
    | .icon, content, draft => { draft with icon := content }
  step := readPart
  name_injective := by
    intro field other same
    cases field <;> cases other <;> simp_all
  found_put field _ _ := by cases field <;> rfl
  found_put_of_ne {field other} different _ _ := by
    cases field <;> cases other <;> first | rfl | exact absurd rfl different
  ext {draft other} same := by
    obtain ⟨_, _, _, _, _⟩ := draft
    obtain ⟨_, _, _, _, _⟩ := other
    have id := same .id
    have name := same .name
    have ranges := same .ranges
    have length := same .length
    have icon := same .icon
    simp_all
  step_name field _ _ := by cases field <;> rfl
  step_unknown {key} unknown draft value := by
    unfold readPart
    split
    · exact absurd rfl (unknown .id)
    · exact absurd rfl (unknown .name)
    · exact absurd rfl (unknown .ranges)
    · exact absurd rfl (unknown .length)
    · exact absurd rfl (unknown .icon)
    · rfl

theorem readAlike_ofTree (room : Nat) : ReadAlike room ofTree ofJson := by
  intro tree plain
  have strings : ReadAlike (room - 1) (Tree.readString (ε := Empty)) Json.readString :=
    Json.readAlike_readString _
  cases tree with
  | object members closed =>
      intro entry
      have fields := record.readObject_eq_ok_iff plain {} (fun field => by cases field <;> rfl)
        (fun _ => Json.readString) (fun _ => strings)
      simp only [ofTree, Tree.toJson, ofJson, bind_eq_ok_iff]
      constructor
      · rintro ⟨⟨id, name, ranges, length, icon⟩, reads, finishes⟩
        have found := (fields _).mp reads
        exact ⟨icon, found .icon, id, found .id, length, found .length, name, found .name, ranges,
          found .ranges, finishes⟩
      · rintro ⟨icon, readsIcon, id, readsId, length, readsLength, name, readsName, ranges, readsRanges,
          finishes⟩
        refine ⟨⟨id, name, ranges, length, icon⟩, (fields _).mpr fun field => ?_, finishes⟩
        cases field with
        | id => exact readsId
        | name => exact readsName
        | ranges => exact readsRanges
        | length => exact readsLength
        | icon => exact readsIcon
  | array items closed =>
      obtain ⟨-, rfl, inner⟩ := Tree.plain_array_iff.mp plain
      rw [Tree.toJson, Tree.toItems_eq_map, ofTree, ofJson]
      refine ItemsReadAlike.readItem strings (fun id => ?_) items inner
      refine .readItem strings fun name => ?_
      refine .readItem strings fun ranges => ?_
      refine .readItem strings fun length => ?_
      intro items inner
      cases items with
      | nil => exact sameOutcome_refl _
      | cons icon items =>
          obtain ⟨here, later⟩ := List.forall_mem_cons.mp inner
          simp only [Tree.readItem?, bind_map_left, List.map_cons]
          exact (strings icon here).bind fun icon => ItemsReadAlike.noItems _ items later
  | string value => cases value <;> exact sameOutcome_error _ _
  | number value => cases value <;> exact sameOutcome_error _ _
  | null | bool _ | broken => exact sameOutcome_error _ _

/-- The names that an entry knows. -/
def shape : Shape :=
  .record [("id", .leaf), ("name", .leaf), ("ranges", .leaf), ("length", .leaf), ("icon", .leaf)]

theorem overlooks_ofJson : Overlooks shape ofJson := by
  have strings : Overlooks .leaf (Json.readString (ε := Empty)) := Json.overlooks_leaf _
  apply Json.overlooks_record
  case objects =>
    intro members others same
    have id := same "id" _ rfl strings
    have name := same "name" _ rfl strings
    have ranges := same "ranges" _ rfl strings
    have length := same "length" _ rfl strings
    have icon := same "icon" _ rfl strings
    simp only [ofJson, id, name, ranges, length, icon]
  case arrays =>
    intro before after tree other inner placed inside
    have leaf : inner = .leaf := by simpa using List.mem_of_getElem? placed
    subst leaf
    cases inside

end Paycard.Entry
