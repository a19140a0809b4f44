import Paycard.Proofs.Rule.Agreement
import Paycard.Scheme.Wire

/-! # Both ways of reading schemes

A scheme is read alike from its tree and from its value, and overlooks members under names that it does not
know.
-/

namespace Paycard.Scheme

open Json (Tree ReadAlike ItemsReadAlike Overlooks ItemsOverlook Shape)

inductive Field where
  | id
  | name
  | lengths
  | ranges
  | icon

/-- What a field of a scheme holds. -/
def Field.Content : Field → Type
  | .lengths | .ranges => List Rule
  | .id | .name | .icon => String

/-- How the members of a scheme are read into a draft. -/
def record (room : Nat) : Tree.Record MalformedRule Draft where
  Field := Field
  Content := Field.Content
  name
    | .id => "id"
    | .name => "name"
    | .lengths => "lengthValidations"
    | .ranges => "rangeValidations"
    | .icon => "icon"
  read
    | .lengths | .ranges => Rule.listOfTree room
    | .id | .name | .icon => Tree.readString
  found
    | .id => Draft.id
    | .name => Draft.name
    | .lengths => Draft.lengths
    | .ranges => Draft.ranges
    | .icon => Draft.icon
  put
    | .id, content, draft => { draft with id := content }
    | .name, content, draft => { draft with name := content }
    | .lengths, content, draft => { draft with lengths := content }
    | .ranges, content, draft => { draft with ranges := content }
    | .icon, content, draft => { draft with icon := content }
  step := readPart room
  name_injective := by
    intro field other same
    cases field <;> cases other <;> simp_all
  found_put field _ _ := by cases field <;> rfl
  found_put_of_ne {field other} different _ _ := by
    cases field <;> cases other <;> first | rfl | exact absurd rfl different
  ext {draft other} same := by
    obtain ⟨_, _, _, _, _⟩ := draft
    obtain ⟨_, _, _, _, _⟩ := other
    have id := same .id
    have name := same .name
    have lengths := same .lengths
    have ranges := same .ranges
    have icon := same .icon
    simp_all
  step_name field _ _ := by cases field <;> rfl
  step_unknown {key} unknown draft value := by
    unfold readPart
    split
    · exact absurd rfl (unknown .id)
    · exact absurd rfl (unknown .name)
    · exact absurd rfl (unknown .lengths)
    · exact absurd rfl (unknown .ranges)
    · exact absurd rfl (unknown .icon)
    · rfl

theorem readAlike_ofTree (room : Nat) : ReadAlike room (ofTree room) ofJson := by
  intro tree plain
  have lists : ReadAlike (room - 1) (Rule.listOfTree (room - 1)) Rule.listOfJson :=
    Json.readAlike_readList (Rule.readAlike_ofTree _)
  cases tree with
  | object members closed =>
      intro scheme
      have fields := (record (room - 1)).readObject_eq_ok_iff plain {} (fun field => by cases field <;> rfl)
        (fun | .lengths | .ranges => Rule.listOfJson | .id | .name | .icon => Json.readString)
        (fun field => by
          cases field with
          | lengths | ranges => exact lists
          | id | name | icon => exact Json.readAlike_readString _)
      simp only [ofTree, Tree.toJson, ofJson, bind_eq_ok_iff]
      constructor
      · rintro ⟨⟨id, name, lengths, ranges, icon⟩, reads, finishes⟩
        have found := (fields _).mp reads
        exact ⟨icon, found .icon, id, found .id, lengths, found .lengths, name, found .name, ranges,
          found .ranges, finishes⟩
      · rintro ⟨icon, readsIcon, id, readsId, lengths, readsLengths, name, readsName, ranges, readsRanges,
          finishes⟩
        refine ⟨⟨id, name, lengths, ranges, icon⟩, (fields _).mpr fun field => ?_, finishes⟩
        cases field with
        | id => exact readsId
        | name => exact readsName
        | lengths => exact readsLengths
        | ranges => exact readsRanges
        | icon => exact readsIcon
  | array items closed =>
      obtain ⟨-, rfl, inner⟩ := Tree.plain_array_iff.mp plain
      rw [Tree.toJson, Tree.toItems_eq_map, ofTree, ofJson]
      refine ItemsReadAlike.readItem (Json.readAlike_readString _) (fun id => ?_) items inner
      refine .readItem (Json.readAlike_readString _) fun name => ?_
      refine .readItem lists fun lengths => ?_
      refine .readItem lists fun ranges => ?_
      refine .readItem (Json.readAlike_readString _) fun icon => ?_
      exact .noItems _
  | string value => cases value <;> exact sameOutcome_error _ _
  | number value => cases value <;> exact sameOutcome_error _ _
  | null | bool _ | broken => exact sameOutcome_error _ _

/-- The names that a scheme knows. -/
def shape : Shape :=
  .record [("id", .leaf), ("name", .leaf), ("lengthValidations", .list Rule.shape),
    ("rangeValidations", .list Rule.shape), ("icon", .leaf)]

theorem overlooks_ofJson : Overlooks shape ofJson := by
  have strings : Overlooks .leaf (Json.readString (ε := MalformedRule)) := Json.overlooks_leaf _
  have lists : Overlooks (.list Rule.shape) Rule.listOfJson := Json.overlooks_readList Rule.overlooks_ofJson
  apply Json.overlooks_record
  case objects =>
    intro members others same
    have id := same "id" _ rfl strings
    have name := same "name" _ rfl strings
    have lengths := same "lengthValidations" _ rfl lists
    have ranges := same "rangeValidations" _ rfl lists
    have icon := same "icon" _ rfl strings
    simp only [ofJson, id, name, lengths, ranges, icon]
  case arrays =>
    refine ItemsOverlook.readItem strings fun id => ?_
    refine ItemsOverlook.readItem strings fun name => ?_
    refine ItemsOverlook.readItem lists fun lengths => ?_
    refine ItemsOverlook.readItem lists fun ranges => ?_
    refine ItemsOverlook.readItem strings fun icon => ?_
    exact Json.itemsOverlook_nil _

end Paycard.Scheme
