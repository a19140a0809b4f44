import Paycard.Proofs.Json.Agreement
import Paycard.Proofs.Json.Shape
import Paycard.Rule.Wire

/-! # Both ways of reading rules

A rule is read alike from its tree and from its value. Its content may stand before its kind: then the
content is kept, and read once the kind is known. Members under other names are overlooked, in the rule and
in the bounds of an interval.
-/

namespace Paycard.Rule

open Json (Tree Reading ReadAlike ItemsReadAlike Overlooks ItemsOverlook Shape)

/-! ## Kinds -/

theorem Kind.ofTree_object_eq_ok_iff {members : List (Option String × Tree)} {kind : Kind} :
    Kind.ofTree (.object members true) = .ok kind ↔
      ∃ name, members = [(some name, .null)] ∧ ofName name = .ok kind := by
  match members with
  | [] => simp [Kind.ofTree]
  | (none, value) :: members => simp [Kind.ofTree]
  | (some name, value) :: members =>
      simp only [Kind.ofTree, bind_eq_ok_iff]
      constructor
      · rintro ⟨_, named, _, null, ends⟩
        cases members with
        | cons member members => cases ends
        | nil =>
            cases ends
            cases value with
            | null => exact ⟨name, rfl, named⟩
            | bool _ | number _ | string _ | array _ _ | object _ _ | broken => cases null
      · rintro ⟨_, single, named⟩
        cases single
        exact ⟨kind, named, (), rfl, rfl⟩

theorem Kind.ofJson_object_eq_ok_iff {members : List (String × Json)} {kind : Kind} :
    Kind.ofJson (.object members) = .ok kind ↔
      ∃ name, members = [(name, .null)] ∧ ofName name = .ok kind := by
  constructor
  · intro reads
    unfold Kind.ofJson at reads
    split at reads
    case h_1 isObject => cases isObject
    case h_2 name isObject =>
      cases isObject
      exact ⟨name, rfl, reads⟩
    case h_3 => cases reads
  · rintro ⟨name, rfl, named⟩
    exact named

theorem readAlike_kind (room : Nat) : ReadAlike room Kind.ofTree Kind.ofJson := by
  intro tree plain
  cases tree with
  | string value => cases value with
    | none => exact sameOutcome_error _ _
    | some name => exact sameOutcome_refl _
  | object members closed =>
      intro kind
      obtain ⟨-, rfl, distinct, inner⟩ := Tree.plain_object_iff.mp plain
      rw [Kind.ofTree_object_eq_ok_iff, Tree.toJson, Kind.ofJson_object_eq_ok_iff]
      refine exists_congr fun name => and_congr_left fun _ => ?_
      constructor
      · rintro rfl
        rfl
      · intro single
        have perm := Json.perm_sortMembers ((Tree.fst_toMembers members).symm ▸ distinct)
        rw [single] at perm
        obtain ⟨value, rfl, null⟩ :=
          Tree.eq_singleton_of_toMembers (fun member here => (inner member here).1) perm.singleton_eq.symm
        obtain ⟨-, here⟩ := inner _ List.mem_cons_self
        obtain rfl := Tree.eq_null_of_toJson here null
        rfl
  | number value => cases value <;> exact sameOutcome_error _ _
  | null | bool _ | array _ _ | broken => exact sameOutcome_error _ _

/-! ## Bounds and content -/

inductive Bound where
  | min
  | max

/-- The two bounds of an interval as a record. -/
def bounds : Tree.Record MalformedRule (Option UInt64 × Option UInt64) where
  Field := Bound
  Content _ := UInt64
  name
    | .min => "min"
    | .max => "max"
  read _ := Tree.readNatural
  found
    | .min, draft => draft.1
    | .max, draft => draft.2
  put
    | .min, content, draft => (content, draft.2)
    | .max, content, draft => (draft.1, content)
  step := readBound
  name_injective := by
    intro field other same
    cases field <;> cases other <;> simp_all
  found_put field _ _ := by cases field <;> rfl
  found_put_of_ne {field other} different _ _ := by
    cases field <;> cases other <;> first | rfl | exact absurd rfl different
  ext same := Prod.ext (same .min) (same .max)
  step_name field _ _ := by cases field <;> exact (bind_pure_comp _ _).symm
  step_unknown {key} unknown draft value := by
    unfold readBound
    split
    · exact absurd rfl (unknown .min)
    · exact absurd rfl (unknown .max)
    · exact (bind_pure_comp _ _).symm

theorem readAlike_bounds (room : Nat) : ReadAlike room boundsOfTree boundsOfJson := by
  intro tree plain
  cases tree with
  | object members closed =>
      intro rule
      have fields := bounds.readObject_eq_ok_iff plain (none, none) (fun field => by cases field <;> rfl)
        (fun _ => Json.readNatural) (fun _ => Json.readAlike_readNatural _)
      simp only [boundsOfTree, Tree.toJson, boundsOfJson, bind_eq_ok_iff]
      constructor
      · rintro ⟨⟨min, max⟩, reads, finishes⟩
        exact ⟨max, (fields _).mp reads .max, min, (fields _).mp reads .min, finishes⟩
      · rintro ⟨max, readsMax, min, readsMin, finishes⟩
        refine ⟨(min, max), (fields _).mpr fun field => ?_, finishes⟩
        cases field with
        | min => exact readsMin
        | max => exact readsMax
  | string value => cases value <;> exact sameOutcome_error _ _
  | number value => cases value <;> exact sameOutcome_error _ _
  | null | bool _ | array _ _ | broken => exact sameOutcome_error _ _

theorem readAlike_content (room : Nat) (kind : Kind) :
    ReadAlike room (contentOfTree kind) (contentOfJson kind) := by
  cases kind with
  | digits => exact (Json.readAlike_readNatural room).map Rule.digits
  | interval => exact readAlike_bounds room

/-! ## Rules -/

/-- What becomes of a draft of a rule by the values that still stand under the two names. -/
def Draft.completed : Draft → Option Tree → Option Tree → Reading MalformedRule Rule
  | .empty, some name, some value => do contentOfTree (← Kind.ofTree name) value
  | .kind known, none, some value => contentOfTree known value
  | .content value, some name, none => do contentOfTree (← Kind.ofTree name) value
  | .whole rule, none, none => .ok rule
  | _, _, _ => .error .wrongShape

/-- A kind is taken into a draft as it would be later. -/
theorem completed_readPart_type (room : Nat) (draft : Draft) (name : Tree) (content : Option Tree) :
    SameOutcome (readPart room draft "type" name >>= fun next => next.completed none content)
      (draft.completed (some name) content) := by
  cases draft with
  | empty =>
      rw [readPart, bind_map_left]
      cases content with
      | none => exact sameOutcome_bind_error fun _ => sameOutcome_error _ _
      | some value => exact sameOutcome_refl _
  | content value =>
      rw [readPart, bind_assoc]
      simp only [bind_assoc, pure_bind]
      cases content with
      | none => exact (sameOutcome_refl _).bind fun _ => sameOutcome_bind_ok fun _ => sameOutcome_refl _
      | some other =>
          exact sameOutcome_bind_error fun _ => sameOutcome_bind_error fun _ => sameOutcome_error _ _
  | kind _ | whole _ => cases content <;> exact sameOutcome_error _ _

/-- So is content, which is kept as long as it can be taken as a value. -/
theorem completed_readPart_value {room : Nat} {value : Tree} (plain : value.Plain room) (draft : Draft)
    (name : Option Tree) :
    SameOutcome (readPart room draft "value" value >>= fun next => next.completed name none)
      (draft.completed name (some value)) := by
  cases draft with
  | empty =>
      rw [readPart, if_pos plain.readable]
      cases name <;> exact sameOutcome_refl _
  | kind known =>
      rw [readPart, bind_map_left]
      cases name with
      | none => exact sameOutcome_bind_ok fun _ => sameOutcome_refl _
      | some other => exact sameOutcome_bind_error fun _ => sameOutcome_error _ _
  | content _ | whole _ => cases name <;> exact sameOutcome_error _ _

theorem readPart_unknown {key : String} (notKind : key ≠ "type") (notContent : key ≠ "value") (room : Nat)
    (draft : Draft) (value : Tree) :
    readPart room draft key value = (fun _ => draft) <$> value.skip := by
  unfold readPart
  split
  case h_7 => rfl
  all_goals first | exact absurd rfl notKind | exact absurd rfl notContent

/-- Members with different keys complete a draft with what they have under the two names, in whatever
    order they are. -/
theorem sameOutcome_readMembers {room : Nat} {members : List (Option String × Tree)}
    (distinct : (Tree.keys members).Nodup)
    (plain : ∀ member ∈ members, member.1.isSome = true ∧ member.2.Plain room) (draft : Draft) :
    SameOutcome (Tree.readMembers (readPart room) draft members >>= Draft.finish)
      (draft.completed (members.lookup (some "type")) (members.lookup (some "value"))) := by
  induction members generalizing draft with
  | nil => cases draft with
    | whole rule => exact sameOutcome_refl _
    | empty | kind _ | content _ => exact sameOutcome_error _ _
  | cons member members ih =>
      obtain ⟨key, value⟩ := member
      obtain ⟨⟨keyed, here⟩, later⟩ := List.forall_mem_cons.mp plain
      obtain ⟨key, rfl⟩ := Option.isSome_iff_exists.mp keyed
      obtain ⟨absent, distinct⟩ := List.nodup_cons.mp (Tree.keys_cons key value members ▸ distinct)
      have gone := Tree.lookup_eq_none_of_not_mem_keys absent
      have goesOn := (sameOutcome_refl (readPart room draft key value)).bind (ih distinct later)
      rw [Tree.readMembers, bind_assoc]
      refine goesOn.trans ?_
      by_cases isKind : key = "type"
      case pos =>
        subst isKind
        rw [gone, List.lookup_cons_self, lookup_cons_of_ne (by simp)]
        exact completed_readPart_type room draft value _
      case neg =>
        by_cases isContent : key = "value"
        case pos =>
          subst isContent
          rw [gone, List.lookup_cons_self, lookup_cons_of_ne (by simp)]
          exact completed_readPart_value here draft _
        case neg =>
          rw [readPart_unknown isKind isContent, here.skip,
            lookup_cons_of_ne (by simpa using Ne.symm isKind),
            lookup_cons_of_ne (by simpa using Ne.symm isContent)]
          exact sameOutcome_refl _

/-- The name of the kind may be looked at before or after it is taken off. -/
theorem ofJson_array (items : List Json) : ofJson (.array items) = (do
    let (kind, items) ← Json.readItem (fun value => Json.readString value >>= Kind.ofName) items
    let (rule, items) ← Json.readItem (contentOfJson kind) items
    Json.noItems items
    checked rule) := by
  cases items with
  | nil => rfl
  | cons item items => simp only [ofJson, Json.readItem, bind_map_left, bind_assoc]

theorem readAlike_ofTree (room : Nat) : ReadAlike room (ofTree room) ofJson := by
  intro tree plain
  cases tree with
  | object members closed =>
      obtain ⟨-, rfl, distinct, inner⟩ := Tree.plain_object_iff.mp plain
      have complete := sameOutcome_readMembers distinct inner .empty
      rw [ofTree, Tree.readObject_closed, ← bind_assoc]
      refine (complete.bind fun rule => sameOutcome_refl (checked rule)).trans ?_
      simp only [Tree.toJson, ofJson, Json.readMember?, Tree.lookup_toJson distinct]
      cases named : members.lookup (some "type") with
      | none => exact sameOutcome_error _ _
      | some name =>
          simp only [Option.map_some, bind_map_left]
          cases stands : members.lookup (some "value") with
          | none => exact (sameOutcome_bind_error fun _ => sameOutcome_error _ _).symm
          | some value =>
              simp only [Option.map_some, bind_map_left, Draft.completed, bind_assoc]
              refine (readAlike_kind _ name (Tree.plain_of_lookup inner named)).bind fun kind => ?_
              refine (readAlike_content _ kind value (Tree.plain_of_lookup inner stands)).bind fun rule => ?_
              exact sameOutcome_refl (checked rule)
  | array items closed =>
      obtain ⟨-, rfl, inner⟩ := Tree.plain_array_iff.mp plain
      rw [Tree.toJson, Tree.toItems_eq_map, ofTree, ofJson_array]
      refine ItemsReadAlike.readItem ((Json.readAlike_readString _).bind Kind.ofName) ?_ items inner
      intro kind
      refine .readItem (readAlike_content _ kind) ?_
      intro rule
      exact .noItems (checked rule)
  | string value => cases value <;> exact sameOutcome_error _ _
  | number value => cases value <;> exact sameOutcome_error _ _
  | null | bool _ | broken => exact sameOutcome_error _ _

/-! ## Members that are overlooked -/

/-- The names that the content of an interval knows. -/
def boundsShape : Shape := .record [("min", .leaf), ("max", .leaf)]

/-- The names that a rule knows. Only the content of an interval has names in it. -/
def shape : Shape := .record [("type", .leaf), ("value", boundsShape)]

theorem overlooks_content (kind : Kind) : Overlooks boundsShape (contentOfJson kind) := by
  apply Json.overlooks_record
  case objects =>
    intro members others same
    cases kind with
    | digits => rfl
    | interval =>
        have max := same "max" _ rfl (Json.overlooks_leaf Json.readNatural)
        have min := same "min" _ rfl (Json.overlooks_leaf Json.readNatural)
        simp only [contentOfJson, boundsOfJson, max, min]
  case arrays =>
    intro before after tree other inner placed inside
    cases kind <;> rfl

theorem overlooks_ofJson : Overlooks shape ofJson := by
  apply Json.overlooks_record
  case objects =>
    intro members others same
    have type := same "type" _ rfl (Json.overlooks_leaf Kind.ofJson)
    have content (kind : Kind) := same "value" _ rfl (overlooks_content kind)
    simp only [ofJson, type, content]
  case arrays =>
    refine ItemsOverlook.readItem (Json.overlooks_leaf Json.readString) fun name => ?_
    refine ItemsOverlook.bind fun kind => ?_
    refine ItemsOverlook.readItem (overlooks_content kind) fun rule => ?_
    exact Json.itemsOverlook_nil _

end Paycard.Rule
