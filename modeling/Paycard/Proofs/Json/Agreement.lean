import Paycard.Proofs.Json.Order
import Paycard.Proofs.Json.Reading

/-! # Two ways of reading

Typed data is read from the tree of a text, member by member, or from the value that the text writes, by
looking its members up. Where no object has a key twice, both ways come to the same: what is under a key is
read once, whichever member is met first.
-/

namespace Paycard.Json

variable {ε α β : Type}

/-- The tree of a text and the value of the text are read alike, if the tree is plain and within this room. -/
def ReadAlike (room : Nat) (fromTree : Tree → Reading ε α) (fromJson : Json → Reading ε α) : Prop :=
  ∀ tree : Tree, tree.Plain room → SameOutcome (fromTree tree) (fromJson tree.toJson)

theorem ReadAlike.map {room : Nat} {fromTree : Tree → Reading ε α} {fromJson : Json → Reading ε α}
    (alike : ReadAlike room fromTree fromJson) (f : α → β) :
    ReadAlike room (fun tree => f <$> fromTree tree) (fun value => f <$> fromJson value) :=
  fun tree plain => (alike tree plain).map f

theorem ReadAlike.bind {room : Nat} {fromTree : Tree → Reading ε α} {fromJson : Json → Reading ε α}
    (alike : ReadAlike room fromTree fromJson) (f : α → Reading ε β) :
    ReadAlike room (fun tree => fromTree tree >>= f) (fun value => fromJson value >>= f) :=
  fun tree plain => (alike tree plain).bind fun content => sameOutcome_refl (f content)

theorem readAlike_readString (room : Nat) : ReadAlike room (Tree.readString (ε := ε)) readString := by
  intro tree _
  cases tree with
  | string value => cases value with
    | none => exact sameOutcome_error _ _
    | some text => exact sameOutcome_refl _
  | number value => cases value <;> exact sameOutcome_error _ _
  | null | bool _ | array _ _ | object _ _ | broken => exact sameOutcome_error _ _

theorem readAlike_readNatural (room : Nat) : ReadAlike room (Tree.readNatural (ε := ε)) readNatural := by
  intro tree _
  cases tree with
  | number value => cases value with
    | none => exact sameOutcome_error _ _
    | some number => cases number with
      | natural value => exact sameOutcome_refl _
      | other text => exact sameOutcome_error _ _
  | string value => cases value <;> exact sameOutcome_error _ _
  | null | bool _ | array _ _ | object _ _ | broken => exact sameOutcome_error _ _

theorem readAlike_readList {room : Nat} {fromTree : Tree → Reading ε α} {fromJson : Json → Reading ε α}
    (alike : ReadAlike (room - 1) fromTree fromJson) :
    ReadAlike room (Tree.readList fromTree) (readList fromJson) := by
  intro tree plain
  cases tree with
  | array items closed =>
      obtain ⟨-, rfl, inner⟩ := Tree.plain_array_iff.mp plain
      have ends : Tree.readList fromTree (.array items true) = items.mapM fromTree := bind_pure _
      rw [ends, Tree.toJson, Tree.toItems_eq_map]
      exact sameOutcome_mapM fun item member => alike item (inner item member)
  | string value => cases value <;> exact sameOutcome_error _ _
  | number value => cases value <;> exact sameOutcome_error _ _
  | null | bool _ | object _ _ | broken => exact sameOutcome_error _ _

/-! ## Records that are written as arrays -/

/-- The items of an array are read alike, from the text and from its value. -/
def ItemsReadAlike (room : Nat) (fromTrees : List Tree → Reading ε α)
    (fromValues : List Json → Reading ε α) : Prop :=
  ∀ items : List Tree, (∀ item ∈ items, item.Plain room) →
    SameOutcome (fromTrees items) (fromValues (items.map Tree.toJson))

theorem ItemsReadAlike.readItem {room : Nat} {fromTree : Tree → Reading ε α} {fromJson : Json → Reading ε α}
    {goOn : α × List Tree → Reading ε β} {goOn' : α × List Json → Reading ε β}
    (first : ReadAlike room fromTree fromJson)
    (next : ∀ content, ItemsReadAlike room (fun items => goOn (content, items))
      (fun items => goOn' (content, items))) :
    ItemsReadAlike room (fun items => Tree.readItem fromTree true items >>= goOn)
      (fun items => Json.readItem fromJson items >>= goOn') := by
  intro items plain
  cases items with
  | nil => exact sameOutcome_error _ _
  | cons item items =>
      obtain ⟨here, later⟩ := List.forall_mem_cons.mp plain
      simp only [Tree.readItem, Tree.readItem?, List.map_cons, Json.readItem, bind_map_left, bind_assoc,
        required, pure_bind]
      exact (first item here).bind fun content => next content items later

theorem ItemsReadAlike.noItems {room : Nat} (value : Reading ε α) :
    ItemsReadAlike room (fun items => do Tree.noItems true items; value)
      (fun items => do Json.noItems items; value) := by
  intro items _
  cases items with
  | nil => exact sameOutcome_refl _
  | cons item items => exact sameOutcome_error _ _

/-! ## Records that are written as objects -/

namespace Tree

theorem Plain.skip {room : Nat} {tree : Tree} (plain : tree.Plain room) :
    (tree.skip : Reading ε Unit) = .ok () := by
  rw [Tree.skip, if_pos (whole_of_readable tree room plain.readable)]

theorem readObject_closed {σ : Type} (step : σ → String → Tree → Reading ε σ) (draft : σ)
    (members : List (Option String × Tree)) :
    readObject step draft members true = readMembers step draft members := bind_pure _

/-- What a draft has of a field after some members: what it had before, or what is read once under the name
    of the field. -/
def gather (earlier : Option α) (read : Tree → Reading ε α) : Option Tree → Reading ε (Option α)
  | none => .ok earlier
  | some value => readOnce earlier read value

/-- A record that is read member by member into a draft. Each field has a name and a place in the draft. It
    is read once; a member under a name that no field has is only skipped. -/
structure Record (ε σ : Type) where
  Field : Type
  Content : Field → Type
  name : Field → String
  read (field : Field) : Tree → Reading ε (Content field)
  found (field : Field) : σ → Option (Content field)
  put (field : Field) : Option (Content field) → σ → σ
  step : σ → String → Tree → Reading ε σ
  name_injective : Function.Injective name
  found_put (field : Field) (content : Option (Content field)) (draft : σ) :
    found field (put field content draft) = content
  found_put_of_ne {field other : Field} (different : other ≠ field) (content : Option (Content field))
    (draft : σ) : found other (put field content draft) = found other draft
  ext {draft other : σ} : (∀ field, found field draft = found field other) → draft = other
  step_name (field : Field) (draft : σ) (value : Tree) : step draft (name field) value =
    (do return put field (← readOnce (found field draft) (read field) value) draft)
  step_unknown {key : String} (unknown : ∀ field, name field ≠ key) (draft : σ) (value : Tree) :
    step draft key value = (do value.skip; return draft)

namespace Record

variable {σ : Type} (record : Record ε σ)

/-- A member of the record gives its own field its content and leaves every other field as it was. -/
theorem step_name_eq_ok_iff {field : record.Field} {draft next : σ} {value : Tree} :
    record.step draft (record.name field) value = .ok next ↔
      readOnce (record.found field draft) (record.read field) value = .ok (record.found field next) ∧
        ∀ other, other ≠ field → record.found other next = record.found other draft := by
  rw [record.step_name, bind_eq_ok_iff]
  constructor
  · rintro ⟨content, reads, same⟩
    cases same
    rw [record.found_put]
    exact ⟨reads, fun other different => record.found_put_of_ne different content draft⟩
  · rintro ⟨reads, kept⟩
    refine ⟨_, reads, congrArg Except.ok (record.ext fun other => ?_)⟩
    by_cases here : other = field
    · subst here
      rw [record.found_put]
    · rw [record.found_put_of_ne here, kept other here]

/-- Members with different keys are read exactly when each field is, and then the draft has what stands
    under its names. -/
theorem readMembers_eq_ok_iff {room : Nat} {members : List (Option String × Tree)}
    (distinct : (keys members).Nodup)
    (plain : ∀ member ∈ members, member.1.isSome = true ∧ member.2.Plain room) {draft final : σ} :
    readMembers record.step draft members = .ok final ↔
      ∀ field, gather (record.found field draft) (record.read field)
        (members.lookup (some (record.name field))) = .ok (record.found field final) := by
  induction members generalizing draft with
  | nil =>
      simp only [readMembers, List.lookup_nil, gather, Except.ok.injEq]
      exact ⟨fun same _ => by rw [same], record.ext⟩
  | cons member members ih =>
      obtain ⟨key, value⟩ := member
      obtain ⟨⟨keyed, here⟩, later⟩ := List.forall_mem_cons.mp plain
      obtain ⟨key, rfl⟩ := Option.isSome_iff_exists.mp keyed
      obtain ⟨absent, distinct⟩ := List.nodup_cons.mp (keys_cons key value members ▸ distinct)
      rw [readMembers, bind_eq_ok_iff]
      simp only [ih distinct later]
      by_cases known : ∃ field, record.name field = key
      case pos =>
        obtain ⟨field, rfl⟩ := known
        have here : ((some (record.name field), value) :: members).lookup (some (record.name field)) =
            some value := List.lookup_cons_self
        have later := lookup_eq_none_of_not_mem_keys absent
        have elsewhere {other : record.Field} (different : other ≠ field) :
            ((some (record.name field), value) :: members).lookup (some (record.name other)) =
              members.lookup (some (record.name other)) :=
          lookup_cons_of_ne (by simpa using record.name_injective.ne different) value members
        simp only [record.step_name_eq_ok_iff]
        constructor
        · rintro ⟨next, ⟨reads, kept⟩, gathers⟩ other
          by_cases same : other = field
          · subst same
            have ends := gathers other
            rw [later, gather] at ends
            rw [here, gather, reads, ends]
          · rw [elsewhere same, ← kept other same]
            exact gathers other
        · intro gathers
          have reads := gathers field
          rw [here, gather] at reads
          refine ⟨record.put field (record.found field final) draft, ⟨?_, ?_⟩, fun other => ?_⟩
          · rwa [record.found_put]
          · exact fun other different => record.found_put_of_ne different _ draft
          · by_cases same : other = field
            · subst same
              rw [later, gather, record.found_put]
            · rw [record.found_put_of_ne same, ← elsewhere same]
              exact gathers other
      case neg =>
        have unknown : ∀ field, record.name field ≠ key := not_exists.mp known
        have elsewhere (field : record.Field) :
            ((some key, value) :: members).lookup (some (record.name field)) =
              members.lookup (some (record.name field)) :=
          lookup_cons_of_ne (by simpa using unknown field) value members
        simp only [record.step_unknown unknown, here.skip, elsewhere]
        constructor
        · rintro ⟨_, same, gathers⟩
          cases same
          exact gathers
        · exact fun gathers => ⟨draft, rfl, gathers⟩

/-- An object and its value give a record the same fields. -/
theorem readObject_eq_ok_iff {room : Nat} {members : List (Option String × Tree)} {closed : Bool}
    (plain : (object members closed).Plain room) (empty : σ)
    (starts : ∀ field, record.found field empty = none)
    (fromJson : (field : record.Field) → Json → Reading ε (record.Content field))
    (alike : ∀ field, ReadAlike (room - 1) (record.read field) (fromJson field)) (final : σ) :
    readObject record.step empty members closed = .ok final ↔
      ∀ field, readMember? (sortMembers (toMembers members)) (record.name field) (fromJson field) =
        .ok (record.found field final) := by
  obtain ⟨-, rfl, distinct, inner⟩ := plain_object_iff.mp plain
  rw [readObject_closed, record.readMembers_eq_ok_iff distinct inner]
  refine forall_congr' fun field => ?_
  rw [starts, readMember?, lookup_toJson distinct]
  cases stands : members.lookup (some (record.name field)) with
  | none => exact .rfl
  | some value => exact (alike field value (plain_of_lookup inner stands)).map some _

end Record

end Tree

end Paycard.Json
