import Paycard.Proofs.Json.Order

/-! # Members that a type does not know

A record looks its members up by name, so it makes no difference what else stands in its object. The shape
of a type says where its records are and which names they know. Each way of reading a value out of its
parts overlooks what its parts overlook.
-/

namespace Paycard.Json

/-- What a type knows of the values that it is read from: the names of its records, in the order in which
    they stand in an array, with what is read under each of them. Inside a leaf no name is known. -/
inductive Shape where
  | leaf
  | list (item : Shape)
  | record (members : List (String × Shape))

namespace Tree

/-- One tree is the other without one of its members, which stands in a record that does not know its
    name. -/
inductive Widened : Shape → Tree → Tree → Prop where
  | here {known : List (String × Shape)} {before after : List (Option String × Tree)} {key : String}
      {extra : Tree} {closed : Bool} (unknown : key ∉ known.map Prod.fst) :
      Widened (.record known) (.object (before ++ after) closed)
        (.object (before ++ (some key, extra) :: after) closed)
  | member {known : List (String × Shape)} {before after : List (Option String × Tree)} {key : String}
      {shape : Shape} {tree other : Tree} {closed : Bool} (named : known.lookup key = some shape)
      (inside : Widened shape tree other) :
      Widened (.record known) (.object (before ++ (some key, tree) :: after) closed)
        (.object (before ++ (some key, other) :: after) closed)
  | place {known : List (String × Shape)} {before after : List Tree} {key : String} {shape : Shape}
      {tree other : Tree} {closed : Bool} (placed : known[before.length]? = some (key, shape))
      (inside : Widened shape tree other) :
      Widened (.record known) (.array (before ++ tree :: after) closed)
        (.array (before ++ other :: after) closed)
  | item {shape : Shape} {before after : List Tree} {tree other : Tree} {closed : Bool}
      (inside : Widened shape tree other) :
      Widened (.list shape) (.array (before ++ tree :: after) closed)
        (.array (before ++ other :: after) closed)

end Tree

open Paycard.Json.Tree

variable {ε α β : Type} {shape : Shape} {shapes : List Shape}

/-- Reading a value makes no difference between trees of which one has more members that are unknown. -/
def Overlooks (shape : Shape) (read : Json → Reading ε α) : Prop :=
  ∀ tree other : Tree, Widened shape tree other → read tree.toJson = read other.toJson

theorem overlooks_leaf (read : Json → Reading ε α) : Overlooks .leaf read := by
  intro tree other widened
  cases widened

theorem overlooks_readList {read : Json → Reading ε α} (overlooks : Overlooks shape read) :
    Overlooks (.list shape) (readList read) := by
  intro tree other widened
  cases widened with
  | item inside =>
      simp only [toJson, toItems_eq_map, List.map_append, List.map_cons, readList, List.mapM_append,
        List.mapM_cons, overlooks _ _ inside]

/-- However many unknown members there are more, the value is read as before. -/
theorem Overlooks.of_widened {read : Json → Reading ε α} (overlooks : Overlooks shape read)
    {tree other : Tree} (widened : Relation.ReflTransGen (Widened shape) tree other) :
    read tree.toJson = read other.toJson := by
  induction widened with
  | refl => rfl
  | tail _ last ih => exact ih.trans (overlooks _ _ last)

/-! ## Records that are written as objects -/

theorem lookup_around (before after : List (Option String × Tree)) (key name : String) (value : Tree) :
    (sortMembers (toMembers (before ++ (some key, value) :: after))).lookup name =
      ((toMembers after).reverse.lookup name).or
        (if name = key then some value.toJson else (toMembers before).reverse.lookup name) := by
  have split : toMembers (before ++ (some key, value) :: after) =
      toMembers before ++ (key, value.toJson) :: toMembers after := by
    simp [toMembers_eq_filterMap]
  rw [lookup_sortMembers, split, List.reverse_append, List.reverse_cons, List.append_assoc,
    List.singleton_append, List.lookup_append, lookup_member]

theorem lookup_append (before after : List (Option String × Tree)) (name : String) :
    (sortMembers (toMembers (before ++ after))).lookup name =
      ((toMembers after).reverse.lookup name).or ((toMembers before).reverse.lookup name) := by
  have split : toMembers (before ++ after) = toMembers before ++ toMembers after := by
    simp [toMembers_eq_filterMap]
  rw [lookup_sortMembers, split, List.reverse_append, List.lookup_append]

/-- A member that a record knows is read as before, wherever the unknown member was added. -/
theorem readMember?_of_widened {known : List (String × Shape)} {members others : List (Option String × Tree)}
    {closed closed' : Bool} (widened : Widened (.record known) (.object members closed) (.object others closed'))
    {name : String} (named : known.lookup name = some shape) {read : Json → Reading ε α}
    (overlooks : Overlooks shape read) :
    readMember? (sortMembers (toMembers members)) name read =
      readMember? (sortMembers (toMembers others)) name read := by
  cases widened with
  | @here _ before after key extra _ unknown =>
      have different : name ≠ key := by
        rintro rfl
        obtain ⟨front, back, split, -⟩ := List.lookup_eq_some_iff.mp named
        exact unknown (by simp [split])
      rw [readMember?, readMember?, lookup_around, lookup_append, if_neg different]
  | @member _ before after key inner tree other _ named' inside =>
      rw [readMember?, readMember?, lookup_around, lookup_around]
      by_cases same : name = key
      · subst same
        obtain rfl : shape = inner := Option.some.inj (named.symm.trans named')
        cases (toMembers after).reverse.lookup name with
        | some value => rfl
        | none => simp only [if_pos, Option.none_or, overlooks _ _ inside]
      · rw [if_neg same, if_neg same]

/-! ## Records that are written as arrays -/

/-- Reading the items of an array makes no difference between items of which one has more unknown members,
    where the items have these shapes. -/
def ItemsOverlook (shapes : List Shape) (read : List Json → Reading ε α) : Prop :=
  ∀ (before after : List Tree) (tree other : Tree) (shape : Shape),
    shapes[before.length]? = some shape → Widened shape tree other →
      read ((before ++ tree :: after).map toJson) = read ((before ++ other :: after).map toJson)

theorem itemsOverlook_nil (read : List Json → Reading ε α) : ItemsOverlook [] read := by
  intro before after tree other shape placed
  cases placed

theorem ItemsOverlook.bind {x : Reading ε α} {read : α → List Json → Reading ε β}
    (next : ∀ content, ItemsOverlook shapes (read content)) :
    ItemsOverlook shapes (fun items => x >>= fun content => read content items) := by
  intro before after tree other shape placed inside
  exact bind_congr fun content => next content before after tree other _ placed inside

theorem ItemsOverlook.readItem {read : Json → Reading ε α} {goOn : α × List Json → Reading ε β}
    (first : Overlooks shape read) (next : ∀ content, ItemsOverlook shapes fun items => goOn (content, items)) :
    ItemsOverlook (shape :: shapes) fun items => Json.readItem read items >>= goOn := by
  intro before after tree other inner placed inside
  cases before with
  | nil =>
      cases placed
      simp only [List.nil_append, List.map_cons, Json.readItem, first _ _ inside]
  | cons item before =>
      simp only [List.cons_append, List.map_cons, Json.readItem, bind_map_left]
      exact bind_congr fun content => next content before after tree other _ placed inside

/-! ## Records in both forms -/

/-- Two lists of members have the same under all names that a record knows, as far as its readers see. -/
def SameMembers (ε : Type) (known : List (String × Shape)) (members others : List (String × Json)) : Prop :=
  ∀ (name : String) (shape : Shape), known.lookup name = some shape →
    ∀ {α : Type} {read : Json → Reading ε α}, Overlooks shape read →
      readMember? members name read = readMember? others name read

theorem overlooks_record {known : List (String × Shape)} {read : Json → Reading ε α}
    (objects : ∀ members others : List (String × Json), SameMembers ε known members others →
      read (.object members) = read (.object others))
    (arrays : ItemsOverlook (known.map Prod.snd) fun items => read (.array items)) :
    Overlooks (.record known) read := by
  intro tree other widened
  have same {members others : List (Option String × Tree)} {closed closed' : Bool}
      (widened : Widened (.record known) (.object members closed) (.object others closed')) :
      read (Tree.object members closed).toJson = read (Tree.object others closed').toJson :=
    objects _ _ fun _ _ named _ _ overlooks => readMember?_of_widened widened named overlooks
  cases widened with
  | here unknown => exact same (.here unknown)
  | member named inside => exact same (.member named inside)
  | place placed inside =>
      simp only [toJson, toItems_eq_map]
      exact arrays _ _ _ _ _ (by simp [placed]) inside

end Paycard.Json
